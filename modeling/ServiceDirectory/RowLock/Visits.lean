import ServiceDirectory.RowLock

/-! # Visits

Named visitors ask for rows, are told to go, or are called off. One told to go while it still waits
takes its turn and goes at once.
-/

namespace ServiceDirectory

structure Visitor where
  name : String
  task : Nat
  id : ServiceId
  released : Bool
  deriving DecidableEq

inductive VisitStep
  | lock (name : String) (id : ServiceId)
  | release (name : String)
  | cancel (name : String)

structure Visits where
  locks : RowLocks
  count : Nat
  visitors : List Visitor
  holders : List Visitor

namespace Visits

def empty : Visits := ⟨.empty, 0, [], []⟩

def finish (v : Visits) (x : Visitor) : Visits :=
  { v with
    locks := v.locks.release x.task x.id
    visitors := v.visitors.filter (·.task != x.task)
    holders := v.holders.filter (·.task != x.task) }

/-- A visitor whose turn has come takes its row; one that was told to go lets it go. -/
def advance (v : Visits) (x : Visitor) : Visits :=
  if v.locks.owns x.task x.id then
    if x.released then finish { v with locks := v.locks.take x.task x.id } x
    else if v.holders.any (·.task == x.task) then v
    else { v with locks := v.locks.take x.task x.id, holders := v.holders ++ [x] }
  else v

def settle : (fuel : Nat) → Visits → Visits
  | 0, v => v
  | fuel + 1, v => settle fuel (v.visitors.foldl advance v)

/-- The visitor of this name that was not told to go yet. -/
def named? (v : Visits) (name : String) : Option Visitor :=
  v.visitors.find? fun x => x.name == name && !x.released

def change (v : Visits) : VisitStep → Visits
  | .lock name id =>
    { v with
      locks := v.locks.claim v.count id
      count := v.count + 1
      visitors := v.visitors ++ [⟨name, v.count, id, false⟩] }
  | .release name => match v.named? name with
    | none => v
    | some x =>
      { v with visitors := v.visitors.map fun y =>
          if y.task == x.task then { y with released := true } else y }
  | .cancel name => match v.named? name with
    | none => v
    | some x =>
      { v with
        locks := v.locks.drop x.task
        visitors := v.visitors.filter (·.task != x.task)
        holders := v.holders.filter (·.task != x.task) }

/-- One step, after which everybody goes on as far as possible. -/
def step (v : Visits) (s : VisitStep) : Visits :=
  let v := v.change s
  settle (v.visitors.length + 1) v

def run : Visits → List VisitStep → List (List String)
  | _, [] => []
  | v, s :: r =>
    let v := v.step s
    v.holders.map (·.name) :: run v r

end Visits

end ServiceDirectory
