import ServiceDirectory.Service

/-! # Row locks

Tasks take turns on the row of an id. A lock is made when the first task asks for it and entered in
the table under its id. A task that asks is a claim on the lock that the table holds at that moment;
claims on one lock are served in the order in which they came to wait. A lock that is let go is
handed to the next claim at once, and that claim is held once its task goes on. When a held claim is
let go and no other claim on its lock is left, the table forgets the lock. A claim that is given up
before it is held only leaves the queue.
-/

namespace ServiceDirectory

inductive ClaimState
  | requested
  | waiting
  | granted
  | held
  deriving DecidableEq

def ClaimState.owns (s : ClaimState) : Bool := s == .granted || s == .held

structure Claim where
  task : Nat
  id : ServiceId
  lock : Nat
  state : ClaimState
  deriving DecidableEq

structure RowLocks where
  /-- The lock that serves each id. -/
  table : Dictionary ServiceId Nat
  next : Nat
  /-- All claims, those on one lock in the order of their turns. -/
  claims : List Claim
  deriving Inhabited

namespace RowLocks

def empty : RowLocks := ⟨Dictionary.empty, 0, []⟩

/-- Looks up the lock of the id, or makes one, and claims it. -/
def request (l : RowLocks) (task : Nat) (id : ServiceId) : RowLocks :=
  match l.table.find? id with
  | some lock => { l with claims := l.claims ++ [⟨task, id, lock, .requested⟩] }
  | none =>
    { table := l.table.insert id l.next, next := l.next + 1,
      claims := l.claims ++ [⟨task, id, l.next, .requested⟩] }

def isClaim (task : Nat) (id : ServiceId) (c : Claim) : Bool := c.task == task && c.id == id

/-- The latest claim of a task. A task that asks for a row that it holds waits behind itself. -/
def find? (l : RowLocks) (task : Nat) (id : ServiceId) : Option Claim :=
  (l.claims.filter (isClaim task id)).getLast?

def isTaken (l : RowLocks) (lock : Nat) : Bool :=
  l.claims.any fun c => c.lock == lock && c.state.owns

/-- Comes to wait for a claimed lock, or holds it at once if nobody does. -/
def await (l : RowLocks) (task : Nat) (id : ServiceId) : RowLocks :=
  match l.find? task id with
  | none => l
  | some c =>
    let state := if l.isTaken c.lock then ClaimState.waiting else .held
    { l with claims := l.claims.erase c ++ [{ c with state }] }

def passOn (lock : Nat) : List Claim → List Claim
  | [] => []
  | c :: r =>
    if c.lock == lock && c.state == .waiting then { c with state := .granted } :: r
    else c :: passOn lock r

/-- Drops a claim. If it has the lock, the next one in turn gets it. -/
def leave (l : RowLocks) (c : Claim) : RowLocks :=
  let rest := l.claims.erase c
  { l with claims := if c.state.owns then passOn c.lock rest else rest }

def forgetIdle (l : RowLocks) (id : ServiceId) : RowLocks :=
  match l.table.find? id with
  | none => l
  | some lock =>
    if l.claims.any (·.lock == lock) then l else { l with table := l.table.erase id }

def letGo (l : RowLocks) (c : Claim) : RowLocks := (l.leave c).forgetIdle c.id

def release (l : RowLocks) (task : Nat) (id : ServiceId) : RowLocks :=
  match l.find? task id with
  | none => l
  | some c => l.letGo c

def take (l : RowLocks) (task : Nat) (id : ServiceId) : RowLocks :=
  { l with claims := l.claims.map fun c =>
      if isClaim task id c && c.state == .granted then { c with state := .held } else c }

def owns (l : RowLocks) (task : Nat) (id : ServiceId) : Bool :=
  (l.find? task id).any (·.state.owns)

def claim (l : RowLocks) (task : Nat) (id : ServiceId) : RowLocks :=
  (l.request task id).await task id

/-- Ends all claims of a task: first gives up what it does not hold yet, which leaves the table as
it is, then lets go what it holds. -/
def drop (l : RowLocks) (task : Nat) : RowLocks :=
  let (held, others) := (l.claims.filter (·.task == task)).partition (·.state == .held)
  held.foldl letGo (others.foldl leave l)

end RowLocks

end ServiceDirectory
