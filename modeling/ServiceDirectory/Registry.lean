import ServiceDirectory.Clock
import ServiceDirectory.Keyspace
import ServiceDirectory.Store.Event
import ServiceDirectory.Table

/-! # The registry

The rows that a node hosts, each with a timer that removes it. Touching a row arms a new timer under
a new generation, and a timer acts only if its generation is still that of its row. The functions
here are the parts of each operation that take place at once; what an operation then sends to the
remote store is a task (`Activity.Registration`).
-/

namespace ServiceDirectory

structure Timer where
  generation : Nat
  /-- In seconds. -/
  ttl : UInt32
  armedAt : Nat
  fired : Bool
  deriving DecidableEq

def Timer.deadline (t : Timer) : Nat := Clock.wake t.armedAt (t.ttl.toNat * 1000)

structure Registry where
  rows : Table
  timers : Dictionary ServiceId Timer
  generation : Nat
  ready : Bool
  deriving Inhabited

namespace Registry

def empty : Registry := ⟨Table.empty, Dictionary.empty, 0, false⟩

def arm (r : Registry) (now : Nat) (id : ServiceId) (ttl : UInt32) : Registry :=
  let generation := r.generation + 1
  { r with generation, timers := r.timers.insert id ⟨generation, ttl, now, false⟩ }

def disarm (r : Registry) (id : ServiceId) : Registry := { r with timers := r.timers.erase id }

def disarmAll (r : Registry) : Registry := { r with timers := Dictionary.empty }

def register (r : Registry) (now : Nat) (row : Row) : Except StorageError (Upsert × Registry) := do
  let (outcome, rows) ← r.rows.upsert row
  return (outcome, { r with rows }.arm now row.id row.ttl)

def unregister (r : Registry) (id : ServiceId) : Except StorageError (Option Row × Registry) := do
  let (removed, rows) ← r.rows.remove id
  return (removed, { r with rows }.disarm id)

/-- Arms a new timer with the stored time, if there is a row. -/
def keepAlive (r : Registry) (now : Nat) (id : ServiceId) :
    Except StorageError (Bool × Registry) := do
  match ← r.rows.find id with
  | some row => return (true, r.arm now row.id row.ttl)
  | none => return (false, r)

def isCurrent (r : Registry) (id : ServiceId) (generation : Nat) : Bool :=
  (r.timers.find? id).any (·.generation == generation)

/-- Removes the row of a timer that has run out; a timer that was replaced does nothing. A row that
cannot be read stays, though its timer is gone. -/
def expire (r : Registry) (id : ServiceId) (generation : Nat) : Option Row × Registry :=
  if r.isCurrent id generation then
    let r := r.disarm id
    match r.rows.remove id with
    | .ok (removed, rows) => (removed, { r with rows })
    | .error _ => (none, r)
  else (none, r)

/-- Rebuilds the rows from those that an earlier run left behind, in place of any there are. -/
def restore (r : Registry) (now : Nat) (rows : List Row) : Except StorageError (Nat × Registry) :=
  rows.foldlM (fun (n, r) row => do
    let (_, r) ← r.register now row
    return (n + 1, r)) (0, { r with rows := Table.empty })

/-- Timers that have run out and are not under way yet. -/
def dueTimers (r : Registry) (now : Nat) : List (ServiceId × Timer) :=
  (r.timers.filter fun _ t => !t.fired && t.deadline ≤ now).entries

def markFired (r : Registry) (id : ServiceId) : Registry :=
  match r.timers.find? id with
  | some t => { r with timers := r.timers.insert id { t with fired := true } }
  | none => r

end Registry

/-! ## The view of a node -/

/-- The rows of both tables in the order of their ids, the local one where both have one. The flag
tells the local rows. -/
def overlay (localRows globalRows : List Row) : List (Row × Bool) :=
  (Dictionary.ofList (globalRows.map (fun r => (r.id, (r, false))) ++
    localRows.map fun r => (r.id, (r, true)))).values

def listRows (localRows globalRows : Table) (instanceName serviceType : Option String) :
    Except StorageError (List (Row × Bool)) := do
  let globals ← globalRows.all
  let locals ← localRows.all
  return (overlay locals globals).filter fun (r, _) =>
    instanceName.all (· == r.id.instanceName) && serviceType.all (· == r.id.serviceType)

/-- What an event of the remote store changes in the table of all services. -/
def Keyspace.change? (k : Keyspace) : Event → Option RowChange
  | .put key value _ => (k.decode key value).map .put
  | .delete key _ => (k.parseKey key).map .delete

/-- Applies events to a table; one that cannot take them stays as it is. -/
def handleEvents (k : Keyspace) (t : Table) (events : List Event) : Table :=
  match t.apply (events.filterMap k.change?) with
  | .ok (_, t) => t
  | .error _ => t

end ServiceDirectory
