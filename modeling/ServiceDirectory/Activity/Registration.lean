import ServiceDirectory.Node
import ServiceDirectory.Activity.Progress

/-! # Registering, unregistering, keeping alive and expiring

A change of a hosted row takes the lock of the row, then the mutex of the local rows; the change
itself takes place under both. The mutex is let go before the change is sent to the remote store,
the row's lock after it, so that remote writes for one service land in the order of the local
changes. A remote write that fails is left to the next synchronization.
-/

namespace ServiceDirectory

namespace Node

def claimRow (n : Node) (task : Nat) (id : ServiceId) : Node :=
  { n with locks := n.locks.claim task id }

def ownsRow (n : Node) (task : Nat) (id : ServiceId) : Bool := n.locks.owns task id

def takeRow (n : Node) (task : Nat) (id : ServiceId) : Node :=
  { n with locks := n.locks.take task id }

def releaseRow (n : Node) (task : Nat) (id : ServiceId) : Node :=
  { n with locks := n.locks.release task id }

/-- The write that makes the remote store hold a row, if the node has a lease and the row can be
written. -/
def putRequest? (n : Node) (row : Row) : Option Request :=
  match n.lease, n.keyspace.encode row with
  | some lease, .ok (key, value) => some (.put key value (some lease))
  | _, _ => none

end Node

namespace Activity

inductive RowAction
  | register (row : Row)
  | unregister (id : ServiceId)
  | expire (id : ServiceId) (generation : Nat)
  deriving DecidableEq

def RowAction.id : RowAction → ServiceId
  | register row => row.id
  | unregister id => id
  | expire id _ => id

/-- The answer to a registration tells what it did; the other actions tell nothing. -/
abbrev RowResult := Except Error (Option Upsert)

inductive RowStage
  | start
  | queued
  | locked
  | inside
  | forwarding (request : Option Request) (result : RowResult)
  | finishing (result : RowResult)

def RowAction.perform (now : Nat) (n : Node) : RowAction → Node × RowStage
  | .register row =>
    match n.registry.register now row with
    | .error e => (n, .finishing (.error (.storage e)))
    | .ok (outcome, registry) =>
      let n := { n with registry }
      (n, if outcome.changed then .forwarding (n.putRequest? row) (.ok outcome)
        else .finishing (.ok outcome))
  | .unregister id =>
    match n.registry.unregister id with
    | .error e => (n, .finishing (.error (.storage e)))
    | .ok (removed, registry) =>
      ({ n with registry },
        if removed.isSome then .forwarding (some (.delete (n.keyspace.key id))) (.ok none)
        else .finishing (.ok none))
  | .expire id generation =>
    let (removed, registry) := n.registry.expire id generation
    ({ n with registry },
      if removed.isSome then .forwarding (some (.delete (n.keyspace.key id))) (.ok none)
      else .finishing (.ok none))

def RowAction.step (a : RowAction) (me now : Nat) (n : Node) :
    RowStage → Progress Node RowStage RowResult
  | .start => .move (n.claimRow me a.id) .queued
  | .queued => if n.ownsRow me a.id then .move (n.takeRow me a.id) .locked else .wait
  | .locked => if n.mutex.isNone then .move { n with mutex := some me } .inside else .wait
  | .inside =>
    let (n, next) := a.perform now { n with mutex := none }
    .move n next
  | .forwarding none result => .move n (.finishing result)
  | .forwarding (some q) result => .query q fun _ => .finishing result
  | .finishing result => .done (n.releaseRow me a.id) result

/-- Keeping alive takes the mutex only. -/
inductive KeepAliveStage
  | start
  | inside

def keepAliveStep (id : ServiceId) (me now : Nat) (n : Node) :
    KeepAliveStage → Progress Node KeepAliveStage (Except Error Bool)
  | .start => if n.mutex.isNone then .move { n with mutex := some me } .inside else .wait
  | .inside =>
    let n := { n with mutex := none }
    match n.registry.keepAlive now id with
    | .error e => .done n (.error (.storage e))
    | .ok (found, registry) => .done { n with registry } (.ok found)

end Activity

end ServiceDirectory
