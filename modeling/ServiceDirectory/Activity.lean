import ServiceDirectory.Activity.Startup

/-! # Tasks

All that a node can be busy with. `Activity.step` is what a task does next, `Activity.wake?` when
the clock alone lets it go on, and `Activity.drop` what becomes of the node when it is called off.
-/

namespace ServiceDirectory

open Activity

inductive Activity
  | row (action : RowAction) (stage : RowStage)
  | keepAlive (id : ServiceId) (stage : KeepAliveStage)
  | importing (stage : ImportStage)
  | republishing (stage : RepublishStage)
  | syncing (stage : SyncStage)
  | acquiring (stage : AcquireStage)
  | starting (stage : StartStage)
  | watchLoop (stage : WatchStage)
  | leaseLoop (stage : LeaseLoopStage)
  | syncLoop (stage : SyncLoopStage)

inductive Outcome
  | row (result : RowResult)
  | kept (result : Except Error Bool)
  | imported (result : ImportResult)
  | republished (result : RepublishResult)
  | synced (report : SyncReport)
  | acquired (result : Except Error Inherited)
  | started (result : Except Error Unit)
  | stopped
  | crashed

namespace Activity

def register (s : Service) : Activity := .row (.register s.toRow) .start
def unregister (id : ServiceId) : Activity := .row (.unregister id) .start
def expire (id : ServiceId) (generation : Nat) : Activity := .row (.expire id generation) .start
def touch (id : ServiceId) : Activity := .keepAlive id .start
def importOnce : Activity := .importing .start
def republish : Activity := .republishing .start
def synchronize : Activity := .syncing (.importing .start)
def acquire : Activity := .acquiring .start
def startUp : Activity := .starting (.importing .start)
def watch : Activity := .watchLoop .start
def keepLease : Activity := .leaseLoop .start
def keepSynchronized : Activity := .syncLoop .start

def loops : List Activity := [watch, keepLease, keepSynchronized]

def step (me now maxTxnOps : Nat) (n : Node) : Activity → Progress Node Activity Outcome
  | row action stage => (action.step me now n stage).within (row action) fun n r => .done n (.row r)
  | keepAlive id stage =>
    (keepAliveStep id me now n stage).within (keepAlive id) fun n r => .done n (.kept r)
  | importing stage => (importStep n stage).within importing fun n r => .done n (.imported r)
  | republishing stage =>
    (republishStep me maxTxnOps n stage).within republishing fun n r => .done n (.republished r)
  | syncing stage =>
    (syncStep me maxTxnOps n stage).within syncing fun n r => .done n (.synced r)
  | acquiring stage =>
    (acquireStep maxTxnOps n stage).within acquiring fun n r => .done n (.acquired r)
  | starting stage =>
    (startStep now maxTxnOps n stage).within starting fun n r => .done n (.started r)
  | watchLoop stage => (watchStep now n stage).within watchLoop fun n _ => .done n .stopped
  | leaseLoop stage => (leaseLoopStep now n stage).within leaseLoop fun n _ => .done n .stopped
  | syncLoop stage =>
    (syncLoopStep me now maxTxnOps n stage).within syncLoop fun n _ => .done n .stopped

def wake? : Activity → Option Nat
  | watchLoop (.sleeping _ _ wake) => some wake
  | leaseLoop (.idle tick _) => some tick
  | leaseLoop (.awaiting _ _ deadline) => some deadline
  | leaseLoop (.replaceSleeping _ _ wake) => some wake
  | syncLoop (.idle tick _) => some tick
  | _ => none

def feed? : Activity → Option Nat
  | watchLoop (.reading feed _) => some feed
  | watchLoop (.handling feed _ _) => some feed
  | watchLoop (.closing feed) => some feed
  | _ => none

/-- The node after the task was called off: its locks go to others. -/
def drop (me : Nat) (n : Node) : Node :=
  { n with
    locks := n.locks.drop me
    mutex := if n.mutex = some me then none else n.mutex }

/-- The task is the removal of a row whose timer was replaced before the removal took place. -/
def isStale (n : Node) : Activity → Bool
  | row (.expire id generation) stage => match stage with
    | .start | .queued | .locked => !n.registry.isCurrent id generation
    | _ => false
  | _ => false

def needsRegistry : Activity → Bool
  | row _ _ | keepAlive _ _ | starting _ | watchLoop _ => true
  | _ => false

end Activity

end ServiceDirectory
