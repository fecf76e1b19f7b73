import ServiceDirectory.Activity.LeaseKeeping

/-! # Watching

The watch of the service namespace applies each batch to the table of all services. It remembers the
first revision that it has not seen, beginning with what the store tells when the watch is opened,
and a watch that was lost is opened again from there. A watch that the store has cancelled starts
over from the present revision and asks for a synchronization, since events may be lost.
-/

namespace ServiceDirectory.Activity

inductive WatchStage
  | opening (next : Int) (failures : UInt32)
  | reading (feed : Nat) (next : Int)
  | handling (feed : Nat) (next : Int) (events : List Event)
  | failed (e : Error) (next : Int) (failures : UInt32)
  | waiting (next : Int) (failures : UInt32)
  | sleeping (next : Int) (failures : UInt32) (wake : Nat)
  | closing (feed : Nat)
  | stopped

/-- Revision zero stands for the present one. -/
def WatchStage.start : WatchStage := .opening 0 0

/-- A batch moves the next revision on, never back. The loop breaks down at the last revision. -/
def WatchStage.received (feed : Nat) (next : Int) (b : Batch) : WatchStage :=
  match b.nextRevision? with
  | none => .closing feed
  | some r =>
    if b.events.isEmpty then .reading feed (max next r) else .handling feed (max next r) b.events

def watchStep (now : Nat) (n : Node) : WatchStage → Progress Node WatchStage Unit
  | .opening next failures =>
    if n.shutdown then .done n ()
    else .query (.openWatch (.withPrefix n.keyspace.beginning) next) fun
      | .ok feed => .reading feed next
      | .error e => .failed e next failures
  | .reading feed next =>
    if n.shutdown then .move n (.closing feed)
    else .query (.nextBatch feed) fun
      | .ok b => .received feed next b
      | .error e => .failed e next 0
  | .handling feed next events => .move (n.handleEvents events) (.reading feed next)
  | .failed (.remote (.watchCanceled _ _)) _ failures =>
    .move { n with resync := true } (.opening 0 failures)
  | .failed e next failures =>
    .move n (if e.isUnavailable then .waiting next failures
      else .sleeping next failures (Clock.wake now (n.settings.backoff.delayMs failures).toNat))
  | .waiting next failures =>
    if n.shutdown then .done n () else .query .ready fun _ => .opening next failures
  | .sleeping next failures wake =>
    if n.shutdown then .done n ()
    else if wake ≤ now then .move n (.opening next (nextAttempt failures))
    else .wait
  | .closing feed => .query (.closeWatch feed) fun _ => .stopped
  | .stopped => .done n ()

end ServiceDirectory.Activity
