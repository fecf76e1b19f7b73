import ServiceDirectory.Store.Many
import ServiceDirectory.Activity.Synchronization

/-! # Acquiring and keeping the lease

A node writes under one lease. The lease is remembered, unbound, under the node's pointer key, so
that a node that starts again finds it together with the keys still bound to it. The keeping loop
renews the lease; a lease that is gone or cannot be renewed is replaced, and an unreachable store is
waited for.
-/

namespace ServiceDirectory.Activity

/-! ## Creating a lease -/

inductive GrantStage
  | start
  | granted (lease : Int)
  | pointed (lease : Int)
  | finishing (result : Except Error Int)

def grantStep (n : Node) : GrantStage → Progress Node GrantStage (Except Error Int)
  | .start => .query (.grant n.settings.leaseTtl) fun
    | .ok lease => .granted lease
    | .error e => .finishing (.error e)
  | .granted lease =>
    .query (.put (utf8 n.settings.pointerKey) (utf8 (Text.intText lease)) none) fun
      | .ok () => .pointed lease
      | .error e => .finishing (.error e)
  | .pointed lease => .move (n.adopt lease) (.finishing (.ok lease))
  | .finishing result => .done n result

/-! ## Acquiring -/

/-- The keys that are bound to an inherited lease, with their values. -/
abbrev Inherited := Found

inductive AcquireStage
  | start
  | pointed (lease : Int)
  | alive (lease : Int) (keys : List Bytes)
  | inheriting (lease : Int) (batches : List (List TxnOp)) (found : Inherited)
  | creating (stage : GrantStage)
  | waiting
  | finishing (result : Except Error Inherited)

/-- The lease that a pointer names: a number other than zero between blanks. -/
def leaseOfPointer? (value : Bytes) : Option Int := do
  let id ← Text.int64? (Text.trimChars (← text? value).toList)
  if id = 0 then none else some id

/-- Unavailability is waited out; any other error ends the attempt. -/
def AcquireStage.failed (e : Error) : AcquireStage :=
  if e.isUnavailable then .waiting else .finishing (.error e)

def acquireStep (maxTxnOps : Nat) (n : Node) :
    AcquireStage → Progress Node AcquireStage (Except Error Inherited)
  | .start => .query (.get (utf8 n.settings.pointerKey)) fun
    | .error e => .failed e
    | .ok value => match value.bind leaseOfPointer? with
      | some lease => .pointed lease
      | none => .creating .start
  | .pointed lease => .query (.leaseStatus lease) fun
    | .error e => .failed e
    | .ok status => if status.isAlive then .alive lease status.keys else .creating .start
  | .alive lease keys =>
    if hasRoom maxTxnOps then
      .move n (.inheriting lease (batched (getOps keys) maxTxnOps) Dictionary.empty)
    else .crash
  | .inheriting lease [] found => .move (n.adopt lease) (.finishing (.ok found))
  | .inheriting lease (ops :: batches) found => .query (.txn ops) fun
    | .error e => .failed e
    | .ok replies => .inheriting lease batches (addFound found replies)
  | .creating stage => (grantStep n stage).within .creating fun n result =>
    .move n (match result with
      | .ok _ => .finishing (.ok Dictionary.empty)
      | .error e => .failed e)
  | .waiting => .query .ready fun _ => .start
  | .finishing result => .done n result

/-! ## Keeping -/

inductive LeaseLoopStage
  | start
  | idle (tick : Nat) (stream : Option Nat)
  | renewing (tick : Nat) (stream : Option Nat)
  | opening (tick : Nat) (lease : Int)
  | sending (tick : Nat) (stream : Nat) (lease : Int)
  | awaiting (tick : Nat) (stream : Nat) (deadline : Nat)
  | recovering (tick : Nat)
  | replacing (tick : Nat) (attempt : UInt32) (stage : GrantStage)
  | replaceWaiting (tick : Nat) (attempt : UInt32)
  | replaceSleeping (tick : Nat) (attempt : UInt32) (wake : Nat)

def timedOut : Error := .unavailable "keep-alive response timed out"

/-- An interrupted stream is opened again once the store is reachable; any other failure has the
lease replaced. -/
def LeaseLoopStage.failed (tick : Nat) (e : Error) : LeaseLoopStage :=
  if e.isUnavailable || e.isStreamClosed then .recovering tick else .replacing tick 0 .start

def LeaseLoopStage.renewed (tick stream : Nat) (r : Renewal) : LeaseLoopStage :=
  if 0 < r.ttl then .idle tick (some stream) else .replacing tick 0 .start

/-- The next attempt; the last one that can be counted is followed by itself. -/
def nextAttempt (attempt : UInt32) : UInt32 := if attempt + 1 = 0 then attempt else attempt + 1

def leaseLoopStep (now : Nat) (n : Node) : LeaseLoopStage → Progress Node LeaseLoopStage Unit
  | .start => if n.settings.keepAlivePeriod = 0 then .crash else .move n (.idle now none)
  | .idle tick stream =>
    if n.shutdown then .done n ()
    else if tick ≤ now then
      .move n (.renewing (nextTick tick now n.settings.keepAlivePeriod) stream)
    else .wait
  | .renewing tick stream =>
    .move n (match n.lease, stream with
      | none, _ => .replacing tick 0 .start
      | some lease, none => .opening tick lease
      | some lease, some stream => .sending tick stream lease)
  | .opening tick lease => .query (.openKeepAlive lease) fun
    | .ok stream => .awaiting tick stream (Clock.later now now n.settings.keepAlivePeriod)
    | .error e => .failed tick e
  | .sending tick stream lease => .query (.sendKeepAlive stream lease) fun
    | .ok () => .awaiting tick stream (Clock.later now now n.settings.keepAlivePeriod)
    | .error e => .failed tick e
  | .awaiting tick stream deadline =>
    .ask (.nextRenewal stream)
      (fun a n => (n, match a with
        | .ok r => .renewed tick stream r
        | .error e => .failed tick e))
      (if deadline ≤ now then some (n, .failed tick timedOut) else none)
  | .recovering tick =>
    if n.shutdown then .done n () else .query .ready fun _ => .idle tick none
  | .replacing tick attempt stage =>
    (grantStep n stage).within (.replacing tick attempt) fun n result =>
      .move n (match result with
        | .ok _ => .idle tick none
        | .error e =>
          if e.isUnavailable then .replaceWaiting tick attempt
          else .replaceSleeping tick attempt
            (Clock.wake now (n.settings.backoff.delayMs attempt).toNat))
  | .replaceWaiting tick attempt =>
    if n.shutdown then .move n (.idle tick none)
    else .query .ready fun _ => .replacing tick attempt .start
  | .replaceSleeping tick attempt wake =>
    if n.shutdown then .move n (.idle tick none)
    else if wake ≤ now then .move n (.replacing tick (nextAttempt attempt) .start)
    else .wait

end ServiceDirectory.Activity
