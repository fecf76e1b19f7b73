import ServiceDirectory.Error
import ServiceDirectory.Store.Range

/-! # Events and batches

Every change of a key is an event with the revision at which it happened. A watch delivers events in
batches, each with the revision of the store when it was sent.
-/

namespace ServiceDirectory

structure KeyValue where
  key : Bytes
  value : Bytes
  revision : Int
  /-- Zero if the key is bound to no lease. -/
  lease : Int
  deriving DecidableEq, Inhabited

inductive Event
  | put (key value : Bytes) (revision : Int)
  | delete (key : Bytes) (revision : Int)
  deriving DecidableEq

namespace Event

def key : Event → Bytes
  | put key _ _ => key
  | delete key _ => key

def revision : Event → Int
  | put _ _ revision => revision
  | delete _ revision => revision

end Event

structure Batch where
  revision : Int
  events : List Event
  deriving DecidableEq

namespace Batch

def lastRevision (b : Batch) : Int := (b.events.map Event.revision).foldl max b.revision

def nextRevision (b : Batch) : Int := b.lastRevision + 1

/-- The next revision, unless it is beyond 63 bits. -/
def nextRevision? (b : Batch) : Option Int :=
  if b.lastRevision < Int64.maxValue.toInt then some b.nextRevision else none

end Batch

inductive TxnOp
  | get (key : Bytes)
  | put (key value : Bytes) (lease : Option Int)
  | delete (key : Bytes)
  deriving DecidableEq

def TxnOp.isPut : TxnOp → Bool
  | put _ _ _ => true
  | _ => false

inductive TxnReply
  | got (kv : Option KeyValue)
  | put
  | deleted (count : Int)
  deriving DecidableEq

structure LeaseStatus where
  id : Int
  /-- The seconds left; none are left to a lease that is gone. -/
  ttl : Int
  keys : List Bytes
  deriving DecidableEq

def LeaseStatus.isAlive (s : LeaseStatus) : Bool := 0 < s.ttl

/-- The answer to a keep-alive: the renewed time, or zero if the lease is gone. -/
structure Renewal where
  id : Int
  ttl : Int
  deriving DecidableEq

end ServiceDirectory
