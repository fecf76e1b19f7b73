import ServiceDirectory.Store

/-! # Requests to a store

What a node asks of a store, with the type of each answer. A request is accepted when it is made and
served then or later: puts wait while they are paused, `ready` waits for the store to be reachable,
and a stream is read when there is something to read.
-/

namespace ServiceDirectory

inductive Request
  | get (key : Bytes)
  | getRange (range : KeyRange)
  | put (key value : Bytes) (lease : Option Int)
  | delete (key : Bytes)
  | txn (ops : List TxnOp)
  | grant (ttl : Int)
  | leaseStatus (id : Int)
  | openKeepAlive (lease : Int)
  | openWatch (range : KeyRange) (start : Int)
  | ready
  | sendKeepAlive (stream : Nat) (lease : Int)
  | nextRenewal (stream : Nat)
  | nextBatch (feed : Nat)
  | closeWatch (feed : Nat)
  deriving DecidableEq

namespace Request

def Answer : Request → Type
  | get _ => Except Error (Option Bytes)
  | getRange _ => Except Error (List KeyValue)
  | put _ _ _ => Except Error Unit
  | delete _ => Except Error Unit
  | txn _ => Except Error (List TxnReply)
  | grant _ => Except Error Int
  | leaseStatus _ => Except Error LeaseStatus
  | openKeepAlive _ => Except Error Nat
  | openWatch _ _ => Except Error Nat
  | ready => Unit
  | sendKeepAlive _ _ => Except Error Unit
  | nextRenewal _ => Except Error Renewal
  | nextBatch _ => Except Error Batch
  | closeWatch _ => Unit

/-- The answer that the request failed, for the requests that can fail as a whole. -/
def refused? (e : Error) : (q : Request) → Option q.Answer
  | get _ | getRange _ | put _ _ _ | delete _ | txn _ | grant _ | leaseStatus _ | openKeepAlive _
  | openWatch _ _ => some (.error e)
  | ready | sendKeepAlive _ _ | nextRenewal _ | nextBatch _ | closeWatch _ => none

/-- The request goes to the store itself, and not to a stream that is open already. -/
def isCall : Request → Bool
  | get _ | getRange _ | put _ _ _ | delete _ | txn _ | grant _ | leaseStatus _ | openKeepAlive _
  | openWatch _ _ => true
  | ready | sendKeepAlive _ _ | nextRenewal _ | nextBatch _ | closeWatch _ => false

def isPut : Request → Bool
  | put _ _ _ => true
  | txn ops => ops.any TxnOp.isPut
  | _ => false

end Request

namespace Store

def accept (s : Store) (q : Request) : Except Error Unit :=
  if q.isCall && !s.available then .error offline
  else match q with
    | .txn ops => if s.maxTxnOps < ops.length then .error tooManyOps else .ok ()
    | _ => .ok ()

/-- The answer to a request that was let in, or nothing while it has to wait. -/
def serve (s : Store) (now : Nat) (q : Request) : Option (q.Answer × Store) :=
  if q.isPut && s.putsPaused then none
  else match q with
    | .get key => let s := s.touch now; some (.ok (s.value? key), s)
    | .getRange range =>
      let s := s.touch now
      some (.ok (s.entries.filter fun k _ => range.contains k).values, s)
    | .put key value lease => some (s.put now key value lease)
    | .delete key => some (.ok (), s.delete now key)
    | .txn ops => some (s.txn now ops)
    | .grant ttl => let (id, s) := s.grant now ttl; some (.ok id, s)
    | .leaseStatus id => let s := s.touch now; some (.ok (s.leaseStatus now id), s)
    | .openKeepAlive lease => let (id, s) := s.openKeepAlive now lease; some (.ok id, s)
    | .openWatch range start => let (id, s) := s.openWatch now range start; some (.ok id, s)
    | .ready => if s.available then some ((), s) else none
    | .sendKeepAlive stream lease => some (s.sendKeepAlive now stream lease)
    | .nextRenewal stream => match s.nextRenewal stream with
      | (some r, s) => some (r, s)
      | (none, _) => none
    | .nextBatch feed => match s.nextBatch feed with
      | (some b, s) => some (b, s)
      | (none, _) => none
    | .closeWatch feed => some ((), s.closeWatch feed)

/-- A request made and served at once, unless it has to wait. -/
def ask? (s : Store) (now : Nat) (q : Request) : Option (q.Answer × Store) :=
  match s.accept q with
  | .error e => (q.refused? e).map fun a => (a, s)
  | .ok () => s.serve now q

/-- A transaction made at once, whether or not puts are paused. -/
def transact (now : Nat) (s : Store) (ops : List TxnOp) : Except Error (List TxnReply) × Store :=
  match s.accept (.txn ops) with
  | .error e => (.error e, s)
  | .ok () => s.txn now ops

end Store

end ServiceDirectory
