import ServiceDirectory.Store.Request

/-! # Faults

A fault stands in for the answers to some of the calls of one kind: after `skip` calls that it lets
pass, it answers the next `times`. The store does not see the calls that a fault answers.
-/

namespace ServiceDirectory

inductive CallKind
  | get | getRange | put | delete | txn | grant | leaseStatus | openKeepAlive | openWatch
  deriving DecidableEq

def Request.callKind? : Request → Option CallKind
  | get _ => some .get
  | getRange _ => some .getRange
  | put _ _ _ => some .put
  | delete _ => some .delete
  | txn _ => some .txn
  | grant _ => some .grant
  | leaseStatus _ => some .leaseStatus
  | openKeepAlive _ => some .openKeepAlive
  | openWatch _ _ => some .openWatch
  | _ => none

inductive FaultReply
  | fail (e : Error)
  | closed
  | silent
  | expired
  | yields (items : List (Except Error Batch))

structure Fault where
  kind : CallKind
  reply : FaultReply
  skip : Nat
  times : Nat

/-- What the faults make of a call: the reply of the first one for its kind, if that does not let
the call pass. -/
def Fault.meet (kind : CallKind) : List Fault → Option FaultReply × List Fault
  | [] => (none, [])
  | f :: r =>
    if f.kind ≠ kind ∨ f.times = 0 then
      let (reply, r) := meet kind r
      (reply, f :: r)
    else if 0 < f.skip then (none, { f with skip := f.skip - 1 } :: r)
    else (some f.reply, { f with times := f.times - 1 } :: r)

namespace Store

def addHeartbeat (s : Store) (pending : List (Except Error Renewal)) (mode : HeartbeatMode) :
    Nat × Store :=
  (s.nextStream, { s with
    nextStream := s.nextStream + 1
    heartbeats := s.heartbeats ++ [Heartbeat.mk s.nextStream pending mode false] })

def addFeed (s : Store) (range : KeyRange) (items : List (Except Error Batch)) : Nat × Store :=
  (s.nextStream, { s with
    nextStream := s.nextStream + 1
    feeds := s.feeds ++ [Feed.mk s.nextStream range items false] })

/-- The answer that a fault gives in place of the store. A reply that does not suit the request is
no answer. -/
def answerWith (s : Store) (reply : FaultReply) (q : Request) : Option (q.Answer × Store) :=
  match reply, q with
  | .fail e, q => (q.refused? e).map fun a => (a, s)
  | .closed, .openKeepAlive _ => let (id, s) := s.addHeartbeat [] .ended; some (.ok id, s)
  | .silent, .openKeepAlive _ => let (id, s) := s.addHeartbeat [] .silent; some (.ok id, s)
  | .expired, .openKeepAlive lease =>
    let (id, s) := s.addHeartbeat [.ok ⟨lease, 0⟩] .ended
    some (.ok id, s)
  | .closed, .openWatch range _ => let (id, s) := s.addFeed range []; some (.ok id, s)
  | .yields items, .openWatch range _ => let (id, s) := s.addFeed range items; some (.ok id, s)
  | _, _ => none

end Store

end ServiceDirectory
