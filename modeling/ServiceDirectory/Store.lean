import ServiceDirectory.Clock
import ServiceDirectory.Dictionary
import ServiceDirectory.Store.Event

/-! # The store

A store of keys with revisions, leases and watches. A lease that is due is dropped when the store is
next used; the keys bound to it go in one revision. `history` holds every event so far, oldest
first, and a watch opened at a revision replays it from there. While the store is offline nothing is
answered, and open streams have ended with an error.

Times are in milliseconds. An operation takes the time at which it is made. A lease that is to end
at a time beyond the clock breaks the store.
-/

namespace ServiceDirectory

structure Lease where
  /-- In seconds. -/
  grantedTtl : Int
  expiresAt : Nat
  deriving DecidableEq

/-- An open watch with the batches that were not read yet. Once it is not `live` it ends after
them. -/
structure Feed where
  id : Nat
  range : KeyRange
  pending : List (Except Error Batch)
  live : Bool

def Feed.deliver (revision : Int) (events : List Event) (f : Feed) : Feed :=
  let seen := events.filter fun e => f.range.contains e.key
  if f.live && !seen.isEmpty then { f with pending := f.pending ++ [.ok ⟨revision, seen⟩] } else f

inductive HeartbeatMode
  | answering
  | silent
  | ended
  deriving DecidableEq

structure Heartbeat where
  id : Nat
  pending : List (Except Error Renewal)
  mode : HeartbeatMode
  attached : Bool

structure Store where
  revision : Int
  entries : Dictionary Bytes KeyValue
  leases : Dictionary Int Lease
  lastLease : Int
  history : List Event
  feeds : List Feed
  heartbeats : List Heartbeat
  nextStream : Nat
  available : Bool
  putsPaused : Bool
  maxTxnOps : Nat
  /-- The sizes of the transactions that were tried. -/
  txnSizes : List Nat
  keepAlives : Nat
  /-- The store was given a time that its clock cannot count. It cannot be used any more. -/
  broken : Bool
  deriving Inhabited

namespace Store

def empty (maxTxnOps : Nat) : Store where
  revision := 0
  entries := Dictionary.empty
  leases := Dictionary.empty
  lastLease := 7000
  history := []
  feeds := []
  heartbeats := []
  nextStream := 0
  available := true
  putsPaused := false
  maxTxnOps := maxTxnOps
  txnSizes := []
  keepAlives := 0
  broken := false

def value? (s : Store) (key : Bytes) : Option Bytes := (s.entries.find? key).map (·.value)

def offline : Error := .unavailable "memory store offline"

def leaseNotFound : Error := .ofStatus .notFound "etcdserver: requested lease not found"

def tooManyOps : Error :=
  .ofStatus .invalidArgument "etcdserver: too many operations in txn request"

def publish (s : Store) (events : List Event) : Store :=
  if events.isEmpty then s
  else { s with
    history := s.history ++ events
    feeds := s.feeds.map (Feed.deliver s.revision events) }

def setEntry (s : Store) (key value : Bytes) (lease : Option Int) (revision : Int) : Store :=
  { s with entries := s.entries.insert key ⟨key, value, revision, lease.getD 0⟩ }

/-- Removes a lease and, in one revision, the keys bound to it. -/
def dropLease (s : Store) (id : Int) : Store :=
  if !s.leases.contains id then s
  else
    let s := { s with leases := s.leases.erase id }
    let bound := s.entries.filter fun _ kv => kv.lease == id
    if bound.size = 0 then s
    else
      let revision := s.revision + 1
      publish { s with revision, entries := s.entries.filter fun _ kv => kv.lease != id }
        (bound.keys.map (.delete · revision))

def expired (s : Store) (now : Nat) : List Int :=
  (s.leases.filter fun _ l => l.expiresAt ≤ now).keys

/-- Drops the leases that are due. -/
def touch (s : Store) (now : Nat) : Store := (s.expired now).foldl dropLease s

/-! ## Changes -/

/-- Writes a key in a revision of its own, whatever the lease. -/
def write (s : Store) (key value : Bytes) (lease : Option Int) : Store :=
  let revision := s.revision + 1
  publish ({ s with revision }.setEntry key value lease revision) [.put key value revision]

def seed (s : Store) (now : Nat) (key value : Bytes) (lease : Option Int) : Store :=
  (s.touch now).write key value lease

def checkLease (s : Store) : Option Int → Except Error Unit
  | some id => if id != 0 && !s.leases.contains id then .error leaseNotFound else .ok ()
  | none => .ok ()

def put (s : Store) (now : Nat) (key value : Bytes) (lease : Option Int) :
    Except Error Unit × Store :=
  let s := s.touch now
  match s.checkLease lease with
  | .error e => (.error e, s)
  | .ok () => (.ok (), s.write key value lease)

def delete (s : Store) (now : Nat) (key : Bytes) : Store :=
  let s := s.touch now
  if s.entries.contains key then
    let revision := s.revision + 1
    publish { s with revision, entries := s.entries.erase key } [.delete key revision]
  else s

/-- Carries out one operation at the revision of its transaction. The events are those so far. -/
def applyOp (revision : Int) (st : Store × List Event) : TxnOp → (Store × List Event) × TxnReply
  | .get key => (st, .got (st.1.entries.find? key))
  | .put key value lease =>
    ((st.1.setEntry key value lease revision, st.2 ++ [.put key value revision]), .put)
  | .delete key =>
    if st.1.entries.contains key then
      (({ st.1 with entries := st.1.entries.erase key }, st.2 ++ [.delete key revision]),
        .deleted 1)
    else (st, .deleted 0)

def applyOps (revision : Int) (st : Store × List Event) :
    List TxnOp → (Store × List Event) × List TxnReply
  | [] => (st, [])
  | op :: r =>
    let (st, reply) := applyOp revision st op
    let (st, replies) := applyOps revision st r
    (st, reply :: replies)

def checkLeases (s : Store) : List TxnOp → Except Error Unit
  | [] => .ok ()
  | .put _ _ lease :: r => do s.checkLease lease; s.checkLeases r
  | _ :: r => s.checkLeases r

/-- All operations take place, at one revision, or none does. -/
def txn (s : Store) (now : Nat) (ops : List TxnOp) : Except Error (List TxnReply) × Store :=
  let s := s.touch now
  let s := { s with txnSizes := s.txnSizes ++ [ops.length] }
  match s.checkLeases ops with
  | .error e => (.error e, s)
  | .ok () =>
    let revision := s.revision + 1
    let ((s, events), replies) := applyOps revision (s, []) ops
    let s := if events.isEmpty then s else { s with revision }
    (.ok replies, s.publish events)

/-! ## Leases -/

/-- A time that many seconds from now. Negative numbers count as 64-bit words. -/
def deadline? (now : Nat) (ttl : Int) : Option Nat :=
  Clock.later? now ((ttl % UInt64.size).toNat * 1000)

def extend (s : Store) (now : Nat) (id ttl : Int) : Store :=
  match deadline? now ttl with
  | some time => { s with leases := s.leases.insert id ⟨ttl, time⟩ }
  | none => { s with broken := true }

def grant (s : Store) (now : Nat) (ttl : Int) : Int × Store :=
  let s := s.touch now
  let id := s.lastLease + 1
  (id, { s with lastLease := id }.extend now id ttl)

def revoke (s : Store) (now : Nat) (id : Int) : Store := (s.touch now).dropLease id

def leaseStatus (s : Store) (now : Nat) (id : Int) : LeaseStatus :=
  match s.leases.find? id with
  | none => ⟨id, -1, []⟩
  | some l =>
    ⟨id, max 1 ((l.expiresAt - now) / 1000 : Nat),
      (s.entries.filter fun _ kv => kv.lease == id).keys⟩

def renew (s : Store) (now : Nat) (id : Int) : Renewal × Store :=
  let s := s.touch now
  let s := { s with keepAlives := s.keepAlives + 1 }
  match s.leases.find? id with
  | none => (⟨id, 0⟩, s)
  | some l => (⟨id, l.grantedTtl⟩, s.extend now id l.grantedTtl)

/-! ## Streams -/

def heartbeat? (s : Store) (id : Nat) : Option Heartbeat := s.heartbeats.find? (·.id == id)

def updateHeartbeat (s : Store) (id : Nat) (f : Heartbeat → Heartbeat) : Store :=
  { s with heartbeats := s.heartbeats.map fun h => if h.id == id then f h else h }

/-- Sends a keep-alive. A stream that meets an outage ends. -/
def sendKeepAlive (s : Store) (now : Nat) (stream : Nat) (lease : Int) :
    Except Error Unit × Store :=
  match s.heartbeat? stream with
  | none => (.error (.remote (.streamClosed .keepAlive)), s)
  | some h => match h.mode with
    | .ended => (.error (.remote (.streamClosed .keepAlive)), s)
    | .silent => (.ok (), s)
    | .answering =>
      if !s.available then (.ok (), s.updateHeartbeat stream ({ · with mode := .ended }))
      else
        let (r, s) := s.renew now lease
        (.ok (), s.updateHeartbeat stream fun h => { h with pending := h.pending ++ [.ok r] })

def openKeepAlive (s : Store) (now : Nat) (lease : Int) : Nat × Store :=
  let id := s.nextStream
  let s := s.touch now
  let s := { s with
    nextStream := id + 1
    heartbeats := s.heartbeats ++ [Heartbeat.mk id [] .answering true] }
  (id, (s.sendKeepAlive now id lease).2)

/-- The next answer, if there is one; the end of the stream counts as an error. -/
def nextRenewal (s : Store) (stream : Nat) : Option (Except Error Renewal) × Store :=
  match s.heartbeat? stream with
  | none => (some (.error (.remote (.streamClosed .keepAlive))), s)
  | some h => match h.pending with
    | r :: rest => (some r, s.updateHeartbeat stream ({ · with pending := rest }))
    | [] =>
      if h.mode = .ended then (some (.error (.remote (.streamClosed .keepAlive))), s)
      else (none, s)

/-- A watch first tells the present revision; one that starts at an earlier revision then replays
what has happened from there on. -/
def openWatch (s : Store) (now : Nat) (range : KeyRange) (start : Int) : Nat × Store :=
  let s := s.touch now
  let replay := s.history.filter fun e => start ≤ e.revision && range.contains e.key
  let pending : List (Except Error Batch) :=
    .ok ⟨s.revision, []⟩ ::
      if 0 < start ∧ !replay.isEmpty then [.ok ⟨s.revision, replay⟩] else []
  (s.nextStream, { s with
    nextStream := s.nextStream + 1
    feeds := s.feeds ++ [Feed.mk s.nextStream range pending true] })

def feed? (s : Store) (id : Nat) : Option Feed := s.feeds.find? (·.id == id)

def nextBatch (s : Store) (feed : Nat) : Option (Except Error Batch) × Store :=
  match s.feed? feed with
  | none => (some (.error (.remote (.streamClosed .watch))), s)
  | some f => match f.pending with
    | b :: rest =>
      (some b, { s with
        feeds := s.feeds.map fun g => if g.id == feed then { g with pending := rest } else g })
    | [] => if f.live then (none, s) else (some (.error (.remote (.streamClosed .watch))), s)

def closeWatch (s : Store) (feed : Nat) : Store :=
  { s with feeds := s.feeds.filter (·.id != feed) }

def watcherCount (s : Store) : Nat := (s.feeds.filter (·.live)).length

/-- Takes the store offline, which ends all open streams with an error, or brings it back. -/
def setAvailable (s : Store) (now : Nat) (up : Bool) : Store :=
  if up then { s with available := true }
  else
    let s := s.touch now
    { s with
      available := false
      feeds := s.feeds.map fun f =>
        if f.live then { f with live := false, pending := f.pending ++ [.error offline] } else f
      heartbeats := s.heartbeats.map fun h =>
        if h.attached then { h with attached := false, pending := h.pending ++ [.error offline] }
        else h }

end Store

end ServiceDirectory
