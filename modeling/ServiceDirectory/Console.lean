import ServiceDirectory.Cluster
import ServiceDirectory.Console.Command
import ServiceDirectory.Console.Reply
import ServiceDirectory.Node.Creation
import ServiceDirectory.Store.Many

/-! # A console

Commands are carried out one after the other. After each one the cluster comes to rest; a command
that is not answered by then is pending, and is answered during a later one. `execute` carries out
one command and tells what it was answered, and which pending ones were answered meanwhile.
-/

namespace ServiceDirectory

structure Handle where
  name : String
  member : Nat
  whole : Bool
  seen : Nat

structure Pending where
  command : Nat
  task : Nat
  isRequest : Bool

structure Console where
  cluster : Cluster
  handles : List Handle
  watches : List (String × Nat)
  heartbeats : List (String × Nat)
  count : Nat
  pending : List Pending

inductive Effect
  | reply (r : Reply)
  | await (task : Nat) (isRequest : Bool)

structure StepReport where
  reply : Option Reply
  time : Nat
  revision : Int
  done : List (Nat × Reply)

inductive Refusal
  | unknownName
  | storeBroke
  deriving DecidableEq

namespace Console

def empty (maxTxnOps : Nat) : Console where
  cluster := .empty maxTxnOps
  handles := []
  watches := []
  heartbeats := []
  count := 0
  pending := []

def setCluster (c : Console) (cluster : Cluster) : Console := { c with cluster }

def setStore (c : Console) (store : Store) : Console :=
  c.setCluster { c.cluster with store }

def named (name : String) (id : Nat) (entries : List (String × Nat)) : List (String × Nat) :=
  (name, id) :: entries.filter (·.1 != name)

def byName? (name : String) (entries : List (String × Nat)) : Option Nat :=
  (entries.find? (·.1 == name)).map (·.2)

/-! ## The store -/

def now (c : Console) : Nat := c.cluster.now

def store (c : Console) : Store := c.cluster.store

def maxTxnOps (c : Console) : Nat := c.store.maxTxnOps

def drainWatch (s : Store) (feed : Nat) : Reply × Store :=
  match s.feed? feed with
  | none => (.batches [] true, s)
  | some f =>
    (.batches f.pending !f.live, { s with
      feeds := s.feeds.map fun g => if g.id == feed then { g with pending := [] } else g })

def call (c : Console) (caller : Caller) : Effect × Console :=
  let (id, cluster) := c.cluster.call caller
  (.await id false, c.setCluster cluster)

/-- Puts may have to wait; all else is answered at once. -/
def ask (c : Console) (q : Request) : Effect × Console :=
  if q.isPut then c.call (.ask q)
  else match c.store.ask? c.now q with
    | some (a, s) => (.reply (.answer q a), c.setStore s)
    | none => (.reply .nothing, c)

def changeStore (c : Console) (f : Store → Nat → Store) : Option (Effect × Console) :=
  some (.reply .nothing, c.setStore (f c.store c.now))

def getMany (c : Console) (keys : List Bytes) : Effect × Console :=
  if hasRoom c.maxTxnOps then
    let (result, s) := ServiceDirectory.getMany (Store.transact c.now) c.maxTxnOps keys c.store
    (.reply (.found result), c.setStore s)
  else (.reply (.outcome .crashed), c)

def putMany (c : Console) (kvs : List (Bytes × Bytes)) (lease : Option Int) : Effect × Console :=
  if hasRoom c.maxTxnOps then c.call (.many (batched (putOps kvs lease) c.maxTxnOps))
  else (.reply (.outcome .crashed), c)

def onStore (c : Console) : StoreCommand → Option (Effect × Console)
  | .seed key value lease => c.changeStore fun s now => s.seed now key value lease
  | .seedRow k row lease => match k.encode row with
    | .error e => some (.reply (.seeded (.error (.codec e))), c)
    | .ok (key, value) =>
      some (.reply (.seeded (.ok (key, value))), c.setStore (c.store.seed c.now key value lease))
  | .seedLease ttl =>
    let (id, s) := c.store.grant c.now ttl
    some (.reply (.lease (some id)), c.setStore s)
  | .revoke lease => c.changeStore fun s now => s.revoke now lease
  | .setAvailable up => c.changeStore fun s now => s.setAvailable now up
  | .pausePuts paused => c.changeStore fun s _ => { s with putsPaused := paused }
  | .addFault f =>
    some (.reply .nothing, c.setCluster { c.cluster with faults := c.cluster.faults ++ [f] })
  | .calls => some (.reply (.calls c.cluster.log), c.setCluster { c.cluster with log := [] })
  | .contents => some (.reply (.contents (.ofStore c.store)), c)
  | .knowsLease lease => some (.reply (.flag (c.store.leases.contains lease)), c)
  | .ask q => some (c.ask q)
  | .getMany keys => some (c.getMany keys)
  | .putMany kvs lease => some (c.putMany kvs lease)
  | .openWatch name range start => match c.store.accept (.openWatch range start) with
    | .error e => some (.reply (.done (.error e)), c)
    | .ok () =>
      let (id, s) := c.store.openWatch c.now range start
      let s := match byName? name c.watches with
        | some old => s.closeWatch old
        | none => s
      some (.reply (.done (.ok ())),
        { c.setStore s with watches := named name id c.watches })
  | .pollWatch name => do
    let (reply, s) := drainWatch c.store (← byName? name c.watches)
    return (.reply reply, c.setStore s)
  | .closeWatch name => do
    let id ← byName? name c.watches
    return (.reply .nothing, { c.setStore (c.store.closeWatch id) with
      watches := c.watches.filter (·.1 != name) })
  | .openHeartbeat name lease => match c.store.accept (.openKeepAlive lease) with
    | .error e => some (.reply (.done (.error e)), c)
    | .ok () =>
      let (id, s) := c.store.openKeepAlive c.now lease
      some (.reply (.done (.ok ())),
        { c.setStore s with heartbeats := named name id c.heartbeats })
  | .sendHeartbeat name lease => do
    let (result, s) := c.store.sendKeepAlive c.now (← byName? name c.heartbeats) lease
    return (.reply (.done result), c.setStore s)
  | .pollHeartbeat name => do
    let (answer, s) := c.store.nextRenewal (← byName? name c.heartbeats)
    return (.reply (.renewal answer), c.setStore s)

/-! ## Nodes -/

def handle? (c : Console) (name : String) : Option Handle := c.handles.find? (·.name == name)

def setHandle (c : Console) (h : Handle) : Console :=
  { c with handles := h :: c.handles.filter (·.name != h.name) }

def forget (c : Console) (name : String) : Console :=
  match c.handle? name with
  | none => c
  | some h => { c.setCluster (c.cluster.letGo h.member) with
      handles := c.handles.filter (·.name != name) }

def create (c : Console) (name : String) (config : Config) (whole : Bool)
    (records : List Tables.Record) : Effect × Console :=
  match Node.create config (Tables.load records) with
  | .error e => (.reply (.refused e), c)
  | .ok node =>
    let c := c.forget name
    let (member, cluster) := c.cluster.join node
    (.reply (.done (.ok ())),
      (c.setCluster cluster).setHandle ⟨name, member, whole, 0⟩)

def loopActivity : LoopKind → Activity
  | .watch => .watch
  | .lease => .keepLease
  | .sync => .keepSynchronized

/-- A whole node tells nothing of itself while it is being started or stopped. -/
def isAtHand (h : Handle) (m : Member) : Bool := !h.whole || m.orders.isEmpty

def nodeText (h : Handle) (m : Member) : Option String :=
  if !h.whole || !isAtHand h m then none
  else if m.stopped then some "None"
  else some ("Some(" ++ m.node.description m.loops.length ++ ")")

def leaseOf (h : Handle) (m : Member) : Option Int :=
  if isAtHand h m && !m.stopped then m.node.lease else none

/-- Of the loops, only those that were run one by one are known. -/
def endedLoops (c : Console) (h : Handle) (m : Member) : List Bool :=
  if h.whole then [] else m.loops.map fun id => !c.cluster.isRunning id

def describe (h : Handle) (m : Member) : NodeDescription where
  registry := m.node.registryDescription
  lease := if h.whole then none else some m.node.leaseDescription
  node := nodeText h m

def spawn (c : Console) (h : Handle) (task : Activity) (isRequest : Bool) : Effect × Console :=
  let (id, cluster) := c.cluster.spawn h.member task
  (.await id isRequest, c.setCluster cluster)

def changeNode (c : Console) (h : Handle) (r : Reply) (f : Node → Node) : Effect × Console :=
  (.reply r, c.setCluster (c.cluster.updateNode h.member f))

def request (c : Console) (h : Handle) (n : Node) (q : RegistryRequest) : Effect × Console :=
  match n.answer q with
  | .error status => match q with
    | .list _ _ => (.reply (.listed (.error status)), c)
    | _ => (.reply (.success (.error status)), c)
  | .ok (.inl task) => c.spawn h task true
  | .ok (.inr infos) => (.reply (.listed (.ok infos)), c)

def putRow (c : Console) (h : Handle) (n : Node) (name : TableName) (row : Row) :
    Effect × Console :=
  let table := match name with
    | .localServices => n.registry.rows
    | .globalServices => n.globalRows
  match table.upsert row with
  | .error e => (.reply (.upserted (.error (.storage e))), c)
  | .ok (outcome, rows) => c.changeNode h (.upserted (.ok outcome)) fun n => match name with
    | .localServices => { n with registry := { n.registry with rows } }
    | .globalServices => { n with globalRows := rows }

def restore (c : Console) (h : Handle) (n : Node) (kvs : List (Bytes × Bytes)) : Effect × Console :=
  let (result, n) := Activity.restore c.now n (Dictionary.ofList kvs)
  c.changeNode h (.count result) fun _ => n

def start (c : Console) (h : Handle) : Effect × Console :=
  let (id, cluster) := c.cluster.start h.member
  (.await id false, c.setCluster cluster)

def stop (c : Console) (h : Handle) : Effect × Console :=
  let (id, cluster) := c.cluster.stop h.member
  (.await id false, c.setCluster cluster)

def onHandle (c : Console) (h : Handle) (m : Member) : NodeCommand → Effect × Console
  | .create _ _ _ => (.reply .nothing, c)
  | .letGo => (.reply .nothing, c.forget h.name)
  | .acquireLease => c.spawn h .acquire false
  | .leaseId => (.reply (.lease (leaseOf h m)), c)
  | .leaseChanges =>
    (.reply (.leaseChanges (m.node.adoptions != h.seen) m.node.published),
      c.setHandle { h with seen := m.node.adoptions })
  | .run loop =>
    (.reply .nothing, c.setCluster (c.cluster.spawnLoop h.member (loopActivity loop)))
  | .cancel => c.changeNode h .nothing ({ · with shutdown := true })
  | .loops => (.reply (.flags (c.endedLoops h m)), c)
  | .resync => c.changeNode h .nothing ({ · with resync := true })
  | .importOnce => c.spawn h .importOnce false
  | .republish => c.spawn h .republish false
  | .synchronize => c.spawn h .synchronize false
  | .register (.error e) => (.reply (.refused (.codec e)), c)
  | .register (.ok s) => c.spawn h (.register s) false
  | .unregister id => c.spawn h (.unregister id) false
  | .keepAlive id => c.spawn h (.touch id) false
  | .list instanceName serviceType =>
    (.reply (.rows ((m.node.list instanceName serviceType).mapError .storage)), c)
  | .restore kvs => c.restore h m.node kvs
  | .handleEvents events => c.changeNode h .nothing (·.handleEvents events)
  | .disarmAll => c.changeNode h .nothing fun n => { n with registry := n.registry.disarmAll }
  | .setReady ready => c.changeNode h (.flag ready) (Activity.setReady · ready)
  | .request q => c.request h m.node q
  | .tables => (.reply (.tables ⟨m.node.registry.rows, m.node.globalRows⟩), c)
  | .putRow name row => c.putRow h m.node name row
  | .describe => (.reply (.description (describe h m)), c)
  | .start => c.start h
  | .stop => c.stop h

def onNode (c : Console) (name : String) : NodeCommand → Option (Effect × Console)
  | .create config whole records => some (c.create name config whole records)
  | command => do
    let h ← c.handle? name
    return c.onHandle h (← c.cluster.member? h.member) command

/-! ## Steps -/

def perform (c : Console) : Command → Option (Effect × Console)
  | .advance ms => some (.reply .nothing, c.setCluster (c.cluster.advance ms))
  | .store command => c.onStore command
  | .node name command => c.onNode name command

def answerOf? (c : Cluster) (p : Pending) : Option Reply :=
  match c.finished.find? (·.1 == p.task), c.answered.find? (·.1 == p.task) with
  | some (_, o), _ => some (if p.isRequest then .success (.ok o.success) else .outcome o)
  | none, some (_, .answer q a) => some (.answer q a)
  | none, some (_, .written result) => some (.done result)
  | none, none => none

def report (c : Console) (effect : Effect) : StepReport × Console :=
  let pending : List Pending := match effect with
    | .reply _ => c.pending
    | .await task isRequest => c.pending ++ [⟨c.count, task, isRequest⟩]
  let answered := pending.filterMap fun p => (answerOf? c.cluster p).map fun r => (p.command, r)
  let reply := match effect with
    | .reply r => some r
    | .await _ _ => (answered.find? (·.1 == c.count)).map (·.2)
  ({ reply
     time := c.now
     revision := c.store.revision
     done := answered.filter (·.1 != c.count) },
   { c with
     count := c.count + 1
     pending := pending.filter fun p => (answerOf? c.cluster p).isNone })

/-- Carries out a command, after which the cluster comes to rest. -/
def execute (c : Console) (command : Command) : Except Refusal (StepReport × Console) :=
  match c.perform command with
  | none => .error .unknownName
  | some (effect, c) =>
    let c := c.setCluster c.cluster.rest
    if c.store.broken then .error .storeBroke else .ok (c.report effect)

end Console

end ServiceDirectory
