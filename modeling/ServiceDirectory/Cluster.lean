import ServiceDirectory.Cluster.Fault
import ServiceDirectory.Activity

/-! # Clusters

Nodes, the tasks that they are busy with, one store that all of them share, and a clock. Nothing
takes time but waiting for the clock: `settle` lets every task go on until none can, and `advance`
moves the clock from one waking time to the next.

The calls of nodes are logged, and faults may answer them.
-/

namespace ServiceDirectory

structure Member where
  id : Nat
  node : Node
  held : Bool
  loops : List Nat
  orders : List Nat
  stopped : Bool

/-- A start or a stop waits for its turn; nothing else does. -/
def Member.mayGoOn (m : Member) (id : Nat) : Bool :=
  !m.orders.contains id || m.orders.head? == some id

structure Running where
  id : Nat
  member : Nat
  task : Activity
  issued : Bool

/-- A node that is being stopped waits for its loops until the deadline. There is none before the
turn of the stop has come. -/
structure Stopping where
  id : Nat
  member : Nat
  deadline : Option Nat

/-- A caller that is no node: its requests are neither logged nor met by faults. A list of
transactions is made one after the other. -/
inductive Caller
  | ask (q : Request)
  | many (batches : List (List TxnOp))

inductive CallerOutcome
  | answer (q : Request) (a : q.Answer)
  | written (result : Except Error Unit)

structure RunningCaller where
  id : Nat
  caller : Caller
  admitted : Bool

structure Cluster where
  now : Nat
  store : Store
  log : List Request
  faults : List Fault
  members : List Member
  tasks : List Running
  stopping : List Stopping
  callers : List RunningCaller
  next : Nat
  finished : List (Nat × Outcome)
  answered : List (Nat × CallerOutcome)

namespace Cluster

def empty (maxTxnOps : Nat) : Cluster where
  now := 0
  store := .empty maxTxnOps
  log := []
  faults := []
  members := []
  tasks := []
  stopping := []
  callers := []
  next := 0
  finished := []
  answered := []

/-! ## Requests of nodes -/

def issue (c : Cluster) (q : Request) : Option q.Answer × Cluster :=
  let c := if q.callKind?.isSome || q == .ready then { c with log := c.log ++ [q] } else c
  let (reply, faults) := match q.callKind? with
    | some kind => Fault.meet kind c.faults
    | none => (none, c.faults)
  let c := { c with faults }
  let answer := match reply with
    | some reply => c.store.answerWith reply q
    | none => c.store.ask? c.now q
  match answer with
  | some (a, store) => (some a, { c with store })
  | none => (none, c)

def poll (c : Cluster) (q : Request) : Option q.Answer × Cluster :=
  match c.store.serve c.now q with
  | some (a, store) => (some a, { c with store })
  | none => (none, c)

/-! ## Tasks -/

def member? (c : Cluster) (id : Nat) : Option Member := c.members.find? (·.id == id)

def updateMember (c : Cluster) (id : Nat) (f : Member → Member) : Cluster :=
  { c with members := c.members.map fun m => if m.id == id then f m else m }

def setNode (c : Cluster) (id : Nat) (node : Node) : Cluster :=
  c.updateMember id ({ · with node })

def updateNode (c : Cluster) (id : Nat) (f : Node → Node) : Cluster :=
  c.updateMember id fun m => { m with node := f m.node }

def spawn (c : Cluster) (member : Nat) (task : Activity) : Nat × Cluster :=
  (c.next, { c with next := c.next + 1, tasks := c.tasks ++ [Running.mk c.next member task false] })

def spawnLoop (c : Cluster) (member : Nat) (task : Activity) : Cluster :=
  let (id, c) := c.spawn member task
  c.updateMember member fun m => { m with loops := m.loops ++ [id] }

def setTask (c : Cluster) (id : Nat) (task : Activity) (issued : Bool) : Cluster :=
  { c with tasks := c.tasks.map fun r => if r.id == id then { r with task, issued } else r }

def removeTask (c : Cluster) (id : Nat) : Cluster :=
  { c with tasks := c.tasks.filter (·.id != id) }

/-! Starts and stops of a node take turns. -/

def addOrder (c : Cluster) (member order : Nat) : Cluster :=
  c.updateMember member fun m => { m with orders := m.orders ++ [order] }

def defer (c : Cluster) (id : Nat) : Cluster :=
  { c with tasks := c.tasks.filter (·.id != id) ++ c.tasks.filter (·.id == id) }

/-- Ends a start or a stop. The next one goes on after everything that goes on already. -/
def endOrder (c : Cluster) (member order : Nat) : Cluster :=
  match c.member? member with
  | none => c
  | some m =>
    if m.orders.contains order then
      let orders := m.orders.erase order
      let c := c.updateMember member ({ · with orders })
      orders.head?.elim c c.defer
    else c

def start (c : Cluster) (member : Nat) : Nat × Cluster :=
  let (id, c) := c.spawn member .startUp
  (id, c.addOrder member id)

def abort (c : Cluster) (r : Running) : Cluster :=
  let c := (c.removeTask r.id).updateNode r.member (Activity.drop r.id)
  match r.task.feed? with
  | some feed => { c with store := c.store.closeWatch feed }
  | none => c

def finish (c : Cluster) (r : Running) (outcome : Outcome) : Cluster :=
  let c := { c.removeTask r.id with finished := c.finished ++ [(r.id, outcome)] }
  let loops := match outcome with
    | .started (.ok ()) => Activity.loops
    | _ => []
  (loops.foldl (·.spawnLoop r.member ·) c).endOrder r.member r.id

def crash (c : Cluster) (r : Running) : Cluster := (c.abort r).finish r .crashed

def stepTask? (c : Cluster) (r : Running) : Option Cluster := do
  let m ← c.member? r.member
  if !m.mayGoOn r.id then none
  else if r.task.isStale m.node then some (c.abort r)
  else match r.task.step r.id c.now c.store.maxTxnOps m.node with
    | .wait => none
    | .move n task => some ((c.setNode r.member n).setTask r.id task false)
    | .done n outcome => some ((c.setNode r.member n).finish r outcome)
    | .crash => some (c.crash r)
    | .ask q go otherwise =>
      let (answer, c) := if r.issued then c.poll q else c.issue q
      match answer, otherwise with
      | some a, _ =>
        let (n, task) := go a m.node
        some ((c.setNode r.member n).setTask r.id task false)
      | none, some (n, task) => some ((c.setNode r.member n).setTask r.id task false)
      | none, none => if r.issued then none else some (c.setTask r.id r.task true)

/-- Timers act only while the registry of their node exists. -/
def hasRegistry (c : Cluster) (m : Member) : Bool :=
  m.held || c.tasks.any fun r => r.member == m.id && r.task.needsRegistry

def fireTimer? (c : Cluster) : Option Cluster :=
  c.members.findSome? fun m =>
    if !c.hasRegistry m then none
    else (m.node.registry.dueTimers c.now).head?.map fun (id, timer) =>
      ((c.updateNode m.id fun n => { n with registry := n.registry.markFired id }).spawn m.id
        (.expire id timer.generation)).2

/-! ## Other callers -/

def call (c : Cluster) (caller : Caller) : Nat × Cluster :=
  (c.next, { c with
    next := c.next + 1
    callers := c.callers ++ [RunningCaller.mk c.next caller false] })

def answerCaller (c : Cluster) (id : Nat) (outcome : CallerOutcome) : Cluster :=
  { c with
    callers := c.callers.filter (·.id != id)
    answered := c.answered ++ [(id, outcome)] }

def setCaller (c : Cluster) (id : Nat) (caller : Caller) (admitted : Bool) : Cluster :=
  { c with
    callers := c.callers.map fun r => if r.id == id then { r with caller, admitted } else r }

def stepCaller? (c : Cluster) (r : RunningCaller) : Option Cluster :=
  match r.caller with
  | .many [] => some (c.answerCaller r.id (.written (.ok ())))
  | .many (ops :: batches) =>
    if !r.admitted then match c.store.accept (.txn ops) with
      | .error e => some (c.answerCaller r.id (.written (.error e)))
      | .ok () => some (c.setCaller r.id r.caller true)
    else if ops.any TxnOp.isPut && c.store.putsPaused then none
    else match c.store.txn c.now ops with
      | (.error e, store) => some ({ c with store }.answerCaller r.id (.written (.error e)))
      | (.ok _, store) => some ({ c with store }.setCaller r.id (.many batches) false)
  | .ask q =>
    if !r.admitted then match c.store.accept q with
      | .error e => (q.refused? e).map fun a => c.answerCaller r.id (.answer q a)
      | .ok () => some (c.setCaller r.id r.caller true)
    else (c.store.serve c.now q).map fun (a, store) =>
      { c with store }.answerCaller r.id (.answer q a)

/-! ## Stopping -/

/-- Stops a node, once nothing else is to be done before. -/
def stop (c : Cluster) (member : Nat) : Nat × Cluster :=
  let id := c.next
  (id, { c with
    next := id + 1
    stopping := c.stopping ++ [Stopping.mk id member none] }.addOrder member id)

/-- Begins to stop a node: it refuses requests, its timers are off, and its loops are to end. -/
def beginStop (c : Cluster) (m : Member) (s : Stopping) : Cluster :=
  let c := c.updateNode m.id fun n =>
    { n with
      registry := { n.registry.disarmAll with ready := false }
      shutdown := true }
  let deadline := some (c.now + m.node.settings.stopGrace)
  { c with stopping := c.stopping.map fun t => if t.id == s.id then { t with deadline } else t }

def endStop (c : Cluster) (m : Member) (s : Stopping) : Cluster :=
  let c := c.updateMember m.id fun m => { m with stopped := true }
  { c with
    stopping := c.stopping.filter (·.id != s.id)
    finished := c.finished ++ [(s.id, Outcome.stopped)] }.endOrder m.id s.id

def runningLoops (c : Cluster) (m : Member) : List Running :=
  c.tasks.filter fun r => m.loops.contains r.id

/-- A node is stopped once its loops have ended, or at the deadline, when they are called off. -/
def stepStopping? (c : Cluster) (s : Stopping) : Option Cluster := do
  let m ← c.member? s.member
  match s.deadline with
  | none => if m.mayGoOn s.id then some (c.beginStop m s) else none
  | some deadline =>
    let loops := c.runningLoops m
    if loops.isEmpty || deadline ≤ c.now then some ((loops.foldl abort c).endStop m s) else none

/-! ## Time -/

def step? (c : Cluster) : Option Cluster :=
  match c.tasks.findSome? c.stepTask? with
  | some c => some c
  | none => match c.fireTimer? with
    | some c => some c
    | none => match c.callers.findSome? c.stepCaller? with
      | some c => some c
      | none => c.stopping.findSome? c.stepStopping?

def run : (fuel : Nat) → Cluster → Cluster
  | 0, c => c
  | fuel + 1, c => match c.step? with
    | some c => run fuel c
    | none => c

/-- More steps than tasks can make at one time. -/
def stepLimit : Nat := 100000

/-- Lets everything go on until only the clock can help. -/
def settle (c : Cluster) : Cluster := run stepLimit c

/-- Settles, drops the leases that are due, and settles what follows from that. -/
def rest (c : Cluster) : Cluster :=
  let c := c.settle
  { c with store := c.store.touch c.now }.settle

def wakes (c : Cluster) : List Nat :=
  (c.tasks.filterMap (·.task.wake?) ++ c.stopping.filterMap (·.deadline) ++
    c.members.flatMap fun m =>
      if c.hasRegistry m then
        (m.node.registry.timers.filter fun _ t => !t.fired).values.map Timer.deadline
      else []).filter (c.now < ·)

/-- Moves the clock, stopping at every waking time on the way. The fuel is the time that is left. -/
def advanceTo (target : Nat) : (fuel : Nat) → Cluster → Cluster
  | 0, c => { c with now := target }
  | fuel + 1, c => match c.wakes.min? with
    | some wake =>
      if wake ≤ target then advanceTo target fuel { c with now := wake }.settle
      else { c with now := target }
    | none => { c with now := target }

def advance (c : Cluster) (ms : Nat) : Cluster := advanceTo (Clock.wake c.now ms) ms c

/-! ## Membership -/

def join (c : Cluster) (node : Node) : Nat × Cluster :=
  (c.next, { c with
    next := c.next + 1
    members := c.members ++ [Member.mk c.next node true [] [] false] })

/-- Nobody outside refers to the node any more. Its tasks go on. -/
def letGo (c : Cluster) (member : Nat) : Cluster := c.updateMember member ({ · with held := false })

def isRunning (c : Cluster) (task : Nat) : Bool := c.tasks.any (·.id == task)

end Cluster

end ServiceDirectory
