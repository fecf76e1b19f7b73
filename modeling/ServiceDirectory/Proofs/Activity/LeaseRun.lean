import ServiceDirectory.Activity
import ServiceDirectory.Node.Creation
import ServiceDirectory.Proofs.Store.KeepAlive
import Mathlib.Logic.Relation

/-! # Keeping a lease

A node acquires a lease and keeps it, while others use the same store, which can always be reached;
the lease is not revoked. A lease that was granted for longer than the period of its renewals is
kept for ever, and no other is (`isKept_iff_outlasts`). A configuration sees to it that the leases
which the node is granted are such; a lease that it has found under its pointer need not be.
-/

namespace ServiceDirectory

open Activity

def Activity.stream? : Activity → Option Nat
  | leaseLoop (.idle _ stream) | leaseLoop (.renewing _ stream) => stream
  | leaseLoop (.sending _ stream _) | leaseLoop (.awaiting _ stream _) => some stream
  | _ => none

/-- The lease that is about to be adopted, or was. -/
def Activity.GrantStage.hand? (n : Node) : GrantStage → Option Int
  | .granted lease | .pointed lease => some lease
  | .finishing (.ok _) => n.lease
  | .start | .finishing (.error _) => none

def Activity.AcquireStage.hand? (n : Node) : AcquireStage → Option Int
  | .alive lease _ | .inheriting lease _ _ => some lease
  | .creating stage => stage.hand? n
  | .finishing (.ok _) => n.lease
  | .start | .pointed _ | .waiting | .finishing (.error _) => none

theorem Activity.AcquireStage.hand?_congr {n n' : Node} (h : n'.lease = n.lease)
    (stage : AcquireStage) : stage.hand? n' = stage.hand? n := by
  unfold AcquireStage.hand? GrantStage.hand?
  rw [h]

theorem Activity.AcquireStage.hand?_failed_ne (n : Node) (e : Error) (lease : Int) :
    (AcquireStage.failed e).hand? n ≠ some lease := by
  unfold AcquireStage.failed
  split <;> exact nofun

/-- A task that acquires or keeps the lease of its node. -/
structure LeaseRun where
  task : Nat
  activity : Activity
  node : Node
  store : Store
  now : Nat
  granted : List Int

namespace LeaseRun

variable {w w' : LeaseRun} {lease ttl : Int} {store : Store} {period : Nat}

def progress (w : LeaseRun) : Progress Node Activity Outcome :=
  w.activity.step w.task w.now w.store.maxTxnOps w.node

theorem progress_acquiring {stage : AcquireStage} (h : w.activity = .acquiring stage) :
    w.progress = (acquireStep w.store.maxTxnOps w.node stage).within acquiring
      fun n r => .done n (.acquired r) := by
  rw [progress, h]
  rfl

theorem progress_leaseLoop {stage : LeaseLoopStage} (h : w.activity = .leaseLoop stage) :
    w.progress = (leaseLoopStep w.now w.node stage).within leaseLoop
      fun n _ => .done n .stopped := by
  rw [progress, h]
  rfl

def grantedAfter (w : LeaseRun) : (q : Request) → q.Answer → List Int
  | .grant _, a => match (a : Except Error Int) with
    | .ok id => id :: w.granted
    | .error _ => w.granted
  | _, _ => w.granted

def turn? (w : LeaseRun) : Option LeaseRun :=
  match w.progress with
  | .move node activity => some { w with node, activity }
  | .ask q go otherwise => match w.store.ask? w.now q with
    | some (a, store) => some { w with
        node := (go a w.node).1
        activity := (go a w.node).2
        store
        granted := w.grantedAfter q a }
    | none => otherwise.map fun (node, activity) => { w with node, activity }
  | .wait | .done _ _ | .crash => none

def acquired? (w : LeaseRun) : Option Node :=
  match w.progress with
  | .done node (.acquired (.ok _)) => some node
  | _ => none

def keeping (w : LeaseRun) (node : Node) : LeaseRun := { w with node, activity := keepLease }

/-- Only the clock can help the task. -/
def IsWaiting (w : LeaseRun) : Prop :=
  match w.progress with
  | .wait => True
  | .ask q _ none => w.store.ask? w.now q = none
  | _ => False

/-- What others do to the store. They leave alone the lease and the stream of the task. -/
inductive Elsewhere (lease : Int) (w : LeaseRun) : Store → Prop
  | request {q : Request} {a : q.Answer} {store : Store} : w.store.ask? w.now q = some (a, store) →
      (∀ stream, w.activity.stream? = some stream → q.stream? ≠ some stream) →
      Elsewhere lease w store
  | seed (key value : Bytes) (bound : Option Int) :
      Elsewhere lease w (w.store.seed w.now key value bound)
  | revoke {id : Int} : id ≠ lease → Elsewhere lease w (w.store.revoke w.now id)

inductive Step (lease : Int) : LeaseRun → LeaseRun → Prop
  | turn {w w' : LeaseRun} : w.turn? = some w' → w'.store.broken = false → Step lease w w'
  | elsewhere {w : LeaseRun} {store : Store} : Elsewhere lease w store → store.broken = false →
      Step lease w { w with store }
  | node {w : LeaseRun} {node : Node} : node.settings = w.node.settings →
      node.lease = w.node.lease → node.shutdown = w.node.shutdown → Step lease w { w with node }
  | elapse {w : LeaseRun} : w.IsWaiting → Step lease w { w with now := w.now + 1 }

structure IsStart (w : LeaseRun) : Prop where
  activity : w.activity = acquire
  settings : ∃ c : Config, w.node.settings = c.nodeSettings ∧
    0 < c.lease.keepAliveIntervalSecs.toNat ∧
    (c.lease.keepAliveIntervalSecs.toNat : Int) < c.lease.ttlSecs.toInt
  shutdown : w.node.shutdown = false
  available : w.store.available = true
  putsPaused : w.store.putsPaused = false
  broken : w.store.broken = false
  used : w.store.IsUsed w.now
  granted : w.granted = []

/-- A lease that is granted for so many seconds lasts for more than the period. -/
def Outlasts (ttl : Int) (period : Nat) : Prop := 0 < ttl ∧ period < Store.lifetime ttl

theorem outlasts_of_config {c : Config} (h : (c.lease.keepAliveIntervalSecs.toNat : Int) <
    c.lease.ttlSecs.toInt) : Outlasts c.nodeSettings.leaseTtl c.nodeSettings.keepAlivePeriod := by
  have hmax : c.lease.ttlSecs.toInt < (UInt64.size : Int) :=
    lt_of_lt_of_le (Int64.toInt_lt _) (by decide)
  have hpos : 0 < c.lease.ttlSecs.toInt := lt_of_le_of_lt (Int.natCast_nonneg _) h
  refine ⟨hpos, ?_⟩
  simp only [Config.nodeSettings, Store.lifetime, Int.emod_eq_of_lt hpos.le hmax]
  omega

/-- Nothing keeps the task from what it does. -/
structure IsServed (w : LeaseRun) : Prop where
  outlasts : Outlasts w.node.settings.leaseTtl w.node.settings.keepAlivePeriod
  period : 0 < w.node.settings.keepAlivePeriod
  shutdown : w.node.shutdown = false
  available : w.store.available = true
  putsPaused : w.store.putsPaused = false
  broken : w.store.broken = false
  sound : w.store.IsSound w.now

theorem IsStart.isServed (h : w.IsStart) : w.IsServed := by
  obtain ⟨c, hset, hpos, hlt⟩ := h.settings
  refine ⟨?_, ?_, h.shutdown, h.available, h.putsPaused, h.broken, h.used.isSound⟩
  · rw [hset]
    exact outlasts_of_config hlt
  · rw [hset]
    simp only [Config.nodeSettings]
    omega

theorem IsServed.of_spares (h : w.IsServed) (hs : Store.Spares w.now lease w.store w'.store)
    (hb : w'.store.broken = false) (hset : w'.node.settings = w.node.settings)
    (hshut : w'.node.shutdown = w.node.shutdown) (hnow : w'.now = w.now) : w'.IsServed where
  outlasts := by rw [hset]; exact h.outlasts
  period := by rw [hset]; exact h.period
  shutdown := hshut.trans h.shutdown
  available := hs.available.trans h.available
  putsPaused := hs.putsPaused.trans h.putsPaused
  broken := hb
  sound := hnow ▸ hs.sound h.sound

theorem Elsewhere.spares (h : w.Elsewhere lease store) :
    Store.Spares w.now lease w.store store := by
  cases h with
  | request h _ => exact Store.spares_ask? lease h
  | seed key value bound => exact Store.spares_seed w.now lease w.store key value bound
  | revoke h => exact Store.spares_revoke w.now w.store h

theorem turn?_of_move {node : Node} {activity : Activity} (h : w.progress = .move node activity) :
    w.turn? = some { w with node, activity } := by rw [turn?, h]

theorem turn?_of_ask {q : Request} {go : q.Answer → Node → Node × Activity}
    {otherwise : Option (Node × Activity)} {a : q.Answer} (h : w.progress = .ask q go otherwise)
    (ha : w.store.ask? w.now q = some (a, store)) : w.turn? = some { w with
      node := (go a w.node).1
      activity := (go a w.node).2
      store
      granted := w.grantedAfter q a } := by
  rw [turn?, h]
  simp only [ha]

theorem exists_of_turn? {q : Request} {go : q.Answer → Node → Node × Activity}
    (h : w.progress = .ask q go none) (ht : w.turn? = some w') : ∃ a store,
      w.store.ask? w.now q = some (a, store) ∧ w' = { w with
        node := (go a w.node).1
        activity := (go a w.node).2
        store
        granted := w.grantedAfter q a } := by
  cases ha : w.store.ask? w.now q with
  | some x =>
    obtain ⟨a, store⟩ := x
    exact ⟨a, store, rfl, (Option.some.inj ((turn?_of_ask h ha).symm.trans ht)).symm⟩
  | none =>
    rw [turn?, h] at ht
    simp only [ha] at ht
    cases ht

theorem not_isWaiting_of_move {node : Node} {activity : Activity}
    (h : w.progress = .move node activity) : ¬ w.IsWaiting := by
  rw [IsWaiting, h]
  exact id

theorem not_isWaiting_of_ask {q : Request} {go : q.Answer → Node → Node × Activity}
    {otherwise : Option (Node × Activity)} (h : w.progress = .ask q go otherwise)
    (ha : (w.store.ask? w.now q).isSome = true) : ¬ w.IsWaiting := by
  rw [IsWaiting, h]
  cases otherwise with
  | none => exact Option.isSome_iff_ne_none.1 ha
  | some x => exact id

/-! ## Acquiring -/

structure Acquires (lease : Int) (w : LeaseRun) : Prop where
  served : w.IsServed
  stage : ∃ stage, w.activity = .acquiring stage ∧
    (stage.hand? w.node = some lease → w.store.IsAlive w.now lease)
  granted : lease ∈ w.granted → w.store.HoldsUntil lease w.node.settings.leaseTtl w.now

theorem IsStart.acquires (h : w.IsStart) : w.Acquires lease where
  served := h.isServed
  stage := ⟨.start, h.activity, nofun⟩
  granted hm := by rw [h.granted] at hm; cases hm

theorem Acquires.of_spares (h : w.Acquires lease) (hs : Store.Spares w.now lease w.store store)
    (hb : store.broken = false) {stage : AcquireStage}
    (hand : stage.hand? w.node = some lease → store.IsAlive w.now lease) :
    Acquires lease { w with activity := .acquiring stage, store } where
  served := h.served.of_spares hs hb rfl rfl rfl
  stage := ⟨stage, rfl, hand⟩
  granted hm := hs.holds_now h.served.sound (h.granted hm)

theorem Acquires.move (h : w.Acquires lease) {stage : AcquireStage} {node : Node}
    (hset : node.settings = w.node.settings) (hshut : node.shutdown = w.node.shutdown)
    (hand : stage.hand? node = some lease → w.store.IsAlive w.now lease) :
    Acquires lease { w with node, activity := .acquiring stage } where
  served := h.served.of_spares (.refl w.now lease w.store) h.served.broken hset hshut rfl
  stage := ⟨stage, rfl, hand⟩
  granted hm := hset ▸ h.granted hm

theorem Acquires.turn_creating (h : w.Acquires lease) {stage : GrantStage}
    (hact : w.activity = .acquiring (.creating stage))
    (hhand : stage.hand? w.node = some lease → w.store.IsAlive w.now lease)
    (ht : w.turn? = some w') (hb : w'.store.broken = false) : w'.Acquires lease := by
  have hp := progress_acquiring hact
  cases stage with
  | start =>
    obtain ⟨a, store, ha, rfl⟩ := exists_of_turn? hp ht
    have hs := Store.spares_ask? lease ha
    have hnow : w.now < w.now + Store.lifetime w.node.settings.leaseTtl :=
      Nat.lt_add_of_pos_right (h.served.period.trans h.served.outlasts.2)
    obtain ⟨id, rfl, hid⟩ := Store.holdsUntil_of_grant h.served.available ha hb hnow
    refine ⟨h.served.of_spares hs hb rfl rfl rfl, ⟨_, rfl, fun hh => ?_⟩, fun hm => ?_⟩
    · cases hh
      exact hid.isAlive le_rfl
    · rcases List.mem_cons.1 hm with rfl | hm
      · exact hid
      · exact hs.holds_now h.served.sound (h.granted hm)
  | granted id =>
    obtain ⟨a, store, ha, rfl⟩ := exists_of_turn? hp ht
    have hs := Store.spares_ask? lease ha
    refine h.of_spares hs hb ?_
    cases a with
    | error e => exact nofun
    | ok _ => exact fun hh => hs.isAlive h.served.sound (hhand hh)
  | pointed id =>
    cases (turn?_of_move hp).symm.trans ht
    exact h.move rfl rfl hhand
  | finishing result =>
    cases (turn?_of_move hp).symm.trans ht
    cases result with
    | error e =>
      exact h.move rfl rfl fun hh => absurd hh (AcquireStage.hand?_failed_ne _ _ _)
    | ok id => exact h.move rfl rfl hhand

theorem Acquires.turn (h : w.Acquires lease) (ht : w.turn? = some w')
    (hb : w'.store.broken = false) : w'.Acquires lease := by
  obtain ⟨stage, hact, hhand⟩ := h.stage
  have hp := progress_acquiring hact
  cases stage with
  | start =>
    obtain ⟨a, store, ha, rfl⟩ := exists_of_turn? hp ht
    refine h.of_spares (Store.spares_ask? lease ha) hb ?_
    cases a with
    | error e => exact fun hh => absurd hh (AcquireStage.hand?_failed_ne _ _ _)
    | ok value =>
      dsimp only
      split <;> exact nofun
  | pointed id =>
    obtain ⟨a, store, ha, rfl⟩ := exists_of_turn? hp ht
    refine h.of_spares (Store.spares_ask? lease ha) hb ?_
    rw [Store.ask?_eq_serve h.served.available (by simp)] at ha
    cases ha
    dsimp only
    split
    · next hs =>
      -- the store has just told that the lease is alive
      intro hh
      cases hh
      exact Store.isAlive_of_leaseStatus hs
    · exact nofun
  | alive id keys =>
    by_cases hroom : hasRoom w.store.maxTxnOps = true
    · rw [acquireStep, if_pos hroom] at hp
      cases (turn?_of_move hp).symm.trans ht
      exact h.move rfl rfl hhand
    · rw [acquireStep, if_neg hroom] at hp
      rw [turn?, hp] at ht
      cases ht
  | inheriting id batches found =>
    cases batches with
    | nil =>
      cases (turn?_of_move hp).symm.trans ht
      exact h.move rfl rfl hhand
    | cons ops batches =>
      obtain ⟨a, store, ha, rfl⟩ := exists_of_turn? hp ht
      have hs := Store.spares_ask? lease ha
      refine h.of_spares hs hb ?_
      cases a with
      | error e => exact fun hh => absurd hh (AcquireStage.hand?_failed_ne _ _ _)
      | ok replies => exact fun hh => hs.isAlive h.served.sound (hhand hh)
  | creating stage => exact h.turn_creating hact hhand ht hb
  | waiting =>
    obtain ⟨a, store, ha, rfl⟩ := exists_of_turn? hp ht
    exact h.of_spares (Store.spares_ask? lease ha) hb nofun
  | finishing result =>
    rw [turn?, hp] at ht
    cases ht

theorem Acquires.not_isWaiting (h : w.Acquires lease) : ¬ w.IsWaiting := by
  obtain ⟨stage, hact, -⟩ := h.stage
  have hp := progress_acquiring hact
  have hask : ∀ {q : Request}, q.isCall = true ∨ q = .ready →
      (w.store.ask? w.now q).isSome = true :=
    Store.isSome_ask? h.served.available h.served.putsPaused w.now
  cases stage with
  | start => exact not_isWaiting_of_ask hp (hask (.inl rfl))
  | pointed id => exact not_isWaiting_of_ask hp (hask (.inl rfl))
  | alive id keys =>
    by_cases hroom : hasRoom w.store.maxTxnOps = true
    · rw [acquireStep, if_pos hroom] at hp
      exact not_isWaiting_of_move hp
    · rw [acquireStep, if_neg hroom] at hp
      rw [IsWaiting, hp]
      exact not_false
  | inheriting id batches found =>
    cases batches with
    | nil => exact not_isWaiting_of_move hp
    | cons ops batches => exact not_isWaiting_of_ask hp (hask (.inl rfl))
  | creating stage =>
    cases stage with
    | start => exact not_isWaiting_of_ask hp (hask (.inl rfl))
    | granted id => exact not_isWaiting_of_ask hp (hask (.inl rfl))
    | pointed id => exact not_isWaiting_of_move hp
    | finishing result => exact not_isWaiting_of_move hp
  | waiting => exact not_isWaiting_of_ask hp (hask (.inr rfl))
  | finishing result =>
    rw [IsWaiting, hp]
    exact id

theorem Acquires.step (h : w.Acquires lease) (hs : Step lease w w') : w'.Acquires lease := by
  cases hs with
  | turn ht hb => exact h.turn ht hb
  | elsewhere he hb =>
    obtain ⟨stage, hact, hhand⟩ := h.stage
    have hsp := he.spares
    exact ⟨h.served.of_spares hsp hb rfl rfl rfl,
      ⟨stage, hact, fun hh => hsp.isAlive h.served.sound (hhand hh)⟩,
      fun hm => hsp.holds_now h.served.sound (h.granted hm)⟩
  | node hset hlease hshut =>
    obtain ⟨stage, hact, hhand⟩ := h.stage
    exact ⟨h.served.of_spares (.refl w.now lease w.store) h.served.broken hset hshut rfl,
      ⟨stage, hact, by rw [AcquireStage.hand?_congr hlease]; exact hhand⟩,
      fun hm => hset ▸ h.granted hm⟩
  | elapse hw => exact absurd hw h.not_isWaiting

theorem Acquires.isAlive (h : w.Acquires lease) {node : Node} (hd : w.acquired? = some node)
    (hl : node.lease = some lease) : node = w.node ∧ w.store.IsAlive w.now lease := by
  obtain ⟨stage, hact, hhand⟩ := h.stage
  rw [acquired?, progress, hact] at hd
  cases stage with
  | finishing result =>
    cases result with
    | error e => cases hd
    | ok found =>
      cases hd
      exact ⟨rfl, hhand hl⟩
  | start => cases hd
  | pointed id => cases hd
  | alive id keys =>
    simp only [Activity.step, acquireStep] at hd
    split at hd
    · next heq =>
      split at heq <;> cases heq
    · cases hd
  | inheriting id batches found => cases batches <;> cases hd
  | creating stage => cases stage <;> cases hd
  | waiting => cases hd

theorem IsStart.acquires_of_run (h : w.IsStart) (hr : Relation.ReflTransGen (Step lease) w w') :
    w'.Acquires lease := by
  induction hr with
  | refl => exact h.acquires
  | tail _ hs ih => exact ih.step hs

/-! ## Keeping -/

/-- The lease lasts beyond what the stage waits for, and the stream has what the stage reads. -/
inductive Keeping (s : Store) (now period : Nat) (lease ttl : Int) : LeaseLoopStage → Prop
  | start : s.HoldsUntil lease ttl now → Keeping s now period lease ttl .start
  | idle {tick : Nat} {stream : Option Nat} : now ≤ tick → tick ≤ now + period →
      s.HoldsUntil lease ttl tick → (∀ t, stream = some t → s.HasStream t []) →
      Keeping s now period lease ttl (.idle tick stream)
  | renewing {stream : Option Nat} : s.HoldsUntil lease ttl now →
      (∀ t, stream = some t → s.HasStream t []) →
      Keeping s now period lease ttl (.renewing (Clock.later now now period) stream)
  | opening : s.HoldsUntil lease ttl now →
      Keeping s now period lease ttl (.opening (Clock.later now now period) lease)
  | sending {stream : Nat} : s.HoldsUntil lease ttl now → s.HasStream stream [] →
      Keeping s now period lease ttl (.sending (Clock.later now now period) stream lease)
  | awaiting {stream deadline : Nat} : s.HoldsUntil lease ttl (now + period) →
      s.HasStream stream [.ok ⟨lease, ttl⟩] →
      Keeping s now period lease ttl (.awaiting (now + period) stream deadline)

structure Keeps (lease ttl : Int) (w : LeaseRun) : Prop where
  served : w.IsServed
  long : Outlasts ttl w.node.settings.keepAlivePeriod
  adopted : w.node.lease = some lease
  stage : ∃ stage, w.activity = .leaseLoop stage ∧
    Keeping w.store w.now w.node.settings.keepAlivePeriod lease ttl stage

theorem Keeping.isAlive {s : Store} {now : Nat} {stage : LeaseLoopStage}
    (h : Keeping s now period lease ttl stage) : s.IsAlive now lease := by
  cases h with
  | start h => exact h.isAlive le_rfl
  | idle hle _ h _ => exact h.isAlive hle
  | renewing h _ => exact h.isAlive le_rfl
  | opening h => exact h.isAlive le_rfl
  | sending h _ => exact h.isAlive le_rfl
  | awaiting h _ => exact h.isAlive (Nat.le_add_right _ _)

theorem Keeping.of_spares {s s' : Store} {now : Nat} {stage : LeaseLoopStage}
    (h : Keeping s now period lease ttl stage) (hs : s.IsSound now) (hlong : Outlasts ttl period)
    (hsp : Store.Spares now lease s s') (hstream : ∀ t pending,
      (leaseLoop stage).stream? = some t → s.HasStream t pending → s'.HasStream t pending) :
    Keeping s' now period lease ttl stage := by
  have hperiod : now + period < now + Store.lifetime ttl := Nat.add_lt_add_left hlong.2 now
  cases h with
  | start h => exact .start (hsp.holds_now hs h)
  | idle hle hle' h hh =>
    exact .idle hle hle' (hsp.holds hs hle (hle'.trans_lt hperiod) h) fun t ht =>
      hstream t [] ht (hh t ht)
  | renewing h hh => exact .renewing (hsp.holds_now hs h) fun t ht => hstream t [] ht (hh t ht)
  | opening h => exact .opening (hsp.holds_now hs h)
  | sending h hh => exact .sending (hsp.holds_now hs h) (hstream _ [] rfl hh)
  | awaiting h hh =>
    exact .awaiting (hsp.holds hs (Nat.le_add_right _ _) hperiod h) (hstream _ _ rfl hh)

theorem Keeps.moved (h : w.Keeps lease ttl) {stage : LeaseLoopStage}
    (hk : Keeping w.store w.now w.node.settings.keepAlivePeriod lease ttl stage) :
    Keeps lease ttl { w with activity := .leaseLoop stage } where
  served := h.served.of_spares (.refl w.now lease w.store) h.served.broken rfl rfl rfl
  long := h.long
  adopted := h.adopted
  stage := ⟨stage, rfl, hk⟩

theorem Keeps.answered (h : w.Keeps lease ttl) {q : Request} {a : q.Answer}
    (ha : w.store.ask? w.now q = some (a, store)) (hb : store.broken = false)
    {stage : LeaseLoopStage} {granted : List Int}
    (hk : Keeping store w.now w.node.settings.keepAlivePeriod lease ttl stage) :
    Keeps lease ttl { w with activity := .leaseLoop stage, store, granted } where
  served := h.served.of_spares (Store.spares_ask? lease ha) hb rfl rfl rfl
  long := h.long
  adopted := h.adopted
  stage := ⟨stage, rfl, hk⟩

/-- After a renewal the answer is awaited, and the next renewal is in time. -/
theorem Keeping.of_renewed {now stream deadline : Nat} (h : store.Renewed now lease ttl stream)
    (hlong : Outlasts ttl period) : Keeping store now period lease ttl
      (.awaiting (Clock.later now now period) stream deadline) := by
  have hlt : now + period < now + Store.lifetime ttl := Nat.add_lt_add_left hlong.2 now
  have hlater : Clock.later now now period = now + period := by
    rw [Clock.later, Clock.later?, if_pos (hlt.trans h.countable)]
    rfl
  rw [hlater]
  exact .awaiting (h.holdsUntil hlt) h.answer

theorem Keeps.turn (h : w.Keeps lease ttl) (ht : w.turn? = some w')
    (hb : w'.store.broken = false) : w'.Keeps lease ttl := by
  obtain ⟨stage, hact, hk⟩ := h.stage
  have hp := progress_leaseLoop hact
  cases hk with
  | start hh =>
    rw [leaseLoopStep, if_neg h.served.period.ne'] at hp
    cases (turn?_of_move hp).symm.trans ht
    exact h.moved (.idle le_rfl (Nat.le_add_right _ _) hh nofun)
  | @idle tick stream hle hle' hh hs =>
    rw [leaseLoopStep, h.served.shutdown, if_neg Bool.false_ne_true] at hp
    by_cases hdue : tick ≤ w.now
    · -- the tick is never late, so the next one is a whole period away
      obtain rfl := le_antisymm hdue hle
      rw [if_pos le_rfl, nextTick, if_neg (by omega)] at hp
      cases (turn?_of_move hp).symm.trans ht
      exact h.moved (.renewing hh hs)
    · rw [if_neg hdue] at hp
      rw [turn?, hp] at ht
      cases ht
  | @renewing stream hh hs =>
    cases stream with
    | none =>
      simp only [leaseLoopStep, h.adopted] at hp
      cases (turn?_of_move hp).symm.trans ht
      exact h.moved (.opening hh)
    | some stream =>
      simp only [leaseLoopStep, h.adopted] at hp
      cases (turn?_of_move hp).symm.trans ht
      exact h.moved (.sending hh (hs stream rfl))
  | opening hh =>
    obtain ⟨a, store, ha, rfl⟩ := exists_of_turn? hp ht
    obtain ⟨stream, rfl, hr⟩ := hh.of_openKeepAlive h.served.sound h.served.available ha hb
    exact h.answered ha hb (.of_renewed hr h.long)
  | sending hh hs =>
    obtain ⟨a, store, ha, rfl⟩ := exists_of_turn? hp ht
    obtain ⟨rfl, hr⟩ := hh.of_sendKeepAlive h.served.available hs ha hb
    exact h.answered ha hb (.of_renewed hr h.long)
  | @awaiting stream deadline hh hs =>
    obtain ⟨store, ha, hs', hleases, -⟩ := hs.ask? h.served.available w.now
    cases (turn?_of_ask hp ha).symm.trans ht
    have hk : Keeping store w.now w.node.settings.keepAlivePeriod lease ttl (.renewed
        (w.now + w.node.settings.keepAlivePeriod) stream ⟨lease, ttl⟩) := by
      -- the answer does not tell that the lease is gone, so the loop waits for its next tick
      rw [LeaseLoopStage.renewed, if_pos h.long.1]
      refine .idle (Nat.le_add_right _ _) le_rfl (by rwa [Store.HoldsUntil, hleases]) fun t ht => ?_
      cases ht
      exact hs'
    exact h.answered ha hb hk

theorem Keeps.elapse (h : w.Keeps lease ttl) (hw : w.IsWaiting) :
    Keeps lease ttl { w with now := w.now + 1 } := by
  obtain ⟨stage, hact, hk⟩ := h.stage
  have hp := progress_leaseLoop hact
  cases hk with
  | start hh =>
    rw [leaseLoopStep, if_neg h.served.period.ne'] at hp
    exact absurd hw (not_isWaiting_of_move hp)
  | @idle tick stream hle hle' hh hs =>
    rw [leaseLoopStep, h.served.shutdown, if_neg Bool.false_ne_true] at hp
    by_cases hdue : tick ≤ w.now
    · rw [if_pos hdue] at hp
      exact absurd hw (not_isWaiting_of_move hp)
    · have hserved : IsServed { w with now := w.now + 1 } :=
        { h.served with sound := h.served.sound.mono (Nat.le_succ _) }
      refine ⟨hserved, h.long, h.adopted, ⟨_, hact, .idle ?_ ?_ hh hs⟩⟩
      · exact Nat.succ_le_of_lt (Nat.lt_of_not_le hdue)
      · exact hle'.trans (Nat.add_le_add_right (Nat.le_succ _) _)
  | @renewing stream hh hs => cases stream <;> exact absurd hw (not_isWaiting_of_move hp)
  | opening hh => exact absurd hw (not_isWaiting_of_ask hp
      (Store.isSome_ask? h.served.available h.served.putsPaused w.now (.inl rfl)))
  | sending hh hs =>
    refine absurd hw (not_isWaiting_of_ask hp ?_)
    rw [Store.ask?_eq_serve h.served.available (by simp)]
    rfl
  | awaiting hh hs =>
    obtain ⟨store, ha, -⟩ := hs.ask? h.served.available w.now
    exact absurd hw (not_isWaiting_of_ask hp (by rw [ha]; rfl))

theorem Elsewhere.hasStream (h : w.Elsewhere lease store) (hs : w.store.IsSound w.now) {t : Nat}
    {pending : List (Except Error Renewal)} (ht : w.activity.stream? = some t)
    (hh : w.store.HasStream t pending) : store.HasStream t pending := by
  have hlt := hs.lt_nextStream hh
  cases h with
  | request ha hq => exact Store.heartbeat?_ask? hs ha (hq t ht) hh
  | seed key value bound =>
    have hd := Store.does_seed w.store w.now key value bound
    exact (hd.heartbeat? (by simp) (by simp) hlt).2.trans hh
  | @revoke id hne =>
    have hd := Store.does_revoke w.store w.now id
    exact (hd.heartbeat? (by simp) (by simp) hlt).2.trans hh

theorem Keeps.step (h : w.Keeps lease ttl) (hs : Step lease w w') : w'.Keeps lease ttl := by
  cases hs with
  | turn ht hb => exact h.turn ht hb
  | elsewhere he hb =>
    obtain ⟨stage, hact, hk⟩ := h.stage
    refine ⟨h.served.of_spares he.spares hb rfl rfl rfl, h.long, h.adopted, stage, hact, ?_⟩
    exact hk.of_spares h.served.sound h.long he.spares fun t pending ht =>
      he.hasStream h.served.sound (hact ▸ ht)
  | node hset hlease hshut =>
    obtain ⟨stage, hact, hk⟩ := h.stage
    exact ⟨h.served.of_spares (.refl w.now lease w.store) h.served.broken hset hshut rfl,
      by rw [hset]; exact h.long, hlease.trans h.adopted, stage, hact, by rw [hset]; exact hk⟩
  | elapse hw => exact h.elapse hw

/-- From now on the lease is alive, and it is that of the node. -/
def IsKept (lease : Int) (w : LeaseRun) : Prop :=
  ∀ w', Relation.ReflTransGen (Step lease) w w' →
    w'.store.IsAlive w'.now lease ∧ w'.node.lease = some lease

theorem Keeps.isKept (h : w.Keeps lease ttl) : w.IsKept lease := by
  intro w' hr
  have hk : w'.Keeps lease ttl := by
    induction hr with
    | refl => exact h
    | tail _ hs ih => exact ih.step hs
  obtain ⟨stage, -, hstage⟩ := hk.stage
  exact ⟨hstage.isAlive, hk.adopted⟩

theorem isKept_keeping {node : Node} (hserved : w.IsServed) (hnode : node = w.node)
    (hl : node.lease = some lease) (hh : w.store.HoldsUntil lease ttl w.now)
    (hlong : Outlasts ttl w.node.settings.keepAlivePeriod) : (w.keeping node).IsKept lease := by
  subst hnode
  have hkeeps : (w.keeping w.node).Keeps lease ttl :=
    ⟨hserved.of_spares (.refl w.now lease w.store) hserved.broken rfl rfl rfl, hlong, hl,
      ⟨.start, rfl, .start hh⟩⟩
  exact hkeeps.isKept

/-! ## Losing -/

theorem run_idle {tick : Nat} {stream : Option Nat}
    (hact : w.activity = .leaseLoop (.idle tick stream)) (hshut : w.node.shutdown = false)
    (ms : Nat) (hle : w.now + ms ≤ tick) :
    Relation.ReflTransGen (Step lease) w { w with now := w.now + ms } := by
  induction ms with
  | zero => exact .refl
  | succ ms ih =>
    refine (ih (by omega)).tail (.elapse (w := { w with now := w.now + ms }) ?_)
    have hp := progress_leaseLoop (w := { w with now := w.now + ms }) hact
    rw [leaseLoopStep, hshut, if_neg Bool.false_ne_true, if_neg (by dsimp only; omega)] at hp
    rw [IsWaiting, hp]
    trivial

def inStage (w : LeaseRun) (stage : LeaseLoopStage) : LeaseRun :=
  { w with activity := .leaseLoop stage }

theorem step_inStage {stage stage' : LeaseLoopStage} (hb : w.store.broken = false)
    (h : leaseLoopStep w.now w.node stage = .move w.node stage') :
    Step lease (w.inStage stage) (w.inStage stage') := by
  have hp := progress_leaseLoop (w := w.inStage stage) rfl
  rw [show leaseLoopStep (w.inStage stage).now (w.inStage stage).node stage = _ from h] at hp
  exact .turn (turn?_of_move hp) hb

theorem step_answered {stage stage' : LeaseLoopStage} {q : Request}
    {go : q.Answer → Node → Node × LeaseLoopStage} {otherwise : Option (Node × LeaseLoopStage)}
    {a : q.Answer} (ha : w.store.ask? w.now q = some (a, store)) (hb : store.broken = false)
    (hg : w.grantedAfter q a = w.granted)
    (h : leaseLoopStep w.now w.node stage = .ask q go otherwise)
    (hgo : go a w.node = (w.node, stage')) :
    Step lease (w.inStage stage) (inStage { w with store } stage') := by
  have hp := progress_leaseLoop (w := w.inStage stage) rfl
  rw [show leaseLoopStep (w.inStage stage).now (w.inStage stage).node stage = _ from h] at hp
  have ht := turn?_of_ask hp ha
  have hg' : (w.inStage stage).grantedAfter q a = w.granted := hg
  rw [hg'] at ht
  simp only [inStage, hgo] at ht
  exact .turn ht hb

theorem exists_renewed (hserved : w.IsServed) (hl : w.node.lease = some lease)
    (hh : w.store.HoldsUntil lease ttl w.now) (hpos : 0 < ttl)
    (hlt : w.now + Store.lifetime ttl < Clock.horizon) {tick : Nat}
    (htick : Clock.later w.now w.now w.node.settings.keepAlivePeriod = tick) : ∃ stream store,
      store.leases.find? lease = some ⟨ttl, w.now + Store.lifetime ttl⟩ ∧
      Relation.ReflTransGen (Step lease) (w.inStage .start)
        (inStage { w with store } (.idle tick (some stream))) := by
  obtain ⟨stream, store, hopen, hb, hr⟩ := hh.exists_openKeepAlive hserved.sound hserved.available
    hserved.broken hlt
  have ha : store.available = true :=
    (Store.spares_ask? lease hopen).available.trans hserved.available
  obtain ⟨store', hread, -, hleases, hb'⟩ := hr.answer.ask? ha w.now
  have hidle : Step lease (w.inStage .start) (w.inStage (.idle w.now none)) :=
    step_inStage hserved.broken (by rw [leaseLoopStep, if_neg hserved.period.ne'])
  have hrenewing : Step lease (w.inStage (.idle w.now none)) (w.inStage (.renewing tick none)) := by
    refine step_inStage hserved.broken ?_
    rw [leaseLoopStep, hserved.shutdown, if_neg Bool.false_ne_true, if_pos le_rfl, nextTick,
      if_neg (by omega), htick]
  have hopening : Step lease (w.inStage (.renewing tick none)) (w.inStage (.opening tick lease)) :=
    step_inStage hserved.broken (by simp only [leaseLoopStep, hl])
  have hawaiting : Step lease (w.inStage (.opening tick lease))
      (inStage { w with store } (.awaiting tick stream tick)) :=
    step_answered hopen hb rfl rfl (by rw [htick])
  have hread : Step lease (inStage { w with store } (.awaiting tick stream tick))
      (inStage { w with store := store' } (.idle tick (some stream))) :=
    step_answered (w := { w with store }) hread (hb'.trans hb) rfl rfl
      (congrArg (Prod.mk w.node) (if_pos hpos))
  refine ⟨stream, store', by rw [hleases]; exact hr.found, ?_⟩
  exact (((Relation.ReflTransGen.single hidle).tail hrenewing).tail hopening).tail hawaiting
    |>.tail hread

/-- A lease that does not outlast the period is lost before its second renewal. -/
theorem exists_lost {node : Node} (hserved : w.IsServed) (hnode : node = w.node)
    (hl : node.lease = some lease) (hh : w.store.HoldsUntil lease ttl w.now) (hpos : 0 < ttl)
    (hshort : Store.lifetime ttl ≤ w.node.settings.keepAlivePeriod)
    (hcount : w.now + w.node.settings.keepAlivePeriod < Clock.horizon) :
    ∃ w', Relation.ReflTransGen (Step lease) (w.keeping node) w' ∧
      ¬ w'.store.IsAlive w'.now lease := by
  subst hnode
  have hlater : Clock.later w.now w.now w.node.settings.keepAlivePeriod =
      w.now + w.node.settings.keepAlivePeriod := by
    rw [Clock.later, Clock.later?, if_pos hcount]
    rfl
  obtain ⟨stream, store, hfound, hr⟩ := exists_renewed hserved hl hh hpos (by omega) hlater
  have hidle : Relation.ReflTransGen (Step lease) _ _ := run_idle
    (w := inStage { w with store } (.idle (w.now + w.node.settings.keepAlivePeriod) (some stream)))
    rfl hserved.shutdown (Store.lifetime ttl) (Nat.add_le_add_left hshort _)
  refine ⟨_, hr.trans hidle, ?_⟩
  rintro ⟨l, hl, hlt⟩
  cases hfound.symm.trans hl
  exact hlt.false

/-! ## The lease of a node -/

/-- A lease that the node was granted is kept for ever, and so is one that was granted before for
longer than the period of renewals. No other lease is. -/
theorem isKept_iff_outlasts {start : LeaseRun} {node : Node} (hs : start.IsStart)
    (hr : Relation.ReflTransGen (Step lease) start w) (hd : w.acquired? = some node)
    (hl : node.lease = some lease) : (lease ∈ w.granted → (w.keeping node).IsKept lease) ∧
      ∃ ttl, w.store.HoldsUntil lease ttl w.now ∧
        (Outlasts ttl w.node.settings.keepAlivePeriod → (w.keeping node).IsKept lease) ∧
        (0 < ttl → w.now + w.node.settings.keepAlivePeriod < Clock.horizon →
          (w.keeping node).IsKept lease → Outlasts ttl w.node.settings.keepAlivePeriod) := by
  have ha : w.Acquires lease := hs.acquires_of_run hr
  obtain ⟨hnode, l, hfind, hlt⟩ := ha.isAlive hd hl
  have hh : w.store.HoldsUntil lease l.grantedTtl w.now := ⟨l, hfind, rfl, hlt⟩
  refine ⟨fun hm => isKept_keeping ha.served hnode hl (ha.granted hm) ha.served.outlasts,
    l.grantedTtl, hh, isKept_keeping ha.served hnode hl hh, fun hpos hcount hkept => ⟨hpos, ?_⟩⟩
  -- a lease that is too short ends in the run in which only time goes by
  by_contra hshort
  obtain ⟨w', hr', hdead⟩ := exists_lost ha.served hnode hl hh hpos (Nat.le_of_not_lt hshort) hcount
  exact hdead (hkept w' hr').1

/-! A node that is alone with its store is granted a lease, or finds one that was granted for thirty
seconds, while it renews its lease every forty-five seconds. -/

def goOn (w : LeaseRun) : LeaseRun :=
  match w.turn? with
  | some w' => if w'.store.broken then w else w'
  | none => w

theorem run_goOn (w : LeaseRun) (turns : Nat) :
    Relation.ReflTransGen (Step lease) w (goOn^[turns] w) := by
  have hone : ∀ w : LeaseRun, Relation.ReflTransGen (Step lease) w w.goOn := by
    intro w
    unfold goOn
    split
    · next w' ht =>
      split
      · exact .refl
      · next hb => exact .single (.turn ht (by simpa using hb))
    · exact .refl
  induction turns generalizing w with
  | zero => exact .refl
  | succ turns ih => exact (hone w).trans (ih w.goOn)

def nodeRun (s : Store) : LeaseRun :=
  ⟨0, acquire, Node.init (Config.standard "node-1").nodeSettings .empty .empty, s, 0, []⟩

theorem nodeRun_isStart {s : Store} (ha : s.available = true) (hp : s.putsPaused = false)
    (hb : s.broken = false) (hs : s.IsUsed 0) : (nodeRun s).IsStart :=
  ⟨rfl, ⟨.standard "node-1", rfl, by decide, by decide⟩, rfl, ha, hp, hb, hs, rfl⟩

def grantedRun : LeaseRun := goOn^[7] (nodeRun (.empty 128))

theorem isKept_iff_outlasts_grantedRun : (nodeRun (.empty 128)).IsStart ∧
    Relation.ReflTransGen (Step 7001) (nodeRun (.empty 128)) grantedRun ∧
    ∃ node, grantedRun.acquired? = some node ∧ node.lease = some 7001 ∧
      (grantedRun.keeping node).IsKept 7001 := by
  have hs := nodeRun_isStart (s := .empty 128) rfl rfl rfl (.empty 128 0)
  have hr : Relation.ReflTransGen (Step 7001) (nodeRun (.empty 128)) grantedRun := run_goOn _ 7
  have hany : grantedRun.acquired?.any (·.lease = some 7001) = true := by decide +kernel
  obtain ⟨node, hd, hl⟩ := (Option.any_eq_true _ _).1 hany
  have hl : node.lease = some 7001 := by simpa using hl
  have hm : 7001 ∈ grantedRun.granted := by decide +kernel
  exact ⟨hs, hr, node, hd, hl, (isKept_iff_outlasts hs hr hd hl).1 hm⟩

/-- The pointer names a lease that another process was granted. -/
def foundStore : Store :=
  ((Store.empty 128).grant 0 30).2.seed 0 (utf8 "/discovery-leases/node-1") (utf8 "7001") none

def foundRun : LeaseRun := goOn^[7] (nodeRun foundStore)

/-- A lease that a node has acquired need not be kept. -/
theorem not_forall_isKept : ¬ ∀ (start w : LeaseRun) (node : Node) (lease : Int), start.IsStart →
    Relation.ReflTransGen (Step lease) start w → w.acquired? = some node →
    node.lease = some lease → (w.keeping node).IsKept lease := by
  intro h
  have hused : foundStore.IsUsed 0 := .seed _ _ none (.grant (.empty 128 0) 30)
  have hs : (nodeRun foundStore).IsStart :=
    nodeRun_isStart (by decide +kernel) (by decide +kernel) (by decide +kernel) hused
  have hr : Relation.ReflTransGen (Step 7001) (nodeRun foundStore) foundRun := run_goOn _ 7
  have hany : foundRun.acquired?.any (·.lease = some 7001) = true := by decide +kernel
  obtain ⟨node, hd, hl⟩ := (Option.any_eq_true _ _).1 hany
  have hl : node.lease = some 7001 := by simpa using hl
  have ha : foundRun.Acquires 7001 := hs.acquires_of_run hr
  have hh : foundRun.store.HoldsUntil 7001 30 foundRun.now := by decide +kernel
  obtain ⟨w', hr', hdead⟩ := exists_lost ha.served (ha.isAlive hd hl).1 hl hh (by decide)
    (by decide +kernel) (by decide +kernel)
  exact hdead (h _ _ _ _ hs hr hd hl w' hr').1

end LeaseRun

end ServiceDirectory
