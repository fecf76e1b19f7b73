import ServiceDirectory.Proofs.Activity.Scene
import ServiceDirectory.Proofs.Store.Bound

/-! # Outages

A node alone with its store, which is out of reach at times, while the node's lease lasts. A removal
that meets an outage is not made up for: neither part of a synchronization looks at keys without a
hosted row, and a second removal finds no row and asks for nothing. So a key survives its row
exactly if a removal of it failed and nothing has been written to it since (`isHosted_or_stranded`).
-/

namespace ServiceDirectory

structure OutageRun where
  scene : Scene
  store : Store
  now : Nat
  lease : Int
  /-- The keys whose removal failed while they were bound to the lease, and that were not written
  since. -/
  stranded : Bytes → Prop

namespace OutageRun

variable {w w' : OutageRun} {key : Bytes}

def keyspace (w : OutageRun) : Keyspace := w.scene.node.keyspace

def IsHosted (w : OutageRun) (key : Bytes) : Prop :=
  ∃ id row, w.scene.node.row? id = some row ∧ key = w.keyspace.key id

def LeaseLasts (w : OutageRun) : Prop := w.store.IsAlive w.now w.lease

/-- The stranded keys after a request was answered. -/
def strandedAfter (w : OutageRun) (q : Request) (a : q.Answer) (key : Bytes) : Prop :=
  if q.succeeds a then w.stranded key ∧ ∀ op ∈ q.operations, op.key ≠ key
  else w.stranded key ∨ TxnOp.delete key ∈ q.operations ∧ w.store.Binds w.lease key

inductive Step : OutageRun → OutageRun → Prop
  | move {w : OutageRun} {scene : Scene} : w.scene.Step scene →
      scene.node.lease = some w.lease → Step w { w with scene }
  | ask {w : OutageRun} {t : Nat} {q : Request} {a : q.Answer} {scene : Scene} {store : Store} :
      Scene.Answered t q a w.scene scene → w.store.ask? w.now q = some (a, store) →
      Step w { w with scene, store, stranded := w.strandedAfter q a }
  | request {w : OutageRun} {q : Request} {a : q.Answer} {store : Store} : q.operations = [] →
      w.store.ask? w.now q = some (a, store) → Step w { w with store }
  | setAvailable {w : OutageRun} (up : Bool) :
      Step w { w with store := w.store.setAvailable w.now up }
  | wait {w : OutageRun} {now : Nat} : w.now ≤ now → Step w { w with now }

/-- The node has started, and what is bound to its lease are keys of hosted rows. -/
structure IsStart (w : OutageRun) : Prop where
  scene : w.scene.IsStart
  lease : w.scene.node.lease = some w.lease
  bound : ∀ key, w.keyspace.beginning <+: key → w.store.Binds w.lease key → w.IsHosted key
  stranded : ∀ key, ¬ w.stranded key

/-- A run in which the lease lasts has led here from the start of the node. -/
def Reachable (w : OutageRun) : Prop :=
  ∃ start, IsStart start ∧ Relation.ReflTransGen (fun v v' => v.LeaseLasts ∧ Step v v') start w

structure Invariant (w : OutageRun) : Prop where
  scene : w.scene.Invariant
  bound : ∀ key, w.keyspace.beginning <+: key → w.store.Binds w.lease key →
    w.IsHosted key ∨ (∃ t id, w.scene.Owes t id ∧ key = w.keyspace.key id) ∨ w.stranded key
  stranded : ∀ key, w.stranded key →
    w.keyspace.beginning <+: key ∧ w.store.Binds w.lease key

theorem IsStart.invariant (h : w.IsStart) : w.Invariant where
  scene := h.scene.invariant
  bound key hp hb := .inl (h.bound key hp hb)
  stranded key hs := absurd hs (h.stranded key)

theorem Invariant.of_binds (hi : w.Invariant) {store : Store} {now : Nat}
    (hb : ∀ key, store.Binds w.lease key ↔ w.store.Binds w.lease key) :
    Invariant { w with store, now } where
  scene := hi.scene
  bound key hp hk := hi.bound key hp ((hb key).1 hk)
  stranded key hs := ⟨(hi.stranded key hs).1, (hb key).2 (hi.stranded key hs).2⟩

theorem Invariant.move (hi : w.Invariant) {scene : Scene} (hs : w.scene.Step scene) :
    Invariant { w with scene } := by
  have hset := hs.settings hi.scene
  have hk : keyspace { w with scene } = w.keyspace := by
    rw [keyspace, keyspace, Node.keyspace, Node.keyspace, hset]
  refine ⟨hs.invariant hi.scene, fun key hp hb => ?_, fun key hst => ?_⟩
  · rw [hk] at hp ⊢
    rcases hi.bound key hp hb with ⟨id, row, hr, rfl⟩ | ⟨t, id, ho, rfl⟩ | hst
    · by_cases hrow : scene.node.row? id = w.scene.node.row? id
      · exact .inl ⟨id, row, hrow.trans hr, by rw [hk]⟩
      · obtain ⟨t, ho, -⟩ := hs.owes_of_row_ne hi.scene hrow
        exact .inr (.inl ⟨t, id, ho, rfl⟩)
    · exact .inr (.inl ⟨t, id, ho.step hs, rfl⟩)
    · exact .inr (.inr hst)
  · rw [hk]
    exact hi.stranded key hst

/-- A key on which a task had an operation, and which is bound afterwards, is that of a hosted row,
or its removal has failed. -/
theorem Invariant.isHosted_of_ask (hi : w.Invariant) (hl : w.LeaseLasts) {t : Nat} {q : Request}
    {a : q.Answer} {store : Store} (hq : w.scene.Asks t q)
    (hs : w.store.ask? w.now q = some (a, store)) {op : TxnOp} (hop : op ∈ q.operations)
    (hb : store.Binds w.lease op.key) : w.IsHosted op.key ∨ w.strandedAfter q a op.key := by
  obtain ⟨T, -, htold⟩ := hi.scene.told hq
  obtain ⟨id, -, htold⟩ := htold op hop
  have hkey : op.key = w.keyspace.key id := htold.key_eq
  have hosted : ∀ row, w.scene.node.row? id = some row → w.IsHosted op.key :=
    fun row hr => ⟨id, row, hr, hkey⟩
  cases hok : q.succeeds a with
  | true =>
    have hfind := hi.scene.find?_foldl_apply hq htold.isValid ⟨op, hop, hkey⟩
      (w.store.touch w.now).contents
    rw [← Store.contents_of_ask? hs hok (List.ne_nil_of_mem hop)] at hfind
    have hsome : store.contents.find? (w.keyspace.key id) ≠ none := hkey ▸ hb.find?_contents_ne
    cases hr : w.scene.node.row? id with
    | none => rw [hr] at hfind; exact absurd hfind hsome
    | some row => exact .inl (hosted row hr)
  | false =>
    have hbefore := (hl.ask?_binds_of_fails hs hok op.key).1 hb
    cases op with
    | get key => cases htold
    | put key value l =>
      obtain ⟨-, -, row, hr, -⟩ := htold
      exact .inl (hosted row hr)
    | delete key =>
      refine .inr ?_
      rw [strandedAfter, hok]
      exact .inr ⟨hop, hbefore⟩

/-- A key that is bound after an answer is that of a hosted row, or owed by another task, or
stranded. -/
theorem Invariant.bound_of_ask (hi : w.Invariant) (hl : w.LeaseLasts) {t : Nat} {q : Request}
    {a : q.Answer} {store : Store} (hq : w.scene.Asks t q)
    (hs : w.store.ask? w.now q = some (a, store)) (hp : w.keyspace.beginning <+: key)
    (hb : store.Binds w.lease key) : w.IsHosted key ∨
      (∃ u id, u ≠ t ∧ w.scene.Owes u id ∧ key = w.keyspace.key id) ∨ w.strandedAfter q a key := by
  by_cases hc : ∃ op ∈ q.operations, op.key = key
  · obtain ⟨op, hop, rfl⟩ := hc
    rcases hi.isHosted_of_ask hl hq hs hop hb with h | h
    · exact .inl h
    · exact .inr (.inr h)
  · have hno : ∀ op ∈ q.operations, op.key ≠ key := fun op hop he => hc ⟨op, hop, he⟩
    rcases hi.bound key hp ((hl.ask?_binds hs hno).1 hb) with h | ⟨u, id, ho, rfl⟩ | h
    · exact .inl h
    · have hut : u ≠ t := by
        rintro rfl
        exact hc (hi.scene.exists_key_of_owes ho hq)
      exact .inr (.inl ⟨u, id, hut, ho, rfl⟩)
    · right; right
      rw [strandedAfter]
      split
      · exact ⟨h, hno⟩
      · exact .inl h

theorem Invariant.binds_of_ask (hi : w.Invariant) (hl : w.LeaseLasts) {t : Nat} {q : Request}
    {a : q.Answer} {store : Store} (hq : w.scene.Asks t q)
    (hs : w.store.ask? w.now q = some (a, store)) (hst : w.strandedAfter q a key) :
    w.keyspace.beginning <+: key ∧ store.Binds w.lease key := by
  cases hok : q.succeeds a with
  | true =>
    rw [strandedAfter, hok] at hst
    obtain ⟨hp, hb⟩ := hi.stranded key hst.1
    exact ⟨hp, (hl.ask?_binds hs hst.2).2 hb⟩
  | false =>
    rw [strandedAfter, hok] at hst
    have hb := hl.ask?_binds_of_fails hs hok key
    rcases hst with h | ⟨hop, h⟩
    · obtain ⟨hp, hb'⟩ := hi.stranded key h
      exact ⟨hp, hb.2 hb'⟩
    · obtain ⟨T, -, htold⟩ := hi.scene.told hq
      obtain ⟨id, -, htold⟩ := htold _ hop
      have hkey : key = w.keyspace.key id := htold.key_eq
      exact ⟨hkey ▸ Keyspace.beginning_prefix_key _ _, hb.2 h⟩

theorem Invariant.ask (hi : w.Invariant) (hl : w.LeaseLasts) {t : Nat} {q : Request}
    {a : q.Answer} {scene : Scene} {store : Store} (ha : Scene.Answered t q a w.scene scene)
    (hs : w.store.ask? w.now q = some (a, store)) :
    Invariant { w with scene, store, stranded := w.strandedAfter q a } := by
  obtain ⟨hn, hq, ht⟩ := ha.spec hi.scene
  have hk : keyspace { w with scene, store, stranded := w.strandedAfter q a } = w.keyspace :=
    congrArg Node.keyspace hn
  refine ⟨ha.invariant hi.scene, fun key hp hb => ?_, fun key hst => ?_⟩
  · rw [hk] at hp ⊢
    rcases hi.bound_of_ask hl hq hs hp hb with ⟨id, row, hr, rfl⟩ | ⟨u, id, hut, ho, rfl⟩ | h
    · exact .inl ⟨id, row, by rw [hn]; exact hr, by rw [hk]⟩
    · exact .inr (.inl ⟨u, id, ho.of_tasks (ht u hut), rfl⟩)
    · exact .inr (.inr h)
  · rw [hk]
    exact hi.binds_of_ask hl hq hs hst

theorem Step.invariant (h : Step w w') (hi : w.Invariant) (hl : w.LeaseLasts) : w'.Invariant := by
  cases h with
  | move hs hlease => exact hi.move hs
  | ask ha hs => exact hi.ask hl ha hs
  | request hq hs => exact hi.of_binds fun key => hl.ask?_binds hs (by simp [hq])
  | setAvailable up => exact hi.of_binds fun key => hl.setAvailable_binds up key
  | wait hle => exact hi.of_binds fun key => Iff.rfl

theorem Reachable.invariant (h : w.Reachable) : w.Invariant := by
  obtain ⟨start, hs, hr⟩ := h
  induction hr with
  | refl => exact hs.invariant
  | tail _ h ih => exact h.2.invariant ih h.1

/-- Once nothing is under way, the keys bound to the lease are those of hosted rows and the stranded
ones; no stranded key is gone. -/
theorem isHosted_or_stranded (h : w.Reachable) (hidle : ∀ t, w.scene.tasks t = none) :
    (∀ key, w.keyspace.beginning <+: key → w.store.Binds w.lease key →
      w.IsHosted key ∨ w.stranded key) ∧
    ∀ key, w.stranded key → w.keyspace.beginning <+: key ∧ w.store.Binds w.lease key := by
  have hi := h.invariant
  refine ⟨fun key hp hbound => ?_, hi.stranded⟩
  -- a removal that is still owed would belong to a task
  rcases hi.bound key hp hbound with h | ⟨t, id, ⟨T, _, _, _, hT, _⟩, -⟩ | h
  · exact .inl h
  · rw [hidle] at hT
    cases hT
  · exact .inr h

/-! A service is registered, and unregistered while the store is out of reach. -/

section

def start (w : OutageRun) (t : Nat) (activity : Activity) : OutageRun :=
  { w with scene := w.scene.set t w.scene.node (some ⟨activity, fun _ => False⟩) }

def goOn (w : OutageRun) (t : Nat) : OutageRun := { w with scene := w.scene.goOn t w.now }

def answer (w : OutageRun) (t : Nat) : OutageRun :=
  match w.scene.asking? t w.now with
  | none => w
  | some q => match w.store.ask? w.now q with
    | none => w
    | some (a, store) =>
      { w with scene := w.scene.reply t w.now q a, store, stranded := w.strandedAfter q a }

def toggle (w : OutageRun) (up : Bool) : OutageRun :=
  { w with store := w.store.setAvailable w.now up }

def webStart : OutageRun :=
  ⟨.started, ((Store.empty 1).grant 0 60).2, 0, 7001, fun _ => False⟩

/-- The row of the service is hosted, and its key is written. -/
def webRegistered : OutageRun :=
  ((((((webStart.start 0 (.register Scene.webService)).goOn 0).goOn 0).goOn 0).goOn 0).answer
    0).goOn 0

/-- The row is removed, but not its key. -/
def webUnregistered : OutageRun :=
  (((((((webRegistered.toggle false).start 1 (.unregister Scene.webService.id)).goOn 1).goOn 1).goOn
    1).goOn 1).answer 1).goOn 1

def webEnd : OutageRun :=
  ((((webUnregistered.toggle true).start 2 .synchronize).answer 2).goOn 2).goOn 2

def Lasts (w : OutageRun) : Prop := w.LeaseLasts ∧ w.scene.node.lease = some w.lease

instance (w : OutageRun) : Decidable w.Lasts :=
  inferInstanceAs (Decidable (w.store.IsAlive w.now w.lease ∧ _))

def Leads (w : OutageRun) : Prop :=
  w.Lasts ∧ Relation.ReflTransGen (fun v v' => v.LeaseLasts ∧ Step v v') webStart w

variable {t : Nat}

theorem Leads.start (h : w.Leads) (ht : w.scene.tasks t = none) {activity : Activity}
    (hf : activity.IsFresh) : (w.start t activity).Leads :=
  ⟨h.1, h.2.tail ⟨h.1.1, .move (.spawn ht hf) h.1.2⟩⟩

theorem Leads.goOn (h : w.Leads) (hl : (w.goOn t).Lasts) : (w.goOn t).Leads := by
  refine ⟨hl, ?_⟩
  rcases w.scene.goOn_eq_or_step t w.now with he | hs
  · rw [OutageRun.goOn, he]
    exact h.2
  · exact h.2.tail ⟨h.1.1, .move hs hl.2⟩

theorem Leads.answer (h : w.Leads) (hl : (w.answer t).Lasts) : (w.answer t).Leads := by
  refine ⟨hl, ?_⟩
  unfold OutageRun.answer
  split
  · exact h.2
  · next q hq =>
    split
    · exact h.2
    · next a store hs => exact h.2.tail ⟨h.1.1, .ask (Scene.answered_reply hq a) hs⟩

theorem Leads.toggle (h : w.Leads) (up : Bool) (hl : (w.toggle up).Lasts) : (w.toggle up).Leads :=
  ⟨hl, h.2.tail ⟨h.1.1, .setAvailable up⟩⟩

theorem webStart_isStart : webStart.IsStart :=
  ⟨Scene.started_isStart, rfl, (fun _ _ ⟨_, hf, _⟩ => by cases hf), fun _ h => h⟩

theorem webRegistered_leads : webRegistered.Leads := by
  have hstart : webStart.Leads := ⟨by decide +kernel, .refl⟩
  have hmake : Service.make Scene.webService.id Scene.webService.hostname Scene.webService.port
      Scene.webService.ttl Scene.webService.metadata = .ok Scene.webService := rfl
  have h := hstart.start (t := 0) rfl (.register hmake (by decide +kernel))
  exact (((((h.goOn (by decide +kernel)).goOn (by decide +kernel)).goOn (by decide +kernel)).goOn
    (by decide +kernel)).answer (by decide +kernel)).goOn (by decide +kernel)

theorem webUnregistered_leads : webUnregistered.Leads := by
  have hoff := webRegistered_leads.toggle false (by decide +kernel)
  have hnone : (webRegistered.toggle false).scene.tasks 1 = none := rfl
  have hid : Scene.webService.id.IsStorable := by decide +kernel
  have h := hoff.start hnone (.unregister hid)
  exact (((((h.goOn (by decide +kernel)).goOn (by decide +kernel)).goOn (by decide +kernel)).goOn
    (by decide +kernel)).answer (by decide +kernel)).goOn (by decide +kernel)

theorem webEnd_leads : webEnd.Leads := by
  have hon := webUnregistered_leads.toggle true (by decide +kernel)
  have hnone : (webUnregistered.toggle true).scene.tasks 2 = none := rfl
  have h := hon.start hnone .synchronize
  exact ((h.answer (by decide +kernel)).goOn (by decide +kernel)).goOn (by decide +kernel)

theorem webEnd_reachable : webEnd.Reachable := ⟨webStart, webStart_isStart, webEnd_leads.2⟩

theorem tasks_goOn_of_ne {t' : Nat} (h : t' ≠ t) : (w.goOn t).scene.tasks t' = w.scene.tasks t' :=
  Scene.tasks_goOn_of_ne h

theorem tasks_start_of_ne {t' : Nat} (h : t' ≠ t) (activity : Activity) :
    (w.start t activity).scene.tasks t' = w.scene.tasks t' := Scene.tasks_set_of_ne _ h _ _

theorem tasks_answer_of_ne {t' : Nat} (h : t' ≠ t) :
    (w.answer t).scene.tasks t' = w.scene.tasks t' := by
  unfold OutageRun.answer
  split
  · rfl
  · split
    · rfl
    · exact Scene.tasks_reply_of_ne h _ _

theorem webEnd_tasks (t : Nat) : webEnd.scene.tasks t = none := by
  have hno : ∀ t < 3, (webEnd.scene.tasks t).isNone = true := by decide +kernel
  by_cases ht : t < 3
  · exact Option.isNone_iff_eq_none.1 (hno t ht)
  · have h0 : t ≠ 0 := by omega
    have h1 : t ≠ 1 := by omega
    have h2 : t ≠ 2 := by omega
    have htoggle : ∀ (w : OutageRun) (up : Bool),
        (w.toggle up).scene.tasks t = w.scene.tasks t := fun _ _ => rfl
    simp only [webEnd, webUnregistered, webRegistered, htoggle, tasks_goOn_of_ne h0,
      tasks_goOn_of_ne h1, tasks_goOn_of_ne h2, tasks_answer_of_ne h0, tasks_answer_of_ne h1,
      tasks_answer_of_ne h2, tasks_start_of_ne h0, tasks_start_of_ne h1, tasks_start_of_ne h2]
    rfl

theorem isHosted_or_stranded_webEnd :
    (∀ key, webEnd.keyspace.beginning <+: key → webEnd.store.Binds webEnd.lease key →
      webEnd.IsHosted key ∨ webEnd.stranded key) ∧
    ∀ key, webEnd.stranded key →
      webEnd.keyspace.beginning <+: key ∧ webEnd.store.Binds webEnd.lease key :=
  isHosted_or_stranded webEnd_reachable webEnd_tasks

/-- A complete synchronization need not remove the key of a row that is gone. -/
theorem not_forall_isHosted : ¬ ∀ w : OutageRun, w.Reachable → w.LeaseLasts →
    w.store.available = true → (∀ t, w.scene.tasks t = none) →
    (∃ summary count, w.scene.synced? = some ⟨some summary, some count⟩) →
    ∀ key, w.keyspace.beginning <+: key → w.store.Binds w.lease key → w.IsHosted key := by
  intro h
  have hbound : webEnd.store.Binds webEnd.lease (webEnd.keyspace.key Scene.webService.id) := by
    decide +kernel
  have hsynced : webEnd.scene.synced? = some ⟨some ⟨1, 0, 0, 0⟩, some 0⟩ := by decide +kernel
  have hnone : webEnd.scene.node.registry.rows = Table.empty := by decide +kernel
  obtain ⟨id, row, hr, -⟩ := h webEnd webEnd_reachable webEnd_leads.1.1 (by decide +kernel)
    webEnd_tasks ⟨_, _, hsynced⟩ _ (Keyspace.beginning_prefix_key _ _) hbound
  rw [Node.row?, hnone, Table.row?_empty] at hr
  cases hr

end

end OutageRun

end ServiceDirectory
