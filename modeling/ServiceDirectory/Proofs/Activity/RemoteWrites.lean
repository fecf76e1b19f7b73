import ServiceDirectory.Proofs.Activity.Scene

/-! # Remote writes of a node

A scene beside a remote store. A request takes effect at any time between its sending and its
answer, and others may change the store too. Everything that the tasks of the node write is told by
the hosted rows at that moment; and where all writes of a key take effect and nobody else touches
it, store and node agree on the id again as soon as nobody has the lock of its row
(`writes_follow_hostedRows`).
-/

namespace ServiceDirectory

structure WriteRun where
  scene : Scene
  held : StoredValues
  /-- The request that the task has made has taken effect. -/
  landed : Nat → Bool

namespace WriteRun

variable {w w' : WriteRun} {id : ServiceId} {guarded : Bytes → Prop}

/-- What takes place while all writes of guarded keys take effect, and nobody else changes them. -/
inductive Step (guarded : Bytes → Prop) : WriteRun → WriteRun → Prop
  | move {w : WriteRun} {scene : Scene} : w.scene.Step scene → Step guarded w { w with scene }
  | land {w : WriteRun} {t : Nat} {q : Request} : w.scene.Asks t q → w.landed t = false →
      Step guarded w { w with
        held := q.operations.foldl TxnOp.apply w.held
        landed := Function.update w.landed t true }
  | answer {w : WriteRun} {t : Nat} {q : Request} {a : q.Answer} {scene : Scene} :
      Scene.Answered t q a w.scene scene →
      ((∃ op ∈ q.operations, guarded op.key) → w.landed t = true) →
      Step guarded w { w with scene, landed := Function.update w.landed t false }
  | elsewhere {w : WriteRun} {held : StoredValues} :
      (∀ key, guarded key → held.find? key = w.held.find? key) → Step guarded w { w with held }

def Reachable (w : WriteRun) : Prop :=
  ∃ start : WriteRun, start.scene.IsStart ∧ (∀ t, start.landed t = false) ∧
    Relation.ReflTransGen (Step fun _ => False) start w

/-- The store holds the encoding of the hosted row of the id, or nothing if there is none. -/
def AgreesOn (w : WriteRun) (id : ServiceId) : Prop :=
  match w.scene.node.row? id with
  | some row => ∃ value,
    w.scene.node.keyspace.encode row = .ok (w.scene.node.keyspace.key id, value) ∧
      w.held.find? (w.scene.node.keyspace.key id) = some value
  | none => w.held.find? (w.scene.node.keyspace.key id) = none

structure Invariant (w : WriteRun) : Prop where
  scene : w.scene.Invariant
  landed : ∀ t, w.landed t = true → ∃ T, w.scene.tasks t = some T ∧ T.activity.isAsking = true

theorem Step.invariant (h : Step guarded w w') (hi : w.Invariant) : w'.Invariant := by
  cases h with
  | move hs =>
    refine ⟨hs.invariant hi.scene, fun t ht => ?_⟩
    obtain ⟨T, hT, ha⟩ := hi.landed t ht
    exact ⟨T, hs.tasks_of_isAsking hT ha, ha⟩
  | @land t q hq hl =>
    refine ⟨hi.scene, fun t' ht' => ?_⟩
    by_cases he : t' = t
    · subst he
      exact hi.scene.isAsking hq
    · exact hi.landed t' (by simpa [he] using ht')
  | @answer t q a scene ha hl =>
    refine ⟨ha.invariant hi.scene, fun t' ht' => ?_⟩
    by_cases he : t' = t
    · subst he
      simp at ht'
    · obtain ⟨T, hT, hask⟩ := hi.landed t' (by simpa [he] using ht')
      exact ⟨T, ((ha.spec hi.scene).2.2 t' he).trans hT, hask⟩
  | elsewhere hs => exact ⟨hi.scene, hi.landed⟩

theorem Invariant.of_steps (hi : w.Invariant) (h : Relation.ReflTransGen (Step guarded) w w') :
    w'.Invariant := by
  induction h with
  | refl => exact hi
  | tail _ h ih => exact h.invariant ih

theorem Reachable.invariant (h : w.Reachable) : w.Invariant := by
  obtain ⟨start, hs, hl, hr⟩ := h
  refine Invariant.of_steps ⟨hs.invariant, fun t ht => ?_⟩ hr
  rw [hl] at ht
  cases ht

/-! ## Agreement -/

/-- The store and the node agree, or the write that makes them agree has not taken effect yet. -/
def Settles (w : WriteRun) (id : ServiceId) : Prop :=
  w.AgreesOn id ∨ ∃ t, w.scene.Owes t id ∧ w.landed t = false

theorem AgreesOn.congr (h : w.AgreesOn id) (hs : w'.scene.node.settings = w.scene.node.settings)
    (hr : w'.scene.node.row? id = w.scene.node.row? id)
    (hh : w'.held.find? (w.scene.node.keyspace.key id) =
      w.held.find? (w.scene.node.keyspace.key id)) : w'.AgreesOn id := by
  have hk : w'.scene.node.keyspace = w.scene.node.keyspace := by
    rw [Node.keyspace, Node.keyspace, hs]
  rwa [AgreesOn, hr, hk, hh]

theorem agreesOn_iff (h : w.scene.node.registry.IsProper) :
    w.AgreesOn id ↔ w.held.find? (w.scene.node.keyspace.key id) =
      (w.scene.node.row? id).map Keyspace.valueOf := by
  unfold AgreesOn
  cases hr : w.scene.node.row? id with
  | none => rfl
  | some row =>
    simp only [h.encode_eq w.scene.node.keyspace hr, Option.map_some]
    constructor
    · rintro ⟨value, he, hf⟩
      cases he
      exact hf
    · exact fun hf => ⟨_, rfl, hf⟩

/-- A request for the key of the id makes store and node agree on the id when it takes effect. -/
theorem Invariant.agreesOn_of_land (hi : w.Invariant) {t : Nat} {q : Request}
    (hq : w.scene.Asks t q) (hid : id.isValid = true)
    (hop : ∃ op ∈ q.operations, op.key = w.scene.node.keyspace.key id)
    (hs : w'.scene = w.scene) (hh : w'.held = q.operations.foldl TxnOp.apply w.held) :
    w'.AgreesOn id := by
  rw [agreesOn_iff (by rw [hs]; exact hi.scene.node.registry), hs, hh]
  exact hi.scene.find?_foldl_apply hq hid hop _

theorem Settles.step (h : w.Settles id) (hi : w.Invariant) (hid : id.isValid = true)
    (hs : Step (· = w.scene.node.keyspace.key id) w w') : w'.Settles id := by
  cases hs with
  | @move scene hs =>
    by_cases hr : scene.node.row? id = w.scene.node.row? id
    · rcases h with h | ⟨u, hu, hul⟩
      · exact .inl (h.congr (hs.settings hi.scene) hr rfl)
      · exact .inr ⟨u, hu.step hs, hul⟩
    · -- whoever changed the row owes its write, and has not asked for it yet
      obtain ⟨u, hu, hno⟩ := hs.owes_of_row_ne hi.scene hr
      refine .inr ⟨u, hu, by_contra fun hul => ?_⟩
      obtain ⟨T, hT, ha⟩ := hi.landed u (by simpa using hul)
      rw [hno T hT] at ha
      cases ha
  | @land t q hq hl =>
    by_cases hop : ∃ op ∈ q.operations, op.key = w.scene.node.keyspace.key id
    · exact .inl (hi.agreesOn_of_land hq hid hop rfl rfl)
    · rcases h with h | ⟨u, hu, hul⟩
      · refine .inl (h.congr rfl rfl (TxnOp.find?_foldl_apply_of_ne _ _ fun op hop' hk => ?_))
        exact hop ⟨op, hop', hk⟩
      · -- a request that is not about the key is not the one that is owed
        have hut : u ≠ t := by
          rintro rfl
          exact hop (hi.scene.exists_key_of_owes hu hq)
        exact .inr ⟨u, hu, by simpa [hut] using hul⟩
  | @answer t q a scene ha hl =>
    obtain ⟨hn, hq, ht⟩ := ha.spec hi.scene
    rcases h with h | ⟨u, hu, hul⟩
    · exact .inl (h.congr (by rw [hn]) (by rw [hn]) rfl)
    · have hut : u ≠ t := by
        rintro rfl
        obtain ⟨op, hop, hk⟩ := hi.scene.exists_key_of_owes hu hq
        rw [hl ⟨op, hop, hk⟩] at hul
        cases hul
      exact .inr ⟨u, hu.of_tasks (ht u hut), by simpa [hut] using hul⟩
  | elsewhere hs =>
    rcases h with h | h
    · exact .inl (h.congr rfl rfl (hs _ rfl))
    · exact .inr h

theorem Step.settings (h : Step guarded w w') (hi : w.Invariant) :
    w'.scene.node.settings = w.scene.node.settings := by
  cases h with
  | move hs => exact hs.settings hi.scene
  | land hq hl => rfl
  | answer ha hl => rw [(ha.spec hi.scene).1]
  | elsewhere hs => rfl

theorem Settles.of_steps (h : w.Settles id) (hi : w.Invariant) (hid : id.isValid = true)
    (hs : Relation.ReflTransGen (Step (· = w.scene.node.keyspace.key id)) w w') :
    w'.Settles id ∧ w'.scene.node.settings = w.scene.node.settings := by
  induction hs with
  | refl => exact ⟨h, rfl⟩
  | @tail v v' hv hs ih =>
    have hiv := hi.of_steps hv
    have hk : w.scene.node.keyspace = v.scene.node.keyspace := by
      rw [Node.keyspace, Node.keyspace, ih.2]
    rw [hk] at hs
    exact ⟨ih.1.step hiv hid hs, (hs.settings hiv).trans ih.2⟩

/-- All that a task writes is told by the rows that the node hosts while the request is under way: a
put holds the row of the key's id, and a delete is for a row that the same task has removed. If the
store agrees with the node on an id, all writes of its key take effect, and nobody else changes that
key, they agree again whenever no task has the lock of the row. -/
theorem writes_follow_hostedRows (h : w.Reachable) :
    (∀ t q, w.scene.Asks t q → ∃ T, w.scene.tasks t = some T ∧
      ∀ op ∈ q.operations, ∃ id, w.scene.node.IsTold T.removed id op) ∧
    ∀ id w', id.isValid = true →
      Relation.ReflTransGen (Step (· = w.scene.node.keyspace.key id)) w w' → w.AgreesOn id →
      (∀ t, w'.scene.node.ownsRow t id = false) → w'.AgreesOn id := by
  have hi := h.invariant
  constructor
  · intro t q hq
    obtain ⟨T, hT, htold⟩ := hi.scene.told hq
    refine ⟨T, hT, fun op hop => ?_⟩
    obtain ⟨id, -, ht⟩ := htold op hop
    exact ⟨id, ht⟩
  · intro id w' hid hs ha hno
    have hi' := hi.of_steps hs
    -- a write that is still owed belongs to a task with the lock of the row
    rcases (Settles.of_steps (.inl ha) hi hid hs).1 with h | ⟨t, ht, -⟩
    · exact h
    · have hown := hi'.scene.node.locks.owns_iff.2 (hi'.scene.first_of_owes ht)
      have hfree : w'.scene.node.locks.owns t id = false := hno t
      rw [hown] at hfree
      cases hfree

/-! The write of a registration takes effect before the task goes on. -/

def webStart : WriteRun := ⟨.started, Dictionary.empty, fun _ => false⟩

def webPut : Request :=
  .put (Scene.started.node.keyspace.key Scene.webService.id)
    (Keyspace.valueOf Scene.webService.toRow) (some 7001)

def webAsking : WriteRun :=
  { webStart with scene := (((Scene.registering.goOn 0 0).goOn 0 0).goOn 0 0).goOn 0 0 }

def webLanded : WriteRun :=
  { webAsking with
    held := webPut.operations.foldl TxnOp.apply webAsking.held
    landed := Function.update webAsking.landed 0 true }

def webAnswered : WriteRun :=
  { webLanded with
    scene := webAsking.scene.reply 0 0 webPut (.ok ())
    landed := Function.update webLanded.landed 0 false }

def webEnd : WriteRun := { webAnswered with scene := webAnswered.scene.goOn 0 0 }

theorem steps_goOn (w : WriteRun) (t now : Nat) :
    Relation.ReflTransGen (Step guarded) w { w with scene := w.scene.goOn t now } := by
  rcases w.scene.goOn_eq_or_step t now with h | h
  · rw [h]
  · exact .single (.move h)

theorem steps_webAsking : Relation.ReflTransGen (Step guarded) webStart webAsking :=
  ((((Relation.ReflTransGen.single (.move Scene.step_registering)).trans (steps_goOn _ 0 0)).trans
    (steps_goOn _ 0 0)).trans (steps_goOn _ 0 0)).trans (steps_goOn _ 0 0)

theorem webAsking_asks : webAsking.scene.asking? 0 0 = some webPut := by decide +kernel

theorem steps_webEnd : Relation.ReflTransGen (Step guarded) webStart webEnd := by
  have hland : Step guarded webAsking webLanded :=
    .land (Scene.asks_of_asking? webAsking_asks) rfl
  have hanswer : Step guarded webLanded webAnswered :=
    .answer (Scene.answered_reply webAsking_asks (.ok ())) fun _ => rfl
  exact ((steps_webAsking.tail hland).tail hanswer).trans (steps_goOn _ 0 0)

theorem webStart_reachable : webStart.Reachable :=
  ⟨webStart, Scene.started_isStart, fun _ => rfl, .refl⟩

theorem webAsking_reachable : webAsking.Reachable :=
  ⟨webStart, Scene.started_isStart, fun _ => rfl, steps_webAsking⟩

theorem webEnd_ownsRow (t : Nat) : webEnd.scene.node.ownsRow t Scene.webService.id = false := by
  have hclaims : webEnd.scene.node.locks.claims = [] := by decide +kernel
  simp [Node.ownsRow, RowLocks.owns, RowLocks.find?, hclaims]

theorem writes_follow_hostedRows_web :
    (∃ T, webAsking.scene.tasks 0 = some T ∧
      ∀ op ∈ webPut.operations, ∃ id, webAsking.scene.node.IsTold T.removed id op) ∧
    webEnd.scene.node.row? Scene.webService.id = some Scene.webService.toRow ∧
    webEnd.AgreesOn Scene.webService.id :=
  ⟨(writes_follow_hostedRows webAsking_reachable).1 0 webPut
      (Scene.asks_of_asking? webAsking_asks),
    by decide +kernel,
    (writes_follow_hostedRows webStart_reachable).2 Scene.webService.id webEnd (by decide +kernel)
      steps_webEnd rfl webEnd_ownsRow⟩

end WriteRun

end ServiceDirectory
