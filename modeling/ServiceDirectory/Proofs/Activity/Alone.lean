import ServiceDirectory.Proofs.Activity.Parts
import ServiceDirectory.Proofs.Mirror.Fitting
import ServiceDirectory.Proofs.Store.Scan

/-! # Tasks that run alone

A task that runs alone goes on from its start to its end at one time, with nobody else at work, and
the store answers each of its requests at once. What comes of it is determined (`Alone.det`). After
an import that runs alone the table of all services shows the rows that the store has
(`Alone.imported_spec`).
-/

namespace ServiceDirectory

open Activity

/-- The task, on this node and this store, ends with this outcome and leaves node and store so. -/
inductive Activity.Alone (me now : Nat) : Activity → Node → Store → Outcome → Node → Store → Prop
  | move {a a₁ : Activity} {n n₁ n' : Node} {s s' : Store} {o : Outcome} :
      a.step me now s.maxTxnOps n = .move n₁ a₁ → Alone me now a₁ n₁ s o n' s' →
      Alone me now a n s o n' s'
  | ask {a : Activity} {n n' : Node} {s s₁ s' : Store} {o : Outcome} {q : Request}
      {go : q.Answer → Node → Node × Activity} {otherwise : Option (Node × Activity)}
      {answer : q.Answer} :
      a.step me now s.maxTxnOps n = .ask q go otherwise → s.ask? now q = some (answer, s₁) →
      Alone me now (go answer n).2 (go answer n).1 s₁ o n' s' → Alone me now a n s o n' s'
  | done {a : Activity} {n n' : Node} {s : Store} {o : Outcome} :
      a.step me now s.maxTxnOps n = .done n' o → Alone me now a n s o n' s
  | crash {a : Activity} {n : Node} {s : Store} :
      a.step me now s.maxTxnOps n = .crash → Alone me now a n s .crashed (Activity.drop me n) s

variable {me now : Nat} {n n' n₁ n₂ : Node} {s s' s₁ s₂ : Store}

theorem Activity.Alone.det {a : Activity} {o₁ o₂ : Outcome} (h₁ : a.Alone me now n s o₁ n₁ s₁)
    (h₂ : a.Alone me now n s o₂ n₂ s₂) : o₁ = o₂ ∧ n₁ = n₂ ∧ s₁ = s₂ := by
  induction h₁ with
  | move hstep _ ih =>
    cases h₂ with
    | move hstep' h => cases hstep.symm.trans hstep'; exact ih h
    | ask hstep' _ _ => cases hstep.symm.trans hstep'
    | done hstep' => cases hstep.symm.trans hstep'
    | crash hstep' => cases hstep.symm.trans hstep'
  | ask hstep hanswer _ ih =>
    cases h₂ with
    | move hstep' _ => cases hstep.symm.trans hstep'
    | ask hstep' hanswer' h =>
      cases hstep.symm.trans hstep'
      cases hanswer.symm.trans hanswer'
      exact ih h
    | done hstep' => cases hstep.symm.trans hstep'
    | crash hstep' => cases hstep.symm.trans hstep'
  | done hstep =>
    cases h₂ with
    | move hstep' _ => cases hstep.symm.trans hstep'
    | ask hstep' _ _ => cases hstep.symm.trans hstep'
    | done hstep' => cases hstep.symm.trans hstep'; exact ⟨rfl, rfl, rfl⟩
    | crash hstep' => cases hstep.symm.trans hstep'
  | crash hstep =>
    cases h₂ with
    | move hstep' _ => cases hstep.symm.trans hstep'
    | ask hstep' _ _ => cases hstep.symm.trans hstep'
    | done hstep' => cases hstep.symm.trans hstep'
    | crash hstep' => exact ⟨rfl, rfl, rfl⟩

/-! ## Imports -/

def scanOf (k : Keyspace) (s : Store) : List KeyValue :=
  (s.entries.filter fun key _ => k.range.contains key).values

theorem find?_scanOf {k : Keyspace} (hk : s.IsKeyed) (id : ServiceId) :
    (rowsById (decodeAll k (scanOf k s))).find? id = k.rowIn s.contents id :=
  find?_rowsById_decodeAll hk (fun _ _ => Keyspace.range_contains_of_parseKey) id

theorem isStorable_of_mem_scanOf {k : Keyspace} (hk : s.IsKeyed) (hf : k.FitsIn s.contents) :
    ∀ row ∈ decodeAll k (scanOf k s), row.IsStorable := fun row hrow =>
  hf row.id row ((mem_decodeAll_iff hk fun _ _ => Keyspace.range_contains_of_parseKey).1 hrow)

theorem ask?_scan (hs : s.available = true) (k : Keyspace) :
    s.ask? now (.getRange (.withPrefix k.beginning)) =
      some (.ok (scanOf k (s.touch now)), s.touch now) :=
  Store.ask?_getRange hs k.range

/-- A table that is brought up to a scan shows what the store has. -/
theorem reconcileRead_shows (hk : s.IsKeyed) (hf : n.keyspace.FitsIn s.contents)
    (hn : n.globalRows.IsWellFormed) : ∃ summary globalRows,
      reconcileRead n (scanOf n.keyspace s) = (.ok (some summary), { n with globalRows }) ∧
      globalRows.IsWellFormed ∧ globalRows.Shows (n.keyspace.rowIn s.contents) := by
  obtain ⟨summary, t, heq, ht, hshows⟩ := hn.reconcile_shows (isStorable_of_mem_scanOf hk hf)
  refine ⟨summary, t, by simp [reconcileRead, heq], ht, fun id => ?_⟩
  rw [← find?_scanOf hk]
  exact hshows id

theorem reconcileRead_rows (hk : s.IsKeyed) (hf : n.keyspace.FitsIn s.contents)
    (hn : n.globalRows.IsProper) : ∃ globalRows,
      (reconcileRead n (scanOf n.keyspace s)).2 = { n with globalRows } ∧
      globalRows.IsProper ∧ ∀ id, globalRows.row? id = n.keyspace.rowIn s.contents id := by
  obtain ⟨summary, t, heq, ht, hrow⟩ :=
    hn.reconcile_eq (decodeAll_isProper (isStorable_of_mem_scanOf hk hf))
  exact ⟨t, by simp [reconcileRead, heq], ht, fun id => (hrow id).trans (find?_scanOf hk id)⟩

theorem reconcileRead_eq_self (hk : s.IsKeyed) (hn : n.globalRows.IsWellFormed)
    (hshows : n.globalRows.Shows (n.keyspace.rowIn s.contents)) :
    reconcileRead n (scanOf n.keyspace s) = (.ok (some .zero), n) := by
  have h : n.globalRows.Shows (rowsById (decodeAll n.keyspace (scanOf n.keyspace s))).find? := by
    intro id
    rw [find?_scanOf hk]
    exact hshows id
  simp [reconcileRead, hn.reconcile_eq_self h]

theorem alone_importOnce (me : Nat) (n : Node) (hs : s.available = true) :
    importOnce.Alone me now n s (.imported (reconcileRead n (scanOf n.keyspace (s.touch now))).1)
      (reconcileRead n (scanOf n.keyspace (s.touch now))).2 (s.touch now) :=
  .ask rfl (ask?_scan hs n.keyspace) (.done rfl)

theorem alone_imported (me : Nat) (hs : s.available = true) (hk : s.IsKeyed)
    (hf : n.keyspace.FitsIn (s.touch now).contents) (hn : n.globalRows.IsWellFormed) :
    ∃ summary, importOnce.Alone me now n s (.imported (.ok (some summary)))
      (reconcileRead n (scanOf n.keyspace (s.touch now))).2 (s.touch now) := by
  obtain ⟨summary, _, heq, -, -⟩ :=
    reconcileRead_shows ((Store.follows_touch s now).keyed hk) hf hn
  have halone : importOnce.Alone me now n s _ _ _ := alone_importOnce me n hs
  rw [show (reconcileRead n (scanOf n.keyspace (s.touch now))).1 = .ok (some summary) by rw [heq]]
    at halone
  exact ⟨summary, halone⟩

theorem alone_importOnce_skipped (me now : Nat) (n : Node) (hs : s.available = false) :
    importOnce.Alone me now n s (.imported (.ok none)) n s :=
  .ask rfl (Store.ask?_of_offline hs rfl) (.done rfl)

theorem Activity.Alone.available_of_imported {summary : Summary}
    (h : importOnce.Alone me now n s (.imported (.ok (some summary))) n' s') :
    s.available = true := by
  by_contra hs
  have hskipped := alone_importOnce_skipped me now n (by simpa using hs)
  cases (h.det hskipped).1

theorem Activity.Alone.keyspace_of_imported {summary : Summary}
    (h : importOnce.Alone me now n s (.imported (.ok (some summary))) n' s') :
    n'.keyspace = n.keyspace := by
  obtain ⟨-, hnode, -⟩ := h.det (alone_importOnce me n h.available_of_imported)
  obtain ⟨globalRows, hr⟩ := reconcileRead_node n (scanOf n.keyspace (s.touch now))
  rw [hnode, hr]
  rfl

/-- What an import that was not skipped leaves. -/
theorem Activity.Alone.imported_spec {summary : Summary}
    (h : importOnce.Alone me now n s (.imported (.ok (some summary))) n' s') (hk : s.IsKeyed)
    (hf : n'.keyspace.FitsIn s'.contents) (hn : n.globalRows.IsWellFormed) :
    n'.globalRows.IsWellFormed ∧ n'.globalRows.Shows (n'.keyspace.rowIn s'.contents) := by
  rw [h.keyspace_of_imported] at hf ⊢
  obtain ⟨-, hnode, rfl⟩ := h.det (alone_importOnce me n h.available_of_imported)
  obtain ⟨_, t, heq, ht, hshows⟩ :=
    reconcileRead_shows ((Store.follows_touch s now).keyed hk) hf hn
  rw [heq] at hnode
  rw [hnode]
  exact ⟨ht, hshows⟩

end ServiceDirectory
