import ServiceDirectory.Proofs.Table.ThreeWay

/-! # Tables as finite maps

A table of bytes answers every request as a finite map from ids to rows does (`Roster`), in whatever
order the requests come. The step is `Holds.perform`: a table that holds a roster answers like it
and holds the roster that is left; runs follow by induction (`Holds.run`). Lists of rows agree up to
their order.
-/

namespace ServiceDirectory

/-! ## Requests -/

inductive TableRequest
  | find (id : ServiceId)
  | all
  | size
  | upsert (row : Row)
  | remove (id : ServiceId)
  | clear
  | reconcile (target : List Row)
  | apply (changes : List RowChange)

inductive TableAnswer
  /-- The row that was found or removed. -/
  | row (found : Option Row)
  | rows (rows : List Row)
  | size (n : Nat)
  | outcome (outcome : Upsert)
  | cleared
  | summary (summary : Summary)
  deriving DecidableEq

/-- Rows may be listed in any order. -/
inductive TableAnswer.Agrees : TableAnswer → TableAnswer → Prop
  | refl (answer : TableAnswer) : Agrees answer answer
  | rows {rows rows' : List Row} (h : rows.Perm rows') : Agrees (.rows rows) (.rows rows')

instance : DecidablePred RowChange.IsStorable
  | .put row => inferInstanceAs (Decidable row.IsStorable)
  | .delete id => inferInstanceAs (Decidable id.IsStorable)

/-- The ids and the rows that a request names can be stored. -/
def TableRequest.IsStorable : TableRequest → Prop
  | .find id | .remove id => id.IsStorable
  | .upsert row => row.IsStorable
  | .reconcile target => ∀ row ∈ target, row.IsStorable
  | .apply changes => ∀ c ∈ changes, c.IsStorable
  | .all | .size | .clear => True

instance : DecidablePred TableRequest.IsStorable
  | .find id | .remove id => inferInstanceAs (Decidable id.IsStorable)
  | .upsert row => inferInstanceAs (Decidable row.IsStorable)
  | .reconcile target => inferInstanceAs (Decidable (∀ row ∈ target, row.IsStorable))
  | .apply changes => inferInstanceAs (Decidable (∀ c ∈ changes, c.IsStorable))
  | .all | .size | .clear => .isTrue trivial

namespace Table

def perform (t : Table) : TableRequest → Except StorageError (TableAnswer × Table)
  | .find id => return (.row (← t.find id), t)
  | .all => return (.rows (← t.all), t)
  | .size => return (.size t.size, t)
  | .upsert row => do
    let (outcome, t) ← t.upsert row
    return (.outcome outcome, t)
  | .remove id => do
    let (found, t) ← t.remove id
    return (.row found, t)
  | .clear => return (.cleared, empty)
  | .reconcile target => do
    let (n, t) ← t.reconcile target
    return (.summary n, t)
  | .apply changes => do
    let (n, t) ← t.apply changes
    return (.summary n, t)

def run (t : Table) : List TableRequest → Except StorageError (List TableAnswer × Table)
  | [] => return ([], t)
  | q :: requests => do
    let (answer, t) ← t.perform q
    let (answers, t) ← t.run requests
    return (answer :: answers, t)

end Table

/-! ## Rosters -/

/-- A finite map from ids to rows. -/
abbrev Roster := Dictionary ServiceId Row

namespace Roster

def upsert (d : Roster) (row : Row) : Upsert × Roster :=
  match d.find? row.id with
  | none => (.added, d.insert row.id row)
  | some current => if current.same row then (.unchanged, d) else (.updated, d.insert row.id row)

def change (s : Summary × Roster) : RowChange → Summary × Roster
  | .put row =>
    if Row.sameFound (s.2.find? row.id) (some row) then (s.1.countSkipped, s.2)
    else (s.1.countWritten (s.2.find? row.id), s.2.insert row.id row)
  | .delete id =>
    if s.2.contains id then (s.1.countDeleted, s.2.erase id) else (s.1.countSkipped, s.2)

def apply (d : Roster) (changes : List RowChange) : Summary × Roster :=
  changes.foldl change (.zero, d)

/-- What is left of a row that is wanted where `current` was found. -/
def settled (current : Option Row) (wanted : Row) : Row :=
  match current with
  | none => wanted
  | some row => if row.same wanted then row else wanted

/-- The roster becomes the one that is wanted, in which the last row of an id counts. -/
def reconcile (d : Roster) (target : List Row) : Summary × Roster :=
  let wanted := rowsById target
  let added := wanted.keys.countP fun id => !d.contains id
  let updated := wanted.keys.countP fun id =>
    d.contains id && !Row.sameFound (d.find? id) (wanted.find? id)
  let deleted := d.keys.countP fun id => !wanted.contains id
  (⟨added, updated, deleted, 0⟩, wanted.mapValues fun row => settled (d.find? row.id) row)

def perform (d : Roster) : TableRequest → TableAnswer × Roster
  | .find id => (.row (d.find? id), d)
  | .all => (.rows d.values, d)
  | .size => (.size d.size, d)
  | .upsert row => (.outcome (d.upsert row).1, (d.upsert row).2)
  | .remove id => (.row (d.find? id), d.erase id)
  | .clear => (.cleared, ∅)
  | .reconcile target => (.summary (d.reconcile target).1, (d.reconcile target).2)
  | .apply changes => (.summary (d.apply changes).1, (d.apply changes).2)

def run (d : Roster) : List TableRequest → List TableAnswer × Roster
  | [] => ([], d)
  | q :: requests =>
    let (answer, d) := d.perform q
    let (answers, d) := d.run requests
    (answer :: answers, d)

/-! ### Counts -/

/-- What was counted before stands on both sides, so that nothing is subtracted. -/
theorem balance_change (s : Summary × Roster) (c : RowChange) :
    (change s c).2.size + (change s c).1.deleted + s.1.added =
      s.2.size + s.1.deleted + (change s c).1.added := by
  cases c with
  | put row =>
    simp only [change]
    split
    · rfl
    · rw [Dictionary.size_insert, Dictionary.contains]
      cases hf : s.2.find? row.id with
      | none =>
        simp [Summary.countWritten, Summary.countAdded]
        omega
      | some current => simp [Summary.countWritten, Summary.countUpdated]
  | delete id =>
    simp only [change]
    split
    · next h =>
      have := s.2.size_erase h
      simp only [Summary.countDeleted]
      omega
    · rfl

theorem balance_foldl (s : Summary × Roster) (changes : List RowChange) :
    (changes.foldl change s).2.size + (changes.foldl change s).1.deleted + s.1.added =
      s.2.size + s.1.deleted + (changes.foldl change s).1.added := by
  induction changes generalizing s with
  | nil => rfl
  | cons c changes ih =>
    have hstep := balance_change s c
    have hrest := ih (change s c)
    rw [List.foldl_cons]
    omega

theorem balance_apply (d : Roster) (changes : List RowChange) :
    (d.apply changes).2.size + (d.apply changes).1.deleted =
      d.size + (d.apply changes).1.added := balance_foldl (.zero, d) changes

end Roster

theorem countP_eq_of_nodup {α : Type} {l m : List α} {p q : α → Bool} (hl : l.Nodup) (hm : m.Nodup)
    (h : ∀ a, a ∈ l ∧ p a = true ↔ a ∈ m ∧ q a = true) : l.countP p = m.countP q := by
  rw [List.countP_eq_length_filter, List.countP_eq_length_filter]
  refine ((List.perm_ext_iff_of_nodup (hl.filter p) (hm.filter q)).2 fun a => ?_).length_eq
  rw [List.mem_filter, List.mem_filter, h]

/-! ## Tables that hold a roster -/

namespace Table

variable {t : Table} {d : Roster} {id : ServiceId} {row : Row} {q : TableRequest}

/-- The table has the rows of the roster at the bytes of their ids. -/
structure Holds (t : Table) (d : Roster) : Prop where
  wellFormed : t.IsWellFormed
  row? : ∀ id, t.row? id = d.find? id

theorem holds_empty : empty.Holds ∅ := ⟨isWellFormed_empty, fun _ => rfl⟩

theorem IsWellFormed.exists_holds (ht : t.IsWellFormed) : ∃ d, t.Holds d := by
  obtain ⟨all, -, -, hseen⟩ := ht.rowsById_all
  exact ⟨rowsById all, ht, fun id => (hseen id).symm⟩

namespace Holds

theorem id_eq (h : t.Holds d) (hf : d.find? id = some row) : row.id = id :=
  row?_id ((h.row? id).trans hf)

theorem eq_iff {u : Table} {e : Roster} (h : t.Holds d) (hu : u.Holds e) :
    t = u ↔ ∀ id, d.find? id = e.find? id := by
  simp only [← h.row?, ← hu.row?]
  exact ⟨fun htu id => by rw [htu], h.wellFormed.ext_row? hu.wellFormed⟩

theorem find_eq (h : t.Holds d) (hid : id.IsStorable) : t.find id = .ok (d.find? id) := by
  rw [h.wellFormed.find_eq hid, h.row?]

theorem write (h : t.Holds d) (hrow : row.IsStorable) :
    (t.write row).Holds (d.insert row.id row) where
  wellFormed := h.wellFormed.write hrow
  row? id := by rw [h.wellFormed.row?_write hrow, Dictionary.find?_insert, h.row?]

theorem erase (h : t.Holds d) (hid : id.IsStorable) : (t.erase id).Holds (d.erase id) where
  wellFormed := h.wellFormed.erase id
  row? id' := by rw [h.wellFormed.row?_erase hid, Dictionary.find?_erase, h.row?]

theorem contains_eq (h : t.Holds d) (hid : id.IsStorable) :
    t.rows.contains id.bytes = d.contains id := by
  rw [h.wellFormed.contains_eq hid, h.row?, Dictionary.contains]

/-! ### What there is -/

theorem map_id_values (h : t.Holds d) : d.values.map (·.id) = d.keys :=
  d.map_values_eq_keys fun _ _ hf => h.id_eq hf

theorem all_eq (h : t.Holds d) : ∃ rows, t.all = .ok rows ∧ rows.Perm d.values := by
  obtain ⟨rows, hall, hmem, hne⟩ := h.wellFormed.all_eq
  have hvalues : d.values.Nodup := List.Nodup.of_map (·.id) (h.map_id_values ▸ d.nodup_keys)
  have hrows : rows.Nodup := hne.imp fun hid heq => hid (congrArg Row.id heq)
  refine ⟨rows, hall, (List.perm_ext_iff_of_nodup hrows hvalues).2 fun row => ?_⟩
  rw [hmem, h.row?, Dictionary.mem_values_iff]
  constructor
  · intro hf
    exact ⟨row.id, hf⟩
  · rintro ⟨id, hf⟩
    rwa [h.id_eq hf]

theorem count_all (h : t.Holds d) : ∃ rows, t.all = .ok rows ∧
    ∀ id, (rows.map (·.id)).count id = if d.contains id then 1 else 0 := by
  obtain ⟨rows, hall, hperm⟩ := h.all_eq
  refine ⟨rows, hall, fun id => ?_⟩
  rw [(hperm.map _).count_eq, h.map_id_values, d.nodup_keys.count]
  simp only [Dictionary.mem_keys_iff_contains]

theorem size_eq (h : t.Holds d) : t.size = d.size := by
  have hkeys : ∀ {id}, id ∈ d.keys → ∃ row, t.row? id = some row ∧ row.IsStorable := by
    intro id hid
    obtain ⟨row, hf⟩ := (Dictionary.mem_keys_iff _ _).1 hid
    have hr := (h.row? id).trans hf
    exact ⟨row, hr, h.wellFormed.isStorable hr⟩
  -- What is in the table is storable, so its ids have different bytes.
  have hnodup : (d.keys.map ServiceId.bytes).Nodup := by
    refine d.nodup_keys.map_on fun a ha b hb hab => ?_
    obtain ⟨rowA, hA, hsA⟩ := hkeys ha
    obtain ⟨rowB, hB, hsB⟩ := hkeys hb
    exact ServiceId.bytes_injective (row?_id hA ▸ hsA.id) (row?_id hB ▸ hsB.id) hab
  have hlength : (d.keys.map ServiceId.bytes).length = d.size := by
    rw [List.length_map, d.length_keys]
  rw [← hlength]
  refine Dictionary.size_eq_length hnodup fun b => ?_
  rw [Dictionary.contains, Option.isSome_iff_exists, List.mem_map]
  constructor
  · rintro ⟨v, hv⟩
    obtain ⟨row, hrow, rfl, rfl⟩ := h.wellFormed b v hv
    have hr := row?_of_find? hrow hv
    rw [h.row?] at hr
    exact ⟨row.id, (Dictionary.mem_keys_iff _ _).2 ⟨row, hr⟩, rfl⟩
  · rintro ⟨id, hid, rfl⟩
    obtain ⟨row, hr, -⟩ := hkeys hid
    exact ⟨row.bytes, (h.wellFormed.of_row? hr).2⟩

/-! ### Changes -/

theorem upsert (h : t.Holds d) (hrow : row.IsStorable) :
    ∃ t', t.upsert row = .ok ((d.upsert row).1, t') ∧ t'.Holds (d.upsert row).2 := by
  have hf := h.find_eq hrow.id
  unfold Roster.upsert
  cases hc : d.find? row.id with
  | none => exact ⟨t.write row, by simp [Table.upsert, hf, hc], h.write hrow⟩
  | some current =>
    by_cases hs : current.same row = true
    · exact ⟨t, by simp [Table.upsert, hf, hc, hs], by simpa [hs] using h⟩
    · exact ⟨t.write row, by simp [Table.upsert, hf, hc, hs], by simpa [hs] using h.write hrow⟩

theorem applyChange (h : t.Holds d) {c : RowChange} (hc : c.IsStorable) (n : Summary) :
    ∃ t', Table.applyChange (n, t) c = .ok ((Roster.change (n, d) c).1, t') ∧
      t'.Holds (Roster.change (n, d) c).2 := by
  cases c with
  | put row =>
    have hf := h.find_eq (ServiceDirectory.Row.IsStorable.id hc)
    simp only [Table.applyChange, Roster.change, hf, ok_bind]
    split
    · exact ⟨t, rfl, h⟩
    · exact ⟨t.write row, rfl, h.write hc⟩
  | delete id =>
    simp only [Table.applyChange, Roster.change, h.contains_eq hc]
    split
    · exact ⟨t.erase id, rfl, h.erase hc⟩
    · exact ⟨t, rfl, h⟩

theorem foldlM_applyChange (h : t.Holds d) {changes : List RowChange}
    (hc : ∀ c ∈ changes, c.IsStorable) (n : Summary) :
    ∃ t', changes.foldlM Table.applyChange (n, t) =
        .ok ((changes.foldl Roster.change (n, d)).1, t') ∧
      t'.Holds (changes.foldl Roster.change (n, d)).2 := by
  induction changes generalizing t d n with
  | nil => exact ⟨t, rfl, h⟩
  | cons c changes ih =>
    obtain ⟨t', heq, h'⟩ := h.applyChange (hc c (.head _)) n
    rw [List.foldlM_cons, heq]
    exact ih h' (fun c hm => hc c (.tail _ hm)) _

theorem apply (h : t.Holds d) {changes : List RowChange} (hc : ∀ c ∈ changes, c.IsStorable) :
    ∃ t', t.apply changes = .ok ((d.apply changes).1, t') ∧ t'.Holds (d.apply changes).2 :=
  h.foldlM_applyChange hc .zero

end Holds

/-! ## Reconciliation -/

section

variable {d : Roster} {all target : List Row}

/-- The fates of the ids are counted by looking at the ids of the roster and of the target. -/
theorem ofFates_eq_reconcile (hseen : ∀ id, (rowsById all).find? id = d.find? id) :
    Summary.ofFates ((namedIds all target).map fun id =>
      Fate.of (d.find? id) (d.find? id) ((rowsById target).find? id)) = (d.reconcile target).1 := by
  have hnamed : ∀ id, id ∈ namedIds all target ↔
      d.find? id ≠ none ∨ (rowsById target).find? id ≠ none := fun id => by
    rw [mem_namedIds_iff, hseen]
  have hkeys : ∀ (e : Roster) id, id ∈ e.keys ↔ e.find? id ≠ none := fun e id => by
    rw [Dictionary.mem_keys_iff, ← Option.ne_none_iff_exists']
  have hskipped :=
    Summary.skipped_ofFates_self (namedIds all target) d.find? (rowsById target).find?
  have hnodup := nodup_namedIds all target
  simp only [Summary.ofFates, List.count, List.countP_map, Roster.reconcile] at hskipped ⊢
  rw [hskipped]
  congr 1
  -- Each count goes over other ids: those that are named, those of the target, those of the roster.
  all_goals
    refine countP_eq_of_nodup hnodup (Dictionary.nodup_keys _) fun id => ?_
    simp only [hnamed, hkeys, Function.comp_apply, beq_iff_eq, Fate.of_self, Dictionary.contains]
    cases d.find? id <;> cases (rowsById target).find? id <;> grind [Row.sameFound]

theorem merged_eq_settled (current target : Option Row) :
    merged current current target = target.map (Roster.settled current) := by
  unfold merged Roster.settled
  cases current <;> cases target <;> simp [Row.sameFound, Row.same_refl]
  split <;> rfl

theorem Holds.reconcile (h : t.Holds d) (hg : ∀ row ∈ target, row.IsStorable) :
    ∃ t', t.reconcile target = .ok ((d.reconcile target).1, t') ∧
      t'.Holds (d.reconcile target).2 := by
  obtain ⟨all, hall, hst, hseen⟩ := h.wellFormed.rowsById_all
  obtain ⟨t', heq, ht', hrow⟩ := h.wellFormed.reconcileFrom_spec hst hg
  simp only [h.row?] at hseen heq hrow
  simp only [hseen] at heq hrow
  rw [ofFates_eq_reconcile hseen] at heq
  refine ⟨t', by simp [Table.reconcile, hall, heq], ht', fun id => ?_⟩
  have hid : ∀ row ∈ (rowsById target).find? id, row.id = id := fun row hr =>
    isById_rowsById target id row hr
  rw [hrow, merged_eq_settled, Roster.reconcile, Dictionary.find?_mapValues]
  exact Option.map_congr fun row hr => by rw [hid row hr]

end

/-! ## Runs -/

theorem Holds.perform (h : t.Holds d) (hq : q.IsStorable) : ∃ answer t',
    t.perform q = .ok (answer, t') ∧ answer.Agrees (d.perform q).1 ∧
      t'.Holds (d.perform q).2 := by
  cases q with
  | find id => exact ⟨.row (d.find? id), t, by simp [Table.perform, h.find_eq hq], .refl _, h⟩
  | all =>
    obtain ⟨rows, hall, hperm⟩ := h.all_eq
    exact ⟨_, t, by simp [Table.perform, hall], .rows hperm, h⟩
  | size => exact ⟨.size d.size, t, by simp [Table.perform, h.size_eq], .refl _, h⟩
  | upsert row =>
    obtain ⟨t', heq, h'⟩ := h.upsert hq
    exact ⟨.outcome (d.upsert row).1, t', by simp [Table.perform, heq], .refl _, h'⟩
  | remove id =>
    have hfound : t.remove id = .ok (d.find? id, t.erase id) := by
      rw [h.wellFormed.remove_eq hq, h.row?]
    exact ⟨.row (d.find? id), t.erase id, by simp [Table.perform, hfound], .refl _, h.erase hq⟩
  | clear => exact ⟨_, empty, rfl, .refl _, holds_empty⟩
  | reconcile target =>
    obtain ⟨t', heq, h'⟩ := h.reconcile hq
    exact ⟨.summary (d.reconcile target).1, t', by simp [Table.perform, heq], .refl _, h'⟩
  | apply changes =>
    obtain ⟨t', heq, h'⟩ := h.apply hq
    exact ⟨.summary (d.apply changes).1, t', by simp [Table.perform, heq], .refl _, h'⟩

theorem Holds.run (h : t.Holds d) {requests : List TableRequest}
    (hq : ∀ q ∈ requests, q.IsStorable) : ∃ answers t', t.run requests = .ok (answers, t') ∧
      answers.Forall₂ TableAnswer.Agrees (d.run requests).1 ∧ t'.Holds (d.run requests).2 := by
  induction requests generalizing t d with
  | nil => exact ⟨[], t, rfl, .nil, h⟩
  | cons q requests ih =>
    obtain ⟨answer, t₁, heq, hagrees, h₁⟩ := h.perform (hq q (.head _))
    obtain ⟨answers, t₂, heq', hagrees', h₂⟩ := ih h₁ fun q hm => hq q (.tail _ hm)
    exact ⟨answer :: answers, t₂, by simp [Table.run, heq, heq'], .cons hagrees hagrees', h₂⟩

theorem Holds.size_apply (h : t.Holds d) {changes : List RowChange}
    (hc : ∀ c ∈ changes, c.IsStorable) : ∃ n t', t.apply changes = .ok (n, t') ∧
      n.total = changes.length ∧ t'.size + n.deleted = t.size + n.added := by
  obtain ⟨t', heq, h'⟩ := h.apply hc
  refine ⟨_, t', heq, total_of_apply heq, ?_⟩
  rw [h'.size_eq, h.size_eq]
  exact d.balance_apply changes

theorem Holds.apply_twice (h : t.Holds d) {cs cs' : List RowChange} (hc : ∀ c ∈ cs, c.IsStorable)
    (hc' : ∀ c ∈ cs', c.IsStorable) : ∃ m u n v, t.apply cs = .ok (m, u) ∧
      u.apply cs' = .ok (n, v) ∧ t.apply (cs ++ cs') = .ok (m + n, v) := by
  obtain ⟨u, heq, hu⟩ := h.apply hc
  obtain ⟨v, heq', -⟩ := hu.apply hc'
  exact ⟨_, u, _, v, heq, heq', by simp [apply_append, heq, heq']⟩

/-- A table that began empty answers as a finite map does. It lists every id of the map once, has
rows under their own ids only, counts each change that is applied, and cannot tell changes that are
applied one after the other from changes that are applied together. -/
theorem run_agrees_with_roster (requests : List TableRequest) (hq : ∀ q ∈ requests, q.IsStorable) :
    ∃ answers t, empty.run requests = .ok (answers, t) ∧
      answers.Forall₂ TableAnswer.Agrees (Roster.run ∅ requests).1 ∧
      t.Holds (Roster.run ∅ requests).2 ∧
      (∀ id row, id.IsStorable → t.find id = .ok (some row) → row.id = id) ∧
      (∃ rows, t.all = .ok rows ∧ ∀ id, (rows.map (·.id)).count id =
        if (Roster.run ∅ requests).2.contains id then 1 else 0) ∧
      (∀ changes : List RowChange, (∀ c ∈ changes, c.IsStorable) →
        ∃ n t', t.apply changes = .ok (n, t') ∧ n.total = changes.length ∧
          t'.size + n.deleted = t.size + n.added) ∧
      ∀ cs cs' : List RowChange, (∀ c ∈ cs, c.IsStorable) → (∀ c ∈ cs', c.IsStorable) →
        ∃ m u n v, t.apply cs = .ok (m, u) ∧ u.apply cs' = .ok (n, v) ∧
          t.apply (cs ++ cs') = .ok (m + n, v) := by
  obtain ⟨answers, t, heq, hagrees, h⟩ := holds_empty.run hq
  refine ⟨answers, t, heq, hagrees, h, fun id row hid hf => ?_, h.count_all,
    fun changes hc => h.size_apply hc, fun cs cs' hc hc' => h.apply_twice hc hc'⟩
  rw [h.find_eq hid] at hf
  exact h.id_eq (Except.ok.inj hf)

/-- Ids of which one begins the other, and a batch that changes one id three times. -/
def busyDay : List TableRequest :=
  [.upsert (rowAt "web" 1), .upsert (rowAt "web" 1), .upsert (rowAt "webs" 1),
    .apply [.delete (rowAt "web" 1).id, .put (rowAt "web" 2), .put (rowAt "web" 2),
      .put (rowAt "mail" 1)],
    .find (rowAt "web" 1).id, .reconcile [rowAt "webs" 7, rowAt "web" 2], .size,
    .remove (rowAt "webs" 1).id, .remove (rowAt "webs" 1).id, .all, .clear, .all]

theorem run_agrees_with_roster_busyDay : (∀ q ∈ busyDay, q.IsStorable) ∧
    ∃ answers t, empty.run busyDay = .ok (answers, t) ∧ answers.Forall₂ TableAnswer.Agrees
      [.outcome .added, .outcome .unchanged, .outcome .added, .summary ⟨2, 0, 1, 1⟩,
        .row (some (rowAt "web" 2)), .summary ⟨0, 1, 1, 0⟩, .size 2, .row (some (rowAt "webs" 7)),
        .row none, .rows [rowAt "web" 2], .cleared, .rows []] := by
  have hq : ∀ q ∈ busyDay, q.IsStorable := by decide +kernel
  have hanswers : (Roster.run ∅ busyDay).1 =
      [.outcome .added, .outcome .unchanged, .outcome .added, .summary ⟨2, 0, 1, 1⟩,
        .row (some (rowAt "web" 2)), .summary ⟨0, 1, 1, 0⟩, .size 2, .row (some (rowAt "webs" 7)),
        .row none, .rows [rowAt "web" 2], .cleared, .rows []] := by decide +kernel
  obtain ⟨answers, t, heq, hagrees, -⟩ := run_agrees_with_roster busyDay hq
  exact ⟨hq, answers, t, heq, hanswers ▸ hagrees⟩

end Table

end ServiceDirectory
