import ServiceDirectory.Proofs.Table.Merge

/-! # Tables of any rows

In a table of rows that were not written here, one may stand for a row that is written otherwise. Of
such a table only what its rows mean can be foretold: a reconciliation makes it show its target
(`IsWellFormed.reconcile_shows`), and it is left alone if it does so already.
-/

namespace ServiceDirectory

def RowChange.IsStorable : RowChange → Prop
  | .put row => row.IsStorable
  | .delete id => id.IsStorable

def RowChange.applyTo (rows : ServiceId → Option Row) (c : RowChange) : ServiceId → Option Row :=
  Function.update rows c.id c.row?

namespace Table

variable {t u : Table} {rows rows' : ServiceId → Option Row} {id : ServiceId} {row : Row}

/-- The table has for every id the row that is given, but for how it is written. -/
def Shows (t : Table) (rows : ServiceId → Option Row) : Prop :=
  ∀ id, Row.sameFound (t.row? id) (rows id) = true

theorem Shows.eq_none_iff (h : t.Shows rows) (id : ServiceId) :
    t.row? id = none ↔ rows id = none := by
  have := h id
  cases ht : t.row? id <;> cases hr : rows id <;> simp_all [Row.sameFound]

/-! ## Reconciliation -/

theorem sameFound_merged_self (current target : Option Row) :
    Row.sameFound (merged current current target) target = true := by
  unfold merged
  split
  · next h => exact h
  · rw [if_pos (Row.sameFound_refl current)]
    exact Row.sameFound_refl target

theorem IsWellFormed.reconcile_shows (ht : t.IsWellFormed) {target : List Row}
    (hg : ∀ row ∈ target, row.IsStorable) :
    ∃ n t', t.reconcile target = .ok (n, t') ∧ t'.IsWellFormed ∧
      t'.Shows (rowsById target).find? := by
  obtain ⟨all, hall, hst, hseen⟩ := ht.rowsById_all
  obtain ⟨n, t', h, ht', hrow⟩ := ht.reconcileFrom_eq hst hg
  refine ⟨n, t', by simp [reconcile, hall, h], ht', fun id => ?_⟩
  rw [hrow, hseen]
  exact sameFound_merged_self _ _

theorem writesFor_eq_nil {snapshot target : Dictionary ServiceId Row}
    (h : ∀ id, Row.sameFound (snapshot.find? id) (target.find? id) = true) :
    writesFor snapshot target = [] := by
  rw [writesFor, List.map_eq_nil_iff, List.filter_eq_nil_iff]
  intro e he
  have hf := (Dictionary.find?_eq_some_iff _ e.1 e.2).2 he
  simp [← hf, h e.1]

theorem deletesFor_eq_nil {snapshot target : Dictionary ServiceId Row}
    (h : ∀ id, Row.sameFound (snapshot.find? id) (target.find? id) = true) :
    deletesFor snapshot target = [] := by
  rw [deletesFor, Dictionary.values, List.map_eq_nil_iff]
  apply List.filter_eq_nil_iff.2
  intro e he
  have hf := (Dictionary.find?_eq_some_iff _ e.1 e.2).2 he
  have hsame := h e.1
  rw [hf] at hsame
  cases hg : target.find? e.1 with
  | none => rw [hg] at hsame; cases hsame
  | some row => simp [Dictionary.contains, hg]

theorem IsWellFormed.reconcile_eq_self (ht : t.IsWellFormed) {target : List Row}
    (h : t.Shows (rowsById target).find?) : t.reconcile target = .ok (.zero, t) := by
  obtain ⟨all, hall, -, hseen⟩ := ht.rowsById_all
  have hsame : ∀ id, Row.sameFound ((rowsById all).find? id) ((rowsById target).find? id) = true :=
    fun id => hseen id ▸ h id
  simp [reconcile, hall, reconcileFrom, writesFor_eq_nil hsame, deletesFor_eq_nil hsame]

/-! ## Changes -/

theorem Shows.update {row' : Option Row} (h : t.Shows rows)
    (hrow : ∀ id', u.row? id' = if id' = id then row' else t.row? id') :
    u.Shows (Function.update rows id row') := by
  intro id'
  rw [hrow, Function.update_apply]
  split
  · exact Row.sameFound_refl _
  · exact h id'

theorem Shows.update_self {row' : Option Row} (h : t.Shows rows)
    (hrow : Row.sameFound (t.row? id) row' = true) : t.Shows (Function.update rows id row') := by
  intro id'
  rw [Function.update_apply]
  split
  · next hid => rwa [hid]
  · exact h id'

theorem IsWellFormed.applyChange_shows (ht : t.IsWellFormed) (h : t.Shows rows) {c : RowChange}
    (hc : c.IsStorable) (n : Summary) : ∃ n' t', applyChange (n, t) c = .ok (n', t') ∧
      t'.IsWellFormed ∧ t'.Shows (c.applyTo rows) := by
  cases c with
  | put row =>
    have hf := ht.find_eq hc.id
    by_cases hs : Row.sameFound (t.row? row.id) (some row) = true
    · exact ⟨n.countSkipped, t, by simp [applyChange, hf, hs], ht, h.update_self hs⟩
    · exact ⟨n.countWritten (t.row? row.id), t.write row, by simp [applyChange, hf, hs],
        ht.write hc, h.update (ht.row?_write hc)⟩
  | delete id =>
    simp only [applyChange, ht.contains_eq hc]
    cases hr : t.row? id with
    | none =>
      have hs : Row.sameFound (t.row? id) none = true := by rw [hr, Row.sameFound]
      exact ⟨n.countSkipped, t, rfl, ht, h.update_self hs⟩
    | some row => exact ⟨n.countDeleted, t.erase id, rfl, ht.erase id, h.update (ht.row?_erase hc)⟩

theorem IsWellFormed.apply_shows (ht : t.IsWellFormed) (h : t.Shows rows) {cs : List RowChange}
    (hcs : ∀ c ∈ cs, c.IsStorable) : ∃ n t', t.apply cs = .ok (n, t') ∧ t'.IsWellFormed ∧
      t'.Shows (cs.foldl RowChange.applyTo rows) := by
  unfold apply
  generalize Summary.zero = n
  induction cs generalizing t rows n with
  | nil => exact ⟨n, t, rfl, ht, h⟩
  | cons c cs ih =>
    obtain ⟨n', t', heq, ht', h'⟩ := ht.applyChange_shows h (hcs c (.head _)) n
    rw [List.foldlM_cons, heq]
    exact ih ht' h' (fun c hc => hcs c (.tail _ hc)) n'

end Table

end ServiceDirectory
