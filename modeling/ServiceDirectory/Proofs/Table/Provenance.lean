import ServiceDirectory.Proofs.Table.FiniteMap

/-! # Where the rows of a table come from

A change of many rows leaves rows that were there before or that it was given. So a table that has
only rows of some kind keeps to that kind as long as it is given no others.
-/

namespace ServiceDirectory

namespace Roster

variable {d : Roster} {id : ServiceId} {row : Row}

theorem of_find?_change {s : Summary × Roster} {c : RowChange}
    (h : (change s c).2.find? id = some row) : s.2.find? id = some row ∨ c = .put row := by
  cases c with
  | put row' =>
    simp only [change] at h
    split at h
    · exact .inl h
    · rw [Dictionary.find?_insert] at h
      split at h
      · exact .inr (congrArg RowChange.put (Option.some.inj h))
      · exact .inl h
  | delete id' =>
    simp only [change] at h
    split at h
    · rw [Dictionary.find?_erase] at h
      split at h
      · cases h
      · exact .inl h
    · exact .inl h

theorem of_find?_apply {changes : List RowChange} (h : (d.apply changes).2.find? id = some row) :
    d.find? id = some row ∨ .put row ∈ changes := by
  have hfold : ∀ s : Summary × Roster, (changes.foldl change s).2.find? id = some row →
      s.2.find? id = some row ∨ .put row ∈ changes := by
    clear h
    induction changes with
    | nil => exact fun _ h => .inl h
    | cons c changes ih =>
      intro s h
      obtain hs | hm := ih (change s c) h
      · obtain hs | rfl := of_find?_change hs
        · exact .inl hs
        · exact .inr (.head _)
      · exact .inr (.tail _ hm)
  exact hfold (.zero, d) h

theorem of_find?_reconcile {target : List Row} (h : (d.reconcile target).2.find? id = some row) :
    d.find? id = some row ∨ row ∈ target := by
  rw [reconcile, Dictionary.find?_mapValues] at h
  obtain ⟨wanted, hw, rfl⟩ := Option.map_eq_some_iff.1 h
  obtain ⟨hm, rfl⟩ := mem_of_find?_rowsById hw
  unfold settled
  split
  · exact .inr hm
  · next current hc =>
    split
    · exact .inl hc
    · exact .inr hm

end Roster

namespace Table

variable {P : Row → Prop} {t : Table} {d : Roster} {row : Row}

/-- The table can be read, and all its rows are of some kind. -/
structure HasOnly (P : Row → Prop) (t : Table) : Prop where
  wellFormed : t.IsWellFormed
  row : ∀ id row, t.row? id = some row → P row

theorem hasOnly_empty (P : Row → Prop) : empty.HasOnly P :=
  ⟨isWellFormed_empty, fun _ _ h => by cases h⟩

theorem Holds.hasOnly (h : t.Holds d) (hd : ∀ id row, d.find? id = some row → P row) :
    t.HasOnly P :=
  ⟨h.wellFormed, fun id row hr => hd id row (h.row? id ▸ hr)⟩

namespace HasOnly

theorem exists_holds (h : t.HasOnly P) :
    ∃ d, t.Holds d ∧ ∀ id row, d.find? id = some row → P row := by
  obtain ⟨d, hd⟩ := h.wellFormed.exists_holds
  exact ⟨d, hd, fun id row hf => h.row id row (hd.row? id ▸ hf)⟩

theorem erase (h : t.HasOnly P) {id : ServiceId} (hid : id.IsStorable) :
    (t.erase id).HasOnly P where
  wellFormed := h.wellFormed.erase id
  row id' row hr := by
    rw [h.wellFormed.row?_erase hid] at hr
    split at hr
    · cases hr
    · exact h.row id' row hr

theorem apply (h : t.HasOnly P) {changes : List RowChange} (hc : ∀ c ∈ changes, c.IsStorable)
    (hP : ∀ row, .put row ∈ changes → P row) :
    ∃ n t', t.apply changes = .ok (n, t') ∧ t'.HasOnly P := by
  obtain ⟨d, hd, hall⟩ := h.exists_holds
  obtain ⟨t', heq, h'⟩ := hd.apply hc
  exact ⟨_, t', heq, h'.hasOnly fun id row hf =>
    (Roster.of_find?_apply hf).elim (hall id row) (hP row)⟩

theorem reconcile (h : t.HasOnly P) {target : List Row} (hs : ∀ row ∈ target, row.IsStorable)
    (hP : ∀ row ∈ target, P row) : ∃ n t', t.reconcile target = .ok (n, t') ∧ t'.HasOnly P := by
  obtain ⟨d, hd, hall⟩ := h.exists_holds
  obtain ⟨t', heq, h'⟩ := hd.reconcile hs
  exact ⟨_, t', heq, h'.hasOnly fun id row hf =>
    (Roster.of_find?_reconcile hf).elim (hall id row) (hP row)⟩

end HasOnly

end Table

end ServiceDirectory
