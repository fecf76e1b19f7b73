import ServiceDirectory.Proofs.Table.Contents

/-! # Changes of tables of canonical rows

In a table of canonical rows a change succeeds, and it does what plain writing and erasing do: a
write that is spared would have written what is there.
-/

namespace ServiceDirectory

/-- A storable row whose data is the text of its metadata. -/
structure Row.IsProper (row : Row) : Prop where
  storable : row.IsStorable
  canonical : row.IsCanonical

structure Table.IsProper (t : Table) : Prop where
  wellFormed : t.IsWellFormed
  canonical : ∀ id row, t.row? id = some row → row.IsCanonical

def RowChange.IsProper : RowChange → Prop
  | .put row => row.IsProper
  | .delete id => id.IsStorable

def RowChange.id : RowChange → ServiceId
  | .put row => row.id
  | .delete id => id

def RowChange.row? : RowChange → Option Row
  | .put row => some row
  | .delete _ => none

namespace Table

variable {t u : Table} {id : ServiceId} {row : Row}

theorem isProper_empty : empty.IsProper := ⟨isWellFormed_empty, by simp⟩

theorem IsProper.ext_row? (ht : t.IsProper) (hu : u.IsProper) (h : ∀ id, t.row? id = u.row? id) :
    t = u := ht.wellFormed.ext_row? hu.wellFormed h

theorem IsProper.write (ht : t.IsProper) (hrow : row.IsProper) : (t.write row).IsProper where
  wellFormed := ht.wellFormed.write hrow.storable
  canonical id r h := by
    rw [ht.wellFormed.row?_write hrow.storable] at h
    split at h
    · exact Option.some.inj h ▸ hrow.canonical
    · exact ht.canonical id r h

theorem IsProper.erase (ht : t.IsProper) (hid : id.IsStorable) : (t.erase id).IsProper where
  wellFormed := ht.wellFormed.erase id
  canonical id' r h := by
    rw [ht.wellFormed.row?_erase hid] at h
    split at h
    · cases h
    · exact ht.canonical id' r h

/-- Finding is comparing: what the table has for the id of a proper row is the same only if it is
equal. -/
theorem IsProper.sameFound_iff (ht : t.IsProper) (hrow : row.IsProper) :
    Row.sameFound (t.row? id) (some row) = true ↔ t.row? id = some row :=
  Row.sameFound_iff_eq (fun _ h => ht.canonical _ _ h) fun _ h =>
    Option.some.inj h ▸ hrow.canonical

/-! ## One row -/

theorem IsProper.upsert_eq (ht : t.IsProper) (hrow : row.IsProper) :
    ∃ outcome, t.upsert row = .ok (outcome, t.write row) ∧
      (outcome.changed = true ↔ t.row? row.id ≠ some row) := by
  have hf := ht.wellFormed.find_eq hrow.storable.id
  cases hc : t.row? row.id with
  | none => exact ⟨.added, by simp [upsert, hf, hc], by simp [Upsert.changed]⟩
  | some current =>
    have hsame := Row.same_iff_eq (ht.canonical _ _ hc) hrow.canonical
    by_cases heq : current = row
    · subst heq
      refine ⟨.unchanged, ?_, by simp [Upsert.changed]⟩
      simp [upsert, hf, hc, hsame.2 rfl, ht.wellFormed.write_eq_self hc]
    · refine ⟨.updated, ?_, by simp [Upsert.changed, heq]⟩
      simp [upsert, hf, hc, hsame, heq]

theorem IsWellFormed.remove_eq (ht : t.IsWellFormed) (hid : id.IsStorable) :
    t.remove id = .ok (t.row? id, t.erase id) := by
  simp [remove, ht.find_eq hid]

/-! ## Many changes -/

/-- The table after a change that is made in any case. -/
def change (t : Table) : RowChange → Table
  | .put row => t.write row
  | .delete id => t.erase id

theorem IsProper.change (ht : t.IsProper) {c : RowChange} (hc : c.IsProper) :
    (t.change c).IsProper := by
  cases c with
  | put row => exact ht.write hc
  | delete id => exact ht.erase hc

theorem IsProper.row?_change (ht : t.IsProper) {c : RowChange} (hc : c.IsProper)
    (id : ServiceId) : (t.change c).row? id = if id = c.id then c.row? else t.row? id := by
  cases c with
  | put row => exact ht.wellFormed.row?_write hc.storable id
  | delete id' => exact ht.wellFormed.row?_erase hc id

theorem IsProper.foldl_change (ht : t.IsProper) {cs : List RowChange}
    (hcs : ∀ c ∈ cs, c.IsProper) : (cs.foldl Table.change t).IsProper := by
  induction cs generalizing t with
  | nil => exact ht
  | cons c cs ih => exact ih (ht.change (hcs c (.head _))) fun c h => hcs c (.tail _ h)

theorem IsProper.row?_foldl_change (ht : t.IsProper) {cs : List RowChange}
    (hcs : ∀ c ∈ cs, c.IsProper) (id : ServiceId) :
    (cs.foldl Table.change t).row? id =
      (Dictionary.lastFor id (cs.map fun c => (c.id, c.row?))).getD (t.row? id) := by
  induction cs generalizing t with
  | nil => rfl
  | cons c cs ih =>
    have hc := hcs c (.head _)
    rw [List.foldl_cons, ih (ht.change hc) fun c h => hcs c (.tail _ h), ht.row?_change hc,
      List.map_cons, Dictionary.lastFor_cons]
    cases Dictionary.lastFor id (cs.map fun c => (c.id, c.row?)) with
    | some row => rfl
    | none => by_cases h : id = c.id <;> simp [h]

theorem IsProper.applyChange_eq (ht : t.IsProper) {c : RowChange} (hc : c.IsProper)
    (n : Summary) : ∃ n', applyChange (n, t) c = .ok (n', t.change c) := by
  cases c with
  | put row =>
    have hf := ht.wellFormed.find_eq hc.storable.id
    have hs : Row.sameFound (t.row? row.id) (some row) = true ↔ t.row? row.id = some row :=
      ht.sameFound_iff hc
    by_cases h : t.row? row.id = some row
    · refine ⟨n.countSkipped, ?_⟩
      simp [applyChange, hf, hs.2 h, Table.change, ht.wellFormed.write_eq_self h]
    · refine ⟨n.countWritten (t.row? row.id), ?_⟩
      simp [applyChange, hf, hs, h, Table.change]
  | delete id =>
    have hid : id.IsStorable := hc
    simp only [applyChange, ht.wellFormed.contains_eq hid, Table.change]
    cases h : t.row? id with
    | none => exact ⟨n.countSkipped, by simp [ht.wellFormed.erase_eq_self hid h]⟩
    | some row => exact ⟨n.countDeleted, by simp⟩

theorem IsProper.apply_eq (ht : t.IsProper) {cs : List RowChange} (hcs : ∀ c ∈ cs, c.IsProper) :
    ∃ n, t.apply cs = .ok (n, cs.foldl Table.change t) := by
  unfold apply
  generalize Summary.zero = n
  induction cs generalizing t n with
  | nil => exact ⟨n, rfl⟩
  | cons c cs ih =>
    have hc := hcs c (.head _)
    obtain ⟨n', h⟩ := ht.applyChange_eq hc n
    obtain ⟨n'', h'⟩ := ih (ht.change hc) (fun c h => hcs c (.tail _ h)) n'
    exact ⟨n'', by rw [List.foldlM_cons, h]; exact h'⟩

end Table

end ServiceDirectory
