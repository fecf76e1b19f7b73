import ServiceDirectory.Proofs.Row.Same
import ServiceDirectory.Proofs.Row.Storable
import ServiceDirectory.Table.Reconcile

/-! # Contents of tables

A well-formed table keeps storable rows at the bytes of their ids. It is then a finite map from ids
to rows: `row?` looks a row up, two tables with the same rows are equal (`ext_row?`), and each
change of a table is told by the rows after it. Changes of canonical rows leave a row alone only if
it is equal, so they may be read as plain writes.
-/

namespace ServiceDirectory

namespace Table

variable {t u : Table} {id id' : ServiceId} {row : Row}

def IsWellFormed (t : Table) : Prop :=
  ∀ b v, t.rows.find? b = some v → ∃ row : Row, row.IsStorable ∧ b = row.id.bytes ∧ v = row.bytes

def row? (t : Table) (id : ServiceId) : Option Row :=
  match t.find id with
  | .ok (some row) => if row.id = id then some row else none
  | _ => none

theorem row?_id (h : t.row? id = some row) : row.id = id := by
  unfold row? at h
  split at h
  · split at h
    · next hid => exact (Option.some.inj h) ▸ hid
    · cases h
  · cases h

theorem find_of_find? (hrow : row.IsStorable) (h : t.rows.find? id.bytes = some row.bytes) :
    t.find id = .ok (some row) := by
  have hb := Row.ofBytes_bytes hrow []
  rw [List.append_nil] at hb
  simp [find, h, hb]

theorem row?_of_find? (hrow : row.IsStorable)
    (h : t.rows.find? row.id.bytes = some row.bytes) : t.row? row.id = some row := by
  simp [row?, find_of_find? hrow h]

theorem IsWellFormed.of_row? (ht : t.IsWellFormed) (h : t.row? id = some row) :
    row.IsStorable ∧ t.rows.find? id.bytes = some row.bytes := by
  unfold row? at h
  cases hf : t.rows.find? id.bytes with
  | none => simp [find, hf] at h
  | some v =>
    obtain ⟨r, hr, -, rfl⟩ := ht _ _ hf
    rw [find_of_find? hr hf] at h
    obtain ⟨-, rfl⟩ : r.id = id ∧ r = row := by simpa using h
    exact ⟨hr, rfl⟩

theorem IsWellFormed.isStorable (ht : t.IsWellFormed) (h : t.row? id = some row) :
    row.IsStorable := (ht.of_row? h).1

theorem IsWellFormed.row?_eq_none (ht : t.IsWellFormed) (hid : id.IsStorable)
    (h : t.row? id = none) : t.rows.find? id.bytes = none := by
  cases hf : t.rows.find? id.bytes with
  | none => rfl
  | some v =>
    obtain ⟨row, hrow, hb, rfl⟩ := ht _ _ hf
    obtain rfl := ServiceId.bytes_injective hid hrow.id hb
    rw [row?_of_find? hrow hf] at h
    cases h

theorem IsWellFormed.find_eq (ht : t.IsWellFormed) (hid : id.IsStorable) :
    t.find id = .ok (t.row? id) := by
  cases h : t.row? id with
  | none => simp [find, ht.row?_eq_none hid h]
  | some row => exact find_of_find? (ht.isStorable h) (ht.of_row? h).2

theorem IsWellFormed.contains_eq (ht : t.IsWellFormed) (hid : id.IsStorable) :
    t.rows.contains id.bytes = (t.row? id).isSome := by
  cases h : t.row? id with
  | none => simp [Dictionary.contains, ht.row?_eq_none hid h]
  | some row => simp [Dictionary.contains, (ht.of_row? h).2]

theorem IsWellFormed.ext_row? (ht : t.IsWellFormed) (hu : u.IsWellFormed)
    (h : ∀ id, t.row? id = u.row? id) : t = u := by
  have half : ∀ {t u : Table}, t.IsWellFormed → u.IsWellFormed → (∀ id, t.row? id = u.row? id) →
      ∀ b v, t.rows.find? b = some v → u.rows.find? b = some v := by
    intro t u ht hu h b v hf
    obtain ⟨row, hrow, rfl, rfl⟩ := ht b v hf
    have hr := row?_of_find? hrow hf
    rw [h] at hr
    exact (hu.of_row? hr).2
  have hrows : t.rows = u.rows := by
    apply Dictionary.ext_find?
    intro b
    ext v
    constructor
    · exact half ht hu h b v
    · exact half hu ht (fun id => (h id).symm) b v
  cases t
  cases u
  cases hrows
  rfl

/-- Two tables that have the same at the bytes of an id, which are looked at only if the id is
storable, have the same row for it. -/
theorem IsWellFormed.row?_congr (ht : t.IsWellFormed) (hu : u.IsWellFormed)
    (h : ∀ r : Row, r.id = id → r.IsStorable → t.rows.find? id.bytes = u.rows.find? id.bytes) :
    t.row? id = u.row? id := by
  ext r
  constructor
  · intro hr
    obtain ⟨hs, hf⟩ := ht.of_row? hr
    obtain rfl := row?_id hr
    exact row?_of_find? hs (h r rfl hs ▸ hf)
  · intro hr
    obtain ⟨hs, hf⟩ := hu.of_row? hr
    obtain rfl := row?_id hr
    exact row?_of_find? hs ((h r rfl hs).symm ▸ hf)

theorem isWellFormed_empty : empty.IsWellFormed := by
  intro b v h
  cases h

@[simp] theorem row?_empty (id : ServiceId) : empty.row? id = none := rfl

/-! ## Writing and erasing -/

theorem IsWellFormed.write (ht : t.IsWellFormed) (hrow : row.IsStorable) :
    (t.write row).IsWellFormed := by
  intro b v h
  rw [Table.write, Dictionary.find?_insert] at h
  split at h
  · next hb => exact ⟨row, hrow, hb, (Option.some.inj h).symm⟩
  · exact ht b v h

theorem IsWellFormed.row?_write (ht : t.IsWellFormed) (hrow : row.IsStorable) (id : ServiceId) :
    (t.write row).row? id = if id = row.id then some row else t.row? id := by
  split
  · next h =>
    subst h
    exact row?_of_find? hrow (by rw [Table.write, Dictionary.find?_insert, if_pos rfl])
  · next h =>
    apply (ht.write hrow).row?_congr ht
    intro r hr hs
    have hne : id.bytes ≠ row.id.bytes := by
      intro hb
      exact h (ServiceId.bytes_injective (hr ▸ hs.id) hrow.id hb)
    rw [Table.write, Dictionary.find?_insert, if_neg hne]

theorem IsWellFormed.erase (ht : t.IsWellFormed) (id : ServiceId) : (t.erase id).IsWellFormed := by
  intro b v h
  rw [Table.erase, Dictionary.find?_erase] at h
  split at h
  · cases h
  · exact ht b v h

theorem IsWellFormed.row?_erase (ht : t.IsWellFormed) (hid : id.IsStorable) (id' : ServiceId) :
    (t.erase id).row? id' = if id' = id then none else t.row? id' := by
  split
  · next h =>
    subst h
    cases hr : (t.erase id').row? id' with
    | none => rfl
    | some r =>
      have hf := ((ht.erase id').of_row? hr).2
      rw [Table.erase, Dictionary.find?_erase, if_pos rfl] at hf
      cases hf
  · next h =>
    apply (ht.erase id).row?_congr ht
    intro r hr hs
    have hne : id'.bytes ≠ id.bytes := by
      intro hb
      exact h (ServiceId.bytes_injective (hr ▸ hs.id) hid hb)
    rw [Table.erase, Dictionary.find?_erase, if_neg hne]

theorem IsWellFormed.write_eq_self (ht : t.IsWellFormed) (h : t.row? row.id = some row) :
    t.write row = t := by
  have hrow := ht.isStorable h
  apply (ht.write hrow).ext_row? ht
  intro id
  rw [ht.row?_write hrow]
  split
  · next hid => rw [hid, h]
  · rfl

theorem IsWellFormed.erase_eq_self (ht : t.IsWellFormed) (hid : id.IsStorable)
    (h : t.row? id = none) : t.erase id = t := by
  apply (ht.erase id).ext_row? ht
  intro id'
  rw [ht.row?_erase hid]
  split
  · next hid' => rw [hid', h]
  · rfl

/-! ## All rows -/

theorem mapM_ofBytes {rows : List Row} (h : ∀ row ∈ rows, row.IsStorable) :
    (rows.map Row.bytes).mapM Row.ofBytes = .ok rows := by
  induction rows with
  | nil => rfl
  | cons row rows ih =>
    have hb := Row.ofBytes_bytes (h row (.head _)) []
    rw [List.append_nil] at hb
    rw [List.map_cons, List.mapM_cons, hb, ih fun r hr => h r (.tail _ hr)]
    rfl

theorem exists_rows_of_entries {l : List (Bytes × Bytes)}
    (h : ∀ e ∈ l, ∃ row : Row, row.IsStorable ∧ e = (row.id.bytes, row.bytes)) :
    ∃ rows : List Row, l = rows.map (fun r => (r.id.bytes, r.bytes)) ∧
      ∀ r ∈ rows, r.IsStorable := by
  induction l with
  | nil => exact ⟨[], rfl, by simp⟩
  | cons e l ih =>
    obtain ⟨row, hrow, rfl⟩ := h e (.head _)
    obtain ⟨rows, rfl, hst⟩ := ih fun e he => h e (.tail _ he)
    exact ⟨row :: rows, rfl, List.forall_mem_cons.2 ⟨hrow, hst⟩⟩

theorem IsWellFormed.all_eq (ht : t.IsWellFormed) : ∃ rows, t.all = .ok rows ∧
    (∀ row, row ∈ rows ↔ t.row? row.id = some row) ∧ rows.Pairwise fun a b => a.id ≠ b.id := by
  have hentry : ∀ e ∈ t.rows.entries, ∃ row : Row,
      row.IsStorable ∧ e = (row.id.bytes, row.bytes) := by
    intro e he
    obtain ⟨row, hrow, hb, hv⟩ := ht e.1 e.2 ((Dictionary.find?_eq_some_iff _ _ _).2 he)
    exact ⟨row, hrow, Prod.ext hb hv⟩
  obtain ⟨rows, hrows, hst⟩ := exists_rows_of_entries hentry
  have hvalues : t.rows.values = rows.map Row.bytes := by
    rw [Dictionary.values, hrows, List.map_map]
    rfl
  refine ⟨rows, ?_, ?_, ?_⟩
  · rw [all, hvalues, mapM_ofBytes hst]
  · intro row
    constructor
    · intro h
      have he : (row.id.bytes, row.bytes) ∈ t.rows.entries :=
        hrows ▸ List.mem_map_of_mem (f := fun r : Row => (r.id.bytes, r.bytes)) h
      exact row?_of_find? (hst row h) ((Dictionary.find?_eq_some_iff _ _ _).2 he)
    · intro h
      obtain ⟨hrow, hf⟩ := ht.of_row? h
      have he := (Dictionary.find?_eq_some_iff _ _ _).1 hf
      rw [hrows] at he
      obtain ⟨r, hr, heq⟩ := List.mem_map.1 he
      rwa [← Row.bytes_injective (hst r hr) hrow (Prod.mk.inj heq).2]
  · have hne := t.rows.entries_pairwise_ne
    rw [hrows, List.pairwise_map] at hne
    exact hne.imp fun h hid => h (by rw [hid])

end Table

end ServiceDirectory
