import ServiceDirectory.Proofs.Json.ObjectText

/-! # Rows that are the same

Rows are compared by their metadata. A row is canonical if its data is the text of its metadata, as
that of a registered or a decoded row is; canonical rows are the same only if they are equal. Of any
rows, those are the same that mean the same (`same_iff_meaning_eq`).
-/

namespace ServiceDirectory

@[simp] theorem ok_bind {ε α β : Type} (a : α) (f : α → Except ε β) :
    (Except.ok a >>= f) = f a := rfl

@[simp] theorem pure_eq_ok {ε α : Type} (a : α) : (pure a : Except ε α) = .ok a := rfl

theorem bind_eq_ok_iff {ε α β : Type} {x : Except ε α} {f : α → Except ε β} {b : β} :
    (x >>= f) = .ok b ↔ ∃ a, x = .ok a ∧ f a = .ok b := by
  cases x with
  | error e =>
    constructor
    · intro h
      cases h
    · rintro ⟨a, h, -⟩
      cases h
  | ok a => simp

namespace Row

variable {row other : Row}

/-- The data is written as the text of metadata. -/
def IsCanonical (row : Row) : Prop := ∃ m : Metadata, row.data = Json.stringObjectText m

theorem isCanonical_toRow (s : Service) : s.toRow.IsCanonical := ⟨s.metadata, rfl⟩

theorem same_refl (row : Row) : row.same row = true := by
  unfold same
  cases Metadata.parse row.data <;> simp

theorem same_iff_eq (hrow : row.IsCanonical) (hother : other.IsCanonical) :
    row.same other = true ↔ row = other := by
  constructor
  · intro h
    obtain ⟨m, hm⟩ := hrow
    obtain ⟨m', hm'⟩ := hother
    obtain ⟨id, hostname, port, ttl, data⟩ := row
    obtain ⟨id', hostname', port', ttl', data'⟩ := other
    simp only at hm hm'
    simp [same, hm, hm', Metadata.parse_stringObjectText] at h
    obtain ⟨⟨⟨⟨rfl, rfl⟩, rfl⟩, rfl⟩, rfl⟩ := h
    rw [hm, hm']
  · rintro rfl
    exact same_refl _

theorem sameFound_refl (found : Option Row) : sameFound found found = true := by
  cases found with
  | none => rfl
  | some row => exact same_refl row

theorem sameFound_iff_eq {a b : Option Row} (ha : ∀ row ∈ a, row.IsCanonical)
    (hb : ∀ row ∈ b, row.IsCanonical) : sameFound a b = true ↔ a = b := by
  cases a <;> cases b <;> simp_all [sameFound, same_iff_eq]

/-- A row without the way its data is written, if the data can be read. -/
def meaning (row : Row) : ServiceId × String × UInt16 × UInt32 × (Metadata ⊕ String) :=
  (row.id, row.hostname, row.port, row.ttl, (Metadata.parse row.data).elim (.inr row.data) .inl)

theorem same_iff_meaning_eq : row.same other = true ↔ row.meaning = other.meaning := by
  unfold same meaning
  cases h : Metadata.parse row.data with
  | none =>
    cases h' : Metadata.parse other.data with
    | none => simp [and_assoc]
    | some m' =>
      have hne : row.data ≠ other.data := fun he => by simp [he, h'] at h
      simp [hne]
  | some m =>
    cases h' : Metadata.parse other.data with
    | none =>
      have hne : row.data ≠ other.data := fun he => by simp [he, h'] at h
      simp [hne]
    | some m' => simp [and_assoc]

theorem sameFound_iff_map_eq {a b : Option Row} :
    sameFound a b = true ↔ a.map meaning = b.map meaning := by
  cases a <;> cases b <;> simp [sameFound, same_iff_meaning_eq]

theorem sameFound_comm (a b : Option Row) : sameFound a b = sameFound b a := by
  rw [Bool.eq_iff_iff, sameFound_iff_map_eq, sameFound_iff_map_eq, eq_comm]

theorem sameFound_congr_left {a b c : Option Row} (h : sameFound a b = true) :
    sameFound a c = sameFound b c := by
  rw [Bool.eq_iff_iff, sameFound_iff_map_eq, sameFound_iff_map_eq, sameFound_iff_map_eq.1 h]

end Row

end ServiceDirectory
