import Mathlib.Tactic
import ServiceDirectory.Keyspace

/-! # Keys and ids

The key of an id is its segments between separators. Splitting it gives the segments back if none of
them holds a separator, so a key is read as an id exactly if it is the key of that id and the id is
valid (`parseKey_eq_some_iff`).
-/

namespace ServiceDirectory

namespace ServiceId

theorem toBool_bind {ε α : Type} (x : Except ε Unit) (f : Except ε α) :
    (x >>= fun _ => f).toBool = (x.toBool && f.toBool) := by
  cases x <;> rfl

theorem toBool_checkSegment (field : Field) (s : String) :
    (checkSegment field s).toBool = true ↔ s ≠ "" ∧ '/' ∉ s.toList := by
  unfold checkSegment
  split_ifs with he hs <;> simp_all [Except.toBool]

theorem isValid_iff {id : ServiceId} :
    id.isValid = true ↔ ∀ s ∈ id.segments, s ≠ "" ∧ '/' ∉ s.toList := by
  simp [isValid, check, toBool_bind, toBool_checkSegment, segments]

theorem toList_text (id : ServiceId) :
    id.text.toList = ['/'].intercalate (id.segments.map String.toList) := by
  simp [text, segments, List.intercalate]

end ServiceId

namespace Keyspace

variable {k : Keyspace} {id other : ServiceId} {key : Bytes}

theorem isPrefixOf?_eq_some_iff {p l r : List Char} :
    p.isPrefixOf? l = some r ↔ l = p ++ r := by
  induction p generalizing l with
  | nil => simp [List.isPrefixOf?, eq_comm]
  | cons c p ih =>
    cases l with
    | nil => simp [List.isPrefixOf?]
    | cons d l =>
      by_cases h : c = d
      · simp [List.isPrefixOf?, h, ih]
      · simp [List.isPrefixOf?, h, Ne.symm h]

theorem relative?_eq_some_iff {l r : List Char} :
    k.relative? l = some r ↔ l = k.root.toList ++ '/' :: r := by
  unfold relative?
  split
  · next h => simp [isPrefixOf?_eq_some_iff.1 h]
  · next h =>
    constructor
    · intro hr
      cases hr
    · intro hl
      exact absurd (isPrefixOf?_eq_some_iff.2 hl) (h r)

theorem idOfSegments?_eq_some_iff {l : List (List Char)} :
    idOfSegments? l = some id ↔ l = id.segments.map String.toList := by
  obtain ⟨a, b, c⟩ := id
  constructor
  · intro h
    unfold idOfSegments? at h
    split at h
    · cases h
      simp [ServiceId.segments]
    · cases h
  · rintro rfl
    simp [idOfSegments?, ServiceId.segments]

theorem toList_key_text (k : Keyspace) (id : ServiceId) : (k.root ++ "/" ++ id.text).toList =
    k.root.toList ++ '/' :: ['/'].intercalate (id.segments.map String.toList) := by
  simp [ServiceId.toList_text]

theorem parseKey_eq_some_iff : k.parseKey key = some id ↔ id.isValid = true ∧ key = k.key id := by
  constructor
  · intro h
    simp only [parseKey, Option.bind_eq_bind, Option.bind_eq_some_iff] at h
    obtain ⟨s, hs, r, hr, id', hid', h⟩ := h
    split at h
    · next hv =>
      cases h
      refine ⟨hv, ?_⟩
      have hr' := relative?_eq_some_iff.1 hr
      have hseg := idOfSegments?_eq_some_iff.1 hid'
      have hsplit : ['/'].intercalate (r.splitOn '/') = r := List.intercalate_splitOn '/'
      rw [utf8_of_text? hs, Keyspace.key]
      congr 1
      apply String.toList_injective
      rw [toList_key_text, hr', ← hseg, hsplit]
    · cases h
  · rintro ⟨hv, rfl⟩
    have hs : ∀ l ∈ id.segments.map String.toList, '/' ∉ l := by
      intro l hl
      obtain ⟨s, hs, rfl⟩ := List.mem_map.1 hl
      exact (ServiceId.isValid_iff.1 hv s hs).2
    have hr := relative?_eq_some_iff.2 (toList_key_text k id)
    have hsplit := List.splitOn_intercalate '/' hs (by simp [ServiceId.segments])
    simp only [parseKey, key, text?_utf8, Option.bind_eq_bind, Option.bind_some, hr, hsplit,
      idOfSegments?_eq_some_iff.2 rfl, hv, ↓reduceIte]

theorem parseKey_key (h : id.isValid = true) : k.parseKey (k.key id) = some id :=
  parseKey_eq_some_iff.2 ⟨h, rfl⟩

theorem key_injective (h : id.isValid = true) (h' : other.isValid = true)
    (hk : k.key id = k.key other) : id = other := by
  have := parseKey_key (k := k) h
  rw [hk, parseKey_key h'] at this
  exact (Option.some.inj this).symm

theorem beginning_prefix_key (k : Keyspace) (id : ServiceId) : k.beginning <+: k.key id :=
  ⟨utf8 id.text, by simp [beginning, key, utf8, String.append_assoc]⟩

end Keyspace

end ServiceDirectory
