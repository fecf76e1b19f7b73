import ServiceDirectory.Proofs.Keyspace.Keys
import ServiceDirectory.Proofs.Row.Same

/-! # Values and rows

A decoded row is canonical and stands under the key of its own, valid id. A canonical row can be
encoded, and its key is that of its id.
-/

namespace ServiceDirectory

theorem Row.IsCanonical.exists_metadata {row : Row} (h : row.IsCanonical) :
    ∃ m, row.metadata = .ok m := by
  obtain ⟨m, hm⟩ := h
  exact ⟨m, by simp [Row.metadata, hm, Metadata.parse_stringObjectText]⟩

namespace Keyspace

variable {k : Keyspace} {id : ServiceId} {key value : Bytes} {row : Row}

theorem decodeValue_eq_some (h : decodeValue id value = some row) :
    ∃ hostname port ttl, ∃ m : Metadata,
      row = ⟨id, hostname, port, ttl, Json.stringObjectText m⟩ := by
  simp only [decodeValue, Option.bind_eq_bind, Option.bind_eq_some_iff] at h
  obtain ⟨_, -, _, -, _, -, hostname, -, _, -, port, -, _, -, ttl, -, h⟩ := h
  cases h
  exact ⟨_, _, _, _, rfl⟩

theorem decodeValue_id (h : decodeValue id value = some row) : row.id = id := by
  obtain ⟨_, _, _, _, rfl⟩ := decodeValue_eq_some h
  rfl

theorem decodeValue_isCanonical (h : decodeValue id value = some row) : row.IsCanonical := by
  obtain ⟨_, _, _, m, rfl⟩ := decodeValue_eq_some h
  exact ⟨m, rfl⟩

theorem decode_eq_some_iff :
    k.decode key value = some row ↔
      row.id.isValid = true ∧ key = k.key row.id ∧ decodeValue row.id value = some row := by
  simp only [decode, Option.bind_eq_bind, Option.bind_eq_some_iff, parseKey_eq_some_iff]
  constructor
  · rintro ⟨id, ⟨hv, rfl⟩, h⟩
    obtain rfl := decodeValue_id h
    exact ⟨hv, rfl, h⟩
  · rintro ⟨hv, rfl, h⟩
    exact ⟨row.id, ⟨hv, rfl⟩, h⟩

theorem decode_isCanonical (h : k.decode key value = some row) : row.IsCanonical :=
  decodeValue_isCanonical (decode_eq_some_iff.1 h).2.2

theorem decode_id (h : k.decode key value = some row) : k.parseKey key = some row.id := by
  obtain ⟨hv, rfl, -⟩ := decode_eq_some_iff.1 h
  exact parseKey_key hv

theorem decode_eq_none_of_parseKey (h : k.parseKey key = none) : k.decode key value = none := by
  simp [decode, h]

def valueOf (row : Row) : Bytes :=
  match encodeValue row with
  | .ok value => value
  | .error _ => []

theorem encodeValue_eq (h : row.IsCanonical) : encodeValue row = .ok (valueOf row) := by
  obtain ⟨m, hm⟩ := h.exists_metadata
  simp [valueOf, encodeValue, hm]

theorem encode_eq (h : row.IsCanonical) : k.encode row = .ok (k.key row.id, valueOf row) := by
  simp [encode, encodeValue_eq h]

end Keyspace

end ServiceDirectory
