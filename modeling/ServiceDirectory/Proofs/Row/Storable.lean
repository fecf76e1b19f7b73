import Mathlib.Tactic
import ServiceDirectory.Row.Binary

/-! # Storable rows

The length in front of a text has eight bytes. A text is storable if its length fits, as that of
every text in a memory does; ids and rows are storable if their texts are. What is storable is read
back from its bytes whatever follows them, so storable ids have different bytes, none of which begin
with another's.
-/

namespace ServiceDirectory

open Bytes

/-- The length of the text fits in eight bytes. -/
def IsStorableText (s : String) : Prop := (utf8 s).length < UInt64.size

structure ServiceId.IsStorable (id : ServiceId) : Prop where
  instanceName : IsStorableText id.instanceName
  serviceType : IsStorableText id.serviceType
  serviceName : IsStorableText id.serviceName

structure Row.IsStorable (r : Row) : Prop where
  id : r.id.IsStorable
  hostname : IsStorableText r.hostname
  data : IsStorableText r.data

instance (s : String) : Decidable (IsStorableText s) := Nat.decLt _ _

instance (id : ServiceId) : Decidable id.IsStorable :=
  decidable_of_iff (∀ s ∈ id.segments, IsStorableText s)
    ⟨fun h => ⟨h _ (by simp [ServiceId.segments]), h _ (by simp [ServiceId.segments]),
      h _ (by simp [ServiceId.segments])⟩,
    fun h => by simp [ServiceId.segments, h.instanceName, h.serviceType, h.serviceName]⟩

instance (r : Row) : Decidable r.IsStorable :=
  decidable_of_iff (r.id.IsStorable ∧ IsStorableText r.hostname ∧ IsStorableText r.data)
    ⟨fun h => ⟨h.1, h.2.1, h.2.2⟩, fun h => ⟨h.id, h.hostname, h.data⟩⟩

namespace Bytes

theorem splitAt?_append (a b : Bytes) : splitAt? a.length (a ++ b) = some (a, b) := by
  simp [splitAt?]

theorem readNat_littleEndian {w n : Nat} (h : n < Nat.pow 256 w) (r : Bytes) :
    readNat w (littleEndian w n ++ r) = some (n, r) := by
  have hs := splitAt?_append (littleEndian w n) r
  rw [length_littleEndian] at hs
  simp [readNat, hs, ofLittleEndian_littleEndian h]

theorem readText_ofText {s : String} (h : IsStorableText s) (r : Bytes) :
    readText (ofText s ++ r) = some (s, r) := by
  have hn : (utf8 s).length < Nat.pow 256 8 := h
  simp [readText, ofText, List.append_assoc, readNat_littleEndian hn, splitAt?_append, text?_utf8]

end Bytes

namespace ServiceId

variable {id other : ServiceId}

theorem read_bytes (h : id.IsStorable) (r : Bytes) : read (id.bytes ++ r) = some (id, r) := by
  simp [read, bytes, List.append_assoc, readText_ofText h.instanceName,
    readText_ofText h.serviceType, readText_ofText h.serviceName]

theorem eq_of_bytes_prefix (hid : id.IsStorable) (hother : other.IsStorable)
    (h : id.bytes <+: other.bytes) : id = other := by
  obtain ⟨r, hr⟩ := h
  have hread := read_bytes hid r
  rw [hr, ← List.append_nil other.bytes, read_bytes hother] at hread
  cases hread
  rfl

theorem bytes_injective (hid : id.IsStorable) (hother : other.IsStorable)
    (h : id.bytes = other.bytes) : id = other :=
  eq_of_bytes_prefix hid hother (h ▸ List.prefix_rfl)

end ServiceId

namespace Row

variable {row other : Row}

theorem read_bytes (h : row.IsStorable) (b : Bytes) : read (row.bytes ++ b) = some (row, b) := by
  have hp : row.port.toNat < Nat.pow 256 2 := row.port.toNat_lt
  have ht : row.ttl.toNat < Nat.pow 256 4 := row.ttl.toNat_lt
  simp [read, bytes, List.append_assoc, ServiceId.read_bytes h.id, readText_ofText h.hostname,
    readNat_littleEndian hp, readNat_littleEndian ht, readText_ofText h.data]

theorem ofBytes_bytes (h : row.IsStorable) (b : Bytes) : ofBytes (row.bytes ++ b) = .ok row := by
  rw [ofBytes, read_bytes h]

theorem eq_of_bytes_prefix (hrow : row.IsStorable) (hother : other.IsStorable)
    (h : row.bytes <+: other.bytes) : row = other := by
  obtain ⟨r, hr⟩ := h
  have hread := read_bytes hrow r
  rw [hr, ← List.append_nil other.bytes, read_bytes hother] at hread
  cases hread
  rfl

theorem bytes_injective (hrow : row.IsStorable) (hother : other.IsStorable)
    (h : row.bytes = other.bytes) : row = other :=
  eq_of_bytes_prefix hrow hother (h ▸ List.prefix_rfl)

end Row

end ServiceDirectory
