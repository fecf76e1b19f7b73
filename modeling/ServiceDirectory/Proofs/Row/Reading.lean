import Mathlib.Tactic
import ServiceDirectory.Proofs.Row.Storable

/-! # Reading ids and rows

What is read from the front of some bytes is what was written there: each reader gives back exactly
the storable value whose bytes are in front, and what is behind them (`Row.read_eq_some_iff`). So a
row has one binary form, whatever follows it, and what is cut short or is no text is no row
(`stored_form_exact`).
-/

namespace ServiceDirectory

namespace Bytes

variable {b p r : Bytes} {n w : Nat} {s : String}

theorem ofLittleEndian_lt (b : Bytes) : ofLittleEndian b < Nat.pow 256 b.length := by
  induction b with
  | nil => decide
  | cons x b ih =>
    have hx : x.toNat < 256 := x.toNat_lt
    rw [ofLittleEndian, List.length_cons, Nat.pow_eq, Nat.pow_succ, ← Nat.pow_eq]
    omega

theorem littleEndian_ofLittleEndian (b : Bytes) :
    littleEndian b.length (ofLittleEndian b) = b := by
  induction b with
  | nil => rfl
  | cons x b ih =>
    have hx : x.toNat < 256 := x.toNat_lt
    have hlow : (x.toNat + 256 * ofLittleEndian b).toUInt8 = x := UInt8.toNat_inj.1 (by simp)
    have hrest : (x.toNat + 256 * ofLittleEndian b) / 256 = ofLittleEndian b := by omega
    rw [List.length_cons, ofLittleEndian, littleEndian, hlow, hrest, ih]

theorem splitAt?_eq_some_iff : splitAt? n b = some (p, r) ↔ p.length = n ∧ b = p ++ r := by
  constructor
  · intro h
    unfold splitAt? at h
    split at h
    · next hle =>
      cases h
      exact ⟨List.length_take_of_le hle, (List.take_append_drop n b).symm⟩
    · cases h
  · rintro ⟨rfl, rfl⟩
    exact splitAt?_append p r

theorem readNat_eq_some_iff :
    readNat w b = some (n, r) ↔ n < Nat.pow 256 w ∧ b = littleEndian w n ++ r := by
  constructor
  · intro h
    simp only [readNat, Option.map_eq_some_iff, Prod.exists, Prod.mk.injEq] at h
    obtain ⟨p, r', hp, rfl, rfl⟩ := h
    obtain ⟨rfl, rfl⟩ := splitAt?_eq_some_iff.1 hp
    exact ⟨ofLittleEndian_lt p, by rw [littleEndian_ofLittleEndian]⟩
  · rintro ⟨hn, rfl⟩
    exact readNat_littleEndian hn r

theorem readText_eq_some_iff :
    readText b = some (s, r) ↔ IsStorableText s ∧ b = ofText s ++ r := by
  constructor
  · intro h
    simp only [readText, Option.bind_eq_bind, Option.bind_eq_some_iff, Prod.exists,
      readNat_eq_some_iff, splitAt?_eq_some_iff, Option.pure_def, Option.some.injEq,
      Prod.mk.injEq] at h
    obtain ⟨n, b', ⟨hn, rfl⟩, p, r', ⟨rfl, rfl⟩, s', hs, rfl, rfl⟩ := h
    obtain rfl := utf8_of_text? hs
    exact ⟨hn, (List.append_assoc ..).symm⟩
  · rintro ⟨hs, rfl⟩
    exact readText_ofText hs r

end Bytes

open Bytes

variable {b r : Bytes}

theorem ServiceId.read_eq_some_iff {id : ServiceId} :
    ServiceId.read b = some (id, r) ↔ id.IsStorable ∧ b = id.bytes ++ r := by
  constructor
  · intro h
    simp only [ServiceId.read, Option.bind_eq_bind, Option.bind_eq_some_iff, Prod.exists,
      readText_eq_some_iff, Option.pure_def, Option.some.injEq, Prod.mk.injEq] at h
    obtain ⟨i, b₁, ⟨hi, rfl⟩, t, b₂, ⟨ht, rfl⟩, n, b₃, ⟨hn, rfl⟩, rfl, rfl⟩ := h
    exact ⟨⟨hi, ht, hn⟩, by simp [ServiceId.bytes]⟩
  · rintro ⟨h, rfl⟩
    exact read_bytes h r

namespace Row

variable {row : Row}

theorem read_eq_some_iff : read b = some (row, r) ↔ row.IsStorable ∧ b = row.bytes ++ r := by
  constructor
  · intro h
    simp only [read, Option.bind_eq_bind, Option.bind_eq_some_iff, Prod.exists,
      ServiceId.read_eq_some_iff, readText_eq_some_iff, readNat_eq_some_iff, Option.pure_def,
      Option.some.injEq, Prod.mk.injEq] at h
    obtain ⟨id, b₁, ⟨hid, rfl⟩, hostname, b₂, ⟨hhost, rfl⟩, port, b₃, ⟨hport, rfl⟩, ttl, b₄,
      ⟨httl, rfl⟩, data, b₅, ⟨hdata, rfl⟩, rfl, rfl⟩ := h
    -- The two numbers fit, as they were read from two and from four bytes.
    have hport : port.toUInt16.toNat = port := UInt16.toNat_ofNat_of_lt hport
    have httl : ttl.toUInt32.toNat = ttl := UInt32.toNat_ofNat_of_lt httl
    exact ⟨⟨hid, hhost, hdata⟩, by simp [bytes, hport, httl]⟩
  · rintro ⟨h, rfl⟩
    exact read_bytes h r

theorem ofBytes_eq_ok_iff : ofBytes b = .ok row ↔ row.IsStorable ∧ row.bytes <+: b := by
  constructor
  · intro h
    unfold ofBytes at h
    split at h
    · next hread =>
      cases h
      obtain ⟨hrow, rfl⟩ := read_eq_some_iff.1 hread
      exact ⟨hrow, List.prefix_append ..⟩
    · cases h
  · rintro ⟨h, r, rfl⟩
    exact ofBytes_bytes h r

/-- A row cannot be read before its last byte is there. -/
theorem ofBytes_of_prefix (h : row.IsStorable) (hb : b <+: row.bytes) (hne : b ≠ row.bytes) :
    ofBytes b = .error .malformedRow := by
  have hno : ∀ other r, read b ≠ some (other, r) := by
    intro other r hread
    obtain ⟨hother, rfl⟩ := read_eq_some_iff.1 hread
    have hprefix : other.bytes <+: row.bytes := (List.prefix_append ..).trans hb
    obtain rfl := eq_of_bytes_prefix hother h hprefix
    exact hne (hb.eq_of_length_le (by simp))
  unfold ofBytes
  split
  · next hread => exact absurd hread (hno _ _)
  · rfl

end Row

/-- Rows and ids whose texts have fewer than 2 ^ 64 bytes, as all texts in a memory have, are told
by their bytes. A row is read back from its bytes, whatever follows; whatever a row is read from
begins with its bytes; from no fewer it is read; and of two ids neither has bytes that those of the
other begin with. -/
theorem stored_form_exact :
    (∀ (row : Row) (trailing : Bytes), row.IsStorable →
      Row.ofBytes (row.bytes ++ trailing) = .ok row) ∧
    (∀ (row : Row) (b : Bytes), Row.ofBytes b = .ok row → row.bytes <+: b) ∧
    (∀ (row : Row) (b : Bytes), row.IsStorable → b <+: row.bytes → b ≠ row.bytes →
      Row.ofBytes b = .error .malformedRow) ∧
    (∀ id other : ServiceId, id.IsStorable → other.IsStorable → id ≠ other →
      id.bytes ≠ other.bytes ∧ ¬ id.bytes <+: other.bytes ∧ ¬ other.bytes <+: id.bytes) := by
  refine ⟨fun row trailing h => Row.ofBytes_bytes h trailing,
    fun row b h => (Row.ofBytes_eq_ok_iff.1 h).2, fun row b => Row.ofBytes_of_prefix, ?_⟩
  intro id other hid hother hne
  have hno : ¬ id.bytes <+: other.bytes := hne ∘ ServiceId.eq_of_bytes_prefix hid hother
  have hno' : ¬ other.bytes <+: id.bytes := hne.symm ∘ ServiceId.eq_of_bytes_prefix hother hid
  exact ⟨fun h => hno (h ▸ List.prefix_rfl), hno, hno'⟩

/-- Its texts have characters of several bytes, and its numbers are the greatest. -/
def wideRow : Row :=
  ⟨⟨"node-1", "http", "stra\u00dfe"⟩, "h\u00f6st", 65535, 4294967295, "\x7b\"a\":\"𝄞\"\x7d"⟩

/-- The ids are told apart although their segments make up the same text. -/
theorem stored_form_exact_wideRow :
    wideRow.IsStorable ∧ Row.ofBytes (wideRow.bytes ++ [0, 255]) = .ok wideRow ∧
    wideRow.bytes <+: wideRow.bytes ++ [0, 255] ∧
    wideRow.bytes.dropLast <+: wideRow.bytes ∧ wideRow.bytes.dropLast ≠ wideRow.bytes ∧
    Row.ofBytes wideRow.bytes.dropLast = .error .malformedRow ∧
    ServiceId.IsStorable ⟨"a", "bc", "d"⟩ ∧ ServiceId.IsStorable ⟨"ab", "c", "d"⟩ ∧
    (⟨"a", "bc", "d"⟩ : ServiceId) ≠ ⟨"ab", "c", "d"⟩ ∧
    ServiceId.bytes ⟨"a", "bc", "d"⟩ ≠ ServiceId.bytes ⟨"ab", "c", "d"⟩ := by
  obtain ⟨hread, hexact, hshort, hids⟩ := stored_form_exact
  have hrow : wideRow.IsStorable := by decide +kernel
  have hwhole : Row.ofBytes (wideRow.bytes ++ [0, 255]) = .ok wideRow := hread _ _ hrow
  have hne : wideRow.bytes.dropLast ≠ wideRow.bytes := by decide +kernel
  have hcut : wideRow.bytes.dropLast <+: wideRow.bytes := List.dropLast_prefix _
  have hid : ServiceId.IsStorable ⟨"a", "bc", "d"⟩ := by decide +kernel
  have hother : ServiceId.IsStorable ⟨"ab", "c", "d"⟩ := by decide +kernel
  have hdiffer : (⟨"a", "bc", "d"⟩ : ServiceId) ≠ ⟨"ab", "c", "d"⟩ := by decide
  exact ⟨hrow, hwhole, hexact _ _ hwhole, hcut, hne, hshort _ _ hrow hcut hne, hid, hother, hdiffer,
    (hids _ _ hid hother hdiffer).1⟩

end ServiceDirectory
