/-! # Byte strings

Byte strings are compared byte by byte, and a proper beginning comes before the whole. Text becomes
bytes by its UTF-8 encoding; reading text back accepts exactly the encodings of a text
(`text?_utf8`, `utf8_of_text?`). Whole numbers are written with the lowest byte first.
-/

namespace ServiceDirectory

abbrev Bytes := List UInt8

def utf8 (s : String) : Bytes := s.toUTF8.data.toList

def text? (b : Bytes) : Option String := String.fromUTF8? ⟨b.toArray⟩

theorem text?_utf8 (s : String) : text? (utf8 s) = some s := by
  have h : (ByteArray.mk s.toUTF8.data.toList.toArray) = s.toUTF8 := by simp
  unfold text? utf8
  rw [h]
  simp only [String.fromUTF8?, String.toUTF8_eq_toByteArray, dif_pos s.isValidUTF8]
  rfl

theorem utf8_of_text? {b : Bytes} {s : String} (h : text? b = some s) : b = utf8 s := by
  unfold text? String.fromUTF8? at h
  split at h
  · cases h; simp [utf8, String.fromUTF8]
  · cases h

namespace Bytes

def isBeginningOf (p b : Bytes) : Bool := p.isPrefixOf b

/-- The lowest `width` bytes of a number, lowest first. -/
def littleEndian : (width n : Nat) → Bytes
  | 0, _ => []
  | w + 1, n => n.toUInt8 :: littleEndian w (n / 256)

def ofLittleEndian : Bytes → Nat
  | [] => 0
  | b :: r => b.toNat + 256 * ofLittleEndian r

@[simp] theorem length_littleEndian (w n : Nat) : (littleEndian w n).length = w := by
  induction w generalizing n with
  | zero => rfl
  | succ w ih => simp [littleEndian, ih]

theorem ofLittleEndian_littleEndian {w n : Nat} (h : n < Nat.pow 256 w) :
    ofLittleEndian (littleEndian w n) = n := by
  induction w generalizing n with
  | zero => simp [littleEndian, ofLittleEndian] at h ⊢; omega
  | succ w ih =>
    have : n / 256 < Nat.pow 256 w := Nat.div_lt_of_lt_mul (Nat.mul_comm _ 256 ▸ h)
    simp [littleEndian, ofLittleEndian, ih this]
    omega

def splitAt? (n : Nat) (b : Bytes) : Option (Bytes × Bytes) :=
  if n ≤ b.length then some (b.take n, b.drop n) else none

end Bytes

end ServiceDirectory
