/-! # Decimal whole numbers

Reading and writing of whole numbers in ASCII digits. `natOfDigits?_toDigits` says that
reading a written number gives the number back.
-/

namespace ServiceDirectory.Text

def natOfDigits? (s : List Char) : Option Nat :=
  if !s.isEmpty && s.all Char.isDigit then some (Nat.ofDigitChars 10 s 0) else none

theorem natOfDigits?_toDigits (n : Nat) : natOfDigits? (Nat.toDigits 10 n) = some n := by
  have h : (Nat.toDigits 10 n).all Char.isDigit = true :=
    List.all_eq_true.2 fun _ hc => Nat.isDigit_of_mem_toDigits (by decide) (by decide) hc
  simp [natOfDigits?, h, Nat.toDigits_ne_nil, Nat.ofDigitChars_toDigits]

/-- An optional plus sign, then digits. -/
def natOfChars? : List Char → Option Nat
  | '+' :: r => natOfDigits? r
  | s => natOfDigits? s

def intOfChars? : List Char → Option Int
  | '-' :: r => (natOfDigits? r).map fun n => -(n : Int)
  | s => (natOfChars? s).map Int.ofNat

def natBelow? (bound : Nat) (s : List Char) : Option Nat :=
  (natOfChars? s).filter (· < bound)

def int64? (s : List Char) : Option Int :=
  (intOfChars? s).filter fun n => Int64.minValue.toInt ≤ n && n ≤ Int64.maxValue.toInt

def natText (n : Nat) : String := String.ofList (Nat.toDigits 10 n)

def intText : Int → String
  | .ofNat n => natText n
  | .negSucc n => "-" ++ natText (n + 1)

end ServiceDirectory.Text
