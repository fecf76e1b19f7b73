/-! # Binary floating-point numbers

A number of the 64-bit binary format is kept as its bits. Its exact value is read off the bits as
`m · 2 ^ q`, so that printing and rounding are whole-number arithmetic.
-/

namespace ServiceDirectory.Decimal

structure Double where
  bits : UInt64
  deriving DecidableEq, Inhabited

namespace Double

inductive Value
  | nan
  | infinite (negative : Bool)
  /-- The number `± m · 2 ^ q`. -/
  | finite (negative : Bool) (m : Nat) (q : Int)
  deriving DecidableEq

def ofFloat (x : Float) : Double := ⟨x.toBits⟩

def toFloat (x : Double) : Float := Float.ofBits x.bits

def value (x : Double) : Value :=
  let n := x.bits.toNat
  let negative := n.testBit 63
  let exponent : Nat := n >>> 52 % 2048
  let fraction : Nat := n % (1 <<< 52)
  if exponent = 2047 then
    if fraction = 0 then .infinite negative else .nan
  else if exponent = 0 then .finite negative fraction (-1074)
  else .finite negative (1 <<< 52 + fraction) (exponent - 1075)

/-- The number nearest to `± significand · 10 ^ exponent`. -/
def ofDecimal (negative : Bool) (significand : Nat) (exponent : Int) : Double :=
  let magnitude : Int := (Nat.toDigits 10 significand).length + exponent
  let x :=
    if significand = 0 ∨ magnitude < -400 then 0.0
    else if 400 < magnitude then 1.0 / 0.0
    else if 0 ≤ exponent then Float.ofScientific significand false exponent.toNat
    else Float.ofScientific significand true (-exponent).toNat
  ofFloat (if negative then -x else x)

/-- The nearest whole number, a half going away from zero. -/
def round (negative : Bool) (m : Nat) (q : Int) : Int :=
  let n := if 0 ≤ q then m <<< q.toNat else (2 * m + 1 <<< (-q).toNat) >>> ((-q).toNat + 1)
  if negative then -(n : Int) else n

def clamp (least greatest n : Int) : Int := max least (min greatest n)

/-- The nearest whole number within bounds; `nan` counts as zero. -/
def toInt (least greatest : Int) (x : Double) : Int :=
  match x.value with
  | .nan => 0
  | .infinite true => least
  | .infinite false => greatest
  | .finite negative m q => clamp least greatest (round negative m q)

def isZero (x : Double) : Bool := x.bits <<< 1 == 0

end Double

end ServiceDirectory.Decimal
