import ServiceDirectory.Decimal.Double

/-! # Reading binary numbers

An optional sign, digits with or without a point among or beside them, and an optional power of ten.
Infinity and the number that is none have names, in either case.
-/

namespace ServiceDirectory.Decimal

def isExponentMark (c : Char) : Bool := c == 'e' || c == 'E'

def exponent? : List Char → Option Int
  | [] => some 0
  | c :: r =>
    if !isExponentMark c then none
    else
      let (down, digits) := match r with
        | '-' :: r => (true, r)
        | '+' :: r => (false, r)
        | r => (false, r)
      if digits.isEmpty || !digits.all Char.isDigit then none
      else
        let n := Nat.ofDigitChars 10 digits 0
        some (if down then -(n : Int) else n)

def lowerCase (s : List Char) : List Char := s.map Char.toLower

namespace Double

def infinity : Double := ofFloat (1.0 / 0.0)
def nan : Double := ofFloat (0.0 / 0.0)

def negate (x : Double) : Double := ofFloat (-x.toFloat)

def ofWord? (negative : Bool) (s : List Char) : Option Double :=
  if lowerCase s = "nan".toList then some nan
  else if lowerCase s = "inf".toList ∨ lowerCase s = "infinity".toList then
    some (if negative then infinity.negate else infinity)
  else none

def ofUnsigned? (negative : Bool) (s : List Char) : Option Double :=
  let before := s.takeWhile Char.isDigit
  let r := s.dropWhile Char.isDigit
  let (after, r) := match r with
    | '.' :: r => (r.takeWhile Char.isDigit, r.dropWhile Char.isDigit)
    | r => ([], r)
  if before.isEmpty && after.isEmpty then ofWord? negative s
  else (exponent? r).map fun e =>
    ofDecimal negative (Nat.ofDigitChars 10 (before ++ after) 0) (e - after.length)

def ofChars? : List Char → Option Double
  | '-' :: r => ofUnsigned? true r
  | '+' :: r => ofUnsigned? false r
  | s => ofUnsigned? false s

end Double

end ServiceDirectory.Decimal
