import ServiceDirectory.Json.Value
import ServiceDirectory.Text.Hexadecimal

/-! # Reading JSON

A reader takes the characters that are left and returns a value with the rest, or nothing if the
text is malformed. Containers nest at most `maxDepth` deep.

A number without fraction or exponent that fits in 64 bits is kept exactly. Any other is read as a
significand of at most 64 bits, to which digits are added while they fit, times a power of ten; the
product is taken in binary floating point.
-/

namespace ServiceDirectory.Json

def maxDepth : Nat := 127

def isSpace (c : Char) : Bool := c == ' ' || c == '\n' || c == '\t' || c == '\r'

def skipSpace (s : List Char) : List Char := s.dropWhile isSpace

namespace Number

/-- Adds digits to a significand while it fits in 64 bits. The second part counts the digits
that are left out. -/
def gather (significand : Nat) : List Char → Nat × Nat
  | [] => (significand, 0)
  | c :: r =>
    let next := 10 * significand + (c.toNat - '0'.toNat)
    if next < UInt64.size then gather next r else (significand, r.length + 1)

def powerOfTen (n : Nat) : Float := Float.ofScientific 1 false n

/-- `x · 10 ^ e` with one rounding for each factor of at most `10 ^ 308`; nothing on overflow. -/
def scale : (fuel : Nat) → (x : Float) → (e : Int) → Option Float
  | 0, x, _ => some x
  | fuel + 1, x, e =>
    if e.natAbs ≤ 308 then
      if 0 ≤ e then
        let y := x * powerOfTen e.natAbs
        if y.isInf then none else some y
      else some (x / powerOfTen e.natAbs)
    else if x == 0.0 then some x
    else if 0 ≤ e then none
    else scale fuel (x / powerOfTen 308) (e + 308)

def real? (negative : Bool) (significand : Nat) (e : Int) : Option Number :=
  (scale 8 significand.toUInt64.toFloat e).map fun x =>
    .real (.ofFloat (if negative then -x else x))

def ofWhole (negative : Bool) (n : Nat) : Number :=
  if !negative then .whole n
  else if n = 0 ∨ -(n : Int) < Int64.minValue.toInt then .real (.ofFloat (-n.toUInt64.toFloat))
  else .whole (-n)

def greatestExponent : Int := Int32.maxValue.toInt

/-- The number with these digits before and after the point and this exponent, where `none` says
that the part is absent. -/
def ofParts? (negative : Bool) (before : List Char) (after : Option (List Char))
    (exponent : Option (Bool × List Char)) : Option Number :=
  let (s, out) := gather 0 before
  if after.isNone && exponent.isNone && out == 0 then some (ofWhole negative s)
  else
    let fraction := after.getD []
    let (s, left) := gather s fraction
    let e : Int := out - (fraction.length - left : Nat)
    match exponent with
    | none => real? negative s e
    | some (down, digits) =>
      let n := Nat.ofDigitChars 10 digits 0
      if n ≤ greatestExponent then real? negative s (if down then e - n else e + n)
      else if s ≠ 0 && !down then none
      else real? negative 0 0

def readDigits (s : List Char) : Option (List Char × List Char) :=
  let digits := s.takeWhile Char.isDigit
  if digits.isEmpty then none else some (digits, s.dropWhile Char.isDigit)

def readFraction : List Char → Option (Option (List Char) × List Char)
  | '.' :: r => (readDigits r).map fun (ds, r) => (some ds, r)
  | s => some (none, s)

def readExponent : List Char → Option (Option (Bool × List Char) × List Char)
  | c :: r =>
    if c = 'e' ∨ c = 'E' then
      let (down, r) := match r with
        | '-' :: r => (true, r)
        | '+' :: r => (false, r)
        | r => (false, r)
      (readDigits r).map fun (ds, r) => (some (down, ds), r)
    else some (none, c :: r)
  | [] => some (none, [])

def read (s : List Char) : Option (Number × List Char) := do
  let (negative, s) := match s with
    | '-' :: r => (true, r)
    | s => (false, s)
  let (before, s) ← readDigits s
  if before.head? = some '0' ∧ before.length ≠ 1 then none
  let (after, s) ← readFraction s
  let (exponent, s) ← readExponent s
  let n ← ofParts? negative before after exponent
  return (n, s)

end Number

def readCode : List Char → Option (Nat × List Char)
  | a :: b :: c :: d :: r => do
    let a ← Text.hexDigit? a
    let b ← Text.hexDigit? b
    let c ← Text.hexDigit? c
    let d ← Text.hexDigit? d
    return (4096 * a + 256 * b + 16 * c + d, r)
  | _ => none

/-- A character given by its code; one beyond the first 65536 takes two codes. -/
def readCoded (s : List Char) : Option (Char × List Char) := do
  let (n, s) ← readCode s
  if 0xdc00 ≤ n ∧ n < 0xe000 then none
  else if 0xd800 ≤ n ∧ n < 0xdc00 then
    match s with
    | '\\' :: 'u' :: s =>
      let (m, s) ← readCode s
      if 0xdc00 ≤ m ∧ m < 0xe000 then
        return (Char.ofNat (0x10000 + 0x400 * (n - 0xd800) + (m - 0xdc00)), s)
      else none
    | _ => none
  else return (Char.ofNat n, s)

def readEscape : List Char → Option (Char × List Char)
  | [] => none
  | c :: r =>
    if c = '"' then some ('"', r)
    else if c = '\\' then some ('\\', r)
    else if c = '/' then some ('/', r)
    else if c = 'b' then some ('\x08', r)
    else if c = 'f' then some ('\x0c', r)
    else if c = 'n' then some ('\n', r)
    else if c = 'r' then some ('\r', r)
    else if c = 't' then some ('\t', r)
    else if c = 'u' then readCoded r
    else none

def readChars : (fuel : Nat) → List Char → Option (List Char × List Char)
  | 0, _ => none
  | _ + 1, [] => none
  | fuel + 1, c :: r =>
    if c = '"' then some ([], r)
    else if c.toNat < 32 then none
    else do
      let (c, r) ← if c = '\\' then readEscape r else some (c, r)
      let (cs, r) ← readChars fuel r
      return (c :: cs, r)

def readString : List Char → Option (String × List Char)
  | '"' :: r => (readChars (r.length + 1) r).map fun (cs, r) => (String.ofList cs, r)
  | _ => none

section

variable {α : Type}

def readItems (item : List Char → Option (α × List Char)) (close : Char) :
    (fuel : Nat) → List Char → Option (List α × List Char)
  | 0, _ => none
  | fuel + 1, s => do
    let (x, s) ← item s
    match skipSpace s with
    | [] => none
    | c :: r =>
      if c = ',' then
        let (xs, r) ← readItems item close fuel r
        return (x :: xs, r)
      else if c = close then return ([x], r)
      else none

def readContainer (item : List Char → Option (α × List Char)) (close : Char) (s : List Char) :
    Option (List α × List Char) :=
  match skipSpace s with
  | [] => none
  | c :: r => if c = close then some ([], r) else readItems item close (r.length + 1) (c :: r)

def readMember (value : List Char → Option (α × List Char)) (s : List Char) :
    Option ((String × α) × List Char) := do
  let (k, s) ← readString (skipSpace s)
  match skipSpace s with
  | ':' :: s =>
    let (v, s) ← value s
    return ((k, v), s)
  | _ => none

end

def readWord (word : List Char) (v : Value) (s : List Char) : Option (Value × List Char) :=
  (word.isPrefixOf? s).map fun r => (v, r)

/-- A value with at most `depth` containers inside one another. -/
def readValue : (depth : Nat) → List Char → Option (Value × List Char)
  | depth, s =>
    match skipSpace s with
    | [] => none
    | c :: r =>
      if c = '\x7b' then
        match depth with
        | 0 => none
        | depth + 1 => (readContainer (readMember (readValue depth)) '\x7d' r).map fun (ms, r) =>
          (.object (Dictionary.ofList ms).entries, r)
      else if c = '[' then
        match depth with
        | 0 => none
        | depth + 1 =>
          (readContainer (readValue depth) ']' r).map fun (vs, r) => (.array vs, r)
      else if c = '"' then (readString (c :: r)).map fun (s, r) => (.string s, r)
      else if c = 'n' then readWord ['n', 'u', 'l', 'l'] .null (c :: r)
      else if c = 't' then readWord ['t', 'r', 'u', 'e'] (.bool true) (c :: r)
      else if c = 'f' then readWord ['f', 'a', 'l', 's', 'e'] (.bool false) (c :: r)
      else (Number.read (c :: r)).map fun (n, r) => (.number n, r)

/-- The value of a whole text: nothing but blanks may follow it. -/
def parse (s : String) : Option Value := do
  let (v, r) ← readValue maxDepth s.toList
  if (skipSpace r).isEmpty then some v else none

def parseEntries (s : String) : Option (List (String × Value)) :=
  match skipSpace s.toList with
  | '\x7b' :: r => do
    let (members, r) ← readContainer (readMember (readValue (maxDepth - 1))) '\x7d' r
    if (skipSpace r).isEmpty then some members else none
  | _ => none

end ServiceDirectory.Json
