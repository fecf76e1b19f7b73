import ServiceDirectory.Config.Setting
import ServiceDirectory.Decimal.Reader
import ServiceDirectory.Text.Digits
import ServiceDirectory.Text.Hexadecimal

/-! # Numbers

Low lines may stand between two digits. Whole numbers have 64 bits with sign.
-/

namespace ServiceDirectory.Toml

/-- Digits without the low lines between them. -/
def digits? (isDigit : Char → Bool) (s : List Char) : Option (List Char) :=
  let groups := s.splitOn '_'
  if groups.all fun g => !g.isEmpty && g.all isDigit then some groups.flatten else none

/-- Decimal digits that do not begin with a superfluous zero. -/
def wholeDigits? (s : List Char) : Option (List Char) :=
  (digits? Char.isDigit s).filter fun ds => ds.length == 1 || ds.head? != some '0'

/-- A sign, as the character to write, and what follows it. -/
def splitSign : List Char → List Char × List Char
  | '-' :: r => (['-'], r)
  | '+' :: r => ([], r)
  | s => ([], s)

def inRange (n : Nat) : Option Int :=
  if (n : Int) ≤ Int64.maxValue.toInt then some n else none

def isOctalDigit (c : Char) : Bool := '0' ≤ c && c ≤ '7'
def isBinaryDigit (c : Char) : Bool := c == '0' || c == '1'

def whole? : List Char → Option Int
  | '0' :: 'x' :: r => (digits? Text.isHexDigit r).bind fun ds => inRange (Text.hexValue ds)
  | '0' :: 'o' :: r => (digits? isOctalDigit r).bind fun ds => inRange (Nat.ofDigitChars 8 ds 0)
  | '0' :: 'b' :: r => (digits? isBinaryDigit r).bind fun ds => inRange (Nat.ofDigitChars 2 ds 0)
  | s =>
    let (sign, r) := splitSign s
    (wholeDigits? r).bind fun ds => Text.int64? (sign ++ ds)

def powerChars? : List Char → Option (List Char)
  | [] => some []
  | mark :: r =>
    let (sign, r) := splitSign r
    (digits? Char.isDigit r).map fun ds => mark :: (sign ++ ds)

def realChars? (s : List Char) : Option (List Char) := do
  let mantissa := s.takeWhile fun c => !Decimal.isExponentMark c
  let power ← powerChars? (s.dropWhile fun c => !Decimal.isExponentMark c)
  let before ← wholeDigits? (mantissa.takeWhile (· != '.'))
  match mantissa.dropWhile (· != '.') with
  | '.' :: after => return before ++ '.' :: (← digits? Char.isDigit after) ++ power
  | _ => if power.isEmpty then none else return before ++ power

/-- A number with a fraction or a power of ten, or one of the names in lower case. One that is too
great is malformed. -/
def real? (s : List Char) : Option Decimal.Double :=
  let (sign, r) := splitSign s
  if r = "inf".toList ∨ r = "nan".toList then Decimal.Double.ofChars? (sign ++ r)
  else ((realChars? r).bind fun cs => Decimal.Double.ofChars? (sign ++ cs)).filter fun x =>
    x != Decimal.Double.infinity

end ServiceDirectory.Toml
