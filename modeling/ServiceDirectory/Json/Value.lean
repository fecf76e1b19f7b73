import ServiceDirectory.Decimal.Shortest
import ServiceDirectory.Dictionary
import ServiceDirectory.Text.Digits

/-! # JSON values and their compact text

The text of a value holds no blanks. Members of an object are written in the order of their keys,
and a string is written with the fewest escapes (`escape`).
-/

namespace ServiceDirectory.Json

/-- A whole number of at most 64 bits, or a binary floating-point number. -/
inductive Number
  | whole (n : Int)
  | real (x : Decimal.Double)
  deriving DecidableEq

/-- The members of an object are in ascending order of their keys. -/
inductive Value
  | null
  | bool (b : Bool)
  | number (n : Number)
  | string (s : String)
  | array (items : List Value)
  | object (members : List (String × Value))
  deriving Inhabited

/-- Positional from `0.00001` up to below `10 ^ 16`, always with a point. A tie goes to the even
digit. -/
def realLayout : Decimal.Layout := ⟨-5, 16, true, .toEven⟩

def Number.text : Number → String
  | .whole n => Text.intText n
  | .real x => realLayout.text x

/-- The short escapes, a code in four digits for the other control characters, and all else as it
is. -/
def escape (c : Char) : List Char :=
  if c = '"' then ['\\', '"']
  else if c = '\\' then ['\\', '\\']
  else if c = '\x08' then ['\\', 'b']
  else if c = '\x0c' then ['\\', 'f']
  else if c = '\n' then ['\\', 'n']
  else if c = '\r' then ['\\', 'r']
  else if c = '\t' then ['\\', 't']
  else if c.toNat < 32 then
    ['\\', 'u', '0', '0', Nat.digitChar (c.toNat / 16), Nat.digitChar (c.toNat % 16)]
  else [c]

def quoteChars (s : List Char) : List Char := '"' :: (s.flatMap escape ++ ['"'])

def quote (s : String) : List Char := quoteChars s.toList

def commaSeparated : List (List Char) → List Char
  | [] => []
  | [x] => x
  | x :: r => x ++ ',' :: commaSeparated r

def memberText (key : String) (value : List Char) : List Char := quote key ++ ':' :: value

mutual

def Value.chars : Value → List Char
  | .null => ['n', 'u', 'l', 'l']
  | .bool true => ['t', 'r', 'u', 'e']
  | .bool false => ['f', 'a', 'l', 's', 'e']
  | .number n => n.text.toList
  | .string s => quote s
  | .array items => '[' :: (commaSeparated (itemTexts items) ++ [']'])
  | .object members => '\x7b' :: (commaSeparated (memberTexts members) ++ ['\x7d'])

def itemTexts : List Value → List (List Char)
  | [] => []
  | v :: r => v.chars :: itemTexts r

def memberTexts : List (String × Value) → List (List Char)
  | [] => []
  | (k, v) :: r => memberText k v.chars :: memberTexts r

end

def Value.text (v : Value) : String := String.ofList v.chars

/-- The compact text of an object all of whose members are strings. -/
def stringObjectText (d : Dictionary String String) : String :=
  (Value.object (d.entries.map fun e => (e.1, .string e.2))).text

end ServiceDirectory.Json
