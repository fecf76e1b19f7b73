import ServiceDirectory.Text.Unprintable

/-! # Quoted text

Text between double quotes in which every character can be seen: a quote and a backslash follow a
backslash, four controls have a letter, and any other character without a shape of its own is
written as its number.
-/

namespace ServiceDirectory.Text

def numericEscape (c : Char) : List Char :=
  '\\' :: 'u' :: '\x7b' :: (Nat.toDigits 16 c.toNat ++ ['\x7d'])

def visible (c : Char) : List Char :=
  if c = '"' then ['\\', '"']
  else if c = '\\' then ['\\', '\\']
  else if c = '\x00' then ['\\', '0']
  else if c = '\t' then ['\\', 't']
  else if c = '\n' then ['\\', 'n']
  else if c = '\r' then ['\\', 'r']
  else if isUnprintable c then numericEscape c
  else [c]

def quoted (s : String) : String := String.ofList ('"' :: (s.toList.flatMap visible ++ ['"']))

end ServiceDirectory.Text
