import ServiceDirectory.Toml.Date
import ServiceDirectory.Toml.Number

/-! # Words

A value without quotes and brackets is a word: a truth value, a number, a date or a time.
-/

namespace ServiceDirectory.Toml

def isWordChar (c : Char) : Bool :=
  c.isAlphanum || c == '+' || c == '-' || c == '_' || c == '.' || c == ':'

def isDate (s : List Char) : Bool :=
  match readDate s with
  | some (_, []) => true
  | _ => false

/-- The longest word; a date may be followed by a time after a single blank. -/
def takeWord (s : List Char) : List Char × List Char :=
  let word := s.takeWhile isWordChar
  let rest := s.dropWhile isWordChar
  match rest with
  | ' ' :: c :: r =>
    if isDate word && c.isDigit then
      (word ++ ' ' :: (c :: r).takeWhile isWordChar, (c :: r).dropWhile isWordChar)
    else (word, rest)
  | _ => (word, rest)

def settingOfWord? (word : List Char) : Option Setting :=
  if word = "true".toList then some (.flag true)
  else if word = "false".toList then some (.flag false)
  else match whole? word, real? word, moment? .plain word with
    | some n, _, _ => some (.whole n)
    | none, some x, _ => some (.real x)
    | none, none, some form => some (markedDate form)
    | none, none, none => none

end ServiceDirectory.Toml
