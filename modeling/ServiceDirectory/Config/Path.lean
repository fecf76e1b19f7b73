import ServiceDirectory.Text.Digits

/-! # Paths of settings

A key at the top of a source may stand for a path to a setting: a name, followed by names after
points and by places in lists between brackets. A place below zero counts from the end of its list.
Keys are compared in lower case.
-/

namespace ServiceDirectory.SettingPath

inductive Step
  | name (key : String)
  | item (place : Int)
  deriving DecidableEq

/-- Besides the capital letters of ASCII there is one more character whose lower case is
in ASCII. -/
def kelvinSign : Char := '\u212a'

def lowerChar (c : Char) : Char := if c = kelvinSign then 'k' else c.toLower

def lowerKey (key : String) : String := String.ofList (key.toList.map lowerChar)

def isNameChar (c : Char) : Bool := c.isAlphanum || c == ' ' || c == '_' || c == '-'

def isBlank (c : Char) : Bool := c == ' ' || c == '\t'

def readName (s : List Char) : Option (String × List Char) :=
  let name := s.takeWhile isNameChar
  if name.isEmpty then none else some (String.ofList name, s.dropWhile isNameChar)

def readDigits (s : List Char) : Option (Int × List Char) :=
  let (sign, s) := match s with
    | '-' :: r => (['-'], r)
    | s => ([], s)
  let digits := s.takeWhile Char.isDigit
  if digits.isEmpty then none
  else (Text.int64? (sign ++ digits)).map fun n => (n, s.dropWhile Char.isDigit)

def readPlace (s : List Char) : Option (Int × List Char) := do
  let (n, s) ← readDigits (s.dropWhile isBlank)
  match s.dropWhile isBlank with
  | ']' :: r => return (n, r)
  | _ => none

def readSteps : (fuel : Nat) → List Char → Option (List Step)
  | 0, _ => none
  | _, [] => some []
  | fuel + 1, c :: r =>
    if c = '.' then do
      let (key, r) ← readName r
      return .name key :: (← readSteps fuel r)
    else if c = '[' then do
      let (place, r) ← readPlace r
      return .item place :: (← readSteps fuel r)
    else none

def parse (key : String) : Option (List Step) := do
  let (name, r) ← readName key.toList
  return .name name :: (← readSteps (r.length + 1) r)

/-- The path that a key stands for. A key that is no path is one name. -/
def ofKey (key : String) : List Step := (parse key).getD [.name key]

end ServiceDirectory.SettingPath
