import ServiceDirectory.Toml.Text
import ServiceDirectory.Toml.Tree
import ServiceDirectory.Toml.Word

/-! # Reading TOML

A text is a sequence of lines, each with a key and its value or with the header of the table that
the following keys belong to. `parse` gives the settings of a whole text.
-/

namespace ServiceDirectory.Toml

/-! ## Values -/

/-- The items of an array, after its opening bracket. There may be a comma after the last one. -/
def readArray (value : List Char → Option (Setting × List Char)) :
    (fuel : Nat) → List Char → Option (List Setting × List Char)
  | 0, _ => none
  | fuel + 1, s =>
    match skipAll s with
    | ']' :: r => some ([], r)
    | s => do
      let (v, s) ← value s
      match skipAll s with
      | ',' :: r =>
        let (vs, r) ← readArray value fuel r
        return (v :: vs, r)
      | ']' :: r => return ([v], r)
      | _ => none

def readPair (value : List Char → Option (Setting × List Char)) (s : List Char) :
    Option ((List String × Setting) × List Char) := do
  let (key, s) ← readKey s
  let (v, s) ← value (skipBlanks (← expect '=' (skipBlanks s)))
  return ((key, v), skipBlanks s)

def readPairs (value : List Char → Option (Setting × List Char)) :
    (fuel : Nat) → Entries → List Char → Option (Entries × List Char)
  | 0, _, _ => none
  | fuel + 1, e, s => do
    let ((key, v), s) ← readPair value s
    let e ← e.addValue v key
    match s with
    | ',' :: r => readPairs value fuel e r
    | '\x7d' :: r => return (e, r)
    | _ => none

def readInline (value : List Char → Option (Setting × List Char)) (s : List Char) :
    Option (Setting × List Char) :=
  match skipBlanks s with
  | '\x7d' :: r => some (.table [], r)
  | s => (readPairs value (s.length + 1) [] s).map fun (e, r) => (.table (settings e), r)

/-- A value with at most `depth` arrays and tables inside one another. -/
def readValue : (depth : Nat) → List Char → Option (Setting × List Char)
  | _, [] => none
  | depth, c :: r =>
    if c = '"' ∨ c = '\x27' then (readString (c :: r)).map fun (s, r) => (.text s, r)
    else if c = '[' then match depth with
      | 0 => none
      | depth + 1 =>
        (readArray (readValue depth) (r.length + 1) r).map fun (vs, r) => (.list vs, r)
    else if c = '\x7b' then match depth with
      | 0 => none
      | depth + 1 => readInline (readValue depth) r
    else
      let (word, rest) := takeWord (c :: r)
      (settingOfWord? word).map fun v => (v, rest)

/-! ## Documents -/

/-- The tree so far, and the path of the table that keys belong to. -/
structure Document where
  root : Entries
  here : List String

namespace Document

def empty : Document := ⟨[], []⟩

def addPair (d : Document) (key : List String) (v : Setting) : Option Document := do
  return { d with root := ← d.root.passTo (·.addValue v key) d.here }

/-- Opens the table of a header, or the next one of a list. -/
def openTable (d : Document) (path : List String) (inList : Bool) : Option Document := do
  let name ← path.getLast?
  let declare : Entries → Option Entries := fun e =>
    if inList then e.declareNext name else e.declare name
  return ⟨← d.root.passTo declare path.dropLast, path⟩

end Document

def readHeader (s : List Char) : Option ((List String × Bool) × List Char) :=
  match s with
  | '[' :: s => do
    let (path, s) ← readKey s
    let s ← expect ']' (← expect ']' s)
    return ((path, true), s)
  | s => do
    let (path, s) ← readKey s
    return ((path, false), ← expect ']' s)

def readLines : (fuel : Nat) → Document → List Char → Option Document
  | 0, _, _ => none
  | fuel + 1, d, s =>
    match skipAll s with
    | [] => some d
    | '[' :: r => do
      let ((path, inList), r) ← readHeader r
      readLines fuel (← d.openTable path inList) (← endLine? r)
    | s => do
      let ((key, v), r) ← readPair (readValue maxDepth) s
      readLines fuel (← d.addPair key v) (← endLine? r)

def byteOrderMark : Char := '\ufeff'

/-- The settings of a text, if it is well formed and not a date as a whole. -/
def parse (s : String) : Option (List (String × Setting)) := do
  let chars := s.toList
  let chars := if chars.head? = some byteOrderMark then chars.tail else chars
  let d ← readLines (chars.length + 1) .empty chars
  match ← withDates (.table (settings d.root)) with
  | .table entries => return entries
  | _ => none

end ServiceDirectory.Toml
