import ServiceDirectory.Text.Hexadecimal

/-! # Blanks, strings and keys

A reader takes the characters that are left and returns a value with the rest, or nothing if the
text is malformed. Controls other than the tabulator occur nowhere, lines end with a line feed that
a carriage return may precede.
-/

namespace ServiceDirectory.Toml

def isBlank (c : Char) : Bool := c == ' ' || c == '\t'

def skipBlanks (s : List Char) : List Char := s.dropWhile isBlank

def isPlain (c : Char) : Bool := c == '\t' || (32 ≤ c.toNat && c.toNat ≠ 127)

def afterNewline? : List Char → Option (List Char)
  | '\n' :: r => some r
  | '\r' :: '\n' :: r => some r
  | _ => none

def skipComment : List Char → List Char
  | '#' :: r => r.dropWhile isPlain
  | s => s

def skipLines : (fuel : Nat) → List Char → List Char
  | 0, s => s
  | fuel + 1, s =>
    let s := skipComment (skipBlanks s)
    match afterNewline? s with
    | some r => skipLines fuel r
    | none => s

def skipAll (s : List Char) : List Char := skipLines (s.length + 1) s

/-- The rest after blanks and a comment, at a line end or at the end of the text. -/
def endLine? (s : List Char) : Option (List Char) :=
  match skipComment (skipBlanks s) with
  | [] => some []
  | s => afterNewline? s

/-! ## Strings -/

def readCoded (count : Nat) (s : List Char) : Option (Char × List Char) :=
  let digits := s.take count
  if digits.length = count ∧ digits.all Text.isHexDigit then
    let n := Text.hexValue digits
    if n.isValidChar then some (Char.ofNat n, s.drop count) else none
  else none

def readEscape : List Char → Option (Char × List Char)
  | [] => none
  | c :: r =>
    if c = 'b' then some ('\x08', r)
    else if c = 't' then some ('\t', r)
    else if c = 'n' then some ('\n', r)
    else if c = 'f' then some ('\x0c', r)
    else if c = 'r' then some ('\r', r)
    else if c = '"' then some ('"', r)
    else if c = '\\' then some ('\\', r)
    else if c = 'u' then readCoded 4 r
    else if c = 'U' then readCoded 8 r
    else none

structure Quotes where
  mark : Char
  escapes : Bool

def basic : Quotes := ⟨'"', true⟩
def literal : Quotes := ⟨'\x27', false⟩

def readLine (q : Quotes) : (fuel : Nat) → List Char → Option (List Char × List Char)
  | 0, _ => none
  | _ + 1, [] => none
  | fuel + 1, c :: r =>
    if c = q.mark then some ([], r)
    else do
      let (c, r) ← if q.escapes && c == '\\' then readEscape r
        else if isPlain c then some (c, r) else none
      let (cs, r) ← readLine q fuel r
      return (c :: cs, r)

def skipEmpty : (fuel : Nat) → List Char → List Char
  | 0, s => s
  | fuel + 1, s =>
    let s := skipBlanks s
    match afterNewline? s with
    | some r => skipEmpty fuel r
    | none => s

/-- The rest after a line end that a backslash takes back, together with the empty lines that follow
and the indentation of the next one. -/
def afterJoin? (s : List Char) : Option (List Char) :=
  (afterNewline? (skipBlanks s)).map fun r => skipEmpty (r.length + 1) r

/-- The characters up to three closing quotes, on any number of lines. Up to two more quotes before
them belong to the string. -/
def readBlock (q : Quotes) : (fuel : Nat) → List Char → Option (List Char × List Char)
  | 0, _ => none
  | _ + 1, [] => none
  | fuel + 1, c :: r =>
    if c = q.mark then
      let marks := (c :: r).takeWhile (· == q.mark)
      let rest := (c :: r).dropWhile (· == q.mark)
      if 5 < marks.length then none
      else if 3 ≤ marks.length then some (marks.drop 3, rest)
      else (readBlock q fuel rest).map fun (cs, r) => (marks ++ cs, r)
    else match afterNewline? (c :: r) with
      | some r => (readBlock q fuel r).map fun (cs, r) => ('\n' :: cs, r)
      | none =>
        if q.escapes && c == '\\' then match afterJoin? r with
          | some r => readBlock q fuel r
          | none => do
            let (c, r) ← readEscape r
            let (cs, r) ← readBlock q fuel r
            return (c :: cs, r)
        else if isPlain c then (readBlock q fuel r).map fun (cs, r) => (c :: cs, r)
        else none

def readQuoted : List Char → Option (String × List Char)
  | c :: r =>
    if c = '"' then (readLine basic (r.length + 1) r).map fun (cs, r) => (String.ofList cs, r)
    else if c = '\x27' then
      (readLine literal (r.length + 1) r).map fun (cs, r) => (String.ofList cs, r)
    else none
  | [] => none

def afterTriple? (q : Quotes) : List Char → Option (List Char)
  | a :: b :: c :: r =>
    if a = q.mark ∧ b = q.mark ∧ c = q.mark then some ((afterNewline? r).getD r) else none
  | _ => none

def readString (s : List Char) : Option (String × List Char) :=
  match afterTriple? basic s, afterTriple? literal s with
  | some r, _ => (readBlock basic (r.length + 1) r).map fun (cs, r) => (String.ofList cs, r)
  | none, some r => (readBlock literal (r.length + 1) r).map fun (cs, r) => (String.ofList cs, r)
  | none, none => readQuoted s

/-! ## Keys -/

def isBareChar (c : Char) : Bool := c.isAlphanum || c == '_' || c == '-'

def readName (s : List Char) : Option (String × List Char) :=
  let bare := s.takeWhile isBareChar
  if bare.isEmpty then readQuoted s else some (String.ofList bare, s.dropWhile isBareChar)

def readNames : (fuel : Nat) → List Char → Option (List String × List Char)
  | 0, _ => none
  | fuel + 1, s => do
    let (name, s) ← readName (skipBlanks s)
    match skipBlanks s with
    | '.' :: r =>
      let (names, r) ← readNames fuel r
      return (name :: names, r)
    | r => return ([name], r)

def maxDepth : Nat := 79

def readKey (s : List Char) : Option (List String × List Char) := do
  let (names, r) ← readNames (s.length + 1) s
  if names.length ≤ maxDepth then return (names, r) else none

end ServiceDirectory.Toml
