/-! # Endpoints

The address of a server as a URI: a scheme, an authority, and a path with a query. Without a scheme
it is an authority alone or a path alone. An authority holds at most one colon after the user and
outside brackets, and brackets come in one pair.
-/

namespace ServiceDirectory

structure Endpoint where
  scheme : Option String
  authority : String
  path : String
  query : Option String
  deriving DecidableEq

namespace Endpoint

def text (e : Endpoint) : String :=
  let scheme := match e.scheme with
    | some s => s ++ "://"
    | none => ""
  let path := if e.path.isEmpty && e.scheme.isSome then "/" else e.path
  let query := match e.query with
    | some q => "?" ++ q
    | none => ""
  scheme ++ e.authority ++ path ++ query

/-! ## Schemes -/

def isSchemeChar (c : Char) : Bool := c.isAlphanum || c == '+' || c == '-' || c == '.' || c == '~'

def afterIgnoringCase? (start s : List Char) : Option (List Char) :=
  start.isPrefixOf? (s.take start.length |>.map Char.toLower) |>.map fun _ => s.drop start.length

def maxScheme : Nat := 64

/-- A scheme and what follows it; a text may have none. A scheme that is too long is malformed. -/
def splitScheme (s : List Char) : Option (Option String × List Char) :=
  match afterIgnoringCase? "http://".toList s, afterIgnoringCase? "https://".toList s with
  | some r, _ => some (some "http", r)
  | none, some r => some (some "https", r)
  | none, none =>
    let name := s.takeWhile isSchemeChar
    match s.dropWhile isSchemeChar with
    | ':' :: '/' :: '/' :: r =>
      if maxScheme < name.length then none else some (some (String.ofList name), r)
    | _ => some (none, s)

/-! ## Authorities -/

def isAuthorityChar (c : Char) : Bool :=
  c.isAlphanum || "!$&\x27()*+,-.:;=@[]_~".toList.contains c

def endsAuthority (c : Char) : Bool := c == '/' || c == '?' || c == '#'

structure Scan where
  colons : Nat
  opened : Bool
  closed : Bool
  percent : Bool
  atEnd : Bool

def Scan.start : Scan := ⟨0, false, false, false, false⟩

def maxColons : Nat := 8

def Scan.next (a : Scan) (c : Char) : Option Scan :=
  if c = ':' then
    if maxColons ≤ a.colons then none else some { a with colons := a.colons + 1, atEnd := false }
  else if c = '[' then
    if a.percent || a.opened then none else some { a with opened := true, atEnd := false }
  else if c = ']' then
    if !a.opened || a.closed then none
    else some { a with closed := true, colons := 0, percent := false, atEnd := false }
  else if c = '@' then some { a with colons := 0, percent := false, atEnd := true }
  else if c = '%' then some { a with percent := true, atEnd := false }
  else if isAuthorityChar c then some { a with atEnd := false }
  else none

def Scan.isComplete (a : Scan) : Bool :=
  a.opened == a.closed && a.colons ≤ 1 && !a.atEnd && !a.percent

/-- The authority that a text begins with, up to a slash, a question mark or a number sign. -/
def splitAuthority (s : List Char) : Option (List Char × List Char) := do
  let authority := s.takeWhile (!endsAuthority ·)
  let scan ← authority.foldlM Scan.next .start
  if scan.isComplete then return (authority, s.dropWhile (!endsAuthority ·)) else none

/-! ## Paths -/

def isPathChar (c : Char) : Bool :=
  let n := c.toNat
  n == 0x21 || n == 0x22 || (0x24 ≤ n && n ≤ 0x3b) || n == 0x3d || (0x40 ≤ n && n ≤ 0x5f) ||
    (0x61 ≤ n && n != 0x7f)

def isQueryChar (c : Char) : Bool :=
  let n := c.toNat
  n == 0x21 || (0x24 ≤ n && n ≤ 0x3b) || n == 0x3d || (0x3f ≤ n && n != 0x7f)

/-- The path and query of a text; what follows a number sign is dropped. -/
def splitPath (s : List Char) : Option (String × Option String) :=
  let s := s.takeWhile (· != '#')
  let path := s.takeWhile (· != '?')
  if !path.all isPathChar then none
  else match s.dropWhile (· != '?') with
    | [] => some (String.ofList path, none)
    | _ :: query =>
      if query.all isQueryChar then some (String.ofList path, some (String.ofList query)) else none

/-! ## Whole texts -/

def maxLength : Nat := 65534

def ofPath (s : List Char) : Option Endpoint :=
  (splitPath s).map fun (path, query) => ⟨none, "", path, query⟩

def ofAuthority (s : List Char) : Option Endpoint := do
  match ← splitAuthority s with
  | (authority, []) => return ⟨none, String.ofList authority, "", none⟩
  | _ => none

def parse (text : String) : Option Endpoint := do
  if text.isEmpty || maxLength < text.utf8ByteSize then none
  let s := text.toList
  if text = "*" ∨ s.head? = some '/' then ofPath s
  else match ← splitScheme s with
    | (none, s) => ofAuthority s
    | (some scheme, s) =>
      let (authority, s) ← splitAuthority s
      if authority.isEmpty then none
      let (path, query) ← splitPath s
      return ⟨some scheme, String.ofList authority, path, query⟩

end Endpoint

end ServiceDirectory
