import ServiceDirectory.SocketAddress
import ServiceDirectory.Text.Hexadecimal

/-! # Reading socket addresses

An address of four octets is read as it stands; one of eight groups stands in brackets, may leave
out one run of zero groups, may end in four octets and may carry the number of a zone. There are no
host names and no blanks.
-/

namespace ServiceDirectory.SocketAddress

def expect (c : Char) : List Char → Option (List Char)
  | [] => none
  | d :: r => if d = c then some r else none

def readDecimal (bound : Nat) (s : List Char) : Option (Nat × List Char) := do
  let n ← Text.natOfDigits? (s.takeWhile Char.isDigit)
  if n < bound then return (n, s.dropWhile Char.isDigit) else none

/-- An octet has no superfluous zero. -/
def readOctet (s : List Char) : Option (UInt8 × List Char) := do
  let (n, r) ← readDecimal 256 s
  if s.head? = some '0' ∧ (s.takeWhile Char.isDigit).length ≠ 1 then none
  else return (n.toUInt8, r)

def readOctets (s : List Char) : Option (Octets × List Char) := do
  let (a, s) ← readOctet s
  let (b, s) ← readOctet (← expect '.' s)
  let (c, s) ← readOctet (← expect '.' s)
  let (d, s) ← readOctet (← expect '.' s)
  return (⟨a, b, c, d⟩, s)

def readGroup (s : List Char) : Option (UInt16 × List Char) :=
  let digits := s.takeWhile Text.isHexDigit
  if digits.isEmpty || 4 < digits.length then none
  else some ((Text.hexValue digits).toUInt16, s.dropWhile Text.isHexDigit)

/-- As many groups as there are and there is room for. The flag tells that octets ended them. -/
def readGroups (first : Bool) : (room : Nat) → List Char → List UInt16 × Bool × List Char
  | 0, s => ([], false, s)
  | room + 1, s =>
    let next := if first then some s else expect ':' s
    match (if room = 0 then none else next.bind readOctets) with
    | some (o, r) => (o.groups, true, r)
    | none => match next.bind readGroup with
      | some (g, r) =>
        let (gs, octets, r) := readGroups false room r
        (g :: gs, octets, r)
      | none => ([], false, s)

def readIp (s : List Char) : Option (Vector UInt16 8 × List Char) :=
  let (front, octets, s) := readGroups true 8 s
  if h : front.length = 8 then some (⟨front.toArray, by simpa using h⟩, s)
  else if octets then none
  else do
    let s ← expect ':' (← expect ':' s)
    let (back, _, s) := readGroups true (7 - front.length) s
    let groups := front ++ List.replicate (8 - front.length - back.length) 0 ++ back
    if h : groups.length = 8 then return (⟨groups.toArray, by simpa using h⟩, s) else none

def readPort (s : List Char) : Option (UInt16 × List Char) := do
  let (n, s) ← readDecimal UInt16.size (← expect ':' s)
  return (n.toUInt16, s)

/-- The number of a zone, zero if there is none. -/
def readScope (s : List Char) : UInt32 × List Char :=
  match (expect '%' s).bind (readDecimal UInt32.size) with
  | some (n, r) => (n.toUInt32, r)
  | none => (0, s)

def read (s : List Char) : Option (SocketAddress × List Char) :=
  match readOctets s with
  | some (ip, s) => (readPort s).map fun (port, s) => (.v4 ip port, s)
  | none => do
    let (groups, s) ← readIp (← expect '[' s)
    let (scope, s) := readScope s
    let (port, s) ← readPort (← expect ']' s)
    return (.v6 groups scope port, s)

def parse (s : String) : Option SocketAddress :=
  match read s.toList with
  | some (a, []) => some a
  | _ => none

end ServiceDirectory.SocketAddress
