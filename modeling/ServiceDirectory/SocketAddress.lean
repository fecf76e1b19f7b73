import ServiceDirectory.Text.Digits

/-! # Socket addresses

The address and port that a registry listens on. The text of an address of eight groups leaves out
the longest run of at least two zero groups, the first of several of one length, and writes an
embedded address of four octets in decimal.
-/

namespace ServiceDirectory

structure Octets where
  a : UInt8
  b : UInt8
  c : UInt8
  d : UInt8
  deriving DecidableEq

inductive SocketAddress
  | v4 (ip : Octets) (port : UInt16)
  /-- Eight groups of 16 bits. -/
  | v6 (groups : Vector UInt16 8) (scope : UInt32) (port : UInt16)
  deriving DecidableEq

namespace Octets

def text (o : Octets) : String :=
  String.intercalate "." ([o.a, o.b, o.c, o.d].map fun x => Text.natText x.toNat)

def groups (o : Octets) : List UInt16 :=
  [o.a.toUInt16 * 256 + o.b.toUInt16, o.c.toUInt16 * 256 + o.d.toUInt16]

def ofGroups (high low : UInt16) : Octets :=
  ⟨(high / 256).toUInt8, high.toUInt8, (low / 256).toUInt8, low.toUInt8⟩

end Octets

namespace SocketAddress

structure Run where
  start : Nat
  length : Nat
  deriving DecidableEq

/-- The longest run of zeros, the first one if there are several. The groups begin at position `i`
with `current` as the run that ends before it. -/
def longestZeros (i : Nat) (current longest : Run) : List UInt16 → Run
  | [] => longest
  | g :: r =>
    if g = 0 then
      let current : Run :=
        if current.length = 0 then ⟨i, 1⟩ else ⟨current.start, current.length + 1⟩
      longestZeros (i + 1) current (if longest.length < current.length then current else longest) r
    else longestZeros (i + 1) ⟨0, 0⟩ longest r

def groupsText (groups : List UInt16) : String :=
  String.intercalate ":" (groups.map fun g => String.ofList (Nat.toDigits 16 g.toNat))

def compressed (groups : List UInt16) : String :=
  let zeros := longestZeros 0 ⟨0, 0⟩ ⟨0, 0⟩ groups
  if 1 < zeros.length then
    groupsText (groups.take zeros.start) ++ "::" ++
      groupsText (groups.drop (zeros.start + zeros.length))
  else groupsText groups

def ipText (groups : List UInt16) : String :=
  match groups with
  | [0, 0, 0, 0, 0, 0xffff, high, low] => "::ffff:" ++ (Octets.ofGroups high low).text
  | groups => compressed groups

def text : SocketAddress → String
  | v4 ip port => ip.text ++ ":" ++ Text.natText port.toNat
  | v6 groups scope port =>
    let zone := if scope = 0 then "" else "%" ++ Text.natText scope.toNat
    "[" ++ ipText groups.toList ++ zone ++ "]:" ++ Text.natText port.toNat

end SocketAddress

end ServiceDirectory
