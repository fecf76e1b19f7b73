import ServiceDirectory.Config.Path
import ServiceDirectory.Decimal.Shortest
import ServiceDirectory.Json.Value

/-! # Settings

What sources of configuration hold: tables of settings, lists, and leaves. Sources are laid over one
another: a leaf replaces what was there, and a table is merged into the table below it. What is laid
at a place in a list takes that place as it is.
-/

namespace ServiceDirectory

inductive Setting
  | unset
  | flag (b : Bool)
  | whole (n : Int)
  | real (x : Decimal.Double)
  | text (s : String)
  | list (items : List Setting)
  | table (entries : List (String × Setting))
  deriving Inhabited

namespace Setting

mutual

def ofJson : Json.Value → Setting
  | .null => .unset
  | .bool b => .flag b
  | .number (.whole n) => .whole n
  | .number (.real x) => .real x
  | .string s => .text s
  | .array items => .list (ofJsonItems items)
  | .object members => .table (ofJsonMembers members)

def ofJsonItems : List Json.Value → List Setting
  | [] => []
  | v :: r => ofJson v :: ofJsonItems r

def ofJsonMembers : List (String × Json.Value) → List (String × Setting)
  | [] => []
  | (k, v) :: r => (k, ofJson v) :: ofJsonMembers r

end

/-! ## Laying over -/

def settingAt? (k : String) : List (String × Setting) → Option Setting
  | [] => none
  | (j, v) :: r => if j = k then some v else settingAt? k r

def setEntry (k : String) (v : Setting) : List (String × Setting) → List (String × Setting)
  | [] => [(k, v)]
  | (j, w) :: r => if j = k then (k, v) :: r else (j, w) :: setEntry k v r

/-- The entries of a table; anything else is replaced by an empty table. -/
def entries : Setting → List (String × Setting)
  | .table e => e
  | _ => []

def items : Setting → List Setting
  | .list vs => vs
  | _ => []

mutual

/-- Lays a setting over another. A table without entries changes nothing. -/
def layOver (below : Setting) : Setting → Setting
  | .table [] => below
  | .table (e :: r) => .table (layEntries below.entries (e :: r))
  | leaf => leaf

def layEntries (lower : List (String × Setting)) :
    List (String × Setting) → List (String × Setting)
  | [] => lower
  | (k, v) :: r =>
    let k := SettingPath.lowerKey k
    layEntries (setEntry k (layOver ((settingAt? k lower).getD (.table [])) v) lower) r

end

/-- There is no room for a list of so many settings. -/
def listLimit : Nat := 1 <<< 30

/-- The place that a number stands for in a list of a given length. There is none before the first
one. -/
def placeIn (length : Nat) (n : Int) : Option Nat :=
  let place := if n < 0 then length + n else n
  if 0 ≤ place ∧ place < listLimit then some place.toNat else none

def extendTo (place : Nat) (vs : List Setting) : List Setting :=
  vs ++ List.replicate (place + 1 - vs.length) .unset

/-- Lays a setting over what is found by following a path, which exists afterwards unless one of its
places cannot be had. -/
def layAt (v : Setting) : (path : List SettingPath.Step) → Setting → Option Setting
  | [], below => some (layOver below v)
  | .name k :: path, below => do
    let k := SettingPath.lowerKey k
    let e := below.entries
    return .table (setEntry k (← layAt v path ((settingAt? k e).getD (.table []))) e)
  | .item n :: path, below => do
    let place ← placeIn below.items.length n
    let vs := extendTo place below.items
    let item ← if path.isEmpty then some v else layAt v path (vs.getD place .unset)
    return .list (vs.set place item)

def addSource (base : Setting) (source : List (String × Setting)) : Option Setting :=
  source.foldlM (fun below e => layAt e.2 (SettingPath.ofKey e.1) below) base

end Setting

end ServiceDirectory
