import ServiceDirectory.Config.Setting

/-! # Trees of tables

A text builds its tree of tables bit by bit. What may be added to a table depends on how it came to
be: a table that was declared, or that a value wrote out, is not declared again or reached by dotted
keys; a table that was only passed on the way to another may still be declared; and a table that
dotted keys made is added to by dotted keys only, and passed.
-/

namespace ServiceDirectory.Toml

inductive Origin
  | declared
  | passed
  | dotted
  deriving DecidableEq

inductive Node
  | value (v : Setting)
  | table (origin : Origin) (entries : List (String × Node))
  | tables (last : List (String × Node)) (others : List (List (String × Node)))

abbrev Entries := List (String × Node)

namespace Entries

def find? (k : String) : Entries → Option Node
  | [] => none
  | (j, v) :: r => if j = k then some v else find? k r

def set (k : String) (v : Node) : Entries → Entries
  | [] => [(k, v)]
  | (j, w) :: r => if j = k then (k, v) :: r else (j, w) :: set k v r

def add? (k : String) (n : Node) (e : Entries) : Option Entries :=
  if (find? k e).isSome then none else some (e ++ [(k, n)])

def addValue (v : Setting) : (path : List String) → Entries → Option Entries
  | [], _ => none
  | [k], e => add? k (.value v) e
  | k :: ks, e => match find? k e with
    | none => do return e ++ [(k, .table .dotted (← addValue v ks []))]
    | some (.table .dotted sub) => do return set k (.table .dotted (← addValue v ks sub)) e
    | some (.table .passed sub) => match ks with
      | [_] => none
      | _ => do return set k (.table .passed (← addValue v ks sub)) e
    | some (.tables last others) => match ks with
      | [_] => none
      | _ => do return set k (.tables (← addValue v ks last) others) e
    | some _ => none

/-- Changes the table at a path, making tables on the way. -/
def passTo (f : Entries → Option Entries) : (path : List String) → Entries → Option Entries
  | [], e => f e
  | k :: ks, e => match find? k e with
    | none => do return e ++ [(k, .table .passed (← passTo f ks []))]
    | some (.table origin sub) => do return set k (.table origin (← passTo f ks sub)) e
    | some (.tables last others) => do return set k (.tables (← passTo f ks last) others) e
    | some (.value _) => none

def declare (k : String) (e : Entries) : Option Entries :=
  match find? k e with
  | none => some (e ++ [(k, .table .declared [])])
  | some (.table .passed sub) => some (set k (.table .declared sub) e)
  | some _ => none

/-- Begins one more table in the list of a name. -/
def declareNext (k : String) (e : Entries) : Option Entries :=
  match find? k e with
  | none => some (e ++ [(k, .tables [] [])])
  | some (.tables last others) => some (set k (.tables [] (last :: others)) e)
  | some _ => none

end Entries

/-! ## The finished tree -/

mutual

def Node.setting : Node → Setting
  | .value v => v
  | .table _ entries => .table (settings entries)
  | .tables last others => .list ((.table (settings last) :: settingLists others).reverse)

def settings : List (String × Node) → List (String × Setting)
  | [] => []
  | (k, n) :: r => (k, n.setting) :: settings r

def settingLists : List (List (String × Node)) → List Setting
  | [] => []
  | e :: r => .table (settings e) :: settingLists r

end

end ServiceDirectory.Toml
