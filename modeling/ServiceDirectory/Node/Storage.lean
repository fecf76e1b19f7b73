import ServiceDirectory.Config

/-! # Where tables are kept

The tables of a node are kept in a directory, which is made if it is not there. A path leads from
the root, or from where the node runs, through one name after the other, and a file that is no
directory ends it. Nothing can be made in the trees that the system keeps for itself.
-/

namespace ServiceDirectory

/-- A place in the tree of files: the names on the way from the root, the last one first. -/
abbrev Place := List String

namespace Place

def root : Place := []

def enter (here : Place) (name : String) : Place :=
  if name = "" ∨ name = "." then here
  else if name = ".." then here.tail
  else name :: here

def isDevice : Place → Bool
  | [name, "dev"] => ["null", "zero", "full", "random", "urandom", "tty"].contains name
  | _ => false

def isSystem (p : Place) : Bool := p.getLast? == some "proc" || p.getLast? == some "sys"

/-- The names lead from here to a place at which a directory can be. -/
def leadsOn (here : Place) : List String → Bool
  | [] => !here.isDevice && !here.isSystem
  | name :: r => !here.isDevice && (here.enter name).leadsOn r

end Place

/-- A name on a path has at most 255 bytes, none of which is zero. -/
def isFileName (name : String) : Bool := name.utf8ByteSize ≤ 255 && !name.toList.contains '\x00'

/-- Paths that do not begin at the root are taken to lead to a place that can be used. -/
def canKeepTables (path : String) : Bool :=
  let names := path.splitOn "/"
  names.all isFileName && (names.head? != some "" || Place.root.leadsOn names)

/-- What is not kept needs no place. -/
def StorageConfig.canOpen (c : StorageConfig) : Bool := c.dbPath.all canKeepTables

end ServiceDirectory
