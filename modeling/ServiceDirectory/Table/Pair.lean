import ServiceDirectory.Table
import ServiceDirectory.Text.Quoted

/-! # The two tables of a node

A node keeps the rows that it hosts and the rows of all nodes, in two tables that a database knows
by name. What a database holds is loaded as it is; a row that cannot be read is noticed when it is
read.
-/

namespace ServiceDirectory

inductive TableName
  | localServices | globalServices
  deriving DecidableEq

namespace TableName

def text : TableName → String
  | localServices => "local_services"
  | globalServices => "global_services"

def ofText? (s : String) : Option TableName := [localServices, globalServices].find? (·.text == s)

end TableName

def Table.description (t : Table) (name : TableName) : String :=
  "ServiceCache \x7b name: " ++ Text.quoted name.text ++ ", len: " ++ Text.natText t.size ++ " \x7d"

structure Tables where
  localRows : Table
  globalRows : Table
  deriving DecidableEq, Inhabited

namespace Tables

def empty : Tables := ⟨.empty, .empty⟩

def get (t : Tables) : TableName → Table
  | .localServices => t.localRows
  | .globalServices => t.globalRows

def set (t : Tables) (name : TableName) (rows : Table) : Tables :=
  match name with
  | .localServices => { t with localRows := rows }
  | .globalServices => { t with globalRows := rows }

structure Record where
  table : String
  key : Bytes
  value : Bytes

/-- Records of other tables are of no concern. -/
def load (records : List Record) : Tables :=
  records.foldl (fun t r => match TableName.ofText? r.table with
    | some name => t.set name ⟨(t.get name).rows.insert r.key r.value⟩
    | none => t) empty

/-- The tables after they were closed and opened again: a database on disk has kept them. -/
def reopen (onDisk : Bool) (t : Tables) : Tables := if onDisk then t else empty

end Tables

end ServiceDirectory
