import ServiceDirectory.Row.Binary

/-! # Tables of rows

A table keeps the binary form of a row at the binary form of its id, in the order of those bytes.
Every change reads what is stored first: an equal row is left as it is, and a row that cannot be
read makes the whole change fail without effect. Deleting by `apply` is the exception: it does not
read what it deletes.
-/

namespace ServiceDirectory

inductive Upsert
  | unchanged | added | updated
  deriving DecidableEq

def Upsert.changed (u : Upsert) : Bool := u != .unchanged

def Upsert.text : Upsert → String
  | unchanged => "Unchanged"
  | added => "Added"
  | updated => "Updated"

inductive RowChange
  | put (row : Row)
  | delete (id : ServiceId)
  deriving DecidableEq

structure Summary where
  added : Nat
  updated : Nat
  deleted : Nat
  skipped : Nat
  deriving DecidableEq

namespace Summary

def zero : Summary := ⟨0, 0, 0, 0⟩

instance : Inhabited Summary := ⟨zero⟩

def isNoop (s : Summary) : Bool := s.added == 0 && s.updated == 0 && s.deleted == 0

def text (s : Summary) : String :=
  "added=" ++ Text.natText s.added ++ " updated=" ++ Text.natText s.updated ++ " deleted=" ++
    Text.natText s.deleted ++ " skipped=" ++ Text.natText s.skipped

def countAdded (s : Summary) : Summary := { s with added := s.added + 1 }
def countUpdated (s : Summary) : Summary := { s with updated := s.updated + 1 }
def countDeleted (s : Summary) : Summary := { s with deleted := s.deleted + 1 }
def countSkipped (s : Summary) : Summary := { s with skipped := s.skipped + 1 }

/-- A row was written where `current` was stored before. -/
def countWritten (s : Summary) (current : Option Row) : Summary :=
  if current.isSome then s.countUpdated else s.countAdded

end Summary

structure Table where
  rows : Dictionary Bytes Bytes
  deriving DecidableEq, Inhabited

namespace Table

def empty : Table := ⟨Dictionary.empty⟩

def size (t : Table) : Nat := t.rows.size

def find (t : Table) (id : ServiceId) : Except StorageError (Option Row) :=
  match t.rows.find? id.bytes with
  | none => .ok none
  | some b => some <$> Row.ofBytes b

def all (t : Table) : Except StorageError (List Row) := t.rows.values.mapM Row.ofBytes

def write (t : Table) (r : Row) : Table := ⟨t.rows.insert r.id.bytes r.bytes⟩

def erase (t : Table) (id : ServiceId) : Table := ⟨t.rows.erase id.bytes⟩

def upsert (t : Table) (r : Row) : Except StorageError (Upsert × Table) := do
  match ← t.find r.id with
  | some current => return if current.same r then (.unchanged, t) else (.updated, t.write r)
  | none => return (.added, t.write r)

def remove (t : Table) (id : ServiceId) : Except StorageError (Option Row × Table) := do
  return (← t.find id, t.erase id)

def applyChange (s : Summary × Table) : RowChange → Except StorageError (Summary × Table)
  | .put r => do
    let (n, t) := s
    let current ← t.find r.id
    if Row.sameFound current (some r) then return (n.countSkipped, t)
    else return (n.countWritten current, t.write r)
  | .delete id =>
    let (n, t) := s
    if t.rows.contains id.bytes then .ok (n.countDeleted, t.erase id)
    else .ok (n.countSkipped, t)

/-- Applies changes in order. Applying them again is harmless. -/
def apply (t : Table) (changes : List RowChange) : Except StorageError (Summary × Table) :=
  changes.foldlM applyChange (.zero, t)

end Table

end ServiceDirectory
