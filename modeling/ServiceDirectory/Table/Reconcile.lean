import ServiceDirectory.Table

/-! # Reconciliation

A table is made equal to a target by way of a snapshot: the rows on which snapshot and target differ
are the ones to write or to delete, and of these every row that no longer is as in the snapshot is
left alone. A list of rows is read as a dictionary by id, in which the last row of an id wins.
-/

namespace ServiceDirectory

def rowsById (rows : List Row) : Dictionary ServiceId Row :=
  Dictionary.ofList (rows.map fun r => (r.id, r))

namespace Table

/-- Rows to write, each with the row that the snapshot has for its id. -/
def writesFor (snapshot target : Dictionary ServiceId Row) : List (Row × Option Row) :=
  (target.entries.filter fun e => !Row.sameFound (snapshot.find? e.1) (some e.2)).map
    fun e => (e.2, snapshot.find? e.1)

def deletesFor (snapshot target : Dictionary ServiceId Row) : List Row :=
  (snapshot.filter fun id _ => !target.contains id).values

def writeIfSeen (s : Summary × Table) (w : Row × Option Row) :
    Except StorageError (Summary × Table) := do
  let (n, t) := s
  let (row, seen) := w
  let current ← t.find row.id
  if Row.sameFound current seen then return (n.countWritten current, t.write row)
  else return (n.countSkipped, t)

def deleteIfSeen (s : Summary × Table) (seen : Row) : Except StorageError (Summary × Table) := do
  let (n, t) := s
  if Row.sameFound (← t.find seen.id) (some seen) then return (n.countDeleted, t.erase seen.id)
  else return (n.countSkipped, t)

def reconcileFrom (t : Table) (snapshot target : List Row) :
    Except StorageError (Summary × Table) := do
  let snapshot := rowsById snapshot
  let target := rowsById target
  let s ← (writesFor snapshot target).foldlM writeIfSeen (.zero, t)
  (deletesFor snapshot target).foldlM deleteIfSeen s

/-- Reconciles with a snapshot of the table itself. -/
def reconcile (t : Table) (target : List Row) : Except StorageError (Summary × Table) := do
  t.reconcileFrom (← t.all) target

end Table

end ServiceDirectory
