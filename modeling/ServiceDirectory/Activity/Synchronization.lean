import ServiceDirectory.Store.Batch
import ServiceDirectory.Activity.Registration

/-! # Synchronization

A cycle has two parts. The first reads all services of the remote store and makes the table of all
services equal to them. The second writes the hosted rows with which that table does not agree,
under the node's lease; it takes their locks in the order of their ids and keeps them until all are
written. A part that meets an unreachable store is skipped.
-/

namespace ServiceDirectory.Activity

/-! ## Import -/

/-- What an import did to the table of all services; nothing if it was skipped. -/
abbrev ImportResult := Except Error (Option Summary)

inductive ImportStage
  | start
  | read (kvs : List KeyValue)
  | finishing (result : ImportResult)

def decodeAll (k : Keyspace) (kvs : List KeyValue) : List Row :=
  kvs.filterMap fun kv => k.decode kv.key kv.value

/-- Makes the table of all services equal to what was read. -/
def reconcileRead (n : Node) (kvs : List KeyValue) : ImportResult × Node :=
  match n.globalRows.reconcile (decodeAll n.keyspace kvs) with
  | .ok (summary, globalRows) => (.ok (some summary), { n with globalRows })
  | .error e => (.error (.storage e), n)

def importStep (n : Node) : ImportStage → Progress Node ImportStage ImportResult
  | .start => .query (.getRange (.withPrefix n.keyspace.beginning)) fun
    | .ok kvs => .read kvs
    | .error e => .finishing (if e.isUnavailable then .ok none else .error e)
  | .read kvs =>
    let (result, n) := reconcileRead n kvs
    .done n result
  | .finishing result => .done n result

/-! ## Republishing -/

abbrev RepublishResult := Except Error (Option Nat)

inductive RepublishStage
  | start
  | locking (lease : Int) (todo held : List ServiceId)
  | queued (lease : Int) (id : ServiceId) (todo held : List ServiceId)
  | reading (lease : Int) (held : List ServiceId)
  | writing (batches : List (List TxnOp)) (count : Nat) (held : List ServiceId)
  | finishing (result : RepublishResult) (held : List ServiceId)

/-- The ids, in order, of the hosted rows with which the table of all services does not agree. An id
that several records hold comes as often. -/
def staleIds (n : Node) : Except StorageError (List ServiceId) := do
  let rows ← n.registry.rows.all
  let stale ← rows.filterM fun r => do return !Row.sameFound (← n.globalRows.find r.id) (some r)
  return (stale.map (·.id)).mergeSort fun a b => (compare a b).isLE

def republishOps (n : Node) (lease : Int) (ids : List ServiceId) : Except Error (List TxnOp) := do
  let found ← ids.mapM fun id => do
    match ← (n.registry.rows.find id).mapError Error.storage with
    | none => return none
    | some row =>
      let (key, value) ← (n.keyspace.encode row).mapError Error.codec
      return some (TxnOp.put key value (some lease))
  return found.filterMap fun op => op

def republishStep (me maxTxnOps : Nat) (n : Node) :
    RepublishStage → Progress Node RepublishStage RepublishResult
  | .start =>
    match n.lease with
    | none => .done n (.ok none)
    | some lease => match staleIds n with
      | .error e => .done n (.error (.storage e))
      | .ok [] => .done n (.ok (some 0))
      | .ok ids => .move n (.locking lease ids [])
  | .locking lease [] held => .move n (.reading lease held)
  | .locking lease (id :: todo) held => .move (n.claimRow me id) (.queued lease id todo held)
  | .queued lease id todo held =>
    if n.ownsRow me id then .move (n.takeRow me id) (.locking lease todo (held ++ [id])) else .wait
  | .reading lease held =>
    match republishOps n lease held with
    | .error e => .move n (.finishing (.error e) held)
    | .ok [] => .move n (.finishing (.ok (some 0)) held)
    | .ok ops =>
      if hasRoom maxTxnOps then .move n (.writing (batched ops maxTxnOps) ops.length held)
      else .crash
  | .writing [] count held => .move n (.finishing (.ok (some count)) held)
  | .writing (ops :: batches) count held => .query (.txn ops) fun
    | .ok _ => .writing batches count held
    | .error e => .finishing (if e.isUnavailable then .ok none else .error e) held
  | .finishing result held => .done (held.foldl (fun n id => n.releaseRow me id) n) result

/-! ## Cycles -/

structure SyncReport where
  imported : Option Summary
  republished : Option Nat
  deriving DecidableEq

def SyncReport.text (r : SyncReport) : String :=
  (match r.imported with
    | some s => "global: " ++ s.text
    | none => "global: skipped") ++
  match r.republished with
    | some n => ", republished: " ++ Text.natText n
    | none => ", republished: skipped"

inductive SyncStage
  | importing (stage : ImportStage)
  | republishing (imported : Option Summary) (stage : RepublishStage)

def orSkipped {α : Type} : Except Error (Option α) → Option α
  | .ok x => x
  | .error _ => none

def syncStep (me maxTxnOps : Nat) (n : Node) : SyncStage → Progress Node SyncStage SyncReport
  | .importing stage => (importStep n stage).within .importing fun n result =>
    .move n (.republishing (orSkipped result) .start)
  | .republishing imported stage =>
    (republishStep me maxTxnOps n stage).within (.republishing imported) fun n result =>
      .done n ⟨imported, orSkipped result⟩

/-- The time of the next tick after one that was due at `due` and came at `now`: a period after it,
counted from `now` if it came more than five milliseconds late. -/
def nextTick (due now period : Nat) : Nat :=
  Clock.later now (if due + 5 < now then now else due) period

inductive SyncLoopStage
  | start
  | idle (tick adoptions : Nat)
  | running (tick adoptions : Nat) (stage : SyncStage)

def syncLoopStep (me now maxTxnOps : Nat) (n : Node) :
    SyncLoopStage → Progress Node SyncLoopStage Unit
  | .start => if n.settings.syncPeriod = 0 then .crash else .move n (.idle now n.adoptions)
  | .idle tick adoptions =>
    if n.shutdown then .done n ()
    else if tick ≤ now then
      .move n (.running (nextTick tick now n.settings.syncPeriod) adoptions (.importing .start))
    else if n.adoptions ≠ adoptions then .move n (.running tick n.adoptions (.importing .start))
    else if n.resync then
      .move { n with resync := false } (.running tick adoptions (.importing .start))
    else .wait
  | .running tick adoptions stage =>
    (syncStep me maxTxnOps n stage).within (.running tick adoptions) fun n _ =>
      .move n (.idle tick adoptions)

end ServiceDirectory.Activity
