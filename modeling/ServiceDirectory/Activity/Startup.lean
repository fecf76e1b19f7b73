import ServiceDirectory.Activity.Watching

/-! # Starting a node

A node first imports all services, so that it answers from a full view; a failed import is left to
the synchronization. It then acquires its lease, and rebuilds its rows from the keys still bound to
it. After that it is ready, and its loops run.
-/

namespace ServiceDirectory.Activity

inductive StartStage
  | importing (stage : ImportStage)
  | acquiring (stage : AcquireStage)
  | restoring (found : Inherited)

def shutdownBeforeLease : Error := .fatal "shutdown requested before a lease was acquired"

def decodeInherited (k : Keyspace) (found : Inherited) : List Row :=
  found.entries.filterMap fun e => k.decode e.1 e.2

/-- Rebuilds the hosted rows and tells how many there are. -/
def restore (now : Nat) (n : Node) (found : Inherited) : Except Error Nat × Node :=
  match n.registry.restore now (decodeInherited n.keyspace found) with
  | .ok (count, registry) => (.ok count, { n with registry })
  | .error e => (.error (.storage e), n)

def setReady (n : Node) (ready : Bool) : Node :=
  { n with registry := { n.registry with ready } }

def startStep (now maxTxnOps : Nat) (n : Node) :
    StartStage → Progress Node StartStage (Except Error Unit)
  | .importing stage => (importStep n stage).within .importing fun n _ =>
    .move n (.acquiring .start)
  | .acquiring stage =>
    if n.shutdown then .done n (.error shutdownBeforeLease)
    else (acquireStep maxTxnOps n stage).within .acquiring fun n result =>
      match result with
      | .ok found => .move n (.restoring found)
      | .error e => .done n (.error e)
  | .restoring found =>
    if n.mutex.isSome then .wait
    else match restore now n found with
      | (.ok _, n) => .done (setReady n true) (.ok ())
      | (.error e, n) => .done n (.error e)

end ServiceDirectory.Activity
