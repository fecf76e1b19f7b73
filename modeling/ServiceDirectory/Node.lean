import ServiceDirectory.Backoff
import ServiceDirectory.Registry
import ServiceDirectory.RowLock
import ServiceDirectory.Table.Reconcile

/-! # Nodes

A node hosts registrations and follows those of all nodes. `registry` holds its own rows and
`globalRows` everybody's; `locks` and `mutex` order what its tasks do to them.
-/

namespace ServiceDirectory

/-- Periods are in milliseconds, the time of the lease in seconds. -/
structure NodeSettings where
  name : String
  keyspace : Keyspace
  pointerKey : String
  leaseTtl : Int
  keepAlivePeriod : Nat
  syncPeriod : Nat
  backoff : Backoff
  stopGrace : Nat
  deriving Inhabited

structure Node where
  settings : NodeSettings
  registry : Registry
  globalRows : Table
  locks : RowLocks
  /-- The task that is in the middle of a change of the local rows. -/
  mutex : Option Nat
  lease : Option Int
  /-- The lease that those who watch for changes of it were told last; zero if they were told
  none. -/
  published : Int
  adoptions : Nat
  resync : Bool
  shutdown : Bool
  deriving Inhabited

namespace Node

def init (settings : NodeSettings) (localRows globalRows : Table) : Node where
  settings := settings
  registry := { Registry.empty with rows := localRows }
  globalRows := globalRows
  locks := .empty
  mutex := none
  lease := none
  published := 0
  adoptions := 0
  resync := false
  shutdown := false

def keyspace (n : Node) : Keyspace := n.settings.keyspace

def adopt (n : Node) (lease : Int) : Node :=
  { n with lease := some lease, published := lease, adoptions := n.adoptions + 1 }

def list (n : Node) (instanceName serviceType : Option String) :
    Except StorageError (List (Row × Bool)) :=
  listRows n.registry.rows n.globalRows instanceName serviceType

def handleEvents (n : Node) (events : List Event) : Node :=
  { n with globalRows := ServiceDirectory.handleEvents n.keyspace n.globalRows events }

end Node

end ServiceDirectory
