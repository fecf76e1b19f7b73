import ServiceDirectory.Config
import ServiceDirectory.Error
import ServiceDirectory.SocketAddress.Reader

/-! # Checks of a configuration

Sections are checked one after the other, and the first fault counts. That the two namespaces differ
is checked last. The interval of keep-alives is compared with the time of the lease as a signed
number.
-/

namespace ServiceDirectory

inductive ConfigFault
  | badAddress (text : String)
  | zeroGrace
  | emptyHost
  | zeroTxnOps
  | zeroTimeout
  | reconnect (fault : Backoff.Fault)
  | leaseTtl (ttl : Int64)
  | keepAlive (ttl : Int64) (interval : UInt64)
  | relativeLeaseNamespace (text : String)
  | relativeServiceNamespace (text : String)
  | nodeName (text : String)
  | zeroSyncInterval
  | emptyPath
  | sameNamespace
  deriving DecidableEq

namespace ConfigFault

def relativeNamespace (which text : String) : String :=
  which ++ " namespace must be an absolute key prefix such as `/discovery`, got `" ++ text ++ "`"

def message : ConfigFault → String
  | badAddress text => "invalid bind_address `" ++ text ++ "`: invalid socket address syntax"
  | zeroGrace => "shutdown_grace_ms must be greater than 0"
  | emptyHost => "remote host cannot be empty"
  | zeroTxnOps => "max_txn_ops must be greater than 0"
  | zeroTimeout => "remote timeouts must be greater than 0"
  | reconnect fault => fault.message
  | leaseTtl ttl => "lease ttl_secs must be greater than 0, got " ++ Text.intText ttl.toInt
  | keepAlive ttl interval =>
    "keep_alive_interval_secs must be in 1.." ++ Text.intText ttl.toInt ++ ", got " ++
      Text.natText interval.toNat
  | relativeLeaseNamespace text => relativeNamespace "lease" text
  | relativeServiceNamespace text => relativeNamespace "service" text
  | nodeName text =>
    "node_service_name must be non-empty and contain no `/`, got `" ++ text ++ "`"
  | zeroSyncInterval => "sync_interval_secs must be greater than 0"
  | emptyPath => "storage db_path cannot be empty"
  | sameNamespace => "lease namespace must differ from the service namespace"

def toError (f : ConfigFault) : Error := .config f.message

end ConfigFault

def demand (condition : Bool) (fault : ConfigFault) : Except ConfigFault Unit :=
  if condition then .ok () else .error fault

theorem demand_eq_ok_iff {condition : Bool} {fault : ConfigFault} :
    demand condition fault = .ok () ↔ condition = true := by
  unfold demand
  split
  · next h => simp [h]
  · next h => simp [h]

theorem bind_unit_eq_ok_iff {ε : Type} {x y : Except ε Unit} :
    (x >>= fun _ => y) = .ok () ↔ x = .ok () ∧ y = .ok () := by
  cases x with
  | error e => exact ⟨nofun, nofun⟩
  | ok u => exact ⟨fun h => ⟨rfl, h⟩, fun h => h.2⟩

namespace ServerConfig

def address (c : ServerConfig) : Except ConfigFault SocketAddress :=
  match SocketAddress.parse c.bindAddress with
  | some a => .ok a
  | none => .error (.badAddress c.bindAddress)

def check (c : ServerConfig) : Except ConfigFault Unit := do
  let _ ← c.address
  demand (c.shutdownGraceMs != 0) .zeroGrace

end ServerConfig

def RemoteConfig.check (c : RemoteConfig) : Except ConfigFault Unit := do
  demand (!c.host.isEmpty) .emptyHost
  demand (c.maxTxnOps != 0) .zeroTxnOps
  demand (c.connectTimeoutMs != 0 && c.requestTimeoutMs != 0) .zeroTimeout
  c.reconnect.check.mapError .reconnect

/-- Begins with a separator that something other than separators follows. -/
def isAbsolute (s : String) : Bool :=
  let chars := (normalizeNamespace s).toList
  chars.head? == some '/' && 2 ≤ chars.length

def LeaseConfig.check (c : LeaseConfig) : Except ConfigFault Unit := do
  demand (0 < c.ttlSecs) (.leaseTtl c.ttlSecs)
  demand (c.keepAliveIntervalSecs != 0 && c.keepAliveIntervalSecs.toInt64 < c.ttlSecs)
    (.keepAlive c.ttlSecs c.keepAliveIntervalSecs)
  demand (isAbsolute c.keyRoot) (.relativeLeaseNamespace c.keyRoot)

def DiscoveryConfig.check (c : DiscoveryConfig) : Except ConfigFault Unit := do
  demand (isAbsolute c.keyRoot) (.relativeServiceNamespace c.keyRoot)
  demand (!c.nodeName.isEmpty && !c.nodeName.toList.contains '/') (.nodeName c.nodeName)
  demand (c.syncIntervalSecs != 0) .zeroSyncInterval

def StorageConfig.check (c : StorageConfig) : Except ConfigFault Unit :=
  demand (c.dbPath != some "") .emptyPath

def Config.check (c : Config) : Except ConfigFault Unit := do
  c.server.check
  c.remote.check
  c.lease.check
  c.discovery.check
  c.storage.check
  demand (normalizeNamespace c.lease.keyRoot != c.serviceNamespace) .sameNamespace

end ServiceDirectory
