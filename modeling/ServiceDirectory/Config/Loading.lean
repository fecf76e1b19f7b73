import ServiceDirectory.Config.Environment
import ServiceDirectory.Config.Reader

/-! # Loading a configuration

Sources are laid over the standard values: a file, if there is one, and the environment over it. A
loaded configuration can be overridden by another file, which the environment goes over again.
-/

namespace ServiceDirectory

namespace Setting

def ofUInt64? (n : UInt64) : Option Setting :=
  if (n.toNat : Int) ≤ Int64.maxValue.toInt then some (.whole n.toNat) else none

def ofBackoff? (b : Backoff) : Option Setting := do
  return .table [("base_delay_ms", ← ofUInt64? b.baseMs), ("max_delay_ms", ← ofUInt64? b.maxMs)]

def ofServer? (c : ServerConfig) : Option Setting := do
  return .table [("bind_address", .text c.bindAddress),
    ("shutdown_grace_ms", ← ofUInt64? c.shutdownGraceMs),
    ("enable_compression", .flag c.enableCompression)]

def ofRemote? (c : RemoteConfig) : Option Setting := do
  return .table [("host", .text c.host), ("port", .whole c.port.toNat),
    ("connect_timeout_ms", ← ofUInt64? c.connectTimeoutMs),
    ("request_timeout_ms", ← ofUInt64? c.requestTimeoutMs),
    ("max_txn_ops", ← ofUInt64? c.maxTxnOps), ("reconnect", ← ofBackoff? c.reconnect)]

def ofLease? (c : LeaseConfig) : Option Setting := do
  return .table [("ttl_secs", .whole c.ttlSecs.toInt),
    ("keep_alive_interval_secs", ← ofUInt64? c.keepAliveIntervalSecs),
    ("namespace", .text c.keyRoot)]

def ofDiscovery? (c : DiscoveryConfig) : Option Setting := do
  return .table [("namespace", .text c.keyRoot), ("node_service_name", .text c.nodeName),
    ("sync_interval_secs", ← ofUInt64? c.syncIntervalSecs)]

def ofStorage (c : StorageConfig) : Setting :=
  .table [("db_path", match c.dbPath with
    | some path => .text path
    | none => .unset)]

/-- The settings of a configuration, unless one of its numbers is too great. -/
def ofConfig? (c : Config) : Option Setting := do
  return .table [("server", ← ofServer? c.server), ("remote", ← ofRemote? c.remote),
    ("lease", ← ofLease? c.lease), ("discovery", ← ofDiscovery? c.discovery),
    ("storage", ofStorage c.storage)]

end Setting

inductive LoadFault
  | malformed
  | placeOutOfReach
  deriving DecidableEq

namespace Config

def demandSome {α : Type} (fault : LoadFault) : Option α → Except LoadFault α
  | some x => .ok x
  | none => .error fault

/-- The configuration with the settings of a file, if it could be read, and of the environment laid
over it. -/
def withSources (c : Config) (file : Option (List (String × Setting)))
    (environment : List (String × Setting)) : Except LoadFault Config := do
  let base ← demandSome .malformed (Setting.ofConfig? c)
  let file ← demandSome .malformed file
  let base ← demandSome .placeOutOfReach (base.addSource file)
  let whole ← demandSome .placeOutOfReach (base.addSource environment)
  demandSome .malformed (Reading.lenient.config c.discovery.nodeName whole)

/-- Loads a configuration, and overrides it if there is a second file. -/
def load (nodeName : String) (file : Option (List (String × Setting)))
    (override : Option (Option (List (String × Setting))))
    (environment : List (String × Setting)) : Except LoadFault Config := do
  let c ← (standard nodeName).withSources file environment
  match override with
  | none => return c
  | some file => c.withSources file environment

end Config

end ServiceDirectory
