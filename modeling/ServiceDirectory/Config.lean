import ServiceDirectory.Backoff
import ServiceDirectory.Keyspace

/-! # Configuration

The settings of a node, in five sections, with the values that hold when nothing is set.
-/

namespace ServiceDirectory

structure ServerConfig where
  bindAddress : String
  shutdownGraceMs : UInt64
  enableCompression : Bool
  deriving DecidableEq

structure RemoteConfig where
  host : String
  port : UInt16
  connectTimeoutMs : UInt64
  requestTimeoutMs : UInt64
  maxTxnOps : UInt64
  reconnect : Backoff
  deriving DecidableEq

structure LeaseConfig where
  ttlSecs : Int64
  keepAliveIntervalSecs : UInt64
  keyRoot : String
  deriving DecidableEq

structure DiscoveryConfig where
  keyRoot : String
  nodeName : String
  syncIntervalSecs : UInt64
  deriving DecidableEq

structure StorageConfig where
  /-- Where the tables are kept; they are not kept if it is not set. -/
  dbPath : Option String
  deriving DecidableEq

structure Config where
  server : ServerConfig
  remote : RemoteConfig
  lease : LeaseConfig
  discovery : DiscoveryConfig
  storage : StorageConfig
  deriving DecidableEq

def ServerConfig.standard : ServerConfig := ⟨"0.0.0.0:50051", 5000, true⟩

def RemoteConfig.standard : RemoteConfig := ⟨"localhost", 2379, 3000, 5000, 128, .standard⟩

def LeaseConfig.standard : LeaseConfig := ⟨60, 45, "/discovery-leases"⟩

def DiscoveryConfig.standard (nodeName : String) : DiscoveryConfig := ⟨"/discovery", nodeName, 120⟩

def StorageConfig.standard : StorageConfig := ⟨none⟩

/-- A node that is given no name draws one. -/
def Config.standard (nodeName : String) : Config :=
  ⟨.standard, .standard, .standard, .standard nodeName, .standard⟩

def RemoteConfig.endpoint (c : RemoteConfig) : String :=
  "http://" ++ c.host ++ ":" ++ Text.natText c.port.toNat

namespace Config

def pointerKey (c : Config) : String :=
  normalizeNamespace c.lease.keyRoot ++ "/" ++ c.discovery.nodeName

def serviceNamespace (c : Config) : String := normalizeNamespace c.discovery.keyRoot

end Config

/-! ## Names of nodes -/

namespace NodeName

def length : Nat := 21

/-- The characters of a name that is drawn: as many as six bits can tell apart. -/
def alphabet : List Char :=
  "_-0123456789abcdefghijklmnopqrstuvwxyzABCDEFGHIJKLMNOPQRSTUVWXYZ".toList

def draw (b : UInt8) : Char := alphabet.getD (b.toNat % 64) '_'

def ofBytes (random : Vector UInt8 length) : String := String.ofList (random.toList.map draw)

end NodeName

end ServiceDirectory
