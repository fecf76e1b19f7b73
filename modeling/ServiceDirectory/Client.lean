import ServiceDirectory.Message

/-! # Clients of a registry

What a client sends to the registry of a node, and what it makes of the replies. Entries of a list
that are no valid services are left out.
-/

namespace ServiceDirectory

/-- Times are in milliseconds. -/
structure ClientSettings where
  connectTimeout : Nat
  requestTimeout : Nat
  tcpKeepalive : Nat
  enableCompression : Bool
  deriving DecidableEq

def ClientSettings.standard : ClientSettings where
  connectTimeout := 1000
  requestTimeout := 3000
  tcpKeepalive := 300000
  enableCompression := true

inductive RegistryRequest
  | register (request : RegisterRequest)
  | unregister (id : Option ServiceId)
  | keepAlive (id : Option ServiceId)
  | list (instanceName serviceType : String)
  deriving DecidableEq

namespace RegistryRequest

def ofService (s : Service) : RegistryRequest := .register s.toRequest

def ofFilters (instanceName serviceType : Option String) : RegistryRequest :=
  .list (instanceName.getD "") (serviceType.getD "")

end RegistryRequest

structure ListedService where
  service : Service
  isLocal : Bool
  deriving DecidableEq

def listedServices (infos : List ServiceInfo) : List ListedService :=
  infos.filterMap fun i => match i.toService with
    | .ok service => some ⟨service, i.isLocal⟩
    | .error _ => none

end ServiceDirectory
