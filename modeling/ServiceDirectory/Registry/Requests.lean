import ServiceDirectory.Activity
import ServiceDirectory.Client

/-! # Requests to a registry

A request is answered once the node is ready. A malformed one is refused with the reason; a change
that fails afterwards is answered without success.
-/

namespace ServiceDirectory

structure Status where
  code : StatusCode
  message : String
  deriving DecidableEq

namespace Node

def ensureReady (n : Node) : Except Status Unit :=
  if n.registry.ready then .ok () else .error ⟨.unavailable, "Service is not ready"⟩

def valid {α : Type} : Except CodecError α → Except Status α
  | .ok x => .ok x
  | .error e => .error ⟨.invalidArgument, e.message⟩

def registerRequest (n : Node) (r : RegisterRequest) : Except Status Activity := do
  n.ensureReady
  return .register (← valid r.toService)

def unregisterRequest (n : Node) (id : Option ServiceId) : Except Status Activity := do
  n.ensureReady
  return .unregister (← valid (ServiceId.ofMessage id))

def keepAliveRequest (n : Node) (id : Option ServiceId) : Except Status Activity := do
  n.ensureReady
  return .touch (← valid (ServiceId.ofMessage id))

/-- An empty filter matches everything. -/
def filter? (s : String) : Option String := if s.isEmpty then none else some s

/-- Rows whose metadata cannot be read are left out. -/
def listRequest (n : Node) (instanceName serviceType : String) :
    Except Status (List ServiceInfo) := do
  n.ensureReady
  match n.list (filter? instanceName) (filter? serviceType) with
  | .ok rows => return rows.filterMap fun (r, isLocal) => (r.toInfo isLocal).toOption
  | .error e => throw ⟨.internal, e.message⟩

def answer (n : Node) : RegistryRequest → Except Status (Activity ⊕ List ServiceInfo)
  | .register r => .inl <$> n.registerRequest r
  | .unregister id => .inl <$> n.unregisterRequest id
  | .keepAlive id => .inl <$> n.keepAliveRequest id
  | .list instanceName serviceType => .inr <$> n.listRequest instanceName serviceType

end Node

def Outcome.success : Outcome → Bool
  | .row (.ok _) => true
  | .kept (.ok found) => found
  | _ => false

end ServiceDirectory
