import ServiceDirectory.Row

/-! # Messages of the registry

A request to register carries its id as an option and its metadata as a list, so it may be
malformed in more ways than a service; `RegisterRequest.toService` reports the first fault. What is
listed is sent as `ServiceInfo`.
-/

namespace ServiceDirectory

structure RegisterRequest where
  id : Option ServiceId
  hostname : String
  port : UInt32
  ttl : UInt32
  metadata : List (String × String)
  deriving DecidableEq

structure ServiceInfo extends RegisterRequest where
  isLocal : Bool
  deriving DecidableEq

namespace ServiceId

def ofMessage : Option ServiceId → Except CodecError ServiceId
  | none => .error (.invalidField .serviceId .missing)
  | some id => do id.check; return id

end ServiceId

namespace Metadata

/-- Refuses a key that occurs twice, at its second place. -/
def ofEntries (entries : List (String × String)) : Except CodecError Metadata :=
  entries.foldlM (fun m (k, v) =>
    if m.contains k then .error (.invalidField .metadata (.duplicateKey k))
    else .ok (m.insert k v)) Dictionary.empty

end Metadata

def RegisterRequest.toService (r : RegisterRequest) : Except CodecError Service := do
  let id ← ServiceId.ofMessage r.id
  if UInt16.size ≤ r.port.toNat then throw (.invalidField .port (.tooWide r.port.toNat))
  let metadata ← Metadata.ofEntries r.metadata
  Service.make id r.hostname r.port.toUInt16 r.ttl metadata

def ServiceInfo.toService (i : ServiceInfo) : Except CodecError Service :=
  i.toRegisterRequest.toService

def Service.toRequest (s : Service) : RegisterRequest :=
  ⟨some s.id, s.hostname, s.port.toUInt32, s.ttl, s.metadata.entries⟩

def Row.toInfo (r : Row) (isLocal : Bool) : Except CodecError ServiceInfo := do
  let m ← r.metadata
  return ⟨⟨some r.id, r.hostname, r.port.toUInt32, r.ttl, m.entries⟩, isLocal⟩

end ServiceDirectory
