import ServiceDirectory.Dictionary
import ServiceDirectory.Error

/-! # Services

A service is named by three segments: the instance that hosts it, its type and its name. A
`Service` is a valid registration; `Service.make` is the one way to check one, and its first
complaint is the one reported.
-/

namespace ServiceDirectory

abbrev Metadata := Dictionary String String

structure ServiceId where
  instanceName : String
  serviceType : String
  serviceName : String
  deriving DecidableEq, Inhabited

namespace ServiceId

def segments (id : ServiceId) : List String := [id.instanceName, id.serviceType, id.serviceName]

instance : Ord ServiceId := ⟨fun a b => compare a.segments b.segments⟩

theorem compare_def (a b : ServiceId) : compare a b = compare a.segments b.segments := rfl

instance : Std.TransOrd ServiceId where
  eq_swap {a b} := by
    simp only [compare_def]
    exact Std.OrientedCmp.eq_swap
  isLE_trans {a b c} := by
    simp only [compare_def]
    exact Std.TransCmp.isLE_trans

theorem segments_inj {a b : ServiceId} : a.segments = b.segments ↔ a = b := by
  cases a; cases b; simp [segments]

instance : Std.LawfulEqOrd ServiceId where
  compare_self := by simp
  eq_of_compare h := by
    simp only [compare_def] at h
    exact segments_inj.1 (Std.LawfulEqCmp.eq_of_compare h)

def text (id : ServiceId) : String :=
  id.instanceName ++ "/" ++ id.serviceType ++ "/" ++ id.serviceName

def checkSegment (field : Field) (value : String) : Except CodecError Unit :=
  if value.isEmpty then .error (.invalidField field .empty)
  else if value.toList.contains '/' then .error (.invalidField field (.containsSeparator value))
  else .ok ()

/-- Each segment becomes a segment of a remote key, so it is not empty and holds no separator. -/
def check (id : ServiceId) : Except CodecError Unit := do
  checkSegment .instanceName id.instanceName
  checkSegment .serviceType id.serviceType
  checkSegment .serviceName id.serviceName

def isValid (id : ServiceId) : Bool := id.check.toBool

end ServiceId

/-- The fields of a remote value that metadata may not use. -/
def reservedKeys : List String := ["hostname", "port", "ttl"]

structure Service where
  id : ServiceId
  hostname : String
  port : UInt16
  ttl : UInt32
  metadata : Metadata
  deriving DecidableEq

namespace Service

/-- A registration is valid if its id is, its ttl is not zero, and its metadata uses no reserved
and no empty key. -/
def make (id : ServiceId) (hostname : String) (port : UInt16) (ttl : UInt32)
    (metadata : Metadata) : Except CodecError Service := do
  id.check
  if ttl = 0 then throw (.invalidField .ttl .notPositive)
  match metadata.keys.find? reservedKeys.contains with
  | some key => throw (.reservedMetadataKey key)
  | none => pure ()
  if metadata.keys.any String.isEmpty then throw (.invalidField .metadata .emptyKey)
  return { id, hostname, port, ttl, metadata }

end Service

end ServiceDirectory
