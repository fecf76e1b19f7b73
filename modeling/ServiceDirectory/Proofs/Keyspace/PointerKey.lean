import ServiceDirectory.Config.Check
import ServiceDirectory.Proofs.Keyspace.Namespaces
import ServiceDirectory.Registry

/-! # The key of the lease pointer

Services and lease pointers are kept under two namespaces that a checked configuration keeps
different. That is not enough to keep their keys apart: a pointer is a service key as well if its
namespace is two segments below that of the services, and only then (`keepsPointerApart_iff`).
-/

namespace ServiceDirectory

/-- A part of a key between two separators. -/
def IsSegment (s : String) : Prop := s ≠ "" ∧ '/' ∉ s.toList

instance (s : String) : Decidable (IsSegment s) :=
  inferInstanceAs (Decidable (s ≠ "" ∧ '/' ∉ s.toList))

theorem ServiceId.isValid_iff_isSegment {id : ServiceId} : id.isValid = true ↔
    IsSegment id.instanceName ∧ IsSegment id.serviceType ∧ IsSegment id.serviceName := by
  simp [isValid_iff, segments, IsSegment]

namespace Config

variable {c : Config}

def keyspace (c : Config) : Keyspace := .ofNamespace c.discovery.keyRoot

/-- No registration is written where the node remembers its lease, and no change there is one of a
service. -/
structure KeepsPointerApart (c : Config) : Prop where
  key_ne : ∀ id : ServiceId, id.isValid = true → c.keyspace.key id ≠ utf8 c.pointerKey
  encode_ne : ∀ (row : Row) (key value : Bytes), row.id.isValid = true →
    c.keyspace.encode row = .ok (key, value) → key ≠ utf8 c.pointerKey
  parseKey_eq : c.keyspace.parseKey (utf8 c.pointerKey) = none
  change?_eq : ∀ e : Event, e.key = utf8 c.pointerKey → c.keyspace.change? e = none

/-- The namespace of the leases is two segments below that of the services. -/
def NestsLeases (c : Config) : Prop := ∃ a b : String, IsSegment a ∧ IsSegment b ∧
  normalizeNamespace c.lease.keyRoot = c.serviceNamespace ++ "/" ++ a ++ "/" ++ b

theorem isSegment_nodeName (h : c.check = .ok ()) : IsSegment c.discovery.nodeName := by
  simp only [check, DiscoveryConfig.check, bind_unit_eq_ok_iff, demand_eq_ok_iff] at h
  obtain ⟨-, -, -, ⟨-, hname, -⟩, -, -⟩ := h
  simpa [IsSegment] using hname

theorem key_eq_pointerKey_iff (hname : '/' ∉ c.discovery.nodeName.toList) {id : ServiceId}
    (hid : '/' ∉ id.serviceName.toList) : c.keyspace.key id = utf8 c.pointerKey ↔
      c.serviceNamespace ++ "/" ++ id.instanceName ++ "/" ++ id.serviceType =
          normalizeNamespace c.lease.keyRoot ∧
        id.serviceName = c.discovery.nodeName := by
  have hkey : (c.serviceNamespace ++ "/" ++ id.text).toList =
      (c.serviceNamespace ++ "/" ++ id.instanceName ++ "/" ++ id.serviceType).toList ++
        '/' :: id.serviceName.toList := by
    simp [ServiceId.text]
  have hpointer : c.pointerKey.toList =
      (normalizeNamespace c.lease.keyRoot).toList ++ '/' :: c.discovery.nodeName.toList := by
    simp [pointerKey]
  rw [Keyspace.key, utf8_injective.eq_iff, ← String.toList_inj]
  change (c.serviceNamespace ++ "/" ++ id.text).toList = c.pointerKey.toList ↔ _
  rw [hkey, hpointer, append_separator_inj hid hname, String.toList_inj, String.toList_inj]

theorem exists_key_eq_pointerKey_iff (h : IsSegment c.discovery.nodeName) :
    (∃ id : ServiceId, id.isValid = true ∧ c.keyspace.key id = utf8 c.pointerKey) ↔
      c.NestsLeases := by
  constructor
  · rintro ⟨id, hid, hkey⟩
    obtain ⟨hi, ht, hn⟩ := ServiceId.isValid_iff_isSegment.1 hid
    exact ⟨id.instanceName, id.serviceType, hi, ht,
      ((key_eq_pointerKey_iff h.2 hn.2).1 hkey).1.symm⟩
  · rintro ⟨a, b, ha, hb, hroot⟩
    have hid : (⟨a, b, c.discovery.nodeName⟩ : ServiceId).isValid = true :=
      ServiceId.isValid_iff_isSegment.2 ⟨ha, hb, h⟩
    have hkey : c.keyspace.key ⟨a, b, c.discovery.nodeName⟩ = utf8 c.pointerKey :=
      (key_eq_pointerKey_iff h.2 h.2).2 ⟨hroot.symm, rfl⟩
    exact ⟨_, hid, hkey⟩

/-- All that can be mixed up is mixed up by way of the key of a valid id. -/
theorem keepsPointerApart_of_key_ne
    (h : ∀ id : ServiceId, id.isValid = true → c.keyspace.key id ≠ utf8 c.pointerKey) :
    c.KeepsPointerApart := by
  have hparse : c.keyspace.parseKey (utf8 c.pointerKey) = none := by
    rw [Option.eq_none_iff_forall_ne_some]
    intro id hid
    obtain ⟨hv, hkey⟩ := Keyspace.parseKey_eq_some_iff.1 hid
    exact h id hv hkey.symm
  refine ⟨h, fun row key value hv he => ?_, hparse, fun e he => ?_⟩
  · cases hvalue : Keyspace.encodeValue row with
    | error e =>
      rw [Keyspace.encode, hvalue] at he
      cases he
    | ok v =>
      rw [Keyspace.encode, hvalue] at he
      cases he
      exact h row.id hv
  · cases e with
    | put key value revision =>
      rw [Keyspace.change?, Keyspace.decode, show key = utf8 c.pointerKey from he, hparse]
      rfl
    | delete key revision =>
      rw [Keyspace.change?, show key = utf8 c.pointerKey from he, hparse]
      rfl

/-- The keys of the services and that of the pointer of a checked configuration are apart, unless
the namespace of the leases is two segments below that of the services. -/
theorem keepsPointerApart_iff (h : c.check = .ok ()) : c.KeepsPointerApart ↔ ¬ c.NestsLeases := by
  rw [← exists_key_eq_pointerKey_iff (isSegment_nodeName h)]
  constructor
  · rintro hapart ⟨id, hid, hkey⟩
    exact hapart.key_ne id hid hkey
  · intro hno
    exact keepsPointerApart_of_key_ne fun id hid hkey => hno ⟨id, hid, hkey⟩

/-! Leases beside the services, one segment below them, and two segments below. -/

def withLeases (keyRoot : String) : Config :=
  { standard "node-1" with lease := { LeaseConfig.standard with keyRoot } }

theorem nestsLeases_withLeases : (withLeases "/discovery/leases/nodes").NestsLeases :=
  ⟨"leases", "nodes", by decide, by decide, by decide +kernel⟩

theorem not_nestsLeases_withLeases : ¬ (withLeases "/discovery/leases").NestsLeases := by
  rintro ⟨a, b, -, -, h⟩
  have hroot : normalizeNamespace (withLeases "/discovery/leases").lease.keyRoot =
      "/discovery/leases" := by decide +kernel
  have hspace : (withLeases "/discovery/leases").serviceNamespace = "/discovery" := by
    decide +kernel
  rw [hroot, hspace] at h
  -- One separator more is behind the namespace of the services.
  have hcount := congrArg (fun s : String => s.toList.count '/') h
  have hleft : "/discovery/leases".toList.count '/' = 2 := by decide
  have hright : "/discovery".toList.count '/' = 1 := by decide
  simp only [String.toList_append, List.count_append, hleft, hright] at hcount
  have hsep : "/".toList.count '/' = 1 := by decide
  omega

theorem keepsPointerApart_iff_withLeases :
    (withLeases "/discovery/leases").check = .ok () ∧
    (withLeases "/discovery/leases").KeepsPointerApart ∧
    (withLeases "/discovery/leases/nodes").check = .ok () ∧
    ¬ (withLeases "/discovery/leases/nodes").KeepsPointerApart := by
  have hbeside : (withLeases "/discovery/leases").check = .ok () := by decide +kernel
  have hbelow : (withLeases "/discovery/leases/nodes").check = .ok () := by decide +kernel
  exact ⟨hbeside, (keepsPointerApart_iff hbeside).2 not_nestsLeases_withLeases, hbelow,
    fun h => (keepsPointerApart_iff hbelow).1 h nestsLeases_withLeases⟩

/-- The name of a node is taken for that of a service. -/
theorem not_forall_keepsPointerApart : ¬ ∀ c : Config, c.check = .ok () → c.KeepsPointerApart := by
  intro h
  have hkey : (withLeases "/discovery/leases/nodes").keyspace.key ⟨"leases", "nodes", "node-1"⟩ =
      utf8 (withLeases "/discovery/leases/nodes").pointerKey := by decide +kernel
  exact (h (withLeases "/discovery/leases/nodes") (by decide +kernel)).key_ne
    ⟨"leases", "nodes", "node-1"⟩ (by decide) hkey

end Config

end ServiceDirectory
