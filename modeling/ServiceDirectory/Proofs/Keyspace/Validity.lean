import ServiceDirectory.Client
import ServiceDirectory.Proofs.Keyspace.RoundTrip

/-! # Decoded rows and valid services

Of what makes a registration valid, decoding looks at the id only, and it keeps reserved keys out of
the metadata. A ttl of zero and an empty key pass, so a decoded row is a valid service just if it
has neither (`Row.IsFaithful.toService_iff`). A client makes of a listed row what the node makes of
it (`Row.toInfo_toService`).
-/

namespace ServiceDirectory

namespace Metadata

theorem foldlM_ofEntries {l : List (String × String)} (hl : l.Pairwise fun a b => a.1 ≠ b.1)
    {m : Metadata} (hm : ∀ e ∈ l, m.contains e.1 = false) :
    l.foldlM (fun m (k, v) =>
      if m.contains k then Except.error (CodecError.invalidField .metadata (.duplicateKey k))
      else .ok (m.insert k v)) m = .ok (l.foldl (fun m e => m.insert e.1 e.2) m) := by
  induction l generalizing m with
  | nil => rfl
  | cons e l ih =>
    obtain ⟨he, hl⟩ := List.pairwise_cons.1 hl
    have hrest : ∀ x ∈ l, (m.insert e.1 e.2).contains x.1 = false := fun x hx => by
      rw [Dictionary.contains, Dictionary.find?_insert, if_neg (he x hx).symm]
      exact hm x (.tail _ hx)
    simp only [List.foldlM_cons, hm e (.head _), Bool.false_eq_true, ↓reduceIte, ok_bind,
      List.foldl_cons]
    exact ih hl hrest

theorem ofEntries_entries (m : Metadata) : ofEntries m.entries = .ok m := by
  have h := foldlM_ofEntries m.entries_pairwise_ne (m := Dictionary.empty) fun _ _ => rfl
  have hm : m.entries.foldl (fun d e => d.insert e.1 e.2) Dictionary.empty = m :=
    Dictionary.ofList_entries m
  rw [hm] at h
  exact h

end Metadata

namespace Row

variable {row : Row} {m : Metadata}

/-- The ttl is not zero, and the metadata has no empty key. -/
def IsComplete (row : Row) : Prop :=
  row.ttl ≠ 0 ∧ ∀ m, row.metadata = .ok m → m.find? "" = none

theorem IsFaithful.exists_metadata (h : row.IsFaithful) :
    ∃ m, row.metadata = .ok m ∧ ∀ key ∈ reservedKeys, m.find? key = none := by
  obtain ⟨m, hm, hr⟩ := h
  exact ⟨m, by simp [Row.metadata, hm, Metadata.parse_stringObjectText], hr⟩

theorem IsFaithful.toService_iff (h : row.IsFaithful) (hv : row.id.isValid = true) :
    (∃ s, row.toService = .ok s) ↔ row.IsComplete := by
  obtain ⟨m, hm, hr⟩ := h.exists_metadata
  have hservice : row.toService = Service.make row.id row.hostname row.port row.ttl m := by
    rw [Row.toService, hm]
    rfl
  simp only [hservice, Service.make_eq_ok_iff, IsComplete, hm, Except.ok.injEq, forall_eq']
  constructor
  · rintro ⟨s, -, httl, hkeys, -⟩
    refine ⟨httl, Option.eq_none_iff_forall_ne_some.2 fun v hf => ?_⟩
    exact (hkeys "" ((m.mem_keys_iff "").2 ⟨v, hf⟩)).2 rfl
  · rintro ⟨httl, hempty⟩
    refine ⟨_, hv, httl, fun key hkey => ?_, rfl⟩
    obtain ⟨v, hf⟩ := (m.mem_keys_iff key).1 hkey
    refine ⟨fun hres => ?_, ?_⟩
    · rw [hr key hres] at hf
      cases hf
    · rintro rfl
      rw [hempty] at hf
      cases hf

/-- What a client makes of a listed row. The message holds everything that the check looks at. -/
theorem toInfo_toService (hm : row.metadata = .ok m) (isLocal : Bool) : ∃ info,
    row.toInfo isLocal = .ok info ∧ info.isLocal = isLocal ∧ info.toService = row.toService := by
  refine ⟨⟨⟨some row.id, row.hostname, row.port.toUInt32, row.ttl, m.entries⟩, isLocal⟩,
    by simp [Row.toInfo, hm], rfl, ?_⟩
  have hport : ¬ UInt16.size ≤ row.port.toUInt32.toNat := by
    rw [UInt16.toNat_toUInt32]
    exact Nat.not_le.2 row.port.toNat_lt
  have hback : row.port.toUInt32.toUInt16 = row.port := by simp
  simp only [ServiceInfo.toService, RegisterRequest.toService, ServiceId.ofMessage, Row.toService,
    hm, Metadata.ofEntries_entries, hport, hback, ↓reduceIte]
  cases hid : row.id.check with
  | ok _ => rfl
  | error e => simp [Service.make, hid, bind, Except.bind]

end Row

end ServiceDirectory
