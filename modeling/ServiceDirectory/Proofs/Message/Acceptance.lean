import ServiceDirectory.Proofs.Keyspace.Validity

/-! # Requests that are accepted

A request to register becomes a service just if it is valid (`RegisterRequest.IsValid`), and the
service tells all that the request did, with its metadata in the order of the keys. Every service
comes back from the request that it makes, and from what a client is told of its row
(`RegisterRequest.accepted_iff_isValid`).
-/

namespace ServiceDirectory

namespace Dictionary

variable {α β : Type} [Ord α] [Std.TransOrd α] [Std.LawfulEqOrd α] [DecidableEq α]

def keyLe (a b : α × β) : Bool := (compare a.1 b.1).isLE

omit [Std.LawfulEqOrd α] [DecidableEq α] in
theorem keyLe_trans (a b c : α × β) : keyLe a b → keyLe b c → keyLe a c := Std.TransCmp.isLE_trans

omit [Std.LawfulEqOrd α] [DecidableEq α] in
theorem keyLe_total (a b : α × β) : keyLe a b || keyLe b a := by
  have hswap : compare b.1 a.1 = (compare a.1 b.1).swap := Std.OrientedOrd.eq_swap
  rw [keyLe, keyLe, hswap]
  cases compare a.1 b.1 <;> rfl

theorem perm_entries_ofList {l : List (α × β)} (hl : l.Pairwise fun a b => a.1 ≠ b.1) :
    (ofList l).entries.Perm l := by
  have hnodup : ∀ {l : List (α × β)}, (l.Pairwise fun a b => a.1 ≠ b.1) → l.Nodup := fun h =>
    h.imp fun hab heq => hab (congrArg Prod.fst heq)
  refine (List.perm_ext_iff_of_nodup (hnodup (ofList l).entries_pairwise_ne) (hnodup hl)).2 ?_
  intro e
  rw [← find?_eq_some_iff (ofList l) e.1 e.2, find?_ofList]
  exact ⟨mem_of_lastFor, lastFor_of_mem hl⟩

theorem entries_ofList {l : List (α × β)} (hl : l.Pairwise fun a b => a.1 ≠ b.1) :
    (ofList l).entries = l.mergeSort keyLe := by
  have hperm := (perm_entries_ofList hl).trans (List.mergeSort_perm l keyLe).symm
  refine hperm.eq_of_pairwise (fun a b ha hb hab hba => ?_)
    ((ofList l).ascending.imp fun h => by simp [keyLe, h])
    (List.pairwise_mergeSort keyLe_trans keyLe_total l)
  -- Only members of one dictionary are compared, and of these a key has one.
  have hkey : a.1 = b.1 := Std.LawfulEqCmp.eq_of_compare (Std.OrientedCmp.isLE_antisymm hab hba)
  have hb' : (b.1, b.2) ∈ (ofList l).entries := hperm.mem_iff.2 hb
  have ha' := (find?_eq_some_iff (ofList l) a.1 a.2).2 ha
  rw [hkey, (find?_eq_some_iff (ofList l) b.1 b.2).2 hb'] at ha'
  exact Prod.ext hkey (Option.some.inj ha').symm

end Dictionary

namespace Metadata

theorem distinct_of_foldlM {l : List (String × String)} {m m' : Metadata}
    (h : l.foldlM (fun m (k, v) =>
      if m.contains k then Except.error (CodecError.invalidField .metadata (.duplicateKey k))
      else .ok (m.insert k v)) m = .ok m') :
    (l.Pairwise fun a b => a.1 ≠ b.1) ∧ ∀ e ∈ l, m.contains e.1 = false := by
  induction l generalizing m with
  | nil => exact ⟨.nil, fun e he => absurd he List.not_mem_nil⟩
  | cons e l ih =>
    simp only [List.foldlM_cons] at h
    cases he : m.contains e.1 with
    | true =>
      simp only [he, ↓reduceIte] at h
      cases h
    | false =>
      simp only [he, Bool.false_eq_true, ↓reduceIte, ok_bind] at h
      obtain ⟨hl, hm⟩ := ih h
      have hnew : ∀ x ∈ l, x.1 ≠ e.1 ∧ m.contains x.1 = false := fun x hx => by
        have hx := hm x hx
        rw [Dictionary.contains, Dictionary.find?_insert] at hx
        split at hx
        · cases hx
        · next hne => exact ⟨hne, hx⟩
      refine ⟨List.pairwise_cons.2 ⟨fun x hx => (hnew x hx).1.symm, hl⟩, fun x hx => ?_⟩
      rcases List.mem_cons.1 hx with rfl | hx
      · exact he
      · exact (hnew x hx).2

/-- Metadata is read just from a list that names no key twice. -/
theorem ofEntries_eq_ok_iff {l : List (String × String)} {m : Metadata} :
    ofEntries l = .ok m ↔ (l.map (·.1)).Nodup ∧ m = Dictionary.ofList l := by
  have hread (hl : l.Pairwise fun a b => a.1 ≠ b.1) : ofEntries l = .ok (Dictionary.ofList l) :=
    foldlM_ofEntries hl fun _ _ => rfl
  constructor
  · intro h
    have hl := (distinct_of_foldlM h).1
    exact ⟨List.pairwise_map.2 hl, Except.ok.inj (h.symm.trans (hread hl))⟩
  · rintro ⟨hl, rfl⟩
    exact hread (List.pairwise_map.1 hl)

end Metadata

theorem ServiceId.ofMessage_eq_ok_iff {id? : Option ServiceId} {id : ServiceId} :
    ofMessage id? = .ok id ↔ id? = some id ∧ id.isValid = true := by
  cases id? with
  | none => simp [ofMessage]
  | some id' =>
    have hv : (∃ u, id'.check = .ok u) ↔ id'.isValid = true := by
      unfold isValid
      cases id'.check <;> simp [Except.toBool]
    simp only [ofMessage, bind_eq_ok_iff, pure_eq_ok, Except.ok.injEq, exists_and_right, hv,
      Option.some.injEq]
    constructor
    · rintro ⟨h, rfl⟩
      exact ⟨rfl, h⟩
    · rintro ⟨rfl, h⟩
      exact ⟨h, rfl⟩

namespace RegisterRequest

variable {r : RegisterRequest} {s : Service}

/-- What is asked of a request. -/
structure IsValid (r : RegisterRequest) : Prop where
  id : ∃ id, r.id = some id ∧ ∀ segment ∈ id.segments, segment ≠ "" ∧ '/' ∉ segment.toList
  port : r.port.toNat ≤ 65535
  ttl : r.ttl ≠ 0
  distinct : (r.metadata.map (·.1)).Nodup
  keys : ∀ e ∈ r.metadata, e.1 ∉ ["", "hostname", "port", "ttl"]

def sorted (r : RegisterRequest) : RegisterRequest :=
  { r with metadata := r.metadata.mergeSort Dictionary.keyLe }

theorem toService_eq_ok_iff : r.toService = .ok s ↔ ∃ id, ServiceId.ofMessage r.id = .ok id ∧
    r.port.toNat < UInt16.size ∧ ∃ m, Metadata.ofEntries r.metadata = .ok m ∧
    Service.make id r.hostname r.port.toUInt16 r.ttl m = .ok s := by
  unfold toService
  by_cases hp : UInt16.size ≤ r.port.toNat
  · simp only [hp, ↓reduceIte, bind_eq_ok_iff]
    constructor
    · rintro ⟨_, -, _, ⟨⟩, -⟩
    · rintro ⟨_, -, hlt, -⟩
      exact absurd hp (Nat.not_le.2 hlt)
  · simp only [hp, ↓reduceIte, bind_eq_ok_iff, Nat.not_le.1 hp, true_and]

theorem isValid_of_toService (h : r.toService = .ok s) : r.IsValid := by
  obtain ⟨id, hid, hport, m, hm, hs⟩ := toService_eq_ok_iff.1 h
  obtain ⟨hid, hv⟩ := ServiceId.ofMessage_eq_ok_iff.1 hid
  obtain ⟨hd, rfl⟩ := Metadata.ofEntries_eq_ok_iff.1 hm
  obtain ⟨-, httl, hkeys, -⟩ := Service.make_eq_ok_iff.1 hs
  refine ⟨⟨id, hid, ServiceId.isValid_iff.1 hv⟩, Nat.le_of_lt_succ hport, httl, hd, fun e he => ?_⟩
  have hmem : e ∈ (Dictionary.ofList r.metadata).entries :=
    (Dictionary.perm_entries_ofList (List.pairwise_map.1 hd)).mem_iff.2 he
  obtain ⟨hres, hempty⟩ := hkeys e.1 (List.mem_map_of_mem hmem)
  simpa [reservedKeys, hempty] using hres

theorem IsValid.exists_toService (h : r.IsValid) :
    ∃ s, r.toService = .ok s ∧ s.toRequest = r.sorted := by
  obtain ⟨id, hid, hsegments⟩ := h.id
  have hdistinct := List.pairwise_map.1 h.distinct
  have hport : r.port.toUInt16.toUInt32 = r.port := by
    rw [← UInt32.toNat_inj, UInt16.toNat_toUInt32, UInt32.toNat_toUInt16]
    exact Nat.mod_eq_of_lt (Nat.lt_succ_of_le h.port)
  have hv : id.isValid = true := ServiceId.isValid_iff.2 hsegments
  have hmake : Service.make id r.hostname r.port.toUInt16 r.ttl (Dictionary.ofList r.metadata) =
      .ok ⟨id, r.hostname, r.port.toUInt16, r.ttl, Dictionary.ofList r.metadata⟩ := by
    refine Service.make_eq_ok_iff.2 ⟨hv, h.ttl, fun key hkey => ?_, rfl⟩
    obtain ⟨e, he, rfl⟩ := List.mem_map.1 hkey
    have hfree := h.keys e ((Dictionary.perm_entries_ofList hdistinct).mem_iff.1 he)
    simpa [reservedKeys, and_comm] using hfree
  refine ⟨_, toService_eq_ok_iff.2 ⟨id, ServiceId.ofMessage_eq_ok_iff.2 ⟨hid, hv⟩,
    Nat.lt_succ_of_le h.port, _, Metadata.ofEntries_eq_ok_iff.2 ⟨h.distinct, rfl⟩, hmake⟩, ?_⟩
  simp only [Service.toRequest, sorted, hport, hid, Dictionary.entries_ofList hdistinct]

end RegisterRequest

namespace Service

variable {id : ServiceId} {hostname : String} {port : UInt16} {ttl : UInt32} {m : Metadata}
  {s : Service}

theorem exists_toInfo_toRow (h : make id hostname port ttl m = .ok s) (isLocal : Bool) :
    ∃ info, s.toRow.toInfo isLocal = .ok info ∧ info.isLocal = isLocal ∧
      info.toService = .ok s := by
  obtain ⟨m, hm, -⟩ := (isFaithful_toRow h).exists_metadata
  obtain ⟨info, hinfo, hlocal, hservice⟩ := Row.toInfo_toService hm isLocal
  exact ⟨info, hinfo, hlocal, hservice.trans (toService_toRow h)⟩

theorem toService_toRequest (h : make id hostname port ttl m = .ok s) :
    s.toRequest.toService = .ok s := by
  obtain ⟨info, hinfo, -, hservice⟩ := exists_toInfo_toRow h true
  have hrequest : info.toRegisterRequest = s.toRequest := by
    have hm : s.toRow.metadata = .ok s.metadata := by
      simp [Row.metadata, toRow, Metadata.parse_stringObjectText]
    rw [Row.toInfo, hm] at hinfo
    cases hinfo
    rfl
  rwa [← hrequest]

end Service

/-- A request is accepted just if it is valid, and then nothing of it is lost. A service is the same
again after it was made a request, or a row of which a client was told. -/
theorem RegisterRequest.accepted_iff_isValid :
    (∀ r : RegisterRequest, ((∃ s, r.toService = .ok s) ↔ r.IsValid) ∧
      ∀ s, r.toService = .ok s → s.toRequest = r.sorted) ∧
    ∀ id hostname port ttl m s, Service.make id hostname port ttl m = .ok s →
      s.toRequest.toService = .ok s ∧
      ∀ isLocal, ∃ info, s.toRow.toInfo isLocal = .ok info ∧ info.isLocal = isLocal ∧
        info.toService = .ok s := by
  refine ⟨fun r => ⟨⟨?_, ?_⟩, fun s h => ?_⟩, fun id hostname port ttl m s h => ?_⟩
  · rintro ⟨s, h⟩
    exact isValid_of_toService h
  · intro h
    obtain ⟨s, hs, -⟩ := h.exists_toService
    exact ⟨s, hs⟩
  · obtain ⟨s', hs', hsorted⟩ := (isValid_of_toService h).exists_toService
    cases h.symm.trans hs'
    exact hsorted
  · exact ⟨Service.toService_toRequest h, Service.exists_toInfo_toRow h⟩

def RegisterRequest.unsorted : RegisterRequest :=
  ⟨some ⟨"node-1", "http", "web"⟩, "h", 80, 30, [("zone", "b"), ("tier", "a")]⟩

theorem RegisterRequest.accepted_iff_isValid_unsorted : ∃ s, unsorted.toService = .ok s ∧
    unsorted.IsValid ∧ s.toRequest = unsorted.sorted ∧
    s.toRequest.metadata = [("tier", "a"), ("zone", "b")] ∧ s.toRequest.toService = .ok s ∧
    ∃ info, s.toRow.toInfo true = .ok info ∧ info.isLocal = true ∧ info.toService = .ok s := by
  obtain ⟨hrequest, hservice⟩ := accepted_iff_isValid
  obtain ⟨hiff, hsorted⟩ := hrequest unsorted
  have hmake : Service.make ⟨"node-1", "http", "web"⟩ "h" 80 30
      (Dictionary.ofList [("zone", "b"), ("tier", "a")]) =
        .ok ⟨⟨"node-1", "http", "web"⟩, "h", 80, 30,
          Dictionary.ofList [("zone", "b"), ("tier", "a")]⟩ :=
    Service.make_eq_ok_iff.2 ⟨by decide, by decide, by decide +kernel, rfl⟩
  obtain ⟨hback, hinfo⟩ := hservice _ _ _ _ _ _ hmake
  exact ⟨_, hmake, hiff.1 ⟨_, hmake⟩, hsorted _ hmake, by decide +kernel, hback, hinfo true⟩

end ServiceDirectory
