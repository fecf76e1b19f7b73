import ServiceDirectory.Proofs.Store.Leases

/-! # Keys that are bound to no lease

A store numbers its leases upwards from a number above zero (`IsUsed.isPositive`), and a key that is
bound to no lease is bound to the number zero. So the end of a lease never takes such a key, and it
stays as it is until it is written (`IsUsed.find?_serve`).
-/

namespace ServiceDirectory.Store

variable {s s' : Store} {now : Nat} {key value : Bytes} {x : Subject}

/-! ## Numbers of leases -/

/-- Leases are numbered upwards, so none is ever numbered zero. -/
structure IsPositive (s : Store) : Prop where
  lastLease : 0 ≤ s.lastLease
  leases : s.leases.find? 0 = none

theorem IsPositive.erase (h : s.IsPositive) (id : Int) : (s.release id).IsPositive := by
  refine ⟨h.lastLease, ?_⟩
  rw [release, Dictionary.find?_erase, h.leases, ite_self]

theorem IsPositive.insert (h : s.IsPositive) {id : Int} (hid : id ≠ 0) (l : Lease) :
    (s.leases.insert id l).find? 0 = none := by
  rw [Dictionary.find?_insert, if_neg hid.symm, h.leases]

theorem Effect.isPositive (h : Effect now x s s') (hs : s.IsPositive) : s'.IsPositive := by
  cases h with
  | expire _ _ => exact hs.erase _
  | revoke _ id => exact hs.erase id
  | grant _ =>
    have hlast := hs.lastLease
    exact ⟨by dsimp only; omega, hs.insert (by omega) _⟩
  | renew hl _ =>
    refine ⟨hs.lastLease, hs.insert ?_ _⟩
    rintro rfl
    cases hs.leases.symm.trans hl
  | count _ _ _ _ hlast => exact ⟨hs.lastLease.trans hlast, hs.leases⟩
  | _ => exact ⟨hs.lastLease, hs.leases⟩

theorem IsUsed.isPositive (h : s.IsUsed now) : s.IsPositive :=
  h.induct (P := fun _ s => s.IsPositive) (fun _ _ => ⟨Int.natCast_nonneg 7000, rfl⟩)
    (fun hs _ => hs) fun hs he => he.isPositive hs

/-! ## Keys -/

def IsUnbound (s : Store) (key : Bytes) : Prop :=
  ∀ kv, s.entries.find? key = some kv → kv.lease = 0

theorem IsUnbound.of_find? (h : s.IsUnbound key)
    (hf : s'.entries.find? key = s.entries.find? key) : s'.IsUnbound key :=
  fun kv hkv => h kv (hf ▸ hkv)

theorem IsUnbound.find?_dropLease (h : s.IsUnbound key) {id : Int}
    (hid : s.leases.find? 0 = none) :
    (s.dropLease id).entries.find? key = s.entries.find? key := by
  rw [find?_entries_dropLease]
  cases hf : s.entries.find? key with
  | none => rfl
  | some kv =>
    have hkeep : ¬ (s.leases.contains id = true ∧ 0 = id) := by
      rintro ⟨hc, rfl⟩
      simp [Dictionary.contains, hid] at hc
    simp only [Option.filter, h kv hf]
    simpa using hkeep

theorem IsUsed.find?_touch (h : s.IsUsed now) (hu : s.IsUnbound key) :
    (s.touch now).entries.find? key = s.entries.find? key := by
  rw [find?_entries_touch]
  cases hf : s.entries.find? key with
  | none => rfl
  | some kv =>
    have hzero : (0 : Int) ∉ s.expired now := fun hm => by
      obtain ⟨l, hl, -⟩ := mem_expired_iff.1 hm
      rw [h.isPositive.leases] at hl
      cases hl
    simp [Option.filter, hu kv hf, hzero]

theorem IsUsed.find?_serve (h : s.IsUsed now) (hu : s.IsUnbound key) {q : Request} {a : q.Answer}
    (hs : s.serve now q = some (a, s')) (hq : ∀ op ∈ q.operations, ¬ op.Writes key) :
    s'.entries.find? key = s.entries.find? key := by
  rcases leaves_serve hs hq with hl | hl
  · exact hl
  · exact hl.trans (h.find?_touch hu)

theorem IsUsed.find?_seed (h : s.IsUsed now) (hu : s.IsUnbound key) {key' : Bytes}
    (hne : key' ≠ key) (value : Bytes) (bound : Option Int) :
    (s.seed now key' value bound).entries.find? key = s.entries.find? key := by
  rw [Store.seed, (entries_write ..).1, Dictionary.find?_insert, if_neg hne.symm,
    h.find?_touch hu]

theorem IsUsed.find?_revoke (h : s.IsUsed now) (hu : s.IsUnbound key) (id : Int) :
    (s.revoke now id).entries.find? key = s.entries.find? key := by
  have ht := h.find?_touch hu
  exact ((hu.of_find? ht).find?_dropLease h.touch.isPositive.leases).trans ht

theorem IsUsed.find?_setAvailable (h : s.IsUsed now) (hu : s.IsUnbound key) (up : Bool) :
    (s.setAvailable now up).entries.find? key = s.entries.find? key := by
  unfold Store.setAvailable
  split
  · rfl
  · exact h.find?_touch hu

theorem find?_of_serve_put {a : (Request.put key value none).Answer}
    (hs : s.serve now (.put key value none) = some (a, s')) :
    a = .ok () ∧ ∃ revision, s'.entries.find? key = some ⟨key, value, revision, 0⟩ := by
  unfold serve at hs
  split at hs
  · cases hs
  · cases hs
    refine ⟨rfl, (s.touch now).revision + 1, ?_⟩
    rw [(entries_write ..).1, Dictionary.find?_insert, if_pos rfl]
    rfl

theorem lastLease_grant (s : Store) (now : Nat) (ttl : Int) :
    (s.grant now ttl).2.lastLease = (s.grant now ttl).1 := by
  unfold grant extend
  generalize s.touch now = s
  simp only
  split <;> rfl

theorem IsUsed.of_serve_grant (h : s.IsUsed now) {ttl : Int} {a : (Request.grant ttl).Answer}
    (hs : s.serve now (.grant ttl) = some (a, s')) :
    a = .ok s'.lastLease ∧ 0 < s'.lastLease := by
  have hpos : 0 ≤ (s.touch now).lastLease := h.touch.isPositive.lastLease
  have hid : (s.grant now ttl).1 = (s.touch now).lastLease + 1 := rfl
  unfold Store.serve at hs
  split at hs
  · cases hs
  · have hstore : (s.grant now ttl).2 = s' := congrArg Prod.snd (Option.some.inj hs)
    have hanswer : .ok (s.grant now ttl).1 = a := congrArg Prod.fst (Option.some.inj hs)
    rw [← hanswer, ← hstore, lastLease_grant, hid]
    exact ⟨rfl, by omega⟩

end ServiceDirectory.Store
