import Mathlib.Tactic
import ServiceDirectory.Proofs.Dictionary
import ServiceDirectory.RowLock

/-! # The table of row locks

A lock enters the table when it is first asked for and leaves it when nobody claims it. Whatever
happens in between, each lock in the table serves one id, and every claim is on the lock that the
table holds for its id (`IsTabled`).
-/

namespace ServiceDirectory.RowLocks

variable {l l' : RowLocks} {task lock : Nat} {id : ServiceId} {c : Claim}

structure IsTabled (l : RowLocks) : Prop where
  lock_lt : ∀ id lock, l.table.find? id = some lock → lock < l.next
  lock_injective : ∀ id id' lock, l.table.find? id = some lock → l.table.find? id' = some lock →
    id = id'
  claim_lock : ∀ c ∈ l.claims, l.table.find? c.id = some c.lock

theorem isTabled_empty : empty.IsTabled := ⟨nofun, nofun, nofun⟩

theorem mem_of_find? (h : l.find? task id = some c) : c ∈ l.claims ∧ c.task = task ∧ c.id = id := by
  simpa [isClaim] using List.mem_of_getLast? h

theorem mem_passOn {claims : List Claim} (hc : c ∈ passOn lock claims) : ∃ x ∈ claims,
    c.task = x.task ∧ c.id = x.id ∧ c.lock = x.lock ∧ (c.state = x.state ∨ c.state = .granted) := by
  induction claims with
  | nil => cases hc
  | cons x r ih =>
    unfold passOn at hc
    split at hc
    · rcases List.mem_cons.1 hc with rfl | hc
      · exact ⟨x, .head _, rfl, rfl, rfl, .inr rfl⟩
      · exact ⟨c, .tail _ hc, rfl, rfl, rfl, .inl rfl⟩
    · rcases List.mem_cons.1 hc with rfl | hc
      · exact ⟨c, .head _, rfl, rfl, rfl, .inl rfl⟩
      · obtain ⟨y, hy, he⟩ := ih hc
        exact ⟨y, .tail _ hy, he⟩

theorem mem_claims_of_mem_leave {x : Claim} (hx : x ∈ (l.leave c).claims) : ∃ y ∈ l.claims,
    x.task = y.task ∧ x.id = y.id ∧ x.lock = y.lock ∧ (x.state = y.state ∨ x.state = .granted) := by
  unfold leave at hx
  split at hx
  · obtain ⟨y, hy, he⟩ := mem_passOn hx
    exact ⟨y, List.mem_of_mem_erase hy, he⟩
  · exact ⟨x, List.mem_of_mem_erase hx, rfl, rfl, rfl, .inl rfl⟩

namespace IsTabled

variable (h : l.IsTabled)

include h

theorem lock_eq_iff (hc : c ∈ l.claims) (hid : l.table.find? id = some lock) :
    c.lock = lock ↔ c.id = id := by
  have hl := h.claim_lock c hc
  constructor
  · rintro rfl
    exact h.lock_injective _ _ _ hl hid
  · intro he
    rw [he, hid] at hl
    exact (Option.some.inj hl).symm

theorem of_claims (ht : l'.table = l.table) (hn : l'.next = l.next)
    (hc : ∀ c ∈ l'.claims, ∃ x ∈ l.claims, c.id = x.id ∧ c.lock = x.lock) : l'.IsTabled where
  lock_lt id lock hid := hn ▸ h.lock_lt id lock (ht ▸ hid)
  lock_injective id id' lock hid hid' := h.lock_injective id id' lock (ht ▸ hid) (ht ▸ hid')
  claim_lock c hmem := by
    obtain ⟨x, hx, hid, hl⟩ := hc c hmem
    rw [ht, hid, hl]
    exact h.claim_lock x hx

theorem request (task : Nat) (id : ServiceId) : (l.request task id).IsTabled := by
  unfold RowLocks.request
  split
  · next lock hf =>
    refine ⟨h.lock_lt, h.lock_injective, fun c hc => ?_⟩
    rcases List.mem_append.1 hc with hc | hc
    · exact h.claim_lock c hc
    · rw [List.mem_singleton.1 hc]
      exact hf
  · next hf =>
    have hnew : ∀ id', l.table.find? id' ≠ some l.next := fun id' hid' =>
      Nat.lt_irrefl _ (h.lock_lt id' _ hid')
    refine ⟨fun id' lock hid' => ?_, fun a b lock ha hb => ?_, fun c hc => ?_⟩
    · rw [Dictionary.find?_insert] at hid'
      split at hid'
      · exact Option.some.inj hid' ▸ Nat.lt_succ_self _
      · exact Nat.lt_succ_of_lt (h.lock_lt id' lock hid')
    · rw [Dictionary.find?_insert] at ha hb
      split at ha <;> split at hb
      · next hida hidb => rw [hida, hidb]
      · exact absurd (hb.trans ha.symm) (hnew b)
      · exact absurd (ha.trans hb.symm) (hnew a)
      · exact h.lock_injective a b lock ha hb
    · rw [Dictionary.find?_insert]
      rcases List.mem_append.1 hc with hc | hc
      · have hl := h.claim_lock c hc
        have hne : c.id ≠ id := fun hid => by cases (hid ▸ hl).symm.trans hf
        rw [if_neg hne]
        exact hl
      · rw [List.mem_singleton.1 hc]
        exact if_pos rfl

theorem await (task : Nat) (id : ServiceId) : (l.await task id).IsTabled := by
  unfold RowLocks.await
  split
  · exact h
  · next c hf =>
    refine h.of_claims rfl rfl fun x hx => ?_
    rcases List.mem_append.1 hx with hx | hx
    · exact ⟨x, List.mem_of_mem_erase hx, rfl, rfl⟩
    · exact ⟨c, (mem_of_find? hf).1, by rw [List.mem_singleton.1 hx],
        by rw [List.mem_singleton.1 hx]⟩

theorem take (task : Nat) (id : ServiceId) : (l.take task id).IsTabled := by
  refine h.of_claims rfl rfl fun c hc => ?_
  obtain ⟨x, hx, rfl⟩ := List.mem_map.1 hc
  refine ⟨x, hx, ?_⟩
  split <;> exact ⟨rfl, rfl⟩

theorem leave (c : Claim) : (l.leave c).IsTabled :=
  h.of_claims rfl rfl fun _ hx =>
    let ⟨y, hy, _, hid, hl, _⟩ := mem_claims_of_mem_leave hx
    ⟨y, hy, hid, hl⟩

theorem forgetIdle (id : ServiceId) : (l.forgetIdle id).IsTabled := by
  unfold RowLocks.forgetIdle
  split
  · exact h
  · next lock hf =>
    split
    · exact h
    · next hidle =>
      have hkept : ∀ {id' lock'}, (l.table.erase id).find? id' = some lock' →
          l.table.find? id' = some lock' := fun hid' => by
        rw [Dictionary.find?_erase] at hid'
        split at hid'
        · cases hid'
        · exact hid'
      refine ⟨fun id' lock' hid' => h.lock_lt id' lock' (hkept hid'),
        fun a b lock' ha hb => h.lock_injective a b lock' (hkept ha) (hkept hb), fun c hc => ?_⟩
      have hne : c.id ≠ id := fun hid =>
        hidle (List.any_eq_true.2 ⟨c, hc, beq_iff_eq.2 ((h.lock_eq_iff hc hf).2 hid)⟩)
      rw [Dictionary.find?_erase, if_neg hne]
      exact h.claim_lock c hc

end IsTabled

end ServiceDirectory.RowLocks
