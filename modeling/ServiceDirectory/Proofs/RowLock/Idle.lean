import ServiceDirectory.Proofs.RowLock.Line

/-! # Idle row locks

A claim that is let go takes the lock out of the table if it was the last one on it, a claim that is
given up never does. As long as a claim waits, another one has the lock and will let it go or leave
it to the next; but a claim that was handed the lock may be the last one. So the table holds the
lock of a row exactly if somebody claims the row, or if the latest claim on it to end was given up
when it had been handed the lock or had not come to wait yet (`History.Reachable.isKept`).
-/

namespace ServiceDirectory.RowLocks

variable {l : RowLocks} {task : Nat} {id : ServiceId} {c : Claim}

/-- Row locks, and for each id in which state the latest claim on its row to end was then. -/
structure History where
  locks : RowLocks
  ended : ServiceId → Option ClaimState

namespace History

variable {h h' : History}

def empty : History := ⟨.empty, fun _ => none⟩

def endClaim (h : History) (c : Claim) (l : RowLocks) : History :=
  ⟨l, Function.update h.ended c.id (some c.state)⟩

/-- What takes place at row locks. To let a lock go and to forget it is one step. -/
inductive Turn : History → History → Prop
  | request (h : History) (task : Nat) (id : ServiceId) :
    Turn h { h with locks := h.locks.request task id }
  | await {h : History} {task : Nat} {id : ServiceId} {c : Claim} :
    h.locks.find? task id = some c → c.state = .requested →
    Turn h { h with locks := h.locks.await task id }
  | take (h : History) (task : Nat) (id : ServiceId) :
    Turn h { h with locks := h.locks.take task id }
  | letGo {h : History} {c : Claim} : c ∈ h.locks.claims → c.state = .held →
    Turn h (h.endClaim c (h.locks.letGo c))
  | giveUp {h : History} {c : Claim} : c ∈ h.locks.claims → c.state ≠ .held →
    Turn h (h.endClaim c (h.locks.leave c))

def Reachable (h : History) : Prop := Relation.ReflTransGen Turn empty h

/-- The latest claim on the row to end was given up, and it did not wait behind another one. -/
def IsLeft (h : History) (id : ServiceId) : Prop :=
  h.ended id = some .requested ∨ h.ended id = some .granted

end History

def IsClaimed (l : RowLocks) (id : ServiceId) : Prop := ∃ c ∈ l.claims, c.id = id

/-! ## The table -/

theorem IsTabled.contains_of_mem (h : l.IsTabled) (hc : c ∈ l.claims) :
    l.table.contains c.id = true := by
  rw [Dictionary.contains, h.claim_lock c hc]
  rfl

theorem contains_request (l : RowLocks) (task : Nat) (id id' : ServiceId) :
    (l.request task id).table.contains id' = true ↔ l.table.contains id' = true ∨ id' = id := by
  unfold request
  split
  · next lock hf =>
    refine ⟨.inl, ?_⟩
    rintro (h | rfl)
    · exact h
    · simp [Dictionary.contains, hf]
  · by_cases hid : id' = id <;> simp [Dictionary.contains, Dictionary.find?_insert, hid]

theorem await_table (l : RowLocks) (task : Nat) (id : ServiceId) :
    (l.await task id).table = l.table := by
  unfold await
  split <;> rfl

theorem IsTabled.contains_forgetIdle (h : l.IsTabled) (id id' : ServiceId) :
    (l.forgetIdle id).table.contains id' = true ↔
      l.table.contains id' = true ∧ (id' = id → l.IsClaimed id) := by
  unfold RowLocks.forgetIdle
  split
  · next hf =>
    refine ⟨fun hc => ⟨hc, ?_⟩, And.left⟩
    rintro rfl
    rw [Dictionary.contains, hf] at hc
    cases hc
  · next lock hf =>
    have hany : l.claims.any (·.lock == lock) = true ↔ l.IsClaimed id := by
      rw [List.any_eq_true]
      refine exists_congr fun c => and_congr_right fun hc => ?_
      rw [beq_iff_eq, h.lock_eq_iff hc hf]
    split
    · next hc => exact ⟨fun ht => ⟨ht, fun _ => hany.1 hc⟩, And.left⟩
    · next hc =>
      rw [Dictionary.contains, Dictionary.find?_erase]
      by_cases hid : id' = id
      · simp [hid, ← hany, hc]
      · simp [hid, Dictionary.contains]

/-! ## The claims on a row -/

theorem isClaimed_iff_mem : l.IsClaimed id ↔ id ∈ l.claims.map Claim.id := by
  simp [IsClaimed]

theorem isClaimed_request (l : RowLocks) (task : Nat) (id id' : ServiceId) :
    (l.request task id).IsClaimed id' ↔ l.IsClaimed id' ∨ id' = id := by
  obtain ⟨lock, hc, -⟩ := l.exists_request task id
  rw [isClaimed_iff_mem, isClaimed_iff_mem, hc]
  simp

theorem isClaimed_await (l : RowLocks) (task : Nat) (id id' : ServiceId) :
    (l.await task id).IsClaimed id' ↔ l.IsClaimed id' := by
  unfold await
  split
  · rfl
  · next c hf =>
    have hp := (List.perm_cons_erase (mem_of_find? hf).1).map Claim.id
    rw [isClaimed_iff_mem, isClaimed_iff_mem, hp.mem_iff]
    simp [or_comm]

theorem isClaimed_take (l : RowLocks) (task : Nat) (id id' : ServiceId) :
    (l.take task id).IsClaimed id' ↔ l.IsClaimed id' := by
  rw [isClaimed_iff_mem, isClaimed_iff_mem, take_claims, List.map_map]
  rw [show Claim.id ∘ taken task id = Claim.id from funext taken_id]

theorem isClaimed_leave (l : RowLocks) (c : Claim) (id : ServiceId) :
    (l.leave c).IsClaimed id ↔ ∃ x ∈ l.claims.erase c, x.id = id := by
  have hm : (l.leave c).claims.map Claim.id = (l.claims.erase c).map Claim.id := by
    have hp := congrArg (List.map Prod.snd) (places_leave l c)
    rwa [List.map_map, List.map_map] at hp
  rw [isClaimed_iff_mem, hm]
  simp

theorem isClaimed_leave_of_ne (l : RowLocks) (hid : id ≠ c.id) :
    (l.leave c).IsClaimed id ↔ l.IsClaimed id := by
  rw [isClaimed_leave]
  refine exists_congr fun x => and_congr_left fun hx => ?_
  exact List.mem_erase_of_ne fun he => hid (he ▸ hx.symm)

/-- A claim that waits does not wait alone. -/
theorem InOrder.isClaimed_leave_of_waiting (h : l.InOrder) (hc : c ∈ l.claims)
    (hw : c.state = .waiting) : (l.leave c).IsClaimed c.id := by
  have hq : c ∈ l.queue c.id := mem_queue.2 ⟨hc, rfl, by rw [hw]; exact nofun⟩
  obtain ⟨d, hd, hid, ho⟩ := h.exists_owner (List.ne_nil_of_mem hq)
  have hne : d ≠ c := by
    rintro rfl
    rw [hw] at ho
    cases ho
  exact (isClaimed_leave l c c.id).2 ⟨d, (List.mem_erase_of_ne hne).2 hd, hid⟩

/-! ## Runs -/

namespace History

variable {h h' : History}

/-- The table has the lock of a row if somebody claims it or the last to claim it left it there. -/
def IsKept (h : History) : Prop :=
  ∀ id, h.locks.table.contains id = true ↔ h.locks.IsClaimed id ∨ h.IsLeft id

theorem Turn.locks (ht : Turn h h') : Relation.ReflTransGen RowLocks.Turn h.locks h'.locks := by
  cases ht with
  | request task id => exact .single (.request _ task id)
  | await hf hc => exact .single (.await hf hc)
  | take task id => exact .single (.take _ task id)
  | letGo hc hs => exact .tail (.single (.letGo hc hs)) (.forget _ _)
  | giveUp hc hs => exact .single (.giveUp hc hs)

theorem Reachable.locks (hr : h.Reachable) : h.locks.Reachable := by
  induction hr with
  | refl => exact .refl
  | tail _ ht ih => exact ih.trans ht.locks

theorem isKept_empty : empty.IsKept := fun _ =>
  iff_of_false (nomatch ·) (by rintro (⟨c, hc, -⟩ | h | h) <;> contradiction)

theorem IsKept.letGo (hk : h.IsKept) (ho : h.locks.InOrder) (hc : c ∈ h.locks.claims)
    (hs : c.state = .held) : (h.endClaim c (h.locks.letGo c)).IsKept := by
  intro id
  have hl := ho.tabled.leave c
  have hclaims : (h.locks.letGo c).IsClaimed id ↔ (h.locks.leave c).IsClaimed id := by
    rw [IsClaimed, RowLocks.letGo, forgetIdle_claims]
    rfl
  simp only [endClaim, IsLeft]
  rw [hclaims, RowLocks.letGo, hl.contains_forgetIdle]
  by_cases hid : id = c.id
  · subst hid
    have hin := ho.tabled.contains_of_mem hc
    simp only [Function.update_self, hs]
    change h.locks.table.contains c.id = true ∧ _ ↔ _
    simp [hin, IsClaimed]
  · rw [isClaimed_leave_of_ne _ hid, Function.update_of_ne hid]
    simp only [hid, false_imp_iff, and_true]
    exact hk id

/-- A claim that is given up leaves the lock in the table, and when it waited also a claim. -/
theorem IsKept.giveUp (hk : h.IsKept) (ho : h.locks.InOrder) (hc : c ∈ h.locks.claims)
    (hs : c.state ≠ .held) : (h.endClaim c (h.locks.leave c)).IsKept := by
  intro id
  simp only [endClaim, IsLeft]
  change h.locks.table.contains id = true ↔ _
  by_cases hid : id = c.id
  · subst hid
    refine iff_of_true (ho.tabled.contains_of_mem hc) ?_
    rw [Function.update_self]
    cases hst : c.state with
    | requested => exact .inr (.inl rfl)
    | waiting => exact .inl (ho.isClaimed_leave_of_waiting hc hst)
    | granted => exact .inr (.inr rfl)
    | held => exact absurd hst hs
  · rw [isClaimed_leave_of_ne _ hid, Function.update_of_ne hid]
    exact hk id

theorem Turn.isKept (ht : Turn h h') (ho : h.locks.InOrder) (hk : h.IsKept) : h'.IsKept := by
  cases ht with
  | request task id =>
    intro id'
    rw [contains_request, isClaimed_request, hk]
    exact or_right_comm
  | await hf hc =>
    intro id'
    rw [await_table, isClaimed_await]
    exact hk id'
  | take task id =>
    intro id'
    rw [isClaimed_take]
    exact hk id'
  | letGo hc hs => exact hk.letGo ho hc hs
  | giveUp hc hs => exact hk.giveUp ho hc hs

theorem Reachable.isKept (hr : h.Reachable) : h.IsKept := by
  induction hr with
  | refl => exact isKept_empty
  | tail hr ht ih => exact ht.isKept (Reachable.locks hr).inOrder ih

theorem Reachable.claim (hr : h.Reachable) (task : Nat) (id : ServiceId) :
    Reachable { h with locks := h.locks.claim task id } := by
  obtain ⟨lock, -, hf⟩ := h.locks.exists_request task id
  exact .tail (.tail hr (.request h task id)) (.await hf rfl)

end History

/-- The table forgets idle rows exactly if no row was left without claims by giving up a claim that
was not waiting. -/
theorem forgotten_iff {h : History} (hr : h.Reachable) :
    (∀ id, h.locks.table.contains id = true ↔ h.locks.IsClaimed id) ↔
      ∀ id, h.IsLeft id → h.locks.IsClaimed id := by
  refine forall_congr' fun id => ?_
  rw [hr.isKept id, or_iff_left_iff_imp]

/-- Task 0 lets a row go for which task 1 waits. -/
def handedOver (id : ServiceId) : History :=
  History.empty.endClaim ⟨0, id, 0, .held⟩
    (((empty.claim 0 id).claim 1 id).letGo ⟨0, id, 0, .held⟩)

theorem reachable_handedOver : (handedOver ⟨"n1", "chat", "rust"⟩).Reachable := by
  let id : ServiceId := ⟨"n1", "chat", "rust"⟩
  have hm := (History.Reachable.claim .refl 0 id).claim 1 id
  exact .tail hm (.letGo (by decide) rfl)

/-- As soon as task 1 lets the row go too, the table forgets it. -/
def passedOn (id : ServiceId) : History :=
  (handedOver id).endClaim ⟨1, id, 0, .held⟩
    (((handedOver id).locks.take 1 id).letGo ⟨1, id, 0, .held⟩)

theorem forgotten_passedOn :
    (passedOn ⟨"n1", "chat", "rust"⟩).Reachable ∧
      ∀ id, (passedOn ⟨"n1", "chat", "rust"⟩).locks.table.contains id = true ↔
        (passedOn ⟨"n1", "chat", "rust"⟩).locks.IsClaimed id := by
  have hr : (passedOn ⟨"n1", "chat", "rust"⟩).Reachable :=
    .tail (.tail reachable_handedOver (.take _ 1 _)) (.letGo (by decide) rfl)
  refine ⟨hr, (forgotten_iff hr).2 fun id hl => ?_⟩
  rcases hl with h | h <;>
    simp [passedOn, handedOver, History.endClaim, History.empty, Function.update] at h

/-- Task 1 is called off before it goes on. -/
def calledOff (id : ServiceId) : History :=
  (handedOver id).endClaim ⟨1, id, 0, .granted⟩
    ((handedOver id).locks.leave ⟨1, id, 0, .granted⟩)

/-- The table can hold the lock of a row that nobody claims. -/
theorem not_forall_forgotten : ¬ ∀ h : History, h.Reachable →
    ∀ id, h.locks.table.contains id = true ↔ h.locks.IsClaimed id := by
  intro hall
  have hr : (calledOff ⟨"n1", "chat", "rust"⟩).Reachable :=
    .tail reachable_handedOver (.giveUp (by decide) (by decide))
  obtain ⟨c, hc, -⟩ := (hall _ hr ⟨"n1", "chat", "rust"⟩).1 (by decide)
  have hnone : (calledOff ⟨"n1", "chat", "rust"⟩).locks.claims = [] := by decide
  rw [hnone] at hc
  cases hc

end ServiceDirectory.RowLocks
