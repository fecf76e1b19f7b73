import ServiceDirectory.Proofs.RowLock.Tabled

/-! # Exclusion at row locks

Tasks ask for rows, come to wait, are handed locks, let go and give up, in any order, and a lock is
forgotten in a step of its own after it was let go. The claims on a row that have come to wait stand
in a queue: the first of them has the lock, and all others wait (`InOrder`). So nobody shares a row,
although locks enter the table and leave it, and rows of different ids have nothing to do with each
other (`exclusive_of_reachable`).
-/

namespace ServiceDirectory.RowLocks

variable {l l' : RowLocks} {task lock : Nat} {id id' : ServiceId} {c : Claim}

def line (l : RowLocks) (id : ServiceId) : List Claim := l.claims.filter fun c => c.id = id

/-- The claims on the row of an id whose tasks have come to wait for it. -/
def queue (l : RowLocks) (id : ServiceId) : List Claim :=
  (l.line id).filter fun c => c.state != .requested

def InTurn : List Claim → Prop
  | [] => True
  | c :: r => c.state.owns = true ∧ ∀ x ∈ r, x.state = .waiting

structure InOrder (l : RowLocks) : Prop where
  tabled : l.IsTabled
  inTurn : ∀ id, InTurn (l.queue id)

theorem mem_line : c ∈ l.line id ↔ c ∈ l.claims ∧ c.id = id := by simp [line]

theorem mem_queue : c ∈ l.queue id ↔ c ∈ l.claims ∧ c.id = id ∧ c.state ≠ .requested := by
  simp [queue, mem_line, and_assoc]

theorem queue_eq_filter (l : RowLocks) (id : ServiceId) :
    l.queue id = l.claims.filter fun c => c.state != .requested && c.id = id := by
  rw [queue, line, List.filter_filter]

theorem ne_requested_of_owns (h : c.state.owns = true) : c.state ≠ .requested := by
  intro hs
  rw [hs] at h
  cases h

theorem inOrder_empty : empty.InOrder := ⟨isTabled_empty, fun _ => trivial⟩

namespace InTurn

variable {q : List Claim}

theorem head?_of_owns (h : InTurn q) (hc : c ∈ q) (ho : c.state.owns = true) :
    q.head? = some c := by
  cases q with
  | nil => cases hc
  | cons x r =>
    rcases List.mem_cons.1 hc with rfl | hr
    · rfl
    · rw [h.2 c hr] at ho
      cases ho

theorem length_owners_le_one (h : InTurn q) : (q.filter fun c => c.state.owns).length ≤ 1 := by
  cases q with
  | nil => exact Nat.zero_le 1
  | cons x r =>
    have hr : (r.filter fun c => c.state.owns) = [] := by
      refine List.filter_eq_nil_iff.2 fun c hc => ?_
      rw [h.2 c hc]
      exact Bool.false_ne_true
    rw [List.filter_cons, if_pos h.1, hr]
    exact le_rfl

theorem append (h : InTurn q) (hc : c.state = if q = [] then .held else .waiting) :
    InTurn (q ++ [c]) := by
  cases q with
  | nil => exact ⟨by rw [hc]; rfl, by simp⟩
  | cons x r =>
    refine ⟨h.1, fun y hy => ?_⟩
    rcases List.mem_append.1 hy with hy | hy
    · exact h.2 y hy
    · rw [List.mem_singleton.1 hy, hc]
      rfl

theorem erase (h : InTurn q) (ho : c.state.owns = false) : InTurn (q.erase c) := by
  cases q with
  | nil => trivial
  | cons x r =>
    have hne : x ≠ c := by
      rintro rfl
      rw [h.1] at ho
      cases ho
    rw [List.erase_cons_tail (by simpa using hne)]
    exact ⟨h.1, fun y hy => h.2 y (List.mem_of_mem_erase hy)⟩

end InTurn

theorem InOrder.isTaken_iff (h : l.InOrder) (hid : l.table.find? id = some lock) :
    l.isTaken lock = true ↔ l.queue id ≠ [] := by
  simp only [isTaken, List.any_eq_true, Bool.and_eq_true, beq_iff_eq]
  constructor
  · rintro ⟨c, hc, hl, ho⟩ hnil
    have hq : c ∈ l.queue id :=
      mem_queue.2 ⟨hc, (h.tabled.lock_eq_iff hc hid).1 hl, ne_requested_of_owns ho⟩
    rw [hnil] at hq
    cases hq
  · intro hne
    obtain ⟨c, r, hl⟩ := List.exists_cons_of_ne_nil hne
    have ht := h.inTurn id
    have hc : c ∈ l.queue id := hl ▸ List.mem_cons_self
    rw [hl] at ht
    obtain ⟨hm, hcid, -⟩ := mem_queue.1 hc
    exact ⟨c, hm, (h.tabled.lock_eq_iff hm hid).2 hcid, ht.1⟩

/-! ## Asking and coming to wait -/

theorem exists_request (l : RowLocks) (task : Nat) (id : ServiceId) :
    ∃ lock, (l.request task id).claims = l.claims ++ [⟨task, id, lock, .requested⟩] ∧
      (l.request task id).find? task id = some ⟨task, id, lock, .requested⟩ := by
  obtain ⟨lock, hc⟩ : ∃ lock,
      (l.request task id).claims = l.claims ++ [⟨task, id, lock, .requested⟩] := by
    unfold request
    split
    · next lock _ => exact ⟨lock, rfl⟩
    · exact ⟨l.next, rfl⟩
  exact ⟨lock, hc, by rw [find?, hc, List.filter_append]; simp [isClaim]⟩

theorem InOrder.request (h : l.InOrder) (task : Nat) (id : ServiceId) :
    (l.request task id).InOrder where
  tabled := h.tabled.request task id
  inTurn id' := by
    obtain ⟨lock, hc, -⟩ := l.exists_request task id
    have hq : (l.request task id).queue id' = l.queue id' := by
      rw [queue_eq_filter, queue_eq_filter, hc, List.filter_append]
      simp
    rw [hq]
    exact h.inTurn id'

theorem queue_erase (claims : List Claim) (hc : c.state = .requested ∨ c.id ≠ id) :
    (claims.erase c).filter (fun x => x.state != .requested && x.id = id) =
      claims.filter fun x => x.state != .requested && x.id = id := by
  rw [← List.erase_filter, List.erase_of_not_mem]
  rcases hc with hc | hc
  · simp [hc]
  · simp [hc]

theorem InOrder.queue_await (h : l.InOrder) (hf : l.find? task id = some c)
    (hc : c.state = .requested) (id' : ServiceId) : (l.await task id).queue id' =
      if id' = id then
        l.queue id ++ [{ c with state := if l.queue id = [] then .held else .waiting }]
      else l.queue id' := by
  obtain ⟨hm, -, rfl⟩ := mem_of_find? hf
  have htaken := h.isTaken_iff (h.tabled.claim_lock c hm)
  have hstate : (if l.isTaken c.lock then ClaimState.waiting else .held) =
      if l.queue c.id = [] then .held else .waiting := by
    by_cases hq : l.queue c.id = []
    · have hfree : l.isTaken c.lock = false := Bool.eq_false_iff.2 fun ht => htaken.1 ht hq
      simp [hfree, hq]
    · simp [htaken.2 hq, hq]
  have hne : (if l.queue c.id = [] then ClaimState.held else .waiting) ≠ .requested := by
    split <;> exact nofun
  unfold RowLocks.await
  simp only [hf]
  rw [hstate, queue_eq_filter, List.filter_append, queue_erase _ (.inl hc), ← queue_eq_filter]
  by_cases hid : id' = c.id
  · subst hid
    simp [hne]
  · simp [hid, Ne.symm hid]

theorem InOrder.await (h : l.InOrder) (hf : l.find? task id = some c)
    (hc : c.state = .requested) : (l.await task id).InOrder where
  tabled := h.tabled.await task id
  inTurn id' := by
    rw [h.queue_await hf hc]
    split
    · exact (h.inTurn id).append rfl
    · exact h.inTurn id'

/-! ## Taking a lock that was handed over -/

def taken (task : Nat) (id : ServiceId) (c : Claim) : Claim :=
  if isClaim task id c && c.state == .granted then { c with state := .held } else c

theorem take_claims (l : RowLocks) (task : Nat) (id : ServiceId) :
    (l.take task id).claims = l.claims.map (taken task id) := rfl

theorem taken_task (c : Claim) : (taken task id c).task = c.task := by unfold taken; split <;> rfl

theorem taken_id (c : Claim) : (taken task id c).id = c.id := by unfold taken; split <;> rfl

theorem taken_owns (c : Claim) : (taken task id c).state.owns = c.state.owns := by
  unfold taken
  split
  · next h =>
    simp only [Bool.and_eq_true, beq_iff_eq] at h
    rw [h.2]
    rfl
  · rfl

theorem taken_of_ne_granted (h : c.state ≠ .granted) : taken task id c = c := by
  simp [taken, h]

theorem taken_ne_requested (c : Claim) :
    ((taken task id c).state != .requested) = (c.state != .requested) := by
  unfold taken
  split
  · next h =>
    simp only [Bool.and_eq_true, beq_iff_eq] at h
    rw [h.2]
    rfl
  · rfl

theorem line_take (l : RowLocks) (task : Nat) (id id' : ServiceId) :
    (l.take task id).line id' = (l.line id').map (taken task id) := by
  simp only [line, take_claims, List.filter_map, Function.comp_def, taken_id]

theorem queue_take (l : RowLocks) (task : Nat) (id id' : ServiceId) :
    (l.take task id).queue id' = (l.queue id').map (taken task id) := by
  simp only [queue, line_take, List.filter_map, Function.comp_def, taken_ne_requested]

theorem InOrder.take (h : l.InOrder) (task : Nat) (id : ServiceId) : (l.take task id).InOrder where
  tabled := h.tabled.take task id
  inTurn id' := by
    have ht := h.inTurn id'
    rw [queue_take]
    cases hq : l.queue id' with
    | nil => trivial
    | cons c r =>
      rw [hq] at ht
      refine ⟨by rw [taken_owns]; exact ht.1, List.forall_mem_map.2 fun x hx => ?_⟩
      have hw := ht.2 x hx
      rw [taken_of_ne_granted (by rw [hw]; exact nofun)]
      exact hw

/-! ## Leaving the queue -/

theorem filter_passOn_of_ne {claims : List Claim} {p : Claim → Bool}
    (hne : ∀ c ∈ claims, c.lock = lock → p c = false ∧ p { c with state := .granted } = false) :
    (passOn lock claims).filter p = claims.filter p := by
  induction claims with
  | nil => rfl
  | cons c r ih =>
    unfold passOn
    split
    · next hc =>
      simp only [Bool.and_eq_true, beq_iff_eq] at hc
      obtain ⟨hp, hp'⟩ := hne c (.head _) hc.1
      simp [hp, hp']
    · rw [List.filter_cons, List.filter_cons, ih fun c hc => hne c (.tail _ hc)]

/-- Handing on a lock makes the first of those who wait its owner. -/
theorem inTurn_filter_passOn {claims : List Claim} {p : Claim → Bool}
    (hp : ∀ c ∈ claims, p c = true ↔ c.lock = lock ∧ c.state = .waiting)
    (hg : ∀ c : Claim, p c = true → p { c with state := .granted } = true) :
    InTurn ((passOn lock claims).filter p) := by
  induction claims with
  | nil => trivial
  | cons c r ih =>
    unfold passOn
    split
    · next hc =>
      simp only [Bool.and_eq_true, beq_iff_eq] at hc
      rw [List.filter_cons_of_pos (hg c ((hp c (.head _)).2 hc))]
      refine ⟨rfl, fun x hx => ?_⟩
      obtain ⟨hx, hpx⟩ := List.mem_filter.1 hx
      exact ((hp x (.tail _ hx)).1 hpx).2
    · next hc =>
      simp only [Bool.and_eq_true, beq_iff_eq] at hc
      rw [List.filter_cons_of_neg fun h => hc ((hp c (.head _)).1 h)]
      exact ih fun x hx => hp x (.tail _ hx)

theorem IsTabled.queue_leave_of_ne (h : l.IsTabled) (hc : c ∈ l.claims) (hid : c.id ≠ id') :
    (l.leave c).queue id' = l.queue id' := by
  rw [queue_eq_filter, queue_eq_filter, RowLocks.leave, ← queue_erase l.claims (.inr hid)]
  simp only
  split
  · apply filter_passOn_of_ne
    intro x hx hl
    have hxid := (h.lock_eq_iff (List.mem_of_mem_erase hx) (h.claim_lock c hc)).1 hl
    simp [hxid, hid]
  · rfl

/-- When the first of a queue leaves, those behind it all wait, and the next gets the lock. -/
theorem InOrder.inTurn_leave_of_owns (h : l.InOrder) (hc : c ∈ l.claims)
    (ho : c.state.owns = true) : InTurn ((l.leave c).queue c.id) := by
  have hmem : c ∈ l.queue c.id := mem_queue.2 ⟨hc, rfl, ne_requested_of_owns ho⟩
  have ht := h.inTurn c.id
  obtain ⟨r, hr⟩ := List.head?_eq_some_iff.1 (ht.head?_of_owns hmem ho)
  have hrest : (l.claims.erase c).filter (fun x => x.state != .requested && x.id = c.id) = r := by
    rw [← List.erase_filter, ← queue_eq_filter, hr, List.erase_cons_head]
  have hlock : ∀ x ∈ l.claims.erase c, (x.lock = c.lock ↔ x.id = c.id) := fun x hx =>
    h.tabled.lock_eq_iff (List.mem_of_mem_erase hx) (h.tabled.claim_lock c hc)
  rw [hr] at ht
  rw [queue_eq_filter, RowLocks.leave, if_pos ho]
  refine inTurn_filter_passOn (fun x hx => ?_) fun x hp => ?_
  · rw [hlock x hx]
    constructor
    · intro hp
      have hxr : x ∈ r := hrest ▸ List.mem_filter.2 ⟨hx, hp⟩
      simp only [Bool.and_eq_true, decide_eq_true_eq] at hp
      exact ⟨hp.2, ht.2 x hxr⟩
    · rintro ⟨hid, hs⟩
      simp [hid, hs]
  · simp only [Bool.and_eq_true, decide_eq_true_eq] at hp
    simp [hp.2]

theorem InOrder.inTurn_leave_of_not_owns (h : l.InOrder) (ho : c.state.owns = false)
    (id : ServiceId) : InTurn ((l.leave c).queue id) := by
  have hq : (l.leave c).queue id = (l.queue id).erase c := by
    rw [queue_eq_filter, queue_eq_filter, RowLocks.leave, if_neg (by simp [ho]), List.erase_filter]
  rw [hq]
  exact (h.inTurn id).erase ho

theorem InOrder.leave (h : l.InOrder) (hc : c ∈ l.claims) : (l.leave c).InOrder where
  tabled := h.tabled.leave c
  inTurn id := by
    cases ho : c.state.owns with
    | false => exact h.inTurn_leave_of_not_owns ho id
    | true =>
      by_cases hid : c.id = id
      · exact hid ▸ h.inTurn_leave_of_owns hc ho
      · rw [h.tabled.queue_leave_of_ne hc hid]
        exact h.inTurn id

theorem forgetIdle_claims (l : RowLocks) (id : ServiceId) :
    (l.forgetIdle id).claims = l.claims := by
  unfold forgetIdle
  split
  · rfl
  · split <;> rfl

theorem InOrder.forgetIdle (h : l.InOrder) (id : ServiceId) : (l.forgetIdle id).InOrder where
  tabled := h.tabled.forgetIdle id
  inTurn id' := by
    rw [queue, line, forgetIdle_claims]
    exact h.inTurn id'

/-! ## Any number of tasks -/

/-- What takes place at row locks. Looking a lock up, letting it go and forgetting it are steps on
their own. -/
inductive Turn : RowLocks → RowLocks → Prop
  | request (l : RowLocks) (task : Nat) (id : ServiceId) : Turn l (l.request task id)
  | await {l : RowLocks} {task : Nat} {id : ServiceId} {c : Claim} : l.find? task id = some c →
      c.state = .requested → Turn l (l.await task id)
  | take (l : RowLocks) (task : Nat) (id : ServiceId) : Turn l (l.take task id)
  | letGo {l : RowLocks} {c : Claim} : c ∈ l.claims → c.state = .held → Turn l (l.leave c)
  | giveUp {l : RowLocks} {c : Claim} : c ∈ l.claims → c.state ≠ .held → Turn l (l.leave c)
  | forget (l : RowLocks) (id : ServiceId) : Turn l (l.forgetIdle id)

def Reachable (l : RowLocks) : Prop := Relation.ReflTransGen Turn empty l

theorem Reachable.claim (h : l.Reachable) (task : Nat) (id : ServiceId) :
    (l.claim task id).Reachable := by
  obtain ⟨lock, -, hf⟩ := l.exists_request task id
  exact .tail (.tail h (.request l task id)) (.await hf rfl)

theorem Turn.inOrder (ht : Turn l l') (h : l.InOrder) : l'.InOrder := by
  cases ht with
  | request task id => exact h.request task id
  | await hf hc => exact h.await hf hc
  | take task id => exact h.take task id
  | letGo hc _ => exact h.leave hc
  | giveUp hc _ => exact h.leave hc
  | forget id => exact h.forgetIdle id

theorem Reachable.inOrder (h : l.Reachable) : l.InOrder := by
  induction h with
  | refl => exact inOrder_empty
  | tail _ ht ih => exact ht.inOrder ih

/-- Nobody shares a row, and nobody waits for a row but its own. -/
structure Exclusive (l : RowLocks) : Prop where
  length_owners_le_one (id : ServiceId) : ((l.line id).filter fun c => c.state.owns).length ≤ 1
  claim_lock : ∀ c ∈ l.claims, l.table.find? c.id = some c.lock
  id_eq_of_lock_eq : ∀ c ∈ l.claims, ∀ d ∈ l.claims, c.lock = d.lock → c.id = d.id
  exists_owner : ∀ c ∈ l.claims, c.state = .waiting →
    ∃ d ∈ l.claims, d.id = c.id ∧ d.lock = c.lock ∧ d.state.owns = true
  await_held : ∀ c ∈ l.claims, ∀ task id, l.find? task id = some c → c.state = .requested →
    (∀ d ∈ l.claims, d.id = id → d.state.owns = false) →
    { c with state := .held } ∈ (l.await task id).claims

theorem InOrder.length_owners_le_one (h : l.InOrder) (id : ServiceId) :
    ((l.line id).filter fun c => c.state.owns).length ≤ 1 := by
  have hq : (l.line id).filter (fun c => c.state.owns) =
      (l.queue id).filter fun c => c.state.owns := by
    rw [queue, List.filter_filter]
    refine List.filter_congr fun c _ => ?_
    cases c.state <;> rfl
  rw [hq]
  exact (h.inTurn id).length_owners_le_one

theorem InOrder.exists_owner (h : l.InOrder) (hne : l.queue id ≠ []) :
    ∃ d ∈ l.claims, d.id = id ∧ d.state.owns = true := by
  obtain ⟨d, r, hq⟩ := List.exists_cons_of_ne_nil hne
  have hd : d ∈ l.queue id := hq ▸ List.mem_cons_self
  have ht := h.inTurn id
  rw [hq] at ht
  exact ⟨d, (mem_queue.1 hd).1, (mem_queue.1 hd).2.1, ht.1⟩

theorem InOrder.exclusive (h : l.InOrder) : l.Exclusive where
  length_owners_le_one := h.length_owners_le_one
  claim_lock := h.tabled.claim_lock
  id_eq_of_lock_eq _ hc d hd := (h.tabled.lock_eq_iff hc (h.tabled.claim_lock d hd)).1
  exists_owner c hc hw := by
    have hq : c ∈ l.queue c.id := mem_queue.2 ⟨hc, rfl, by rw [hw]; exact nofun⟩
    obtain ⟨d, hd, hid, ho⟩ := h.exists_owner (List.ne_nil_of_mem hq)
    exact ⟨d, hd, hid, (h.tabled.lock_eq_iff hd (h.tabled.claim_lock c hc)).2 hid, ho⟩
  await_held c _ task id hf hr hfree := by
    have hnil : l.queue id = [] := by
      by_contra hne
      obtain ⟨d, hd, hid, ho⟩ := h.exists_owner hne
      rw [hfree d hd hid] at ho
      cases ho
    have hc : { c with state := .held } ∈ (l.await task id).queue id := by
      simp [h.queue_await hf hr, hnil]
    exact (mem_queue.1 hc).1

theorem exclusive_of_reachable (h : l.Reachable) : l.Exclusive := h.inOrder.exclusive

/-- Task 0 has a lock, 1 has looked it up, and 2 waits for it. -/
def meeting (id : ServiceId) : RowLocks := ((empty.claim 0 id).request 1 id).claim 2 id

/-- 0 lets the lock go and 2 is called off; the table keeps the lock, as 1 comes to wait only then.
The row of another id is free for 3. -/
def parting (id id' : ServiceId) : RowLocks :=
  let l := ((meeting id).leave ⟨0, id, 0, .held⟩).leave ⟨2, id, 0, .granted⟩
  ((l.forgetIdle id).await 1 id).claim 3 id'

theorem exclusive_of_reachable_parting :
    let id : ServiceId := ⟨"n1", "chat", "rust"⟩
    let id' : ServiceId := ⟨"n1", "chat", "lean"⟩
    let l := parting id id'
    l.Reachable ∧ l.claims = [⟨1, id, 0, .held⟩, ⟨3, id', 1, .held⟩] ∧ l.Exclusive := by
  intro id id' l
  have hl : l.Reachable := by
    have hm : (meeting id).Reachable :=
      .claim (.tail (Reachable.claim .refl 0 id) (.request _ 1 id)) 2 id
    have hp : (((meeting id).leave ⟨0, id, 0, .held⟩).leave ⟨2, id, 0, .granted⟩).Reachable :=
      .tail (.tail hm (.letGo (by decide) rfl)) (.giveUp (by decide) (by decide))
    exact .claim (.tail (.tail hp (.forget _ id)) (.await (c := ⟨1, id, 0, .requested⟩)
      (by decide) rfl)) 3 id'
  exact ⟨hl, by decide, exclusive_of_reachable hl⟩

end ServiceDirectory.RowLocks
