import ServiceDirectory.Proofs.RowLock.Exclusion

/-! # Lines at row locks

The claims on the row of an id stand in a line. In a sound state the first of them owns the lock and
all others wait, so a task owns the row of an id exactly if it is the first in line (`owns_iff`). A
task that claims a row comes to the end of the line, and one that lets go or is called off leaves
its lines; nobody else moves.
-/

namespace ServiceDirectory.RowLocks

variable {l : RowLocks} {task lock : Nat} {id id' : ServiceId} {c : Claim}

def order (l : RowLocks) (id : ServiceId) : List Nat := (l.line id).map Claim.task

def DistinctClaims (claims : List Claim) : Prop :=
  claims.Pairwise fun a b => ¬ (a.task = b.task ∧ a.id = b.id)

structure Sound (l : RowLocks) : Prop where
  lock_lt : ∀ id lock, l.table.find? id = some lock → lock < l.next
  lock_injective : ∀ id id' lock, l.table.find? id = some lock → l.table.find? id' = some lock →
    id = id'
  claim_lock : ∀ c ∈ l.claims, l.table.find? c.id = some c.lock
  distinct : DistinctClaims l.claims
  inTurn : ∀ id, InTurn (l.line id)

theorem mem_order_iff : task ∈ l.order id ↔ ∃ c ∈ l.claims, c.task = task ∧ c.id = id := by
  simp only [order, List.mem_map, mem_line]
  constructor
  · rintro ⟨c, ⟨hc, hid⟩, ht⟩
    exact ⟨c, hc, ht, hid⟩
  · rintro ⟨c, hc, ht, hid⟩
    exact ⟨c, ⟨hc, hid⟩, ht⟩

theorem sound_empty : empty.Sound where
  lock_lt _ _ h := by cases h
  lock_injective _ _ _ h := by cases h
  claim_lock _ h := by cases h
  distinct := .nil
  inTurn _ := trivial

namespace Sound

variable (h : l.Sound)

include h

theorem isTabled : l.IsTabled := ⟨h.lock_lt, h.lock_injective, h.claim_lock⟩

theorem ne_requested (hc : c ∈ l.claims) : c.state ≠ .requested := by
  have hm : c ∈ l.line c.id := mem_line.2 ⟨hc, rfl⟩
  have ht := h.inTurn c.id
  cases hl : l.line c.id with
  | nil =>
    rw [hl] at hm
    cases hm
  | cons x r =>
    rw [hl] at hm ht
    rcases List.mem_cons.1 hm with rfl | hr
    · exact ne_requested_of_owns ht.1
    · rw [ht.2 c hr]
      exact nofun

theorem queue_eq_line (id : ServiceId) : l.queue id = l.line id :=
  List.filter_eq_self.2 fun _ hc => bne_iff_ne.2 (h.ne_requested (mem_line.1 hc).1)

theorem inOrder : l.InOrder := ⟨h.isTabled, fun id => h.queue_eq_line id ▸ h.inTurn id⟩

theorem eq_of_task_id {a b : Claim} (ha : a ∈ l.claims) (hb : b ∈ l.claims)
    (ht : a.task = b.task) (hid : a.id = b.id) : a = b := by
  by_contra hne
  have : Std.Symm fun a b : Claim => ¬ (a.task = b.task ∧ a.id = b.id) :=
    ⟨fun _ _ hn he => hn ⟨he.1.symm, he.2.symm⟩⟩
  exact h.distinct.forall ha hb hne ⟨ht, hid⟩

theorem find?_eq_some_iff :
    l.find? task id = some c ↔ c ∈ l.claims ∧ c.task = task ∧ c.id = id := by
  refine ⟨mem_of_find?, fun ⟨hc, ht, hid⟩ => ?_⟩
  cases hf : l.find? task id with
  | none =>
    have hm : c ∈ l.claims.filter (isClaim task id) :=
      List.mem_filter.2 ⟨hc, by simp [isClaim, ht, hid]⟩
    rw [find?, List.getLast?_eq_none_iff] at hf
    rw [hf] at hm
    cases hm
  | some c' =>
    obtain ⟨hc', ht', hid'⟩ := mem_of_find? hf
    rw [h.eq_of_task_id hc' hc (ht'.trans ht.symm) (hid'.trans hid.symm)]

theorem find?_eq_none_iff : l.find? task id = none ↔ task ∉ l.order id := by
  rw [mem_order_iff]
  constructor
  · rintro hf ⟨c, hc⟩
    rw [h.find?_eq_some_iff.2 hc] at hf
    cases hf
  · intro hno
    cases hf : l.find? task id with
    | none => rfl
    | some c => exact absurd ⟨c, h.find?_eq_some_iff.1 hf⟩ hno

theorem owns_claim_iff (hc : c ∈ l.claims) :
    c.state.owns = true ↔ (l.line c.id).head? = some c := by
  constructor
  · exact (h.inTurn c.id).head?_of_owns (mem_line.2 ⟨hc, rfl⟩)
  · intro hx
    obtain ⟨r, hr⟩ := List.head?_eq_some_iff.1 hx
    have ht := h.inTurn c.id
    rw [hr] at ht
    exact ht.1

theorem owns_iff : l.owns task id = true ↔ (l.order id).head? = some task := by
  unfold owns
  rw [Option.any_eq_true]
  constructor
  · rintro ⟨c, hf, ho⟩
    obtain ⟨hc, rfl, rfl⟩ := h.find?_eq_some_iff.1 hf
    rw [order, List.head?_map, (h.owns_claim_iff hc).1 ho]
    rfl
  · intro ho
    rw [order, List.head?_map] at ho
    obtain ⟨c, hc, rfl⟩ := Option.map_eq_some_iff.1 ho
    obtain ⟨hm, rfl⟩ := mem_line.1 (List.mem_of_head? hc)
    exact ⟨c, h.find?_eq_some_iff.2 ⟨hm, rfl, rfl⟩, (h.owns_claim_iff hm).2 hc⟩

end Sound

/-- Locks in order are sound if no task asks twice for a row and all have come to wait. -/
theorem InOrder.sound (h : l.InOrder) (hd : DistinctClaims l.claims)
    (hc : ∀ c ∈ l.claims, c.state ≠ .requested) : l.Sound where
  lock_lt := h.tabled.lock_lt
  lock_injective := h.tabled.lock_injective
  claim_lock := h.tabled.claim_lock
  distinct := hd
  inTurn id := by
    have hq : l.queue id = l.line id :=
      List.filter_eq_self.2 fun c hm => bne_iff_ne.2 (hc c (mem_line.1 hm).1)
    exact hq ▸ h.inTurn id

/-! ## Coming to the end of the line -/

theorem claims_claim (hn : task ∉ l.order id) : ∃ lock state, state ≠ .requested ∧
    (l.claim task id).claims = l.claims ++ [⟨task, id, lock, state⟩] := by
  obtain ⟨lock, hc, hf⟩ := l.exists_request task id
  have hnot : (⟨task, id, lock, .requested⟩ : Claim) ∉ l.claims := fun hm =>
    hn (mem_order_iff.2 ⟨_, hm, rfl, rfl⟩)
  refine ⟨lock, if (l.request task id).isTaken lock then .waiting else .held,
    by split <;> exact nofun, ?_⟩
  unfold claim await
  simp only [hf, hc]
  rw [List.erase_append_right _ hnot]
  simp

theorem order_claim (hn : task ∉ l.order id) (id' : ServiceId) :
    (l.claim task id).order id' = if id' = id then l.order id ++ [task] else l.order id' := by
  obtain ⟨lock, state, -, hc⟩ := claims_claim hn
  rw [order, line, hc, List.filter_append, List.map_append]
  by_cases hid : id' = id
  · subst hid
    simp [order, line]
  · simp [order, line, hid, Ne.symm hid]

theorem Sound.claim (h : l.Sound) (hn : task ∉ l.order id) : (l.claim task id).Sound := by
  obtain ⟨lock, -, hf⟩ := l.exists_request task id
  obtain ⟨lock', state, hs, hc⟩ := claims_claim hn
  refine ((h.inOrder.request task id).await hf rfl).sound ?_ ?_
  · change DistinctClaims (l.claim task id).claims
    rw [hc]
    refine List.pairwise_append.2 ⟨h.distinct, List.pairwise_singleton _ _, fun a ha b hb hab => ?_⟩
    rw [List.mem_singleton.1 hb] at hab
    exact hn (mem_order_iff.2 ⟨a, ha, hab⟩)
  · change ∀ c ∈ (l.claim task id).claims, c.state ≠ .requested
    rw [hc]
    intro c hm
    rcases List.mem_append.1 hm with hm | hm
    · exact h.ne_requested hm
    · rw [List.mem_singleton.1 hm]
      exact hs

theorem order_take (l : RowLocks) (task : Nat) (id id' : ServiceId) :
    (l.take task id).order id' = l.order id' := by
  rw [order, order, line_take, List.map_map]
  exact List.map_congr_left fun c _ => taken_task c

theorem Sound.take (h : l.Sound) (task : Nat) (id : ServiceId) : (l.take task id).Sound := by
  refine (h.inOrder.take task id).sound ?_ fun c hc => ?_
  · rw [take_claims, DistinctClaims, List.pairwise_map]
    have hd := h.distinct
    rw [DistinctClaims] at hd
    simpa only [taken_task, taken_id] using hd
  · rw [take_claims] at hc
    obtain ⟨x, hx, rfl⟩ := List.mem_map.1 hc
    exact bne_iff_ne.1 ((taken_ne_requested x).trans (bne_iff_ne.2 (h.ne_requested hx)))

/-! ## Leaving the line -/

theorem mem_passOn_of_lock_ne {claims : List Claim} (hc : c ∈ claims) (hl : c.lock ≠ lock) :
    c ∈ passOn lock claims := by
  induction claims with
  | nil => cases hc
  | cons x r ih =>
    unfold passOn
    split
    · next hx =>
      simp only [Bool.and_eq_true, beq_iff_eq] at hx
      rcases List.mem_cons.1 hc with rfl | hc
      · exact absurd hx.1 hl
      · exact .tail _ hc
    · rcases List.mem_cons.1 hc with rfl | hc
      · exact .head _
      · exact .tail _ (ih hc)

theorem map_passOn {α : Type} (f : Claim → α)
    (hf : ∀ c : Claim, f { c with state := .granted } = f c) (lock : Nat) (claims : List Claim) :
    (passOn lock claims).map f = claims.map f := by
  induction claims with
  | nil => rfl
  | cons c r ih =>
    unfold passOn
    split
    · rw [List.map_cons, List.map_cons, hf]
    · rw [List.map_cons, List.map_cons, ih]

def place (c : Claim) : Nat × ServiceId := (c.task, c.id)

theorem distinctClaims_iff {claims : List Claim} :
    DistinctClaims claims ↔ (claims.map place).Nodup := by
  rw [DistinctClaims, List.Nodup, List.pairwise_map]
  simp [place]

theorem order_eq_places (l : RowLocks) (id : ServiceId) :
    l.order id = ((l.claims.map place).filter fun p => p.2 = id).map Prod.fst := by
  rw [List.filter_map, List.map_map]
  rfl

theorem places_leave (l : RowLocks) (c : Claim) :
    (l.leave c).claims.map place = (l.claims.erase c).map place := by
  unfold leave
  split
  · exact map_passOn place (fun _ => rfl) _ _
  · rfl

theorem Sound.nodup_claims (h : l.Sound) : l.claims.Nodup :=
  (distinctClaims_iff.1 h.distinct).of_map

theorem Sound.order_leave (h : l.Sound) (hc : c ∈ l.claims) (id' : ServiceId) :
    (l.leave c).order id' =
      if id' = c.id then (l.order id').filter (· ≠ c.task) else l.order id' := by
  have herase : l.claims.erase c = l.claims.filter (· ≠ c) := by
    rw [h.nodup_claims.erase_eq_filter]
    congr 1
    funext x
    by_cases hx : x = c <;> simp [hx]
  rw [order_eq_places, places_leave,
    ← order_eq_places (⟨l.table, l.next, l.claims.erase c⟩ : RowLocks), order, line, herase,
    List.filter_filter]
  split
  · next hid =>
    rw [order, line, List.filter_map, List.filter_filter]
    congr 1
    apply List.filter_congr
    intro x hx
    by_cases hxid : x.id = id'
    · have hne : x ≠ c ↔ x.task ≠ c.task := by
        constructor
        · intro hne ht
          exact hne (h.eq_of_task_id hx hc ht (hxid.trans hid))
        · rintro hne rfl
          exact hne rfl
      simp [hxid, hne]
    · simp [hxid]
  · next hid =>
    rw [order, line]
    congr 1
    apply List.filter_congr
    intro x hx
    by_cases hxid : x.id = id'
    · have hne : x ≠ c := fun he => hid (he ▸ hxid).symm
      simp [hxid, hne]
    · simp [hxid]

theorem Sound.mem_leave_of_id_ne (h : l.Sound) (hc : c ∈ l.claims) {x : Claim} (hx : x ∈ l.claims)
    (hid : x.id ≠ c.id) : x ∈ (l.leave c).claims := by
  have hne : x ≠ c := fun he => hid (he ▸ rfl)
  have hxe : x ∈ l.claims.erase c := (List.mem_erase_of_ne hne).2 hx
  unfold leave
  split
  · exact mem_passOn_of_lock_ne hxe fun hl =>
      hid ((h.isTabled.lock_eq_iff hx (h.claim_lock c hc)).1 hl)
  · exact hxe

theorem Sound.leave (h : l.Sound) (hc : c ∈ l.claims) : (l.leave c).Sound := by
  refine (h.inOrder.leave hc).sound ?_ fun x hx => ?_
  · rw [distinctClaims_iff, places_leave, ← distinctClaims_iff]
    exact h.distinct.sublist List.erase_sublist
  · obtain ⟨y, hy, -, -, -, hs⟩ := mem_claims_of_mem_leave hx
    rcases hs with hs | hs
    · exact hs ▸ h.ne_requested hy
    · rw [hs]
      exact nofun

theorem order_forgetIdle (l : RowLocks) (id id' : ServiceId) :
    (l.forgetIdle id).order id' = l.order id' := by
  rw [order, order, line, line, forgetIdle_claims]

theorem Sound.forgetIdle (h : l.Sound) (id : ServiceId) : (l.forgetIdle id).Sound := by
  have hc := l.forgetIdle_claims id
  exact (h.inOrder.forgetIdle id).sound (hc ▸ h.distinct) (hc ▸ fun _ => h.ne_requested)

theorem Sound.letGo (h : l.Sound) (hc : c ∈ l.claims) : (l.letGo c).Sound :=
  (h.leave hc).forgetIdle c.id

theorem Sound.order_letGo (h : l.Sound) (hc : c ∈ l.claims) (id' : ServiceId) :
    (l.letGo c).order id' =
      if id' = c.id then (l.order id').filter (· ≠ c.task) else l.order id' := by
  rw [RowLocks.letGo, order_forgetIdle, h.order_leave hc]

theorem filter_ne_of_not_mem {ts : List Nat} (h : task ∉ ts) : ts.filter (· ≠ task) = ts :=
  List.filter_eq_self.2 fun t ht => by simpa using fun (he : t = task) => h (he ▸ ht)

theorem Sound.release (h : l.Sound) (task : Nat) (id : ServiceId) : (l.release task id).Sound := by
  unfold RowLocks.release
  cases hf : l.find? task id with
  | none => exact h
  | some c => exact h.letGo (h.find?_eq_some_iff.1 hf).1

theorem Sound.order_release (h : l.Sound) (task : Nat) (id id' : ServiceId) :
    (l.release task id).order id' =
      if id' = id then (l.order id').filter (· ≠ task) else l.order id' := by
  unfold RowLocks.release
  cases hf : l.find? task id with
  | none =>
    have hn := h.find?_eq_none_iff.1 hf
    by_cases hid : id' = id
    · subst hid
      rw [if_pos rfl, filter_ne_of_not_mem hn]
    · rw [if_neg hid]
  | some c =>
    obtain ⟨hc, rfl, rfl⟩ := h.find?_eq_some_iff.1 hf
    exact h.order_letGo hc id'

theorem foldl_leaving (leaving : RowLocks → Claim → RowLocks)
    (hsound : ∀ l c, Sound l → c ∈ l.claims → (leaving l c).Sound)
    (horder : ∀ l c, Sound l → c ∈ l.claims → ∀ id', (leaving l c).order id' =
      if id' = c.id then (l.order id').filter (· ≠ c.task) else l.order id')
    (hstay : ∀ l c x, Sound l → c ∈ l.claims → x ∈ l.claims → x.id ≠ c.id →
      x ∈ (leaving l c).claims)
    (cs : List Claim) {l : RowLocks} (h : l.Sound) (hcs : ∀ c ∈ cs, c ∈ l.claims)
    (hne : cs.Pairwise fun a b => a.id ≠ b.id) (htask : ∀ c ∈ cs, c.task = task) :
    (cs.foldl leaving l).Sound ∧
      (∀ id', (cs.foldl leaving l).order id' =
        if ∃ c ∈ cs, c.id = id' then (l.order id').filter (· ≠ task) else l.order id') ∧
      ∀ x ∈ l.claims, (∀ c ∈ cs, x.id ≠ c.id) → x ∈ (cs.foldl leaving l).claims := by
  induction cs generalizing l with
  | nil => exact ⟨h, fun id' => by simp, fun x hx _ => hx⟩
  | cons c cs ih =>
    obtain ⟨hc, hne⟩ := List.pairwise_cons.1 hne
    have hmem := hcs c (.head _)
    have hl := hsound l c h hmem
    have hrest : ∀ x ∈ cs, x ∈ (leaving l c).claims := fun x hx =>
      hstay l c x h hmem (hcs x (.tail _ hx)) (Ne.symm (hc x hx))
    obtain ⟨hs, ho, hm⟩ := ih hl hrest hne fun x hx => htask x (.tail _ hx)
    refine ⟨hs, fun id' => ?_, fun x hx hxid => ?_⟩
    · rw [List.foldl_cons, ho, horder l c h hmem, htask c (.head _)]
      by_cases hid : id' = c.id
      · have hno : ¬ ∃ x ∈ cs, x.id = id' := fun ⟨x, hx, hxid⟩ => hc x hx (hid ▸ hxid).symm
        rw [if_neg hno]
        simp [hid]
      · simp [hid, Ne.symm hid]
    · exact hm x (hstay l c x h hmem hx (hxid c (.head _))) fun y hy => hxid y (.tail _ hy)

theorem Sound.mem_letGo_of_id_ne (h : l.Sound) (hc : c ∈ l.claims) {x : Claim} (hx : x ∈ l.claims)
    (hid : x.id ≠ c.id) : x ∈ (l.letGo c).claims := by
  rw [RowLocks.letGo, forgetIdle_claims]
  exact h.mem_leave_of_id_ne hc hx hid

theorem Sound.pairwise_id (h : l.Sound) (task : Nat) :
    (l.claims.filter (·.task == task)).Pairwise fun a b => a.id ≠ b.id := by
  refine List.Pairwise.imp_of_mem ?_ (h.distinct.filter _)
  intro a b ha hb hab hid
  have ha' : a.task = task := by simpa using (List.mem_filter.1 ha).2
  have hb' : b.task = task := by simpa using (List.mem_filter.1 hb).2
  exact hab ⟨ha'.trans hb'.symm, hid⟩

theorem exists_mem_filter_or (cs : List Claim) (p : Claim → Bool) (id : ServiceId) :
    ((∃ c ∈ cs.filter (not ∘ p), c.id = id) ∨ ∃ c ∈ cs.filter p, c.id = id) ↔
      ∃ c ∈ cs, c.id = id := by
  constructor
  · rintro (⟨c, hc, hid⟩ | ⟨c, hc, hid⟩)
    · exact ⟨c, List.mem_of_mem_filter hc, hid⟩
    · exact ⟨c, List.mem_of_mem_filter hc, hid⟩
  · rintro ⟨c, hc, hid⟩
    cases hp : p c with
    | true => exact .inr ⟨c, List.mem_filter.2 ⟨hc, hp⟩, hid⟩
    | false => exact .inl ⟨c, List.mem_filter.2 ⟨hc, by simp [hp]⟩, hid⟩

theorem filter_ne_of_parts (p q : Prop) [Decidable p] [Decidable q] (ts : List Nat) :
    (if q then (if p then ts.filter (· ≠ task) else ts).filter (· ≠ task)
      else if p then ts.filter (· ≠ task) else ts) =
      if p ∨ q then ts.filter (· ≠ task) else ts := by
  by_cases hp : p
  · by_cases hq : q <;> simp [hp, hq, List.filter_filter]
  · by_cases hq : q <;> simp [hp, hq]

theorem Sound.drop (h : l.Sound) (task : Nat) : (l.drop task).Sound ∧
    ∀ id, (l.drop task).order id = (l.order id).filter (· ≠ task) := by
  have hmine : ∀ c ∈ l.claims.filter (·.task == task), c ∈ l.claims ∧ c.task = task := by
    intro c hc
    simpa using hc
  have hne := h.pairwise_id task
  unfold RowLocks.drop
  rw [List.partition_eq_filter_filter]
  generalize hmy : l.claims.filter (·.task == task) = mine at hmine hne
  obtain ⟨hs, ho, hm⟩ := foldl_leaving RowLocks.leave
    (fun _ _ h hc => h.leave hc) (fun _ _ h hc => h.order_leave hc)
    (fun _ _ _ h hc hx => h.mem_leave_of_id_ne hc hx) (mine.filter (not ∘ (·.state == .held))) h
    (fun c hc => (hmine c (List.mem_of_mem_filter hc)).1) (hne.filter _)
    fun c hc => (hmine c (List.mem_of_mem_filter hc)).2
  -- what is held is still claimed after the rest was given up
  have hstay : ∀ c ∈ mine.filter (·.state == .held),
      c ∈ ((mine.filter (not ∘ (·.state == .held))).foldl RowLocks.leave l).claims := by
    intro c hc
    obtain ⟨hc, hheld⟩ := List.mem_filter.1 hc
    apply hm c (hmine c hc).1
    intro x hx hid
    obtain ⟨hx, hnot⟩ := List.mem_filter.1 hx
    obtain rfl := h.eq_of_task_id (hmine c hc).1 (hmine x hx).1
      ((hmine c hc).2.trans (hmine x hx).2.symm) hid
    simp only [Function.comp_apply, hheld, Bool.not_true, Bool.false_eq_true] at hnot
  obtain ⟨hs', ho', -⟩ := foldl_leaving RowLocks.letGo
    (fun _ _ h hc => h.letGo hc) (fun _ _ h hc => h.order_letGo hc)
    (fun _ _ _ h hc hx => h.mem_letGo_of_id_ne hc hx) (mine.filter (·.state == .held)) hs hstay
    (hne.filter _) fun c hc => (hmine c (List.mem_of_mem_filter hc)).2
  refine ⟨hs', fun id => ?_⟩
  rw [ho', ho, filter_ne_of_parts]
  split
  · rfl
  · next hid =>
    rw [exists_mem_filter_or] at hid
    refine (filter_ne_of_not_mem fun ht => hid ?_).symm
    obtain ⟨c, hc, htask, hcid⟩ := mem_order_iff.1 ht
    exact ⟨c, hmy ▸ List.mem_filter.2 ⟨hc, by simp [htask]⟩, hcid⟩

end ServiceDirectory.RowLocks
