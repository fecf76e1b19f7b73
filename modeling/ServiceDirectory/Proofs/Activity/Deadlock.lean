import ServiceDirectory.Proofs.Activity.LockOrder
import ServiceDirectory.Proofs.Activity.Scene

/-! # Freedom from deadlock

A crew is a node with any number of operations under way. One of them waits for another if that one
is ahead of it in the line for a row, or has the mutex. Along such waiting the rows that are waited
for ascend, and whoever has the mutex waits for nobody, so nobody waits for itself
(`Invariant.acyclic`), and all waiting ends at a task that has a lock and can go on
(`Invariant.leadsOn`).
-/

namespace ServiceDirectory

open Activity

namespace RowLocks

variable {l : RowLocks} {id : ServiceId} {t u v : Nat}

def IsAhead (l : RowLocks) (id : ServiceId) (u t : Nat) : Prop :=
  t ∈ l.order id ∧ (l.order id).idxOf u < (l.order id).idxOf t

instance : Decidable (l.IsAhead id u t) := inferInstanceAs (Decidable (_ ∧ _))

theorem IsAhead.mem (h : l.IsAhead id u t) : u ∈ l.order id :=
  List.idxOf_lt_length_iff.1 (h.2.trans_le List.idxOf_le_length)

theorem IsAhead.trans (h : l.IsAhead id u t) (h' : l.IsAhead id v u) : l.IsAhead id v t :=
  ⟨h.1, h'.2.trans h.2⟩

theorem not_isAhead_self : ¬ l.IsAhead id t t := fun h => lt_irrefl _ h.2

theorem isAhead_of_head? (hu : (l.order id).head? = some u) (ht : t ∈ l.order id) (hne : u ≠ t) :
    l.IsAhead id u t := by
  refine ⟨ht, ?_⟩
  obtain ⟨ts, hts⟩ := List.head?_eq_some_iff.1 hu
  rw [hts, List.idxOf_cons_self, List.idxOf_cons_ne _ hne]
  exact Nat.succ_pos _

theorem not_isAhead_of_head? (ht : (l.order id).head? = some t) : ¬ l.IsAhead id u t := by
  obtain ⟨ts, hts⟩ := List.head?_eq_some_iff.1 ht
  intro h
  have hlt := h.2
  rw [hts, List.idxOf_cons_self] at hlt
  exact Nat.not_lt_zero _ hlt

theorem Sound.exists_isAhead_iff (h : l.Sound) (ht : t ∈ l.order id) :
    (∃ u, l.IsAhead id u t) ↔ l.owns t id = false := by
  rw [← Bool.not_eq_true, h.owns_iff]
  constructor
  · rintro ⟨u, hu⟩ hhead
    exact not_isAhead_of_head? hhead hu
  · intro hne
    obtain ⟨u, hu⟩ := Option.ne_none_iff_exists'.1
      (mt List.head?_eq_none_iff.1 (List.ne_nil_of_mem ht))
    exact ⟨u, isAhead_of_head? hu ht fun he => hne (he ▸ hu)⟩

theorem finite_inLine (l : RowLocks) : {t | ∃ id, t ∈ l.order id}.Finite := by
  refine (List.finite_toSet (l.claims.map Claim.task)).subset ?_
  rintro t ⟨id, ht⟩
  obtain ⟨c, hc, ht, -⟩ := mem_order_iff.1 ht
  exact List.mem_map.2 ⟨c, hc, ht⟩

end RowLocks

/-- A node with the operations that are under way. -/
structure Crew where
  node : Node
  tasks : Nat → Option Activity

namespace Crew

variable {c c' : Crew} {t u v : Nat} {a : Activity} {id id' : ServiceId}

def set (c : Crew) (t : Nat) (n : Node) (task : Option Activity) : Crew :=
  ⟨n, Function.update c.tasks t task⟩

inductive Step : Crew → Crew → Prop
  | spawn {c : Crew} {t : Nat} {a : Activity} : c.tasks t = none → a.IsFresh →
      Step c (c.set t c.node (some a))
  | move {c : Crew} {t : Nat} {a a' : Activity} {n : Node} (now maxTxnOps : Nat) :
      c.tasks t = some a → a.step t now maxTxnOps c.node = .move n a' →
      Step c (c.set t n (some a'))
  | answered {c : Crew} {t : Nat} {a : Activity} {q : Request}
      {go : q.Answer → Node → Node × Activity} {otherwise : Option (Node × Activity)}
      (now maxTxnOps : Nat) (answer : q.Answer) : c.tasks t = some a →
      a.step t now maxTxnOps c.node = .ask q go otherwise →
      Step c (c.set t (go answer c.node).1 (some (go answer c.node).2))
  | done {c : Crew} {t : Nat} {a : Activity} {n : Node} {outcome : Outcome} (now maxTxnOps : Nat) :
      c.tasks t = some a → a.step t now maxTxnOps c.node = .done n outcome →
      Step c (c.set t n none)
  | calledOff {c : Crew} {t : Nat} {a : Activity} : c.tasks t = some a →
      Step c (c.set t (Activity.drop t c.node) none)
  /-- Timers run out, events are handed over, leases come and go. -/
  | elsewhere {c : Crew} {n : Node} : n.registry.rows = c.node.registry.rows →
      n.locks = c.node.locks → n.mutex = c.node.mutex → Step c ⟨n, c.tasks⟩

/-- Nothing is under way, and the rows are kept as they should be. -/
structure IsStart (c : Crew) : Prop where
  tasks : ∀ t, c.tasks t = none
  locks : c.node.locks = .empty
  mutex : c.node.mutex = none
  rows : c.node.registry.rows.IsWellFormed

def Reachable (c : Crew) : Prop :=
  ∃ start : Crew, start.IsStart ∧ Relation.ReflTransGen Step start c

structure Invariant (c : Crew) : Prop where
  node : c.node.IsOrderly
  tasks : ∀ t a, c.tasks t = some a → a.Fits c.node t
  absent : ∀ t, c.tasks t = none → Stake.nothing.Fits false c.node t

/-! ## The invariant -/

theorem fits_nothing {n : Node} (hl : n.locks = .empty) (hm : n.mutex = none) :
    Stake.nothing.Fits false n t :=
  ⟨by rw [hl]; exact RowLocks.places_nil_iff.2 fun _ => List.not_mem_nil,
    by simp [hm], .nil⟩

theorem IsStart.invariant (h : c.IsStart) : c.Invariant where
  node := ⟨h.locks ▸ RowLocks.sound_empty, h.rows⟩
  tasks t a ha := by rw [h.tasks] at ha; cases ha
  absent t _ := fits_nothing h.locks h.mutex

/-- A node that has restored its rows is at a start. -/
theorem isStart_restored {n : Node} (hl : n.locks = .empty) (hm : n.mutex = none)
    {found : Inherited} (h : ∀ row ∈ decodeInherited n.keyspace found, row.IsStorable) (now : Nat) :
    IsStart ⟨(restore now n found).2, fun _ => none⟩ := by
  obtain ⟨registry, hr, hp⟩ := restore_isProper now n h
  rw [hr]
  exact ⟨fun _ => rfl, hl, hm, hp.rows.wellFormed⟩

theorem tasks_set_self (c : Crew) (t : Nat) (n : Node) (task : Option Activity) :
    (c.set t n task).tasks t = task := Function.update_self ..

theorem tasks_set_of_ne (c : Crew) (h : u ≠ t) (n : Node) (task : Option Activity) :
    (c.set t n task).tasks u = c.tasks u := Function.update_of_ne h ..

theorem Invariant.set (h : c.Invariant) {n : Node} {task : Option Activity}
    (hy : c.node.Yields t n) (ha : ∀ a, task = some a → a.Fits n t)
    (hno : task = none → Stake.nothing.Fits false n t) : (c.set t n task).Invariant where
  node := hy.isOrderly
  tasks u b hb := by
    by_cases hu : u = t
    · subst hu
      exact ha b ((tasks_set_self ..).symm.trans hb)
    · rw [tasks_set_of_ne c hu] at hb
      exact (h.tasks u b hb).of_yields hy hu
  absent u hb := by
    by_cases hu : u = t
    · subst hu
      exact hno ((tasks_set_self ..).symm.trans hb)
    · rw [tasks_set_of_ne c hu] at hb
      exact (h.absent u hb).of_yields hy hu

theorem Invariant.put (h : c.Invariant) {n : Node} (hy : c.node.Yields t n) (ha : a.Fits n t) :
    (c.set t n (some a)).Invariant :=
  h.set hy (fun _ he => Option.some.inj he ▸ ha) nofun

theorem Invariant.remove (h : c.Invariant) {n : Node} (hy : c.node.Yields t n)
    (hno : Stake.nothing.Fits false n t) : (c.set t n none).Invariant :=
  h.set hy (fun _ he => by cases he) fun _ => hno

theorem fits_fresh {n : Node} (h : a.IsFresh) (hno : Stake.nothing.Fits false n t) :
    a.Fits n t := by
  have hrow : ∀ action : RowAction, action.KeepsForm → (row action .start).Fits n t :=
    fun action hk => ⟨rfl, ⟨hno.places, hno.mutex, List.pairwise_singleton ..⟩, hk⟩
  cases h with
  | register _ hstorable => exact hrow (.register _) hstorable
  | unregister hid => exact hrow (.unregister _) trivial
  | expire generation hid => exact hrow (.expire _ generation) trivial
  | touch id => exact ⟨rfl, hno, trivial⟩
  | republish => exact ⟨rfl, hno, trivial⟩
  | importOnce => exact ⟨rfl, hno, trivial⟩
  | synchronize => exact ⟨rfl, hno, trivial⟩

theorem Step.invariant (h : Step c c') (hi : c.Invariant) : c'.Invariant := by
  cases h with
  | spawn ht hf =>
    exact hi.put (hi.node.yields rfl rfl hi.node.rows) (fits_fresh hf (hi.absent _ ht))
  | move now maxTxnOps ha hs =>
    obtain ⟨hy, hf⟩ := (hi.tasks _ _ ha).move hi.node hs
    exact hi.put hy hf
  | answered now maxTxnOps answer ha hs =>
    obtain ⟨hn, hf⟩ := (hi.tasks _ _ ha).ask hs answer
    rw [hn]
    exact hi.put (hi.node.yields rfl rfl hi.node.rows) hf
  | done now maxTxnOps ha hs =>
    obtain ⟨hy, hno⟩ := (hi.tasks _ _ ha).done hi.node hs
    exact hi.remove hy hno
  | calledOff ha =>
    obtain ⟨hy, hno⟩ := drop_fits hi.node _
    exact hi.remove hy hno
  | @elsewhere n hr hl hm =>
    have hy : ∀ me, c.node.Yields me n := fun me => hi.node.yields hl hm (hr ▸ hi.node.rows)
    exact ⟨(hy 0).isOrderly, fun t a ha => (hi.tasks t a ha).of_yields (hy (t + 1)) (by omega),
      fun t ht => (hi.absent t ht).of_yields (hy (t + 1)) (by omega)⟩

theorem Reachable.invariant (h : c.Reachable) : c.Invariant := by
  obtain ⟨start, hs, hrun⟩ := h
  induction hrun with
  | refl => exact hs.invariant
  | tail _ hstep ih => exact hstep.invariant ih

/-! ## Waiting -/

def Awaits (c : Crew) (t : Nat) (id : ServiceId) : Prop :=
  ∃ a, c.tasks t = some a ∧ id ∈ a.stake.awaited

def AwaitsMutex (c : Crew) (t : Nat) : Prop := ∃ a, c.tasks t = some a ∧ a.wantsMutex = true

/-- One task waits for another, which has what the first one needs or will have it before. -/
def WaitsFor (c : Crew) (t u : Nat) : Prop :=
  (∃ id, c.Awaits t id ∧ c.node.locks.IsAhead id u t) ∨ c.AwaitsMutex t ∧ c.node.mutex = some u

def HasLock (c : Crew) (t : Nat) : Prop :=
  (∃ id, c.node.ownsRow t id = true) ∨ c.node.mutex = some t

def IsBlocked (c : Crew) (t : Nat) : Prop :=
  ∃ a, c.tasks t = some a ∧ ∀ now maxTxnOps, a.step t now maxTxnOps c.node = .wait

/-- The task goes on by itself, or with the answer of the remote store. -/
def CanGoOn (c : Crew) (t : Nat) : Prop :=
  ∃ a, c.tasks t = some a ∧ ∀ now maxTxnOps, a.step t now maxTxnOps c.node ≠ .wait

/-- The waiting of the task ends at one that has a lock and can go on. -/
def LeadsOn (c : Crew) (t : Nat) : Prop :=
  ∃ u, Relation.TransGen c.WaitsFor t u ∧ c.HasLock u ∧ c.CanGoOn u

structure IsDeadlockFree (c : Crew) : Prop where
  isBlocked_iff : ∀ t, c.IsBlocked t ↔ ∃ u, c.WaitsFor t u
  acyclic : ∀ t, ¬ Relation.TransGen c.WaitsFor t t
  leadsOn : ∀ t, c.IsBlocked t → c.LeadsOn t

instance : Decidable (c.Awaits t id) :=
  decidable_of_iff ((c.tasks t).any fun a => decide (id ∈ a.stake.awaited))
    (by simp [Option.any_eq_true, Awaits])

instance : Decidable (c.AwaitsMutex t) :=
  decidable_of_iff ((c.tasks t).any wantsMutex) (by simp [Option.any_eq_true, AwaitsMutex])

end Crew

namespace Activity

/-- A task waits for one thing at a time, and outside the mutex. -/
theorem awaited_of_mem {a : Activity} {id : ServiceId} (h : id ∈ a.stake.awaited) :
    a.stake.awaited = [id] ∧ a.wantsMutex = false ∧ a.isInside = false := by
  have hrep : ∀ stage : RepublishStage, id ∈ stage.stake.awaited → stage.stake.awaited = [id] := by
    intro stage h
    cases stage <;> simp_all [RepublishStage.stake, Stake.nothing]
  cases a with
  | row action stage =>
    cases stage with
    | queued => exact ⟨congrArg (fun id => [id]) (List.mem_singleton.1 h).symm, rfl, rfl⟩
    | forwarding request result => cases request <;> cases h
    | _ => cases h
  | republishing stage => exact ⟨hrep stage h, rfl, rfl⟩
  | syncing stage =>
    cases stage with
    | importing stage => cases h
    | republishing imported stage => exact ⟨hrep stage h, rfl, rfl⟩
  | _ => cases h

theorem isInside_of_wantsMutex {a : Activity} (h : a.wantsMutex = true) : a.isInside = false := by
  unfold wantsMutex at h
  split at h
  · rfl
  · rfl
  · cases h

end Activity

namespace Crew

variable {c c' : Crew} {t u v : Nat} {a : Activity} {id id' : ServiceId}

theorem Awaits.eq (h : c.Awaits t id) (h' : c.Awaits t id') : id = id' := by
  obtain ⟨a, ha, hid⟩ := h
  obtain ⟨b, hb, hid'⟩ := h'
  obtain rfl : a = b := Option.some.inj (ha.symm.trans hb)
  rw [(awaited_of_mem hid).1] at hid'
  exact (List.mem_singleton.1 hid').symm

theorem Awaits.not_awaitsMutex (h : c.Awaits t id) : ¬ c.AwaitsMutex t := by
  rintro ⟨b, hb, hm⟩
  obtain ⟨a, ha, hid⟩ := h
  obtain rfl : a = b := Option.some.inj (ha.symm.trans hb)
  rw [(awaited_of_mem hid).2.1] at hm
  cases hm

namespace Invariant

variable (hi : c.Invariant)

include hi

theorem exists_isInside (h : c.node.mutex = some t) :
    ∃ a, c.tasks t = some a ∧ a.isInside = true := by
  cases ha : c.tasks t with
  | none => cases (hi.absent t ha).mutex.1 h
  | some a => exact ⟨a, rfl, (hi.tasks t a ha).fits.mutex.1 h⟩

theorem not_awaits_of_mutex (h : c.node.mutex = some t) : ¬ c.Awaits t id := by
  rintro ⟨b, hb, hid⟩
  obtain ⟨a, ha, hin⟩ := hi.exists_isInside h
  obtain rfl : a = b := Option.some.inj (ha.symm.trans hb)
  rw [(awaited_of_mem hid).2.2] at hin
  cases hin

theorem not_awaitsMutex_of_mutex (h : c.node.mutex = some t) : ¬ c.AwaitsMutex t := by
  rintro ⟨b, hb, hm⟩
  obtain ⟨a, ha, hin⟩ := hi.exists_isInside h
  obtain rfl : a = b := Option.some.inj (ha.symm.trans hb)
  rw [isInside_of_wantsMutex hm] at hin
  cases hin

theorem not_waitsFor_of_mutex (h : c.node.mutex = some t) : ¬ c.WaitsFor t u
  | .inl ⟨_, hw, _⟩ => hi.not_awaits_of_mutex h hw
  | .inr ⟨hw, _⟩ => hi.not_awaitsMutex_of_mutex h hw

theorem awaits_of_isAhead (h : c.node.locks.IsAhead id u t) (hu : c.Awaits u id') :
    compare id id' = .lt ∨ id = id' := by
  obtain ⟨b, hb, hid'⟩ := hu
  have hf := (hi.tasks u b hb).fits
  rcases List.mem_append.1 ((hf.places.mem_order_iff id).1 h.mem) with hown | hid
  · exact .inl ((List.pairwise_append.1 hf.ascending).2.2 id hown id' (List.mem_append_left _ hid'))
  · exact .inr (Awaits.eq ⟨b, hb, hid⟩ ⟨b, hb, hid'⟩)

/-- Along the waiting for rows the ids ascend, or all is in the line for one row. -/
theorem ascends (h : Relation.TransGen c.WaitsFor t u) (ht : c.Awaits t id)
    (hu : c.Awaits u id') : compare id id' = .lt ∨ id = id' ∧ c.node.locks.IsAhead id u t := by
  induction h generalizing id' with
  | single h =>
    rcases h with ⟨_, ht', hahead⟩ | ⟨hm, -⟩
    · obtain rfl := ht.eq ht'
      exact (hi.awaits_of_isAhead hahead hu).imp_right fun he => ⟨he, hahead⟩
    · exact absurd hm ht.not_awaitsMutex
  | @tail b u _ hbu ih =>
    rcases hbu with ⟨idb, hb, hahead⟩ | ⟨-, hm⟩
    · rcases ih hb, hi.awaits_of_isAhead hahead hu with ⟨hlt | ⟨rfl, hbt⟩, hlt' | rfl⟩
      · exact .inl (Std.TransCmp.lt_trans hlt hlt')
      · exact .inl hlt
      · exact .inl hlt'
      · exact .inr ⟨rfl, hbt.trans hahead⟩
    · exact absurd hu (hi.not_awaits_of_mutex hm)

theorem acyclic : ¬ Relation.TransGen c.WaitsFor t t := by
  intro h
  obtain ⟨u, htu, hut⟩ := Relation.TransGen.head'_iff.1 h
  rcases htu with ⟨id, ht, -⟩ | ⟨hm, hu⟩
  · rcases hi.ascends h ht ht with hlt | ⟨-, hahead⟩
    · simp at hlt
    · exact RowLocks.not_isAhead_self hahead
  · rcases Relation.ReflTransGen.cases_head hut with rfl | ⟨v, huv, -⟩
    · exact hi.not_awaitsMutex_of_mutex hu hm
    · exact hi.not_waitsFor_of_mutex hu huv

/-- A task waits for others or can go on, whatever the time is. -/
theorem step_eq_wait_iff_waitsFor (ha : c.tasks t = some a) (now maxTxnOps : Nat) :
    a.step t now maxTxnOps c.node = .wait ↔ ∃ u, c.WaitsFor t u := by
  have hf := hi.tasks t a ha
  rw [step_eq_wait_iff hf.isOperation]
  constructor
  · rintro (⟨id, hid, hno⟩ | ⟨hm, hfree⟩)
    · have ht : t ∈ c.node.locks.order id :=
        (hf.fits.places.mem_order_iff id).2 (List.mem_append_right _ hid)
      obtain ⟨u, hu⟩ := (hi.node.locks.exists_isAhead_iff ht).2 hno
      exact ⟨u, .inl ⟨id, ⟨a, ha, hid⟩, hu⟩⟩
    · obtain ⟨u, hu⟩ := Option.ne_none_iff_exists'.1 hfree
      exact ⟨u, .inr ⟨⟨a, ha, hm⟩, hu⟩⟩
  · rintro ⟨u, ⟨id, ⟨b, hb, hid⟩, hu⟩ | ⟨⟨b, hb, hm⟩, hu⟩⟩ <;>
      obtain rfl : a = b := Option.some.inj (ha.symm.trans hb)
    · exact .inl ⟨id, hid, (hi.node.locks.exists_isAhead_iff hu.1).1 ⟨u, hu⟩⟩
    · exact .inr ⟨hm, by simp [hu]⟩

theorem isBlocked_iff : c.IsBlocked t ↔ ∃ u, c.WaitsFor t u := by
  constructor
  · rintro ⟨a, ha, hs⟩
    exact (hi.step_eq_wait_iff_waitsFor ha 0 0).1 (hs 0 0)
  · intro hw
    obtain ⟨a, ha⟩ : ∃ a, c.tasks t = some a := by
      obtain ⟨u, ⟨id, ⟨a, ha, -⟩, -⟩ | ⟨⟨a, ha, -⟩, -⟩⟩ := hw <;> exact ⟨a, ha⟩
    exact ⟨a, ha, fun now maxTxnOps => (hi.step_eq_wait_iff_waitsFor ha now maxTxnOps).2 hw⟩

theorem canGoOn_or_isBlocked (ha : c.tasks t = some a) : c.CanGoOn t ∨ c.IsBlocked t := by
  by_cases hw : ∃ u, c.WaitsFor t u
  · exact .inr (hi.isBlocked_iff.2 hw)
  · exact .inl ⟨a, ha, fun now maxTxnOps hs => hw ((hi.step_eq_wait_iff_waitsFor ha _ _).1 hs)⟩

theorem exists_hasLock (h : c.IsBlocked t) : ∃ u, c.WaitsFor t u ∧ c.HasLock u ∧
    (c.CanGoOn u ∨ c.IsBlocked u ∧ ∃ id, u ∈ c.node.locks.order id) := by
  obtain ⟨u, ⟨id, hw, hu⟩ | ⟨hw, hu⟩⟩ := hi.isBlocked_iff.1 h
  · obtain ⟨v, hv⟩ := Option.ne_none_iff_exists'.1
      (mt List.head?_eq_none_iff.1 (List.ne_nil_of_mem hu.1))
    have hmem : v ∈ c.node.locks.order id := List.mem_of_head? hv
    have hne : v ≠ t := by
      rintro rfl
      exact RowLocks.not_isAhead_of_head? hv hu
    obtain ⟨a, ha⟩ : ∃ a, c.tasks v = some a := by
      refine Option.ne_none_iff_exists'.1 fun ha => ?_
      exact RowLocks.places_nil_iff.1 (hi.absent v ha).places id hmem
    exact ⟨v, .inl ⟨id, hw, RowLocks.isAhead_of_head? hv hu.1 hne⟩,
      .inl ⟨id, hi.node.locks.owns_iff.2 hv⟩,
      (hi.canGoOn_or_isBlocked ha).imp_right fun hb => ⟨hb, id, hmem⟩⟩
  · obtain ⟨a, ha, -⟩ := hi.exists_isInside hu
    refine ⟨u, .inr ⟨hw, hu⟩, .inr hu, (hi.canGoOn_or_isBlocked ha).imp_right fun hb => ?_⟩
    obtain ⟨v, hv⟩ := hi.isBlocked_iff.1 hb
    exact absurd hv (hi.not_waitsFor_of_mutex hu)

theorem wellFoundedOn_waitsFor : {t | ∃ id, t ∈ c.node.locks.order id}.WellFoundedOn
    fun u t => Relation.TransGen c.WaitsFor t u := by
  have : IsStrictOrder Nat fun u t => Relation.TransGen c.WaitsFor t u :=
    { irrefl := fun _ => hi.acyclic, trans := fun _ _ _ h h' => h'.trans h }
  exact c.node.locks.finite_inLine.wellFoundedOn

/-- Whoever waits does so, in the end, for a task that has a lock and can go on. -/
theorem leadsOn (h : c.IsBlocked t) : c.LeadsOn t := by
  have hline : ∀ u, (∃ id, u ∈ c.node.locks.order id) → c.IsBlocked u → c.LeadsOn u := fun u hu =>
    hi.wellFoundedOn_waitsFor.induction (P := fun u => c.IsBlocked u → c.LeadsOn u) hu
      fun u _ ih hb => by
        obtain ⟨v, huv, hv, hgo | ⟨hb, hmem⟩⟩ := hi.exists_hasLock hb
        · exact ⟨v, .single huv, hv, hgo⟩
        · obtain ⟨w, hvw, hw⟩ := ih v hmem (.single huv) hb
          exact ⟨w, .head huv hvw, hw⟩
  obtain ⟨u, htu, hu, hgo | ⟨hb, hmem⟩⟩ := hi.exists_hasLock h
  · exact ⟨u, .single htu, hu, hgo⟩
  · obtain ⟨v, huv, hv⟩ := hline u hmem hb
    exact ⟨v, .head htu huv, hv⟩

theorem isDeadlockFree : c.IsDeadlockFree :=
  ⟨fun _ => hi.isBlocked_iff, fun _ => hi.acyclic, fun _ => hi.leadsOn⟩

end Invariant

/-- Nobody waits in a circle, and whoever waits does so, over others or not, for a task that has a
lock and does not wait for one. -/
theorem isDeadlockFree_of_reachable (h : c.Reachable) : c.IsDeadlockFree :=
  h.invariant.isDeadlockFree

/-! ## A crew that waits -/

def goOn (c : Crew) (t : Nat) : Crew :=
  match c.tasks t with
  | none => c
  | some a => match a.step t 0 1 c.node with
    | .move n a' => c.set t n (some a')
    | _ => c

theorem Reachable.step (h : c.Reachable) (hs : Step c c') : c'.Reachable := by
  obtain ⟨start, hstart, hrun⟩ := h
  exact ⟨start, hstart, hrun.tail hs⟩

theorem Reachable.goOn (h : c.Reachable) (t : Nat) : (c.goOn t).Reachable := by
  unfold Crew.goOn
  split
  · exact h
  · next a ha =>
    split
    · next hs => exact h.step (.move 0 1 ha hs)
    · exact h

def started : Crew := ⟨Scene.started.node, fun _ => none⟩

theorem isStart_started : started.IsStart :=
  ⟨fun _ => rfl, rfl, rfl, Table.isWellFormed_empty⟩

/-- One task is to register a service, one to remove it, and one to keep it alive. -/
def gathered : Crew :=
  ((started.set 0 started.node (some (.register Scene.webService))).set 1 started.node
    (some (.unregister Scene.webService.id))).set 2 started.node
    (some (.touch Scene.webService.id))

/-- The first has the lock of the row, the second waits for it, and the third has the mutex. -/
def waiting : Crew := [0, 0, 1, 2].foldl goOn gathered

theorem reachable_waiting : waiting.Reachable := by
  have hmake : Service.make Scene.webService.id Scene.webService.hostname Scene.webService.port
      Scene.webService.ttl Scene.webService.metadata = .ok Scene.webService := rfl
  have hstart : started.Reachable := ⟨started, isStart_started, .refl⟩
  have hgathered : gathered.Reachable :=
    ((hstart.step (.spawn rfl (.register hmake (by decide +kernel)))).step
      (.spawn rfl (.unregister (by decide +kernel)))).step (.spawn rfl (.touch _))
  exact (((hgathered.goOn 0).goOn 0).goOn 1).goOn 2

theorem isDeadlockFree_of_reachable_waiting : waiting.Reachable ∧
    (waiting.WaitsFor 1 0 ∧ waiting.WaitsFor 0 2) ∧ waiting.IsDeadlockFree :=
  ⟨reachable_waiting,
    ⟨.inl ⟨Scene.webService.id, by decide +kernel, by decide +kernel⟩,
      .inr ⟨by decide +kernel, by decide +kernel⟩⟩,
    isDeadlockFree_of_reachable reachable_waiting⟩

end Crew

end ServiceDirectory
