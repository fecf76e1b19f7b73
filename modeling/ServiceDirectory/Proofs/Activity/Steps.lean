import ServiceDirectory.Proofs.Activity.Parts

/-! # Steps of tasks

A step of an operation leaves to others what they have, and the task goes on standing by its stake.
A task that ends is in no line any more. A task that asks can do nothing else.
-/

namespace ServiceDirectory

open Activity

variable {n n' : Node} {me now : Nat}

theorem Activity.RowAction.eq_of_mem_stake {a : RowAction} {stage : RowStage} {id : ServiceId}
    (h : id ∈ (a.stake stage).owned ++ (a.stake stage).awaited) : id = a.id := by
  have hs : (a.stake stage).owned ++ (a.stake stage).awaited ⊆ [a.id] := by
    cases stage with
    | forwarding request result => cases request <;> exact List.Subset.refl _
    | start => exact List.nil_subset _
    | _ => exact List.Subset.refl _
  exact List.mem_singleton.1 (hs h)

namespace Task.StandsBy

variable {T : Task} {maxTxnOps : Nat} {activity : Activity}

theorem of_registry (hr : n'.registry.rows = n.registry.rows) (id : ServiceId) :
    n'.row? id = n.row? id := by rw [Node.row?, Node.row?, hr]

/-- What follows from a step: the task stands by its stake, and a changed row is about to be
written. -/
def Goes (n n' : Node) (me : Nat) (activity : Activity) : Prop :=
  n.Moves me n' ∧ (Task.after n n' activity).StandsBy n' me ∧
    ∀ id, n'.row? id ≠ n.row? id →
      ∃ a q result, activity = .row a (.forwarding (some q) result) ∧ a.id = id

theorem goes_of_rows (hm : n.Moves me n') (hr : n'.registry.rows = n.registry.rows)
    (ho : activity.isOperation = true) (hp : activity.IsProper)
    (hs : activity.stake.Stands n' me (n.Loses n')) : Goes n n' me activity :=
  ⟨hm, ⟨ho, hp, hs⟩, fun id h => absurd (of_registry hr id) h⟩

theorem move (hn : n.IsSound) (h : T.StandsBy n me)
    (hs : T.activity.step me now maxTxnOps n = .move n' activity) : Goes n n' me activity := by
  obtain ⟨act, removed⟩ := T
  obtain ⟨ho, hp, hst⟩ := h
  cases moved_of_step ho hs with
  | @row a stage stage' _ hmoved =>
    obtain ⟨hm, hst'⟩ := hmoved.stands hn hp.1 hst
    refine ⟨hm, ⟨rfl, ⟨hp.1, hmoved.writesOne hn hp.1⟩, hst'⟩, fun id hid => ?_⟩
    obtain ⟨q, result, rfl⟩ := hmoved.row hn hp.1 hid
    have hme : me ∈ n.locks.order id := List.mem_of_head? (hm.row id hid)
    exact ⟨a, q, result, rfl, (RowAction.eq_of_mem_stake ((hst.mem_order_iff id).1 hme)).symm⟩
  | entered id hfree =>
    exact goes_of_rows (.of_eq hn rfl rfl rfl hn.lease) rfl rfl trivial
      (hst.quiet rfl rfl rfl rfl rfl)
  | republished hmoved =>
    obtain ⟨hm, hr, hst'⟩ := hmoved.stands hn hst
    exact goes_of_rows hm (by rw [hr]) rfl trivial hst'
  | imported stage globalRows imported =>
    exact goes_of_rows (.of_eq hn rfl rfl rfl hn.lease) rfl rfl trivial
      (hst.quiet rfl rfl rfl rfl rfl)
  | wroteBack imported hmoved =>
    obtain ⟨hm, hr, hst'⟩ := hmoved.stands hn hst
    exact goes_of_rows hm (by rw [hr]) rfl trivial hst'

theorem done {outcome : Outcome} (hn : n.IsSound) (h : T.StandsBy n me)
    (hs : T.activity.step me now maxTxnOps n = .done n' outcome) :
    n.Moves me n' ∧ n'.registry.rows = n.registry.rows ∧ ∀ id, me ∉ n'.locks.order id := by
  obtain ⟨act, removed⟩ := T
  obtain ⟨ho, hp, hst⟩ := h
  have hnone : act.stake = .nothing → ∀ id, me ∉ n.locks.order id := by
    intro he id hm
    have := (hst.mem_order_iff id).1 hm
    rw [he] at this
    cases this
  cases finished_of_step ho hs with
  | row a result =>
    obtain ⟨hm, hid⟩ := hst.release hn
    exact ⟨hm, rfl, hid⟩
  | kept id hr => exact ⟨.of_eq hn hr rfl rfl hn.lease, hr, hnone rfl⟩
  | imported stage globalRows => exact ⟨.of_eq hn rfl rfl rfl hn.lease, rfl, hnone rfl⟩
  | republished hfinished =>
    obtain ⟨hm, hr, hid⟩ := hfinished.leaves hn hst
    exact ⟨hm, by rw [hr], hid⟩
  | synced imported hfinished =>
    obtain ⟨hm, hr, hid⟩ := hfinished.leaves hn hst
    exact ⟨hm, by rw [hr], hid⟩

theorem ask {q : Request} {go : q.Answer → Node → Node × Activity}
    {otherwise : Option (Node × Activity)} (h : T.StandsBy n me)
    (hs : T.activity.step me now maxTxnOps n = .ask q go otherwise) :
    q.operations ⊆ T.activity.stake.writes ∧ ∀ answer, (go answer n).1 = n ∧
      Task.StandsBy ⟨(go answer n).2, T.removed⟩ n me := by
  obtain ⟨act, removed⟩ := T
  obtain ⟨ho, hp, hst⟩ := h
  obtain ⟨next, hasked, hgo⟩ := asked_of_step ho hs
  simp only [hgo, true_and]
  cases hasked with
  | row a q result =>
    exact ⟨List.Subset.refl _, fun _ => ⟨rfl, ⟨hp.1, trivial⟩, hst.quiet rfl rfl rfl rfl rfl⟩⟩
  | scanned next hq => exact ⟨hq ▸ List.nil_subset _, fun _ => ⟨rfl, trivial, hst⟩⟩
  | republished hasked =>
    obtain ⟨hw, hst'⟩ := hasked.stands hst
    exact ⟨hw, fun answer => ⟨rfl, trivial, hst' answer⟩⟩
  | synced next hq => exact ⟨hq ▸ List.nil_subset _, fun _ => ⟨rfl, trivial, hst⟩⟩
  | wroteBack imported hasked =>
    obtain ⟨hw, hst'⟩ := hasked.stands hst
    exact ⟨hw, fun answer => ⟨rfl, trivial, hst' answer⟩⟩

end Task.StandsBy

/-! ## Asking -/

/-- The task has a request to make and can do nothing else. -/
def Activity.isAsking : Activity → Bool
  | row _ (.forwarding (some _) _) | importing .start | syncing (.importing .start)
  | republishing (.writing (_ :: _) _ _) | syncing (.republishing _ (.writing (_ :: _) _ _)) => true
  | _ => false

namespace Activity

variable {act : Activity}

theorem exists_ask (h : act.isAsking = true) (me now maxTxnOps : Nat) (n : Node) :
    ∃ q go, act.step me now maxTxnOps n = .ask q go none := by
  unfold isAsking at h
  split at h
  · exact ⟨_, _, rfl⟩
  · exact ⟨_, _, rfl⟩
  · exact ⟨_, _, rfl⟩
  · exact ⟨_, _, rfl⟩
  · exact ⟨_, _, rfl⟩
  · cases h

theorem not_isStale (h : act.isAsking = true) (n : Node) : act.isStale n = false := by
  unfold isAsking at h
  split at h
  · rename_i a q result
    cases a <;> rfl
  · rfl
  · rfl
  · rfl
  · rfl
  · cases h

theorem isAsking_of_ask {maxTxnOps : Nat} {q : Request} {go : q.Answer → Node → Node × Activity}
    {otherwise : Option (Node × Activity)} (ho : act.isOperation = true)
    (h : act.step me now maxTxnOps n = .ask q go otherwise) : act.isAsking = true := by
  obtain ⟨next, hasked, -⟩ := asked_of_step ho h
  cases hasked with
  | republished hasked => cases hasked; rfl
  | wroteBack imported hasked => cases hasked; rfl
  | _ => rfl

end Activity

end ServiceDirectory
