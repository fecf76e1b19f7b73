import ServiceDirectory.Proofs.Activity.Transitions

/-! # The order of locks

A change of a row takes the lock of the row and then the mutex, writing back takes the locks of rows
in the ascending order of their ids, and keeping alive takes the mutex alone. So whatever a task
waits for comes after all that it has, in every state of a node with any number of tasks
(`Crew.Invariant`).
-/

namespace ServiceDirectory

open Activity

namespace Activity

def isInside : Activity → Bool
  | row _ .inside | keepAlive _ .inside => true
  | _ => false

def wantsMutex : Activity → Bool
  | row _ .locked | keepAlive _ .start => true
  | _ => false

def RowAction.KeepsForm : RowAction → Prop
  | .register added => added.IsStorable
  | .unregister _ | .expire _ _ => True

def KeepsForm : Activity → Prop
  | .row action _ => action.KeepsForm
  | _ => True

end Activity

/-- The task with this number has the locks and the mutex as told, and takes the locks of rows in
ascending order. -/
structure Stake.Fits (k : Stake) (inside : Bool) (n : Node) (me : Nat) : Prop where
  places : n.locks.Places me k.owned k.awaited
  mutex : n.mutex = some me ↔ inside = true
  ascending : k.ids.Pairwise fun a b => compare a b = .lt

structure Activity.Fits (a : Activity) (n : Node) (me : Nat) : Prop where
  isOperation : a.isOperation = true
  fits : a.stake.Fits a.isInside n me
  keepsForm : a.KeepsForm

/-- A step of one task that leaves to the others their locks, and keeps the rows well-formed. -/
structure Node.Yields (me : Nat) (n n' : Node) : Prop where
  locks : RowLocks.Spares me n.locks n'.locks
  mutex : ∀ t, t ≠ me → (n'.mutex = some t ↔ n.mutex = some t)
  rows : n'.registry.rows.IsWellFormed

structure Node.IsOrderly (n : Node) : Prop where
  locks : n.locks.Sound
  rows : n.registry.rows.IsWellFormed

variable {n n' : Node} {me t now maxTxnOps : Nat} {k : Stake} {inside : Bool}
  {held awaited todo : List ServiceId} {ops : List TxnOp} {id : ServiceId}

theorem Node.Yields.isOrderly (h : n.Yields me n') : n'.IsOrderly := ⟨h.locks.sound, h.rows⟩

theorem Node.IsOrderly.yields (h : n.IsOrderly) (hl : n'.locks = n.locks)
    (hm : n'.mutex = n.mutex) (hr : n'.registry.rows.IsWellFormed) : n.Yields me n' :=
  ⟨by rw [hl]; exact .refl h.locks, fun _ _ => by rw [hm], hr⟩

theorem Node.IsOrderly.yields_locks (h : n.IsOrderly) {locks : RowLocks}
    (hl : RowLocks.Spares me n.locks locks) : n.Yields me { n with locks } :=
  ⟨hl, fun _ _ => Iff.rfl, h.rows⟩

theorem Node.IsOrderly.yields_enter (h : n.IsOrderly) (hfree : n.mutex = none) :
    n.Yields me { n with mutex := some me } :=
  ⟨.refl h.locks, fun t ht => by simp [hfree, Ne.symm ht], h.rows⟩

theorem Node.IsOrderly.yields_leave (h : n.IsOrderly) (hme : n.mutex = some me)
    {registry : Registry} (hr : registry.rows.IsWellFormed) :
    n.Yields me { n with mutex := none, registry } :=
  ⟨.refl h.locks, fun t ht => by simp [hme, Ne.symm ht], hr⟩

theorem Stake.Fits.of_yields (h : k.Fits inside n t) (hy : n.Yields me n') (ht : t ≠ me) :
    k.Fits inside n' t :=
  ⟨hy.locks.places ht h.places, (hy.mutex t ht).trans h.mutex, h.ascending⟩

theorem Activity.Fits.of_yields {a : Activity} (h : a.Fits n t) (hy : n.Yields me n')
    (ht : t ≠ me) : a.Fits n' t :=
  ⟨h.isOperation, h.fits.of_yields hy ht, h.keepsForm⟩

namespace Stake.Fits

theorem of_eq {k' : Stake} {inside' : Bool} (h : k.Fits inside n me) (hl : n'.locks = n.locks)
    (ho : k'.owned = k.owned) (ha : k'.awaited = k.awaited) (ht : k'.todo = k.todo)
    (hm : n'.mutex = some me ↔ inside' = true) : k'.Fits inside' n' me := by
  refine ⟨by rw [hl, ho, ha]; exact h.places, hm, ?_⟩
  rw [ids, ho, ha, ht]
  exact h.ascending

theorem claim (h : Fits ⟨held, [], id :: todo, ops⟩ inside n me) (hn : n.IsOrderly) :
    n.Yields me (n.claimRow me id) ∧ Fits ⟨held, [id], todo, []⟩ inside (n.claimRow me id) me := by
  have hnot : id ∉ held := fun hid => by
    have hlt := (List.pairwise_append.1 h.ascending).2.2 id hid id (.head _)
    simp at hlt
  have hme : me ∉ n.locks.order id := fun hm =>
    hnot (by simpa using (h.places.mem_order_iff id).1 hm)
  exact ⟨hn.yields_locks (hn.locks.spares_claim hme), h.places.claim hnot, h.mutex, h.ascending⟩

theorem take (h : Fits ⟨held, [id], todo, ops⟩ inside n me) (hn : n.IsOrderly)
    (hown : n.ownsRow me id = true) : n.Yields me (n.takeRow me id) ∧
      Fits ⟨held ++ [id], [], todo, []⟩ inside (n.takeRow me id) me := by
  refine ⟨hn.yields_locks (hn.locks.spares_take me id), h.places.take hn.locks hown, h.mutex, ?_⟩
  simpa [ids] using h.ascending

theorem release (h : Fits ⟨held, [], todo, ops⟩ inside n me) (hn : n.IsOrderly) :
    n.Yields me (held.foldl (fun n id => n.releaseRow me id) n) ∧
      nothing.Fits inside (held.foldl (fun n id => n.releaseRow me id) n) me := by
  rw [Node.releaseRow_foldl]
  exact ⟨hn.yields_locks (hn.locks.spares_releaseAll me held), h.places.releaseAll hn.locks,
    h.mutex, .nil⟩

end Stake.Fits

/-! ## Changes of rows -/

theorem Registry.register_isWellFormed {r r' : Registry} {row : Row} {outcome : Upsert}
    (h : r.rows.IsWellFormed) (hrow : row.IsStorable)
    (hr : r.register now row = .ok (outcome, r')) : r'.rows.IsWellFormed := by
  obtain ⟨⟨upserted, rows⟩, hu, hr⟩ := bind_eq_ok_iff.1 hr
  cases hr
  obtain ⟨found, -, hu⟩ := bind_eq_ok_iff.1 hu
  cases found with
  | none =>
    cases hu
    exact h.write hrow
  | some current =>
    simp only at hu
    split at hu
    · cases hu
      exact h
    · cases hu
      exact h.write hrow

theorem Registry.unregister_isWellFormed {r r' : Registry} {removed : Option Row}
    (h : r.rows.IsWellFormed) (hr : r.unregister id = .ok (removed, r')) :
    r'.rows.IsWellFormed := by
  obtain ⟨⟨found, rows⟩, hu, hr⟩ := bind_eq_ok_iff.1 hr
  cases hr
  obtain ⟨found, -, hu⟩ := bind_eq_ok_iff.1 hu
  cases hu
  exact h.erase id

theorem Registry.expire_isWellFormed {r : Registry} (h : r.rows.IsWellFormed) (id : ServiceId)
    (generation : Nat) : (r.expire id generation).2.rows.IsWellFormed := by
  unfold expire
  split
  · simp only
    split
    · next hr =>
      obtain ⟨found, -, hr⟩ := bind_eq_ok_iff.1 hr
      cases hr
      exact h.erase id
    · exact h
  · exact h

namespace Activity

def RowStage.isPerformed : RowStage → Bool
  | .forwarding _ _ | .finishing _ => true
  | _ => false

namespace RowAction

variable {a : RowAction} {stage stage' : RowStage}

theorem perform_spec_of_isWellFormed (a : RowAction) (now : Nat)
    (h : n.registry.rows.IsWellFormed) (ha : a.KeepsForm) :
    ∃ registry stage, a.perform now n = ({ n with registry }, stage) ∧
      registry.rows.IsWellFormed ∧ stage.isPerformed = true := by
  cases a with
  | register row =>
    simp only [perform]
    split
    · exact ⟨n.registry, _, rfl, h, rfl⟩
    · next outcome registry hr =>
      refine ⟨registry, _, rfl, Registry.register_isWellFormed h ha hr, ?_⟩
      split <;> rfl
  | unregister id =>
    simp only [perform]
    split
    · exact ⟨n.registry, _, rfl, h, rfl⟩
    · next removed registry hr =>
      refine ⟨registry, _, rfl, Registry.unregister_isWellFormed h hr, ?_⟩
      split <;> rfl
  | expire id generation =>
    refine ⟨_, _, rfl, Registry.expire_isWellFormed h id generation, ?_⟩
    split <;> rfl

theorem fits_of_isPerformed (hp : stage.isPerformed = true) (h : (a.stake .inside).Fits inside n me)
    (hl : n'.locks = n.locks) (hm : n'.mutex ≠ some me) :
    (a.stake stage).Fits (row a stage).isInside n' me := by
  have hm : n'.mutex = some me ↔ false = true := iff_of_false hm nofun
  cases stage with
  | forwarding request result => cases request <;> exact h.of_eq hl rfl rfl rfl hm
  | finishing result => exact h.of_eq hl rfl rfl rfl hm
  | _ => cases hp

theorem Moved.fits (h : Moved n me now a stage n' stage') (hn : n.IsOrderly) (ha : a.KeepsForm)
    (hf : (a.stake stage).Fits (row a stage).isInside n me) :
    n.Yields me n' ∧ (a.stake stage').Fits (row a stage').isInside n' me := by
  cases h with
  | claimed => exact hf.claim hn
  | took hown => exact hf.take hn hown
  | entered hfree =>
    exact ⟨hn.yields_enter hfree, hf.of_eq rfl rfl rfl rfl (iff_of_true rfl rfl)⟩
  | performed =>
    obtain ⟨registry, stage, hp, hr, hst⟩ :=
      a.perform_spec_of_isWellFormed (n := { n with mutex := none }) now hn.rows ha
    rw [hp]
    exact ⟨hn.yields_leave (hf.mutex.2 rfl) hr, fits_of_isPerformed hst hf rfl nofun⟩
  | skipped result => exact ⟨hn.yields rfl rfl hn.rows, hf.of_eq rfl rfl rfl rfl hf.mutex⟩

end RowAction

/-! ## The other parts -/

section

variable {stage stage' : RepublishStage}

theorem RepublishMoved.fits (h : RepublishMoved n me maxTxnOps stage n' stage') (hn : n.IsOrderly)
    (hf : stage.stake.Fits false n me) : n.Yields me n' ∧ stage'.stake.Fits false n' me := by
  have hstay : n.Yields me n := hn.yields rfl rfl hn.rows
  cases h with
  | gathered lease hids => exact ⟨hstay, hf.places, hf.mutex, staleIds_ascending hn.rows hids⟩
  | claimed lease id todo held => exact hf.claim hn
  | took lease todo held hown => exact hf.take hn hown
  | locked lease held => exact ⟨hstay, hf.of_eq rfl rfl rfl rfl hf.mutex⟩
  | read hops => exact ⟨hstay, hf.of_eq rfl rfl rfl rfl hf.mutex⟩
  | skipped lease held result => exact ⟨hstay, hf.of_eq rfl rfl rfl rfl hf.mutex⟩
  | wrote count held => exact ⟨hstay, hf.of_eq rfl rfl rfl rfl hf.mutex⟩

theorem RepublishFinished.fits (h : RepublishFinished n me stage n') (hn : n.IsOrderly)
    (hf : stage.stake.Fits false n me) : n.Yields me n' ∧ Stake.nothing.Fits false n' me := by
  cases h with
  | skipped => exact ⟨hn.yields rfl rfl hn.rows, hf⟩
  | released result held => exact hf.release hn

theorem RepublishAsked.fits {q : Request} {next : q.Answer → RepublishStage}
    (h : RepublishAsked stage q next) (hf : stage.stake.Fits false n me) (answer : q.Answer) :
    (next answer).stake.Fits false n me := by
  cases h with
  | wrote hok herror =>
    cases answer with
    | error e =>
      obtain ⟨result, he⟩ := herror e
      rw [he]
      exact hf.of_eq rfl rfl rfl rfl hf.mutex
    | ok replies =>
      rw [hok]
      exact hf.of_eq rfl rfl rfl rfl hf.mutex

end

/-! ## Tasks -/

variable {act act' : Activity}

theorem Fits.move (h : act.Fits n me) (hn : n.IsOrderly)
    (hs : act.step me now maxTxnOps n = .move n' act') : n.Yields me n' ∧ act'.Fits n' me := by
  obtain ⟨ho, hf, hk⟩ := h
  cases moved_of_step ho hs with
  | row hmoved =>
    obtain ⟨hy, hf'⟩ := hmoved.fits hn hk hf
    exact ⟨hy, rfl, hf', hk⟩
  | entered id hfree =>
    exact ⟨hn.yields_enter hfree, rfl, hf.of_eq rfl rfl rfl rfl (iff_of_true rfl rfl), trivial⟩
  | republished hmoved =>
    obtain ⟨hy, hf'⟩ := hmoved.fits hn hf
    exact ⟨hy, rfl, hf', trivial⟩
  | imported stage globalRows imported =>
    exact ⟨hn.yields rfl rfl hn.rows, rfl, hf.of_eq rfl rfl rfl rfl hf.mutex, trivial⟩
  | wroteBack imported hmoved =>
    obtain ⟨hy, hf'⟩ := hmoved.fits hn hf
    exact ⟨hy, rfl, hf', trivial⟩

theorem Fits.done {outcome : Outcome} (h : act.Fits n me) (hn : n.IsOrderly)
    (hs : act.step me now maxTxnOps n = .done n' outcome) :
    n.Yields me n' ∧ Stake.nothing.Fits false n' me := by
  obtain ⟨ho, hf, -⟩ := h
  cases finished_of_step ho hs with
  | row a result => exact hf.release hn
  | kept id hr =>
    exact ⟨hn.yields_leave (hf.mutex.2 rfl) (hr ▸ hn.rows),
      hf.of_eq rfl rfl rfl rfl (iff_of_false nofun nofun)⟩
  | imported stage globalRows =>
    exact ⟨hn.yields rfl rfl hn.rows, hf.of_eq rfl rfl rfl rfl hf.mutex⟩
  | republished hfinished => exact hfinished.fits hn hf
  | synced imported hfinished => exact hfinished.fits hn hf

theorem Fits.ask {q : Request} {go : q.Answer → Node → Node × Activity}
    {otherwise : Option (Node × Activity)} (h : act.Fits n me)
    (hs : act.step me now maxTxnOps n = .ask q go otherwise) (answer : q.Answer) :
    (go answer n).1 = n ∧ (go answer n).2.Fits n me := by
  obtain ⟨ho, hf, hk⟩ := h
  obtain ⟨next, hasked, hgo⟩ := asked_of_step ho hs
  rw [hgo]
  refine ⟨rfl, ?_⟩
  cases hasked with
  | row a q result => exact ⟨rfl, hf.of_eq rfl rfl rfl rfl hf.mutex, hk⟩
  | scanned next hq => exact ⟨rfl, hf, trivial⟩
  | republished hasked => exact ⟨rfl, hasked.fits hf answer, trivial⟩
  | synced next hq => exact ⟨rfl, hf, trivial⟩
  | wroteBack imported hasked => exact ⟨rfl, hasked.fits hf answer, trivial⟩

theorem drop_fits (hn : n.IsOrderly) (me : Nat) :
    n.Yields me (drop me n) ∧ Stake.nothing.Fits false (drop me n) me := by
  obtain ⟨hs, hp⟩ := hn.locks.spares_drop me
  have hm : (drop me n).mutex = if n.mutex = some me then none else n.mutex := rfl
  refine ⟨⟨hs, fun t ht => ?_, hn.rows⟩, hp, ?_, .nil⟩
  · rw [hm]
    split
    · next hme => simp [hme, Ne.symm ht]
    · rfl
  · rw [hm]
    split
    · simp
    · next hme => exact iff_of_false hme nofun

/-! ## Waiting -/

theorem wait_iff_of_republishing {stage : RepublishStage} :
    republishStep me maxTxnOps n stage = .wait ↔
      ∃ id ∈ stage.stake.awaited, n.ownsRow me id = false := by
  rw [republishStep_eq_wait_iff]
  cases stage <;> simp [RepublishStage.stake, Stake.nothing]

/-- A task waits for a row that another has, for the mutex, or not at all. -/
theorem step_eq_wait_iff (ho : act.isOperation = true) : act.step me now maxTxnOps n = .wait ↔
    (∃ id ∈ act.stake.awaited, n.ownsRow me id = false) ∨
      act.wantsMutex = true ∧ n.mutex ≠ none := by
  cases act with
  | row a stage =>
    rw [step, Progress.within_done_eq_wait_iff, RowAction.step_eq_wait_iff]
    cases stage with
    | forwarding request result =>
      cases request <;> simp [stake, RowAction.stake, wantsMutex]
    | _ => simp [stake, RowAction.stake, wantsMutex]
  | keepAlive id stage =>
    rw [step, Progress.within_done_eq_wait_iff, keepAliveStep_eq_wait_iff]
    cases stage <;> simp [stake, Stake.nothing, wantsMutex]
  | importing stage =>
    rw [step, Progress.within_done_eq_wait_iff]
    exact iff_of_false importStep_ne_wait (by simp [stake, Stake.nothing, wantsMutex])
  | republishing stage =>
    rw [step, Progress.within_done_eq_wait_iff, wait_iff_of_republishing]
    simp [stake, wantsMutex]
  | syncing stage =>
    rw [step, Progress.within_done_eq_wait_iff]
    cases stage with
    | importing stage =>
      rw [syncStep, Progress.within_move_eq_wait_iff]
      exact iff_of_false importStep_ne_wait (by simp [stake, Stake.nothing, wantsMutex])
    | republishing imported stage =>
      rw [syncStep, Progress.within_done_eq_wait_iff, wait_iff_of_republishing]
      simp [stake, wantsMutex]
  | _ => cases ho

end Activity

end ServiceDirectory
