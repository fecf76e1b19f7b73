import ServiceDirectory.Proofs.Activity.HostedRows
import ServiceDirectory.Proofs.RowLock.Places

/-! # What tasks have to do with rows

The stake of a task says which row locks it has, which one it waits for and which ones it will take,
and what it is about to write remotely. A task that stands by its stake (`Task.StandsBy`) is in line
exactly where the stake says, and all it is about to write is told by the hosted rows. It keeps to
that with every step, and its step leaves to other tasks what they have (`Node.Moves`).
-/

namespace ServiceDirectory

open Activity

structure Stake where
  owned : List ServiceId
  awaited : List ServiceId
  todo : List ServiceId
  writes : List TxnOp

namespace Stake

def nothing : Stake := ⟨[], [], [], []⟩

def ids (k : Stake) : List ServiceId := k.owned ++ (k.awaited ++ k.todo)

end Stake

namespace Activity

def RowAction.stake (a : RowAction) : RowStage → Stake
  | .start => ⟨[], [], [a.id], []⟩
  | .queued => ⟨[], [a.id], [], []⟩
  | .locked | .inside | .forwarding none _ | .finishing _ => ⟨[a.id], [], [], []⟩
  | .forwarding (some q) _ => ⟨[a.id], [], [], q.operations⟩

def RepublishStage.stake : RepublishStage → Stake
  | .start => .nothing
  | .locking _ todo held => ⟨held, [], todo, []⟩
  | .queued _ id todo held => ⟨held, [id], todo, []⟩
  | .reading _ held | .finishing _ held => ⟨held, [], [], []⟩
  | .writing batches _ held => ⟨held, [], [], batches.flatten⟩

def stake : Activity → Stake
  | row action stage => action.stake stage
  | republishing stage | syncing (.republishing _ stage) => stage.stake
  | _ => .nothing

def isOperation : Activity → Bool
  | row _ _ | keepAlive _ _ | importing _ | republishing _ | syncing _ => true
  | acquiring _ | starting _ | watchLoop _ | leaseLoop _ | syncLoop _ => false

def RowStage.WritesOne : RowStage → Prop
  | .forwarding (some q) _ => ∃ op, q.operations = [op]
  | _ => True

def IsProper : Activity → Prop
  | row action stage => action.IsProper ∧ stage.WritesOne
  | _ => True

end Activity

structure Task where
  activity : Activity
  /-- The ids whose hosted rows its last change of the node removed. -/
  removed : ServiceId → Prop

def Node.Loses (n n' : Node) (id : ServiceId) : Prop := n.row? id ≠ none ∧ n'.row? id = none

def Task.after (n n' : Node) (activity : Activity) : Task := ⟨activity, n.Loses n'⟩

/-- The locks are sound, the hosted rows proper, and the node has a lease. -/
structure Node.IsSound (n : Node) : Prop where
  locks : n.locks.Sound
  registry : n.registry.IsProper
  lease : n.lease.isSome

/-- The task with this number has what the stake says. -/
structure Stake.Stands (k : Stake) (n : Node) (me : Nat) (removed : ServiceId → Prop) : Prop where
  mem_order_iff : ∀ id, me ∈ n.locks.order id ↔ id ∈ k.owned ++ k.awaited
  first : ∀ id ∈ k.owned, (n.locks.order id).head? = some me
  nodup : k.ids.Nodup
  storable : ∀ id ∈ k.ids, id.IsStorable
  told : ∀ op ∈ k.writes, ∃ id ∈ k.owned, n.IsTold removed id op

structure Task.StandsBy (T : Task) (n : Node) (me : Nat) : Prop where
  isOperation : T.activity.isOperation = true
  isProper : T.activity.IsProper
  stands : T.activity.stake.Stands n me T.removed

/-- A step of one task that leaves to the others their places in line and their rows. -/
structure Node.Moves (me : Nat) (n n' : Node) : Prop where
  sound : n'.IsSound
  settings : n'.settings = n.settings
  order : ∀ id, (n'.locks.order id).filter (· ≠ me) = (n.locks.order id).filter (· ≠ me)
  first : ∀ id t, t ≠ me → (n.locks.order id).head? = some t → (n'.locks.order id).head? = some t
  row : ∀ id, n'.row? id ≠ n.row? id → (n.locks.order id).head? = some me

namespace Node

variable {n n' : Node} {me : Nat} {id : ServiceId}

theorem Moves.of_rows (hn : n.IsSound) (hr : n'.registry.IsProper) (hl : n'.locks = n.locks)
    (hs : n'.settings = n.settings) (hlease : n'.lease.isSome)
    (hrow : ∀ id, n'.row? id ≠ n.row? id → (n.locks.order id).head? = some me) :
    n.Moves me n' where
  sound := ⟨hl ▸ hn.locks, hr, hlease⟩
  settings := hs
  order id := by rw [hl]
  first id t _ h := by rwa [hl]
  row := hrow

theorem Moves.of_eq (hn : n.IsSound) (hr : n'.registry.rows = n.registry.rows)
    (hl : n'.locks = n.locks) (hs : n'.settings = n.settings) (hlease : n'.lease.isSome) :
    n.Moves me n' :=
  .of_rows hn (hn.registry.of_rows hr) hl hs hlease fun id h =>
    absurd (by rw [row?, row?, hr]) h

theorem Moves.refl (hn : n.IsSound) : n.Moves me n := .of_eq hn rfl rfl rfl hn.lease

theorem Moves.of_locks (hn : n.IsSound) {locks : RowLocks} (h : RowLocks.Spares me n.locks locks) :
    n.Moves me { n with locks } where
  sound := ⟨h.sound, hn.registry, hn.lease⟩
  settings := rfl
  order := h.order
  first := h.first
  row _ h := absurd rfl h

theorem Moves.spares (h : n.Moves me n') : RowLocks.Spares me n.locks n'.locks :=
  ⟨h.sound.locks, h.order, h.first⟩

theorem Moves.mem_order_iff (h : n.Moves me n') {t : Nat} (ht : t ≠ me) (id : ServiceId) :
    t ∈ n'.locks.order id ↔ t ∈ n.locks.order id := h.spares.mem_order_iff ht id

theorem Moves.isTold (h : n.Moves me n') {t : Nat} (ht : t ≠ me)
    (hid : (n.locks.order id).head? = some t) {removed : ServiceId → Prop} {op : TxnOp}
    (hop : n.IsTold removed id op) : n'.IsTold removed id op := by
  have hk : n'.keyspace = n.keyspace := by rw [keyspace, keyspace, h.settings]
  have hr : n'.row? id = n.row? id := by
    by_contra hne
    have := h.row id hne
    rw [hid] at this
    exact ht (Option.some.inj this)
  cases op with
  | get key => exact hop
  | put key value lease => rwa [IsTold, hk, hr]
  | delete key => rwa [IsTold, hk, hr]

end Node

variable {n n' : Node} {me : Nat}

theorem Task.StandsBy.of_moves {T : Task} {t : Nat} (h : T.StandsBy n t) (hm : n.Moves me n')
    (ht : t ≠ me) : T.StandsBy n' t where
  isOperation := h.isOperation
  isProper := h.isProper
  stands := {
    mem_order_iff := fun id => (hm.mem_order_iff ht id).trans (h.stands.mem_order_iff id)
    first := fun id hid => hm.first id t ht (h.stands.first id hid)
    nodup := h.stands.nodup
    storable := h.stands.storable
    told := by
      intro op hop
      obtain ⟨id, hid, htold⟩ := h.stands.told op hop
      exact ⟨id, hid, hm.isTold ht (h.stands.first id hid) htold⟩ }

/-! ## Locks -/

theorem Node.releaseRow_foldl (n : Node) (me : Nat) (held : List ServiceId) :
    held.foldl (fun n id => n.releaseRow me id) n =
      { n with locks := n.locks.releaseAll me held } := by
  induction held generalizing n with
  | nil => rfl
  | cons id held ih => exact ih (n.releaseRow me id)

namespace Stake

variable {k k' : Stake} {removed removed' : ServiceId → Prop}

theorem Stands.of_locks (h : k.Stands n me removed) (hl : n'.locks = n.locks)
    (ho : k'.owned = k.owned) (ha : k'.awaited = k.awaited) (hn : k'.ids.Nodup)
    (hs : ∀ id ∈ k'.ids, id.IsStorable)
    (ht : ∀ op ∈ k'.writes, ∃ id ∈ k.owned, n'.IsTold removed' id op) :
    k'.Stands n' me removed' where
  mem_order_iff id := by rw [hl, ho, ha]; exact h.mem_order_iff id
  first id hid := by rw [hl]; exact h.first id (ho ▸ hid)
  nodup := hn
  storable := hs
  told op hop := by rw [ho]; exact ht op hop

theorem Stands.quiet (h : k.Stands n me removed) (hl : n'.locks = n.locks)
    (ho : k'.owned = k.owned) (ha : k'.awaited = k.awaited) (ht : k'.todo = k.todo)
    (hw : k'.writes = []) : k'.Stands n' me removed' := by
  have hids : k'.ids = k.ids := by rw [ids, ids, ho, ha, ht]
  apply h.of_locks hl ho ha (hids ▸ h.nodup) (hids ▸ h.storable)
  intro op hop
  rw [hw] at hop
  cases hop

variable {held todo : List ServiceId} {id : ServiceId} {ops : List TxnOp}

theorem Stands.places (h : k.Stands n me removed) : n.locks.Places me k.owned k.awaited :=
  ⟨h.mem_order_iff, h.first⟩

theorem Stands.claim (hn : n.IsSound) (h : Stands ⟨held, [], id :: todo, ops⟩ n me removed)
    (removed' : ServiceId → Prop) :
    n.Moves me (n.claimRow me id) ∧
      Stands ⟨held, [id], todo, []⟩ (n.claimRow me id) me removed' := by
  have hnot : id ∉ held := by
    intro hid
    have := h.nodup
    simp only [ids, List.nil_append, List.nodup_append] at this
    exact this.2.2 id hid id (.head _) rfl
  have hme : me ∉ n.locks.order id := fun hm => hnot (by simpa using (h.mem_order_iff id).1 hm)
  have hp : (n.locks.claim me id).Places me held [id] := h.places.claim hnot
  exact ⟨.of_locks hn (hn.locks.spares_claim hme),
    ⟨hp.mem_order_iff, hp.first, h.nodup, h.storable, by simp⟩⟩

theorem Stands.take (hn : n.IsSound) (h : Stands ⟨held, [id], todo, ops⟩ n me removed)
    (hown : n.ownsRow me id = true) (removed' : ServiceId → Prop) :
    n.Moves me (n.takeRow me id) ∧
      Stands ⟨held ++ [id], [], todo, []⟩ (n.takeRow me id) me removed' := by
  have hp : (n.locks.take me id).Places me (held ++ [id]) [] := h.places.take hn.locks hown
  refine ⟨.of_locks hn (hn.locks.spares_take me id), ⟨hp.mem_order_iff, hp.first, ?_, ?_, by simp⟩⟩
  · simpa [ids] using h.nodup
  · simpa [ids] using h.storable

theorem Stands.release (hn : n.IsSound) (h : Stands ⟨held, [], todo, ops⟩ n me removed) :
    n.Moves me (held.foldl (fun n id => n.releaseRow me id) n) ∧
      ∀ id, me ∉ (held.foldl (fun n id => n.releaseRow me id) n).locks.order id := by
  rw [Node.releaseRow_foldl]
  exact ⟨.of_locks hn (hn.locks.spares_releaseAll me held),
    RowLocks.places_nil_iff.1 (h.places.releaseAll hn.locks)⟩

end Stake

theorem Node.Moves.drop (hn : n.IsSound) (me : Nat) :
    n.Moves me (Activity.drop me n) ∧ ∀ id, me ∉ (Activity.drop me n).locks.order id := by
  obtain ⟨hs, hp⟩ := hn.locks.spares_drop me
  exact ⟨⟨⟨hs.sound, hn.registry, hn.lease⟩, rfl, hs.order, hs.first, fun _ h => absurd rfl h⟩,
    RowLocks.places_nil_iff.1 hp⟩

end ServiceDirectory
