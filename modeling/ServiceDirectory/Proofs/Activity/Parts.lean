import ServiceDirectory.Proofs.Activity.Transitions

/-! # Steps of the parts of tasks

A task is a change of a row, a part of a synchronization or the keeping alive of a row. A step of a
part leaves to others what they have, and the part goes on standing by its stake; only a change of a
row changes hosted rows, and a write follows it.
-/

namespace ServiceDirectory

open Activity

variable {n n' : Node} {me now : Nat} {removed : ServiceId → Prop}

namespace Activity.RowAction

variable {a : RowAction} {stage stage' : RowStage}

theorem Performs.stands (hn : n.IsSound) (ha : a.IsProper)
    (hs : (a.stake .inside).Stands n me removed)
    (h : Performs { n with mutex := none } a n' stage') :
    n.Moves me n' ∧ (a.stake stage').Stands n' me (n.Loses n') := by
  have hfirst : ∀ id, id = a.id → (n.locks.order id).head? = some me := fun id hid =>
    hs.first id (by simp [stake, hid])
  cases h with
  | kept result hr => exact ⟨.of_eq hn hr rfl rfl hn.lease, hs.quiet rfl rfl rfl rfl rfl⟩
  | @wrote row registry lease result hrow hr =>
    subst hrow
    have hrow : ∀ id, registry.rows.row? id = if id = row.id then some row else n.row? id :=
      fun id => by rw [hr]; exact hn.registry.rows.wellFormed.row?_write ha.1.storable id
    refine ⟨.of_rows hn (hn.registry.write ha.1 ha.2 hr) rfl rfl hn.lease fun id hne => ?_,
      hs.of_locks rfl rfl rfl hs.nodup hs.storable fun op hop => ?_⟩
    · refine hfirst id (by_contra fun hid => hne ?_)
      exact (hrow id).trans (if_neg hid)
    · rw [List.mem_singleton.1 hop]
      refine ⟨row.id, .head _, ha.2, rfl, row, ?_, Keyspace.encode_eq ha.1.canonical⟩
      exact (hrow row.id).trans (if_pos rfl)
  | @removed registry result hid hr =>
    have hrow : ∀ id, registry.rows.row? id = if id = a.id then none else n.row? id :=
      fun id => by rw [hr]; exact hn.registry.rows.wellFormed.row?_erase ha.id_isStorable id
    refine ⟨.of_rows hn (hn.registry.erase ha.id_isStorable hr) rfl rfl hn.lease fun id hne => ?_,
      hs.of_locks rfl rfl rfl hs.nodup hs.storable fun op hop => ?_⟩
    · refine hfirst id (by_contra fun hid => hne ?_)
      exact (hrow id).trans (if_neg hid)
    · rw [List.mem_singleton.1 hop]
      have hnone : registry.rows.row? a.id = none := (hrow a.id).trans (if_pos rfl)
      obtain ⟨row, hrow⟩ := Option.ne_none_iff_exists'.1 hid
      exact ⟨a.id, .head _, hn.registry.valid a.id row hrow, rfl, hnone, hid, hnone⟩

theorem Performs.row (h : Performs n a n' stage') {id : ServiceId} (hid : n'.row? id ≠ n.row? id) :
    ∃ q result, stage' = .forwarding (some q) result := by
  cases h with
  | kept result hr => exact absurd (congrArg (Table.row? · id) hr) hid
  | wrote lease result hrow hr => exact ⟨_, _, rfl⟩
  | removed result hid hr => exact ⟨_, _, rfl⟩

theorem Performs.writesOne (h : Performs n a n' stage') : stage'.WritesOne := by
  cases h with
  | kept result hr => trivial
  | wrote lease result hrow hr => exact ⟨_, rfl⟩
  | removed result hid hr => exact ⟨_, rfl⟩

theorem Moved.writesOne (h : Moved n me now a stage n' stage') (hn : n.IsSound)
    (ha : a.IsProper) : stage'.WritesOne := by
  cases h with
  | performed =>
    exact (perform_spec (n := { n with mutex := none }) now hn.registry hn.lease ha).writesOne
  | _ => trivial

theorem Moved.stands (h : Moved n me now a stage n' stage') (hn : n.IsSound) (ha : a.IsProper)
    (hs : (a.stake stage).Stands n me removed) :
    n.Moves me n' ∧ (a.stake stage').Stands n' me (n.Loses n') := by
  cases h with
  | claimed => exact hs.claim hn _
  | took hown => exact hs.take hn hown _
  | entered => exact ⟨.of_eq hn rfl rfl rfl hn.lease, hs.quiet rfl rfl rfl rfl rfl⟩
  | performed =>
    exact (perform_spec (n := { n with mutex := none }) now hn.registry hn.lease ha).stands hn ha hs
  | skipped result => exact ⟨.refl hn, hs.quiet rfl rfl rfl rfl rfl⟩

/-- Only a change that a write follows changes a hosted row. -/
theorem Moved.row (h : Moved n me now a stage n' stage') (hn : n.IsSound) (ha : a.IsProper)
    {id : ServiceId} (hid : n'.row? id ≠ n.row? id) :
    ∃ q result, stage' = .forwarding (some q) result := by
  cases h with
  | performed =>
    exact (perform_spec (n := { n with mutex := none }) now hn.registry hn.lease ha).row hid
  | _ => exact absurd rfl hid

end Activity.RowAction

namespace Activity

variable {stage stage' : RepublishStage} {maxTxnOps : Nat}

theorem RepublishMoved.stands (h : RepublishMoved n me maxTxnOps stage n' stage') (hn : n.IsSound)
    (hs : stage.stake.Stands n me removed) :
    n.Moves me n' ∧ n'.registry = n.registry ∧ stage'.stake.Stands n' me (n.Loses n') := by
  cases h with
  | gathered lease hids =>
    obtain ⟨hnodup, hst⟩ := staleIds_spec hn.registry hids
    exact ⟨.refl hn, rfl, hs.of_locks rfl rfl rfl hnodup hst (by simp [RepublishStage.stake])⟩
  | claimed lease id todo held =>
    obtain ⟨hm, hs'⟩ := hs.claim hn _
    exact ⟨hm, rfl, hs'⟩
  | took lease todo held hown =>
    obtain ⟨hm, hs'⟩ := hs.take hn hown _
    exact ⟨hm, rfl, hs'⟩
  | locked lease held => exact ⟨.refl hn, rfl, hs.quiet rfl rfl rfl rfl rfl⟩
  | @read lease held ops hops =>
    have hheld : ∀ id ∈ held, id.IsStorable := fun id hid => hs.storable id (by
      simp [RepublishStage.stake, Stake.ids, hid])
    have htold := republishOps_spec hn.registry hheld hops (n.Loses n)
    refine ⟨.refl hn, rfl, hs.of_locks rfl rfl rfl hs.nodup hs.storable fun op hop => ?_⟩
    obtain ⟨batch, hb, hop⟩ := List.mem_flatten.1 hop
    exact htold op (mem_of_mem_batchesOf hb hop)
  | skipped lease held result => exact ⟨.refl hn, rfl, hs.quiet rfl rfl rfl rfl rfl⟩
  | wrote count held => exact ⟨.refl hn, rfl, hs.quiet rfl rfl rfl rfl rfl⟩

theorem RepublishFinished.leaves (h : RepublishFinished n me stage n') (hn : n.IsSound)
    (hs : stage.stake.Stands n me removed) :
    n.Moves me n' ∧ n'.registry = n.registry ∧ ∀ id, me ∉ n'.locks.order id := by
  cases h with
  | skipped =>
    refine ⟨.refl hn, rfl, fun id hm => ?_⟩
    simpa [RepublishStage.stake, Stake.nothing] using (hs.mem_order_iff id).1 hm
  | released result held =>
    obtain ⟨hm, hid⟩ := hs.release hn
    exact ⟨hm, by rw [Node.releaseRow_foldl], hid⟩

theorem RepublishAsked.stands {q : Request} {next : q.Answer → RepublishStage}
    (h : RepublishAsked stage q next) (hs : stage.stake.Stands n me removed) :
    q.operations ⊆ stage.stake.writes ∧ ∀ answer, (next answer).stake.Stands n me removed := by
  cases h with
  | wrote hok herror =>
    refine ⟨fun op hop => List.mem_append_left _ hop, fun answer => ?_⟩
    cases answer with
    | error e =>
      obtain ⟨result, he⟩ := herror e
      rw [he]
      exact hs.quiet rfl rfl rfl rfl rfl
    | ok replies =>
      rw [hok]
      exact hs.of_locks rfl rfl rfl hs.nodup hs.storable fun op hop =>
        hs.told op (List.mem_append_right _ hop)

end Activity

end ServiceDirectory
