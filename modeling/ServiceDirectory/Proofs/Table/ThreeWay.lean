import ServiceDirectory.Proofs.Table.Likeness

/-! # Three-way reconciliation

A reconciliation is an exact merge of three maps by id: where snapshot and target agree the row
there is stays; elsewhere the target is taken over if the row is still as in the snapshot, and the
row stays if it is not. The summary counts the ids by their fates. With a snapshot of the table
itself nothing is skipped, the table becomes equal to the target, and doing the same again does
nothing (`IsWellFormed.reconcileFrom_merges`).
-/

namespace ServiceDirectory

/-! ## A snapshot of the table itself -/

section

variable (current target : Option Row)

theorem Fate.of_self : Fate.of current current target =
    match current, target with
    | none, none => .untouched
    | none, some _ => .added
    | some _, none => .deleted
    | some row, some wanted => if row.same wanted then .untouched else .updated := by
  unfold Fate.of
  rw [if_pos (Row.sameFound_refl current)]
  cases current <;> cases target <;> rfl

theorem Fate.of_self_ne_skipped : Fate.of current current target ≠ .skipped := by
  rw [of_self]
  grind

/-- What was merged once differs from the snapshot in every id on which the target does. -/
theorem Table.sameFound_merged_again (h : Row.sameFound current target = false) :
    Row.sameFound (merged current current target) current = false := by
  rw [Row.sameFound_congr_left (sameFound_merged_self current target), Row.sameFound_comm, h]

theorem Table.merged_again : merged (merged current current target) current target =
    merged current current target := by
  cases h : Row.sameFound current target with
  | true => rw [merged, if_pos h]
  | false =>
    have hd := sameFound_merged_again current target h
    rw [merged, if_neg (by simp [h]), if_neg (by simp [hd])]

theorem Fate.of_merged_again :
    Fate.of (Table.merged current current target) current target = .untouched ∨
      Fate.of (Table.merged current current target) current target = .skipped := by
  cases h : Row.sameFound current target with
  | true => exact .inl (Fate.of_eq_untouched_iff.2 h)
  | false =>
    have hd := Table.sameFound_merged_again current target h
    refine .inr ?_
    unfold Fate.of
    rw [if_neg (by simp [h]), if_neg (by simp [hd])]

end

namespace Summary

theorem skipped_ofFates_self (ids : List ServiceId) (current target : ServiceId → Option Row) :
    (ofFates (ids.map fun id => Fate.of (current id) (current id) (target id))).skipped = 0 := by
  refine List.count_eq_zero.2 fun h => ?_
  obtain ⟨id, -, hid⟩ := List.mem_map.1 h
  exact Fate.of_self_ne_skipped _ _ hid

theorem isNoop_ofFates {fates : List Fate}
    (h : ∀ fate ∈ fates, fate = .untouched ∨ fate = .skipped) : (ofFates fates).isNoop = true := by
  have hzero : ∀ fate : Fate, fate ≠ .untouched → fate ≠ .skipped → fates.count fate = 0 :=
    fun fate hu hs => List.count_eq_zero.2 fun hm => (h fate hm).elim hu hs
  simp [isNoop, ofFates, hzero]

end Summary

namespace Table

variable {t : Table} {snapshot target : List Row}

/-- With a snapshot of its own a table comes to show the target, and nothing is skipped. The same
again, with that snapshot or a new one, does nothing. -/
theorem IsWellFormed.reconcileFrom_all (ht : t.IsWellFormed) (hg : ∀ row ∈ target, row.IsStorable) :
    ∃ all n t', t.all = .ok all ∧ t.reconcileFrom all target = .ok (n, t') ∧ n.skipped = 0 ∧
      t'.IsWellFormed ∧ t'.Shows (rowsById target).find? ∧
      t'.reconcile target = .ok (.zero, t') ∧
        ∃ n', t'.reconcileFrom all target = .ok (n', t') ∧ n'.isNoop = true := by
  obtain ⟨all, hall, hst, hseen⟩ := ht.rowsById_all
  obtain ⟨t', heq, ht', hrow⟩ := ht.reconcileFrom_spec hst hg
  obtain ⟨t'', heq', ht'', hrow'⟩ := ht'.reconcileFrom_spec hst hg
  simp only [hseen] at heq hrow heq' hrow'
  have hshows : t'.Shows (rowsById target).find? := fun id =>
    hrow id ▸ sameFound_merged_self _ _
  have hsame : t'' = t' := ht''.ext_row? ht' fun id => by rw [hrow', hrow, merged_again]
  refine ⟨all, _, t', hall, heq, Summary.skipped_ofFates_self _ _ _, ht', hshows,
    ht'.reconcile_eq_self hshows, _, hsame ▸ heq', Summary.isNoop_ofFates fun fate hf => ?_⟩
  obtain ⟨id, -, rfl⟩ := List.mem_map.1 hf
  rw [hrow]
  exact Fate.of_merged_again _ _

/-- Reconciling is an exact three-way merge, and the summary is the tally of what befell the ids
that snapshot or target name. With a snapshot of the table itself it makes the table equal to the
target. -/
theorem IsWellFormed.reconcileFrom_merges (ht : t.IsWellFormed)
    (hs : ∀ row ∈ snapshot, row.IsStorable) (hg : ∀ row ∈ target, row.IsStorable) :
    (∃ t', t.reconcileFrom snapshot target = .ok (.ofFates ((namedIds snapshot target).map fun id =>
          Fate.of (t.row? id) ((rowsById snapshot).find? id) ((rowsById target).find? id)), t') ∧
      t'.IsWellFormed ∧ ∀ id, t'.row? id =
        merged (t.row? id) ((rowsById snapshot).find? id) ((rowsById target).find? id)) ∧
    ∃ all n t', t.all = .ok all ∧ t.reconcileFrom all target = .ok (n, t') ∧ n.skipped = 0 ∧
      t'.IsWellFormed ∧ t'.Shows (rowsById target).find? ∧
      t'.reconcile target = .ok (.zero, t') ∧
        ∃ n', t'.reconcileFrom all target = .ok (n', t') ∧ n'.isNoop = true :=
  ⟨ht.reconcileFrom_spec hs hg, ht.reconcileFrom_all hg⟩

/-! Five ids, one for each fate; the row `moved` was moved after the snapshot was taken. -/

def rowAt (name : String) (port : UInt16) : Row :=
  ⟨⟨"node", "http", name⟩, "localhost", port, 30, "\x7b\x7d"⟩

def crowded : Table :=
  (((empty.write (rowAt "kept" 1)).write (rowAt "raised" 1)).write (rowAt "gone" 1)).write
    (rowAt "moved" 2)

def crowdedSnapshot : List Row :=
  [rowAt "kept" 1, rowAt "raised" 1, rowAt "gone" 1, rowAt "moved" 1]

def crowdedTarget : List Row :=
  [rowAt "raised" 9, rowAt "kept" 1, rowAt "fresh" 1, rowAt "moved" 3, rowAt "raised" 2]

theorem crowded_isWellFormed : crowded.IsWellFormed :=
  (((isWellFormed_empty.write (by decide +kernel)).write (by decide +kernel)).write
    (by decide +kernel)).write (by decide +kernel)

theorem reconcileFrom_merges_crowded : crowded.IsWellFormed ∧
    (∀ row ∈ crowdedSnapshot, row.IsStorable) ∧ (∀ row ∈ crowdedTarget, row.IsStorable) ∧
    ∃ t', crowded.reconcileFrom crowdedSnapshot crowdedTarget = .ok (⟨1, 1, 1, 1⟩, t') ∧
      t'.row? (rowAt "kept" 1).id = some (rowAt "kept" 1) ∧
      t'.row? (rowAt "fresh" 1).id = some (rowAt "fresh" 1) ∧
      t'.row? (rowAt "raised" 2).id = some (rowAt "raised" 2) ∧
      t'.row? (rowAt "gone" 1).id = none ∧
      t'.row? (rowAt "moved" 2).id = some (rowAt "moved" 2) := by
  have hs : ∀ row ∈ crowdedSnapshot, row.IsStorable := by decide +kernel
  have hg : ∀ row ∈ crowdedTarget, row.IsStorable := by decide +kernel
  obtain ⟨⟨t', heq, -, hrow⟩, -⟩ := crowded_isWellFormed.reconcileFrom_merges hs hg
  have hcount : Summary.ofFates ((namedIds crowdedSnapshot crowdedTarget).map fun id =>
      Fate.of (crowded.row? id) ((rowsById crowdedSnapshot).find? id)
        ((rowsById crowdedTarget).find? id)) = ⟨1, 1, 1, 1⟩ := by decide +kernel
  refine ⟨crowded_isWellFormed, hs, hg, t', hcount ▸ heq, ?_⟩
  simp only [hrow]
  decide +kernel

end Table

end ServiceDirectory
