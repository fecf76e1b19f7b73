import ServiceDirectory.Proofs.Table.Changes
import ServiceDirectory.Proofs.Table.Tally

/-! # What a reconciliation leaves

Reconciling merges three views of each id: the row there is, the row of the snapshot and the row of
the target (`merged`), and counts the fates of the ids that snapshot or target name
(`IsWellFormed.reconcileFrom_spec`). With a snapshot of the table itself nothing counts but the
target, so the table becomes equal to it (`IsProper.reconcile_eq`).
-/

namespace ServiceDirectory

theorem find?_rowsById (rows : List Row) (id : ServiceId) :
    (rowsById rows).find? id = Dictionary.lastFor id (rows.map fun r => (r.id, r)) :=
  Dictionary.find?_ofList _ _

theorem mem_of_find?_rowsById {rows : List Row} {id : ServiceId} {row : Row}
    (h : (rowsById rows).find? id = some row) : row ∈ rows ∧ row.id = id := by
  rw [find?_rowsById] at h
  obtain ⟨r, hr, heq⟩ := List.mem_map.1 (Dictionary.mem_of_lastFor h)
  cases heq
  exact ⟨hr, rfl⟩

namespace Table

variable {t : Table} {id : ServiceId} {row : Row}

/-- The row that is left where `current` was found, given what snapshot and target have. -/
def merged (current seen target : Option Row) : Option Row :=
  if Row.sameFound seen target then current
  else if Row.sameFound current seen then target else current

/-! ## Writes -/

def writeFor (id : ServiceId) (ws : List (Row × Option Row)) : Option (Row × Option Row) :=
  ws.find? fun w => w.1.id = id

theorem writeIfSeen_eq (ht : t.IsWellFormed) {w : Row × Option Row} (hw : w.1.IsStorable)
    (hd : Row.sameFound w.2 (some w.1) = false) (n : Summary) : ∃ t', writeIfSeen (n, t) w =
        .ok (n + .ofFates [Fate.of (t.row? w.1.id) w.2 (some w.1)], t') ∧ t'.IsWellFormed ∧
      ∀ id, t'.row? id = if w.1.id = id ∧ Row.sameFound (t.row? id) w.2 = true then some w.1
        else t.row? id := by
  have hf := ht.find_eq hw.id
  by_cases h : Row.sameFound (t.row? w.1.id) w.2 = true
  · have hn : n.countWritten (t.row? w.1.id) =
        n + .ofFates [Fate.of (t.row? w.1.id) w.2 (some w.1)] := by
      cases hc : t.row? w.1.id <;> rw [hc] at h <;> simp [Fate.of, hd, h] <;> rfl
    refine ⟨t.write w.1, by simp [writeIfSeen, hf, h, hn], ht.write hw, fun id => ?_⟩
    rw [ht.row?_write hw]
    by_cases hid : w.1.id = id
    · subst hid
      simp [h]
    · simp [hid, Ne.symm hid]
  · have hn : n.countSkipped = n + .ofFates [Fate.of (t.row? w.1.id) w.2 (some w.1)] := by
      simp [Fate.of, hd, h, Summary.countSkipped_eq_add]
    refine ⟨t, by simp [writeIfSeen, hf, h, hn], ht, fun id => ?_⟩
    rw [if_neg]
    rintro ⟨rfl, hs⟩
    exact h hs

theorem foldlM_writeIfSeen (ht : t.IsWellFormed) (ws : List (Row × Option Row))
    (hws : ∀ w ∈ ws, w.1.IsStorable) (hd : ∀ w ∈ ws, Row.sameFound w.2 (some w.1) = false)
    (hne : ws.Pairwise fun a b => a.1.id ≠ b.1.id) (n : Summary) :
    ∃ t', ws.foldlM writeIfSeen (n, t) =
        .ok (n + .ofFates (ws.map fun w => Fate.of (t.row? w.1.id) w.2 (some w.1)), t') ∧
      t'.IsWellFormed ∧ ∀ id, t'.row? id = match writeFor id ws with
        | some w => if Row.sameFound (t.row? id) w.2 then some w.1 else t.row? id
        | none => t.row? id := by
  induction ws generalizing t n with
  | nil => exact ⟨t, rfl, ht, fun id => rfl⟩
  | cons w ws ih =>
    obtain ⟨hw, hne⟩ := List.pairwise_cons.1 hne
    obtain ⟨t₁, h₁, ht₁, hrow₁⟩ := writeIfSeen_eq ht (hws w (.head _)) (hd w (.head _)) n
    obtain ⟨t₂, h₂, ht₂, hrow₂⟩ := ih ht₁ (fun w h => hws w (.tail _ h))
      (fun w h => hd w (.tail _ h)) hne (n + .ofFates [Fate.of (t.row? w.1.id) w.2 (some w.1)])
    have hfates : (ws.map fun w => Fate.of (t₁.row? w.1.id) w.2 (some w.1)) =
        ws.map fun w => Fate.of (t.row? w.1.id) w.2 (some w.1) :=
      List.map_congr_left fun x hx => by rw [hrow₁, if_neg fun h => hw x hx h.1]
    refine ⟨t₂, ?_, ht₂, fun id => ?_⟩
    · rw [List.foldlM_cons, h₁]
      refine h₂.trans ?_
      rw [hfates, Summary.add_assoc, ← Summary.ofFates_append]
      rfl
    · rw [hrow₂, hrow₁, writeFor, writeFor, List.find?_cons]
      by_cases hid : w.1.id = id
      · have hnone : ws.find? (fun w => w.1.id = id) = none :=
          List.find?_eq_none.2 fun x hx => by
            have := hw x hx
            rw [hid] at this
            simpa using Ne.symm this
        simp [hid, hnone]
      · simp [hid]

/-! ## Deletes -/

theorem deleteIfSeen_eq (ht : t.IsWellFormed) (hrow : row.IsStorable) (n : Summary) :
    ∃ t', deleteIfSeen (n, t) row =
        .ok (n + .ofFates [Fate.of (t.row? row.id) (some row) none], t') ∧ t'.IsWellFormed ∧
      ∀ id, t'.row? id = if row.id = id ∧ Row.sameFound (t.row? id) (some row) = true then none
        else t.row? id := by
  have hf := ht.find_eq hrow.id
  have hd : Row.sameFound (some row) none = false := rfl
  by_cases h : Row.sameFound (t.row? row.id) (some row) = true
  · have hn : n.countDeleted = n + .ofFates [Fate.of (t.row? row.id) (some row) none] := by
      cases hc : t.row? row.id with
      | none =>
        rw [hc] at h
        cases h
      | some current =>
        rw [hc] at h
        simp [Fate.of, hd, h, Summary.countDeleted_eq_add]
    refine ⟨t.erase row.id, by simp [deleteIfSeen, hf, h, hn], ht.erase row.id, fun id => ?_⟩
    rw [ht.row?_erase hrow.id]
    by_cases hid : row.id = id
    · subst hid
      simp [h]
    · simp [hid, Ne.symm hid]
  · have hn : n.countSkipped = n + .ofFates [Fate.of (t.row? row.id) (some row) none] := by
      simp [Fate.of, hd, h, Summary.countSkipped_eq_add]
    refine ⟨t, by simp [deleteIfSeen, hf, h, hn], ht, fun id => ?_⟩
    rw [if_neg]
    rintro ⟨rfl, hs⟩
    exact h hs

theorem foldlM_deleteIfSeen (ht : t.IsWellFormed) (rows : List Row)
    (hrows : ∀ row ∈ rows, row.IsStorable) (hne : rows.Pairwise fun a b => a.id ≠ b.id)
    (n : Summary) : ∃ t', rows.foldlM deleteIfSeen (n, t) =
        .ok (n + .ofFates (rows.map fun r => Fate.of (t.row? r.id) (some r) none), t') ∧
      t'.IsWellFormed ∧ ∀ id, t'.row? id = match rows.find? fun r => r.id = id with
        | some row => if Row.sameFound (t.row? id) (some row) then none else t.row? id
        | none => t.row? id := by
  induction rows generalizing t n with
  | nil => exact ⟨t, rfl, ht, fun id => rfl⟩
  | cons row rows ih =>
    obtain ⟨hrow, hne⟩ := List.pairwise_cons.1 hne
    obtain ⟨t₁, h₁, ht₁, hrow₁⟩ := deleteIfSeen_eq ht (hrows row (.head _)) n
    obtain ⟨t₂, h₂, ht₂, hrow₂⟩ := ih ht₁ (fun r h => hrows r (.tail _ h)) hne
      (n + .ofFates [Fate.of (t.row? row.id) (some row) none])
    have hfates : (rows.map fun r => Fate.of (t₁.row? r.id) (some r) none) =
        rows.map fun r => Fate.of (t.row? r.id) (some r) none :=
      List.map_congr_left fun x hx => by rw [hrow₁, if_neg fun h => hrow x hx h.1]
    refine ⟨t₂, ?_, ht₂, fun id => ?_⟩
    · rw [List.foldlM_cons, h₁]
      refine h₂.trans ?_
      rw [hfates, Summary.add_assoc, ← Summary.ofFates_append]
      rfl
    · rw [hrow₂, hrow₁, List.find?_cons]
      by_cases hid : row.id = id
      · have hnone : rows.find? (fun r => r.id = id) = none :=
          List.find?_eq_none.2 fun x hx => by
            have := hrow x hx
            rw [hid] at this
            simpa using Ne.symm this
        simp [hid, hnone]
      · simp [hid]

/-! ## Both -/

def IsById (d : Dictionary ServiceId Row) : Prop := ∀ id row, d.find? id = some row → row.id = id

theorem isById_rowsById (rows : List Row) : IsById (rowsById rows) :=
  fun _ _ h => (mem_of_find?_rowsById h).2

theorem entry_id {d : Dictionary ServiceId Row} (hd : IsById d) {e : ServiceId × Row}
    (he : e ∈ d.entries) : e.2.id = e.1 :=
  hd e.1 e.2 ((Dictionary.find?_eq_some_iff _ _ _).2 he)

theorem mem_writesFor_iff {snapshot target : Dictionary ServiceId Row} {w : Row × Option Row}
    (ht : IsById target) : w ∈ writesFor snapshot target ↔
      target.find? w.1.id = some w.1 ∧ w.2 = snapshot.find? w.1.id ∧
        Row.sameFound w.2 (some w.1) = false := by
  simp only [writesFor, List.mem_map, List.mem_filter]
  constructor
  · rintro ⟨e, ⟨he, hs⟩, rfl⟩
    rw [entry_id ht he]
    exact ⟨(Dictionary.find?_eq_some_iff _ _ _).2 he, rfl, by simpa using hs⟩
  · rintro ⟨hf, hw, hs⟩
    refine ⟨(w.1.id, w.1), ⟨(Dictionary.find?_eq_some_iff _ _ _).1 hf, ?_⟩, ?_⟩
    · rw [← hw, hs]
      rfl
    · rw [← hw]

theorem writeFor_writesFor {snapshot target : Dictionary ServiceId Row} (ht : IsById target)
    (id : ServiceId) :
    writeFor id (writesFor snapshot target) = match target.find? id with
      | some row =>
        if Row.sameFound (snapshot.find? id) (some row) then none else some (row, snapshot.find? id)
      | none => none := by
  cases hw : writeFor id (writesFor snapshot target) with
  | none =>
    rw [writeFor, List.find?_eq_none] at hw
    cases hf : target.find? id with
    | none => rfl
    | some row =>
      obtain rfl := ht id row hf
      by_contra hne
      have hs : Row.sameFound (snapshot.find? row.id) (some row) = false := by
        by_contra hs
        simp [hs] at hne
      have hmem : (row, snapshot.find? row.id) ∈ writesFor snapshot target :=
        (mem_writesFor_iff ht).2 ⟨hf, rfl, hs⟩
      exact hw _ hmem (by simp)
  | some w =>
    obtain rfl : w.1.id = id := by simpa using List.find?_some hw
    obtain ⟨hf, hseen, hs⟩ := (mem_writesFor_iff ht).1 (List.mem_of_find?_eq_some hw)
    simp [hf, ← hseen, hs]

theorem pairwise_writesFor {snapshot target : Dictionary ServiceId Row} (ht : IsById target) :
    (writesFor snapshot target).Pairwise fun a b => a.1.id ≠ b.1.id := by
  rw [writesFor, List.pairwise_map]
  refine List.Pairwise.filter _ (List.Pairwise.imp_of_mem ?_ target.entries_pairwise_ne)
  intro a b ha hb hne
  rwa [entry_id ht ha, entry_id ht hb]

theorem mem_deletesFor_iff {snapshot target : Dictionary ServiceId Row} (hs : IsById snapshot) :
    row ∈ deletesFor snapshot target ↔
      snapshot.find? row.id = some row ∧ target.find? row.id = none := by
  simp only [deletesFor, Dictionary.mem_values_iff, Dictionary.find?_filter,
    Option.filter_eq_some_iff, Dictionary.contains]
  constructor
  · rintro ⟨k, hk, hc⟩
    rw [hs k row hk]
    exact ⟨hk, by simpa using hc⟩
  · rintro ⟨hk, hn⟩
    exact ⟨row.id, hk, by simp [hn]⟩

theorem find?_deletesFor {snapshot target : Dictionary ServiceId Row} (hs : IsById snapshot)
    (id : ServiceId) :
    (deletesFor snapshot target).find? (fun r => r.id = id) =
      if target.contains id then none else snapshot.find? id := by
  cases hd : (deletesFor snapshot target).find? fun r => r.id = id with
  | none =>
    rw [List.find?_eq_none] at hd
    cases hf : snapshot.find? id with
    | none => simp
    | some row =>
      obtain rfl := hs id row hf
      cases hg : target.find? row.id with
      | none => exact absurd (by simp) (hd row ((mem_deletesFor_iff hs).2 ⟨hf, hg⟩))
      | some other => simp [Dictionary.contains, hg]
  | some row =>
    obtain rfl : row.id = id := by simpa using List.find?_some hd
    obtain ⟨hf, hg⟩ := (mem_deletesFor_iff hs).1 (List.mem_of_find?_eq_some hd)
    simp [Dictionary.contains, hf, hg]

theorem pairwise_deletesFor {snapshot target : Dictionary ServiceId Row} (hs : IsById snapshot) :
    (deletesFor snapshot target).Pairwise fun a b => a.id ≠ b.id := by
  rw [deletesFor, Dictionary.values, List.pairwise_map]
  refine List.Pairwise.imp_of_mem ?_ (Dictionary.entries_pairwise_ne _)
  intro a b ha hb hne
  rwa [entry_id hs (List.mem_of_mem_filter ha), entry_id hs (List.mem_of_mem_filter hb)]

/-! ### The ids that are named -/

def namedIds (snapshot target : List Row) : List ServiceId := (rowsById (snapshot ++ target)).keys

theorem nodup_namedIds (snapshot target : List Row) : (namedIds snapshot target).Nodup :=
  List.pairwise_map.2 (Dictionary.entries_pairwise_ne _)

theorem find?_rowsById_eq_none_iff {rows : List Row} :
    (rowsById rows).find? id = none ↔ ∀ row ∈ rows, row.id ≠ id := by
  simp [find?_rowsById, Dictionary.lastFor_eq_none_iff]

theorem mem_namedIds_iff {snapshot target : List Row} : id ∈ namedIds snapshot target ↔
    (rowsById snapshot).find? id ≠ none ∨ (rowsById target).find? id ≠ none := by
  have hk : id ∈ namedIds snapshot target ↔ (rowsById (snapshot ++ target)).find? id ≠ none := by
    rw [namedIds, Dictionary.mem_keys_iff, ← Option.ne_none_iff_exists']
  rw [hk, Ne, Ne, Ne, find?_rowsById_eq_none_iff, find?_rowsById_eq_none_iff,
    find?_rowsById_eq_none_iff, ← not_and_or]
  simp [or_imp, forall_and]

/-- What is written and what is deleted are the ids on which snapshot and target differ. -/
theorem perm_writes_deletes (snapshot target : List Row) :
    ((namedIds snapshot target).filter fun id =>
        !Row.sameFound ((rowsById snapshot).find? id) ((rowsById target).find? id)).Perm
      ((writesFor (rowsById snapshot) (rowsById target)).map (·.1.id) ++
        (deletesFor (rowsById snapshot) (rowsById target)).map (·.id)) := by
  have hsid := isById_rowsById snapshot
  have hgid := isById_rowsById target
  -- what is written is in the target, and what is deleted is not
  have hapart : ((writesFor (rowsById snapshot) (rowsById target)).map (·.1.id)).Disjoint
      ((deletesFor (rowsById snapshot) (rowsById target)).map (·.id)) := by
    intro id hwritten hdeleted
    obtain ⟨w, hw, hwid⟩ := List.mem_map.1 hwritten
    obtain ⟨row, hrow, hrowid⟩ := List.mem_map.1 hdeleted
    have hsome := ((mem_writesFor_iff hgid).1 hw).1
    have hnone := ((mem_deletesFor_iff hsid).1 hrow).2
    rw [hrowid, ← hwid, hsome] at hnone
    cases hnone
  have hnodup := List.nodup_append'.2 ⟨List.pairwise_map.2 (pairwise_writesFor hgid),
    List.pairwise_map.2 (pairwise_deletesFor hsid), hapart⟩
  refine (List.perm_ext_iff_of_nodup ((nodup_namedIds _ _).filter _) hnodup).2 fun id => ?_
  simp only [List.mem_filter, mem_namedIds_iff, List.mem_append, List.mem_map,
    mem_writesFor_iff hgid, mem_deletesFor_iff hsid]
  constructor
  · rintro ⟨-, hs⟩
    cases hg : (rowsById target).find? id with
    | some row =>
      obtain rfl := hgid id row hg
      rw [hg] at hs
      exact .inl ⟨(row, (rowsById snapshot).find? row.id), ⟨hg, rfl, by simpa using hs⟩, rfl⟩
    | none =>
      cases hf : (rowsById snapshot).find? id with
      | none =>
        rw [hg, hf] at hs
        cases hs
      | some row =>
        obtain rfl := hsid id row hf
        exact .inr ⟨row, ⟨hf, hg⟩, rfl⟩
  · rintro (⟨w, ⟨hg, hw, hs⟩, rfl⟩ | ⟨row, ⟨hf, hg⟩, rfl⟩)
    · rw [hg, ← hw, hs]
      exact ⟨.inr (by simp), rfl⟩
    · rw [hf, hg]
      exact ⟨.inl (by simp), rfl⟩

theorem ofFates_namedIds (current : ServiceId → Option Row) (snapshot target : List Row) :
    Summary.ofFates ((namedIds snapshot target).map fun id =>
        Fate.of (current id) ((rowsById snapshot).find? id) ((rowsById target).find? id)) =
      .ofFates ((writesFor (rowsById snapshot) (rowsById target)).map fun w =>
        Fate.of (current w.1.id) w.2 (some w.1)) +
      .ofFates ((deletesFor (rowsById snapshot) (rowsById target)).map fun row =>
        Fate.of (current row.id) (some row) none) := by
  have hwrites : ∀ w ∈ writesFor (rowsById snapshot) (rowsById target),
      Fate.of (current w.1.id) ((rowsById snapshot).find? w.1.id)
        ((rowsById target).find? w.1.id) = Fate.of (current w.1.id) w.2 (some w.1) := by
    intro w hw
    obtain ⟨hg, hw, -⟩ := (mem_writesFor_iff (isById_rowsById target)).1 hw
    rw [hg, hw]
  have hdeletes : ∀ row ∈ deletesFor (rowsById snapshot) (rowsById target),
      Fate.of (current row.id) ((rowsById snapshot).find? row.id)
        ((rowsById target).find? row.id) = Fate.of (current row.id) (some row) none := by
    intro row hrow
    obtain ⟨hf, hg⟩ := (mem_deletesFor_iff (isById_rowsById snapshot)).1 hrow
    rw [hf, hg]
  have hdecided := (perm_writes_deletes snapshot target).map fun id =>
    Fate.of (current id) ((rowsById snapshot).find? id) ((rowsById target).find? id)
  rw [List.map_append, List.map_map, List.map_map] at hdecided
  rw [← Summary.ofFates_filter, List.filter_map, ← List.map_congr_left hwrites,
    ← List.map_congr_left hdeletes, ← Summary.ofFates_append]
  refine Summary.ofFates_perm (List.Perm.trans (.of_eq ?_) hdecided)
  refine congrArg (List.map _) (List.filter_congr fun id _ => ?_)
  simp only [Function.comp_apply, ne_eq, Fate.of_eq_untouched_iff, decide_not, Bool.decide_eq_true]

/-- Every id is left with the merge of what table, snapshot and target have for it, and what befell
the ids is counted. -/
theorem IsWellFormed.reconcileFrom_spec (ht : t.IsWellFormed) {snapshot target : List Row}
    (hs : ∀ row ∈ snapshot, row.IsStorable) (hg : ∀ row ∈ target, row.IsStorable) :
    ∃ t', t.reconcileFrom snapshot target = .ok (.ofFates ((namedIds snapshot target).map fun id =>
          Fate.of (t.row? id) ((rowsById snapshot).find? id) ((rowsById target).find? id)), t') ∧
      t'.IsWellFormed ∧ ∀ id, t'.row? id =
        merged (t.row? id) ((rowsById snapshot).find? id) ((rowsById target).find? id) := by
  have hsid := isById_rowsById snapshot
  have hgid := isById_rowsById target
  obtain ⟨t₁, h₁, ht₁, hrow₁⟩ := foldlM_writeIfSeen ht
    (writesFor (rowsById snapshot) (rowsById target))
    (fun w hw => hg _ (mem_of_find?_rowsById ((mem_writesFor_iff hgid).1 hw).1).1)
    (fun w hw => ((mem_writesFor_iff hgid).1 hw).2.2) (pairwise_writesFor hgid) .zero
  rw [Summary.zero_add] at h₁
  obtain ⟨t₂, h₂, ht₂, hrow₂⟩ := foldlM_deleteIfSeen ht₁
    (deletesFor (rowsById snapshot) (rowsById target))
    (fun row hrow => hs _ (mem_of_find?_rowsById ((mem_deletesFor_iff hsid).1 hrow).1).1)
    (pairwise_deletesFor hsid) (.ofFates
      ((writesFor (rowsById snapshot) (rowsById target)).map fun w =>
        Fate.of (t.row? w.1.id) w.2 (some w.1)))
  have hdeletes : ∀ row ∈ deletesFor (rowsById snapshot) (rowsById target),
      Fate.of (t₁.row? row.id) (some row) none = Fate.of (t.row? row.id) (some row) none := by
    intro row hrow
    have hnone := ((mem_deletesFor_iff hsid).1 hrow).2
    rw [hrow₁, writeFor_writesFor hgid, hnone]
  rw [List.map_congr_left hdeletes, ← ofFates_namedIds t.row?] at h₂
  refine ⟨t₂, by simp [reconcileFrom, h₁, h₂], ht₂, fun id => ?_⟩
  rw [hrow₂, hrow₁, writeFor_writesFor hgid, find?_deletesFor hsid, Dictionary.contains, merged]
  cases (rowsById target).find? id with
  | some row => by_cases h : Row.sameFound ((rowsById snapshot).find? id) (some row) <;> simp [h]
  | none =>
    cases (rowsById snapshot).find? id with
    | none => simp [Row.sameFound]
    | some seen => simp [Row.sameFound]

theorem IsWellFormed.reconcileFrom_eq (ht : t.IsWellFormed) {snapshot target : List Row}
    (hs : ∀ row ∈ snapshot, row.IsStorable) (hg : ∀ row ∈ target, row.IsStorable) :
    ∃ n t', t.reconcileFrom snapshot target = .ok (n, t') ∧ t'.IsWellFormed ∧
      ∀ id, t'.row? id =
        merged (t.row? id) ((rowsById snapshot).find? id) ((rowsById target).find? id) :=
  ⟨_, ht.reconcileFrom_spec hs hg⟩

theorem merged_self {current target : Option Row} (hc : ∀ row ∈ current, row.IsCanonical)
    (hg : ∀ row ∈ target, row.IsCanonical) : merged current current target = target := by
  unfold merged
  split
  · next h => exact (Row.sameFound_iff_eq hc hg).1 h
  · rw [if_pos (Row.sameFound_refl current)]

theorem IsWellFormed.rowsById_all (ht : t.IsWellFormed) : ∃ rows, t.all = .ok rows ∧
    (∀ row ∈ rows, row.IsStorable) ∧ ∀ id, (rowsById rows).find? id = t.row? id := by
  obtain ⟨rows, hall, hmem, hne⟩ := ht.all_eq
  refine ⟨rows, hall, fun row hr => ht.isStorable ((hmem row).1 hr), fun id => ?_⟩
  rw [find?_rowsById]
  cases h : t.row? id with
  | none =>
    apply Dictionary.lastFor_eq_none_iff.2
    intro e he hid
    obtain ⟨r, hr, rfl⟩ := List.mem_map.1 he
    simp only at hid
    rw [← hid, (hmem r).1 hr] at h
    cases h
  | some row =>
    obtain rfl := row?_id h
    have hm : (row.id, row) ∈ rows.map fun r => (r.id, r) :=
      List.mem_map_of_mem (f := fun r : Row => (r.id, r)) ((hmem row).2 h)
    exact Dictionary.lastFor_of_mem (List.pairwise_map.2 hne) hm

theorem IsProper.reconcile_eq (ht : t.IsProper) {target : List Row}
    (hg : ∀ row ∈ target, row.IsProper) :
    ∃ n t', t.reconcile target = .ok (n, t') ∧ t'.IsProper ∧
      ∀ id, t'.row? id = (rowsById target).find? id := by
  obtain ⟨rows, hall, hst, hseen⟩ := ht.wellFormed.rowsById_all
  have htarget : ∀ id, ∀ row ∈ (rowsById target).find? id, row.IsProper := fun id row h =>
    hg row (mem_of_find?_rowsById h).1
  obtain ⟨n, t', h, ht', hrow⟩ := ht.wellFormed.reconcileFrom_eq hst
    fun row hr => (hg row hr).storable
  have hrow' : ∀ id, t'.row? id = (rowsById target).find? id := by
    intro id
    rw [hrow, hseen]
    exact merged_self (fun r hr => ht.canonical id r hr) fun r hr => (htarget id r hr).canonical
  refine ⟨n, t', by simp [reconcile, hall, h], ⟨ht', fun id row hr => ?_⟩, hrow'⟩
  rw [hrow'] at hr
  exact (htarget id row hr).canonical

end Table

end ServiceDirectory
