import ServiceDirectory.Proofs.Dictionary
import ServiceDirectory.Table

/-! # What changes count

Summaries add up: the changes of a list count what its parts count (`apply_append`), each change
once (`total_of_apply`). A reconciliation decides what befalls an id by the rows that table,
snapshot and target have for it (`Fate.of`), and it counts the fates of ids (`Summary.ofFates`).
-/

namespace ServiceDirectory

/-- What a reconciliation does to an id. -/
inductive Fate
  | untouched
  | added
  | updated
  | deleted
  /-- Left alone, because it is no longer as in the snapshot. -/
  | skipped
  deriving DecidableEq

/-- The fate of an id, given the row there is, the row of the snapshot and that of the target. -/
def Fate.of (current seen target : Option Row) : Fate :=
  if Row.sameFound seen target then .untouched
  else if Row.sameFound current seen then
    match current, target with
    | none, _ => .added
    | some _, some _ => .updated
    | some _, none => .deleted
  else .skipped

theorem Fate.of_eq_untouched_iff {current seen target : Option Row} :
    Fate.of current seen target = .untouched ↔ Row.sameFound seen target = true := by
  unfold Fate.of
  constructor
  · intro h
    by_contra hs
    rw [if_neg hs] at h
    split at h
    · cases current <;> cases target <;> cases h
    · cases h
  · intro hs
    rw [if_pos hs]

namespace Summary

def ofFates (fates : List Fate) : Summary :=
  ⟨fates.count .added, fates.count .updated, fates.count .deleted, fates.count .skipped⟩

def total (s : Summary) : Nat := s.added + s.updated + s.deleted + s.skipped

instance : Add Summary :=
  ⟨fun m n => ⟨m.added + n.added, m.updated + n.updated, m.deleted + n.deleted,
    m.skipped + n.skipped⟩⟩

variable (m n : Summary)

theorem add_def : m + n = ⟨m.added + n.added, m.updated + n.updated, m.deleted + n.deleted,
    m.skipped + n.skipped⟩ := rfl

@[simp] theorem add_zero : m + zero = m := rfl

@[simp] theorem zero_add : zero + n = n := by
  simp [add_def, zero]

theorem add_assoc (k m n : Summary) : k + m + n = k + (m + n) := by
  simp [add_def, Nat.add_assoc]

@[simp] theorem add_countWritten (current : Option Row) :
    m + n.countWritten current = (m + n).countWritten current := by
  cases current <;> rfl

/-! ## Fates -/

theorem countSkipped_eq_add : n.countSkipped = n + ofFates [.skipped] := rfl

theorem countDeleted_eq_add : n.countDeleted = n + ofFates [.deleted] := rfl

theorem ofFates_append (a b : List Fate) : ofFates (a ++ b) = ofFates a + ofFates b := by
  simp [ofFates, add_def]

theorem ofFates_perm {a b : List Fate} (h : a.Perm b) : ofFates a = ofFates b := by
  simp [ofFates, h.count_eq]

theorem ofFates_filter (fates : List Fate) :
    ofFates (fates.filter fun fate => fate ≠ .untouched) = ofFates fates := by
  simp [ofFates, List.count_filter]

/-! ## Totals -/

theorem total_countSkipped : n.countSkipped.total = n.total + 1 := rfl

theorem total_countDeleted : n.countDeleted.total = n.total + 1 := by
  simp only [total, countDeleted]
  omega

theorem total_countWritten (current : Option Row) :
    (n.countWritten current).total = n.total + 1 := by
  cases current with
  | none =>
    change n.added + 1 + n.updated + n.deleted + n.skipped = n.total + 1
    simp only [total]
    omega
  | some row =>
    change n.added + (n.updated + 1) + n.deleted + n.skipped = n.total + 1
    simp only [total]
    omega

end Summary

namespace Table

variable {t t' : Table} {n n' : Summary}

theorem applyChange_add (m n : Summary) (t : Table) (c : RowChange) :
    applyChange (m + n, t) c = (fun r => (m + r.1, r.2)) <$> applyChange (n, t) c := by
  cases c with
  | put row =>
    simp only [applyChange, bind, Except.bind]
    cases t.find row.id with
    | error e => rfl
    | ok current =>
      simp only
      split
      · rfl
      · simp [pure, Except.pure, Functor.map, Except.map]
  | delete id =>
    simp only [applyChange]
    split <;> rfl

theorem foldlM_applyChange_add (m n : Summary) (t : Table) (cs : List RowChange) :
    cs.foldlM applyChange (m + n, t) =
      (fun r => (m + r.1, r.2)) <$> cs.foldlM applyChange (n, t) := by
  induction cs generalizing n t with
  | nil => rfl
  | cons c cs ih =>
    rw [List.foldlM_cons, List.foldlM_cons, applyChange_add]
    cases applyChange (n, t) c with
    | error e => rfl
    | ok r => exact ih r.1 r.2

/-- Changes made in two parts are the changes made together, in what they do and what they count. -/
theorem apply_append (t : Table) (cs cs' : List RowChange) :
    t.apply (cs ++ cs') = do
      let (m, u) ← t.apply cs
      let (n, v) ← u.apply cs'
      return (m + n, v) := by
  rw [apply, List.foldlM_append]
  refine congrArg (bind (t.apply cs)) (funext fun r => ?_)
  have h := foldlM_applyChange_add r.1 .zero r.2 cs'
  rw [Summary.add_zero] at h
  rw [h]
  rfl

theorem total_of_applyChange {c : RowChange} (h : applyChange (n, t) c = .ok (n', t')) :
    n'.total = n.total + 1 := by
  cases c with
  | put row =>
    simp only [applyChange, bind, Except.bind] at h
    cases hf : t.find row.id with
    | error e => simp [hf] at h
    | ok current =>
      simp only [hf] at h
      split at h
      · cases h
        exact n.total_countSkipped
      · cases h
        exact n.total_countWritten current
  | delete id =>
    simp only [applyChange] at h
    split at h
    · cases h
      exact n.total_countDeleted
    · cases h
      exact n.total_countSkipped

theorem total_of_foldlM {cs : List RowChange} (h : cs.foldlM applyChange (n, t) = .ok (n', t')) :
    n'.total = n.total + cs.length := by
  induction cs generalizing n t with
  | nil =>
    cases h
    rfl
  | cons c cs ih =>
    rw [List.foldlM_cons] at h
    cases hc : applyChange (n, t) c with
    | error e =>
      rw [hc] at h
      cases h
    | ok r =>
      rw [hc] at h
      rw [ih h, total_of_applyChange hc, List.length_cons]
      omega

theorem total_of_apply {cs : List RowChange} (h : t.apply cs = .ok (n, t')) :
    n.total = cs.length := by
  rw [total_of_foldlM h]
  exact Nat.zero_add _

end Table

end ServiceDirectory
