import ServiceDirectory.Proofs.Table.FiniteMap

/-! # Changes that are made more than once

Canonical changes leave an id with the row of the last of them, unless all of them found the row
that there was to be the same (`find?_foldl_of_allSpare`, `find?_foldl_of_not_allSpare`). Which of
the two it is depends on which changes there are and not on how often they are made, so two lists of
the same changes leave the same rows exactly if they end with the same change of each id
(`find?_foldl_eq_iff`).
-/

namespace ServiceDirectory

namespace RowChange

variable {c : RowChange} {cs cs' : List RowChange} {id : ServiceId} {row : Option Row}

def IsCanonical (c : RowChange) : Prop := ∀ row ∈ c.row?, row.IsCanonical

/-- What the last change of an id leaves; nothing if there is none. -/
def lastRow (id : ServiceId) (cs : List RowChange) : Option (Option Row) :=
  Dictionary.lastFor id (cs.map fun c => (c.id, c.row?))

theorem lastRow_cons (id : ServiceId) (c : RowChange) (cs : List RowChange) :
    lastRow id (c :: cs) = (lastRow id cs).or (if id = c.id then some c.row? else none) :=
  Dictionary.lastFor_cons _ _ _

theorem lastRow_append (id : ServiceId) (cs cs' : List RowChange) :
    lastRow id (cs ++ cs') = (lastRow id cs').or (lastRow id cs) := by
  induction cs with
  | nil => simp [lastRow, Dictionary.lastFor]
  | cons c cs ih => rw [List.cons_append, lastRow_cons, ih, lastRow_cons, Option.or_assoc]

theorem lastRow_eq_none_iff : lastRow id cs = none ↔ ∀ c ∈ cs, c.id ≠ id := by
  simp [lastRow, Dictionary.lastFor_eq_none_iff]

theorem exists_of_lastRow (h : lastRow id cs = some row) : ∃ c ∈ cs, c.id = id ∧ c.row? = row := by
  obtain ⟨c, hc, heq⟩ := List.mem_map.1 (Dictionary.mem_of_lastFor h)
  exact ⟨c, hc, (Prod.mk.inj heq).1, (Prod.mk.inj heq).2⟩

/-- No change of the id moves the row. -/
def AllSpare (id : ServiceId) (current : Option Row) (cs : List RowChange) : Prop :=
  ∀ c ∈ cs, c.id = id → Row.sameFound current c.row? = true

theorem AllSpare.lastRow_eq_some_iff {current : Option Row} (h : AllSpare id current cs)
    (hcs : ∀ c ∈ cs, c.IsCanonical) :
    lastRow id cs = some row ↔ ∃ c ∈ cs, c.id = id ∧ c.row? = row := by
  constructor
  · exact exists_of_lastRow
  · rintro ⟨c, hc, hid, rfl⟩
    cases hl : lastRow id cs with
    | none => exact absurd hid (lastRow_eq_none_iff.1 hl c hc)
    | some row =>
      obtain ⟨c', hc', hid', rfl⟩ := exists_of_lastRow hl
      have hsame : Row.sameFound c'.row? c.row? = true := by
        rw [← Row.sameFound_congr_left (h c' hc' hid')]
        exact h c hc hid
      rw [(Row.sameFound_iff_eq (hcs c' hc') (hcs c hc)).1 hsame]

end RowChange

namespace Roster

open RowChange

variable {d : Roster} {c : RowChange} {cs cs' : List RowChange} {id : ServiceId}

theorem find?_change_of_ne (s : Summary × Roster) (h : id ≠ c.id) :
    (change s c).2.find? id = s.2.find? id := by
  cases c with
  | put row =>
    simp only [change]
    split
    · rfl
    · exact (Dictionary.find?_insert _ _ _ _).trans (if_neg h)
  | delete id' =>
    simp only [change]
    split
    · exact (Dictionary.find?_erase _ _ _).trans (if_neg h)
    · rfl

theorem change_eq_self {s : Summary × Roster} (h : Row.sameFound (s.2.find? c.id) c.row? = true) :
    (change s c).2 = s.2 := by
  cases c with
  | put row =>
    have hchange : change s (.put row) = (s.1.countSkipped, s.2) := if_pos h
    rw [hchange]
  | delete id =>
    have hf : s.2.find? id = none := by
      cases hf : s.2.find? id with
      | none => rfl
      | some row => rw [RowChange.id, RowChange.row?, hf] at h; cases h
    have hchange : change s (.delete id) = (s.1.countSkipped, s.2) :=
      if_neg (by simp [Dictionary.contains, hf])
    rw [hchange]

theorem find?_change_self {s : Summary × Roster}
    (h : Row.sameFound (s.2.find? c.id) c.row? = false) : (change s c).2.find? c.id = c.row? := by
  cases c with
  | put row =>
    have hchange : (change s (.put row)).2 = s.2.insert row.id row :=
      congrArg Prod.snd (if_neg (Bool.eq_false_iff.1 h))
    rw [hchange]
    exact (Dictionary.find?_insert _ _ _ _).trans (if_pos rfl)
  | delete id =>
    have hchange : (change s (.delete id)).2 = s.2.erase id := by
      refine congrArg Prod.snd (if_pos ?_)
      cases hf : s.2.find? id with
      | none => rw [RowChange.id, RowChange.row?, hf] at h; cases h
      | some row => simp [Dictionary.contains, hf]
    rw [hchange]
    exact (Dictionary.find?_erase _ _ _).trans (if_pos rfl)

theorem find?_change_of_spares {s : Summary × Roster}
    (h : c.id = id → Row.sameFound (s.2.find? id) c.row? = true) :
    (change s c).2.find? id = s.2.find? id := by
  by_cases hid : c.id = id
  · subst hid
    rw [change_eq_self (h rfl)]
  · exact find?_change_of_ne s (Ne.symm hid)

theorem find?_foldl_of_allSpare {s : Summary × Roster} (h : AllSpare id (s.2.find? id) cs) :
    (cs.foldl change s).2.find? id = s.2.find? id := by
  induction cs generalizing s with
  | nil => rfl
  | cons c cs ih =>
    have hkept : (change s c).2.find? id = s.2.find? id := find?_change_of_spares (h c (.head _))
    rw [List.foldl_cons, ih (hkept.symm ▸ fun c hc => h c (.tail _ hc)), hkept]

/-- If some change does not find its row there, the last change decides. -/
theorem find?_foldl_of_not_allSpare (hcs : ∀ c ∈ cs, c.IsCanonical) {s : Summary × Roster}
    (h : ¬ AllSpare id (s.2.find? id) cs) :
    lastRow id cs = some ((cs.foldl change s).2.find? id) := by
  induction cs generalizing s with
  | nil => exact absurd (fun _ hc => absurd hc List.not_mem_nil) h
  | cons c cs ih =>
    have hrest : ∀ c ∈ cs, c.IsCanonical := fun c hc => hcs c (.tail _ hc)
    rw [List.foldl_cons, lastRow_cons]
    by_cases hlater : AllSpare id ((change s c).2.find? id) cs
    · -- Only the first change can have moved the row, and the others spare what it left.
      have hmoves : c.id = id ∧ Row.sameFound (s.2.find? id) c.row? = false := by
        by_contra hno
        have hspares : c.id = id → Row.sameFound (s.2.find? id) c.row? = true := fun hid => by
          simpa [hid] using hno
        rw [find?_change_of_spares hspares] at hlater
        exact h (List.forall_mem_cons.2 ⟨hspares, hlater⟩)
      obtain ⟨rfl, hs⟩ := hmoves
      rw [find?_foldl_of_allSpare hlater, find?_change_self hs, if_pos rfl]
      rw [find?_change_self hs] at hlater
      cases hl : lastRow c.id cs with
      | none => rfl
      | some row =>
        obtain ⟨c', hc', hid, rfl⟩ := exists_of_lastRow hl
        have hsame := (Row.sameFound_iff_eq (hcs c (.head _)) (hrest c' hc')).1 (hlater c' hc' hid)
        rw [hsame]
        rfl
    · rw [ih hrest hlater]
      rfl

theorem find?_foldl_eq_iff (hcs : ∀ c ∈ cs, c.IsCanonical) (hsame : ∀ c, c ∈ cs' ↔ c ∈ cs)
    (s : Summary × Roster) (id : ServiceId) :
    (cs'.foldl change s).2.find? id = (cs.foldl change s).2.find? id ↔
      lastRow id cs' = lastRow id cs := by
  have hspare : AllSpare id (s.2.find? id) cs' ↔ AllSpare id (s.2.find? id) cs :=
    forall_congr' fun c => by rw [hsame]
  have hcs' : ∀ c ∈ cs', c.IsCanonical := fun c hc => hcs c ((hsame c).1 hc)
  by_cases h : AllSpare id (s.2.find? id) cs
  · rw [find?_foldl_of_allSpare h, find?_foldl_of_allSpare (hspare.2 h)]
    refine iff_of_true rfl (Option.ext fun row => ?_)
    rw [(hspare.2 h).lastRow_eq_some_iff hcs', h.lastRow_eq_some_iff hcs]
    simp only [hsame]
  · rw [find?_foldl_of_not_allSpare hcs h, find?_foldl_of_not_allSpare hcs' (hspare.not.2 h),
      Option.some_inj]

end Roster

end ServiceDirectory
