import Mathlib.Tactic
import ServiceDirectory.Dictionary

/-! # Look-ups in built dictionaries

A dictionary made from a list holds, for every key, the last value that the list has for it. The
list of bindings of a dictionary makes the dictionary again, and filtering keeps exactly the
look-ups that pass the filter.
-/

namespace ServiceDirectory.Dictionary

variable {α β : Type} [Ord α] [Std.TransOrd α] [Std.LawfulEqOrd α] [DecidableEq α]

omit [Std.TransOrd α] [DecidableEq α] in
theorem key_ne_of_lt {a b : α} (h : compare a b = .lt) : a ≠ b := by
  rintro rfl
  simp at h

/-- The last value that a list of bindings has for a key. -/
def lastFor (k : α) (l : List (α × β)) : Option β :=
  (l.reverse.find? fun e => e.1 = k).map (·.2)

omit [Ord α] [Std.TransOrd α] [Std.LawfulEqOrd α] in
theorem lastFor_cons (k : α) (e : α × β) (l : List (α × β)) :
    lastFor k (e :: l) = (lastFor k l).or (if k = e.1 then some e.2 else none) := by
  rw [lastFor, lastFor, List.reverse_cons, List.find?_append]
  cases l.reverse.find? (fun e => e.1 = k) with
  | some x => simp
  | none => by_cases h : k = e.1 <;> simp [h, eq_comm]

theorem find?_foldl_insert (l : List (α × β)) (d : Dictionary α β) (k : α) :
    (l.foldl (fun d e => d.insert e.1 e.2) d).find? k = (lastFor k l).or (d.find? k) := by
  induction l generalizing d with
  | nil => simp [lastFor]
  | cons e r ih =>
    rw [List.foldl_cons, ih, find?_insert, lastFor_cons, Option.or_assoc]
    split <;> rfl

theorem find?_ofList (l : List (α × β)) (k : α) : (ofList l).find? k = lastFor k l := by
  rw [ofList, find?_foldl_insert, find?_empty, Option.or_none]

omit [Std.TransOrd α] in
theorem find?_foldl_erase (keys : List α) (d : Dictionary α β) (k : α) :
    (keys.foldl erase d).find? k = if k ∈ keys then none else d.find? k := by
  induction keys generalizing d with
  | nil => simp
  | cons k' keys ih =>
    rw [List.foldl_cons, ih, find?_erase]
    by_cases hk : k = k'
    · simp [hk]
    · simp [hk]

omit [Ord α] [Std.TransOrd α] [Std.LawfulEqOrd α] in
theorem mem_of_lastFor {l : List (α × β)} {k : α} {v : β} (h : lastFor k l = some v) :
    (k, v) ∈ l := by
  obtain ⟨e, he, rfl⟩ := Option.map_eq_some_iff.1 h
  have hk : e.1 = k := by simpa using List.find?_some he
  have hm : e ∈ l := List.mem_reverse.1 (List.mem_of_find?_eq_some he)
  rwa [← hk]

omit [Ord α] [Std.TransOrd α] [Std.LawfulEqOrd α] in
theorem lastFor_eq_none_iff {l : List (α × β)} {k : α} :
    lastFor k l = none ↔ ∀ e ∈ l, e.1 ≠ k := by
  simp [lastFor]

omit [Ord α] [Std.TransOrd α] [Std.LawfulEqOrd α] in
theorem lastFor_of_mem {l : List (α × β)} (hl : l.Pairwise fun a b => a.1 ≠ b.1) {k : α} {v : β}
    (h : (k, v) ∈ l) : lastFor k l = some v := by
  cases hf : lastFor k l with
  | none => exact absurd rfl (lastFor_eq_none_iff.1 hf _ h)
  | some w =>
    have hw := mem_of_lastFor hf
    by_contra hne
    have hvw : (k, v) ≠ (k, w) := fun he => hne (by rw [(Prod.mk.inj he).2])
    have : Std.Symm fun a b : α × β => a.1 ≠ b.1 := ⟨fun _ _ => Ne.symm⟩
    exact hl.forall h hw hvw rfl

omit [Std.TransOrd α] [DecidableEq α] in
theorem entries_pairwise_ne (d : Dictionary α β) : d.entries.Pairwise fun a b => a.1 ≠ b.1 :=
  d.ascending.imp key_ne_of_lt

theorem ofList_entries (d : Dictionary α β) : ofList d.entries = d := by
  apply ext_find?
  intro k
  rw [find?_ofList]
  cases h : d.find? k with
  | none =>
    apply lastFor_eq_none_iff.2
    intro e he hk
    have := (find?_eq_some_iff d e.1 e.2).2 he
    rw [hk, h] at this
    cases this
  | some v => exact lastFor_of_mem d.entries_pairwise_ne ((find?_eq_some_iff d k v).1 h)

omit [Std.TransOrd α] in
theorem find?_filter (d : Dictionary α β) (p : α → β → Bool) (k : α) :
    (d.filter p).find? k = (d.find? k).filter (p k) := by
  cases h : (d.filter p).find? k with
  | some v =>
    obtain ⟨hm, hp⟩ := List.mem_filter.1 ((find?_eq_some_iff _ k v).1 h)
    rw [(find?_eq_some_iff d k v).2 hm]
    simp [Option.filter, hp]
  | none =>
    cases hd : d.find? k with
    | none => rfl
    | some v =>
      cases hp : p k v with
      | false => simp [Option.filter, hp]
      | true =>
        have hm : (k, v) ∈ (d.filter p).entries :=
          List.mem_filter.2 ⟨(find?_eq_some_iff d k v).1 hd, hp⟩
        rw [(find?_eq_some_iff _ k v).2 hm] at h
        cases h

theorem erase_of_not_contains {d : Dictionary α β} {k : α} (h : ¬ d.contains k = true) :
    d.erase k = d := by
  refine ext_find? fun k' => ?_
  rw [find?_erase]
  split
  · next hk => exact hk ▸ (Option.not_isSome_iff_eq_none.1 h).symm
  · rfl

omit [Std.TransOrd α] in
theorem mem_values_iff (d : Dictionary α β) (v : β) : v ∈ d.values ↔ ∃ k, d.find? k = some v := by
  simp only [values, List.mem_map, Prod.exists, exists_eq_right, find?_eq_some_iff]

omit [Std.TransOrd α] in
theorem mem_keys_iff (d : Dictionary α β) (k : α) : k ∈ d.keys ↔ ∃ v, d.find? k = some v := by
  simp only [keys, List.mem_map, Prod.exists, exists_and_right, exists_eq_right, find?_eq_some_iff]

omit [Std.TransOrd α] in
theorem map_values_eq_keys (d : Dictionary α β) {f : β → α}
    (h : ∀ k v, d.find? k = some v → f v = k) : d.values.map f = d.keys := by
  rw [values, keys, List.map_map]
  exact List.map_congr_left fun e he => h _ _ ((find?_eq_some_iff _ _ _).2 he)

omit [Ord α] [Std.TransOrd α] [Std.LawfulEqOrd α] in
theorem map_filter_of_pairwise {l : List (α × β)} (hl : l.Pairwise fun a b => a.1 ≠ b.1) (k : α) :
    (l.filter fun e => e.1 = k).map (·.2) = ((l.find? fun e => e.1 = k).map (·.2)).toList := by
  induction l with
  | nil => rfl
  | cons e r ih =>
    obtain ⟨he, hr⟩ := List.pairwise_cons.1 hl
    by_cases h : e.1 = k
    · have hnone : (r.filter fun e => e.1 = k) = [] :=
        List.filter_eq_nil_iff.2 fun x hx => by simpa using fun hxk => he x hx (h.trans hxk.symm)
      simp [h, hnone]
    · simpa [h] using ih hr

omit [Std.TransOrd α] in
theorem map_filter_entries (d : Dictionary α β) (k : α) :
    (d.entries.filter fun e => e.1 = k).map (·.2) = (d.find? k).toList := by
  rw [map_filter_of_pairwise d.entries_pairwise_ne, find?]
  congr 3
  funext e
  by_cases h : k = e.1
  · simp [h]
  · simp [h, Ne.symm h]

omit [Std.TransOrd α] [Std.LawfulEqOrd α] [DecidableEq α] in
theorem ascending_keys (d : Dictionary α β) : d.keys.Pairwise fun a b => compare a b = .lt :=
  List.pairwise_map.2 d.ascending

/-! ## Sizes -/

omit [Std.TransOrd α] [DecidableEq α] in
theorem nodup_keys (d : Dictionary α β) : d.keys.Nodup := List.pairwise_map.2 d.entries_pairwise_ne

omit [Std.TransOrd α] [Std.LawfulEqOrd α] [DecidableEq α] in
theorem length_keys (d : Dictionary α β) : d.keys.length = d.size := List.length_map _

omit [Std.TransOrd α] in
theorem mem_keys_iff_contains (d : Dictionary α β) (k : α) : k ∈ d.keys ↔ d.contains k = true := by
  rw [mem_keys_iff, contains, Option.isSome_iff_exists]

omit [Std.TransOrd α] in
theorem size_eq_length {d : Dictionary α β} {l : List α} (hl : l.Nodup)
    (h : ∀ k, d.contains k = true ↔ k ∈ l) : d.size = l.length := by
  rw [← length_keys]
  refine ((List.perm_ext_iff_of_nodup d.nodup_keys hl).2 fun k => ?_).length_eq
  rw [mem_keys_iff_contains, h]

theorem size_insert (d : Dictionary α β) (k : α) (v : β) :
    (d.insert k v).size = if d.contains k then d.size else d.size + 1 := by
  split
  · next hk =>
    rw [← length_keys d]
    refine size_eq_length d.nodup_keys fun k' => ?_
    rw [mem_keys_iff_contains, contains, find?_insert]
    by_cases h : k' = k
    · simp [h, hk]
    · simp [h, contains]
  · next hk =>
    rw [← length_keys d, ← List.length_cons (a := k)]
    refine size_eq_length (List.nodup_cons.2 ⟨?_, d.nodup_keys⟩) fun k' => ?_
    · rwa [mem_keys_iff_contains]
    · rw [List.mem_cons, mem_keys_iff_contains, contains, find?_insert]
      by_cases h : k' = k
      · simp [h]
      · simp [h, contains]

omit [Std.TransOrd α] in
theorem size_erase (d : Dictionary α β) {k : α} (hk : d.contains k = true) :
    (d.erase k).size + 1 = d.size := by
  have hmem := (d.mem_keys_iff_contains k).2 hk
  have hsize : (d.erase k).size = (d.keys.erase k).length := by
    refine size_eq_length (d.nodup_keys.erase k) fun k' => ?_
    rw [d.nodup_keys.mem_erase_iff, mem_keys_iff_contains, contains, find?_erase]
    by_cases h : k' = k
    · simp [h]
    · simp [h, contains]
  rw [hsize, List.length_erase_of_mem hmem, ← length_keys]
  exact Nat.sub_add_cancel (List.length_pos_of_mem hmem)

/-! ## Mapped values -/

section

variable {γ : Type} (d : Dictionary α β) (f : β → γ) (k : α)

omit [Std.TransOrd α] [Std.LawfulEqOrd α] [DecidableEq α] in
theorem find?_mapValues : (d.mapValues f).find? k = (d.find? k).map f := by
  simp only [find?, mapValues, List.find?_map, Option.map_map]
  rfl

omit [Std.TransOrd α] [Std.LawfulEqOrd α] [DecidableEq α] in
theorem mapValues_mapValues {δ : Type} (g : γ → δ) :
    (d.mapValues f).mapValues g = d.mapValues fun v => g (f v) := ext (List.map_map ..)

theorem mapValues_insert (v : β) : (d.insert k v).mapValues f = (d.mapValues f).insert k (f v) := by
  apply ext_find?
  intro k'
  rw [find?_mapValues, find?_insert, find?_insert, find?_mapValues]
  split <;> rfl

theorem mapValues_erase : (d.erase k).mapValues f = (d.mapValues f).erase k := by
  apply ext_find?
  intro k'
  rw [find?_mapValues, find?_erase, find?_erase, find?_mapValues]
  split <;> rfl

end

end ServiceDirectory.Dictionary
