import Mathlib.Tactic
import ServiceDirectory.Store.Range

/-! # Ranges of keys with one beginning

The range of a beginning holds the keys that have it, and no others, whatever its last bytes are
(`KeyRange.contains_withPrefix_iff`). Its end is never the empty one, and it is the missing one just
for strings of the highest byte (`prefixEnd_eq_unbounded_iff`).
-/

namespace ServiceDirectory

theorem compare_append_append (a b c : Bytes) : compare (a ++ b) (a ++ c) = compare b c := by
  induction a with
  | nil => rfl
  | cons x a ih => simp [List.compare_cons_cons, ih]

theorem isLE_compare_append (a b : Bytes) : (compare a (a ++ b)).isLE = true := by
  have h : compare a (a ++ b) = compare [] b := by simpa using compare_append_append a [] b
  rw [h]
  cases b <;> rfl

/-! ## The end of a range -/

theorem raiseLast_reverse (p : Bytes) : (∀ c ∈ p, c = 255) ∧ raiseLast p.reverse = [] ∨
    ∃ q b r, p = q ++ b :: r ∧ b < 255 ∧ (∀ c ∈ r, c = 255) ∧
      raiseLast p.reverse = (b + 1) :: q.reverse := by
  induction p using List.reverseRecOn with
  | nil => exact .inl ⟨by simp, rfl⟩
  | append_singleton p b ih =>
    rw [List.reverse_append, List.reverse_singleton, List.singleton_append, raiseLast]
    split
    · next hb => exact .inr ⟨p, b, [], rfl, hb, by simp, rfl⟩
    · next hb =>
      have hlast : b = 255 := by
        rw [UInt8.lt_iff_toNat_lt] at hb
        have hlt : b.toNat < 256 := b.toNat_lt
        have hge : ¬b.toNat < 255 := hb
        exact UInt8.toNat_inj.1 (show b.toNat = 255 by omega)
      obtain ⟨hall, h⟩ | ⟨q, c, r, rfl, hc, hr, h⟩ := ih
      · exact .inl ⟨by simpa [or_imp, forall_and, hlast] using hall, h⟩
      · exact .inr ⟨q, c, r ++ [b], by simp, hc,
          by simpa [or_imp, forall_and, hlast] using hr, h⟩

theorem prefixEnd_cases (p : Bytes) : (∀ c ∈ p, c = 255) ∧ prefixEnd p = unbounded ∨
    ∃ q b r, p = q ++ b :: r ∧ b < 255 ∧ (∀ c ∈ r, c = 255) ∧ prefixEnd p = q ++ [b + 1] := by
  unfold prefixEnd
  obtain ⟨hall, h⟩ | ⟨q, b, r, hp, hb, hr, h⟩ := raiseLast_reverse p
  · exact .inl ⟨hall, by rw [h]; rfl⟩
  · refine .inr ⟨q, b, r, hp, hb, hr, ?_⟩
    rw [h, List.reverse_cons, List.reverse_reverse]
    cases q <;> rfl

theorem toNat_raised {b : UInt8} (hb : b < 255) : (b + 1).toNat = b.toNat + 1 := by
  rw [UInt8.lt_iff_toNat_lt] at hb
  have hlt : b.toNat < 255 := hb
  rw [UInt8.toNat_add]
  change (b.toNat + 1) % 256 = b.toNat + 1
  omega

theorem prefixEnd_append_singleton (p : Bytes) {b : UInt8} (hb : b < 255) :
    prefixEnd (p ++ [b]) = p ++ [b + 1] := by
  have hr : (raiseLast (p ++ [b]).reverse).reverse = p ++ [b + 1] := by simp [raiseLast, hb]
  unfold prefixEnd
  rw [hr]
  cases p <;> rfl

/-- A raised byte is not zero, so an end that was computed is not taken for the lack of one. -/
theorem raised_ne_unbounded {b : UInt8} (hb : b < 255) (q : Bytes) : q ++ [b + 1] ≠ unbounded := by
  intro h
  have hlast := congrArg List.getLast? h
  rw [List.getLast?_append, unbounded] at hlast
  have hzero : b + 1 = 0 := by simpa using hlast
  have hnat := congrArg UInt8.toNat hzero
  rw [toNat_raised hb] at hnat
  cases hnat

theorem prefixEnd_ne_nil (p : Bytes) : prefixEnd p ≠ [] := by
  obtain ⟨-, h⟩ | ⟨q, b, r, -, -, -, h⟩ := prefixEnd_cases p
  · simp [h, unbounded]
  · simp [h]

theorem prefixEnd_eq_unbounded_iff {p : Bytes} : prefixEnd p = unbounded ↔ ∀ c ∈ p, c = 255 := by
  obtain ⟨hall, h⟩ | ⟨q, b, r, rfl, hb, -, h⟩ := prefixEnd_cases p
  · exact iff_of_true h hall
  · refine iff_of_false (h ▸ raised_ne_unbounded hb q) fun hall => ?_
    rw [hall b (by simp)] at hb
    exact absurd hb (by decide)

/-! ## Between a beginning and its end -/

theorem compare_byte (b c : UInt8) : compare b c = compare b.toNat c.toNat := by
  simp only [compare, compareOfLessAndEq, UInt8.lt_iff_toNat_lt, ← UInt8.toNat_inj]

theorem compare_lt_raised {b : UInt8} (hb : b < 255) (q r : Bytes) :
    compare (q ++ b :: r) (q ++ [b + 1]) = .lt := by
  have hc : compare b (b + 1) = .lt := by
    rw [compare_byte, Nat.compare_eq_lt, toNat_raised hb]
    omega
  rw [compare_append_append, List.compare_cons_cons, hc]
  rfl

theorem eq_of_byte_between {b c : UInt8} (hle : (compare b c).isLE = true)
    (hlt : compare c (b + 1) = .lt) : b = c := by
  rw [compare_byte, Nat.isLE_compare] at hle
  rw [compare_byte, Nat.compare_eq_lt, UInt8.toNat_add] at hlt
  have hb : b.toNat < 256 := b.toNat_lt
  change c.toNat < (b.toNat + 1) % 256 at hlt
  exact UInt8.toNat_inj.1 (by omega)

theorem isLE_of_isLE_then {a b : Ordering} (h : (a.then b).isLE = true) : a.isLE = true := by
  cases a <;> simp_all

theorem prefix_of_isLE {r key : Bytes} (hr : ∀ c ∈ r, c = 255)
    (hle : (compare r key).isLE = true) : r <+: key := by
  induction r generalizing key with
  | nil => exact List.nil_prefix
  | cons b r ih =>
    obtain ⟨rfl, hrest⟩ := List.forall_mem_cons.1 hr
    cases key with
    | nil => cases hle
    | cons c key =>
      rw [List.compare_cons_cons] at hle
      have hc : (255 : UInt8) = c := by
        have hle := isLE_of_isLE_then hle
        rw [compare_byte, Nat.isLE_compare] at hle
        have hge : 255 ≤ c.toNat := hle
        have hlt : c.toNat < 256 := c.toNat_lt
        exact UInt8.toNat_inj.1 (show 255 = c.toNat by omega)
      subst hc
      have hself : compare (255 : UInt8) 255 = .eq := rfl
      rw [hself] at hle
      exact List.cons_prefix_cons.2 ⟨rfl, ih hrest hle⟩

/-- Between a byte string and its end there is nothing but what begins with it. -/
theorem prefix_of_between {q r key : Bytes} {b : UInt8} (hr : ∀ c ∈ r, c = 255)
    (hle : (compare (q ++ b :: r) key).isLE = true) (hlt : compare key (q ++ [b + 1]) = .lt) :
    q ++ b :: r <+: key := by
  induction q generalizing key with
  | nil =>
    cases key with
    | nil => cases hle
    | cons c key =>
      rw [List.nil_append, List.compare_cons_cons] at hle hlt
      have hcb : compare c (b + 1) = .lt := by
        cases h : compare c (b + 1) <;> cases key <;> simp_all
      obtain rfl := eq_of_byte_between (isLE_of_isLE_then hle) hcb
      have hself : compare b b = .eq := Std.ReflCmp.compare_self
      rw [hself] at hle
      exact List.cons_prefix_cons.2 ⟨rfl, prefix_of_isLE hr hle⟩
  | cons a q ih =>
    cases key with
    | nil => cases hle
    | cons c key =>
      rw [List.cons_append, List.compare_cons_cons] at hle hlt
      have hac : compare a c = .eq := by
        cases h : compare a c with
        | eq => rfl
        | gt => simp [h] at hle
        | lt =>
          have hca : compare c a = (compare a c).swap := Std.OrientedCmp.eq_swap
          simp [hca, h] at hlt
      obtain rfl := Std.LawfulEqCmp.eq_of_compare hac
      simp only [hac, Ordering.then] at hle hlt
      simpa using ih hle hlt

namespace KeyRange

theorem contains_iff {r : KeyRange} (h : r.stop ≠ []) (key : Bytes) : r.contains key = true ↔
    (compare r.start key).isLE = true ∧ (r.stop = unbounded ∨ compare key r.stop = .lt) := by
  have hempty : r.stop.isEmpty = false := by simpa using h
  simp [contains, hempty]

variable {p key : Bytes}

theorem contains_withPrefix (h : p <+: key) : (withPrefix p).contains key = true := by
  refine (contains_iff (prefixEnd_ne_nil p) key).2 ?_
  obtain ⟨s, rfl⟩ := h
  refine ⟨isLE_compare_append p s, ?_⟩
  obtain ⟨-, hend⟩ | ⟨q, b, r, rfl, hb, -, hend⟩ := prefixEnd_cases p
  · exact .inl hend
  · right
    rw [withPrefix, hend, List.append_assoc, List.cons_append]
    exact compare_lt_raised hb q (r ++ s)

theorem contains_withPrefix_iff : (withPrefix p).contains key = true ↔ p <+: key := by
  constructor
  · intro h
    obtain ⟨hle, hstop⟩ := (contains_iff (prefixEnd_ne_nil p) key).1 h
    obtain ⟨hall, -⟩ | ⟨q, b, r, rfl, hb, hr, hend⟩ := prefixEnd_cases p
    · exact prefix_of_isLE hall hle
    · rw [withPrefix, hend] at hstop
      exact prefix_of_between hr hle (hstop.resolve_left (raised_ne_unbounded hb q))
  · exact contains_withPrefix

end KeyRange

end ServiceDirectory
