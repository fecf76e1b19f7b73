import Mathlib.Tactic
import ServiceDirectory.Config.Check

/-! # Leases that are renewed in time

A lease that is kept has to be renewed before it ends. The settings of a lease that are accepted are
those with which it is, and besides them those whose interval is too great for a signed number of 64
bits: the check takes it for a negative one (`LeaseConfig.accepted_iff`).
-/

namespace ServiceDirectory

/-- The separator in front is one byte, so there is a second byte exactly if something follows. -/
theorem isAbsolute_iff {s : String} : isAbsolute s = true ↔
    (normalizeNamespace s).toList.head? = some '/' ∧ 2 ≤ (normalizeNamespace s).utf8ByteSize := by
  unfold isAbsolute
  generalize normalizeNamespace s = t
  cases h : t.toList with
  | nil => simp
  | cons c r =>
    have ht : t = String.singleton c ++ String.ofList r := String.toList_injective (by simp [h])
    have hsize : t.utf8ByteSize = c.utf8Size + (String.ofList r).utf8ByteSize := by
      rw [ht, String.utf8ByteSize_append, String.utf8ByteSize_singleton]
    have hrest : (String.ofList r).utf8ByteSize = 0 ↔ r.length = 0 := by
      rw [String.utf8ByteSize_eq_zero_iff, ← String.toList_inj]
      simp
    have hseparator : '/'.utf8Size = 1 := rfl
    simp only [List.head?_cons, List.length_cons, Bool.and_eq_true, beq_iff_eq, Option.some.injEq,
      decide_eq_true_eq]
    constructor
    · rintro ⟨rfl, hlength⟩
      exact ⟨rfl, by omega⟩
    · rintro ⟨rfl, hbytes⟩
      exact ⟨rfl, by omega⟩

theorem toInt_toInt64_of_lt {n : UInt64} (h : n.toNat < 2 ^ 63) : n.toInt64.toInt = n.toNat := by
  have hbits : n.toInt64.toInt = n.toBitVec.toInt := rfl
  have htoNat : n.toBitVec.toNat = n.toNat := rfl
  rw [hbits, BitVec.toInt_eq_toNat_cond, htoNat, if_pos (by omega)]

theorem toInt_toInt64_neg {n : UInt64} (h : 2 ^ 63 ≤ n.toNat) : n.toInt64.toInt < 0 := by
  have hbits : n.toInt64.toInt = n.toBitVec.toInt := rfl
  have htoNat : n.toBitVec.toNat = n.toNat := rfl
  have hlt : n.toNat < 2 ^ 64 := n.toNat_lt
  rw [hbits, BitVec.toInt_eq_toNat_cond, htoNat, if_neg (by omega)]
  omega

namespace LeaseConfig

variable {c : LeaseConfig}

/-- There is a renewal, and it comes before the lease ends. -/
structure RenewsInTime (c : LeaseConfig) : Prop where
  pos : 0 < c.keepAliveIntervalSecs.toNat
  lt_ttl : (c.keepAliveIntervalSecs.toNat : Int) < c.ttlSecs.toInt

/-- The lease does not end at once, but the interval is too great for a signed number. -/
structure PassesForNegative (c : LeaseConfig) : Prop where
  ttl_pos : 0 < c.ttlSecs.toInt
  le_interval : 2 ^ 63 ≤ c.keepAliveIntervalSecs.toNat

/-- Without the separators at its end, the namespace begins with a separator and has more bytes. -/
structure HasAbsoluteRoot (c : LeaseConfig) : Prop where
  head : (normalizeNamespace c.keyRoot).toList.head? = some '/'
  two_le : 2 ≤ (normalizeNamespace c.keyRoot).utf8ByteSize

theorem hasAbsoluteRoot_iff : c.HasAbsoluteRoot ↔ isAbsolute c.keyRoot = true := by
  rw [isAbsolute_iff]
  exact ⟨fun h => ⟨h.head, h.two_le⟩, fun h => ⟨h.1, h.2⟩⟩

theorem check_eq_ok_iff : c.check = .ok () ↔ 0 < c.ttlSecs.toInt ∧
    0 < c.keepAliveIntervalSecs.toNat ∧ c.keepAliveIntervalSecs.toInt64.toInt < c.ttlSecs.toInt ∧
    c.HasAbsoluteRoot := by
  have hzero : c.keepAliveIntervalSecs ≠ 0 ↔ 0 < c.keepAliveIntervalSecs.toNat := by
    rw [Nat.pos_iff_ne_zero, ne_eq, ne_eq, ← UInt64.toNat_inj]
    rfl
  have hzero' : (0 : Int64).toInt = 0 := rfl
  simp only [check, bind_unit_eq_ok_iff, demand_eq_ok_iff, hasAbsoluteRoot_iff, Bool.and_eq_true,
    bne_iff_ne, decide_eq_true_eq, Int64.lt_iff_toInt_lt, hzero, hzero', and_assoc]

theorem RenewsInTime.interval_lt (h : c.RenewsInTime) :
    c.keepAliveIntervalSecs.toNat < 2 ^ 63 := by
  have hlt := h.lt_ttl
  have httl : c.ttlSecs.toInt < 2 ^ 63 := c.ttlSecs.toInt_lt
  omega

/-- The interval, read as a signed number, is below the time of the lease either as it should be or
because it is read as a negative one. -/
theorem passes_iff : 0 < c.ttlSecs.toInt ∧ 0 < c.keepAliveIntervalSecs.toNat ∧
    c.keepAliveIntervalSecs.toInt64.toInt < c.ttlSecs.toInt ↔
      c.RenewsInTime ∨ c.PassesForNegative := by
  -- Below 2 ^ 63 the signed number is the interval itself; from there on it is negative.
  rcases Nat.lt_or_ge c.keepAliveIntervalSecs.toNat (2 ^ 63) with h | h
  · rw [toInt_toInt64_of_lt h]
    constructor
    · rintro ⟨-, hpos, hlt⟩
      exact .inl ⟨hpos, hlt⟩
    · rintro (hin | hover)
      · have hpos := hin.pos
        have hlt := hin.lt_ttl
        exact ⟨by omega, hpos, hlt⟩
      · exact absurd hover.le_interval (Nat.not_le.2 h)
  · have hneg := toInt_toInt64_neg h
    constructor
    · rintro ⟨hpos, -⟩
      exact .inr ⟨hpos, h⟩
    · rintro (hin | hover)
      · exact absurd hin.interval_lt (Nat.not_lt.2 h)
      · have hpos := hover.ttl_pos
        exact ⟨hpos, by omega, by omega⟩

/-- The settings of a lease are accepted exactly if the namespace is absolute and the lease is
renewed in time, or passes for renewed as the interval counts as negative. Otherwise the check is
right. -/
theorem accepted_iff (c : LeaseConfig) :
    (c.check = .ok () ↔ (c.RenewsInTime ∨ c.PassesForNegative) ∧ c.HasAbsoluteRoot) ∧
    ((c.check = .ok () ↔ c.RenewsInTime ∧ c.HasAbsoluteRoot) ↔
      ¬ (c.PassesForNegative ∧ c.HasAbsoluteRoot)) := by
  have haccepted : c.check = .ok () ↔
      (c.RenewsInTime ∨ c.PassesForNegative) ∧ c.HasAbsoluteRoot := by
    rw [check_eq_ok_iff, ← passes_iff]
    simp only [and_assoc]
  refine ⟨haccepted, ?_⟩
  rw [haccepted]
  constructor
  · rintro h ⟨hover, hroot⟩
    have hin : c.RenewsInTime := (h.1 ⟨.inr hover, hroot⟩).1
    exact absurd hin.interval_lt (Nat.not_lt.2 hover.le_interval)
  · intro hno
    constructor
    · rintro ⟨hin | hover, hroot⟩
      · exact ⟨hin, hroot⟩
      · exact absurd ⟨hover, hroot⟩ hno
    · rintro ⟨hin, hroot⟩
      exact ⟨.inl hin, hroot⟩

/-- The shortest interval that passes for a negative one. -/
theorem not_forall_renewsInTime :
    ¬ ∀ c : LeaseConfig, c.check = .ok () ↔ c.RenewsInTime ∧ c.HasAbsoluteRoot := by
  intro h
  have hchecked : (⟨10, 0x8000000000000000, "/discovery-leases"⟩ : LeaseConfig).check =
      .ok () := by decide +kernel
  exact absurd ((h _).1 hchecked).1.lt_ttl (by decide +kernel)

end LeaseConfig

end ServiceDirectory
