import Mathlib.Tactic
import ServiceDirectory.Backoff

/-! # Delays of a backoff

A delay is the base doubled once for each attempt, up to the cap, and no number of 64 bits goes over
on the way; but after 32 attempts it is doubled no more (`Backoff.toNat_delayMs`). So the cap is
reached exactly if it is at most the base doubled 32 times (`Backoff.delayMs_law`).
-/

namespace ServiceDirectory.Backoff

/-- The base doubled `n` times, but no more than the cap. -/
def doubled (b : Backoff) (n : Nat) : Nat := min (b.baseMs.toNat * 2 ^ n) b.maxMs.toNat

/-- The cap is reached before the delay is doubled no more. -/
def CapInReach (b : Backoff) : Prop := b.maxMs.toNat ≤ b.baseMs.toNat * 2 ^ 32

instance (b : Backoff) : Decidable b.CapInReach := inferInstanceAs (Decidable (_ ≤ _))

variable {b : Backoff} {m n : Nat}

theorem check_eq_ok_iff :
    b.check = .ok () ↔ 0 < b.baseMs.toNat ∧ b.baseMs.toNat ≤ b.maxMs.toNat := by
  have hzero : b.baseMs = 0 ↔ b.baseMs.toNat = 0 := UInt64.toNat_inj.symm
  unfold check
  split
  · next h => simp [hzero.1 h]
  · next h =>
    have hpos : 0 < b.baseMs.toNat := Nat.pos_of_ne_zero (h ∘ hzero.2)
    split
    · next hlt => simp [UInt64.lt_iff_toNat_lt.1 hlt]
    · next hle =>
      have hle : b.baseMs.toNat ≤ b.maxMs.toNat := Nat.not_lt.1 (hle ∘ UInt64.lt_iff_toNat_lt.2)
      simp [hpos, hle]

/-! ## Numbers of 64 bits -/

theorem toNat_saturatingMul (x y : UInt64) :
    (saturatingMul x y).toNat = min (x.toNat * y.toNat) (UInt64.size - 1) := by
  unfold saturatingMul
  split
  · next h =>
    rw [UInt64.toNat_mul, Nat.mod_eq_of_lt h]
    omega
  · next h =>
    have hmax : (UInt64.ofNat (UInt64.size - 1)).toNat = UInt64.size - 1 := by decide
    omega

theorem toNat_factor (attempt : UInt32) :
    ((1 : UInt64) <<< (min attempt 32).toUInt64).toNat = 2 ^ min attempt.toNat 32 := by
  have hshift : (min attempt 32).toUInt64.toNat = min attempt.toNat 32 := by
    rw [UInt32.toNat_toUInt64, UInt32.toNat_min]
    rfl
  have hone : (1 : UInt64).toNat = 1 := rfl
  have hmod : min attempt.toNat 32 % 64 = min attempt.toNat 32 := by omega
  have hpow : 2 ^ min attempt.toNat 32 ≤ 2 ^ 32 :=
    Nat.pow_le_pow_right (by decide) (min_le_right ..)
  rw [UInt64.toNat_shiftLeft, hshift, hmod, hone, Nat.shiftLeft_eq, Nat.one_mul]
  exact Nat.mod_eq_of_lt (by omega)

/-- A product that is cut off at 64 bits is over the cap anyway. -/
theorem toNat_delayMs (b : Backoff) (attempt : UInt32) :
    (b.delayMs attempt).toNat = b.doubled (min attempt.toNat 32) := by
  have hmax : b.maxMs.toNat < UInt64.size := b.maxMs.toNat_lt
  rw [delayMs, UInt64.toNat_min, toNat_saturatingMul, toNat_factor, doubled]
  omega

/-! ## Doubling up to the cap -/

theorem doubled_mono (b : Backoff) : Monotone b.doubled := fun _ _ h =>
  min_le_min_right _ (Nat.mul_le_mul_left _ (Nat.pow_le_pow_right (by decide) h))

theorem doubled_le (b : Backoff) (n : Nat) : b.doubled n ≤ b.maxMs.toNat := min_le_right ..

theorem doubled_eq_max_iff : b.doubled n = b.maxMs.toNat ↔ b.maxMs.toNat ≤ b.baseMs.toNat * 2 ^ n :=
  min_eq_right_iff

theorem doubled_lt_doubled (hbase : 0 < b.baseMs.toNat) (hmn : m < n)
    (hcap : ¬ b.maxMs.toNat ≤ b.baseMs.toNat * 2 ^ m) : b.doubled m < b.doubled n := by
  have hpow : b.baseMs.toNat * 2 ^ m < b.baseMs.toNat * 2 ^ n :=
    Nat.mul_lt_mul_of_pos_left (Nat.pow_lt_pow_right (by decide) hmn) hbase
  unfold doubled
  omega

theorem doubled_min_eq_iff (hbase : 0 < b.baseMs.toNat) :
    b.doubled (min n 32) = b.doubled n ↔ n ≤ 32 ∨ b.CapInReach := by
  rcases Nat.lt_or_ge 32 n with hn | hn
  · rw [Nat.min_eq_right hn.le]
    constructor
    · intro h
      by_contra hno
      exact (doubled_lt_doubled hbase hn (not_or.1 hno).2).ne h
    · intro h
      have hcap : b.CapInReach := h.resolve_left (Nat.not_le.2 hn)
      have hreached : b.doubled 32 = b.maxMs.toNat := doubled_eq_max_iff.2 hcap
      exact le_antisymm (doubled_mono b hn.le) (hreached ▸ doubled_le b n)
  · simp [hn]

/-! ## The delays -/

theorem reaches_iff :
    (∃ n : UInt32, ∀ m, n ≤ m → b.delayMs m = b.maxMs) ↔ b.CapInReach := by
  constructor
  · rintro ⟨n, h⟩
    have hn : b.doubled (min n.toNat 32) = b.maxMs.toNat := by
      rw [← toNat_delayMs, h n (UInt32.le_refl n)]
    exact (doubled_eq_max_iff.1 hn).trans
      (Nat.mul_le_mul_left _ (Nat.pow_le_pow_right (by decide) (min_le_right ..)))
  · intro h
    refine ⟨32, fun m hm => UInt64.toNat_inj.1 ?_⟩
    have hm : 32 ≤ m.toNat := UInt32.le_iff_toNat_le.1 hm
    rw [toNat_delayMs, Nat.min_eq_right hm, doubled_eq_max_iff]
    exact h

/-- The delays of a checked backoff. They do not decrease and are never over the cap, and they are
doubled up to the cap through 32 attempts, or through all of them if the cap is in reach. -/
theorem delayMs_law (h : b.check = .ok ()) :
    (∀ n : UInt32, (b.delayMs n).toNat = b.doubled (min n.toNat 32)) ∧
    (∀ n : UInt32, (b.delayMs n).toNat = b.doubled n.toNat ↔ n ≤ 32 ∨ b.CapInReach) ∧
    (∀ m n : UInt32, m ≤ n → b.delayMs m ≤ b.delayMs n) ∧
    (∀ n : UInt32, b.delayMs n ≤ b.maxMs) ∧
    ((∃ n : UInt32, ∀ m, n ≤ m → b.delayMs m = b.maxMs) ↔ b.CapInReach) := by
  refine ⟨toNat_delayMs b, fun n => ?_, fun m n hmn => ?_, fun n => ?_, reaches_iff⟩
  · have hn : n ≤ 32 ↔ n.toNat ≤ 32 := UInt32.le_iff_toNat_le
    rw [toNat_delayMs, hn]
    exact doubled_min_eq_iff (check_eq_ok_iff.1 h).1
  · have hmn : m.toNat ≤ n.toNat := UInt32.le_iff_toNat_le.1 hmn
    rw [UInt64.le_iff_toNat_le, toNat_delayMs, toNat_delayMs]
    exact doubled_mono b (min_le_min_right 32 hmn)
  · rw [UInt64.le_iff_toNat_le, toNat_delayMs]
    exact doubled_le b _

def longBackoff : Backoff := ⟨1, 0x200000000⟩

theorem delayMs_law_standard :
    Backoff.standard.check = .ok () ∧ Backoff.standard.CapInReach ∧
    (∃ n : UInt32, ∀ m, n ≤ m → Backoff.standard.delayMs m = Backoff.standard.maxMs) ∧
    longBackoff.check = .ok () ∧ ¬ longBackoff.CapInReach ∧
    ¬ ∃ n : UInt32, ∀ m, n ≤ m → longBackoff.delayMs m = longBackoff.maxMs := by
  have hstandard : Backoff.standard.check = .ok () := by decide
  have hreach : Backoff.standard.CapInReach := by decide +kernel
  have hlong : longBackoff.check = .ok () := by decide
  have hno : ¬ longBackoff.CapInReach := by decide +kernel
  obtain ⟨-, -, -, -, hreached⟩ := delayMs_law hstandard
  obtain ⟨-, -, -, -, hmissed⟩ := delayMs_law hlong
  exact ⟨hstandard, hreach, hreached.2 hreach, hlong, hno, fun h => hno (hmissed.1 h)⟩

/-- The 33rd doubling is left out. -/
theorem not_forall_delayMs_doubled : ¬ ∀ (b : Backoff) (n : UInt32), b.check = .ok () →
    (b.delayMs n).toNat = min (b.baseMs.toNat * 2 ^ n.toNat) b.maxMs.toNat := by
  intro h
  exact absurd (h longBackoff 33 (by decide)) (by decide +kernel)

end ServiceDirectory.Backoff
