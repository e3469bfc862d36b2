import Mathlib.Algebra.Order.Floor.Semifield
import Mathlib.Data.Int.Log
import Mathlib.Data.Rat.Floor
import Mathlib.Data.Nat.Prime.Pow
import Mathlib.Tactic.Linarith

/-! # Binary64

Rounding of rationals to the numbers of 64 bits: to nearest, ties to even. The numbers are the
rationals that rounding keeps. -/

namespace Binary64

def roundHalfEven (q : ℚ) : Int :=
  let rest := q - ⌊q⌋
  if rest < 1 / 2 then ⌊q⌋
  else if 1 / 2 < rest then ⌊q⌋ + 1
  else if ⌊q⌋ % 2 = 0 then ⌊q⌋
  else ⌊q⌋ + 1

/-- The exponent of the last bit of a number; subnormal numbers share the least one. -/
def lastBit (q : ℚ) : Int := max (Int.log 2 |q|) (-1022) - 52

def rounded (q : ℚ) : ℚ := roundHalfEven (q / 2 ^ lastBit q) * 2 ^ lastBit q

/-- `none` is an overflow. -/
def nearest (q : ℚ) : Option ℚ := if |rounded q| < 2 ^ 1024 then some (rounded q) else none

/-- The finite numbers, with one zero. -/
abbrev Finite := { q : ℚ // nearest q = some q }

/-! ## Rounding -/

theorem roundHalfEven_intCast (n : Int) : roundHalfEven n = n := by
  have hrest : (n : ℚ) - ⌊(n : ℚ)⌋ < 1 / 2 := by
    rw [Int.floor_intCast, sub_self]
    norm_num
  unfold roundHalfEven
  rw [if_pos hrest, Int.floor_intCast]

theorem roundHalfEven_cases (q : ℚ) : roundHalfEven q = ⌊q⌋ ∨ roundHalfEven q = ⌊q⌋ + 1 := by
  simp only [roundHalfEven]
  split_ifs <;> simp

theorem roundHalfEven_abs_le {q : ℚ} {n : Nat} (h : |q| < n) : (roundHalfEven q).natAbs ≤ n := by
  rw [abs_lt] at h
  have hlow : -(n : Int) ≤ ⌊q⌋ := Int.le_floor.mpr (by push_cast; exact h.1.le)
  have hhigh : ⌊q⌋ < (n : Int) := Int.floor_lt.mpr (by exact_mod_cast h.2)
  rcases roundHalfEven_cases q with hq | hq <;> omega

theorem rounded_of_div {q : ℚ} {n : Int} (h : q / 2 ^ lastBit q = n) : rounded q = q := by
  have hunit : (2 : ℚ) ^ lastBit q ≠ 0 := (zpow_pos (by norm_num) _).ne'
  rw [rounded, h, roundHalfEven_intCast, ← h, div_mul_cancel₀ _ hunit]

theorem lastBit_nonpos {n : Int} (h : n.natAbs < 2 ^ 53) : lastBit n ≤ 0 := by
  have hlog : Int.log 2 |(n : ℚ)| ≤ 52 := by
    rw [← Int.cast_abs, Int.abs_eq_natAbs, Int.cast_natCast, Int.log_natCast]
    have hlt : Nat.log 2 n.natAbs < 53 := by
      rcases Nat.eq_zero_or_pos n.natAbs with hzero | hpos
      · rw [hzero]
        decide
      · exact (Nat.log_lt_iff_lt_pow (by decide) hpos.ne').mpr h
    omega
  unfold lastBit
  omega

theorem rounded_intCast {n : Int} (h : n.natAbs < 2 ^ 53) : rounded n = n := by
  obtain ⟨k, hk⟩ : ∃ k : Nat, lastBit n = -(k : Int) :=
    ⟨(-lastBit n).toNat, by have := lastBit_nonpos h; omega⟩
  have hscaled : (n : ℚ) / 2 ^ lastBit n = ((n * 2 ^ k : Int) : ℚ) := by
    rw [hk, zpow_neg, zpow_natCast, div_inv_eq_mul]
    push_cast
    rfl
  exact rounded_of_div hscaled

theorem nearest_intCast {n : Int} (h : n.natAbs < 2 ^ 53) : nearest (n : ℚ) = some (n : ℚ) := by
  have hbound : |(n : ℚ)| < 2 ^ 1024 := by
    have hcast : |(n : ℚ)| = (n.natAbs : ℚ) := by
      rw [← Int.cast_abs, Int.abs_eq_natAbs, Int.cast_natCast]
    calc |(n : ℚ)| = (n.natAbs : ℚ) := hcast
      _ < ((2 ^ 53 : Nat) : ℚ) := by exact_mod_cast h
      _ = 2 ^ 53 := by rw [Nat.cast_pow, Nat.cast_ofNat]
      _ ≤ 2 ^ 1024 := pow_le_pow_right₀ (by norm_num) (by norm_num)
  rw [nearest, rounded_intCast h, if_pos hbound]

theorem nearest_zero : nearest ((0 : Int) : ℚ) = some ((0 : Int) : ℚ) := nearest_intCast (by decide)

theorem abs_div_unit_lt (q : ℚ) : |q / 2 ^ lastBit q| < ((2 ^ 53 : Nat) : ℚ) := by
  have hunit : (0 : ℚ) < 2 ^ lastBit q := zpow_pos (by norm_num) _
  rw [abs_div, abs_of_pos hunit, div_lt_iff₀ hunit]
  calc |q| < ((2 : Nat) : ℚ) ^ (Int.log 2 |q| + 1) := Int.lt_zpow_succ_log_self (by decide) _
    _ ≤ (2 : ℚ) ^ (53 + lastBit q) := by
      rw [Nat.cast_ofNat]
      apply zpow_le_zpow_right₀ (by norm_num)
      unfold lastBit
      omega
    _ = ((2 ^ 53 : Nat) : ℚ) * 2 ^ lastBit q := by
      rw [zpow_add₀ (by norm_num), Nat.cast_pow, Nat.cast_ofNat]
      norm_num

theorem abs_mul_unit (m e : Int) : |(m * 2 ^ e : ℚ)| = m.natAbs * 2 ^ e := by
  have hunit : (0 : ℚ) < 2 ^ e := zpow_pos (by norm_num) _
  rw [abs_mul, abs_of_pos hunit, ← Int.cast_abs, Int.abs_eq_natAbs, Int.cast_natCast]

theorem lastBit_of_lt {m e : Int} (hpos : m ≠ 0) (hm : m.natAbs < 2 ^ 53) (he : -1074 ≤ e) :
    lastBit (m * 2 ^ e) ≤ e := by
  have hunit : (0 : ℚ) < 2 ^ e := zpow_pos (by norm_num) _
  have hcast : (0 : ℚ) < m.natAbs := by exact_mod_cast Int.natAbs_pos.mpr hpos
  have hlog : Int.log 2 |(m * 2 ^ e : ℚ)| < 53 + e := by
    rw [← Int.lt_zpow_iff_log_lt (by decide) (by rw [abs_mul_unit]; exact mul_pos hcast hunit),
      abs_mul_unit, Nat.cast_ofNat, zpow_add₀ (by norm_num)]
    apply mul_lt_mul_of_pos_right _ hunit
    exact_mod_cast hm
  unfold lastBit
  omega

theorem lastBit_of_eq {m e : Int} (hm : m.natAbs = 2 ^ 53) (he : -1074 ≤ e) :
    lastBit (m * 2 ^ e) = e + 1 := by
  have hvalue : |(m * 2 ^ e : ℚ)| = ((2 : Nat) : ℚ) ^ (53 + e) := by
    rw [abs_mul_unit, hm, Nat.cast_pow, Nat.cast_ofNat, zpow_add₀ (by norm_num)]
    norm_num
  rw [lastBit, hvalue, Int.log_zpow (by decide)]
  omega

/-- Rounding keeps what it may reach. -/
theorem rounded_mul_unit {m e : Int} (hm : m.natAbs ≤ 2 ^ 53) (he : -1074 ≤ e) :
    rounded (m * 2 ^ e) = m * 2 ^ e := by
  have hscale (k : Int) : (m * 2 ^ e : ℚ) / 2 ^ k = m * 2 ^ (e - k) := by
    rw [zpow_sub₀ (by norm_num), mul_div_assoc]
  by_cases hzero : m = 0
  · have hvalue := rounded_intCast (n := 0) (by decide)
    rw [hzero, Int.cast_zero, zero_mul, ← Int.cast_zero, hvalue]
  rcases hm.lt_or_eq with hlt | heq
  · obtain ⟨k, hk⟩ : ∃ k : Nat, e - lastBit (m * 2 ^ e) = k :=
      ⟨_, (Int.toNat_of_nonneg (Int.sub_nonneg.mpr (lastBit_of_lt hzero hlt he))).symm⟩
    apply rounded_of_div (n := m * 2 ^ k)
    rw [hscale, hk, zpow_natCast]
    push_cast
    rfl
  · apply rounded_of_div (n := m / 2)
    have hhalf : m = m / 2 * 2 := by omega
    rw [hscale, lastBit_of_eq heq he, show e - (e + 1) = -1 by omega, zpow_neg_one]
    conv_lhs => rw [hhalf]
    push_cast
    ring

theorem rounded_rounded (q : ℚ) : rounded (rounded q) = rounded q :=
  rounded_mul_unit (roundHalfEven_abs_le (abs_div_unit_lt q)) (by unfold lastBit; omega)

theorem nearest_rounded {q : ℚ} (h : |rounded q| < 2 ^ 1024) :
    nearest (rounded q) = some (rounded q) := by
  rw [nearest, rounded_rounded, if_pos h]

/-- The numbers have denominators that are powers of two. -/
theorem den_of_nearest {q : ℚ} (h : nearest q = some q) : ∃ k, q.den = 2 ^ k := by
  rw [nearest] at h
  split at h
  · have hq := Option.some.inj h
    rw [rounded] at hq
    generalize roundHalfEven _ = m at hq
    generalize lastBit q = e at hq
    have hdvd : q.den ∣ 2 ^ (-e).toNat := by
      have hscaled : q * (2 ^ (-e).toNat : Nat) = ((m * 2 ^ e.toNat : Int) : ℚ) := by
        have hpow : (2 : ℚ) ^ e * 2 ^ (-e).toNat = 2 ^ e.toNat := by
          rw [← zpow_natCast, ← zpow_natCast, ← zpow_add₀ (by norm_num)]
          congr 1
          omega
        rw [← hq]
        push_cast
        rw [mul_assoc, hpow]
      have hdiv := Rat.den_dvd (m * 2 ^ e.toNat : Int) ((2 ^ (-e).toNat : Nat) : Int)
      have hquot : ((m * 2 ^ e.toNat : Int) : ℚ) / (((2 ^ (-e).toNat : Nat) : Int) : ℚ) = q := by
        rw [← hscaled, Int.cast_natCast, mul_div_cancel_right₀]
        positivity
      rw [Rat.divInt_eq_div, hquot] at hdiv
      exact_mod_cast hdiv
    obtain ⟨k, -, hk⟩ := (Nat.dvd_prime_pow Nat.prime_two).mp hdvd
    exact ⟨k, hk⟩
  · cases h

end Binary64
