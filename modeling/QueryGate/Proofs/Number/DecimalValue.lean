import QueryGate.Number.Decimal
import QueryGate.Proofs.Number.Finite

/-!
# The value of a decimal number

A decimal number stands for a rational (`Decimal.toRat`). Its length and its exponent tell between
which powers of ten it lies (`Decimal.magnitude_lt_iff`), whether it is whole can be read off its
digits (`Decimal.isWhole_iff`), and it is rounded to a finite binary number exactly if it lies below
`Binary64.overflow` (`Decimal.toBinary64_isFinite_iff`).
-/

namespace QueryGate

namespace Decimal

/-- The value of a finite number; zero for the others. -/
def toRat : Decimal → Rat
  | .finite negative coefficient exponent =>
    (if negative then -1 else 1) * (coefficient * 10 ^ exponent)
  | .infinite _ | .nan .. => 0

variable {c : Nat} {e : Int}

theorem magnitude_nonneg (c : Nat) (e : Int) : (0 : Rat) ≤ c * 10 ^ e := by positivity

theorem abs_toRat (negative : Bool) (c : Nat) (e : Int) :
    |(Decimal.finite negative c e).toRat| = c * 10 ^ e := by
  have h := magnitude_nonneg c e
  cases negative with
  | false => rw [toRat, if_neg (by decide), one_mul, abs_of_nonneg h]
  | true => rw [toRat, if_pos rfl, neg_one_mul, abs_neg, abs_of_nonneg h]

/-! ## Powers of ten -/

theorem ten_zpow_of_nonneg {z : Int} (hz : 0 ≤ z) : (10 : Rat) ^ z = ((10 ^ z.toNat : Nat) : Rat) := by
  lift z to Nat using hz
  rw [zpow_natCast, Int.toNat_natCast]
  push_cast
  rfl

theorem mul_ten_zpow_of_nonpos (c : Nat) {z : Int} (hz : z ≤ 0) :
    (c : Rat) * 10 ^ z = c / ((10 ^ (-z).toNat : Nat) : Rat) := by
  rw [← ten_zpow_of_nonneg (z := -z) (by omega), zpow_neg, div_inv_eq_mul]

/-- The digits of a number and its exponent tell below which power of ten it lies. -/
theorem magnitude_lt_iff (hc : c ≠ 0) {z : Int} :
    (c : Rat) * 10 ^ e < 10 ^ z ↔ (Shortest.width c : Int) + e ≤ z := by
  have hscale : (c : Rat) * 10 ^ e < 10 ^ z ↔ (c : Rat) < 10 ^ (z - e) := by
    rw [zpow_sub₀ (by norm_num), lt_div_iff₀ (by positivity)]
  have hwidth : 0 < Shortest.width c := Nat.length_toDigits_pos
  rw [hscale]
  by_cases hpos : 0 < z - e
  · rw [ten_zpow_of_nonneg hpos.le, Nat.cast_lt,
      ← Nat.length_toDigits_le_iff (by decide : 1 < 10) (by omega)]
    change Shortest.width c ≤ (z - e).toNat ↔ _
    omega
  · refine iff_of_false (not_lt.2 ?_) (by omega)
    have hone : (10 : Rat) ^ (z - e) ≤ 1 := zpow_le_one_of_nonpos₀ (by norm_num) (by omega)
    exact hone.trans (by exact_mod_cast Nat.one_le_iff_ne_zero.2 hc)

/-! ## Whole numbers -/

/-- The digits show whether a number is whole. -/
theorem isWhole_iff (hc : c ≠ 0) : isWhole c e = true ↔ ∃ n : Nat, (c : Rat) * 10 ^ e = n := by
  unfold isWhole
  by_cases he : 0 ≤ e
  · rw [decide_eq_true he]
    refine iff_of_true rfl ⟨c * 10 ^ e.toNat, ?_⟩
    rw [ten_zpow_of_nonneg he]
    push_cast
    rfl
  have hpow : 0 < 10 ^ (-e).toNat := by positivity
  have hdvd : (∃ n : Nat, (c : Rat) * 10 ^ e = n) ↔ 10 ^ (-e).toNat ∣ c := by
    have hpow' : ((10 ^ (-e).toNat : Nat) : Rat) ≠ 0 := by exact_mod_cast hpow.ne'
    simp only [mul_ten_zpow_of_nonpos c (by omega : e ≤ 0), div_eq_iff hpow']
    exact ⟨fun ⟨n, hn⟩ => ⟨n, by rw [Nat.mul_comm]; exact_mod_cast hn⟩,
      fun ⟨n, hn⟩ => ⟨n, by rw [Nat.mul_comm] at hn; exact_mod_cast hn⟩⟩
  have hwidth (h : 10 ^ (-e).toNat ∣ c) : (-e).toNat ≤ Shortest.width c := by
    by_contra hlt
    have hlong : c < 10 ^ (-e).toNat :=
      (Nat.length_toDigits_le_iff (by decide : 1 < 10) (by omega)).1 (Nat.le_of_not_le hlt)
    exact absurd (Nat.le_of_dvd (Nat.pos_of_ne_zero hc) h) (Nat.not_le_of_lt hlong)
  rw [hdvd, decide_eq_false he, Bool.false_or, beq_eq_false_iff_ne.2 hc, Bool.false_or,
    Bool.and_eq_true, decide_eq_true_eq, beq_iff_eq, Nat.pow_eq, ← Nat.dvd_iff_mod_eq_zero]
  exact ⟨fun h => h.2, fun h => ⟨hwidth h, h⟩⟩

/-- A whole number is its whole part. -/
theorem wholePart_eq (hc : c ≠ 0) (h : isWhole c e = true) :
    (c : Rat) * 10 ^ e = wholePart c e := by
  unfold wholePart
  split
  · rename_i he
    rw [ten_zpow_of_nonneg he, Nat.pow_eq]
    push_cast
    rfl
  · rename_i he
    obtain ⟨n, hn⟩ := (isWhole_iff hc).1 h
    have hpow : 0 < 10 ^ (-e).toNat := by positivity
    rw [hn, Nat.pow_eq]
    rw [mul_ten_zpow_of_nonpos c (by omega), div_eq_iff (by exact_mod_cast hpow.ne')] at hn
    have hn : c = n * 10 ^ (-e).toNat := by exact_mod_cast hn
    rw [hn, Nat.mul_div_cancel _ hpow]

theorem natAbs_of_toRat {negative : Bool} {n : Int} (h : (Decimal.finite negative c e).toRat = n) :
    (n.natAbs : Rat) = c * 10 ^ e := by
  rw [← abs_toRat negative c e, h, Nat.cast_natAbs, Int.cast_abs]

/-- The sign has no part in whether a number is whole. -/
theorem exists_toRat_eq_iff (negative : Bool) :
    (∃ n : Int, (Decimal.finite negative c e).toRat = n) ↔ ∃ n : Nat, (c : Rat) * 10 ^ e = n := by
  constructor
  · rintro ⟨n, hn⟩
    exact ⟨n.natAbs, (natAbs_of_toRat hn).symm⟩
  · rintro ⟨n, hn⟩
    refine ⟨(if negative then -1 else 1) * n, ?_⟩
    rw [toRat, hn]
    push_cast
    rfl

/-! ## The nearest binary number -/

theorem overflow_bounds : (10 : Rat) ^ (-400 : Int) < Binary64.overflow ∧
    (Binary64.overflow : Rat) < 10 ^ (400 : Int) := by
  have hone : 1 < Binary64.overflow := by decide +kernel
  have hgreat : Binary64.overflow < 10 ^ (400 : Int).toNat := by decide +kernel
  refine ⟨lt_of_le_of_lt (zpow_le_one_of_nonpos₀ (by norm_num) (by norm_num)) ?_, ?_⟩
  · exact_mod_cast hone
  · rw [ten_zpow_of_nonneg (by norm_num)]
    exact Nat.cast_lt.2 hgreat

/-- A decimal number is rounded to a finite binary one exactly if it lies below the least number
that is not. -/
theorem toBinary64_isFinite_iff (negative : Bool) (c : Nat) (e : Int) :
    (Decimal.finite negative c e).toBinary64.IsFinite ↔ (c : Rat) * 10 ^ e < Binary64.overflow := by
  obtain ⟨hsmall, hgreat⟩ := overflow_bounds
  unfold toBinary64
  simp only
  split
  · rename_i h
    refine iff_of_true (Binary64.isFinite_zero negative) ?_
    by_cases hc : c = 0
    · rw [hc, Nat.cast_zero, zero_mul]
      exact lt_trans (by positivity) hsmall
    · have hlead : e + Shortest.width c < -400 := by simpa [hc] using h
      exact ((magnitude_lt_iff hc).2 (by omega)).trans hsmall
  rename_i h
  have hc : c ≠ 0 := by
    rintro rfl
    simp at h
  split
  · rename_i hlead
    refine iff_of_false id (not_lt.2 ?_)
    exact hgreat.le.trans (not_lt.1 fun hlt => by
      have := (magnitude_lt_iff hc).1 hlt
      omega)
  split
  · rename_i he
    rw [Binary64.ofRatio_isFinite_iff negative one_pos, Nat.cast_one, div_one,
      ten_zpow_of_nonneg he, Nat.pow_eq, Nat.cast_mul]
  · rename_i he
    have hpow : 0 < Nat.pow 10 (-e).toNat := Nat.pow_pos (by decide)
    rw [Binary64.ofRatio_isFinite_iff negative hpow, mul_ten_zpow_of_nonpos c (by omega), Nat.pow_eq]

end Decimal

end QueryGate
