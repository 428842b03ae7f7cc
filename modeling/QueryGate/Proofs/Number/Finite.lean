import Mathlib.Algebra.Order.Field.Basic
import Mathlib.Algebra.Order.Field.Power
import Mathlib.Algebra.Order.Field.Rat
import Mathlib.Tactic.FieldSimp
import Mathlib.Tactic.Linarith
import Mathlib.Tactic.NormNum
import Mathlib.Tactic.Positivity
import Mathlib.Tactic.Ring
import QueryGate.Number.Binary64

/-!
# Numbers within the range of the format

A ratio is rounded to a finite number exactly if it lies below `Binary64.overflow`, half a unit
beyond the greatest finite number (`Binary64.ofRatio_isFinite_iff`). What carries the proof is where
the exponent puts a ratio: below `2 ^ 53` units, and not below `2 ^ 52` unless the unit is the least
(`Binary64.exponentOf_spec`).
-/

namespace QueryGate

theorem roundDiv_bounds (num den : Nat) :
    num / den ≤ roundDiv num den ∧ roundDiv num den ≤ num / den + 1 := by
  unfold roundDiv
  simp only
  split
  · omega
  split
  · omega
  · have := Nat.mod_lt (num / den) (by decide : 0 < 2)
    omega

/-- What is rounded to an even number or beyond lies at most half below it. -/
theorem le_roundDiv_iff {num den bound : Nat} (hden : 0 < den) (heven : bound % 2 = 0) :
    bound ≤ roundDiv num den ↔ 2 * bound * den ≤ 2 * num + den := by
  have hsplit : den * (num / den) + num % den = num := Nat.div_add_mod num den
  have hrest : num % den < den := Nat.mod_lt num hden
  have hbelow (k : Nat) (h : num / den + k ≤ bound) :
      den * (num / den) + k * den ≤ bound * den := by
    have := Nat.mul_le_mul_right den h
    rwa [Nat.add_mul, Nat.mul_comm (num / den) den] at this
  have habove (k : Nat) (h : bound ≤ num / den + k) :
      bound * den ≤ den * (num / den) + k * den := by
    have := Nat.mul_le_mul_right den h
    rwa [Nat.add_mul, Nat.mul_comm (num / den) den] at this
  rw [Nat.mul_assoc]
  unfold roundDiv
  generalize num / den = q at *
  generalize num % den = r at *
  generalize den * q = whole at *
  generalize bound * den = least at *
  simp only
  split
  · constructor
    · intro h
      have := habove 0 h
      omega
    · intro h
      by_contra hlt
      have := hbelow 1 (by omega)
      omega
  split
  · constructor
    · intro h
      have := habove 1 h
      omega
    · intro h
      by_contra hlt
      have := hbelow 2 (by omega)
      omega
  · -- A tie goes to the even one of two neighbours.
    constructor
    · intro h
      have := habove 1 (by omega)
      omega
    · intro h
      by_contra hlt
      have := hbelow 2 (by omega)
      omega

namespace Binary64

/-- A finite number that the format has: a mantissa of at most 53 bits, and an exponent in its
range. -/
def IsFinite : Binary64 → Prop
  | .finite _ mantissa exponent =>
    mantissa < 2 ^ precision ∧ minExponent ≤ exponent ∧ exponent ≤ maxExponent
  | .infinite _ | .nan => False

instance (x : Binary64) : Decidable x.IsFinite :=
  match x with
  | .finite .. => inferInstanceAs (Decidable (_ ∧ _))
  | .infinite _ | .nan => inferInstanceAs (Decidable False)

/-- The least positive number that is not rounded to a finite one: it lies half a unit beyond the
greatest. -/
def overflow : Nat := (2 ^ 54 - 1) * 2 ^ 970

theorem isFinite_zero (negative : Bool) : (Binary64.finite negative 0 minExponent).IsFinite :=
  ⟨by decide, by decide, by decide⟩

/-! ## The exponent of a ratio -/

section Ratio

variable {num den : Nat} {z : Int}

theorem two_zpow_of_nonneg (hz : 0 ≤ z) : (2 : Rat) ^ z = ((2 ^ z.toNat : Nat) : Rat) := by
  lift z to Nat using hz
  rw [zpow_natCast, Int.toNat_natCast]
  push_cast
  rfl

theorem two_zpow_of_nonpos (hz : z ≤ 0) : (2 : Rat) ^ z = 1 / ((2 ^ (-z).toNat : Nat) : Rat) := by
  have h := two_zpow_of_nonneg (z := -z) (by omega)
  rw [← h, zpow_neg, one_div, inv_inv]

theorem mul_two_pow_le_iff (hden : 0 < den) (hz : 0 ≤ z) :
    den * Nat.pow 2 z.toNat ≤ num ↔ (2 : Rat) ^ z ≤ num / den := by
  have hden' : (0 : Rat) < den := by exact_mod_cast hden
  rw [two_zpow_of_nonneg hz, le_div_iff₀ hden', Nat.pow_eq, Nat.mul_comm]
  exact_mod_cast Iff.rfl

theorem le_mul_two_pow_iff (hden : 0 < den) (hz : z ≤ 0) :
    den ≤ num * Nat.pow 2 (-z).toNat ↔ (2 : Rat) ^ z ≤ num / den := by
  have hden' : (0 : Rat) < den := by exact_mod_cast hden
  have hpow : (0 : Rat) < ((2 ^ (-z).toNat : Nat) : Rat) := by positivity
  rw [two_zpow_of_nonpos hz, div_le_div_iff₀ hpow hden', one_mul, Nat.pow_eq]
  exact_mod_cast Iff.rfl

/-- A ratio lies between the powers of two that the lengths of its parts tell. -/
theorem log2_ratio_bounds (hnum : num ≠ 0) (hden : 0 < den) :
    (2 : Rat) ^ ((num.log2 : Int) - den.log2 - 1) ≤ num / den ∧
      (num / den : Rat) < 2 ^ ((num.log2 : Int) - den.log2 + 1) := by
  have hden' : (0 : Rat) < den := by exact_mod_cast hden
  have hnumlow : ((2 : Rat) ^ (num.log2 : Int)) ≤ num := by
    exact_mod_cast Nat.log2_self_le hnum
  have hnumhigh : (num : Rat) < 2 ^ ((num.log2 : Int) + 1) := by
    exact_mod_cast @Nat.lt_log2_self num
  have hdenlow : ((2 : Rat) ^ (den.log2 : Int)) ≤ den := by
    exact_mod_cast Nat.log2_self_le hden.ne'
  have hdenhigh : (den : Rat) < 2 ^ ((den.log2 : Int) + 1) := by
    exact_mod_cast @Nat.lt_log2_self den
  have hpos (z : Int) : (0 : Rat) < 2 ^ z := by positivity
  constructor
  · rw [le_div_iff₀ hden']
    calc (2 : Rat) ^ ((num.log2 : Int) - den.log2 - 1) * den
        ≤ 2 ^ ((num.log2 : Int) - den.log2 - 1) * 2 ^ ((den.log2 : Int) + 1) :=
          mul_le_mul_of_nonneg_left hdenhigh.le (hpos _).le
      _ = 2 ^ (num.log2 : Int) := by
          rw [← zpow_add₀ two_ne_zero]
          congr 1
          ring
      _ ≤ num := hnumlow
  · rw [div_lt_iff₀ hden']
    calc (num : Rat) < 2 ^ ((num.log2 : Int) + 1) := hnumhigh
      _ = 2 ^ ((num.log2 : Int) - den.log2 + 1) * 2 ^ (den.log2 : Int) := by
          rw [← zpow_add₀ two_ne_zero]
          congr 1
          ring
      _ ≤ 2 ^ ((num.log2 : Int) - den.log2 + 1) * den :=
          mul_le_mul_of_nonneg_left hdenlow (hpos _).le

/-- In units of its exponent a ratio has 53 bits before the point, or fewer if there is no smaller
unit. -/
theorem exponentOf_spec (hnum : num ≠ 0) (hden : 0 < den) :
    minExponent ≤ exponentOf num den ∧
      (num / den : Rat) < 2 ^ (exponentOf num den + 53) ∧
      (minExponent < exponentOf num den → (2 : Rat) ^ (exponentOf num den + 52) ≤ num / den) := by
  obtain ⟨hlow, hhigh⟩ := log2_ratio_bounds hnum hden
  obtain ⟨guess, hguess⟩ : ∃ g : Int, (num.log2 : Int) - den.log2 - 52 = g := ⟨_, rfl⟩
  have hfull : (if 0 ≤ guess then decide (den * Nat.pow 2 (guess.toNat + 52) ≤ num)
      else if guess + 52 ≥ 0 then decide (den * Nat.pow 2 (guess + 52).toNat ≤ num)
      else decide (den ≤ num * Nat.pow 2 (-(guess + 52)).toNat)) =
      decide ((2 : Rat) ^ (guess + 52) ≤ num / den) := by
    split
    · have : guess.toNat + 52 = (guess + 52).toNat := by omega
      rw [this]
      exact decide_eq_decide.2 (mul_two_pow_le_iff hden (by omega))
    split
    · exact decide_eq_decide.2 (mul_two_pow_le_iff hden (by omega))
    · exact decide_eq_decide.2 (le_mul_two_pow_iff hden (by omega))
  have hexp : exponentOf num den =
      max minExponent (if (2 : Rat) ^ (guess + 52) ≤ num / den then guess else guess - 1) := by
    unfold exponentOf
    simp only [hguess, hfull, decide_eq_true_eq]
  have hmono {a b : Int} (h : a ≤ b) : (2 : Rat) ^ a ≤ 2 ^ b :=
    zpow_le_zpow_right₀ one_le_two h
  -- Without the bound from below, the exponent is where the ratio has 53 bits.
  obtain ⟨e, he, hbelow, habove⟩ : ∃ e, exponentOf num den = max minExponent e ∧
      (num / den : Rat) < 2 ^ (e + 53) ∧ (2 : Rat) ^ (e + 52) ≤ num / den := by
    by_cases hf : (2 : Rat) ^ (guess + 52) ≤ num / den
    · refine ⟨guess, by rw [hexp, if_pos hf], ?_, hf⟩
      exact hhigh.trans_le (hmono (by omega))
    · refine ⟨guess - 1, by rw [hexp, if_neg hf], ?_, ?_⟩
      · have : guess - 1 + 53 = guess + 52 := by ring
        rw [this]
        exact not_le.1 hf
      · exact (hmono (by omega)).trans hlow
  refine ⟨he ▸ le_max_left _ _, hbelow.trans_le (hmono (by omega)), fun hlt => ?_⟩
  rw [he] at hlt ⊢
  have : max minExponent e = e := max_eq_right (by omega)
  rwa [this]

/-- Less than `2 ^ 53` units are rounded to no more. -/
theorem scaled_le (hden : 0 < den) {e : Int} (h : (num / den : Rat) < 2 ^ (e + 53)) :
    scaled num den e ≤ 2 ^ 53 := by
  have hden' : (0 : Rat) < den := by exact_mod_cast hden
  have hunits : (2 : Rat) ^ (e + 53) = 2 ^ e * 2 ^ 53 := zpow_add₀ two_ne_zero e 53
  unfold scaled
  split
  · rename_i he
    have hpow : 0 < 2 ^ e.toNat := Nat.two_pow_pos _
    rw [hunits, two_zpow_of_nonneg he, div_lt_iff₀ hden'] at h
    have hlt : num / (den * 2 ^ e.toNat) < 2 ^ 53 := by
      rw [Nat.div_lt_iff_lt_mul (Nat.mul_pos hden hpow), ← @Nat.cast_lt Rat]
      push_cast at h ⊢
      linarith
    exact (roundDiv_bounds _ _).2.trans hlt
  · rename_i he
    have hpow : (0 : Rat) < ((2 ^ (-e).toNat : Nat) : Rat) := by positivity
    rw [hunits, two_zpow_of_nonpos (by omega), div_mul_eq_mul_div, div_lt_div_iff₀ hden' hpow] at h
    have hlt : num * 2 ^ (-e).toNat / den < 2 ^ 53 := by
      rw [Nat.div_lt_iff_lt_mul hden, ← @Nat.cast_lt Rat]
      push_cast at h ⊢
      linarith
    exact (roundDiv_bounds _ _).2.trans hlt

/-- The units of a ratio are rounded to an even number or beyond exactly if they lie at most half a
unit below it. -/
theorem le_scaled_iff (hden : 0 < den) {bound : Nat} (heven : bound % 2 = 0) (e : Int) :
    bound ≤ scaled num den e ↔ (2 * bound - 1 : Rat) * 2 ^ (e - 1) ≤ num / den := by
  have hden' : (0 : Rat) < den := by exact_mod_cast hden
  have hhalf : (2 : Rat) ^ (e - 1) = 2 ^ e / 2 := zpow_sub_one₀ two_ne_zero e
  unfold scaled
  split
  · rename_i he
    have hpow : 0 < Nat.pow 2 e.toNat := Nat.two_pow_pos _
    rw [le_roundDiv_iff (Nat.mul_pos hden hpow) heven, hhalf, two_zpow_of_nonneg he,
      le_div_iff₀ hden', Nat.pow_eq, ← @Nat.cast_le Rat]
    push_cast
    constructor <;> intro h <;> linarith
  · rename_i he
    have hpow : (0 : Rat) < ((2 ^ (-e).toNat : Nat) : Rat) := by positivity
    rw [le_roundDiv_iff hden heven, hhalf, two_zpow_of_nonpos (by omega), div_div,
      mul_one_div, div_le_div_iff₀ (by positivity) hden', Nat.pow_eq, ← @Nat.cast_le Rat]
    push_cast
    constructor <;> intro h <;> linarith

theorem overflow_eq : (overflow : Rat) = (2 * 2 ^ 53 - 1) * 2 ^ (maxExponent - 1) := by
  have hpow : (2 : Rat) ^ (maxExponent - 1) = 2 ^ 970 := zpow_natCast 2 970
  rw [hpow, overflow, Nat.cast_mul, Nat.cast_pow]
  norm_num

/-- A mantissa that may have reached the next power of two makes a finite number unless the exponent
is beyond the range, or becomes so by the carry. -/
theorem isFinite_carried_iff {m : Nat} {e : Int} (hm : m ≤ 2 ^ 53) (he : minExponent ≤ e)
    (negative : Bool) :
    (let (mantissa, exponent) :=
        if m = Nat.pow 2 precision then (Nat.pow 2 (precision - 1), e + 1) else (m, e)
      if maxExponent < exponent then Binary64.infinite negative
      else .finite negative mantissa exponent).IsFinite ↔
    e < maxExponent ∨ e = maxExponent ∧ m < 2 ^ 53 := by
  have hprecision : Nat.pow 2 precision = 2 ^ 53 := rfl
  by_cases hcarry : m = 2 ^ 53
  · simp only [hprecision, if_pos hcarry]
    by_cases hmax : maxExponent < e + 1
    · rw [if_pos hmax]
      exact iff_of_false id (by omega)
    · rw [if_neg hmax]
      exact iff_of_true ⟨by decide, by omega, by omega⟩ (by omega)
  · simp only [hprecision, if_neg hcarry]
    by_cases hmax : maxExponent < e
    · rw [if_pos hmax]
      exact iff_of_false id (by omega)
    · rw [if_neg hmax]
      have hlt : m < 2 ^ 53 := by omega
      exact iff_of_true ⟨hlt, he, by omega⟩ (by omega)

/-- A ratio is rounded to a finite number exactly if it lies below the least that is not. -/
theorem ofRatio_isFinite_iff (negative : Bool) (hden : 0 < den) :
    (ofRatio negative num den).IsFinite ↔ (num / den : Rat) < overflow := by
  by_cases hnum : num = 0
  · subst hnum
    rw [ofRatio, if_pos rfl]
    refine iff_of_true (isFinite_zero negative) ?_
    rw [Nat.cast_zero, zero_div, overflow_eq]
    positivity
  obtain ⟨hmin, hbelow, habove⟩ := exponentOf_spec hnum hden
  have hcarry := @le_scaled_iff num den hden (2 ^ 53) (by decide) (exponentOf num den)
  rw [ofRatio, if_neg hnum, isFinite_carried_iff (scaled_le hden hbelow) hmin, overflow_eq]
  have hmono {a b : Int} (h : a ≤ b) : (2 : Rat) ^ a ≤ 2 ^ b := zpow_le_zpow_right₀ one_le_two h
  have hunit : (0 : Rat) < 2 ^ (maxExponent - 1) := by positivity
  rcases lt_trichotomy (exponentOf num den) maxExponent with hlt | heq | hgt
  · -- Below the greatest exponent even the next power of two is finite.
    refine iff_of_true (.inl hlt) ?_
    calc (num / den : Rat) < 2 ^ (exponentOf num den + 53) := hbelow
      _ ≤ 2 ^ (maxExponent - 1 + 53) := hmono (by omega)
      _ = 2 ^ (maxExponent - 1) * 2 ^ 53 := zpow_add₀ two_ne_zero _ 53
      _ < (2 * 2 ^ 53 - 1) * 2 ^ (maxExponent - 1) := by linarith
  · -- At the greatest exponent it depends on the carry.
    rw [heq, Nat.cast_pow, Nat.cast_ofNat] at hcarry
    rw [heq, ← not_le (b := (num / den : Rat)), ← hcarry, not_le]
    exact ⟨fun h => (h.resolve_left (lt_irrefl _)).2, fun h => .inr ⟨rfl, h⟩⟩
  · refine iff_of_false (by omega) (not_lt.2 ?_)
    calc (2 * 2 ^ 53 - 1) * (2 : Rat) ^ (maxExponent - 1)
        ≤ 2 ^ (maxExponent - 1) * 2 ^ 54 := by linarith
      _ = 2 ^ (maxExponent - 1 + 54) := (zpow_add₀ two_ne_zero _ 54).symm
      _ ≤ 2 ^ (exponentOf num den + 52) := hmono (by omega)
      _ ≤ num / den := habove (lt_trans (by decide) hgt)

end Ratio

end Binary64

end QueryGate
