import QueryGate.Proofs.Number.Finite

/-!
# Rounding keeps the order

Of two ratios within the range of the format, the greater one is not rounded to the lesser number
(`Binary64.round_mono`). Within one exponent the units keep the order (`Binary64.scaled_mono`), and
a ratio with a greater exponent lies beyond every number with a lesser one.
-/

namespace QueryGate

/-- The greater ratio is not rounded to the lesser whole number. -/
theorem roundDiv_mono {num den num' den' : Nat} (hden : 0 < den) (hden' : 0 < den')
    (h : num * den' ≤ num' * den) : roundDiv num den ≤ roundDiv num' den' := by
  have hwhole : num / den ≤ num' / den' := by
    rw [Nat.le_div_iff_mul_le hden']
    refine Nat.le_of_mul_le_mul_right ?_ hden
    calc num / den * den' * den = num / den * den * den' := by ac_rfl
      _ ≤ num * den' := Nat.mul_le_mul_right den' (Nat.div_mul_le_self num den)
      _ ≤ num' * den := h
  rcases hwhole.lt_or_eq with hlt | heq
  · have := (roundDiv_bounds num den).2
    have := (roundDiv_bounds num' den').1
    omega
  -- The whole parts agree, so the rests are in order, and with them their sides of one half.
  have hrest : num % den * den' ≤ num' % den' * den := by
    have hsplit : num / den * den + num % den = num := Nat.div_add_mod' num den
    have hsplit' : num / den * den' + num' % den' = num' := heq ▸ Nat.div_add_mod' num' den'
    have hcommon : num / den * den * den' = num / den * den' * den := by ac_rfl
    rw [← hsplit, ← hsplit', Nat.add_mul, Nat.add_mul, hcommon] at h
    exact Nat.le_of_add_le_add_left h
  have hhalf : den ≤ 2 * (num % den) → den' ≤ 2 * (num' % den') := by
    intro hle
    refine Nat.le_of_mul_le_mul_right ?_ hden
    have := Nat.mul_le_mul_right den' hle
    rw [Nat.mul_comm den' den]
    rw [Nat.mul_assoc] at this ⊢
    omega
  have habove : den < 2 * (num % den) → den' < 2 * (num' % den') := by
    intro hlt
    refine Nat.lt_of_mul_lt_mul_right (a := den) ?_
    have := Nat.mul_lt_mul_of_pos_right hlt hden'
    rw [Nat.mul_comm den' den]
    rw [Nat.mul_assoc] at this ⊢
    omega
  unfold roundDiv
  rw [← heq]
  simp only
  split_ifs <;> omega

namespace Binary64

section Ratio

variable {num den num' den' : Nat}

/-- A greater ratio has at least as many units. -/
theorem scaled_mono (hden : 0 < den) (hden' : 0 < den') (h : num * den' ≤ num' * den) (e : Int) :
    scaled num den e ≤ scaled num' den' e := by
  unfold scaled
  simp only [Nat.pow_eq]
  split
  · have hpow : 0 < 2 ^ e.toNat := Nat.two_pow_pos _
    refine roundDiv_mono (Nat.mul_pos hden hpow) (Nat.mul_pos hden' hpow) ?_
    rw [← Nat.mul_assoc, ← Nat.mul_assoc]
    exact Nat.mul_le_mul_right _ h
  · refine roundDiv_mono hden hden' ?_
    rw [Nat.mul_right_comm, Nat.mul_right_comm num']
    exact Nat.mul_le_mul_right _ h

/-- A greater ratio has no lesser exponent. -/
theorem exponentOf_mono (hnum : num ≠ 0) (hnum' : num' ≠ 0) (hden : 0 < den) (hden' : 0 < den')
    (h : (num / den : Rat) ≤ num' / den') : exponentOf num den ≤ exponentOf num' den' := by
  obtain ⟨hmin, hbelow, -⟩ := exponentOf_spec hnum' hden'
  obtain ⟨-, -, habove⟩ := exponentOf_spec hnum hden
  by_contra hlt
  have hpow : (2 : Rat) ^ (exponentOf num den + 52) < 2 ^ (exponentOf num' den' + 53) :=
    ((habove (by omega)).trans h).trans_lt hbelow
  have := (zpow_lt_zpow_iff_right₀ (one_lt_two : (1 : Rat) < 2)).1 hpow
  omega

/-- Above the least unit a ratio has 53 bits before the point. -/
theorem two_pow_le_scaled (hnum : num ≠ 0) (hden : 0 < den)
    (h : minExponent < exponentOf num den) : 2 ^ 52 ≤ scaled num den (exponentOf num den) := by
  obtain ⟨-, -, habove⟩ := exponentOf_spec hnum hden
  have hunit : (2 : Rat) ^ (exponentOf num den + 52) = 2 ^ 53 * 2 ^ (exponentOf num den - 1) := by
    rw [← zpow_natCast, ← zpow_add₀ two_ne_zero]
    congr 1
    ring
  refine (@le_scaled_iff num den hden (2 ^ 52) (by decide) _).2 (le_trans ?_ (habove h))
  rw [hunit]
  refine mul_le_mul_of_nonneg_right ?_ (zpow_nonneg zero_le_two _)
  norm_num

/-! ## The value of a rounded ratio -/

theorem toRat_finite (m : Nat) (e : Int) : (finite false m e).toRat = m * 2 ^ e := by
  unfold toRat
  simp only [Bool.false_eq_true, if_false, Nat.pow_eq]
  split
  · rename_i he
    rw [two_zpow_of_nonneg he]
    push_cast
    rfl
  · rename_i he
    rw [Rat.mkRat_eq_div, two_zpow_of_nonpos (by omega), mul_one_div, Int.cast_natCast]

/-- A ratio within the range is rounded to its units. -/
theorem toRat_ofRatio (hnum : num ≠ 0) (hden : 0 < den) (h : (num / den : Rat) < overflow) :
    (ofRatio false num den).toRat =
      scaled num den (exponentOf num den) * 2 ^ exponentOf num den := by
  have hfinite := (ofRatio_isFinite_iff false hden).2 h
  rw [ofRatio, if_neg hnum] at hfinite ⊢
  by_cases hcarry : scaled num den (exponentOf num den) = Nat.pow 2 precision
  · -- The carry: half the units at twice their size.
    have hhalf : ((Nat.pow 2 (precision - 1) : Nat) : Rat) * 2 = (Nat.pow 2 precision : Nat) := by
      rw [Nat.pow_eq, Nat.pow_eq]
      norm_num [precision]
    simp only [hcarry, if_true] at hfinite ⊢
    split_ifs at hfinite ⊢
    · exact hfinite.elim
    · rw [toRat_finite, ← hhalf, zpow_add_one₀ two_ne_zero, mul_assoc, mul_comm (2 : Rat)]
  · simp only [hcarry, if_false] at hfinite ⊢
    split_ifs at hfinite ⊢
    · exact hfinite.elim
    · rw [toRat_finite]

theorem toRat_ofRatio_zero (den : Nat) : (ofRatio false 0 den).toRat = 0 := by
  rw [ofRatio, if_pos rfl, toRat_finite, Nat.cast_zero, zero_mul]

theorem toRat_ofRatio_nonneg (hden : 0 < den) (h : (num / den : Rat) < overflow) :
    0 ≤ (ofRatio false num den).toRat := by
  by_cases hnum : num = 0
  · rw [hnum, toRat_ofRatio_zero]
  · rw [toRat_ofRatio hnum hden h]
    exact mul_nonneg (Nat.cast_nonneg _) (zpow_nonneg zero_le_two _)

theorem toRat_ofRatio_mono (hden : 0 < den) (hden' : 0 < den')
    (h : (num / den : Rat) ≤ num' / den') (hrange : (num' / den' : Rat) < overflow) :
    (ofRatio false num den).toRat ≤ (ofRatio false num' den').toRat := by
  by_cases hnum : num = 0
  · rw [hnum, toRat_ofRatio_zero]
    exact toRat_ofRatio_nonneg hden' hrange
  have hcross : num * den' ≤ num' * den := by
    rw [div_le_div_iff₀ (by exact_mod_cast hden) (by exact_mod_cast hden')] at h
    exact_mod_cast h
  have hnum' : num' ≠ 0 := by
    rintro rfl
    rw [Nat.zero_mul, Nat.le_zero, Nat.mul_eq_zero] at hcross
    omega
  rw [toRat_ofRatio hnum hden (h.trans_lt hrange), toRat_ofRatio hnum' hden' hrange]
  obtain ⟨hmin, hbelow, -⟩ := exponentOf_spec hnum hden
  rcases (exponentOf_mono hnum hnum' hden hden' h).lt_or_eq with hlt | heq
  · -- The power of two between the exponents separates the numbers.
    have hunits := two_pow_le_scaled hnum' hden' (hmin.trans_lt hlt)
    calc (scaled num den (exponentOf num den) : Rat) * 2 ^ exponentOf num den
        ≤ 2 ^ 53 * 2 ^ exponentOf num den := by
          refine mul_le_mul_of_nonneg_right ?_ (by positivity)
          exact_mod_cast scaled_le hden hbelow
      _ = 2 ^ (exponentOf num den + 53) := by
          rw [mul_comm, zpow_add₀ two_ne_zero]
          rfl
      _ ≤ 2 ^ (52 + exponentOf num' den') := zpow_le_zpow_right₀ one_le_two (by omega)
      _ = 2 ^ 52 * 2 ^ exponentOf num' den' := zpow_add₀ two_ne_zero _ _
      _ ≤ scaled num' den' (exponentOf num' den') * 2 ^ exponentOf num' den' := by
          refine mul_le_mul_of_nonneg_right ?_ (by positivity)
          exact_mod_cast hunits
  · rw [← heq]
    refine mul_le_mul_of_nonneg_right ?_ (by positivity)
    exact_mod_cast scaled_mono hden hden' hcross _

end Ratio

/-! ## Exact numbers, rounded -/

/-- Whatever is made of two scores is within the range. -/
theorem two_lt_overflow : (2 : Rat) < overflow := by
  have : 2 < overflow := by decide +kernel
  exact_mod_cast this

theorem ofRat_of_nonneg {x : Rat} (hx : 0 ≤ x) : ofRat x = ofRatio false x.num.natAbs x.den := by
  rw [ofRat, decide_eq_false (not_lt.2 (Rat.num_nonneg.2 hx))]

theorem natAbs_num_div_den {x : Rat} (hx : 0 ≤ x) : (x.num.natAbs / x.den : Rat) = x := by
  have hnum : (x.num.natAbs : Int) = x.num := Int.natAbs_of_nonneg (Rat.num_nonneg.2 hx)
  rw [← Int.cast_natCast, hnum, Rat.num_div_den]

theorem round_nonneg {x : Rat} (hx : 0 ≤ x) (hrange : x < overflow) : 0 ≤ round x := by
  rw [round, ofRat_of_nonneg hx]
  exact toRat_ofRatio_nonneg x.den_pos ((natAbs_num_div_den hx).trans_lt hrange)

theorem round_nonpos {x : Rat} (h : x ≤ 0) : round x ≤ 0 := by
  obtain hlt | rfl := h.lt_or_eq
  · have hnum : x.num < 0 := Rat.num_neg.2 hlt
    have hnonneg (m : Nat) (e : Int) : toRat (.finite true m e) ≤ 0 := by
      unfold toRat
      simp only [if_true]
      rw [neg_nonpos]
      split
      · positivity
      · rw [Rat.mkRat_eq_div]
        positivity
    unfold round ofRat ofRatio
    rw [decide_eq_true hnum]
    simp only
    split_ifs <;> first | exact hnonneg _ _ | exact le_refl (0 : Rat)
  · decide +kernel

/-- Rounding keeps the order of numbers within the range. -/
theorem round_mono {x y : Rat} (h : x ≤ y) (hy : 0 ≤ y) (hrange : y < overflow) :
    round x ≤ round y := by
  rcases le_or_gt 0 x with hx | hx
  · rw [round, round, ofRat_of_nonneg hx, ofRat_of_nonneg hy]
    refine toRat_ofRatio_mono x.den_pos y.den_pos ?_ ?_
    · rwa [natAbs_num_div_den hx, natAbs_num_div_den hy]
    · exact (natAbs_num_div_den hy).trans_lt hrange
  · exact (round_nonpos hx.le).trans (round_nonneg hy hrange)

end Binary64

end QueryGate
