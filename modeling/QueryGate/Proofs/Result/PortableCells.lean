import QueryGate.Proofs.Number.DecimalValue
import QueryGate.Proofs.Text.Numeral
import QueryGate.Result.Cell

/-!
# Which values have a portable form

A cell is to hold what every consumer can read: nothing, a truth value, a text, a whole number of at
most 53 bits, or a finite binary number; and a greater whole number is to keep all its digits
(`Cell.Carries`). Every value without parts comes to such a cell, but for three kinds of numbers
(`Cell.exists_cell_iff`). An integer of more digits than are ever written and a whole decimal number
of more digits than decimal arithmetic keeps have no cell at all, and a decimal number with a
fraction becomes infinite beyond the greatest binary number.
-/

namespace QueryGate

/-! ## Values without parts -/

/-- Less than a billion days, the most that a duration holds. -/
def Duration.IsValid (d : Duration) : Prop := d.micros.natAbs < 10 ^ 9 * 86400 * 10 ^ 6

/-- A binary number that the format has. -/
def Binary64.IsValid : Binary64 → Prop
  | .finite negative mantissa exponent => (Binary64.finite negative mantissa exponent).IsFinite
  | .infinite _ | .nan => True

namespace Value

/-- A value without parts, of a kind that is known and in the range of its kind. -/
def IsScalar : Value → Prop
  | .float x => x.IsValid
  | .duration d => d.IsValid
  | .list _ | .tuple _ | .mapping _ | .other _ => False
  | _ => True

/-- A value is a whole number: an integer, or a finite decimal number without a fraction. -/
inductive IsWhole : Value → Int → Prop
  | int (n : Int) : IsWhole (.int n) n
  | decimal {negative : Bool} {c : Nat} {e n : Int}
      (h : (Decimal.finite negative c e).toRat = n) :
      IsWhole (.decimal (.finite negative c e)) n

/-- What a number has to keep to in order to have a portable form; other values always have one. -/
def IsPortable : Value → Prop
  | .int n => n.natAbs < 10 ^ Numeral.maxDigits
  | .decimal (.finite negative c e) =>
    let value := (Decimal.finite negative c e).toRat
    ((∃ n : Int, value = n) → |value| < 10 ^ Decimal.precision) ∧
      ((¬ ∃ n : Int, value = n) → |value| < Binary64.overflow)
  | _ => True

end Value

namespace Cell

/-- A cell that every consumer can read. -/
def IsPortable : Cell → Prop
  | .int n => n.natAbs ≤ maxSafeInteger
  | .float x => x.IsFinite
  | .null | .bool _ | .text _ => True

/-- A cell holds a value: it is portable, and of a great whole number it has the digits. -/
structure Carries (v : Value) (c : Cell) : Prop where
  portable : c.IsPortable
  digits : ∀ n : Int, v.IsWhole n → maxSafeInteger < n.natAbs → c = .text (Text.ofInt n)

/-! ## Integers -/

theorem exists_ofInt_iff (n : Int) :
    (∃ c, ofInt n = .ok c ∧ c.Carries (.int n)) ↔ n.natAbs < 10 ^ Numeral.maxDigits := by
  unfold ofInt
  by_cases hn : n.natAbs ≤ maxSafeInteger
  · rw [if_pos hn]
    refine iff_of_true ⟨.int n, rfl, hn, ?_⟩ ?_
    · rintro _ ⟨⟩ hgreat
      exact absurd hn (Nat.not_le_of_lt hgreat)
    · calc n.natAbs ≤ maxSafeInteger := hn
        _ < 10 ^ 16 := by decide
        _ ≤ 10 ^ Numeral.maxDigits := Nat.pow_le_pow_right (by decide) (by decide)
  · rw [if_neg hn]
    constructor
    · rintro ⟨c, hc, -⟩
      cases ht : writeInt n with
      | error f => rw [ht] at hc; cases hc
      | ok t => exact (writeInt_eq_ok_iff.1 ht).2
    · intro hlt
      rw [writeInt_eq_ok_iff.2 ⟨rfl, hlt⟩]
      exact ⟨.text (Text.ofInt n), rfl, trivial, by rintro _ ⟨⟩ -; rfl⟩

/-! ## Decimal numbers -/

section Decimal

variable {negative : Bool} {c : Nat} {e : Int}

theorem carries_float_of_not_great
    (hgreat : ∀ n : Int, (Decimal.finite negative c e).toRat = n → n.natAbs ≤ maxSafeInteger) :
    Carries (.decimal (.finite negative c e)) (.float (Decimal.finite negative c e).toBinary64) ↔
      (c : Rat) * 10 ^ e < Binary64.overflow := by
  rw [← Decimal.toBinary64_isFinite_iff negative]
  refine ⟨fun h => h.portable, fun h => ⟨h, ?_⟩⟩
  rintro n ⟨⟩ hn
  rename_i hvalue
  exact absurd (hgreat n hvalue) (Nat.not_le_of_lt hn)

/-- The digits of a whole number, with its sign. -/
theorem text_of_whole {n : Nat} (hpos : 0 < n) {m : Int}
    (h : (m : Rat) = (if negative then -1 else 1) * n) :
    (if negative then ['-'] else []) ++ Text.ofNat n = Text.ofInt m := by
  obtain ⟨n, rfl⟩ := Nat.exists_eq_succ_of_ne_zero hpos.ne'
  cases negative with
  | false =>
    obtain rfl : m = (n + 1 : Nat) := by
      rw [if_neg (by decide), one_mul] at h
      exact_mod_cast h
    rfl
  | true =>
    obtain rfl : m = Int.negSucc n := by
      rw [if_pos rfl, neg_one_mul] at h
      rw [Int.negSucc_eq]
      exact_mod_cast h
    rfl

theorem maxSafeInteger_lt_overflow : (maxSafeInteger : Rat) < Binary64.overflow := by
  have hbelow : maxSafeInteger < Binary64.overflow := by decide +kernel
  exact Nat.cast_lt.2 hbelow

/-- A cell that is there is the one that holds the value. -/
theorem exists_ok_float_iff {v : Value} {x : Binary64} :
    (∃ cell, (Except.ok (.float x) : Except Fault Cell) = .ok cell ∧ cell.Carries v) ↔
      Carries v (.float x) :=
  ⟨fun ⟨_, hcell, h⟩ => Except.ok.inj hcell ▸ h, fun h => ⟨_, rfl, h⟩⟩

/-- Zero comes to a cell, whatever its exponent. -/
theorem exists_ofDecimal_zero (negative : Bool) (e : Int) :
    ∃ cell, ofDecimal (.finite negative 0 e) = .ok cell ∧
      cell.Carries (.decimal (.finite negative 0 e)) := by
  have hzero : ((0 : Nat) : Rat) * 10 ^ e = 0 := by rw [Nat.cast_zero, zero_mul]
  have hvalue {n : Int} (h : (Decimal.finite negative 0 e).toRat = n) : n.natAbs = 0 := by
    exact_mod_cast (Decimal.natAbs_of_toRat h).trans hzero
  simp only [ofDecimal]
  rw [if_pos (by simp), exists_ok_float_iff,
    carries_float_of_not_great fun n hn => by simp [hvalue hn], hzero]
  exact (Nat.cast_nonneg maxSafeInteger).trans_lt maxSafeInteger_lt_overflow

/-- A whole number comes to a cell if it has no more digits than are kept. -/
theorem exists_ofDecimal_whole_iff (negative : Bool) (hc : c ≠ 0)
    (hw : Decimal.isWhole c e = true) :
    (∃ cell, ofDecimal (.finite negative c e) = .ok cell ∧
        cell.Carries (.decimal (.finite negative c e))) ↔
      (c : Rat) * 10 ^ e < 10 ^ Decimal.precision := by
  have hlong := Decimal.magnitude_lt_iff (e := e) hc (z := Decimal.precision)
  rw [zpow_natCast] at hlong
  have hpart := Decimal.wholePart_eq hc hw
  have hvalue {n : Int} (h : (Decimal.finite negative c e).toRat = n) :
      n.natAbs = Decimal.wholePart c e := by
    exact_mod_cast (Decimal.natAbs_of_toRat h).trans hpart
  simp only [ofDecimal]
  rw [if_neg (by simp [hw, hc]), hlong]
  split
  · exact iff_of_false (fun ⟨_, h, _⟩ => nomatch h) (by omega)
  refine iff_of_true ?_ (by omega)
  split
  · rename_i hsmall
    rw [exists_ok_float_iff, carries_float_of_not_great fun n hn => (hvalue hn).trans_le hsmall,
      hpart]
    exact lt_of_le_of_lt (by exact_mod_cast hsmall) maxSafeInteger_lt_overflow
  · rename_i hgreat
    refine ⟨_, rfl, trivial, ?_⟩
    rintro n ⟨⟩ -
    rename_i hn
    refine congrArg Cell.text (text_of_whole (by omega) ?_)
    rw [← hn, Decimal.toRat, hpart]

theorem exists_ofDecimal_iff (negative : Bool) (c : Nat) (e : Int) :
    (∃ cell, ofDecimal (.finite negative c e) = .ok cell ∧
        cell.Carries (.decimal (.finite negative c e))) ↔
      (Value.decimal (.finite negative c e)).IsPortable := by
  unfold Value.IsPortable
  simp only [Decimal.abs_toRat, Decimal.exists_toRat_eq_iff]
  by_cases hc : c = 0
  · subst hc
    have hzero : ((0 : Nat) : Rat) * 10 ^ e = 0 := by rw [Nat.cast_zero, zero_mul]
    refine iff_of_true (exists_ofDecimal_zero negative e) ⟨fun _ => ?_, fun h => ?_⟩
    · rw [hzero]
      positivity
    · exact absurd ⟨0, by simp⟩ h
  have hwhole := Decimal.isWhole_iff (e := e) hc
  by_cases hw : Decimal.isWhole c e = true
  · rw [exists_ofDecimal_whole_iff negative hc hw]
    simp only [hwhole.1 hw, not_true_eq_false, false_imp_iff, true_imp_iff, and_true]
  · -- With a fraction it comes to a binary number, whatever its size.
    simp only [ofDecimal]
    rw [if_pos (by simp [hw]), exists_ok_float_iff, carries_float_of_not_great fun n hn =>
      absurd (hwhole.2 ((Decimal.exists_toRat_eq_iff negative).1 ⟨n, hn⟩)) hw]
    have hno := mt hwhole.2 hw
    simp only [hno, false_imp_iff, true_and, not_false_eq_true, true_imp_iff]

end Decimal

/-- A value without parts comes to a cell that holds it exactly if it is portable: whatever is no
number, and every number but the greatest. -/
theorem exists_cell_iff {v : Value} (hv : v.IsScalar) :
    (∃ c, ofValue v = .ok c ∧ c.Carries v) ↔ v.IsPortable := by
  have hplain {c : Cell} (hp : c.IsPortable) (hno : ∀ n, ¬ v.IsWhole n) :
      ∃ c', (Except.ok c : Except Fault Cell) = .ok c' ∧ c'.Carries v :=
    ⟨c, rfl, hp, fun n hn => absurd hn (hno n)⟩
  cases v with
  | int n => exact exists_ofInt_iff n
  | decimal d =>
    cases d with
    | finite negative c e => exact exists_ofDecimal_iff negative c e
    | infinite negative => exact iff_of_true (hplain trivial nofun) trivial
    | nan negative signaling payload => exact iff_of_true (hplain trivial nofun) trivial
  | float x =>
    cases x with
    | finite negative mantissa exponent => exact iff_of_true (hplain hv nofun) trivial
    | infinite negative => exact iff_of_true (hplain trivial nofun) trivial
    | nan => exact iff_of_true (hplain trivial nofun) trivial
  | duration d =>
    -- Seconds that a duration holds are far below the greatest binary number.
    have hbelow : ((d.micros.natAbs : Rat) / (1000000 : Nat)) < Binary64.overflow := by
      have hv : d.micros.natAbs < 10 ^ 9 * 86400 * 10 ^ 6 := hv
      have hoverflow : 10 ^ 9 * 86400 * 10 ^ 6 < Binary64.overflow * 1000000 := by decide +kernel
      rw [div_lt_iff₀ (by norm_num)]
      exact_mod_cast hv.trans hoverflow
    refine iff_of_true (hplain (c := .float _) ?_ nofun) trivial
    exact (Binary64.ofRatio_isFinite_iff _ (by decide)).2 hbelow
  | list items | tuple items | mapping entries | other t => exact hv.elim
  | null | bool b | text t | date d | moment d t | time t | uuid n | bytes form data =>
    exact iff_of_true (hplain trivial nofun) trivial

/-- A whole decimal number of 16 digits keeps them although it is written with a fraction. -/
theorem cell_of_decimal_with_zeros :
    (Value.decimal (.finite true 90071992547409930 (-1))).IsScalar ∧
      (Value.decimal (.finite true 90071992547409930 (-1))).IsPortable ∧
      ∃ c, ofValue (.decimal (.finite true 90071992547409930 (-1))) = .ok c ∧
        c.Carries (.decimal (.finite true 90071992547409930 (-1))) ∧ c = .text "-9007199254740993" := by
  have hvalue : (Decimal.finite true 90071992547409930 (-1)).toRat = (-9007199254740993 : Int) := by
    norm_num [Decimal.toRat]
  have hportable : (Value.decimal (.finite true 90071992547409930 (-1))).IsPortable := by
    refine ⟨fun _ => ?_, fun h => absurd ⟨_, hvalue⟩ h⟩
    rw [hvalue]
    norm_num [Decimal.precision]
  obtain ⟨c, hc, hcarries⟩ := (exists_cell_iff (by trivial)).2 hportable
  exact ⟨trivial, hportable, c, hc, hcarries, hcarries.digits _ (.decimal hvalue) (by decide)⟩

/-- A whole decimal number of more than 28 digits has no cell. -/
theorem decimal_without_cell :
    ¬ ∀ v : Value, v.IsScalar → ∃ c, ofValue v = .ok c ∧ c.Carries v := by
  intro h
  obtain ⟨c, hc, -⟩ := h (.decimal (.finite false (10 ^ 30) 0)) trivial
  have hfault : ofValue (.decimal (.finite false (10 ^ 30) 0)) = .error .decimalTooLong := by
    decide +kernel
  rw [hfault] at hc
  cases hc

end Cell

end QueryGate
