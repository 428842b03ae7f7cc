import QueryGate.Proofs.Sql.LiteralMask

/-!
# The rule of literals

By the rule of SQL literals are found in one pass: `ruleMask` goes along a text and only knows
whether it is inside a literal. The mask looks ahead to the end of each literal, and gives up an
escape where the text would end inside it. Both agree on every text in which the apostrophes are
even in number, and otherwise on what stands before the last apostrophe; from there on the mask
leaves the text as it is (`maskLiterals_by_rule`).
-/

namespace QueryGate

/-- The mask by the rule, of a text that begins inside or outside a literal. Outside, an apostrophe
opens a literal. Inside, two apostrophes are an escaped one and any other closes the literal, and
all that comes before it is blotted out. -/
def ruleMask : (inside : Bool) → Text → Text
  | _, [] => []
  | false, c :: t => c :: ruleMask (c == '\'') t
  | true, '\'' :: '\'' :: t => maskChar :: maskChar :: ruleMask true t
  | true, c :: t => if c == '\'' then c :: ruleMask false t else maskChar :: ruleMask true t

/-! ## Steps of the rule -/

section Steps

variable {c : Char} {t : Text}

theorem ruleMask_opening : ruleMask false ('\'' :: t) = '\'' :: ruleMask true t := rfl

theorem ruleMask_plain (hc : c ≠ '\'') : ruleMask false (c :: t) = c :: ruleMask false t := by
  rw [ruleMask, beq_false_of_ne hc]

theorem ruleMask_escape :
    ruleMask true ('\'' :: '\'' :: t) = maskChar :: maskChar :: ruleMask true t := rfl

theorem ruleMask_closing (ht : t.head? ≠ some '\'') :
    ruleMask true ('\'' :: t) = '\'' :: ruleMask false t := by
  rw [ruleMask, if_pos (beq_self_eq_true _)]
  rintro t' - rfl
  exact ht rfl

theorem ruleMask_masked (hc : c ≠ '\'') :
    ruleMask true (c :: t) = maskChar :: ruleMask true t := by
  rw [ruleMask, beq_false_of_ne hc, if_neg Bool.false_ne_true]
  exact fun _ h => absurd h hc

theorem head?_ruleMask_outside (t : Text) : (ruleMask false t).head? = t.head? := by
  cases t <;> rfl

end Steps

/-! ## The mask by the rule -/

/-- Up to a place outside literals the mask is that of the rule, if what follows is not masked and
does not go on with an apostrophe that closes a literal directly before it. -/
theorem EndsOutside.maskAs_append_by_rule {inside : Bool} {a s : Text} (h : EndsOutside inside a)
    (hs : maskLiterals s = s) (hclosed : maskOpen ('\'' :: s) = '\'' :: s) :
    maskAs inside (a ++ s) = ruleMask inside a ++ s := by
  induction h with
  | nil => exact hs
  | @opening a h ih =>
    change maskLiterals ('\'' :: (a ++ s)) = _
    rw [maskLiterals_apostrophe, ruleMask_opening]
    exact congrArg _ ih
  | @plain c a hc h ih =>
    change maskLiterals (c :: (a ++ s)) = _
    rw [maskLiterals_cons hc, ruleMask_plain hc]
    exact congrArg _ ih
  | @closing a ha h ih =>
    rw [ruleMask_closing ha]
    cases a with
    | nil => exact hclosed
    | cons d a =>
      have hhead : (d :: a ++ s).head? ≠ some '\'' := ha
      change maskOpen ('\'' :: (d :: a ++ s)) = _
      rw [maskOpen_apostrophe hhead]
      exact congrArg _ ih
  | @escape a h ih =>
    change maskOpen ('\'' :: '\'' :: (a ++ s)) = _
    rw [maskOpen_escape (List.mem_append_left s h.apostrophe_mem), ruleMask_escape]
    exact congrArg _ (congrArg _ ih)
  | @masked c a hc h ih =>
    change maskOpen (c :: (a ++ s)) = _
    rw [maskOpen_cons hc (List.mem_append_left s h.apostrophe_mem), ruleMask_masked hc]
    exact congrArg _ ih

theorem EndsOutside.maskLiterals_eq {t : Text} (h : EndsOutside false t) :
    maskLiterals t = ruleMask false t := by
  have hrule := h.maskAs_append_by_rule (s := []) rfl rfl
  rwa [List.append_nil, List.append_nil] at hrule

/-- An apostrophe that follows outside literals and is the last one neither opens a literal nor
closes one. -/
theorem EndsOutside.maskLiterals_append {a b : Text} (h : EndsOutside false a) (hb : '\'' ∉ b) :
    maskLiterals (a ++ '\'' :: b) = ruleMask false a ++ '\'' :: b := by
  have hself : maskLiterals ('\'' :: b) = '\'' :: b := by
    rw [maskLiterals_apostrophe, maskOpen_eq_self hb]
  exact h.maskAs_append_by_rule hself (maskOpen_last_two hb)

/-- A text ends outside literals, or it does so in front of its last apostrophe. -/
theorem endsOutside_or_exists_last (t : Text) :
    EndsOutside false t ∨ ∃ a b, t = a ++ '\'' :: b ∧ EndsOutside false a ∧ '\'' ∉ b := by
  rcases Nat.mod_two_eq_zero_or_one (t.count '\'') with heven | hodd
  · exact .inl (endsOutside_iff.2 heven)
  · have hpos : 0 < t.count '\'' := by omega
    obtain ⟨a, b, rfl, hb⟩ := exists_last_of_mem (List.count_pos_iff.1 hpos)
    refine .inr ⟨a, b, rfl, endsOutside_iff.2 ?_, hb⟩
    rw [List.count_append, List.count_cons_self, List.count_eq_zero.2 hb] at hodd
    rw [Bool.toNat_false]
    omega

/-! ## The mask of a mask -/

section Again

variable {inside : Bool} {t : Text} (h : EndsOutside inside t)

include h

/-- The mask goes from inside to outside where the text does, and has no escapes. -/
theorem endsOutside_ruleMask : EndsOutside inside (ruleMask inside t) := by
  have hmask : maskChar ≠ '\'' := by decide
  induction h with
  | nil => exact .nil
  | opening _ ih => exact .opening ih
  | plain hc _ ih =>
    rw [ruleMask_plain hc]
    exact .plain hc ih
  | closing ha _ ih =>
    rw [ruleMask_closing ha]
    refine .closing ?_ ih
    rwa [head?_ruleMask_outside]
  | escape _ ih => exact .masked hmask (.masked hmask ih)
  | masked hc _ ih =>
    rw [ruleMask_masked hc]
    exact .masked hmask ih

theorem ruleMask_ruleMask : ruleMask inside (ruleMask inside t) = ruleMask inside t := by
  have hmask : maskChar ≠ '\'' := by decide
  induction h with
  | nil => rfl
  | opening _ ih => rw [ruleMask_opening, ruleMask_opening, ih]
  | plain hc _ ih => rw [ruleMask_plain hc, ruleMask_plain hc, ih]
  | @closing a ha _ ih =>
    have hhead : (ruleMask false a).head? ≠ some '\'' := by rwa [head?_ruleMask_outside]
    rw [ruleMask_closing ha, ruleMask_closing hhead, ih]
  | escape _ ih => rw [ruleMask_escape, ruleMask_masked hmask, ruleMask_masked hmask, ih]
  | masked hc _ ih => rw [ruleMask_masked hc, ruleMask_masked hmask, ih]

end Again

/-- A mask is its own mask. -/
theorem maskLiterals_maskLiterals (t : Text) :
    maskLiterals (maskLiterals t) = maskLiterals t := by
  rcases endsOutside_or_exists_last t with h | ⟨a, b, rfl, h, hb⟩
  · rw [h.maskLiterals_eq, (endsOutside_ruleMask h).maskLiterals_eq, ruleMask_ruleMask h]
  · rw [h.maskLiterals_append hb, (endsOutside_ruleMask h).maskLiterals_append hb,
      ruleMask_ruleMask h]

/-- The mask is that of the rule if the apostrophes of the text are even in number. If they are odd,
it is that of the rule up to the last apostrophe, and the text as it stands from there on. It is as
long as the text and its own mask. -/
theorem maskLiterals_by_rule (t : Text) :
    (t.count '\'' % 2 = 0 → maskLiterals t = ruleMask false t) ∧
      (t.count '\'' % 2 = 1 → ∃ a b, t = a ++ '\'' :: b ∧ '\'' ∉ b ∧
        maskLiterals t = ruleMask false a ++ '\'' :: b) ∧
      (maskLiterals t).length = t.length ∧
      maskLiterals (maskLiterals t) = maskLiterals t := by
  refine ⟨fun heven => ?_, fun hodd => ?_, length_maskLiterals t, maskLiterals_maskLiterals t⟩
  · have h : EndsOutside false t := endsOutside_iff.2 heven
    exact h.maskLiterals_eq
  · rcases endsOutside_or_exists_last t with h | ⟨a, b, rfl, h, hb⟩
    · rw [endsOutside_iff.1 h] at hodd
      cases hodd
    · exact ⟨a, b, rfl, hb, h.maskLiterals_append hb⟩

/-- An escape is blotted out with the literal that it stands in. Where the text ends inside that
literal, the first of the two apostrophes closes it. -/
theorem maskLiterals_by_rule_escape :
    let closed : Text := "note = 'it''s' --"
    let unclosed : Text := "note = 'it''s --"
    maskLiterals closed = "note = '\x00\x00\x00\x00\x00' --" ∧
      ∃ a b, unclosed = a ++ '\'' :: b ∧ '\'' ∉ b ∧
        maskLiterals unclosed = ruleMask false a ++ '\'' :: b := by
  intro closed unclosed
  have heven : closed.count '\'' % 2 = 0 := by decide
  have hodd : unclosed.count '\'' % 2 = 1 := by decide
  exact ⟨(maskLiterals_by_rule closed).1 heven, (maskLiterals_by_rule unclosed).2.1 hodd⟩

end QueryGate
