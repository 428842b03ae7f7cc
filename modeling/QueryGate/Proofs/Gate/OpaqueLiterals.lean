import QueryGate.ColumnCheck
import QueryGate.Gate.Wording
import QueryGate.Proofs.Sql.MaskedParts

/-!
# The contents of literals

What stands inside string literals makes no difference to a query but for the search for suspicious
texts, which looks into them. Two queries with one mask name the same tables, miss the same columns,
have the same bound and are bounded alike, and where neither is suspicious the wording of both is
judged alike (`maskLiterals_determines`).

The stages that look at the query as it stands look at its ends only: whether it is blank, how it
begins, and what is trimmed off it.
-/

namespace QueryGate

/-- What is said of a query's bound, apart from the query: whether the query was changed, the bound
it came with, the one it has, and whether that was lowered. -/
def Bounded.report (b : Bounded) : Bool × Option Nat × Nat × Bool :=
  (b.isApplied, b.asked?, b.enforced, b.wasLowered)

theorem Wording.beginsStatement_maskLiterals (sql : Text) :
    beginsStatement (maskLiterals sql) = beginsStatement sql := by
  rw [beginsStatement, skipBlanks_maskLiterals, isSome_oneWord_maskLiterals (by decide)]
  rfl

/-- The bound is looked for in a part of the mask. -/
theorem maskLiterals_boundPart (sql : Text) :
    maskLiterals (trimEnd (trimEndOf ';' (trim sql))) =
      trimEnd (trimEndOf ';' (trim (maskLiterals sql))) := by
  rw [trim_maskLiterals, trimEndOf_maskLiterals (by decide), trimEnd_maskLiterals]

/-- What is said of the bound of a `SELECT` depends on what is done to its body. -/
theorem report_bound_of_isSelect {sql : Text} (h : isSelect sql = true) (cap : RowCap) :
    Bounded.report <$> bound cap sql =
      (fun effect => Bounded.report ⟨sql, effect, cap.rows⟩) <$>
        (Prod.snd <$> Bound.body cap (withoutSemicolon sql).1) := by
  rw [bound, if_pos h]
  obtain ⟨body, semicolon⟩ := withoutSemicolon sql
  dsimp only
  cases Bound.body cap body <;> rfl

/-! ## Two queries with one mask -/

section OneMask
variable {sql other : Text} (h : maskLiterals sql = maskLiterals other)

include h

theorem allBlank_congr : allBlank sql = allBlank other := by
  rw [← allBlank_maskLiterals, h, allBlank_maskLiterals]

theorem isSelect_congr : isSelect sql = isSelect other := by
  rw [← isSelect_maskLiterals, h, isSelect_maskLiterals]

theorem beginsStatement_congr :
    Wording.beginsStatement sql = Wording.beginsStatement other := by
  rw [← Wording.beginsStatement_maskLiterals, h, Wording.beginsStatement_maskLiterals]

theorem withoutSemicolon_congr :
    maskLiterals (withoutSemicolon sql).1 = maskLiterals (withoutSemicolon other).1 := by
  have hparts := withoutSemicolon_maskLiterals sql
  rw [h, withoutSemicolon_maskLiterals other] at hparts
  exact (Prod.mk.inj hparts).1.symm

theorem tableRefs_congr : tableRefs sql = tableRefs other := congrArg tableRefsIn h

theorem checkColumns_congr (tables : List Table) :
    checkColumns tables sql = checkColumns tables other := by
  simp only [checkColumns, allBlank_congr h, tableRefs_congr h, h]

theorem outerLimit?_congr : outerLimit? sql = outerLimit? other := by
  simp only [outerLimit?, maskLiterals_boundPart, h]

/-- Bounding a body does the same to each body with its mask, and fails alike. -/
theorem Bound.effect_congr (cap : RowCap) :
    Prod.snd <$> Bound.body cap sql = Prod.snd <$> Bound.body cap other := by
  -- The clause is found in the mask; the body itself is only copied.
  simp only [Bound.body, h]
  cases firstHit? trailingLimit (maskLiterals other) <|>
      firstHit? trailingFetch (maskLiterals other) with
  | none => simp only [map_bind, map_pure]
  | some hit =>
    simp only [map_bind]
    refine congrArg (Bound.number? hit.value >>= ·) (funext fun asked => ?_)
    cases asked with
    | none => simp only [map_bind, map_pure]
    | some n =>
      by_cases hle : n ≤ cap.rows
      · simp only [hle, if_true, map_pure]
      · simp only [hle, if_false, map_bind, map_pure]

theorem bound_congr (cap : RowCap) :
    Bounded.report <$> bound cap sql = Bounded.report <$> bound cap other := by
  by_cases hselect : isSelect other = true
  · have hselect' : isSelect sql = true := (isSelect_congr h).trans hselect
    rw [report_bound_of_isSelect hselect, report_bound_of_isSelect hselect',
      Bound.effect_congr (withoutSemicolon_congr h)]
    rfl
  · simp only [bound, isSelect_congr h, hselect]
    rfl

theorem checkWording_congr (hsql : Wording.isSuspicious sql = false)
    (hother : Wording.isSuspicious other = false) : checkWording sql = checkWording other := by
  simp only [checkWording, Wording.violation?, allBlank_congr h, beginsStatement_congr h, h, hsql,
    hother]

end OneMask

/-- Texts with one mask are read alike: the same tables, the same verdict on columns, the same
bound, and alike bounded; and if neither is suspicious, the same verdict on the wording. -/
theorem maskLiterals_determines (sql other : Text) (h : maskLiterals sql = maskLiterals other) :
    tableRefs sql = tableRefs other ∧
      (∀ tables, checkColumns tables sql = checkColumns tables other) ∧
      outerLimit? sql = outerLimit? other ∧
      (∀ cap, Bounded.report <$> bound cap sql = Bounded.report <$> bound cap other) ∧
      (Wording.isSuspicious sql = false → Wording.isSuspicious other = false →
        checkWording sql = checkWording other) :=
  ⟨tableRefs_congr h, checkColumns_congr h, outerLimit?_congr h, bound_congr h,
    checkWording_congr h⟩

/-- An escaped apostrophe in a literal counts no more than a letter there. -/
theorem maskLiterals_determines_escaped_apostrophe :
    maskLiterals "SELECT a FROM t WHERE b = 'DROP' LIMIT 9;" =
        maskLiterals "SELECT a FROM t WHERE b = 'a''b' LIMIT 9;" ∧
      outerLimit? "SELECT a FROM t WHERE b = 'DROP' LIMIT 9;" =
        outerLimit? "SELECT a FROM t WHERE b = 'a''b' LIMIT 9;" ∧
      checkWording "SELECT a FROM t WHERE b = 'DROP' LIMIT 9;" =
        checkWording "SELECT a FROM t WHERE b = 'a''b' LIMIT 9;" := by
  have h : maskLiterals "SELECT a FROM t WHERE b = 'DROP' LIMIT 9;" =
      maskLiterals "SELECT a FROM t WHERE b = 'a''b' LIMIT 9;" := by
    decide +kernel
  obtain ⟨-, -, hlimit, -, hwording⟩ := maskLiterals_determines _ _ h
  exact ⟨h, hlimit, hwording (by decide +kernel) (by decide +kernel)⟩

end QueryGate
