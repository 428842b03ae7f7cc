import QueryGate.Proofs.Bound.Rebounding
import QueryGate.Proofs.Gate.Numerals
import QueryGate.Proofs.Pipeline.SentStatement

/-!
# When a query is answered

Whatever is wrong with a query, it is turned down by a value. What keeps an answer from being given
at all is a text that the parser cannot read, or a tree too deep to be walked through, or a numeral:
one that the gate converts, one in the outer bound, which only bounding converts if it is that of a
`FETCH`, and the cap itself if it has to be written (`answered_iff_checkable`). So a query that
groups by a superscript digit has no verdict, and neither has one whose parentheses are nested too
deep.
-/

namespace QueryGate

/-! ## Bounding -/

/-- The outer bound of a body can be read, and the cap can be written unless the body carries a
bound already. -/
structure Boundable (cap : RowCap) (body : Text) : Prop where
  read : ∀ hit, (firstHit? trailingLimit (maskLiterals body) <|>
      firstHit? trailingFetch (maskLiterals body)) = some hit →
    hit.value.written.all isDecimalDigit = true → hit.value.written.length ≤ Numeral.maxDigits
  write : (∃ n, Bound.Carries cap body n) ∨ (Text.ofNat cap.rows).length ≤ Numeral.maxDigits

theorem writeDigits_map_isOk_iff {α : Type} {n : Nat} (f : Text → α) :
    (∃ r, (writeDigits n >>= fun ds => (Except.ok (f ds) : Except Fault α)) = .ok r) ↔
      (Text.ofNat n).length ≤ Numeral.maxDigits := by
  rw [exists_bind_eq_ok_iff, ← writeDigits_isOk_iff]
  exact ⟨fun ⟨ds, hds, _⟩ => ⟨ds, hds⟩, fun ⟨ds, hds⟩ => ⟨ds, hds, f ds, rfl⟩⟩

namespace Bound

variable {cap : RowCap} {t : Text}

theorem number?_isOk_iff {w : WrittenBound} :
    (∃ o, number? w = .ok o) ↔
      (w.written.all isDecimalDigit = true → w.written.length ≤ Numeral.maxDigits) := by
  unfold number?
  by_cases hempty : w.written.isEmpty = true
  · rw [if_pos hempty, List.isEmpty_iff.1 hempty]
    exact ⟨fun _ _ => Nat.zero_le _, fun _ => ⟨_, rfl⟩⟩
  rw [if_neg hempty]
  by_cases hd : w.written.all isDecimalDigit = true
  · rw [if_pos hd, readDigits_of_decimal (by simpa using hempty) (List.all_eq_true.1 hd)]
    split
    · rename_i hlen
      exact ⟨fun ⟨_, h⟩ => (nomatch h), fun h => absurd (h hd) (Nat.not_le.2 hlen)⟩
    · rename_i hlen
      exact ⟨fun _ _ => Nat.le_of_not_lt hlen, fun _ => ⟨_, rfl⟩⟩
  · rw [if_neg hd]
    exact ⟨fun _ h => absurd h hd, fun _ => ⟨_, rfl⟩⟩

/-- Where no bound is found the cap has to be written. -/
theorem boundable_iff_of_none (hh : (firstHit? trailingLimit (maskLiterals t) <|>
    firstHit? trailingFetch (maskLiterals t)) = none) :
    Boundable cap t ↔ (Text.ofNat cap.rows).length ≤ Numeral.maxDigits := by
  refine ⟨fun h => h.write.resolve_left ?_, fun h => ⟨fun hit hhit => ?_, .inr h⟩⟩
  · rintro ⟨n, -, hit, hhit, -⟩
    rw [hh] at hhit
    cases hhit
  · rw [hh] at hhit
    cases hhit

section Hit

variable {hit : Hit WrittenBound} (hh : (firstHit? trailingLimit (maskLiterals t) <|>
  firstHit? trailingFetch (maskLiterals t)) = some hit)

include hh in
theorem read_iff_number?_isOk : (∃ o, number? hit.value = .ok o) ↔
    ∀ hit', (firstHit? trailingLimit (maskLiterals t) <|>
        firstHit? trailingFetch (maskLiterals t)) = some hit' →
      hit'.value.written.all isDecimalDigit = true →
        hit'.value.written.length ≤ Numeral.maxDigits := by
  rw [number?_isOk_iff, hh]
  exact ⟨fun h hit' hhit' => Option.some.inj hhit' ▸ h, fun h => h hit rfl⟩

include hh in
/-- Where the bound that is found is above the cap, or is none, the cap has to be written. -/
theorem boundable_iff_of_above {asked : Option Nat} (hn : number? hit.value = .ok asked)
    (hlow : ¬ ∃ n ≤ cap.rows, asked = some n) :
    Boundable cap t ↔ (Text.ofNat cap.rows).length ≤ Numeral.maxDigits := by
  have hread := (read_iff_number?_isOk hh).1 ⟨asked, hn⟩
  refine ⟨fun h => h.write.resolve_left ?_, fun h => ⟨hread, .inr h⟩⟩
  rintro ⟨n, hle, hit', hhit', hn'⟩
  rw [← Option.some.inj (hh.symm.trans hhit'), hn] at hn'
  exact hlow ⟨n, hle, Except.ok.inj hn'⟩

end Hit

/-- Bounding a body fails only where its bound cannot be read, or the cap has to be written and
cannot be. -/
theorem body_isOk_iff : (∃ r, Bound.body cap t = .ok r) ↔ Boundable cap t := by
  unfold Bound.body
  simp only
  cases hh : (firstHit? trailingLimit (maskLiterals t) <|>
    firstHit? trailingFetch (maskLiterals t)) with
  | none => exact (writeDigits_map_isOk_iff _).trans (boundable_iff_of_none hh).symm
  | some hit =>
    simp only
    cases hn : number? hit.value with
    | error f =>
      refine ⟨fun ⟨_, h⟩ => (nomatch h), fun h => ?_⟩
      obtain ⟨o, ho⟩ := (read_iff_number?_isOk hh).2 h.read
      rw [hn] at ho
      cases ho
    | ok asked =>
      by_cases hlow : ∃ n ≤ cap.rows, asked = some n
      · have hread := (read_iff_number?_isOk hh).1 ⟨asked, hn⟩
        obtain ⟨n, hle, rfl⟩ := hlow
        refine ⟨fun _ => ⟨hread, .inl ⟨n, hle, hit, hh, hn⟩⟩, fun _ => ⟨(t, .within n), ?_⟩⟩
        exact if_pos hle
      · rw [boundable_iff_of_above hh hn hlow, ← writeDigits_map_isOk_iff
          fun ds => (lowerTo ds t hit.value.span, BoundEffect.lowered asked)]
        cases asked with
        | none => rfl
        | some n =>
          have hhigh : ¬ n ≤ cap.rows := fun hle => hlow ⟨n, hle, rfl⟩
          show (∃ r, (if n ≤ cap.rows then _ else _) = Except.ok r) ↔ _
          rw [if_neg hhigh]
          rfl

end Bound

theorem bound_isOk_iff {cap : RowCap} {sql : Text} :
    (∃ b, bound cap sql = .ok b) ↔
      (isSelect sql = true → Boundable cap (withoutSemicolon sql).1) := by
  unfold bound
  by_cases hs : isSelect sql = true
  · rw [if_pos hs, ← Bound.body_isOk_iff]
    simp only [hs, forall_const, exists_bind_eq_ok_iff]
    exact ⟨fun ⟨r, hr, _⟩ => ⟨r, hr⟩, fun ⟨r, hr⟩ => ⟨r, hr, _, rfl⟩⟩
  · rw [if_neg hs]
    exact ⟨fun _ h => absurd h hs, fun _ => ⟨_, rfl⟩⟩

/-! ## Preparation -/

/-- The query that is bounded can be bounded, if it comes to that: the gate accepts it, and so does
the check of columns where there is one. -/
def BoundableIfChecked (parser : Parser) (s : Settings) (tables : List Table)
    (question sql : Text) : Prop :=
  ∀ o, checkQuery parser s.rowCap tables sql = .ok o → o.isValid = true →
    (s.enforceColumnCheck = true → (checkColumns tables (o.finalSql sql)).isValid = true) →
    isSelect (queryToBound tables question sql o) = true →
      Boundable s.rowCap (withoutSemicolon (queryToBound tables question sql o)).1

theorem finish_isOk_iff {s : Settings} {tables : List Table} {question sql : Text} {o : Outcome} :
    (∃ out, finish s tables question (o.finalSql sql) = .ok out) ↔
      (isSelect (queryToBound tables question sql o) = true →
        Boundable s.rowCap (withoutSemicolon (queryToBound tables question sql o)).1) := by
  rw [← bound_isOk_iff, finish, exists_bind_eq_ok_iff]
  exact ⟨fun ⟨b, hb, _⟩ => ⟨b, hb⟩, fun ⟨b, hb⟩ => ⟨b, hb, _, rfl⟩⟩

theorem prepare_isOk_iff {parser : Parser} {s : Settings} {tables : List Table}
    {question sql : Text} :
    (∃ p, prepare parser s tables question sql = .ok p) ↔
      (isRefusal sql = false →
        (∃ o, checkQuery parser s.rowCap tables sql = .ok o) ∧
          BoundableIfChecked parser s tables question sql) := by
  unfold prepare
  by_cases hr : isRefusal sql = true
  · rw [if_pos hr, hr]
    exact ⟨fun _ h => (nomatch h), fun _ => ⟨_, rfl⟩⟩
  rw [if_neg hr]
  simp only [Bool.not_eq_true] at hr
  simp only [hr, forall_const, exists_bind_eq_ok_iff]
  cases hq : checkQuery parser s.rowCap tables sql with
  | error f =>
    exact ⟨fun ⟨_, h, _⟩ => (nomatch h), fun ⟨⟨_, h⟩, _⟩ => (nomatch h)⟩
  | ok o =>
    refine Iff.trans ?_ (and_iff_right ⟨o, rfl⟩).symm
    unfold BoundableIfChecked
    simp only [hq, Except.ok.injEq, forall_eq', exists_eq_left']
    by_cases hv : o.isValid = true
    · simp only [hv, Bool.not_true, Bool.false_eq_true, ite_false, forall_const]
      have hfinish (f : Text → Prepared) :
          (∃ p, (finish s tables question (o.finalSql sql) >>= fun out =>
              (Except.ok (f out) : Except Fault Prepared)) = .ok p) ↔ _ :=
        exists_bind_eq_ok_iff.trans (Iff.trans
          ⟨fun ⟨out, hout, _⟩ => ⟨out, hout⟩, fun ⟨out, hout⟩ => ⟨out, hout, f out, rfl⟩⟩
          finish_isOk_iff)
      by_cases hc : s.enforceColumnCheck = true
      · by_cases hcolumns : (checkColumns tables (o.finalSql sql)).isValid = true
        · simp only [hc, hcolumns, ite_true, Bool.not_true, Bool.false_eq_true, ite_false,
            forall_const]
          exact hfinish _
        · simp only [hc, hcolumns, ite_true, forall_const]
          exact ⟨fun _ h => (nomatch h), fun _ => ⟨_, rfl⟩⟩
      · simp only [hc, Bool.false_eq_true, ite_false, false_implies, forall_const]
        exact hfinish _
    · simp only [hv, Bool.not_false, ite_true, Bool.false_eq_true, false_implies, iff_true]
      exact ⟨.rejected o, rfl⟩

/-- A query has a verdict exactly if the parser can read it and the numerals that the gate converts
can be converted, where it gets so far, and it is prepared, be it to a refusal, exactly if bounding
it then meets with no other numeral. -/
theorem answered_iff_checkable (parser : Parser) (s : Settings) (tables : List Table)
    (question sql : Text) :
    ((∃ o, checkQuery parser s.rowCap tables sql = .ok o) ↔
      ((checkWording sql).isValid = true → Checkable parser s.rowCap sql)) ∧
    ((∃ p, prepare parser s tables question sql = .ok p) ↔
      (isRefusal sql = false →
        ((checkWording sql).isValid = true → Checkable parser s.rowCap sql) ∧
          BoundableIfChecked parser s tables question sql)) := by
  rw [prepare_isOk_iff, checkQuery_isOk_iff]
  exact ⟨Iff.rfl, Iff.rfl⟩

/-- Where there is room for two groups inside one another, a third one is too deep. -/
example : checkQuery ⟨Parser.scanner.parse, 2⟩ .standard [⟨"t", [⟨"a", .text, true⟩]⟩]
    "SELECT ((a)) FROM t" = .error .tooDeep := by
  decide +kernel

/-- A superscript digit among the groups keeps a query from being answered. -/
theorem unanswered_superscript_group :
    checkQuery .scanner .standard [⟨"t", [⟨"a", .text, true⟩]⟩] "SELECT COUNT(*) FROM t GROUP BY ²" =
        .error (.numeral (.malformed "²")) ∧
      prepare .scanner .standard [⟨"t", [⟨"a", .text, true⟩]⟩] "" "SELECT COUNT(*) FROM t GROUP BY ²" =
        .error (.numeral (.malformed "²")) := by
  constructor <;> decide +kernel

end QueryGate
