import QueryGate.Proofs.Sql.LiteralSpans
import QueryGate.Proofs.Text.Edits

/-!
# Edits outside literals

Edits that touch no literal, and neither replace nor write an apostrophe, leave the literals as they
are: the mask of the edited text is the mask with the same edits (`maskLiterals_applyEdits`).

In front of a span that touches no literal the apostrophes are even in number, or behind it there
are none (`Edit.SparesLiterals.cut`). So text, mask and literals can be cut there, and what one edit
does to them shows on each side of it; the edits that are still to come spare the literals of what
it leaves (`Edit.SparesLiterals.of_splice`).
-/

namespace QueryGate

namespace Edit

/-- The edit touches no literal of a text, and neither replaces nor writes an apostrophe; it writes
something. -/
structure SparesLiterals (t : Text) (e : Edit) : Prop where
  apart : ∀ s ∈ literalSpans t, e.stop ≤ s.start ∨ s.stop ≤ e.start
  replaced : '\'' ∉ Text.slice t e.start e.stop
  text_ne_nil : e.text ≠ []
  text : '\'' ∉ e.text

namespace SparesLiterals

variable {t : Text} {d e : Edit}

/-- In front of the span the apostrophes are even in number, or behind it there are none. -/
theorem cut (h : SparesLiterals t e) (hlt : e.start < e.stop) :
    (t.take e.start).count '\'' % 2 = 0 ∧ Text.slice t e.start e.stop ≠ [] ∨
      '\'' ∉ t.drop e.stop := by
  by_cases hbehind : '\'' ∈ t.drop e.stop
  · have hstop : e.stop < t.length := by
      by_contra hcontra
      rw [List.drop_eq_nil_of_le (by omega)] at hbehind
      exact absurd hbehind List.not_mem_nil
    have hstart : (t.take e.start).length = e.start := List.length_take_of_le (by omega)
    have hne : Text.slice t e.start e.stop ≠ [] := by
      apply List.length_pos_iff.1
      rw [Text.slice, List.length_drop, List.length_take]
      omega
    refine .inl ⟨?_, hne⟩
    by_contra heven
    -- Otherwise the span begins inside a literal.
    have hodd : (t.take e.start).count '\'' % 2 = 1 := by omega
    obtain ⟨s, hs, hbefore, hafter⟩ := exists_literalSpan_of_odd
      (head?_append_ne_apostrophe h.replaced hne) (List.mem_append_right _ hbehind) hodd
    rw [Text.take_append_slice_append t hlt.le] at hs
    have := h.apart s hs
    omega
  · exact .inr hbehind

theorem cut_text (h : SparesLiterals t e) (hlt : e.start < e.stop) :
    (t.take e.start).count '\'' % 2 = 0 ∧ e.text ≠ [] ∨ '\'' ∉ t.drop e.stop :=
  (h.cut hlt).imp_left fun heven => ⟨heven.1, h.text_ne_nil⟩

/-- The mask of the text is cut at the span. -/
theorem maskLiterals_eq (h : SparesLiterals t e) (hlt : e.start < e.stop) :
    maskLiterals t = maskLiterals (t.take e.start) ++
      (Text.slice t e.start e.stop ++ maskLiterals (t.drop e.stop)) := by
  rw [← maskLiterals_cut h.replaced (h.cut hlt), Text.take_append_slice_append t hlt.le]

theorem maskLiterals_splice (h : SparesLiterals t e) (hlt : e.start < e.stop) :
    maskLiterals (splice t e) = splice (maskLiterals t) e := by
  have htake : (maskLiterals t).take e.start = maskLiterals (t.take e.start) := by
    by_cases hle : e.start ≤ t.length
    · rw [h.maskLiterals_eq hlt]
      exact List.take_left' (by rw [length_maskLiterals, List.length_take_of_le hle])
    · rw [List.take_of_length_le (by rw [length_maskLiterals]; omega),
        List.take_of_length_le (by omega)]
  have hdrop : (maskLiterals t).drop e.stop = maskLiterals (t.drop e.stop) := by
    by_cases hle : e.stop ≤ t.length
    · rw [h.maskLiterals_eq hlt, ← List.append_assoc]
      refine List.drop_left' ?_
      rw [List.length_append, length_maskLiterals, ← List.length_append,
        Text.take_append_slice t hlt.le, List.length_take_of_le hle]
    · rw [List.drop_of_length_le (by rw [length_maskLiterals]; omega),
        List.drop_of_length_le (by omega)]
      rfl
  rw [splice, splice, htake, hdrop, List.append_assoc, List.append_assoc]
  exact maskLiterals_cut h.text (h.cut_text hlt)

theorem literals_splice (h : SparesLiterals t e) (hlt : e.start < e.stop) :
    literals (splice t e) = literals t := by
  rw [splice, List.append_assoc, literals_cut h.text (h.cut_text hlt),
    ← literals_cut h.replaced (h.cut hlt), Text.take_append_slice_append t hlt.le]

/-- An edit that ends before another spares the literals that the other leaves. -/
theorem of_splice (hd : SparesLiterals t d) (he : SparesLiterals t e) (hlt : e.start < e.stop)
    (hbefore : d.stop ≤ e.start) : SparesLiterals (splice t e) d where
  apart s hs := by
    have hkept : literalSpans (t.take e.start) ⊆ literalSpans t := by
      have hsplit := literalSpans_cut he.replaced (he.cut hlt)
      rw [Text.take_append_slice_append t hlt.le] at hsplit
      rw [hsplit]
      exact List.subset_append_left ..
    rw [splice, List.append_assoc, literalSpans_cut he.text (he.cut_text hlt)] at hs
    rcases List.mem_append.1 hs with hs | hs
    · exact hd.apart s (hkept hs)
    · obtain ⟨r, hr, rfl⟩ := List.mem_map.1 hs
      by_cases hle : e.start ≤ t.length
      · rw [List.length_take_of_le hle]
        exact .inl (Nat.le_add_right_of_le hbefore)
      · rw [List.drop_of_length_le (by omega), List.append_nil, literalSpans,
          literalSpansFrom_eq_nil he.text] at hr
        cases hr
  replaced hmem := by
    by_cases hle : e.start ≤ t.length
    · rw [Text.slice, splice, List.append_assoc,
        List.take_append_of_le_length (by rwa [List.length_take_of_le hle]), List.take_take,
        Nat.min_eq_left hbefore] at hmem
      exact hd.replaced hmem
    · -- The other edit only adds its text at the end.
      have hend : splice t e = t ++ e.text := by
        rw [splice, List.take_of_length_le (by omega), List.drop_of_length_le (by omega),
          List.append_nil]
      rw [Text.slice, hend, List.take_append, List.drop_append] at hmem
      rcases List.mem_append.1 hmem with hmem | hmem
      · exact hd.replaced hmem
      · exact he.text (List.mem_of_mem_take (List.mem_of_mem_drop hmem))
  text_ne_nil := hd.text_ne_nil
  text := hd.text

end SparesLiterals

/-- Each edit leaves a text whose literals are spared by those that are still to come. -/
theorem maskLiterals_foldl_splice {t : Text} {edits : List Edit}
    (hlt : ∀ e ∈ edits, e.start < e.stop) (hsorted : edits.Pairwise fun d e => e.stop ≤ d.start)
    (hspares : ∀ e ∈ edits, e.SparesLiterals t) :
    maskLiterals (edits.foldl splice t) = edits.foldl splice (maskLiterals t) ∧
      literals (edits.foldl splice t) = literals t := by
  induction edits generalizing t with
  | nil => exact ⟨rfl, rfl⟩
  | cons e edits ih =>
    obtain ⟨he, hrest⟩ := List.pairwise_cons.1 hsorted
    have hlte := hlt e List.mem_cons_self
    have hspare := hspares e List.mem_cons_self
    have hleft : ∀ d ∈ edits, d.SparesLiterals (splice t e) := fun d hd =>
      (hspares d (List.mem_cons_of_mem e hd)).of_splice hspare hlte (he d hd)
    obtain ⟨hmask, hliterals⟩ := ih (fun d hd => hlt d (List.mem_cons_of_mem e hd)) hrest hleft
    rw [List.foldl_cons, List.foldl_cons, hmask, hliterals]
    exact ⟨by rw [hspare.maskLiterals_splice hlte], hspare.literals_splice hlte⟩

end Edit

/-- Edits that do not overlap and touch no literal change the mask as they change the text, and keep
every literal, in order. -/
theorem maskLiterals_applyEdits {t : Text} {edits : List Edit} (h : Edit.Disjoint edits)
    (hspares : ∀ e ∈ edits, e.SparesLiterals t) :
    maskLiterals (applyEdits t edits) = applyEdits (maskLiterals t) edits ∧
      literals (applyEdits t edits) = literals t := by
  have hmem : ∀ e ∈ Edit.fromLast edits, e ∈ edits := fun e he =>
    (Edit.perm_fromLast edits).mem_iff.1 he
  exact Edit.maskLiterals_foldl_splice (fun e he => h.lt e (hmem e he)) h.pairwise_fromLast
    fun e he => hspares e (hmem e he)

/-- Names on both sides of a literal are replaced, one of them behind an apostrophe that opens no
literal. -/
theorem maskLiterals_applyEdits_around_literal :
    let t : Text := "a = 'it''s' OR b = 'c"
    let edits : List Edit := [⟨15, 16, "\"B\""⟩, ⟨20, 21, "d e"⟩, ⟨0, 1, "aa"⟩]
    Edit.Disjoint edits ∧ (∀ e ∈ edits, e.SparesLiterals t) ∧
      maskLiterals (applyEdits t edits) = "aa = '\x00\x00\x00\x00\x00' OR \"B\" = 'd e" ∧
      literals (applyEdits t edits) = ["'it''s'".toList] := by
  intro t edits
  have h : Edit.Disjoint edits := ⟨by decide, by decide⟩
  have hspares : ∀ e ∈ edits, e.SparesLiterals t := by
    have hapart : ∀ e ∈ edits, ∀ s ∈ literalSpans t, e.stop ≤ s.start ∨ s.stop ≤ e.start := by
      decide
    have hreplaced : ∀ e ∈ edits, '\'' ∉ Text.slice t e.start e.stop := by decide
    have hne : ∀ e ∈ edits, e.text ≠ [] := by decide
    have htext : ∀ e ∈ edits, '\'' ∉ e.text := by decide
    exact fun e he => ⟨hapart e he, hreplaced e he, hne e he, htext e he⟩
  obtain ⟨hmask, hliterals⟩ := maskLiterals_applyEdits h hspares
  exact ⟨h, hspares, hmask.trans (by decide), hliterals.trans (by decide)⟩

end QueryGate
