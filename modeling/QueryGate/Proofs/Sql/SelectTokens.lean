import QueryGate.Proofs.Sql.ListItems
import QueryGate.Proofs.Sql.TokenPlaces
import QueryGate.Proofs.Text.Hits
import QueryGate.Sql.ColumnRef

/-!
# Bare names among the tokens

The expressions of a select list end where no word goes on (`WordsEndAt`), so a bare name in one is
a whole word of the query (`stand_of_mem_selectedNames`).
-/

namespace QueryGate

/-! ## Where words end -/

/-- No word goes on from one side of an offset to the other. -/
def WordsEndAt (t : Text) (n : Nat) : Prop :=
  ∀ a b, t = a ++ b → a.length = n → a.getLast?.any isWordChar = true →
    b.head?.any isWordChar = false

namespace WordsEndAt

theorem of_length_le {t : Text} {n : Nat} (h : t.length ≤ n) : WordsEndAt t n := by
  intro a b hab hlen _
  rw [hab, List.length_append] at h
  obtain rfl : b = [] := List.length_eq_zero_iff.1 (by omega)
  rfl

theorem of_split {a b : Text}
    (h : a.getLast?.any isWordChar = false ∨ b.head?.any isWordChar = false) :
    WordsEndAt (a ++ b) a.length := by
  intro x y hxy hlen hx
  obtain ⟨rfl, rfl⟩ := List.append_inj hxy hlen.symm
  rcases h with h | h
  · rw [h] at hx
    cases hx
  · exact h

end WordsEndAt

theorem wordsEndAt_clauseEndFrom (words : List Text) (before : Text) (depth : Nat) (t : Text) :
    WordsEndAt (before.reverse ++ t) (clauseEndFrom words before depth t) := by
  induction t generalizing before depth with
  | nil =>
    apply WordsEndAt.of_length_le
    simp [clauseEndFrom]
  | cons c t ih =>
    have hlater (depth : Nat) :
        WordsEndAt (before.reverse ++ c :: t) (clauseEndFrom words (c :: before) depth t) := by
      have := ih (c :: before) depth
      rwa [List.reverse_cons, List.append_assoc] at this
    have hhere (h : before.head?.any isWordChar = false ∨ isWordChar c = false) :
        WordsEndAt (before.reverse ++ c :: t) before.length := by
      rw [← List.length_reverse]
      refine .of_split (h.imp ?_ id)
      rw [List.getLast?_reverse]
      exact id
    unfold clauseEndFrom
    split
    · exact hlater _
    split
    · rename_i hc
      split
      · exact hhere (.inr (by rw [eq_of_beq hc]; decide))
      · exact hlater _
    split
    · rename_i hc
      obtain rfl : c = ';' := eq_of_beq (Bool.and_eq_true_iff.1 hc).1
      exact hhere (.inr (by decide))
    split
    · rename_i hc
      have hstart := (Bool.and_eq_true_iff.1 (Bool.and_eq_true_iff.1 hc).2).1
      exact hhere (.inl (by simpa [atWordStart] using hstart))
    · exact hlater _

theorem wordsEndAt_clauseEnd (t : Text) (start : Nat) (words : List Text) :
    WordsEndAt t (clauseEnd t start words) := by
  have := wordsEndAt_clauseEndFrom words (t.take start).reverse 0 (t.drop start)
  rwa [List.reverse_reverse, List.take_append_drop] at this

/-! ## Slices -/

theorem WordsEndAt.of_slice {t a b : Text} {start stop : Nat} (hstop : WordsEndAt t stop)
    (hne : a ++ b ≠ []) (h : Text.slice t start stop = a ++ b)
    (hb : b.head?.any isWordChar = false) : WordsEndAt t (start + a.length) := by
  obtain ⟨q, ht, hstart, hlen⟩ := Text.exists_slice (by rwa [h])
  rw [h] at ht hlen
  cases b with
  | nil =>
    rw [List.append_nil] at ht hlen
    rcases hlen with hlen | rfl
    · rwa [hlen]
    · apply WordsEndAt.of_length_le
      rw [ht]
      simp only [List.length_append, List.append_nil]
      omega
  | cons c b =>
    have hsplit : (t.take start ++ a) ++ (c :: b ++ q) = t := by
      rw [List.append_assoc, ← List.append_assoc a, ← ht]
    have := @WordsEndAt.of_split (t.take start ++ a) (c :: b ++ q) (.inr hb)
    rwa [hsplit, List.length_append, hstart] at this

/-! ## Items -/

theorem head?_any_isWordChar_of_allBlank {g : Text} (hg : allBlank g = true) :
    g.head?.any isWordChar = false := by
  cases g with
  | nil => rfl
  | cons c g => exact isWordChar_eq_false_of_isBlank (List.all_eq_true.1 hg c List.mem_cons_self)

theorem wordsEndAt_trimSpan? {t : Text} {s r : Span} (hs : WordsEndAt t s.stop)
    (h : trimSpan? t s = some r) : WordsEndAt t r.stop := by
  obtain ⟨g, body, g', hslice, hbody, -, hg', -, hstop⟩ := trimSpan?_eq_some h
  rw [hstop]
  exact hs.of_slice (by simp [hbody.ne_nil]) hslice (head?_any_isWordChar_of_allBlank hg')

theorem wordsEndAt_topLevelItems {t : Text} {start stop : Nat} (hstop : WordsEndAt t stop)
    {s : Span} (hs : s ∈ topLevelItems t start stop) : WordsEndAt t s.stop := by
  obtain ⟨r, hr, hsome⟩ := List.mem_filterMap.1 hs
  refine wordsEndAt_trimSpan? ?_ hsome
  rcases stop_of_mem_spansBetween hr with hcut | hlast
  · obtain ⟨a, b, hslice, hcut⟩ := exists_of_mem_topLevelCommas hcut
    rw [hcut]
    exact hstop.of_slice (by simp) hslice (by decide : isWordChar ',' = false)
  · rwa [hlast]

/-! ## Expressions -/

theorem skipQuantifier_suffix (t : Text) : skipQuantifier t <:+ t := by
  have hspaced {word rest : Text} (h : (keyword? word (skipBlanks t)).bind spaced? = some rest) :
      rest <:+ t := by
    obtain ⟨r, hr, hrest⟩ := Option.bind_eq_some_iff.1 h
    obtain ⟨x, hx, -⟩ := keyword?_eq_some_iff.1 hr
    rw [spaced?_eq_skipBlanks hrest]
    have hr : r <:+ skipBlanks t := ⟨x, hx.symm⟩
    exact ((List.dropWhile_suffix _).trans hr).trans (List.dropWhile_suffix _)
  unfold skipQuantifier
  simp only
  split
  · rename_i rest hrest
    cases hd : (keyword? "DISTINCT" (skipBlanks t)).bind spaced? with
    | none =>
      rw [hd] at hrest
      exact hspaced hrest
    | some d =>
      rw [hd] at hrest
      obtain rfl := Option.some.inj hrest
      exact hspaced hd
  · exact List.suffix_rfl

/-- The expression is followed by its alias. -/
theorem splitAlias?_eq_some {before t expression : Text} {i : Identifier}
    (h : splitAlias? before t = some (expression, i)) :
    ∃ a b, t = a ++ b ∧ a ≠ [] ∧ expression = a.reverse ++ before ∧ aliasOnly? b = some i := by
  induction t generalizing before with
  | nil => cases h
  | cons c t ih =>
    unfold splitAlias? at h
    simp only at h
    split at h
    · rename_i j hj
      obtain ⟨rfl, rfl⟩ := Prod.mk.inj (Option.some.inj h)
      refine ⟨[c], t, rfl, List.cons_ne_nil _ _, rfl, ?_⟩
      split at hj
      · exact hj
      · cases hj
    · obtain ⟨a, b, rfl, -, rfl, hb⟩ := ih h
      exact ⟨c :: a, b, rfl, List.cons_ne_nil _ _, by simp, hb⟩

/-- An alias is set off by blanks, and begins with a letter or a quote. -/
theorem exists_of_aliasOnly? {t : Text} {i : Identifier} (h : aliasOnly? t = some i) :
    ∃ g c r, t = g ++ c :: r ∧ g ≠ [] ∧ allBlank g = true ∧ isBlank c = false ∧
      (c = '"' ∨ isWordChar c = true) := by
  obtain ⟨⟨j, rest⟩, hfind, rfl⟩ := Option.map_eq_some_iff.1 h
  have hmem := List.mem_of_find?_eq_some hfind
  unfold aliasReadings at hmem
  split at hmem
  · cases hmem
  rename_i u hu
  obtain ⟨g, hne, hg, hhead, rfl⟩ := spaced?_eq_some_iff.1 hu
  have hsome : ∃ c r, u = c :: r ∧ (c = '"' ∨ isWordChar c = true) := by
    simp only [List.mem_append, Option.mem_toList] at hmem
    rcases hmem with hexplicit | himplicit
    · obtain ⟨v, hv, -⟩ := Option.bind_eq_some_iff.1 hexplicit
      obtain ⟨r, hr, -⟩ := Option.bind_eq_some_iff.1 hv
      obtain ⟨x, rfl, hx⟩ := keyword?_eq_some_iff.1 hr
      cases x with
      | nil => exact absurd hx.length_eq (by decide)
      | cons c x =>
        refine ⟨c, x ++ r, rfl, .inr (isWordChar_of_isLower_foldLetter ?_)⟩
        have hletters : ∀ c ∈ ("AS" : Text).map foldLetter, c.isLower = true := by decide
        exact hletters _ (hx.mem List.mem_cons_self)
    · cases u with
      | nil => cases himplicit
      | cons c r =>
        refine ⟨c, r, rfl, ?_⟩
        rw [Identifier.read?] at himplicit
        split at himplicit
        · rename_i hc
          exact .inl (eq_of_beq hc)
        · split at himplicit
          · rename_i hc
            exact .inr (isWordChar_of_isFoldedNameStart hc)
          · cases himplicit
  obtain ⟨c, r, rfl, hc⟩ := hsome
  refine ⟨g, c, r, rfl, hne, hg, ?_, hc⟩
  simpa using hhead

/-- An expression ends with its item or in front of the alias. -/
theorem expressionEnd_cases (t : Text) (start stop : Nat) :
    expressionEnd t start stop = stop ∨
      ∃ a b i, Text.slice t start stop = a ++ b ∧ a ≠ [] ∧ aliasOnly? b = some i ∧
        expressionEnd t start stop = start + a.length := by
  unfold expressionEnd
  simp only
  split
  · exact .inl rfl
  rename_i expression i hsplit
  split
  · exact .inl rfl
  split
  · exact .inl rfl
  obtain ⟨a, b, hbody, hne, hexpr, halias⟩ := splitAlias?_eq_some hsplit
  obtain ⟨p, hp⟩ := skipQuantifier_suffix (Text.slice t start stop)
  have hlen : (Text.slice t start stop).length -
      (skipQuantifier (Text.slice t start stop)).length = p.length := by
    have := congrArg List.length hp
    rw [List.length_append] at this
    omega
  refine .inr ⟨p ++ a, b, i, ?_, by simp [hne], halias, ?_⟩
  · rw [List.append_assoc, ← hbody, hp]
  · rw [hlen, hexpr, List.append_nil, List.length_reverse, List.length_append, Nat.add_assoc]

theorem wordsEndAt_expressionEnd {t : Text} {start stop : Nat} (hstop : WordsEndAt t stop) :
    WordsEndAt t (expressionEnd t start stop) := by
  rcases expressionEnd_cases t start stop with hend | ⟨a, b, i, hslice, hne, halias, hend⟩
  · rwa [hend]
  obtain ⟨g, c, r, rfl, hgne, hg, -⟩ := exists_of_aliasOnly? halias
  rw [hend]
  refine hstop.of_slice (by simp [hne]) hslice ?_
  rw [head?_append_any hgne]
  exact head?_any_isWordChar_of_allBlank hg

/-! ## Names in the mask of quotes -/

/-- How a token stands in the text where names in quotes are masked as well. -/
def Token.blot : Token → Text
  | word w => w
  | quoted w => inQuotes (List.replicate w.length maskChar)
  | other _ m => [m]

/-- The mask of some tokens, names in quotes masked as well. -/
def blotOf (ts : List Token) : Text := ts.flatMap Token.blot

@[simp] theorem blotOf_cons (t : Token) (ts : List Token) :
    blotOf (t :: ts) = t.blot ++ blotOf ts := List.flatMap_cons

theorem blotOf_append (ts us : List Token) : blotOf (ts ++ us) = blotOf ts ++ blotOf us :=
  List.flatMap_append

theorem Token.length_blot (t : Token) : t.blot.length = t.mask.length := by
  cases t <;> simp [blot, mask, inQuotes]

theorem length_blotOf (ts : List Token) : (blotOf ts).length = (maskOf ts).length := by
  induction ts with
  | nil => rfl
  | cons t ts ih => simp only [blotOf_cons, maskOf_cons, List.length_append, Token.length_blot, ih]

theorem quotedTail?_append {w : Text} (hw : '"' ∉ w) (t : Text) :
    quotedTail? (w ++ '"' :: t) = some (w.length + 1) := by
  induction w with
  | nil => rfl
  | cons c w ih =>
    rw [List.mem_cons, not_or] at hw
    simp [quotedTail?, Ne.symm hw.1, ih hw.2]

theorem maskFrom_inside {d : Char} {tail? : Text → Option Nat} (w : Text) (c : Char) (t : Text) :
    maskFrom d tail? (w.length + 1) (w ++ c :: t) =
      List.replicate w.length maskChar ++ c :: maskFrom d tail? 0 t := by
  induction w with
  | nil => rfl
  | cons x w ih => simp [maskFrom, ih, List.replicate_succ]

theorem maskQuoted_append {w : Text} (hw : '"' ∉ w) (t : Text) :
    maskQuoted (w ++ t) = w ++ maskQuoted t := by
  induction w with
  | nil => rfl
  | cons c w ih =>
    have hc : c ≠ '"' := fun h => hw (h ▸ List.mem_cons_self)
    have := ih (fun h => hw (List.mem_cons_of_mem c h))
    unfold maskQuoted at this ⊢
    simp [maskFrom, hc, this]

theorem maskQuoted_name {n : Text} (hn : '"' ∉ n) (t : Text) :
    maskQuoted ('"' :: (n ++ '"' :: t)) =
      '"' :: (List.replicate n.length maskChar ++ '"' :: maskQuoted t) := by
  rw [maskQuoted, maskFrom, if_pos (beq_self_eq_true _), quotedTail?_append hn, Option.getD_some,
    maskFrom_inside]
  rfl

theorem maskQuoted_maskOf {ts : List Token} (h : Lexed ts) :
    maskQuoted (maskOf ts) = blotOf ts := by
  induction ts with
  | nil => rfl
  | cons t ts ih =>
    have hfit := h.fit t List.mem_cons_self
    rw [maskOf_cons, blotOf_cons, ← ih h.tail]
    cases t with
    | word w => exact maskQuoted_append (fun hc => isWordChar_ne_quote (hfit.2 _ hc) rfl) _
    | other c m => exact maskQuoted_append (fun hc => hfit.2 (List.mem_singleton.1 hc).symm) _
    | quoted w =>
      have hw : '"' ∉ w := fun hc => (hfit.2 _ hc).1 rfl
      have hmask := maskQuoted_name hw (maskOf ts)
      simpa [Token.mask, Token.blot, inQuotes] using hmask

/-- A name in quotes begins with its quote in either text. -/
theorem head?_blotOf (ts : List Token) : (blotOf ts).head? = (maskOf ts).head? := by
  induction ts with
  | nil => rfl
  | cons t ts ih =>
    cases t with
    | word w =>
      cases w with
      | nil => exact ih
      | cons c w => rfl
    | quoted w => rfl
    | other c m => rfl

theorem head?_blotOf_any {ts : List Token} {w : Text} (h : Lexed (.word w :: ts)) :
    (blotOf ts).head?.any isNamePart = false := by
  rw [head?_blotOf]
  exact h.head?_maskOf_any

theorem not_mem_blot_of_isNamePart {w : Text} {c : Char} (hc : isNamePart c = true) :
    c ∉ (Token.quoted w).blot := by
  intro hmem
  have hquote : c ≠ '"' := by
    rintro rfl
    exact absurd hc (by decide)
  have hmask : c ≠ maskChar := by
    rintro rfl
    exact absurd hc (by decide)
  simp [Token.blot, inQuotes, hquote, hmask] at hmem

/-- Where a name begins, outside quotes, a word token does. -/
theorem exists_word_of_blotOf {ts : List Token} {a t : Text} {c : Char} (h : Lexed ts)
    (hts : blotOf ts = a ++ c :: t) (hc : isNamePart c = true)
    (ha : a.getLast?.any isNamePart = false) :
    ∃ p w q, ts = p ++ .word w :: q ∧ a = blotOf p ∧ c :: t = w ++ blotOf q := by
  induction ts generalizing a with
  | nil => exact absurd (List.append_eq_nil_iff.1 hts.symm).2 (List.cons_ne_nil _ _)
  | cons u ts ih =>
    have hfit := h.fit u List.mem_cons_self
    have hlater : ∀ a', blotOf ts = a' ++ c :: t → a = u.blot ++ a' →
        ∃ p w q, u :: ts = p ++ .word w :: q ∧ a = blotOf p ∧ c :: t = w ++ blotOf q := by
      intro a' hts' ha'
      have hlast : a'.getLast?.any isNamePart = false := by
        cases a' with
        | nil => rfl
        | cons d a' => rwa [ha', getLast?_any_append _ (List.cons_ne_nil _ _)] at ha
      obtain ⟨p, w, q, rfl, rfl, ht⟩ := ih h.tail hts' hlast
      exact ⟨u :: p, w, q, rfl, by rw [ha', blotOf_cons], ht⟩
    rw [blotOf_cons] at hts
    obtain ⟨a', rfl, ha'⟩ | ⟨x, hx, hrest⟩ := List.append_eq_append_iff.1 hts
    · exact hlater a' ha' rfl
    cases x with
    | nil => exact hlater [] (by simpa using hrest.symm) (by simpa using hx.symm)
    | cons d x =>
      obtain rfl : c = d := (List.cons.inj hrest).1
      have hmem : c ∈ u.blot := by
        rw [hx]
        simp
      cases u with
      | quoted w => exact absurd hmem (not_mem_blot_of_isNamePart hc)
      | other e m =>
        obtain rfl : c = m := List.mem_singleton.1 hmem
        have hno : isNamePart c = false := hfit.1
        rw [hc] at hno
        cases hno
      | word w =>
        cases a with
        | nil => exact ⟨[], w, ts, rfl, rfl, by rw [hrest, ← List.nil_append (c :: x), ← hx]; rfl⟩
        | cons e a =>
          -- The character in front of the place would be one of the word.
          have hlast := List.getLast_mem (List.cons_ne_nil e a)
          have hin : isNamePart ((e :: a).getLast (List.cons_ne_nil e a)) = true := by
            apply isNamePart_of_isWordChar
            apply hfit.2
            change _ ∈ (Token.word w).blot
            rw [hx]
            exact List.mem_append_left _ hlast
          rw [List.getLast?_eq_some_getLast (List.cons_ne_nil e a), Option.any_some, hin] at ha
          cases ha

/-- Where nothing joins a name no name goes on. -/
theorem any_isNamePart_of_joinsName {c? : Option Char} (h : c?.any joinsName = false) :
    c?.any isNamePart = false := by
  cases c? with
  | none => rfl
  | some c =>
    simp only [Option.any_some, joinsName, Bool.or_eq_false_iff] at h ⊢
    exact h.1.1.1

/-- What is read of a bare name, and when it may be a column. -/
theorem bareName_eq_some {head : Nat} {before t rest : Text} {v : Text × Bool}
    (h : bareName head before t = some (v, rest)) :
    before.head?.any joinsName = false ∧ ∃ c u, t = c :: u ∧ isNameStart c = true ∧
      v.1 = c :: u.takeWhile isNamePart ∧ rest = u.dropWhile isNamePart ∧
      (v.2 = true → (skipBlanks rest).head? ≠ some '.' ∧
        namesAliasOrType (before.take (before.length - head)) = false) := by
  unfold bareName at h
  split at h
  · cases h
  rename_i hbefore
  split at h
  · cases h
  rename_i c u
  simp only at h
  split at h
  · cases h
  rename_i hstart
  obtain ⟨rfl, rfl⟩ := Prod.mk.inj (Option.some.inj h)
  refine ⟨Bool.eq_false_iff.2 hbefore, c, u, rfl, ?_, rfl, rfl, fun hcolumn => ?_⟩
  · by_contra hc
    simp [hc] at hstart
  · simp only [Bool.and_eq_true, bne_iff_ne, ne_eq, Bool.not_eq_true'] at hcolumn
    exact ⟨hcolumn.1.1, hcolumn.2⟩

/-- A part of a text that does not end inside a word has the word whole that it begins with. -/
theorem exists_rest_of_word {s q w t : Text} (hword : IsWord w) (hsplit : s ++ q = w ++ t)
    (hs : s ≠ []) (ht : t.head?.any isNamePart = false)
    (hend : s.getLast?.any isWordChar = true → q.head?.any isWordChar = false) :
    ∃ x, s = w ++ x ∧ x.head?.any isNamePart = false := by
  obtain ⟨x, hx, hq⟩ | ⟨x, hx, hrest⟩ := List.append_eq_append_iff.1 hsplit
  · cases x with
    | nil => exact ⟨[], by simpa using hx.symm, rfl⟩
    | cons d x =>
      have hd : isWordChar d = true := hword.2 d (by rw [hx]; simp)
      have hlast : s.getLast?.any isWordChar = true := by
        rw [List.getLast?_eq_some_getLast hs]
        exact hword.2 _ (hx ▸ List.mem_append_left _ (List.getLast_mem hs))
      have := hend hlast
      rw [hq, List.cons_append, List.head?_cons, Option.any_some, hd] at this
      cases this
  · refine ⟨x, hx, ?_⟩
    cases x with
    | nil => rfl
    | cons d x => rwa [hrest] at ht

section Select

variable {ts : List Token} (h : Lexed ts)

include h in
/-- A bare name that is found where words end is a word of the query. -/
theorem stand_of_mem_bareNames {start stop : Nat} (hstop : WordsEndAt (blotOf ts) stop)
    {k : Hit Text} (hk : k ∈ bareNames (blotOf ts) start stop) :
    StandsIn ⟨k.value, false⟩ k.start k.stop 0 ts := by
  obtain ⟨l, hl, hsome⟩ := List.mem_filterMap.1 hk
  split at hsome
  case isFalse => cases hsome
  obtain rfl := Option.some.inj hsome
  obtain ⟨a, b, rest, hslice, hread, hlstart, hlstop, -⟩ := span_of_mem_hitsFrom hl
  obtain ⟨hbefore, c, u, rfl, hc, hvalue, rfl, -⟩ := bareName_eq_some hread
  replace hbefore := any_isNamePart_of_joinsName hbefore
  obtain ⟨q, hts, hstart, hlen⟩ := @Text.exists_slice (blotOf ts) start stop (by simp [hslice])
  rw [hslice] at hts hlen
  have hsplit : blotOf ts = ((blotOf ts).take start ++ a) ++ c :: (u ++ q) := by
    rw [List.append_assoc, ← List.cons_append, ← List.append_assoc a]
    exact hts
  have hlast : ((blotOf ts).take start ++ a).getLast?.any isNamePart = false := by
    rwa [← List.head?_reverse, List.reverse_append]
  obtain ⟨p, w, ys, rfl, hp, hw⟩ := exists_word_of_blotOf h hsplit
    (isNamePart_of_isNameStart hc) hlast
  have hword : IsWord w := h.fit (.word w) (by simp)
  have hnext := head?_blotOf_any (Lexed.of_append h).2
  have hend : (c :: u).getLast?.any isWordChar = true → q.head?.any isWordChar = false := by
    intro hinner
    rcases hlen with hlen | rfl
    · refine hstop ((blotOf (p ++ .word w :: ys)).take start ++ (a ++ c :: u)) q
        (by rw [List.append_assoc]; exact hts) (by rw [List.length_append, hstart, hlen]) ?_
      rwa [← List.append_assoc, getLast?_any_append _ (List.cons_ne_nil c u)]
    · rfl
  obtain ⟨x, hx, hxhead⟩ :=
    exists_rest_of_word hword hw (List.cons_ne_nil c u) hnext hend
  obtain ⟨d, w, rfl⟩ := List.exists_cons_of_ne_nil hword.1
  rw [List.cons_append] at hx
  obtain ⟨rfl, rfl⟩ := List.cons.inj hx
  have hall : ∀ d ∈ w, isNamePart d = true := fun d hd =>
    isNamePart_of_isWordChar (hword.2 d (List.mem_cons_of_mem c hd))
  rw [takeWhile_append_of_all hall hxhead] at hvalue
  rw [dropWhile_append_of_all hall hxhead] at hlstop
  refine ⟨p, ys, by rw [hvalue]; rfl, ?_, ?_⟩
  · rw [hlstart, List.length_reverse, hstart, Nat.zero_add, ← length_blotOf, ← hp,
      List.length_append, hstart]
  · rw [hlstop, hvalue]
    simp [Identifier.token, Token.mask]
    omega

include h in
/-- A bare name in a select list is a word of the query. -/
theorem stand_of_mem_selectedNames {k : Hit Text}
    (hk : k ∈ selectedNames (maskQuoted (maskOf ts))) :
    StandsIn ⟨k.value, false⟩ k.start k.stop 0 ts := by
  rw [maskQuoted_maskOf h] at hk
  obtain ⟨s, hs, hk⟩ := List.mem_flatMap.1 hk
  obtain ⟨list, hlist, hs⟩ := List.mem_flatMap.1 hs
  obtain ⟨l, -, rfl⟩ := List.mem_map.1 hlist
  refine stand_of_mem_bareNames h (wordsEndAt_expressionEnd ?_) hk
  exact wordsEndAt_topLevelItems (wordsEndAt_clauseEnd _ _ _) hs

end Select

end QueryGate
