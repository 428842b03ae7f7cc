import QueryGate.Proofs.Bound.Clauses
import QueryGate.Proofs.Gate.Numerals
import QueryGate.Proofs.Gate.RenamedWording
import QueryGate.Proofs.Sql.Tokenizer

/-!
# The structure of a renamed query

Harmless names break no rule of the second tier but one: a renamed query has no limits that the
query has not, no forbidden words in subqueries, and no tables of the database system. What is left
is the agreement of `SELECT` and `GROUP BY` (`Structure.Kept.of_renamed`).
-/

namespace QueryGate

/-! ## Limits -/

namespace Structure

theorem limitNumber_eq_some_iff {before after v rest : Text} :
    limitNumber before after = some (v, rest) ↔ atWordStart before = true ∧
      ∃ k, KeywordGap "LIMIT" k ∧ IsDigitRun v ∧ rest.head?.any isDecimalDigit = false ∧
        after = k ++ (v ++ rest) := by
  have hread : limitNumber before after =
      if atWordStart before then ((keyword? "LIMIT" after).bind spaced?).bind digits?
      else none := by
    unfold limitNumber digits?
    cases (keyword? "LIMIT" after).bind spaced? <;> rfl
  rw [hread]
  constructor
  · intro h
    split at h
    · rename_i hstart
      obtain ⟨r, hr, hdigits⟩ := Option.bind_eq_some_iff.1 h
      obtain ⟨k, hk, -, rfl⟩ := keyword?_bind_spaced?_eq_some_iff.1 hr
      obtain ⟨hv, hrest, rfl⟩ := digits?_eq_some_iff.1 hdigits
      exact ⟨hstart, k, hk, hv, hrest, rfl⟩
    · cases h
  · rintro ⟨hstart, k, hk, hv, hrest, rfl⟩
    rw [if_pos hstart, Option.bind_eq_some_iff]
    exact ⟨v ++ rest, keyword?_bind_spaced?_eq_some_iff.2 ⟨k, hk, hv.head?_any_isBlank rest, rfl⟩,
      digits?_append hv hrest⟩

/-- A limit begins with a letter. -/
theorem exists_letter_of_limitNumber {before after v rest : Text}
    (h : limitNumber before after = some (v, rest)) :
    ∃ c y, after = c :: y ∧ (foldLetter c).isLower = true := by
  obtain ⟨-, k, hk, -, -, rfl⟩ := limitNumber_eq_some_iff.1 h
  obtain ⟨x, g, rfl, hx, -, -⟩ := hk.parts
  cases x with
  | nil => exact absurd hx (by decide)
  | cons c x =>
    refine ⟨c, _, rfl, ?_⟩
    rw [(List.cons.inj hx).1]
    rfl

/-- A character in front of the rest of a text is one of what stands there. -/
theorem mem_of_append_eq_append_cons {s rest z y : Text} {c : Char}
    (h : s ++ rest = z ++ c :: y) (hlt : rest.length < (c :: y).length) : c ∈ s := by
  obtain ⟨e, rfl, he⟩ | ⟨e, rfl, he⟩ := List.append_eq_append_iff.1 h
  · rw [he, List.length_append] at hlt
    omega
  · cases e with
    | nil =>
      rw [← he.trans (List.nil_append rest)] at hlt
      exact absurd hlt (Nat.lt_irrefl _)
    | cons d e =>
      obtain ⟨rfl, -⟩ := List.cons.inj he
      simp

/-- No limit begins inside another. -/
theorem neverOverlaps_limitNumber : NeverOverlaps limitNumber := by
  intro before u b v rest hu hread hlt
  rw [Option.eq_none_iff_forall_ne_some]
  rintro ⟨v', rest'⟩ hread'
  obtain ⟨-, k, hk, hv, -, hsplit⟩ := limitNumber_eq_some_iff.1 hread
  obtain ⟨hstart, -⟩ := limitNumber_eq_some_iff.1 hread'
  obtain ⟨c, y, rfl, hc⟩ := exists_letter_of_limitNumber hread'
  obtain ⟨x, g, rfl, hx, -, hg⟩ := hk.parts
  have hletters : ∀ d ∈ x, isWordChar d = true := (isWord_of_spells (by decide) (by decide) hx).2
  rw [List.append_assoc] at hsplit
  obtain ⟨z, rfl, -⟩ | ⟨z, rfl, hz⟩ := List.append_eq_append_iff.1 hsplit
  · -- Behind a letter of the first no word begins.
    have hlast := hletters _ (List.mem_append_left z (List.getLast_mem hu))
    rw [atWordStart, List.head?_append_of_ne_nil _ (by simpa using hu), List.head?_reverse,
      List.getLast?_eq_some_getLast hu, Option.any_some, hlast] at hstart
    cases hstart
  · -- Behind the letters of the first are blanks and digits.
    rw [← List.append_assoc] at hz
    rcases List.mem_append.1 (mem_of_append_eq_append_cons hz hlt) with hmem | hmem
    · have := isBlank_eq_false_of_isWordChar (isWordChar_of_isLower_foldLetter hc)
      rw [List.all_eq_true.1 hg c hmem] at this
      cases this
    · have := isDecimalDigit_eq_false_of_isLower_foldLetter hc
      rw [hv.2 c hmem] at this
      cases this

/-! ## Limits among the tokens -/

theorem isWordChar_of_isDecimalDigit {c : Char} (hc : c.toNat < 128)
    (h : isDecimalDigit c = true) : isWordChar c = true := by
  have := @forall_ascii (fun c => !isDecimalDigit c || isWordChar c) (by decide) c hc
  simpa [h] using this

/-- A limit is a word, blanks, and a word that begins with digits. -/
structure LimitTokens (us p : List Token) (x : Text) (g : List Token) (w : Text)
    (q : List Token) : Prop where
  tokens : us = p ++ .word x :: (g ++ .word w :: q)
  limit : Spells "LIMIT" x
  gap : maskOf g ≠ [] ∧ allBlank (maskOf g) = true
  digits : w.takeWhile isDecimalDigit ≠ []

theorem takeWhile_append_of_head {P : Char → Bool} {w r : Text} (hr : r.head?.any P = false) :
    (w ++ r).takeWhile P = w.takeWhile P := by
  by_cases hall : ∀ c ∈ w, P c = true
  · rw [takeWhile_append_of_all hall hr, List.takeWhile_eq_self_iff.2 hall]
  · rw [List.takeWhile_append, if_neg]
    intro hlen
    exact hall (List.takeWhile_eq_self_iff.1 ((List.takeWhile_prefix P).eq_of_length hlen))

/-- No digit follows a word. -/
theorem head?_maskOf_any_isDecimalDigit {w : Text} {q : List Token}
    (h : Lexed (.word w :: q)) (hascii : Ascii (maskOf q)) :
    (maskOf q).head?.any isDecimalDigit = false := by
  have hnext := head?_any_isWordChar h.head?_maskOf_any
  cases hhead : (maskOf q).head? with
  | none => rfl
  | some c =>
    rw [hhead] at hnext
    by_contra hdigit
    have := isWordChar_of_isDecimalDigit (hascii c (List.mem_of_mem_head? hhead))
      (by simpa using hdigit)
    rw [Option.any_some, this] at hnext
    cases hnext

theorem exists_limitTokens {us : List Token} (h : Readable us) (hascii : Ascii (maskOf us))
    {a b v rest : Text} (hus : maskOf us = a ++ b)
    (hread : limitNumber a.reverse b = some (v, rest)) :
    ∃ p x g w q, LimitTokens us p x g w q ∧ v = w.takeWhile isDecimalDigit := by
  obtain ⟨hstart, k, hk, hv, hrest, rfl⟩ := limitNumber_eq_some_iff.1 hread
  obtain ⟨x, g, rfl, hx, hne, hg⟩ := hk.parts
  have hlast : a.getLast?.any isWordChar = false := by
    rw [← List.head?_reverse]
    simpa [atWordStart] using hstart
  have hblank := head?_any_isBlank_append hne hg (v ++ rest)
  rw [List.append_assoc] at hus
  obtain ⟨p, q, rfl, -, hq⟩ := h.exists_word_before_blank
    (isWord_of_spells (by decide) (by decide) hx) hus hlast hblank
  have hbehind := (Readable.of_append h).2.tail
  obtain ⟨g, q, rfl, rfl, hq'⟩ := hbehind.lexed.exists_cut hbehind.words hq.symm
    (getLast?_any_isInName_of_blank hg)
  have hbehind := (Readable.of_append hbehind).2
  have hascii' : Ascii (maskOf q) := by
    simp only [maskOf_append, maskOf_cons] at hascii
    exact (Ascii.of_append (Ascii.of_append (Ascii.of_append hascii).2).2).2
  obtain ⟨d, v', rfl⟩ := List.exists_cons_of_ne_nil hv.1
  have hd := isWordChar_of_isDecimalDigit (hascii' d (by rw [← hq']; simp))
    (hv.2 d List.mem_cons_self)
  cases q with
  | nil => cases hq'
  | cons t q =>
    have hfit := hbehind.lexed.fit t List.mem_cons_self
    cases t with
    | quoted w =>
      obtain ⟨rfl, -⟩ := List.cons.inj hq'
      exact absurd rfl (isWordChar_ne_quote hd)
    | other c m =>
      obtain ⟨rfl, -⟩ := List.cons.inj hq'
      have hno := hfit.isWordChar_eq_false
      rw [hd] at hno
      cases hno
    | word w =>
      have hvw : d :: v' = w.takeWhile isDecimalDigit := by
        rw [← takeWhile_append_of_all hv.2 hrest, hq']
        exact takeWhile_append_of_head (head?_maskOf_any_isDecimalDigit hbehind.lexed
          (Ascii.of_append hascii').2)
      exact ⟨p, x, g, w, q, ⟨rfl, hx, ⟨hne, hg⟩, by rw [← hvw]; exact hv.1⟩, hvw⟩

theorem LimitTokens.read {us p : List Token} {x : Text} {g : List Token} {w : Text}
    {q : List Token} (h : LimitTokens us p x g w q) (hus : Readable us)
    (hascii : Ascii (maskOf us)) :
    ∃ b rest, maskOf us = maskOf p ++ b ∧ b ≠ [] ∧
      limitNumber (maskOf p).reverse b = some (w.takeWhile isDecimalDigit, rest) := by
  obtain ⟨rfl, hx, ⟨hne, hg⟩, hdigits⟩ := h
  have hbehind := (Readable.of_append (Readable.of_append hus).2.tail).2
  have hascii' : Ascii (maskOf q) := by
    simp only [maskOf_append, maskOf_cons] at hascii
    exact (Ascii.of_append (Ascii.of_append (Ascii.of_append (Ascii.of_append hascii).2).2).2).2
  have hnext := head?_maskOf_any_isDecimalDigit hbehind.lexed hascii'
  have hrest : (w.dropWhile isDecimalDigit ++ maskOf q).head?.any isDecimalDigit = false := by
    by_cases hnil : w.dropWhile isDecimalDigit = []
    · rw [hnil]
      exact hnext
    · rw [head?_append_any hnil]
      exact head?_dropWhile_any _ w
  refine ⟨(x ++ maskOf g) ++ (w.takeWhile isDecimalDigit ++
    (w.dropWhile isDecimalDigit ++ maskOf q)), w.dropWhile isDecimalDigit ++ maskOf q, ?_,
    by simp [hne], ?_⟩
  · rw [← List.append_assoc (w.takeWhile _), List.takeWhile_append_dropWhile]
    simp [Token.mask]
  · refine limitNumber_eq_some_iff.2 ⟨?_, x ++ maskOf g, ⟨x, maskOf g, rfl, hx, hne, hg⟩,
      ⟨hdigits, fun c hc => List.mem_takeWhile_imp hc⟩, hrest, rfl⟩
    have := hus.lexed.getLast?_maskOf_any
    simpa [atWordStart] using this

/-- A harmless name does not begin with a digit. -/
theorem takeWhile_isDecimalDigit_of_harmless {n : Text} (h : HarmlessName n) :
    n.takeWhile isDecimalDigit = [] := by
  have hstart := h.start
  cases n with
  | nil => rfl
  | cons c n =>
    have hc : isNameStart c = true := hstart
    have := forall_ascii (p := fun c => !isNameStart c || !isDecimalDigit c) (by decide)
      (ascii_of_isNameStart hc)
    rw [hc] at this
    rw [List.takeWhile_cons_of_neg (by simpa using this)]

section Renamed

variable {names : Text → Prop} {sql f : Text} {ts us : List Token} (h : Renamed names ts us)
  (hts : TokensOf sql ts) (hus : TokensOf f us) (hplain : PlainTokens ts)
  (hnames : ∀ n, names n → HarmlessName n)

include h hts hus hplain hnames

/-- Each limit of a renamed query is one of the query: no name is a `LIMIT` or begins with a
digit. -/
theorem mem_limits_of_renamed {ds : Text} (hds : ds ∈ limits f) : ds ∈ limits sql := by
  obtain ⟨k, hk, rfl⟩ := List.mem_map.1 hds
  obtain ⟨a, b, rest, hab, -, hread⟩ := mem_hitsFrom hk
  rw [List.append_nil] at hread
  have hascii := h.ascii (fun n hn => (hnames n hn).ascii) hplain.ascii
  rw [← hus.mask] at hab
  obtain ⟨p, x, g, w, q, hlimit, hv⟩ := exists_limitTokens hus.readable hascii hab hread
  obtain ⟨p', t, r, rfl, hp, htx, hr⟩ := (hlimit.tokens ▸ h).exists_cons
  obtain ⟨g', u, q', rfl, hg, huw, hq⟩ := Renamed.exists_cons hr
  obtain rfl : t = .word x := by
    rcases htx.eq_or_named with heq | ⟨-, n, -, hn, hname, -⟩
    · exact heq
    · obtain rfl := Option.some.inj hn
      exact absurd hlimit.limit (not_spells_of_not_keyword (hnames x hname).notKeyword
        (hnames x hname).ascii (by decide) (by decide))
  obtain rfl : u = .word w := by
    rcases huw.eq_or_named with heq | ⟨-, n, -, hn, hname, -⟩
    · exact heq
    · obtain rfl := Option.some.inj hn
      exact absurd (takeWhile_isDecimalDigit_of_harmless (hnames w hname)) hlimit.digits
  have hgap : Readable g := (Readable.of_append (Readable.of_append
    (hlimit.tokens ▸ hus.readable)).2.tail).1
  obtain rfl := hg.others (.inr (hgap.ofOthers_of_allBlank hlimit.gap.2))
  have hlimit' : LimitTokens (p' ++ .word x :: (g' ++ .word w :: q')) p' x g' w q' :=
    ⟨rfl, hlimit.limit, hlimit.gap, hlimit.digits⟩
  obtain ⟨b', rest', hsplit, hb', hread'⟩ := hlimit'.read hts.readable hplain.ascii
  obtain ⟨k', hk', hv'⟩ := exists_mem_hits neverOverlaps_limitNumber hb' hread'
  rw [← hsplit, hts.mask] at hk'
  exact List.mem_map.2 ⟨k', hk', by rw [hv', hv]⟩

end Renamed

theorem limitAbove?_eq_none_iff {cap : RowCap} {l : List Text} :
    limitAbove? cap l = .ok none ↔ ∀ ds ∈ l, ∃ n, readDigits ds = .ok n ∧ n ≤ cap.rows := by
  induction l with
  | nil => exact ⟨fun _ ds hds => (nomatch hds), fun _ => rfl⟩
  | cons ds l ih =>
    rw [limitAbove?, List.forall_mem_cons, ← ih, bind_eq_ok_iff]
    constructor
    · rintro ⟨n, hn, hrest⟩
      split at hrest
      · cases hrest
      · rename_i hlow
        exact ⟨⟨n, hn, Nat.le_of_not_lt hlow⟩, hrest⟩
    · rintro ⟨⟨n, hn, hlow⟩, hrest⟩
      exact ⟨n, hn, by rw [if_neg (Nat.not_lt_of_le hlow)]; exact hrest⟩

end Structure

/-! ## Tables of the database system -/

/-- A name of the database system. -/
def NamesSystem (n : Text) : Prop :=
  Structure.systemSchemas.contains (lower n) = true ∨ ("pg_" : Text).isPrefixOf (lower n) = true

theorem exists_systemName {sql : Text} {ts : List Token} (h : TokensOf sql ts)
    {r : TableRef} (hr : r ∈ tableRefs sql) (hsystem : Structure.namesSystemTable r = true) :
    ∃ t ∈ ts, ∃ n, t.name? = some n ∧ NamesSystem n := by
  have hrefs := (tableRefs_tokens h).refIn r hr
  have hname : ∃ t ∈ ts, t.name? = some r.name := by
    obtain ⟨p, q, rfl, -⟩ := hrefs.stands
    exact ⟨r.identifier.token, by simp, Identifier.name?_token r.identifier⟩
  obtain ⟨t, ht, hn⟩ := hname
  unfold Structure.namesSystemTable at hsystem
  rcases Bool.or_eq_true_iff.1 hsystem with hsystem | hpg
  · rcases Bool.or_eq_true_iff.1 hsystem with hschema | hname
    · cases hs' : r.schema with
      | none =>
        rw [hs'] at hschema
        cases hschema
      | some s =>
        rw [hs'] at hschema
        obtain ⟨u, hu, hus⟩ := hrefs.schema s hs'
        exact ⟨u, hu, s, hus, .inl hschema⟩
    · exact ⟨t, ht, r.name, hn, .inl hname⟩
  · exact ⟨t, ht, r.name, hn, .inr hpg⟩

theorem spells_of_lower {n w : Text} (hn : Ascii n) (hw : Ascii w) (h : lower n = lower w) :
    Spells w n := (hw.spells_iff hn).2 h

/-- A name of a query that is not suspicious is none of the database system, unless it is one of
those that are suspicious only with a dot behind them. -/
theorem not_namesSystem {sql : Text} {p q : List Token} {t : Token} {n : Text}
    (h : TokensOf sql (p ++ t :: q)) (hn : t.name? = some n) (hascii : Ascii n)
    (hsql : Wording.isSuspicious sql = false) (hno : lower n ∉ Text.ofStrings ["sys", "master"]) :
    ¬ NamesSystem n := by
  obtain ⟨-, -, hcatalogues, hstandard⟩ := isSuspicious_eq_false_iff.1 hsql
  obtain ⟨hsplit, hstart, -⟩ := h.wholeWord_of_name hn
  have hpg : ¬ ("pg_" : Text).isPrefixOf (lower n) = true := by
    intro hpg
    obtain ⟨r, hr⟩ := List.isPrefixOf_iff_prefix.1 hpg
    rw [hascii.lower_eq] at hr
    obtain ⟨x, m, rfl, hx, -⟩ := List.map_eq_append_iff.1 hr.symm
    have hspells : Spells "pg_" x := by
      refine spells_of_lower (Ascii.of_append hascii).1 (by decide) ?_
      rw [(Ascii.of_append hascii).1.lower_eq, hx]
      rfl
    rw [List.append_assoc x] at hsplit
    have hoccurs : occurs (wordBeginning "pg_") sql = true :=
      (occurs_wordBeginning_iff (by decide)).2 ⟨_, x, _, hsplit, hspells, hstart⟩
    rw [hcatalogues _ (by decide)] at hoccurs
    cases hoccurs
  rintro (hcontains | hprefix)
  · have hmem := List.contains_iff_mem.1 hcontains
    rcases List.mem_cons.1 hmem with heq | hmem
    · have hspells := spells_of_lower hascii (w := "information_schema") (by decide)
        (heq.trans (by decide))
      have hoccurs := occurs_standardCatalogue_iff.2 ⟨_, n, _, hsplit, hspells⟩
      rw [hstandard] at hoccurs
      cases hoccurs
    rcases List.mem_cons.1 hmem with heq | hmem
    · exact hpg (by rw [heq]; decide)
    rcases List.mem_cons.1 hmem with heq | hmem
    · exact hpg (by rw [heq]; decide)
    · exact hno hmem
  · exact hpg hprefix

/-- A harmless name is no catalogue that is suspicious with a dot behind it. -/
theorem not_system_of_harmless {n : Text} (h : HarmlessName n) :
    lower n ∉ Text.ofStrings ["sys", "master"] := by
  intro hmem
  obtain ⟨-, -, hcatalogues, -⟩ := isSuspicious_eq_false_iff.1 h.notSuspicious
  have hdotted {w : Text} (hw : w ++ ['.'] ∈ Wording.catalogueBeginnings) (hascii : Ascii w)
      (heq : lower n = lower w) : False := by
    have hspells : Spells (w ++ ['.']) (n ++ ['.']) := by
      have := spells_of_lower h.ascii hascii heq
      rw [Spells, List.map_append, List.map_append, this]
    have hoccurs := (occurs_wordBeginning_iff (by simp)).2
      ⟨[], n ++ ['.'], [], (List.append_nil _).symm, hspells, rfl⟩
    rw [hcatalogues _ hw] at hoccurs
    cases hoccurs
  rcases List.mem_cons.1 hmem with heq | hmem
  · exact hdotted (w := "sys") (by decide) (by decide) (heq.trans (by decide))
  · have heq := List.mem_singleton.1 hmem
    exact hdotted (w := "master") (by decide) (by decide) (heq.trans (by decide))

/-! ## Groups -/

theorem mapM_eq_ok {ε α β : Type} {f : α → Except ε β} {g : α → β} {l : List α}
    (h : ∀ a ∈ l, f a = .ok (g a)) : l.mapM f = .ok (l.map g) := by
  induction l with
  | nil => rfl
  | cons a l ih =>
    rw [List.mapM_cons, h a List.mem_cons_self, ih fun b hb => h b (List.mem_cons_of_mem a hb)]
    rfl

/-- Where words end, a word that follows begins there. -/
theorem WordsEndAt.getLast?_take {t x r : Text} {n : Nat} (h : WordsEndAt t n) (hx : IsWord x)
    (hdrop : t.drop n = x ++ r) : (t.take n).getLast?.any isWordChar = false := by
  rw [Bool.eq_false_iff]
  intro hlast
  have hlen : (t.take n).length = n := by
    have := congrArg List.length hdrop
    have := List.length_pos_of_ne_nil hx.1
    simp only [List.length_drop, List.length_append] at *
    rw [List.length_take]
    omega
  have hhead := h _ _ (List.take_append_drop n t).symm hlen hlast
  obtain ⟨c, x, rfl⟩ := List.exists_cons_of_ne_nil hx.1
  rw [hdrop, List.cons_append, List.head?_cons, Option.any_some, hx.2 c List.mem_cons_self] at hhead
  cases hhead

/-- Without the word `GROUP` nothing is grouped. -/
theorem groupSpan?_of_no_group {sql : Text} {ts : List Token} (h : TokensOf sql ts)
    (hno : occurs (oneWord ["GROUP"]) (maskLiterals sql) = false) (list : Span) :
    Grouping.groupSpan? (maskLiterals sql) list = none := by
  unfold Grouping.groupSpan?
  have hend := wordsEndAt_clauseEnd (maskLiterals sql) list.stop Grouping.bodyEnds
  generalize clauseEnd (maskLiterals sql) list.stop Grouping.bodyEnds = n at hend
  cases hread : keywords? "GROUP" "BY" ((maskLiterals sql).drop n) with
  | none => simp only [hread]
  | some rest =>
    exfalso
    obtain ⟨r, hr, -⟩ := Option.bind_eq_some_iff.1 hread
    obtain ⟨k, hk, -, hdrop⟩ := keyword?_bind_spaced?_eq_some_iff.1 hr
    obtain ⟨x, g, rfl, hx, hne, hg⟩ := hk.parts
    have hword : IsWord x := isWord_of_spells (by decide) (by decide) hx
    rw [List.append_assoc] at hdrop
    have hlast := hend.getLast?_take hword hdrop
    have hsplit := (List.take_append_drop n (maskLiterals sql)).symm
    rw [hdrop] at hsplit
    have hblank := head?_any_isBlank_append hne hg r
    rw [← h.mask] at hsplit hlast
    obtain ⟨p, q, rfl, -, -⟩ := h.readable.exists_word_before_blank hword hsplit hlast hblank
    have hletters : OfLetters ["GROUP"] := by decide
    have hsome := (occurs_oneWord_maskOf_iff h.lexed h.words hletters).2
      ⟨.word x, by simp, x, rfl, _, List.mem_singleton_self _, hx⟩
    rw [h.mask, hno] at hsome
    cases hsome

/-- Without the word `GROUP` no column has to be grouped. -/
theorem ungroupedColumns_of_no_group {sql : Text} {ts : List Token} (h : TokensOf sql ts)
    (hno : occurs (oneWord ["GROUP"]) (maskLiterals sql) = false) :
    ungroupedColumns sql (maskLiterals sql) = .ok [] := by
  have hlists : (selectLists (maskLiterals sql)).mapM
      (Grouping.uncoveredIn sql (maskLiterals sql)) =
        .ok ((selectLists (maskLiterals sql)).map fun _ => []) := by
    refine mapM_eq_ok fun list _ => ?_
    rw [Grouping.uncoveredIn, groupSpan?_of_no_group h hno]
  rw [ungroupedColumns, hlists]
  have hflat (l : List Span) : (l.map fun _ => ([] : List Text)).flatten = [] := by
    simp
  change Except.ok (distinct _) = _
  rw [hflat]
  rfl

/-! ## The rules together -/

/-- The rules of the second tier, each kept by a text. -/
structure Structure.Kept (parser : Parser) (cap : RowCap) (sql : Text) : Prop where
  limits : ∀ ds ∈ limits sql, ∃ n, readDigits ds = .ok n ∧ n ≤ cap.rows
  noForbiddenWord : ∀ s ∈ (parser.subqueries sql).found,
    Wording.forbiddenWord? (maskLiterals s) = none
  parsed : parser.Reads sql
  grouped : ungroupedColumns sql (maskLiterals sql) = .ok []
  noSystemTable : ∀ r ∈ tableRefs sql, namesSystemTable r = false

theorem Structure.violation?_eq_none_iff {parser : Parser} {cap : RowCap} {sql : Text} :
    violation? parser cap sql = .ok none ↔ Structure.Kept parser cap sql := by
  unfold violation?
  rw [bind_eq_ok_iff]
  constructor
  · rintro ⟨o, ho, hrest⟩
    cases o with
    | some n => cases Except.ok.inj hrest
    | none =>
      obtain ⟨w, hw, hrest⟩ := bind_eq_ok_iff.1 hrest
      cases w with
      | some word => cases Except.ok.inj hrest
      | none =>
        obtain ⟨hwords, hreads⟩ := forbiddenInSubquery?_eq_none_iff.1 hw
        obtain ⟨cs, hcs, hrest⟩ := bind_eq_ok_iff.1 hrest
        cases cs with
        | cons c cs => cases Except.ok.inj hrest
        | nil =>
          have hnone := Option.map_eq_none_iff.1 (Except.ok.inj hrest)
          exact ⟨limitAbove?_eq_none_iff.1 ho, hwords, hreads, hcs, by simpa using hnone⟩
  · rintro ⟨hlimits, hwords, hreads, hgrouped, htables⟩
    refine ⟨none, limitAbove?_eq_none_iff.2 hlimits, ?_⟩
    simp only
    rw [forbiddenInSubquery?_eq_none_iff.2 ⟨hwords, hreads⟩]
    change (ungroupedColumns sql (maskLiterals sql) >>= _) = _
    rw [hgrouped]
    have hnone : (tableRefs sql).find? namesSystemTable = none := by
      rw [List.find?_eq_none]
      intro r hr
      simp [htables r hr]
    change Except.ok (((tableRefs sql).find? namesSystemTable).map _) = _
    rw [hnone]
    rfl

/-- A plain word is none of the two catalogues that only a dot makes suspicious, and a plain name in
quotes is no keyword either. Outside literals no plain character delimits a string or a name. -/
def Token.IsPlain : Token → Prop
  | .word w => lower w ∉ Text.ofStrings ["sys", "master"]
  | .quoted w => isKeyword w = false ∧ lower w ∉ Text.ofStrings ["sys", "master"]
  | .other _ m => m ∉ '"' :: foreignQuotes

instance : DecidablePred Token.IsPlain
  | .word w => inferInstanceAs (Decidable (lower w ∉ _))
  | .quoted w => inferInstanceAs (Decidable (isKeyword w = false ∧ lower w ∉ _))
  | .other _ m => inferInstanceAs (Decidable (m ∉ '"' :: foreignQuotes))

/-- A query in plain SQL: one statement, in ASCII outside its literals and of plain tokens, with
nothing in it that a lexer could take for an escape or a comment. -/
structure PlainQuery (sql : Text) : Prop where
  ascii : Ascii (maskLiterals sql)
  plain : ∀ t ∈ tokens sql, t.IsPlain
  single : IsSingleStatement sql
  noBackslash : '\\' ∉ sql
  noHash : '#' ∉ sql

namespace PlainQuery

variable {sql : Text}

theorem tokensOf (h : PlainQuery sql) : TokensOf sql (tokens sql) :=
  tokensOf_tokens fun c m hm => by
    have hplain := h.plain (.other c m) hm
    simp only [Token.IsPlain, foreignQuotes, List.mem_cons, not_or] at hplain
    exact ⟨hplain.1, hplain.2.2.2.2.1⟩

theorem plainTokens (h : PlainQuery sql) : PlainTokens (tokens sql) :=
  ⟨h.tokensOf.mask ▸ h.ascii, fun w hw => (h.plain (.quoted w) hw).1⟩

theorem noSystemName (h : PlainQuery sql) {t : Token} (ht : t ∈ tokens sql) {n : Text}
    (hn : t.name? = some n) : lower n ∉ Text.ofStrings ["sys", "master"] := by
  have hplain := h.plain t ht
  cases t with
  | word w =>
    obtain rfl := Option.some.inj hn
    exact hplain
  | quoted w =>
    obtain rfl := Option.some.inj hn
    exact hplain.2
  | other c m => cases hn

end PlainQuery

section Renamed

variable {names : Text → Prop} {sql f : Text} {us : List Token}

theorem Renamed.not_mem_mark {ts : List Token} (h : Renamed names ts us) (hts : TokensOf sql ts)
    (hus : TokensOf f us) {c : Char} (hc : isInName c = false) (hno : c ∉ sql) : c ∉ f := by
  intro hmem
  obtain ⟨a, b, hab⟩ := List.append_of_mem hmem
  rw [← hus.text] at hab
  obtain ⟨p, m, q, rfl, -, -⟩ := hus.readable.exists_mark hc hab
  obtain ⟨p', t, q', rfl, -, ht, -⟩ := h.exists_cons
  rcases ht.eq_or_named with rfl | ⟨-, n, -, hn, -⟩
  · exact hno (by rw [← hts.text]; simp [Token.text])
  · cases hn

/-- In a renamed query every lexer finds the same strings. -/
theorem PlainQuery.delimited_of_renamed (hq : PlainQuery sql) (h : Renamed names (tokens sql) us)
    (hus : TokensOf f us) (hf : Wording.isSuspicious f = false) : PlainlyDelimited f := by
  have hts := hq.tokensOf
  have hmarks := (isSuspicious_eq_false_iff.1 hf).2.1
  refine ⟨⟨h.not_mem_mark hts hus rfl hq.noBackslash, h.not_mem_mark hts hus rfl hq.noHash,
    fun hin => ?_, fun hin => ?_⟩, us, hus, fun c m hm hquote => ?_⟩
  · have := hmarks "--" (by decide)
    rw [Text.hasPart_eq_true_iff.2 hin] at this
    cases this
  · have := hmarks "/*" (by decide)
    rw [Text.hasPart_eq_true_iff.2 hin] at this
    cases this
  · obtain ⟨p, q, rfl⟩ := List.append_of_mem hm
    obtain ⟨p', t, q', hsplit, -, ht, -⟩ := h.exists_cons
    rcases ht.eq_or_named with rfl | ⟨-, n, -, hn, -⟩
    · exact hq.plain (.other c m) (by rw [hsplit]; simp) (List.mem_cons_of_mem _ hquote)
    · cases hn

/-- A renamed query keeps to the rules of the second tier if the parser can read it and its select
lists are grouped. -/
theorem Structure.Kept.of_renamed {parser : Parser} (hparser : parser.Lawful) {cap : RowCap}
    (hsql : Structure.Kept parser cap sql) (h : Renamed names (tokens sql) us)
    (hus : TokensOf f us) (hq : PlainQuery sql) (hnames : ∀ n, names n → HarmlessName n)
    (hf : Wording.Kept f) (hreads : parser.Reads f)
    (hgrouped : ungroupedColumns f (maskLiterals f) = .ok []) :
    Structure.Kept parser cap f := by
  have hts := hq.tokensOf
  have hascii := h.ascii (fun n hn => (hnames n hn).ascii) hq.plainTokens.ascii
  constructor
  · intro ds hds
    exact hsql.limits ds (mem_limits_of_renamed h hts hus hq.plainTokens hnames hds)
  · intro s hs
    exact forbiddenWord?_eq_none_iff.2 (hparser.not_occurs_of_subquery
      (hq.delimited_of_renamed h hus hf.notSuspicious) (by decide)
      (forbiddenWord?_eq_none_iff.1 hf.noForbiddenWord) hs)
  · exact hreads
  · exact hgrouped
  · intro r hr
    rw [Bool.eq_false_iff]
    intro hsystem
    obtain ⟨u, hu, n, hn, hnamed⟩ := exists_systemName hus hr hsystem
    obtain ⟨p, q, rfl⟩ := List.append_of_mem hu
    obtain ⟨p', t, q', hsplit, -, htu, -⟩ := h.exists_cons
    refine not_namesSystem hus hn ?_ hf.notSuspicious ?_ hnamed
    · exact hascii.of_name (by simp) hn
    · rcases htu.eq_or_named with rfl | ⟨-, m, -, hm, hname, -⟩
      · exact hq.noSystemName (by rw [hsplit]; simp) hn
      · obtain rfl := Option.some.inj (hm.symm.trans hn)
        exact not_system_of_harmless (hnames m hname)

end Renamed

end QueryGate
