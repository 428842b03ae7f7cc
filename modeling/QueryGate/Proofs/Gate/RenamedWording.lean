import QueryGate.Proofs.Gate.Conditions
import QueryGate.Proofs.Gate.Denylist
import QueryGate.Proofs.Gate.FinalQuery
import QueryGate.Proofs.Sql.TextTokens

/-!
# The wording of a renamed query

Names that are harmless on their own are harmless in a query: a query that keeps to the rules of
the first tier keeps to them when some of its names are replaced by such names
(`Wording.Kept.of_renamed`).
-/

namespace QueryGate

open Wording

/-- A name that breaks no rule of the first tier, wherever it stands as a name. -/
structure HarmlessName (n : Text) : Prop where
  word : IsWord n
  ascii : Ascii n
  start : n.head?.any isNameStart = true
  notKeyword : isKeyword n = false
  notDenied : ∀ w ∈ deniedWords, ¬ Spells w n
  notSuspicious : isSuspicious (n ++ ['.']) = false

instance (n : Text) : Decidable (HarmlessName n) :=
  decidable_of_iff
    (((n ≠ [] ∧ ∀ c ∈ n, isWordChar c = true) ∧ ∀ c ∈ n, c.toNat < 128) ∧
      n.head?.any isNameStart = true ∧ isKeyword n = false ∧
      (∀ w ∈ deniedWords, ¬ Spells w n) ∧ isSuspicious (n ++ ['.']) = false)
    ⟨fun ⟨⟨hword, hascii⟩, hstart, hkeyword, hdenied, hsuspicious⟩ =>
      ⟨hword, hascii, hstart, hkeyword, hdenied, hsuspicious⟩,
    fun h => ⟨⟨h.word, h.ascii⟩, h.start, h.notKeyword, h.notDenied, h.notSuspicious⟩⟩

variable {names : Text → Prop} {sql f : Text} {ts us : List Token}

/-! ## Words -/

theorem Ascii.of_name {t : Token} {n : Text} (h : Ascii (maskOf ts)) (ht : t ∈ ts)
    (hn : t.name? = some n) : Ascii n := by
  obtain ⟨p, q, rfl⟩ := List.append_of_mem ht
  rw [maskOf_append, maskOf_cons, Token.mask_of_name hn] at h
  exact (Ascii.of_append (Ascii.of_append (Ascii.of_append (Ascii.of_append h).2).1).2).1

/-- What is no keyword spells none. -/
theorem not_spells_of_not_keyword {n w : Text} (hn : isKeyword n = false) (hascii : Ascii n)
    (hw : Ascii w) (hkeyword : isKeyword w = true) : ¬ Spells w n := by
  intro hs
  rw [isKeyword, (hw.spells_iff hascii).1 hs] at hn
  rw [isKeyword, hn] at hkeyword
  cases hkeyword

/-- Harmless names change no condition. -/
theorem Renamed.alike_conditionWords (h : Renamed names ts us) (hplain : PlainTokens ts)
    (hnames : ∀ n, names n → HarmlessName n) : Alike conditionWords ts us := by
  have hwords : ∀ w ∈ conditionWords, Ascii w ∧ isKeyword w = true := by decide
  have hswap : ∀ t ∈ ts, ∀ u, Swap names t u → Like conditionWords t u := by
    intro t ht u htu
    rcases htu.eq_or_named with rfl | ⟨m, n, hm, hn, hname, hbare⟩
    · exact .same t
    have hold : isKeyword m = false := by
      cases t with
      | word w => exact hbare rfl
      | quoted w =>
        obtain rfl := Option.some.inj hm
        exact hplain.quotedNames w ht
      | other c d => cases hm
    refine .names hm hn (fun w hw => ?_) (fun w hw => ?_)
    · exact not_spells_of_not_keyword hold (hplain.ascii.of_name ht hm) (hwords w hw).1
        (hwords w hw).2
    · exact not_spells_of_not_keyword (hnames n hname).notKeyword (hnames n hname).ascii
        (hwords w hw).1 (hwords w hw).2
  clear hplain
  induction h with
  | nil => exact .nil
  | @cons t u ts us htu _ ih =>
    refine .cons (hswap t List.mem_cons_self u htu) (ih fun t ht => ?_)
    exact hswap t (List.mem_cons_of_mem _ ht)

/-- A word of a renamed query that no name spells is one of the query. -/
theorem Renamed.exists_isOneOf (h : Renamed names ts us) {words : List Text}
    (hnames : ∀ n, names n → ∀ w ∈ words, ¬ Spells w n) (hus : ∃ u ∈ us, u.IsOneOf words) :
    ∃ t ∈ ts, t.IsOneOf words := by
  obtain ⟨u, hu, x, hx, w, hw, hs⟩ := hus
  obtain ⟨p, q, rfl⟩ := List.append_of_mem hu
  obtain ⟨p', t, q', rfl, -, htu, -⟩ := h.exists_cons
  rcases htu.eq_or_named with rfl | ⟨m, n, -, hn, hname, -⟩
  · exact ⟨t, by simp, x, hx, w, hw, hs⟩
  · obtain rfl := Option.some.inj (hn.symm.trans hx)
    exact absurd hs (hnames n hname w hw)

theorem Renamed.not_occurs_oneWord (h : Renamed names ts us) (hts : TokensOf sql ts)
    (hus : TokensOf f us) {words : List Text} (hletters : OfLetters words)
    (hnames : ∀ n, names n → ∀ w ∈ words, ¬ Spells w n)
    (hsql : occurs (oneWord words) (maskLiterals sql) = false) :
    occurs (oneWord words) (maskLiterals f) = false := by
  rw [← hts.mask] at hsql
  rw [← hus.mask, Bool.eq_false_iff]
  intro hyes
  have hsome := h.exists_isOneOf hnames
    ((occurs_oneWord_maskOf_iff hus.lexed hus.words hletters).1 hyes)
  rw [(occurs_oneWord_maskOf_iff hts.lexed hts.words hletters).2 hsome] at hsql
  cases hsql

/-! ## Suspicious texts -/

theorem eq_of_foldLetter {c x : Char} (h : foldLetter c = x) (hx : x.toNat < 128)
    (hmark : x ∈ ['.', '_']) : c = x := by
  have hmem : x ∉ ['s', 'k', 'i'] := by
    intro hmem
    have hno : ∀ x ∈ ['.', '_'], x ∉ ['s', 'k', 'i'] := by decide
    exact hno x hmark hmem
  have := forall_ascii (p := fun c => !(['.', '_'].contains (foldLetter c)) || c == foldLetter c)
    (by decide) (ascii_of_foldLetter h hx hmem)
  rw [h] at this
  simpa [hmark] using this

theorem occurs_wordBeginning_iff {w t : Text} (hw : w ≠ []) :
    occurs (wordBeginning w) t = true ↔
      ∃ a x b, t = a ++ (x ++ b) ∧ Spells w x ∧ a.getLast?.any isWordChar = false := by
  have hstart (a : Text) : atWordStart a.reverse = true ↔ a.getLast?.any isWordChar = false := by
    rw [atWordStart, List.head?_reverse, Bool.not_eq_true']
  rw [occurs_eq_true_iff]
  constructor
  · rintro ⟨a, b, rfl, -, hread⟩
    unfold wordBeginning at hread
    split at hread
    · rename_i ha
      rw [Option.isSome_map] at hread
      obtain ⟨rest, hrest⟩ := Option.isSome_iff_exists.1 hread
      obtain ⟨x, rfl, hx⟩ := keyword?_eq_some_iff.1 hrest
      exact ⟨a, x, rest, rfl, hx, (hstart a).1 ha⟩
    · cases hread
  · rintro ⟨a, x, b, rfl, hx, ha⟩
    refine ⟨a, x ++ b, rfl, ?_, ?_⟩
    · intro hnil
      rw [(List.append_eq_nil_iff.1 hnil).1] at hx
      exact hw (List.length_eq_zero_iff.1 hx.length_eq.symm)
    · rw [wordBeginning, if_pos ((hstart a).2 ha), keyword?_append hx]
      rfl

theorem occurs_standardCatalogue_iff {t : Text} :
    occurs standardCatalogue t = true ↔
      ∃ a x b, t = a ++ (x ++ b) ∧ Spells "information_schema" x := by
  rw [occurs_eq_true_iff]
  constructor
  · rintro ⟨a, b, rfl, -, hread⟩
    unfold standardCatalogue at hread
    rw [Option.isSome_map] at hread
    obtain ⟨rest, hrest⟩ := Option.isSome_iff_exists.1 hread
    obtain ⟨x, rfl, hx⟩ := keyword?_eq_some_iff.1 hrest
    exact ⟨a, x, rest, rfl, hx⟩
  · rintro ⟨a, x, b, rfl, hx⟩
    refine ⟨a, x ++ b, rfl, ?_, ?_⟩
    · intro hnil
      rw [(List.append_eq_nil_iff.1 hnil).1] at hx
      exact absurd hx (by decide)
    · rw [standardCatalogue, keyword?_append hx]
      rfl

/-- What spells letters and underscores is a run of word characters. -/
theorem isWordChar_of_spells {w x : Text} (hx : Spells w x)
    (hw : ∀ c ∈ w.map foldLetter, c.isLower = true ∨ c = '_') : ∀ c ∈ x, isWordChar c = true := by
  intro c hc
  rcases hw _ (hx.mem hc) with hlower | hline
  · exact isWordChar_of_isLower_foldLetter hlower
  · rw [eq_of_foldLetter hline (by decide) (by decide)]
    rfl

/-- The beginning of the name of a catalogue is a run of word characters, and perhaps a dot. -/
theorem exists_run_of_catalogueBeginning {w x : Text} (hw : w ∈ catalogueBeginnings)
    (hx : Spells w x) : ∃ y z, x = y ++ z ∧ y ≠ [] ∧ (∀ c ∈ y, isWordChar c = true) ∧
      (z = [] ∨ z = ['.']) := by
  have hsplit : ∃ u v, w = u ++ v ∧ u ≠ [] ∧ (∀ c ∈ u.map foldLetter, c.isLower = true ∨ c = '_') ∧
      (v = [] ∨ v = ['.']) := by
    have hdots : ∀ w ∈ catalogueBeginnings, w.takeWhile (· != '.') ≠ [] ∧
        (∀ c ∈ (w.takeWhile (· != '.')).map foldLetter, c.isLower = true ∨ c = '_') ∧
        (w.dropWhile (· != '.') = [] ∨ w.dropWhile (· != '.') = ['.']) := by decide
    exact ⟨_, _, List.takeWhile_append_dropWhile.symm, hdots w hw⟩
  obtain ⟨u, v, rfl, hne, hu, hv⟩ := hsplit
  rw [Spells, List.map_append] at hx
  obtain ⟨y, z, rfl, hy, hz⟩ := List.map_eq_append_iff.1 hx
  refine ⟨y, z, rfl, ?_, isWordChar_of_spells hy hu, ?_⟩
  · rintro rfl
    exact hne (List.map_eq_nil_iff.1 hy.symm)
  · rcases hv with rfl | rfl
    · exact .inl (List.map_eq_nil_iff.1 hz)
    · right
      obtain ⟨c, d, rfl, hc, hd⟩ := List.map_eq_cons_iff.1 hz
      have hdot : foldLetter c = '.' := hc
      rw [List.map_eq_nil_iff.1 hd, eq_of_foldLetter hdot (by decide) (by decide)]

/-- The words that may not follow a semicolon. -/
def chainedWords : List Text := Text.ofStrings ["EXEC", "GRANT", "REVOKE", "COMMENT"]

theorem occurs_chainedWord_iff {t : Text} :
    occurs chainedWord t = true ↔ ∃ a g x b, t = (a ++ ';' :: g) ++ (x ++ b) ∧
      allBlank g = true ∧ ∃ w ∈ chainedWords, Spells w x := by
  rw [occurs_eq_true_iff]
  constructor
  · rintro ⟨a, b, rfl, -, hread⟩
    unfold chainedWord at hread
    split at hread
    · rename_i r
      obtain ⟨v, hv⟩ := Option.isSome_iff_exists.1 hread
      obtain ⟨w, hw, hsome⟩ := List.exists_of_findSome?_eq_some hv
      obtain ⟨rest, hrest, -⟩ := Option.map_eq_some_iff.1 hsome
      obtain ⟨x, hskip, hx⟩ := keyword?_eq_some_iff.1 hrest
      obtain ⟨g, hg, hr⟩ := exists_blanks_append_skipBlanks r
      exact ⟨a, g, x, rest, by rw [hr, hskip]; simp, hg, w, hw, hx⟩
    · cases hread
  · rintro ⟨a, g, x, b, rfl, hg, w, hw, hx⟩
    have hletters : OfLetters chainedWords := by decide
    have hword := isWord_of_spells (hletters w hw).1 (hletters w hw).2 hx
    have hhead : (x ++ b).head?.any isBlank = false := by
      obtain ⟨c, x, rfl⟩ := List.exists_cons_of_ne_nil hword.1
      exact isBlank_eq_false_of_isWordChar (hword.2 c List.mem_cons_self)
    refine ⟨a, ';' :: (g ++ (x ++ b)), by simp, List.cons_ne_nil _ _, ?_⟩
    rw [chainedWord, skipBlanks_append hg hhead, List.findSome?_isSome_iff]
    exact ⟨w, hw, by rw [keyword?_append hx]; rfl⟩

section Suspicious

variable (h : Renamed names ts us) (hts : TokensOf sql ts) (hus : TokensOf f us)
  (hnames : ∀ n, names n → HarmlessName n)

include h hts hus

theorem Renamed.hasPart_marks {z : Text} (hz : OfMarks z) (hne : z ≠ [])
    (hpart : Text.hasPart z f = true) : Text.hasPart z sql = true := by
  rw [Text.hasPart_eq_true_iff] at hpart ⊢
  obtain ⟨a, b, hab⟩ := hpart
  rw [List.append_assoc, ← hus.text] at hab
  obtain ⟨p, v, q, rfl, -, rfl, -, hothers⟩ := hus.readable.exists_marks hz hne hab.symm
  obtain ⟨p', r, rfl, -, hr⟩ := h.of_append_right
  obtain ⟨v', q', rfl, hv, -⟩ := Renamed.of_append_right hr
  obtain rfl := hv.others (.inr hothers)
  exact ⟨textOf p', textOf q', by rw [← hts.text]; simp⟩

/-- Behind the one semicolon of a single statement stands no name that could be replaced. -/
theorem Renamed.occurs_chainedWord (hsingle : IsSingleStatement sql)
    (hoccurs : occurs chainedWord f = true) : occurs chainedWord sql = true := by
  rw [occurs_chainedWord_iff] at hoccurs ⊢
  obtain ⟨a, g, x, b, hf, hg, w, hw, hx⟩ := hoccurs
  have hletters : OfLetters chainedWords := by decide
  have hword := isWord_of_spells (hletters w hw).1 (hletters w hw).2 hx
  have hmarks : OfMarks (';' :: g) := by
    intro c hc
    rcases List.mem_cons.1 hc with rfl | hc
    · rfl
    · by_contra hin
      have := outsideNames_isBlank c (by simpa using hin)
      rw [List.all_eq_true.1 hg c hc] at this
      cases this
  rcases h.wordRun hts hus hword.2 hword.1 hf with ⟨a', b', rfl, hsame⟩ |
    ⟨q, t, r, l, m, q', t', r', hin, hn, rfl, hq, ht'⟩
  · obtain ⟨a', rfl⟩ := hsame.before _ hmarks (List.suffix_append a _)
    exact ⟨a', g, x, b', rfl, hg, w, hw, hx⟩
  · -- The old name stands behind the semicolon, which is outside literals.
    exfalso
    obtain ⟨hend, -⟩ := hin.marks_before hus.readable hmarks (List.suffix_append a _)
    have hreadable := (Readable.of_append (hin.tokens ▸ hus.readable)).1
    obtain ⟨a', ha'⟩ := hq.marks_at_end hreadable hmarks hend
    obtain ⟨n, hn'⟩ := Option.isSome_iff_exists.1 ht'
    have hquote : '\'' ∉ ';' :: g :=
      List.not_mem_cons_of_ne_of_not_mem (by decide) (not_mem_of_allBlank (by decide) hg)
    have hmask : maskLiterals sql = maskLiterals a' ++ ';' :: (g ++ maskOf (t' :: r')) := by
      rw [← hts.mask, maskOf_append, (hts.mask_around hn').1, ← ha',
        maskLiterals_append_of_not_mem a' hquote]
      simp
    have hblank : allBlank (g ++ textOf (t' :: r')) = true := by
      refine hsingle a' _ ?_ ?_
      · rw [← hts.text, textOf_append, ← ha']
        simp
      · rw [hmask, List.getElem?_append_right (by simp), length_maskLiterals, Nat.sub_self]
        rfl
    have hword := hts.readable.isWord_of_name hn'
    obtain ⟨c, hc⟩ := List.exists_mem_of_ne_nil n hword.1
    have hmem : c ∈ g ++ textOf (t' :: r') := by
      simp [Token.text_of_name hn', hc]
    have := List.all_eq_true.1 hblank c hmem
    rw [isBlank_eq_false_of_isWordChar (hword.2 c hc)] at this
    cases this

include hnames

theorem Renamed.occurs_catalogueBeginning {w : Text} (hw : w ∈ catalogueBeginnings)
    (hoccurs : occurs (wordBeginning w) f = true) : occurs (wordBeginning w) sql = true := by
  have hwne : ∀ w ∈ catalogueBeginnings, w ≠ [] := by decide
  rw [occurs_wordBeginning_iff (hwne w hw)] at hoccurs ⊢
  obtain ⟨a, x, b, hf, hx, ha⟩ := hoccurs
  obtain ⟨y, z, rfl, hne, hy, hz⟩ := exists_run_of_catalogueBeginning hw hx
  rw [List.append_assoc] at hf
  rcases h.wordRun hts hus hy hne hf with ⟨a', b', rfl, hsame⟩ |
    ⟨q, t, r, l, m, q', t', r', hin, hn, -⟩
  · have hmarks : OfMarks z := by
      rcases hz with rfl | rfl
      · exact nofun
      · intro c hc
        rw [List.mem_singleton.1 hc]
        rfl
    obtain ⟨b', rfl⟩ := hsame.behind z hmarks (List.prefix_append z b)
    exact ⟨a', y ++ z, b', by simp, hx, hsame.start ha⟩
  · -- The name itself would be suspicious.
    obtain rfl := hin.eq_nil_of_start hus.readable ha
    have hsuspicious : occurs (wordBeginning w) (y ++ m ++ ['.']) = true := by
      rw [occurs_wordBeginning_iff (hwne w hw)]
      rcases hz with rfl | rfl
      · exact ⟨[], y, m ++ ['.'], by simp, by simpa using hx, rfl⟩
      · obtain rfl := hin.eq_nil_of_end hus.readable (by rfl)
        exact ⟨[], y ++ ['.'], [], by simp, hx, rfl⟩
    have hno := (hnames _ hn).notSuspicious
    unfold isSuspicious at hno
    simp only [Bool.or_eq_false_iff, List.any_eq_false] at hno
    exact absurd hsuspicious (hno.1.2 w hw)

theorem Renamed.occurs_standardCatalogue (hoccurs : occurs standardCatalogue f = true) :
    occurs standardCatalogue sql = true := by
  rw [occurs_standardCatalogue_iff] at hoccurs ⊢
  obtain ⟨a, x, b, hf, hx⟩ := hoccurs
  have hrun := isWordChar_of_spells hx (by decide)
  have hne : x ≠ [] := by
    rintro rfl
    exact absurd hx (by decide)
  rcases h.wordRun hts hus hrun hne hf with ⟨a', b', rfl, -⟩ |
    ⟨q, t, r, l, m, q', t', r', hin, hn, -⟩
  · exact ⟨a', x, b', rfl, hx⟩
  · have hsuspicious : occurs standardCatalogue (l ++ (x ++ m) ++ ['.']) = true :=
      occurs_standardCatalogue_iff.2 ⟨l, x, m ++ ['.'], by simp, hx⟩
    have hno := (hnames _ hn).notSuspicious
    unfold isSuspicious at hno
    simp only [Bool.or_eq_false_iff] at hno
    rw [hno.2] at hsuspicious
    cases hsuspicious

end Suspicious

theorem isSuspicious_eq_false_iff {t : Text} :
    isSuspicious t = false ↔ occurs chainedWord t = false ∧
      (∀ z ∈ commentMarks, Text.hasPart z t = false) ∧
      (∀ w ∈ catalogueBeginnings, occurs (wordBeginning w) t = false) ∧
      occurs standardCatalogue t = false := by
  simp [isSuspicious, Bool.or_eq_false_iff, and_assoc]

/-- A renamed query is no more suspicious than the query. -/
theorem Renamed.not_suspicious (h : Renamed names ts us) (hts : TokensOf sql ts)
    (hus : TokensOf f us) (hnames : ∀ n, names n → HarmlessName n) (hsingle : IsSingleStatement sql)
    (hsql : isSuspicious sql = false) : isSuspicious f = false := by
  rw [isSuspicious_eq_false_iff] at hsql ⊢
  obtain ⟨hchained, hmarks, hcatalogues, hstandard⟩ := hsql
  have hcomment : ∀ z ∈ commentMarks, OfMarks z ∧ z ≠ [] := by
    have hall : ∀ z ∈ commentMarks, (∀ c ∈ z, isInName c = false) ∧ z ≠ [] := by decide
    exact hall
  refine ⟨?_, fun z hz => ?_, fun w hw => ?_, ?_⟩ <;> rw [Bool.eq_false_iff] <;> intro hyes
  · have := h.occurs_chainedWord hts hus hsingle hyes
    rw [hchained] at this
    cases this
  · have := h.hasPart_marks hts hus (hcomment z hz).1 (hcomment z hz).2 hyes
    rw [hmarks z hz] at this
    cases this
  · have := h.occurs_catalogueBeginning hts hus hnames hw hyes
    rw [hcatalogues w hw] at this
    cases this
  · have := h.occurs_standardCatalogue hts hus hnames hyes
    rw [hstandard] at this
    cases this

/-! ## The rules together -/

theorem keyword_statementWords :
    OfLetters statementWords ∧ ∀ w ∈ statementWords, Ascii w ∧ isKeyword w = true := by decide

/-- Characters that show as blanks are no names. -/
theorem Readable.ofOthers_of_allBlank {p : List Token} (h : Readable p)
    (hp : allBlank (maskOf p) = true) : OfOthers p := by
  intro t ht
  cases hn : t.name? with
  | none => rfl
  | some n =>
    obtain ⟨a, b, rfl⟩ := List.append_of_mem ht
    have hword := h.isWord_of_name hn
    obtain ⟨c, hc⟩ := List.exists_mem_of_ne_nil n hword.1
    have hmem : c ∈ maskOf (a ++ t :: b) := by simp [Token.mask_of_name hn, hc]
    have := isBlank_eq_false_of_isWordChar (hword.2 c hc)
    rw [List.all_eq_true.1 hp c hmem] at this
    cases this

/-- The first word of a statement is a token, with blanks before it. -/
theorem TokensOf.exists_statementWord (hts : TokensOf sql ts)
    (hsql : Wording.beginsStatement sql = true) :
    ∃ p v q, ts = p ++ .word v :: q ∧ OfOthers p ∧ allBlank (textOf p) = true ∧
      ∃ w ∈ statementWords, Spells w v := by
  obtain ⟨⟨v, rest⟩, hread⟩ := Option.isSome_iff_exists.1 hsql
  obtain ⟨-, hskip, ⟨w, hw, hs⟩, hend⟩ := oneWord_eq_some hread
  obtain ⟨g, hg, hsplit⟩ := exists_blanks_append_skipBlanks sql
  rw [hskip] at hsplit
  obtain ⟨hne, hletters⟩ := keyword_statementWords.1 w hw
  have hword := isWord_of_spells hne hletters hs
  have hquote : '\'' ∉ g ++ v := by
    intro hmem
    rcases List.mem_append.1 hmem with hmem | hmem
    · exact not_mem_of_allBlank (by decide) hg hmem
    · exact absurd (hword.2 _ hmem) (by decide)
  have hmask : maskOf ts = g ++ (v ++ maskLiterals rest) := by
    rw [hts.mask, hsplit, ← List.append_assoc, maskLiterals_prepend hquote, List.append_assoc]
  have hstart : g.getLast?.any isWordChar = false := by
    cases hlast : g.getLast? with
    | none => rfl
    | some c =>
      exact isWordChar_eq_false_of_isBlank (List.all_eq_true.1 hg c (List.mem_of_getLast? hlast))
  obtain ⟨p, t, q, rfl, hname, hp, -⟩ := hts.lexed.exists_wholeWord hts.words hword hmask hstart
    (by rwa [head?_maskLiterals])
  have hquotes : t.quotes = [] := by
    cases t with
    | quoted w =>
      have : isBlank '"' = true := List.all_eq_true.1 hg _ (by rw [hp]; simp [Token.quotes])
      exact absurd this (by decide)
    | _ => rfl
  obtain rfl := Token.eq_word hname hquotes
  rw [hquotes, List.append_nil] at hp
  have htext : textOf p = g := by
    have hlen : (textOf p).length = g.length := by rw [hp, length_maskOf]
    have hsql := hts.text
    rw [textOf_append, hsplit] at hsql
    exact (List.append_inj hsql hlen).1
  exact ⟨p, v, q, rfl, (Readable.of_append hts.readable).1.ofOthers_of_allBlank (hp ▸ hg),
    htext ▸ hg, w, hw, hs⟩

/-- The first word of a statement is a keyword, and stays. -/
theorem Renamed.beginsStatement (h : Renamed names ts us) (hts : TokensOf sql ts)
    (hus : TokensOf f us) (hplain : PlainTokens ts) (hsql : beginsStatement sql = true) :
    beginsStatement f = true := by
  obtain ⟨p, v, q, rfl, hothers, hblank, w, hw, hs⟩ := hts.exists_statementWord hsql
  obtain ⟨hascii, hkeyword⟩ := keyword_statementWords.2 w hw
  obtain ⟨p', u, q', rfl, hp, htu, -⟩ := h.exists_cons_left
  obtain rfl := hp.others (.inl hothers)
  have hkeep : Token.word v = u := by
    rcases htu.eq_or_named with heq | ⟨m, n, hm, -, -, hbare⟩
    · exact heq
    · obtain rfl := Option.some.inj hm
      exact absurd hs (not_spells_of_not_keyword (hbare rfl) (hplain.ascii.of_name (by simp) hm)
        hascii hkeyword)
  subst hkeep
  have hv : IsWord v := hus.lexed.fit (.word v) (by simp)
  obtain ⟨hf, -, hend⟩ := hus.wholeWord_of_name rfl
  have hhead : (v ++ textOf q').head?.any isBlank = false := by
    obtain ⟨c, v, rfl⟩ := List.exists_cons_of_ne_nil hv.1
    exact isBlank_eq_false_of_isWordChar (hv.2 c List.mem_cons_self)
  have hskip : skipBlanks f = v ++ textOf q' := by
    rw [hf]
    simp only [Token.quotes, List.append_nil, List.nil_append]
    exact skipBlanks_append hblank hhead
  rw [Wording.beginsStatement, hskip]
  exact oneWord_isSome rfl hw hs (by simpa [atWordEnd, Token.quotes] using hend)

theorem not_allBlank_of_beginsStatement (h : Wording.beginsStatement sql = true) :
    allBlank sql = false := by
  rw [Bool.eq_false_iff]
  intro hblank
  rw [Wording.beginsStatement, skipBlanks_eq_nil_iff.2 hblank] at h
  exact absurd h (by decide)

theorem forbiddenWord?_eq_none_iff {masked : Text} :
    forbiddenWord? masked = none ↔ occurs (oneWord forbiddenWords) masked = false := by
  rw [forbiddenWord?, Option.map_eq_none_iff, firstHit?, List.head?_eq_none_iff, occurs,
    Bool.not_eq_false', List.isEmpty_iff]

/-- A query that keeps to the rules of the first tier keeps to them with harmless names in it. -/
theorem Wording.Kept.of_renamed (hsql : Kept sql) (h : Renamed names ts us) (hts : TokensOf sql ts)
    (hus : TokensOf f us) (hplain : PlainTokens ts) (hnames : ∀ n, names n → HarmlessName n)
    (hsingle : IsSingleStatement sql) (hdots : Text.hasPart ".." (maskLiterals f) = false) :
    Kept f := by
  have hletters : OfLetters deniedWords := by decide
  have halike := h.alike_conditionWords hplain hnames
  have hdenied {words : List Text} (hwords : ∀ w ∈ words, w ∈ deniedWords)
      (hno : occurs (oneWord words) (maskLiterals sql) = false) :
      occurs (oneWord words) (maskLiterals f) = false := by
    refine h.not_occurs_oneWord hts hus (fun w hw => hletters w (hwords w hw)) ?_ hno
    exact fun n hn w hw => (hnames n hn).notDenied w (hwords w hw)
  have hbegins := h.beginsStatement hts hus hplain hsql.begins
  constructor
  · exact not_allBlank_of_beginsStatement hbegins
  · exact hdots
  · rw [← hus.mask, Bool.eq_false_iff]
    intro hbreaks
    have := halike.breaksOff hts.readable hus.readable hbreaks
    rw [hts.mask, hsql.whole] at this
    cases this
  · rw [forbiddenWord?_eq_none_iff]
    exact hdenied (fun w hw => List.mem_append_left _ hw)
      (forbiddenWord?_eq_none_iff.1 hsql.noForbiddenWord)
  · exact h.not_suspicious hts hus hnames hsingle hsql.notSuspicious
  · exact hbegins
  · rw [← hus.mask, ← halike.count_eq hts.readable hus.readable rfl, hts.mask]
    exact hsql.semicolons
  · exact hdenied (fun w hw => List.mem_append_right _ hw) hsql.noTransaction

end QueryGate
