import QueryGate.Bound
import QueryGate.Proofs.Text.Hits
import QueryGate.Proofs.Text.Numeral

/-!
# Clauses that bound a query

What the readings of a trailing bound consume, part by part, and that the parts read back. A
`LIMIT` clause with its offset has one letter m, a `FETCH` clause one letter c, and neither has the
other's: so a text that ends with such a clause has one place where it begins
(`firstHit?_of_onlyAt`, `firstHit?_trailingLimit_eq_none`).
-/

namespace QueryGate

/-! ## What a clause is made of -/

/-- Every character is a blank, a digit, or one of some letters regardless of case. -/
def MadeOf (letters t : Text) : Prop :=
  ∀ c ∈ t, isBlank c = true ∨ isDecimalDigit c = true ∨ foldLetter c ∈ letters

namespace MadeOf

variable {letters t u : Text}

theorem append (ht : MadeOf letters t) (hu : MadeOf letters u) : MadeOf letters (t ++ u) :=
  fun c hc => (List.mem_append.1 hc).elim (ht c) (hu c)

theorem mono {more : Text} (h : MadeOf letters t) (hl : ∀ c ∈ letters, c ∈ more) : MadeOf more t :=
  fun c hc => (h c hc).imp_right (Or.imp_right (hl _))

theorem of_allBlank (h : allBlank t = true) : MadeOf letters t :=
  fun c hc => .inl (List.all_eq_true.1 h c hc)

theorem of_digits (h : ∀ c ∈ t, isDecimalDigit c = true) : MadeOf letters t :=
  fun c hc => .inr (.inl (h c hc))

theorem of_spells {word : Text} (h : Spells word t)
    (hw : ∀ c ∈ word.map foldLetter, c ∈ letters) : MadeOf letters t :=
  fun _ hc => .inr (.inr (hw _ (h.mem hc)))

theorem not_mem {c : Char} (h : MadeOf letters t) (hb : isBlank c = false)
    (hd : isDecimalDigit c = false) (hl : foldLetter c ∉ letters) : c ∉ t := by
  intro hc
  rcases h c hc with h | h | h
  · rw [hb] at h
    cases h
  · rw [hd] at h
    cases h
  · exact hl h

theorem foldLetter_ne {x c : Char} (h : MadeOf letters t) (hx : x.isLower = true)
    (hl : x ∉ letters) (hc : c ∈ t) : foldLetter c ≠ x := by
  rintro rfl
  refine h.not_mem ?_ (isDecimalDigit_eq_false_of_isLower_foldLetter hx) hl hc
  exact isBlank_eq_false_of_isWordChar (isWordChar_of_isLower_foldLetter hx)

end MadeOf

/-! ## Parts of a clause -/

/-- A spelling of a keyword and the blanks behind it. -/
structure KeywordGap (word t : Text) : Prop where
  parts : ∃ w g, t = w ++ g ∧ Spells word w ∧ g ≠ [] ∧ allBlank g = true

theorem KeywordGap.madeOf {word letters t : Text} (h : KeywordGap word t)
    (hw : ∀ c ∈ word.map foldLetter, c ∈ letters) : MadeOf letters t := by
  obtain ⟨w, g, rfl, hs, -, hg⟩ := h.parts
  exact (MadeOf.of_spells hs hw).append (.of_allBlank hg)

theorem KeywordGap.ne_nil {word t : Text} (h : KeywordGap word t) : t ≠ [] := by
  obtain ⟨w, g, rfl, -, hne, -⟩ := h.parts
  exact fun hnil => hne (List.append_eq_nil_iff.1 hnil).2

theorem keyword?_bind_spaced?_eq_some_iff {word t r : Text} :
    (keyword? word t).bind spaced? = some r ↔
      ∃ h, KeywordGap word h ∧ r.head?.any isBlank = false ∧ t = h ++ r := by
  rw [Option.bind_eq_some_iff]
  constructor
  · rintro ⟨u, hu, hr⟩
    obtain ⟨w, rfl, hw⟩ := keyword?_eq_some_iff.1 hu
    obtain ⟨g, hne, hg, hhead, rfl⟩ := spaced?_eq_some_iff.1 hr
    exact ⟨w ++ g, ⟨w, g, rfl, hw, hne, hg⟩, hhead, by rw [List.append_assoc]⟩
  · rintro ⟨h, hgap, hhead, rfl⟩
    obtain ⟨w, g, rfl, hw, hne, hg⟩ := hgap.parts
    rw [List.append_assoc]
    exact ⟨g ++ r, keyword?_append hw _, spaced?_append hne hg hhead⟩

theorem Spells.head?_any_isBlank {word w : Text} (h : Spells word w)
    (hword : word.head?.any (fun c => (foldLetter c).isLower) = true) (r : Text) :
    (w ++ r).head?.any isBlank = false := by
  cases word with
  | nil => cases hword
  | cons x word =>
    cases w with
    | nil => cases h
    | cons c w =>
      have hc : (foldLetter c).isLower = true := by
        rw [(List.cons.inj h).1]
        exact hword
      exact isBlank_eq_false_of_isWordChar (isWordChar_of_isLower_foldLetter hc)

theorem KeywordGap.head?_any_isBlank {word t : Text} (h : KeywordGap word t)
    (hword : word.head?.any (fun c => (foldLetter c).isLower) = true) (r : Text) :
    (t ++ r).head?.any isBlank = false := by
  obtain ⟨w, g, rfl, hw, -, -⟩ := h.parts
  rw [List.append_assoc]
  exact hw.head?_any_isBlank hword _

theorem keywords?_bind_spaced?_eq_some_iff {first second t r : Text}
    (hsecond : second.head?.any (fun c => (foldLetter c).isLower) = true) :
    (keywords? first second t).bind spaced? = some r ↔
      ∃ f n, KeywordGap first f ∧ KeywordGap second n ∧ r.head?.any isBlank = false ∧
        t = f ++ (n ++ r) := by
  rw [keywords?, Option.bind_assoc, Option.bind_eq_some_iff]
  constructor
  · rintro ⟨u, hu, hr⟩
    obtain ⟨f, hf, -, rfl⟩ := keyword?_bind_spaced?_eq_some_iff.1 hu
    obtain ⟨n, hn, hhead, rfl⟩ := keyword?_bind_spaced?_eq_some_iff.1 hr
    exact ⟨f, n, hf, hn, hhead, rfl⟩
  · rintro ⟨f, n, hf, hn, hhead, rfl⟩
    exact ⟨n ++ r,
      keyword?_bind_spaced?_eq_some_iff.2 ⟨f, hf, hn.head?_any_isBlank hsecond r, rfl⟩,
      keyword?_bind_spaced?_eq_some_iff.2 ⟨n, hn, hhead, rfl⟩⟩

/-- One or more digits and nothing else. -/
def IsDigitRun (t : Text) : Prop := t ≠ [] ∧ ∀ c ∈ t, isDecimalDigit c = true

theorem digits?_eq_some_iff {t ds rest : Text} :
    digits? t = some (ds, rest) ↔
      IsDigitRun ds ∧ rest.head?.any isDecimalDigit = false ∧ t = ds ++ rest := by
  unfold digits?
  constructor
  · intro h
    simp only at h
    split at h
    · cases h
    rename_i hne
    obtain ⟨rfl, rfl⟩ := Prod.mk.inj (Option.some.inj h)
    refine ⟨⟨by simpa using hne, fun c hc => List.mem_takeWhile_imp hc⟩, ?_, ?_⟩
    · exact head?_dropWhile_any _ t
    · exact (List.takeWhile_append_dropWhile ..).symm
  · rintro ⟨⟨hne, hd⟩, hr, rfl⟩
    simp only [takeWhile_append_of_all hd hr, dropWhile_append_of_all hd hr]
    rw [if_neg (by simpa using hne)]

theorem offsetOf_append (before head rest : Text) :
    offsetOf before (head ++ rest) rest = before.length + head.length := by
  simp [offsetOf]

theorem digits?_append {ds rest : Text} (h : IsDigitRun ds)
    (hr : rest.head?.any isDecimalDigit = false) : digits? (ds ++ rest) = some (ds, rest) :=
  digits?_eq_some_iff.2 ⟨h, hr, rfl⟩

theorem IsDigitRun.head?_any_isBlank {ds : Text} (h : IsDigitRun ds) (r : Text) :
    (ds ++ r).head?.any isBlank = false := by
  cases ds with
  | nil => exact absurd rfl h.1
  | cons d ds => exact isBlank_eq_false_of_isDecimalDigit (h.2 d List.mem_cons_self)

theorem head?_any_isDecimalDigit_of_blank {t : Text} (h : t = [] ∨ t.head?.any isBlank = true) :
    t.head?.any isDecimalDigit = false := by
  cases t with
  | nil => rfl
  | cons c t => exact isDecimalDigit_eq_false_of_isBlank (h.resolve_left (List.cons_ne_nil _ _))

/-! ## Offsets -/

theorem rows?_eq_some {t r : Text} (h : rows? t = some r) :
    ∃ w, t = w ++ r ∧ MadeOf "rows" w := by
  rw [rows?, Option.orElse_eq_orElse, Option.orElse_eq_or, Option.or_eq_some_iff] at h
  rcases h with h | ⟨-, h⟩
  · obtain ⟨w, rfl, hw⟩ := keyword?_eq_some_iff.1 h
    exact ⟨w, rfl, .of_spells hw (by decide)⟩
  · obtain ⟨w, rfl, hw⟩ := keyword?_eq_some_iff.1 h
    exact ⟨w, rfl, .of_spells hw (by decide)⟩

theorem madeOf_of_endsWithRows {t : Text} (h : endsWithRows t = true) : MadeOf "rows" t := by
  rw [endsWithRows, Bool.or_eq_true, Option.any_eq_true] at h
  rcases h with h | ⟨r, h, hr⟩
  · exact .of_allBlank h
  · obtain ⟨u, hu, hrows⟩ := Option.bind_eq_some_iff.1 h
    obtain ⟨g, -, hg, -, rfl⟩ := spaced?_eq_some_iff.1 hu
    obtain ⟨w, rfl, hw⟩ := rows?_eq_some hrows
    exact (MadeOf.of_allBlank hg).append (hw.append (.of_allBlank hr))

theorem head?_any_isBlank_of_isOffset {t : Text} (h : isOffset t = true) :
    t.head?.any isBlank = true := by
  rw [isOffset, Option.any_eq_true] at h
  obtain ⟨d, h, -⟩ := h
  obtain ⟨u, h, -⟩ := Option.bind_eq_some_iff.1 h
  obtain ⟨v, h, -⟩ := Option.bind_eq_some_iff.1 h
  obtain ⟨w, h, -⟩ := Option.bind_eq_some_iff.1 h
  obtain ⟨g, hne, hg, -, rfl⟩ := spaced?_eq_some_iff.1 h
  cases g with
  | nil => exact absurd rfl hne
  | cons c g =>
    rw [allBlank, List.all_cons, Bool.and_eq_true] at hg
    exact hg.1

theorem madeOf_of_isOffset {t : Text} (h : isOffset t = true) : MadeOf "ofsetrw" t := by
  rw [isOffset, Option.any_eq_true] at h
  obtain ⟨⟨ds, r⟩, h, hr⟩ := h
  obtain ⟨v, h, hd⟩ := Option.bind_eq_some_iff.1 h
  rw [Option.bind_assoc] at h
  obtain ⟨u, hu, hv⟩ := Option.bind_eq_some_iff.1 h
  obtain ⟨g, -, hg, -, rfl⟩ := spaced?_eq_some_iff.1 hu
  obtain ⟨head, hgap, -, rfl⟩ := keyword?_bind_spaced?_eq_some_iff.1 hv
  obtain ⟨hds, -, rfl⟩ := digits?_eq_some_iff.1 hd
  have hrows : MadeOf "ofsetrw" r := (madeOf_of_endsWithRows hr).mono (by decide)
  exact (MadeOf.of_allBlank hg).append
    ((hgap.madeOf (by decide)).append ((MadeOf.of_digits hds.2).append hrows))

/-! ## The short clause -/

/-- The number or `ALL` at the head of a text, and what follows. -/
def written? (t : Text) : Option (Text × Text) :=
  digits? t <|> (keyword? "ALL" t).map fun rest => (t.take (t.length - rest.length), rest)

theorem written?_eq_some {t written rest : Text} (h : written? t = some (written, rest)) :
    t = written ++ rest ∧ (IsDigitRun written ∨ Spells "ALL" written) := by
  rw [written?, Option.orElse_eq_orElse, Option.orElse_eq_or, Option.or_eq_some_iff] at h
  rcases h with h | ⟨-, h⟩
  · obtain ⟨hd, -, rfl⟩ := digits?_eq_some_iff.1 h
    exact ⟨rfl, .inl hd⟩
  · obtain ⟨r, hr, heq⟩ := Option.map_eq_some_iff.1 h
    obtain ⟨w, rfl, hw⟩ := keyword?_eq_some_iff.1 hr
    obtain ⟨rfl, rfl⟩ := Prod.mk.inj heq
    have : (w ++ r).take ((w ++ r).length - r.length) = w := by simp
    rw [this]
    exact ⟨rfl, .inr hw⟩

/-- The parts of `LIMIT n` or `LIMIT ALL` at the end of a text, with the offset after it. -/
structure LimitClause (head written tail : Text) : Prop where
  head : KeywordGap "LIMIT" head
  written : IsDigitRun written ∨ Spells "ALL" written
  tail : allBlank tail = true ∨ isOffset tail = true

namespace LimitClause

variable {head written tail : Text}

theorem blank_tail (h : LimitClause head written tail) :
    tail = [] ∨ tail.head?.any isBlank = true := by
  rcases h.tail with h | h
  · cases tail with
    | nil => exact .inl rfl
    | cons c t =>
      rw [allBlank, List.all_cons, Bool.and_eq_true] at h
      exact .inr h.1
  · exact .inr (head?_any_isBlank_of_isOffset h)

theorem madeOf_tail (h : LimitClause head written tail) : MadeOf "ofsetrw" tail :=
  h.tail.elim .of_allBlank madeOf_of_isOffset

theorem madeOf_written (h : LimitClause head written tail) : MadeOf "al" written :=
  h.written.elim (fun h => .of_digits h.2) fun h => .of_spells h (by decide)

theorem madeOf (h : LimitClause head written tail) :
    MadeOf "limtaofserw" (head ++ (written ++ tail)) :=
  (h.head.madeOf (by decide)).append
    ((h.madeOf_written.mono (by decide)).append (h.madeOf_tail.mono (by decide)))

theorem head?_any_isBlank (h : LimitClause head written tail) :
    (written ++ tail).head?.any isBlank = false := by
  rcases h.written with hd | ha
  · exact hd.head?_any_isBlank tail
  · exact ha.head?_any_isBlank (by decide) tail

theorem replace (h : LimitClause head written tail) {ds : Text} (hds : IsDigitRun ds) :
    LimitClause head ds tail := ⟨h.head, .inl hds, h.tail⟩

theorem read (h : LimitClause head written tail) :
    written? (written ++ tail) = some (written, tail) := by
  rcases h.written with hd | ha
  · rw [written?, digits?_append hd (head?_any_isDecimalDigit_of_blank h.blank_tail)]
    rfl
  · have hnone : digits? (written ++ tail) = none := by
      cases written with
      | nil => cases ha
      | cons c w =>
        have hc : foldLetter c = 'a' := (List.cons.inj ha).1
        have : isDecimalDigit c = false :=
          isDecimalDigit_eq_false_of_isLower_foldLetter (by rw [hc]; rfl)
        simp [digits?, this]
    rw [written?, hnone, keyword?_append ha]
    simp

end LimitClause

theorem trailingLimit_eq_some_iff {before after : Text} {r : WrittenBound × Text} :
    trailingLimit before after = some r ↔
      atWordStart before = true ∧ ∃ head written tail, LimitClause head written tail ∧
        after = head ++ (written ++ tail) ∧
        r = (⟨written, ⟨before.length + head.length,
          before.length + head.length + written.length⟩⟩, []) := by
  unfold trailingLimit
  constructor
  · intro h
    split at h
    · rename_i hb
      refine ⟨hb, ?_⟩
      obtain ⟨t, ht, h⟩ := Option.bind_eq_some_iff.1 h
      obtain ⟨head, hgap, -, rfl⟩ := keyword?_bind_spaced?_eq_some_iff.1 ht
      obtain ⟨⟨written, tail⟩, hw, h⟩ := Option.bind_eq_some_iff.1 h
      obtain ⟨rfl, hwritten⟩ := written?_eq_some hw
      simp only [offsetOf_append, Bool.or_eq_true] at h
      split at h
      · rename_i htail
        exact ⟨head, written, tail, ⟨hgap, hwritten, htail⟩, rfl, (Option.some.inj h).symm⟩
      · cases h
    · cases h
  · rintro ⟨hb, head, written, tail, hc, rfl, rfl⟩
    have hhead : (keyword? "LIMIT" (head ++ (written ++ tail))).bind spaced? =
        some (written ++ tail) :=
      keyword?_bind_spaced?_eq_some_iff.2 ⟨head, hc.head, hc.head?_any_isBlank, rfl⟩
    rw [if_pos hb]
    refine Option.bind_eq_some_iff.2 ⟨_, hhead, Option.bind_eq_some_iff.2 ⟨_, hc.read, ?_⟩⟩
    simp only [offsetOf_append]
    exact if_pos (by simpa using hc.tail)

/-! ## The long clause -/

/-- The text after `FETCH FIRST` or `FETCH NEXT` and the blanks behind it. -/
def fetchHead? (t : Text) : Option Text :=
  (keywords? "FETCH" "FIRST" t <|> keywords? "FETCH" "NEXT" t).bind spaced?

theorem fetchHead?_eq_some_iff {t r : Text} :
    fetchHead? t = some r ↔ ∃ f n, KeywordGap "FETCH" f ∧
      (KeywordGap "FIRST" n ∨ KeywordGap "NEXT" n) ∧ r.head?.any isBlank = false ∧
      t = f ++ (n ++ r) := by
  unfold fetchHead?
  constructor
  · intro h
    obtain ⟨u, hu, hr⟩ := Option.bind_eq_some_iff.1 h
    rw [Option.orElse_eq_orElse, Option.orElse_eq_or, Option.or_eq_some_iff] at hu
    rcases hu with hu | ⟨-, hu⟩
    · obtain ⟨f, n, hf, hn, hhead, rfl⟩ := (keywords?_bind_spaced?_eq_some_iff (by decide)).1
        (Option.bind_eq_some_iff.2 ⟨u, hu, hr⟩)
      exact ⟨f, n, hf, .inl hn, hhead, rfl⟩
    · obtain ⟨f, n, hf, hn, hhead, rfl⟩ := (keywords?_bind_spaced?_eq_some_iff (by decide)).1
        (Option.bind_eq_some_iff.2 ⟨u, hu, hr⟩)
      exact ⟨f, n, hf, .inr hn, hhead, rfl⟩
  · rintro ⟨f, n, hf, hn | hn, hhead, rfl⟩
    · obtain ⟨u, hu, hr⟩ := Option.bind_eq_some_iff.1
        ((keywords?_bind_spaced?_eq_some_iff (by decide)).2 ⟨f, n, hf, hn, hhead, rfl⟩)
      rw [hu]
      exact hr
    · obtain ⟨u, hu, hr⟩ := Option.bind_eq_some_iff.1
        ((keywords?_bind_spaced?_eq_some_iff (by decide)).2 ⟨f, n, hf, hn, hhead, rfl⟩)
      have hfirst : keywords? "FETCH" "FIRST" (f ++ (n ++ r)) = none := by
        obtain ⟨w, g, rfl, hw, hne, hg⟩ := hn.parts
        have hnr := hn.head?_any_isBlank (by decide) r
        rw [keywords?, (keyword?_bind_spaced?_eq_some_iff).2 ⟨f, hf, hnr, rfl⟩]
        cases w with
        | nil => cases hw
        | cons c w =>
          have hc : foldLetter c = 'n' := (List.cons.inj hw).1
          have : foldLetter 'F' ≠ foldLetter c := by
            rw [hc]
            decide
          exact if_neg fun hb => this (eq_of_beq hb)
      rw [hfirst, hu]
      exact hr

/-- Whether a text is the end of a `FETCH` clause, behind its number. -/
def isFetchEnd (t : Text) : Bool := ((rows? t).bind spaced? |>.bind fetchEnd?).any allBlank

theorem madeOf_of_isFetchEnd {t : Text} (h : isFetchEnd t = true) : MadeOf "rowsnlyithe" t := by
  rw [isFetchEnd, Option.any_eq_true] at h
  obtain ⟨e, h, he⟩ := h
  obtain ⟨u, h, hu⟩ := Option.bind_eq_some_iff.1 h
  obtain ⟨r, hr, hspaced⟩ := Option.bind_eq_some_iff.1 h
  obtain ⟨w, rfl, hw⟩ := rows?_eq_some hr
  obtain ⟨g, -, hg, -, rfl⟩ := spaced?_eq_some_iff.1 hspaced
  have hend : MadeOf "rowsnlyithe" u := by
    rw [fetchEnd?, Option.orElse_eq_orElse, Option.orElse_eq_or, Option.or_eq_some_iff] at hu
    rcases hu with hu | ⟨-, hu⟩
    · obtain ⟨o, rfl, ho⟩ := keyword?_eq_some_iff.1 hu
      exact (MadeOf.of_spells ho (by decide)).append (.of_allBlank he)
    · obtain ⟨v, hv, htie⟩ := Option.bind_eq_some_iff.1 hu
      obtain ⟨a, ha, -, rfl⟩ := keyword?_bind_spaced?_eq_some_iff.1 hv
      obtain ⟨o, rfl, ho⟩ := keyword?_eq_some_iff.1 htie
      exact (ha.madeOf (by decide)).append
        ((MadeOf.of_spells ho (by decide)).append (.of_allBlank he))
  exact (hw.mono (by decide)).append ((MadeOf.of_allBlank hg).append hend)

/-- The parts of `FETCH FIRST n ROWS ONLY` at the end of a text; without a number it is one row. -/
structure FetchClause (head written tail : Text) : Prop where
  head : ∃ f n, head = f ++ n ∧ KeywordGap "FETCH" f ∧ (KeywordGap "FIRST" n ∨ KeywordGap "NEXT" n)
  tail : written = [] ∧ isFetchEnd tail = true ∨
    IsDigitRun written ∧ ∃ r, spaced? tail = some r ∧ isFetchEnd r = true

namespace FetchClause

variable {head written tail : Text}

theorem madeOf_tail (h : FetchClause head written tail) : MadeOf "rowsnlyithe" tail := by
  rcases h.tail with ⟨-, hend⟩ | ⟨-, r, hr, hend⟩
  · exact madeOf_of_isFetchEnd hend
  · obtain ⟨g, -, hg, -, rfl⟩ := spaced?_eq_some_iff.1 hr
    exact (MadeOf.of_allBlank hg).append (madeOf_of_isFetchEnd hend)

theorem madeOf_written (h : FetchClause head written tail) : MadeOf [] written := by
  rcases h.tail with ⟨rfl, -⟩ | ⟨hd, -⟩
  · exact fun c hc => nomatch hc
  · exact .of_digits hd.2

theorem madeOf (h : FetchClause head written tail) :
    MadeOf "fetchirsnxowly" (head ++ (written ++ tail)) := by
  obtain ⟨f, n, rfl, hf, hn⟩ := h.head
  have hn : MadeOf "fetchirsnxowly" n :=
    hn.elim (fun hn => hn.madeOf (by decide)) fun hn => hn.madeOf (by decide)
  exact ((hf.madeOf (by decide)).append hn).append
    ((h.madeOf_written.mono (by decide)).append (h.madeOf_tail.mono (by decide)))

theorem replace (h : FetchClause head written tail) (hw : written ≠ []) {ds : Text}
    (hds : IsDigitRun ds) : FetchClause head ds tail :=
  ⟨h.head, .inr ⟨hds, (h.tail.resolve_left fun hn => hw hn.1).2⟩⟩

end FetchClause

/-- A clause whose number has been read reads back. -/
theorem trailingFetch_append {before head written tail : Text} (hb : atWordStart before = true)
    (h : FetchClause head written tail) (hw : written ≠ []) :
    trailingFetch before (head ++ (written ++ tail)) = some (⟨written,
      ⟨before.length + head.length, before.length + head.length + written.length⟩⟩, []) := by
  obtain ⟨f, n, rfl, hf, hn⟩ := h.head
  obtain ⟨hd, r, hr, hend⟩ := h.tail.resolve_left fun hn => hw hn.1
  have hhead : fetchHead? (f ++ n ++ (written ++ tail)) = some (written ++ tail) :=
    fetchHead?_eq_some_iff.2 ⟨f, n, hf, hn, hd.head?_any_isBlank tail, List.append_assoc ..⟩
  have htail : tail.head?.any isDecimalDigit = false := by
    cases tail with
    | nil => rfl
    | cons c t =>
      refine isDecimalDigit_eq_false_of_isBlank (by_contra fun hc => ?_)
      rw [spaced?, if_neg hc] at hr
      cases hr
  unfold trailingFetch
  rw [if_pos hb]
  refine Option.bind_eq_some_iff.2 ⟨_, hhead, ?_⟩
  simp only [digits?_append hd htail, offsetOf_append, Option.bind_some, hr, Option.map_some]
  exact if_pos hend

theorem trailingFetch_eq_some {before after : Text} {r : WrittenBound × Text}
    (h : trailingFetch before after = some r) :
    atWordStart before = true ∧ ∃ head written tail, FetchClause head written tail ∧
      after = head ++ (written ++ tail) ∧
      r = (⟨written, ⟨before.length + head.length,
        before.length + head.length + written.length⟩⟩, []) := by
  unfold trailingFetch at h
  split at h
  · rename_i hb
    refine ⟨hb, ?_⟩
    obtain ⟨t, ht, hread⟩ := Option.bind_eq_some_iff.1 h
    obtain ⟨f, n, hf, hn, -, rfl⟩ := fetchHead?_eq_some_iff.1 ht
    rw [← List.append_assoc] at hread ⊢
    simp only [offsetOf_append] at hread
    split at hread
    · rename_i ds r hdr
      obtain ⟨⟨ds', u⟩, hd, hu⟩ := Option.bind_eq_some_iff.1 hdr
      obtain ⟨r', hr', heq⟩ := Option.map_eq_some_iff.1 hu
      obtain ⟨rfl, rfl⟩ := Prod.mk.inj heq
      obtain ⟨hds, -, rfl⟩ := digits?_eq_some_iff.1 hd
      split at hread
      · rename_i hend
        exact ⟨f ++ n, ds', u, ⟨⟨f, n, rfl, hf, hn⟩, .inr ⟨hds, r', hr', hend⟩⟩, rfl,
          (Option.some.inj hread).symm⟩
      · cases hread
    · split at hread
      · rename_i hend
        exact ⟨f ++ n, [], t, ⟨⟨f, n, rfl, hf, hn⟩, .inl ⟨rfl, hend⟩⟩, rfl,
          (Option.some.inj hread).symm⟩
      · cases hread
  · cases h

/-! ## Where a clause begins -/

/-- Regardless of case, a letter stands at one offset and nowhere else. -/
def OnlyAt (x : Char) (k : Nat) (t : Text) : Prop :=
  (t.map foldLetter).count x = 1 ∧ (t.map foldLetter).idxOf x = k

instance (x : Char) (k : Nat) (t : Text) : Decidable (OnlyAt x k t) :=
  inferInstanceAs (Decidable (_ ∧ _))

theorem OnlyAt.eq_nil {x : Char} {k : Nat} {z t : Text} (hz : OnlyAt x k (z ++ t))
    (ht : OnlyAt x k t) : z = [] := by
  obtain ⟨hcz, hiz⟩ := hz
  obtain ⟨hct, hit⟩ := ht
  rw [List.map_append] at hcz hiz
  rw [List.count_append, hct] at hcz
  have hx : x ∉ z.map foldLetter := List.count_eq_zero.1 (by omega)
  rw [List.idxOf_append, if_neg hx, hit, List.length_map] at hiz
  exact List.length_eq_zero_iff.1 (by omega)

theorem OnlyAt.mem {x : Char} {k : Nat} {t : Text} (h : OnlyAt x k t) :
    ∃ c ∈ t, foldLetter c = x :=
  List.mem_map.1 (List.count_pos_iff.1 (by rw [h.1]; decide))

/-- A letter that the first keyword has once, and what follows it does not have. -/
theorem KeywordGap.onlyAt {x : Char} {k : Nat} {word head r letters : Text}
    (h : KeywordGap word head) (hword : OnlyAt x k word) (hx : x.isLower = true)
    (hr : MadeOf letters r) (hl : x ∉ letters) : OnlyAt x k (head ++ r) := by
  obtain ⟨w, g, rfl, hw, -, hg⟩ := h.parts
  have hrest : x ∉ (g ++ r).map foldLetter := by
    rw [List.mem_map]
    rintro ⟨c, hc, hcx⟩
    exact ((MadeOf.of_allBlank hg).append hr).foldLetter_ne hx hl hc hcx
  have hmem : x ∈ word.map foldLetter := List.count_pos_iff.1 (by rw [hword.1]; decide)
  rw [List.append_assoc, OnlyAt, List.map_append, hw, List.count_append,
    List.count_eq_zero.2 hrest, List.idxOf_append, if_pos hmem]
  exact hword

theorem LimitClause.onlyAt {head written tail : Text} (h : LimitClause head written tail) :
    OnlyAt 'm' 2 (head ++ (written ++ tail)) := by
  have hwritten : MadeOf "alofsetrw" written := h.madeOf_written.mono (by decide)
  exact h.head.onlyAt (by decide) rfl (hwritten.append (h.madeOf_tail.mono (by decide))) (by decide)

theorem FetchClause.onlyAt {head written tail : Text} (h : FetchClause head written tail) :
    OnlyAt 'c' 3 (head ++ (written ++ tail)) := by
  obtain ⟨f, n, rfl, hf, hn⟩ := h.head
  have hn : MadeOf "firstnxowlyhe" n :=
    hn.elim (fun hn => hn.madeOf (by decide)) fun hn => hn.madeOf (by decide)
  rw [List.append_assoc]
  exact hf.onlyAt (by decide) rfl
    (hn.append ((h.madeOf_written.mono (by decide)).append (h.madeOf_tail.mono (by decide))))
    (by decide)

/-- Where each text that is read has a letter at one offset only, a place that is read is the
first. -/
theorem firstHit?_of_onlyAt {α : Type} (read : Reading α) {x : Char} {k : Nat}
    (honly : ∀ {before after r}, read before after = some r → OnlyAt x k after)
    {a b rest : Text} {v : α} (h : read a.reverse b = some (v, rest)) :
    ∃ hit, firstHit? read (a ++ b) = some hit ∧ hit.value = v := by
  have hb : b ≠ [] := by
    rintro rfl
    obtain ⟨c, hc, -⟩ := (honly h).mem
    cases hc
  obtain ⟨hit, hhit, hv, -⟩ := firstHit?_of_read hb h fun a' b' hab hlt => by
    rw [Option.eq_none_iff_forall_ne_some]
    intro r hr
    obtain ⟨z, rfl, rfl⟩ | ⟨z, rfl, rfl⟩ := List.append_eq_append_iff.1 hab
    · rw [List.length_append] at hlt
      omega
    · obtain rfl := (honly hr).eq_nil (honly h)
      simp at hlt
  exact ⟨hit, hhit, hv⟩

theorem onlyAt_of_trailingLimit {before after : Text} {r : WrittenBound × Text}
    (h : trailingLimit before after = some r) : OnlyAt 'm' 2 after := by
  obtain ⟨-, head, written, tail, hc, rfl, -⟩ := trailingLimit_eq_some_iff.1 h
  exact hc.onlyAt

theorem onlyAt_of_trailingFetch {before after : Text} {r : WrittenBound × Text}
    (h : trailingFetch before after = some r) : OnlyAt 'c' 3 after := by
  obtain ⟨-, head, written, tail, hc, rfl, -⟩ := trailingFetch_eq_some h
  exact hc.onlyAt

/-- A text that ends with the long clause does not end with the short one. -/
theorem firstHit?_trailingLimit_eq_none {a head written tail : Text}
    (h : FetchClause head written tail) :
    firstHit? trailingLimit (a ++ (head ++ (written ++ tail))) = none := by
  rw [firstHit?_eq_none_iff]
  intro a' b' hab _
  rw [Option.eq_none_iff_forall_ne_some]
  intro r hr
  obtain ⟨-, head', written', tail', hlimit, rfl, -⟩ := trailingLimit_eq_some_iff.1 hr
  obtain ⟨z, -, hz⟩ | ⟨z, -, hz⟩ := List.append_eq_append_iff.1 hab
  · obtain ⟨c, hc, hm⟩ := hlimit.onlyAt.mem
    have hc : c ∈ head ++ (written ++ tail) := hz ▸ List.mem_append_right z hc
    exact h.madeOf.foldLetter_ne rfl (by decide) hc hm
  · obtain ⟨c, hc, hm⟩ := h.onlyAt.mem
    have hc : c ∈ head' ++ (written' ++ tail') := hz ▸ List.mem_append_right z hc
    exact hlimit.madeOf.foldLetter_ne rfl (by decide) hc hm

end QueryGate
