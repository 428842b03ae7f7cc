import QueryGate.Proofs.Gate.OrdinaryNames
import QueryGate.Proofs.Sql.ColumnTokens
import QueryGate.Proofs.Sql.SelectTokens
import QueryGate.Proofs.Sql.Tokenizer

/-!
# Select queries

The simplest query there is: `SELECT`, some columns with commas between them, `FROM`, and one table,
all of them ordinary names, bare or in quotes (`SelectQuery`). No other word of the language stands
in it (`SelectQuery.lacksWord`) and no other mark than blanks, commas and double quotes
(`SelectQuery.not_mem_text`), so a reader of any other word or mark reads nothing.
-/

namespace QueryGate

/-! ## Tokens -/

/-- Names with commas between them. -/
def listTokens : List Identifier → List Token
  | [] => []
  | [i] => [i.token]
  | i :: j :: is => i.token :: .other ',' ',' :: .other ' ' ' ' :: listTokens (j :: is)

/-- Columns that are selected from a table. -/
structure SelectQuery where
  columns : List Identifier
  table : Identifier
  columns_ne : columns ≠ []
  ordinary : ∀ i ∈ table :: columns, OrdinaryName i.name

namespace SelectQuery

/-- What stands in front of `FROM`. -/
def front (q : SelectQuery) : List Token :=
  .word "SELECT" :: .other ' ' ' ' :: (listTokens q.columns ++ [.other ' ' ' '])

def tokens (q : SelectQuery) : List Token :=
  q.front ++ [.word "FROM", .other ' ' ' ', q.table.token]

def text (q : SelectQuery) : Text := textOf q.tokens

end SelectQuery

theorem OrdinaryName.fit {i : Identifier} (h : OrdinaryName i.name) : i.token.Fit := by
  have hword := h.isWord
  obtain ⟨n, quoted⟩ := i
  cases quoted with
  | false => exact hword
  | true =>
    refine ⟨hword.1, fun c hc => ⟨isWordChar_ne_quote (hword.2 c hc), ?_⟩⟩
    rintro rfl
    exact absurd (hword.2 _ hc) (by decide)

/-- An ordinary name is read back. -/
theorem OrdinaryName.read? {i : Identifier} (h : OrdinaryName i.name) {isStart : Char → Bool}
    (hstart : ∀ c, isNameStart c = true → isStart c = true) :
    Identifier.read? isStart i.token.mask = some (i, []) := by
  obtain ⟨n, quoted⟩ := i
  cases quoted with
  | true =>
    have := Identifier.read?_inQuotes isStart h.isWord.1
      (fun hc => isWordChar_ne_quote (h.isWord.2 _ hc) rfl) []
    rwa [List.append_nil] at this
  | false =>
    obtain ⟨c, n, rfl⟩ := List.exists_cons_of_ne_nil h.isWord.1
    have hc : isNameStart c = true := h.start
    have hparts : ∀ d ∈ n, isNamePart d = true := fun d hd =>
      isNamePart_of_isWordChar (h.isWord.2 d (List.mem_cons_of_mem c hd))
    have hquote : c ≠ '"' := by
      rintro rfl
      exact absurd hc (by decide)
    change Identifier.read? isStart (c :: n) = _
    rw [Identifier.read?]
    simp only [beq_iff_eq, hquote, ite_false, hstart c hc, ite_true]
    rw [List.takeWhile_eq_self_iff.2 hparts, List.dropWhile_eq_nil_iff.2 hparts]

theorem Identifier.isInName_of_mem_mask (i : Identifier) (h : OrdinaryName i.name) {c : Char}
    (hc : c ∈ i.token.mask) : isInName c = true := by
  obtain ⟨n, quoted⟩ := i
  cases quoted with
  | false => simp [isInName, h.isWord.2 c hc]
  | true =>
    rcases List.mem_cons.1 hc with rfl | hc
    · rfl
    · rcases List.mem_append.1 hc with hc | hc
      · simp [isInName, h.isWord.2 c hc]
      · rw [List.mem_singleton.1 hc]
        rfl

theorem Identifier.suffix_of_read? {isStart : Char → Bool} {t rest : Text} {i : Identifier}
    (h : Identifier.read? isStart t = some (i, rest)) : rest <:+ t := by
  cases t with
  | nil => cases h
  | cons c t =>
    refine .trans ?_ (List.suffix_cons c t)
    rw [Identifier.read?] at h
    split at h
    · simp only at h
      split at h
      · cases h
      · rename_i d r hdrop
        split at h
        · cases h
        · obtain ⟨-, rfl⟩ := Prod.mk.inj (Option.some.inj h)
          have hr : d :: r <:+ t := hdrop ▸ List.dropWhile_suffix _
          exact (List.suffix_cons d r).trans hr
    · split at h
      · obtain ⟨-, rfl⟩ := Prod.mk.inj (Option.some.inj h)
        exact List.dropWhile_suffix _
      · cases h

theorem QualifiedName.qualifier_eq_none {isStart : Char → Bool} {t : Text} (ht : '.' ∉ t) {n : QualifiedName}
    (h : QualifiedName.read? isStart t = some n) : n.qualifier = none := by
  unfold QualifiedName.read? at h
  obtain ⟨⟨first, r⟩, hfirst, h⟩ := Option.bind_eq_some_iff.1 h
  simp only at h
  split at h
  · obtain rfl := Option.some.inj h
    rfl
  · rename_i r' hdot
    obtain ⟨y, hy, -⟩ := dot?_eq_some hdot
    have hmem : '.' ∈ skipBlanks r := by
      rw [hy]
      exact List.mem_cons_self
    have hr : r <:+ t := Identifier.suffix_of_read? hfirst
    exact absurd (hr.subset ((List.dropWhile_suffix _).subset hmem)) ht

theorem enclosingCall?_of_not_mem {depth : Nat} {before : Text} (h : '(' ∉ before) :
    enclosingCall? depth before = none := by
  induction before generalizing depth with
  | nil => rfl
  | cons c before ih =>
    rw [List.mem_cons, not_or] at h
    unfold enclosingCall?
    split
    · exact ih h.2
    · rw [if_neg (by simpa using Ne.symm h.1)]
      exact ih h.2

/-- Wherever a word begins that spells a certain one, the text goes on with it. -/
def LacksWord (w t : Text) : Prop :=
  ∀ a x r, t = a ++ (x ++ r) → atWordStart a.reverse = true → Spells w x → atWordEnd r = false

namespace LacksWord

variable {w t a b : Text}

/-- The word is nowhere read with a blank behind it. -/
theorem keyword?_spaced (h : LacksWord w t) (ht : t = a ++ b)
    (ha : atWordStart a.reverse = true) : (keyword? w b).bind spaced? = none := by
  rw [Option.eq_none_iff_forall_ne_some]
  intro rest hrest
  obtain ⟨r, hr, hspaced⟩ := Option.bind_eq_some_iff.1 hrest
  obtain ⟨x, rfl, hx⟩ := keyword?_eq_some_iff.1 hr
  have hword := h a x r ht ha hx
  rw [atWordEnd, head?_any_isWordChar_of_spaced? hspaced] at hword
  cases hword

theorem keywords?_eq_none (h : LacksWord w t) {v : Text} (ht : t = a ++ b)
    (ha : atWordStart a.reverse = true) : keywords? w v b = none := by
  rw [keywords?, h.keyword?_spaced ht ha]
  rfl

theorem hits_oneWord {words : List Text} (h : ∀ w ∈ words, LacksWord w t) :
    hits (oneWord words) t = [] := by
  refine hitsFrom_eq_nil_iff.2 fun a b hab _ => ?_
  rw [List.append_nil, Option.eq_none_iff_forall_ne_some]
  rintro ⟨v, rest⟩ hread
  obtain ⟨hstart, hb, ⟨w, hw, hs⟩, hend⟩ := oneWord_eq_some hread
  have hno := h w hw a v rest (by rw [hab, hb]) hstart hs
  rw [atWordEnd, hend] at hno
  cases hno

end LacksWord

theorem isWord_select : IsWord "SELECT" := ⟨by decide, by decide⟩

theorem isWord_from : IsWord "FROM" := ⟨by decide, by decide⟩

theorem fit_blank : (Token.other ' ' ' ').Fit := ⟨by decide, by decide⟩

theorem fit_comma : (Token.other ',' ',').Fit := ⟨by decide, by decide⟩

theorem lexed_listTokens {is : List Identifier} {ts : List Token}
    (his : ∀ i ∈ is, OrdinaryName i.name) (hts : Lexed (.other ' ' ' ' :: ts)) :
    Lexed (listTokens is ++ .other ' ' ' ' :: ts) := by
  induction is with
  | nil => exact hts
  | cons i is ih =>
    have hfit := (his i List.mem_cons_self).fit
    have hrest := ih fun j hj => his j (List.mem_cons_of_mem i hj)
    cases is with
    | nil => exact hts.cons hfit fun _ v us => nofun
    | cons j is =>
      exact ((hrest.cons_other fit_blank).cons_other fit_comma).cons hfit fun _ v us => nofun

theorem mem_listTokens {is : List Identifier} {t : Token} (ht : t ∈ listTokens is) :
    (∃ i ∈ is, t = i.token) ∨ t = .other ',' ',' ∨ t = .other ' ' ' ' := by
  induction is with
  | nil => cases ht
  | cons i is ih =>
    cases is with
    | nil => exact .inl ⟨i, List.mem_cons_self, List.mem_singleton.1 ht⟩
    | cons j is =>
      rw [listTokens] at ht
      simp only [List.mem_cons] at ht
      rcases ht with rfl | rfl | rfl | ht
      · exact .inl ⟨i, List.mem_cons_self, rfl⟩
      · exact .inr (.inl rfl)
      · exact .inr (.inr rfl)
      · rcases ih ht with ⟨k, hk, rfl⟩ | hmark
        · exact .inl ⟨k, List.mem_cons_of_mem i hk, rfl⟩
        · exact .inr hmark

namespace SelectQuery

variable (q : SelectQuery)

/-- What the tokens of a select query are. -/
theorem mem_front {t : Token} (ht : t ∈ q.front) :
    t = .word "SELECT" ∨ (∃ i ∈ q.columns, t = i.token) ∨ t = .other ',' ',' ∨
      t = .other ' ' ' ' := by
  rw [front] at ht
  simp only [List.mem_cons, List.mem_append, List.not_mem_nil, or_false] at ht
  rcases ht with rfl | rfl | ht | rfl
  · exact .inl rfl
  · exact .inr (.inr (.inr rfl))
  · exact .inr (mem_listTokens ht)
  · exact .inr (.inr (.inr rfl))

theorem mem_tokens {t : Token} (ht : t ∈ q.tokens) :
    t = .word "SELECT" ∨ t = .word "FROM" ∨ (∃ i ∈ q.table :: q.columns, t = i.token) ∨
      t = .other ',' ',' ∨ t = .other ' ' ' ' := by
  rw [tokens] at ht
  rcases List.mem_append.1 ht with ht | ht
  · rcases q.mem_front ht with rfl | ⟨i, hi, rfl⟩ | hmark
    · exact .inl rfl
    · exact .inr (.inr (.inl ⟨i, List.mem_cons_of_mem _ hi, rfl⟩))
    · exact .inr (.inr (.inr hmark))
  · simp only [List.mem_cons, List.not_mem_nil, or_false] at ht
    rcases ht with rfl | rfl | rfl
    · exact .inr (.inl rfl)
    · exact .inr (.inr (.inr (.inr rfl)))
    · exact .inr (.inr (.inl ⟨q.table, List.mem_cons_self, rfl⟩))

theorem lexed : Lexed q.tokens := by
  have htable := (q.ordinary q.table List.mem_cons_self).fit
  have hcolumns : ∀ i ∈ q.columns, OrdinaryName i.name := fun i hi =>
    q.ordinary i (List.mem_cons_of_mem _ hi)
  have hend : Lexed [.other ' ' ' ', q.table.token] :=
    (Lexed.nil.cons htable fun _ _ _ => nofun).cons_other fit_blank
  have hfrom : Lexed [.other ' ' ' ', .word "FROM", .other ' ' ' ', q.table.token] :=
    (hend.cons (t := .word "FROM") isWord_from fun _ _ _ => nofun).cons_other fit_blank
  have hlist := (lexed_listTokens hcolumns hfrom).cons_other fit_blank
  have hall := hlist.cons (t := .word "SELECT") isWord_select fun _ _ _ => nofun
  simpa [tokens, front] using hall

theorem quotesHoldWords : QuotesHoldWords q.tokens := by
  intro w hw
  rcases q.mem_tokens hw with h | h | ⟨i, hi, h⟩ | h | h
  case inr.inr.inl =>
    obtain ⟨n, quoted⟩ := i
    cases quoted with
    | false => cases h
    | true =>
      cases h
      exact (q.ordinary _ hi).isWord
  all_goals cases h

theorem mem_text {c : Char} (hc : c ∈ q.text) : isInName c = true ∨ c = ',' ∨ c = ' ' := by
  obtain ⟨t, ht, hc⟩ := List.mem_flatMap.1 hc
  have hword {w : Text} (hw : IsWord w) (hc : c ∈ (Token.word w).text) : isInName c = true := by
    simp [isInName, hw.2 c hc]
  rcases q.mem_tokens ht with rfl | rfl | ⟨i, hi, rfl⟩ | rfl | rfl
  · exact .inl (hword isWord_select hc)
  · exact .inl (hword isWord_from hc)
  · exact .inl (i.isInName_of_mem_mask (q.ordinary i hi) (i.mask_token ▸ hc))
  · exact .inr (.inl (List.mem_singleton.1 hc))
  · exact .inr (.inr (List.mem_singleton.1 hc))

/-- No other mark stands in a select query. -/
theorem not_mem_text {c : Char} (hc : (isInName c || c == ',' || c == ' ') = false) :
    c ∉ q.text := by
  intro hmem
  rcases q.mem_text hmem with h | rfl | rfl
  · rw [h] at hc
    cases hc
  · cases hc
  · cases hc

theorem not_mem_blotOf {c : Char}
    (hc : (isInName c || c == ',' || c == ' ' || c == maskChar) = false) :
    c ∉ blotOf q.tokens := by
  intro hmem
  obtain ⟨t, ht, hmem⟩ := List.mem_flatMap.1 hmem
  have hno : (isInName c || c == ',' || c == ' ') = false := (Bool.or_eq_false_iff.1 hc).1
  have hmask : c ≠ maskChar := by simpa using (Bool.or_eq_false_iff.1 hc).2
  refine q.not_mem_text hno (List.mem_flatMap.2 ⟨t, ht, ?_⟩)
  cases t with
  | word w => exact hmem
  | other d m =>
    rcases q.mem_tokens ht with h | h | ⟨⟨n, quoted⟩, -, h⟩ | h | h
    case inr.inr.inl => cases quoted <;> cases h
    all_goals cases h
    all_goals exact hmem
  | quoted w =>
    have hquote : c ≠ '"' := by
      rintro rfl
      cases hc
    simp [Token.blot, inQuotes, hquote, hmask] at hmem

theorem mask_eq_text : maskOf q.tokens = q.text := by
  have hall : ∀ t ∈ q.tokens, t.mask = t.text := by
    intro t ht
    rcases q.mem_tokens ht with rfl | rfl | ⟨i, -, rfl⟩ | rfl | rfl
    case inr.inr.inl => exact i.mask_token.symm
    all_goals rfl
  exact List.flatMap_congr hall

@[simp] theorem maskLiterals_text : maskLiterals q.text = q.text :=
  maskLiterals_eq_self (q.not_mem_text (by decide))

theorem tokensOf : TokensOf q.text q.tokens :=
  ⟨q.lexed, q.quotesHoldWords, rfl, by rw [maskLiterals_text, mask_eq_text]⟩

/-! ## Words -/

/-- A word of the language other than the two that stand in a select query. -/
def IsAbsent (w : Text) : Prop :=
  OfLetters [w] ∧ Ascii w ∧ (w ∈ Wording.deniedWords ∨ isReserved w = true) ∧
    lower w ≠ "select" ∧ lower w ≠ "from"

instance (w : Text) : Decidable (IsAbsent w) := inferInstanceAs (Decidable (_ ∧ _))

theorem not_spells {w : Text} (hw : IsAbsent w) {t : Token} (ht : t ∈ q.tokens) {n : Text}
    (hn : t.name? = some n) : ¬ Spells w n := by
  obtain ⟨-, hascii, hword, hselect, hfrom⟩ := hw
  intro hs
  have hlower {v : Text} (hv : Ascii v) (hs : Spells w v) : lower v = lower w :=
    (hascii.spells_iff hv).1 hs
  rcases q.mem_tokens ht with rfl | rfl | ⟨i, hi, rfl⟩ | rfl | rfl
  · obtain rfl := Option.some.inj hn
    exact hselect (hlower (by decide) hs).symm
  · obtain rfl := Option.some.inj hn
    exact hfrom (hlower (by decide) hs).symm
  · rw [Identifier.name?_token] at hn
    obtain rfl := Option.some.inj hn
    rcases hword with hdenied | hreserved
    · exact (q.ordinary i hi).not_denied w hdenied hs
    · exact (q.ordinary i hi).not_spells hascii hreserved hs
  · cases hn
  · cases hn

/-- No other word of the language stands in a select query, bare or in quotes. -/
theorem lacksWord {w : Text} (hw : IsAbsent w) : LacksWord w q.text := by
  intro a x r ht ha hx
  by_contra hr
  have hword := hw.1 w (List.mem_singleton_self w)
  obtain ⟨p, t, u, hts, hn, -⟩ := q.lexed.exists_wholeWord q.quotesHoldWords
    (isWord_of_spells hword.1 hword.2 hx) (q.mask_eq_text.trans ht) (atWordStart_reverse_iff.1 ha)
    (by simpa [atWordEnd] using hr)
  exact q.not_spells hw (by rw [hts]; simp) hn hx

/-- Nor does it stand there when the names in quotes are masked. -/
theorem lacksWord_maskQuoted {w : Text} (hw : IsAbsent w) : LacksWord w (maskQuoted q.text) := by
  intro a x r ht ha hx
  by_contra hr
  have hr : r.head?.any isWordChar = false := by simpa [atWordEnd] using hr
  rw [← mask_eq_text, maskQuoted_maskOf q.lexed] at ht
  have hword := hw.1 w (List.mem_singleton_self w)
  have hisWord := isWord_of_spells hword.1 hword.2 hx
  obtain ⟨c, x, rfl⟩ := List.exists_cons_of_ne_nil hisWord.1
  have hplace : a.getLast?.any isNamePart = false := by
    rw [atWordStart_reverse_iff, Option.any_eq_false] at ha
    rw [Option.any_eq_false]
    intro d hd
    have hdollar : d ≠ '$' := by
      rintro rfl
      have hmem : '$' ∈ blotOf q.tokens := by
        rw [ht]
        exact List.mem_append_left _ (List.mem_of_getLast? hd)
      exact q.not_mem_blotOf (by decide) hmem
    simpa [isNamePart, hdollar] using ha d hd
  obtain ⟨p, v, u, hts, -, hv⟩ := exists_word_of_blotOf q.lexed ht
    (isNamePart_of_isWordChar (hisWord.2 c List.mem_cons_self)) hplace
  have hmem : Token.word v ∈ q.tokens := by
    rw [hts]
    simp
  have hlexed := q.lexed
  rw [hts] at hlexed
  have hend := head?_blotOf_any (Lexed.of_append hlexed).2
  have hend : (blotOf u).head?.any isWordChar = false := by
    rw [Option.any_eq_false] at hend ⊢
    intro d hd
    rw [Bool.eq_false_iff]
    intro hword
    have hpart := hend d hd
    rw [isNamePart_of_isWordChar hword] at hpart
    cases hpart
  obtain ⟨rfl, -⟩ := word_unique hisWord.2 (q.lexed.fit _ hmem).2 hr hend hv
  exact q.not_spells hw hmem rfl hx

theorem not_occurs {words : List Text} (hwords : ∀ w ∈ words, IsAbsent w) :
    occurs (oneWord words) q.text = false := by
  rw [occurs, LacksWord.hits_oneWord fun w hw => q.lacksWord (hwords w hw)]
  rfl

theorem not_endsWithWord {words : List Text} (hwords : ∀ w ∈ words, IsAbsent w) {a b : Text}
    (ht : q.text = a ++ b) (hb : atWordEnd b = true) : endsWithWord words a.reverse = false := by
  rw [Bool.eq_false_iff]
  intro hends
  obtain ⟨w, hw, hread⟩ := List.any_eq_true.1 hends
  split at hread
  · rename_i rest hrest
    obtain ⟨y, hy, hspells⟩ := keyword?_eq_some_iff.1 hrest
    have hx : Spells w y.reverse := by
      rw [← spells_reverse_iff, List.reverse_reverse]
      exact hspells
    have ha : a = rest.reverse ++ y.reverse := by
      rw [← List.reverse_append, ← hy, List.reverse_reverse]
    have hstart : atWordStart rest.reverse.reverse = true := by rwa [List.reverse_reverse]
    have := q.lacksWord (hwords w hw) _ _ _ (by rw [ht, ha, List.append_assoc]) hstart hx
    rw [hb] at this
    cases this
  · cases hread

theorem not_followsWord {words : List Text} (hwords : ∀ w ∈ words, IsAbsent w) {a b : Text}
    (ht : q.text = a ++ b) : followsWord words a.reverse = false := by
  rw [followsWord, Option.any_eq_false]
  intro rest hrest
  obtain ⟨g, hne, hg, -, ha⟩ := spaced?_eq_some_iff.1 hrest
  have ha : a = rest.reverse ++ g.reverse := by
    rw [← List.reverse_append, ← ha, List.reverse_reverse]
  rw [← Bool.not_eq_true, ← List.reverse_reverse rest, Bool.not_eq_true]
  refine q.not_endsWithWord hwords (b := g.reverse ++ b) ?_ ?_
  · rw [ht, ha, List.append_assoc]
  · obtain ⟨c, z, hz⟩ := List.exists_cons_of_ne_nil (List.reverse_ne_nil_iff.2 hne)
    have hc : c ∈ g := by
      rw [← List.mem_reverse, hz]
      exact List.mem_cons_self
    rw [hz]
    simp [atWordEnd, isWordChar_eq_false_of_isBlank (List.all_eq_true.1 hg c hc)]

/-! ## The table -/

theorem text_eq : q.text = maskOf q.front ++ ("FROM " ++ q.table.token.mask) := by
  rw [← mask_eq_text, tokens, maskOf_append]
  simp [Token.mask]

/-- In front of `FROM` no table is named. -/
theorem tableSource_front {a b : Text} (hfront : maskOf q.front = a ++ b) (hb : b ≠ []) :
    tableSource a.reverse (b ++ ("FROM " ++ q.table.token.mask)) = none := by
  rw [Option.eq_none_iff_forall_ne_some]
  rintro ⟨v, rest⟩ h
  obtain ⟨hstart, word, hword, x, r, hsplit, hx, ⟨t, ht, -⟩, -⟩ := tableSource_eq_some h
  have htext : q.text = a ++ (x ++ r) := by
    rw [text_eq, hfront, List.append_assoc, hsplit]
  have hr := head?_any_isWordChar_of_spaced? ht
  have hwords : ∀ w ∈ sourceWords, w = "FROM" ∨ IsAbsent w := by decide
  rcases hwords word hword with rfl | habsent
  · obtain ⟨p, t, u, hts, hn, hp, -⟩ := q.lexed.exists_wholeWord q.quotesHoldWords
      (isWord_of_spells (by decide) (by decide) hx) (q.mask_eq_text.trans htext)
      (atWordStart_reverse_iff.1 hstart) hr
    have hlen : (maskOf p).length < (maskOf q.front).length := by
      have := List.length_pos_iff.2 hb
      have := congrArg List.length hp
      rw [List.length_append] at this
      rw [hfront, List.length_append]
      omega
    -- So the word would be a token in front of `FROM`.
    have hmem : t ∈ q.front := by
      obtain ⟨z, hz, -⟩ := exists_append_of_lt hts.symm hlen
      rw [hz]
      simp
    rcases q.mem_front hmem with rfl | ⟨i, hi, rfl⟩ | rfl | rfl
    · obtain rfl := Option.some.inj hn
      exact absurd hx (by decide)
    · rw [Identifier.name?_token] at hn
      obtain rfl := Option.some.inj hn
      exact (q.ordinary i (List.mem_cons_of_mem _ hi)).not_spells (by decide) (by decide) hx
    · cases hn
    · cases hn
  · have hno := q.lacksWord habsent _ _ _ htext hstart hx
    rw [atWordEnd, hr] at hno
    cases hno

theorem tableSource_from : tableSource (maskOf q.front).reverse ("FROM " ++ q.table.token.mask) =
    some (⟨"FROM", true, ⟨none, q.table, q.table.token.mask, []⟩⟩, []) := by
  have htable := q.ordinary q.table List.mem_cons_self
  have hmem : '(' ∉ (maskOf q.front).reverse := by
    intro hmem
    have hno := @not_mem_text q '(' (by decide)
    rw [text_eq] at hno
    exact hno (List.mem_append_left _ (List.mem_reverse.1 hmem))
  have hintroduces : introducesTable (maskOf q.front).reverse = true := by
    rw [introducesTable, q.not_followsWord (by decide) q.text_eq, enclosingCall?_of_not_mem hmem]
    rfl
  have hstart : atWordStart (maskOf q.front).reverse = true := by
    rw [front, ← List.cons_append, ← List.cons_append, maskOf_append, List.reverse_append]
    rfl
  have hhead : q.table.token.mask.head?.any isBlank = false := by
    cases hmask : q.table.token.mask with
    | nil => rfl
    | cons c m =>
      have hc := q.table.isInName_of_mem_mask htable (hmask ▸ List.mem_cons_self)
      exact outsideNames_isBlank c hc
  have hname : QualifiedName.read? isFoldedNameStart q.table.token.mask =
      some ⟨none, q.table, q.table.token.mask, []⟩ := by
    rw [QualifiedName.read?, htable.read? fun _ => isFoldedNameStart_of_isNameStart]
    rfl
  have hspaced : (keyword? "FROM" ("FROM " ++ q.table.token.mask)).bind spaced? =
      some q.table.token.mask := by
    have hsplit : ("FROM " : Text) ++ q.table.token.mask =
        ("FROM" : Text) ++ ([' '] ++ q.table.token.mask) := rfl
    rw [hsplit, keyword?_append rfl, Option.bind_some, spaced?_append (by simp) rfl hhead]
  unfold tableSource
  rw [if_pos hstart]
  simp only [hspaced, Option.bind_eq_bind, Option.bind_some, hname, hintroduces]
  rfl

/-- The reference to the table. -/
def tableRef : TableRef :=
  ⟨q.table.name, none, none, q.table.quoted, q.text.length - q.table.token.mask.length,
    q.text.length, "FROM"⟩

/-- The table is the only one that the query names. -/
theorem tableRefs_text : tableRefs q.text = [q.tableRef] := by
  have htable := q.ordinary q.table List.mem_cons_self
  have hhits : hits tableSource q.text = [⟨(maskOf q.front).length, q.text.length,
      ⟨"FROM", true, ⟨none, q.table, q.table.token.mask, []⟩⟩⟩] := by
    rw [hits, q.text_eq, hitsFrom_append_of_none (fun a b hab hb => ?_)]
    · have hread := q.tableSource_from
      rw [← List.append_nil (("FROM " : Text) ++ q.table.token.mask)] at hread
      have hfound := hitsFrom_of_read (List.cons_ne_nil 'F' (("ROM " : Text) ++ q.table.token.mask))
        hread
      rw [List.append_nil] at hfound
      refine (congrArg (hitsFrom tableSource · 0 _) (List.append_nil _)).trans (hfound.trans ?_)
      simp [hitsFrom]
    · rw [List.append_nil]
      exact q.tableSource_front hab hb
  have hkeyword : isKeyword q.table.name = false :=
    isKeyword_eq_false_of_isReserved htable.notReserved
  rw [tableRefs, maskLiterals_text, tableRefsIn, hhits]
  simp [SelectQuery.tableRef, TableSource.refs, tableRef?, opensCall, skipBlanks, hkeyword,
    aliasAfter?, aliasReadings, spaced?, listedRefs]

/-! ## The columns -/

theorem exists_identifier {i : Identifier} {start stop : Nat} (h : StandsIn i start stop 0 q.tokens) :
    i.quoted = false ∧ (i.name = "SELECT" ∨ i.name = "FROM") ∨ i ∈ q.table :: q.columns := by
  obtain ⟨p, r, hts, -⟩ := h
  have hmem : i.token ∈ q.tokens := by
    rw [hts]
    simp
  have hbare {w : Text} (h : i.token = .word w) : i.quoted = false ∧ i.name = w := by
    obtain ⟨n, quoted⟩ := i
    cases quoted <;> cases h
    exact ⟨rfl, rfl⟩
  have hother {c m : Char} : i.token ≠ .other c m := by
    obtain ⟨n, quoted⟩ := i
    cases quoted <;> exact nofun
  rcases q.mem_tokens hmem with h | h | ⟨j, hj, h⟩ | h | h
  · exact .inl ⟨(hbare h).1, .inl (hbare h).2⟩
  · exact .inl ⟨(hbare h).1, .inr (hbare h).2⟩
  · exact .inr (Identifier.token_injective h ▸ hj)
  · exact absurd h hother
  · exact absurd h hother

/-- Every name in quotes that is found is one of the query. -/
theorem mem_quotedNames {h : Hit Text} (hmem : h ∈ quotedNames q.text) :
    ⟨h.value, true⟩ ∈ q.table :: q.columns := by
  rw [← mask_eq_text] at hmem
  exact (q.exists_identifier (stand_of_mem_quotedNames q.lexed hmem)).resolve_left nofun

/-- Every bare name that is found is one of the query, or one of its words. -/
theorem mem_selectedNames {h : Hit Text} (hmem : h ∈ selectedNames (maskQuoted q.text)) :
    isReserved h.value = true ∨ ⟨h.value, false⟩ ∈ q.table :: q.columns := by
  rw [← mask_eq_text] at hmem
  refine (q.exists_identifier (stand_of_mem_selectedNames q.lexed hmem)).imp_left ?_
  have hwords : isReserved "SELECT" = true ∧ isReserved "FROM" = true := by decide
  rintro ⟨-, hname⟩
  have hname : h.value = "SELECT" ∨ h.value = "FROM" := hname
  rcases hname with hname | hname
  · rw [hname]
    exact hwords.1
  · rw [hname]
    exact hwords.2

/-- No name has a qualifier. -/
theorem qualifiedRefs_text : qualifiedRefs q.text = [] := by
  have hnone : hits qualifiedRef q.text = [] := by
    refine hitsFrom_eq_nil_iff.2 fun a b hab _ => ?_
    rw [Option.eq_none_iff_forall_ne_some]
    intro v h
    unfold qualifiedRef at h
    split at h
    · cases h
    obtain ⟨n, hn, h⟩ := Option.bind_eq_some_iff.1 h
    obtain ⟨i, hi, -⟩ := Option.bind_eq_some_iff.1 h
    have hdot : '.' ∉ b := by
      intro hmem
      exact @not_mem_text q '.' (by decide) (by rw [hab]; exact List.mem_append_right a hmem)
    rw [QualifiedName.qualifier_eq_none hdot hn] at hi
    cases hi
  rw [qualifiedRefs, hnone]
  rfl

end SelectQuery

end QueryGate
