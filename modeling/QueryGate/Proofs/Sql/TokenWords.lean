import QueryGate.Proofs.Sql.TokenPlaces
import QueryGate.Proofs.Text.Hits
import QueryGate.Text.Keyword

/-!
# Words among the tokens

A whole word of the mask is a token or what a token has in its quotes (`Lexed.exists_wholeWord`),
so whether some words occur in a query is a question about its tokens
(`occurs_oneWord_maskOf_iff`).
-/

namespace QueryGate

/-- The name that a token is, quotes aside. -/
def Token.name? : Token → Option Text
  | word w => some w
  | quoted w => some w
  | other _ _ => none

/-- What stands on each side of the name that a token is. -/
def Token.quotes : Token → Text
  | quoted _ => ['"']
  | _ => []

theorem Token.eq_word {t : Token} {x : Text} (hx : t.name? = some x) (hq : t.quotes = []) :
    t = .word x := by
  cases t with
  | word w => rw [Option.some.inj hx]
  | quoted w => cases hq
  | other c m => cases hx

theorem Token.mask_of_name {t : Token} {x : Text} (hx : t.name? = some x) :
    t.mask = t.quotes ++ (x ++ t.quotes) := by
  cases t with
  | word w =>
    obtain rfl := Option.some.inj hx
    simp [mask, quotes]
  | quoted w =>
    obtain rfl := Option.some.inj hx
    rfl
  | other c m => cases hx

theorem Token.length_quotes_lt {t : Token} {x : Text} (h : t.Fit) (hx : t.name? = some x) :
    t.quotes.length < t.mask.length := by
  have hne : x ≠ [] := by
    cases t with
    | word w => exact Option.some.inj hx ▸ h.1
    | quoted w => exact Option.some.inj hx ▸ h.1
    | other c m => cases hx
  have := List.length_pos_iff.2 hne
  rw [Token.mask_of_name hx, List.length_append, List.length_append]
  omega

theorem Identifier.name?_token (i : Identifier) : i.token.name? = some i.name := by
  obtain ⟨name, quoted⟩ := i
  cases quoted <;> rfl

/-! ## Places of words -/

/-- Two runs of word characters with none behind them are the same. -/
theorem word_unique {x y r s : Text} (hx : ∀ c ∈ x, isWordChar c = true)
    (hy : ∀ c ∈ y, isWordChar c = true) (hr : r.head?.any isWordChar = false)
    (hs : s.head?.any isWordChar = false) (h : x ++ r = y ++ s) : x = y ∧ r = s := by
  have htake := congrArg (List.takeWhile isWordChar) h
  rw [takeWhile_append_of_all hx hr, takeWhile_append_of_all hy hs] at htake
  subst htake
  exact ⟨rfl, List.append_cancel_left h⟩

/-- Two words at the end of a text that reach as far back as they can are one. -/
theorem lastWord_unique {x y r s : Text} (hx : ∀ c ∈ x, isWordChar c = true)
    (hy : ∀ c ∈ y, isWordChar c = true) (hr : r.getLast?.any isWordChar = false)
    (hs : s.getLast?.any isWordChar = false) (h : r ++ x = s ++ y) : x = y ∧ r = s := by
  rw [← List.head?_reverse] at hr hs
  have hback : x.reverse ++ r.reverse = y.reverse ++ s.reverse := by
    rw [← List.reverse_append, ← List.reverse_append, h]
  obtain ⟨hword, hrest⟩ := word_unique (fun c hc => hx c (List.mem_reverse.1 hc))
    (fun c hc => hy c (List.mem_reverse.1 hc)) hr hs hback
  exact ⟨List.reverse_inj.1 hword, List.reverse_inj.1 hrest⟩

namespace Lexed

variable {ts p q : List Token} {x : Text}

/-- No word ends where a word token begins. -/
theorem getLast?_maskOf_any (h : Lexed (p ++ .word x :: q)) :
    (maskOf p).getLast?.any isWordChar = false := by
  rcases List.eq_nil_or_concat p with rfl | ⟨p, t, rfl⟩
  · rfl
  rw [List.concat_eq_append] at h ⊢
  have hfit := h.fit t (by simp)
  rw [maskOf_append, getLast?_any_append _ (by simpa using Token.mask_ne_nil hfit)]
  cases t with
  | word w => exact absurd (by simp) (h.apart p w x q)
  | quoted w =>
    have hsplit : maskOf [.quoted w] = ('"' :: w) ++ ['"'] := by simp [Token.mask, inQuotes]
    rw [hsplit, List.getLast?_concat]
    decide
  | other c m =>
    have hm : isNamePart m = false := hfit.1
    exact head?_any_isWordChar (t := [m]) hm

/-- A double quote of the mask opens or closes a name. -/
theorem exists_quoted (h : Lexed ts) {a b : Text} (hts : maskOf ts = a ++ '"' :: b) :
    ∃ p w q, ts = p ++ .quoted w :: q ∧
      (a = maskOf p ∧ b = w ++ '"' :: maskOf q ∨ a = maskOf p ++ '"' :: w ∧ b = maskOf q) := by
  obtain ⟨p, q, ⟨rfl, rfl, hq⟩ | ⟨t, x, y, rfl, rfl, hb, ht, hx, hy⟩⟩ := exists_split hts
  · cases q with
    | nil => cases hq
    | cons t q =>
      have hfit := h.fit t (by simp)
      cases t with
      | word w =>
        obtain ⟨c, w, rfl⟩ := List.exists_cons_of_ne_nil hfit.1
        obtain ⟨rfl, -⟩ := List.cons.inj hq
        exact absurd rfl (isWordChar_ne_quote (hfit.2 _ List.mem_cons_self))
      | other c m =>
        obtain ⟨rfl, -⟩ := List.cons.inj hq
        exact absurd rfl hfit.2
      | quoted w =>
        have hb : b = (w ++ ['"']) ++ maskOf q := (List.cons.inj hq).2
        exact ⟨p, w, q, rfl, .inl ⟨rfl, by simpa using hb⟩⟩
  · have hfit := h.fit t (by simp)
    obtain ⟨c, y, rfl⟩ := List.exists_cons_of_ne_nil hy
    obtain ⟨rfl, rfl⟩ := List.cons.inj hb
    cases t with
    | word w =>
      have hmem : '"' ∈ w := by
        rw [show w = x ++ '"' :: y from ht]
        simp
      exact absurd rfl (isWordChar_ne_quote (hfit.2 _ hmem))
    | other c m => exact (Token.not_cut_of_other ht hx hy).elim
    | quoted w =>
      -- Between the quotes there is none, so this is the closing one.
      have hw : '"' ∉ w := fun hc => (hfit.2 _ hc).1 rfl
      obtain ⟨z, hz, hsuffix⟩ := Token.exists_suffix_of_quoted ht hx hy
      cases z with
      | cons d z =>
        obtain ⟨rfl, -⟩ := List.cons.inj hz
        exact absurd (hsuffix.subset List.mem_cons_self) hw
      | nil =>
        obtain rfl := (List.cons.inj hz).2
        have hsplit : '"' :: w ++ ['"'] = x ++ ['"'] := ht
        obtain rfl := List.append_cancel_right hsplit
        exact ⟨p, w, q, rfl, .inr ⟨rfl, rfl⟩⟩

/-- A whole word of the mask is a token, or all that a token has in its quotes. -/
theorem exists_wholeWord (h : Lexed ts) (hq : QuotesHoldWords ts) {a r : Text} (hx : IsWord x)
    (hts : maskOf ts = a ++ (x ++ r)) (ha : a.getLast?.any isWordChar = false)
    (hr : r.head?.any isWordChar = false) :
    ∃ p t q, ts = p ++ t :: q ∧ t.name? = some x ∧ a = maskOf p ++ t.quotes ∧
      r = t.quotes ++ maskOf q := by
  by_cases hlast : a.getLast? = some '"'
  · obtain ⟨a, rfl⟩ := List.getLast?_eq_some_iff.1 hlast
    rw [List.append_assoc, List.singleton_append] at hts
    obtain ⟨p, w, q, rfl, ⟨rfl, hb⟩ | ⟨rfl, hb⟩⟩ := h.exists_quoted hts
    · have hw : IsWord w := hq w (by simp)
      obtain ⟨rfl, rfl⟩ := word_unique hx.2 hw.2 hr (by rfl) hb
      exact ⟨p, .quoted x, q, rfl, rfl, rfl, rfl⟩
    · have hq' : Lexed q := (@Lexed.of_append (p ++ [.quoted w]) q (by simpa using h)).2
      obtain ⟨us, rfl, rfl⟩ := hq'.exists_word hx hr hb.symm
      exact ⟨p ++ [.quoted w], .word x, us, by simp, rfl,
        by simp [Token.mask, Token.quotes, inQuotes], rfl⟩
  · have hname : a.getLast?.any isInName = false := by
      cases hl : a.getLast? with
      | none => rfl
      | some c =>
        rw [hl] at ha hlast
        have hc : isWordChar c = false := ha
        have hquote : c ≠ '"' := fun h => hlast (by rw [h])
        simp [isInName, hc, hquote]
    obtain ⟨p, us, rfl, rfl, hus⟩ := h.exists_cut hq hts hname
    obtain ⟨q, rfl, rfl⟩ := (Lexed.of_append h).2.exists_word hx hr hus.symm
    exact ⟨p, .word x, q, rfl, rfl, (List.append_nil _).symm, rfl⟩

/-- A whole word at the end of the mask is the last token. -/
theorem exists_lastWord (h : Lexed ts) {a : Text} (hx : IsWord x) (hts : maskOf ts = a ++ x)
    (ha : a.getLast?.any isWordChar = false) : ∃ p, ts = p ++ [.word x] ∧ a = maskOf p := by
  have hlast : isWordChar (x.getLast hx.1) = true := hx.2 _ (List.getLast_mem hx.1)
  rcases List.eq_nil_or_concat ts with rfl | ⟨p, t, rfl⟩
  · exact absurd (List.append_eq_nil_iff.1 hts.symm).2 hx.1
  rw [List.concat_eq_append] at h hts ⊢
  have hfit := h.fit t (by simp)
  rw [maskOf_append, maskOf_cons, maskOf_nil, List.append_nil] at hts
  have hend : t.mask.getLast? = some (x.getLast hx.1) := by
    have := congrArg List.getLast? hts
    rwa [List.getLast?_append, List.getLast?_append, List.getLast?_eq_some_getLast hx.1,
      List.getLast?_eq_some_getLast (Token.mask_ne_nil hfit), Option.some_or, Option.some_or,
      ← List.getLast?_eq_some_getLast] at this
  cases t with
  | quoted w =>
    rw [Token.mask, inQuotes, List.getLast?_append] at hend
    rw [← Option.some.inj hend] at hlast
    exact absurd hlast (by decide)
  | other c m =>
    obtain rfl := Option.some.inj hend
    have hno : isNamePart (x.getLast hx.1) = false := hfit.1
    rw [isNamePart_of_isWordChar hlast] at hno
    cases hno
  | word w =>
    obtain ⟨rfl, hpa⟩ := lastWord_unique hfit.2 hx.2 h.getLast?_maskOf_any ha hts
    exact ⟨p, rfl, hpa.symm⟩

/-- The name that a token is stands as a whole word in the mask. -/
theorem wholeWord_of_name {t : Token} (h : Lexed (p ++ t :: q)) (hx : t.name? = some x) :
    maskOf (p ++ t :: q) = (maskOf p ++ t.quotes) ++ (x ++ (t.quotes ++ maskOf q)) ∧
      (maskOf p ++ t.quotes).getLast?.any isWordChar = false ∧
      (t.quotes ++ maskOf q).head?.any isWordChar = false := by
  refine ⟨by simp [Token.mask_of_name hx], ?_⟩
  cases t with
  | word w =>
    refine ⟨?_, head?_any_isWordChar (Lexed.of_append h).2.head?_maskOf_any⟩
    simpa [Token.quotes] using h.getLast?_maskOf_any
  | quoted w =>
    rw [Token.quotes, List.getLast?_concat]
    exact ⟨rfl, rfl⟩
  | other c m => cases hx

end Lexed

/-! ## Words that occur -/

/-- A token is one of some words, quotes aside. -/
def Token.IsOneOf (words : List Text) (t : Token) : Prop :=
  ∃ x, t.name? = some x ∧ ∃ w ∈ words, Spells w x

/-- Words of letters only. -/
def OfLetters (words : List Text) : Prop :=
  ∀ w ∈ words, w ≠ [] ∧ ∀ c ∈ w.map foldLetter, c.isLower = true

instance (words : List Text) : Decidable (OfLetters words) :=
  inferInstanceAs (Decidable (∀ w ∈ words, _))

theorem oneWord_eq_some {words : List Text} {before after v rest : Text}
    (h : oneWord words before after = some (v, rest)) :
    atWordStart before = true ∧ after = v ++ rest ∧ (∃ w ∈ words, Spells w v) ∧
      rest.head?.any isWordChar = false := by
  unfold oneWord at h
  split at h
  case isFalse => cases h
  rename_i hstart
  obtain ⟨w, hw, hsome⟩ := List.exists_of_findSome?_eq_some h
  split at hsome
  case h_2 => cases hsome
  rename_i r hr
  split at hsome
  case isFalse => cases hsome
  rename_i hend
  obtain ⟨rfl, rfl⟩ := Prod.mk.inj (Option.some.inj hsome)
  obtain ⟨x, rfl, hx⟩ := keyword?_eq_some_iff.1 hr
  rw [List.take_left' hx.length_eq]
  exact ⟨hstart, rfl, ⟨w, hw, hx⟩, by simpa [atWordEnd] using hend⟩

/-- A whole word is read, and what follows is left. -/
theorem wholeWord_append {before word w after : Text} (hstart : atWordStart before = true)
    (hw : Spells word w) (hend : atWordEnd after = true) :
    wholeWord word before (w ++ after) = some (w, after) := by
  rw [wholeWord, oneWord, if_pos hstart]
  simp only [List.findSome?_cons, keyword?_append hw, hend, ite_true]
  rw [List.take_left' hw.length_eq]

section Occurs

variable {ts : List Token} (h : Lexed ts) (hq : QuotesHoldWords ts) {words : List Text}

theorem oneWord_isSome_of_isOneOf {p q : List Token} {t : Token} {x : Text}
    (h : Lexed (p ++ t :: q)) (hx : t.name? = some x) (ht : t.IsOneOf words) :
    (oneWord words (maskOf p ++ t.quotes).reverse (x ++ (t.quotes ++ maskOf q))).isSome = true := by
  obtain ⟨y, hy, w, hw, hspells⟩ := ht
  obtain rfl := Option.some.inj (hx.symm.trans hy)
  obtain ⟨-, ha, hr⟩ := h.wholeWord_of_name hx
  refine oneWord_isSome ?_ hw hspells (by simpa [atWordEnd] using hr)
  rw [← List.head?_reverse] at ha
  simpa [atWordStart] using ha

include h hq in
/-- Where one of some words is read a token is that word, quotes aside. -/
theorem exists_isOneOf (hwords : OfLetters words) {a b v rest : Text} (hab : maskOf ts = a ++ b)
    (hread : oneWord words a.reverse b = some (v, rest)) :
    ∃ p t q, ts = p ++ t :: q ∧ t.name? = some v ∧ t.IsOneOf words ∧
      a = maskOf p ++ t.quotes ∧ rest = t.quotes ++ maskOf q := by
  obtain ⟨hstart, rfl, ⟨w, hw, hv⟩, hr⟩ := oneWord_eq_some hread
  have ha : a.getLast?.any isWordChar = false := by
    rw [← List.head?_reverse]
    simpa [atWordStart] using hstart
  have hword := isWord_of_spells (hwords w hw).1 (hwords w hw).2 hv
  obtain ⟨p, t, q, hts, hname, rfl, rfl⟩ := h.exists_wholeWord hq hword hab ha hr
  exact ⟨p, t, q, hts, hname, ⟨v, hname, w, hw, hv⟩, rfl, rfl⟩

include h hq in
/-- Some words occur in a query exactly if a token is one of them, quotes aside. -/
theorem occurs_oneWord_maskOf_iff (hwords : OfLetters words) :
    occurs (oneWord words) (maskOf ts) = true ↔ ∃ t ∈ ts, t.IsOneOf words := by
  rw [occurs_eq_true_iff]
  constructor
  · rintro ⟨a, b, hab, -, hread⟩
    obtain ⟨⟨v, rest⟩, hread⟩ := Option.isSome_iff_exists.1 hread
    obtain ⟨p, t, q, rfl, -, ht, -⟩ := exists_isOneOf h hq hwords hab hread
    exact ⟨t, by simp, ht⟩
  · rintro ⟨t, hmem, ht⟩
    obtain ⟨p, q, rfl⟩ := List.append_of_mem hmem
    obtain ⟨x, hx, w, hw, hspells⟩ := ht
    have hword := isWord_of_spells (hwords w hw).1 (hwords w hw).2 hspells
    exact ⟨_, _, (h.wholeWord_of_name hx).1, by simp [hword.1],
      oneWord_isSome_of_isOneOf h hx ⟨x, hx, w, hw, hspells⟩⟩

include h hq in
/-- The first hit of some words is the first token that is one of them. -/
theorem exists_of_firstHit?_oneWord (hwords : OfLetters words) {k : Hit Text}
    (hk : firstHit? (oneWord words) (maskOf ts) = some k) :
    ∃ p t q, ts = p ++ t :: q ∧ t.IsOneOf words ∧ (∀ u ∈ p, ¬ u.IsOneOf words) ∧
      (maskOf ts).drop k.stop = t.quotes ++ maskOf q := by
  obtain ⟨a, b, rest, hab, -, hread, hstart, hfirst⟩ := firstHit?_eq_some hk
  obtain ⟨a', b', rest', hab', hread', hstart', hstop, -⟩ :=
    span_of_mem_hitsFrom (List.mem_of_mem_head? hk)
  rw [List.append_nil] at hread'
  obtain ⟨rfl, rfl⟩ := List.append_inj (hab.symm.trans hab') (by
    rw [hstart, List.length_nil, Nat.zero_add] at hstart'
    exact hstart')
  obtain ⟨-, rfl⟩ := Prod.mk.inj (Option.some.inj (hread.symm.trans hread'))
  have hb := (oneWord_eq_some hread).2.1
  obtain ⟨p, t, q, rfl, hname, ht, rfl, rfl⟩ := exists_isOneOf h hq hwords hab hread
  refine ⟨p, t, q, rfl, ht, fun u hu hone => ?_, ?_⟩
  · obtain ⟨p, p', rfl⟩ := List.append_of_mem hu
    obtain ⟨x, hx, -⟩ := id hone
    have hsplit : p ++ u :: p' ++ t :: q = p ++ u :: (p' ++ t :: q) := by simp
    rw [hsplit] at h hfirst
    have hnone := hfirst _ _ (h.wholeWord_of_name hx).1 ?_
    · have := oneWord_isSome_of_isOneOf h hx hone
      rw [hnone] at this
      cases this
    · have := Token.length_quotes_lt (h.fit u (by simp)) hx
      simp only [maskOf_append, maskOf_cons, List.length_append]
      omega
  · have hlen : k.stop = ((maskOf p ++ t.quotes) ++ k.value).length := by
      rw [hstop, hstart, hb]
      simp only [List.length_append]
      omega
    rw [hab, hb, hlen, ← List.append_assoc, List.drop_left]

end Occurs

end QueryGate
