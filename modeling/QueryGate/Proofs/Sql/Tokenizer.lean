import QueryGate.Proofs.Sql.Renaming

/-!
# The tokens of a text

A text is cut into tokens from its end, character by character. What comes out are tokens of the
text unless a quote is left over, one that closes or opens no single word, or a dollar sign
(`tokensOf_tokens`).
-/

namespace QueryGate

namespace Token

/-- Puts a character, with what the mask shows of it, in front of tokens: it joins the word that
begins there, or closes it in if it is a quote and another one ends the word. -/
def prepend (c m : Char) (ts : List Token) : List Token :=
  if isWordChar m then
    match ts with
    | word w :: ts => word (m :: w) :: ts
    | _ => word [m] :: ts
  else if m == '"' then
    match ts with
    | word w :: other _ '"' :: ts => quoted w :: ts
    | _ => other c m :: ts
  else other c m :: ts

/-- What becomes of a character in front of tokens. -/
theorem prepend_cases (c m : Char) (ts : List Token) :
    (isWordChar m = true ∧ ∃ w us, ts = word w :: us ∧ prepend c m ts = word (m :: w) :: us) ∨
    (isWordChar m = true ∧ (∀ w us, ts ≠ word w :: us) ∧ prepend c m ts = word [m] :: ts) ∨
    (m = '"' ∧ ∃ w d us, ts = word w :: other d '"' :: us ∧ prepend c m ts = quoted w :: us) ∨
    (isWordChar m = false ∧ prepend c m ts = other c m :: ts) := by
  unfold prepend
  split
  · rename_i hm
    split
    · exact .inl ⟨hm, _, _, rfl, rfl⟩
    · rename_i hno
      exact .inr (.inl ⟨hm, hno, rfl⟩)
  · rename_i hm
    rw [Bool.not_eq_true] at hm
    split
    · rename_i hquote
      split
      · exact .inr (.inr (.inl ⟨eq_of_beq hquote, _, _, _, rfl, rfl⟩))
      · exact .inr (.inr (.inr ⟨hm, rfl⟩))
    · exact .inr (.inr (.inr ⟨hm, rfl⟩))

end Token

/-- The tokens of a text, as its mask shows them. -/
def tokens (sql : Text) : List Token :=
  (sql.zip (maskLiterals sql)).foldr (fun x ts => Token.prepend x.1 x.2 ts) []

/-- What holds of the tokens at each character: their words are words, no two of them adjacent, and
of the other characters each stands as it is or is masked. -/
structure Tokenized (ts : List Token) : Prop where
  words : ∀ w, Token.word w ∈ ts → IsWord w
  quoted : QuotesHoldWords ts
  others : ∀ c m, Token.other c m ∈ ts → isWordChar m = false ∧ (m = c ∨ m = maskChar)
  apart : ∀ p w v q, ts ≠ p ++ Token.word w :: Token.word v :: q

namespace Tokenized

variable {t : Token} {ts : List Token}

theorem nil : Tokenized [] :=
  ⟨nofun, nofun, nofun, fun p w v q h => by simpa using congrArg List.length h⟩

theorem tail (h : Tokenized (t :: ts)) : Tokenized ts :=
  ⟨fun w hw => h.words w (List.mem_cons_of_mem t hw),
    fun w hw => h.quoted w (List.mem_cons_of_mem t hw),
    fun c m hm => h.others c m (List.mem_cons_of_mem t hm),
    fun p w v q hts => h.apart (t :: p) w v q (by rw [hts]; rfl)⟩

theorem cons (h : Tokenized ts) (hword : ∀ w, t = .word w → IsWord w)
    (hquoted : ∀ w, t = .quoted w → IsWord w)
    (hother : ∀ c m, t = .other c m → isWordChar m = false ∧ (m = c ∨ m = maskChar))
    (hapart : ∀ w v us, t = .word w → ts ≠ .word v :: us) : Tokenized (t :: ts) := by
  constructor
  · intro w hw
    rcases List.mem_cons.1 hw with heq | hw
    · exact hword w heq.symm
    · exact h.words w hw
  · intro w hw
    rcases List.mem_cons.1 hw with heq | hw
    · exact hquoted w heq.symm
    · exact h.quoted w hw
  · intro c m hm
    rcases List.mem_cons.1 hm with heq | hm
    · exact hother c m heq.symm
    · exact h.others c m hm
  · intro p w v q heq
    cases p with
    | nil => exact hapart w v q (List.cons.inj heq).1 (List.cons.inj heq).2
    | cons s p => exact h.apart p w v q (List.cons.inj heq).2

/-- A character in front of tokens leaves them tokens. -/
theorem prepend {c m : Char} (h : Tokenized ts) (hmask : m = c ∨ m = maskChar) :
    Tokenized (Token.prepend c m ts) := by
  rcases Token.prepend_cases c m ts with ⟨hm, w, us, rfl, heq⟩ | ⟨hm, hno, heq⟩ |
    ⟨-, w, d, us, rfl, heq⟩ | ⟨hm, heq⟩
  · have hw := h.words w List.mem_cons_self
    rw [heq]
    refine h.tail.cons (fun v hv => ?_) nofun nofun (fun v x us' _ hus => ?_)
    · rw [← Token.word.inj hv]
      exact ⟨List.cons_ne_nil m w, List.forall_mem_cons.2 ⟨hm, hw.2⟩⟩
    · exact h.apart [] w x us' (by rw [hus]; rfl)
  · rw [heq]
    refine h.cons (fun v hv => ?_) nofun nofun (fun v x us _ => hno x us)
    rw [← Token.word.inj hv]
    exact ⟨List.cons_ne_nil m [], by simpa using hm⟩
  · rw [heq]
    refine h.tail.tail.cons nofun (fun v hv => ?_) nofun nofun
    rw [← Token.quoted.inj hv]
    exact h.words w List.mem_cons_self
  · rw [heq]
    refine h.cons nofun nofun (fun c' m' hother => ?_) nofun
    obtain ⟨rfl, rfl⟩ := Token.other.inj hother
    exact ⟨hm, hmask⟩

/-- Without quotes and dollar signs of their own the tokens are read back from the mask. -/
theorem lexed (h : Tokenized ts) (hmarks : ∀ c m, Token.other c m ∈ ts → m ≠ '"' ∧ m ≠ '$') :
    Lexed ts := by
  refine ⟨fun t ht => ?_, h.apart⟩
  cases t with
  | word w => exact h.words w ht
  | quoted w =>
    have hw := h.quoted w ht
    refine ⟨hw.1, fun c hc => ⟨isWordChar_ne_quote (hw.2 c hc), ?_⟩⟩
    rintro rfl
    exact absurd (hw.2 _ hc) (by decide)
  | other c m =>
    obtain ⟨hquote, hdollar⟩ := hmarks c m ht
    refine ⟨?_, hquote⟩
    rw [isNamePart, (h.others c m ht).1]
    simpa using hdollar

end Tokenized

theorem maskOf_prepend (c m : Char) (ts : List Token) :
    maskOf (Token.prepend c m ts) = m :: maskOf ts := by
  rcases Token.prepend_cases c m ts with ⟨-, w, us, rfl, heq⟩ | ⟨-, -, heq⟩ |
    ⟨rfl, w, d, us, rfl, heq⟩ | ⟨-, heq⟩
  all_goals
    rw [heq]
    simp [Token.mask, inQuotes]

theorem textOf_prepend {c m : Char} {ts : List Token} (h : Tokenized ts)
    (hmask : m = c ∨ m = maskChar) : textOf (Token.prepend c m ts) = c :: textOf ts := by
  have hsame (hm : m ≠ maskChar) : m = c := hmask.resolve_right hm
  have hword (hm : isWordChar m = true) : m = c := by
    refine hsame ?_
    rintro rfl
    exact absurd hm (by decide)
  rcases Token.prepend_cases c m ts with ⟨hm, w, us, rfl, heq⟩ | ⟨hm, -, heq⟩ |
    ⟨rfl, w, d, us, rfl, heq⟩ | ⟨-, heq⟩
  · rw [heq, ← hword hm]
    simp [Token.text]
  · rw [heq, ← hword hm]
    simp [Token.text]
  · have hd : '"' = d :=
      (h.others d '"' (by simp)).2.resolve_right (by decide)
    rw [heq, ← hsame (by decide), ← hd]
    simp [Token.text, inQuotes]
  · rw [heq]
    simp [Token.text]

theorem eq_or_eq_maskChar_of_mem_zip {sql : Text} {c m : Char}
    (h : (c, m) ∈ sql.zip (maskLiterals sql)) : m = c ∨ m = maskChar := by
  obtain ⟨i, hi⟩ := List.mem_iff_getElem?.1 h
  rw [List.getElem?_zip_eq_some] at hi
  by_cases hm : m = maskChar
  · exact .inr hm
  · exact .inl (Option.some.inj ((getElem?_maskLiterals hi.2 hm).symm.trans hi.1))

theorem tokens_spec {l : List (Char × Char)} (h : ∀ x ∈ l, x.2 = x.1 ∨ x.2 = maskChar) :
    Tokenized (l.foldr (fun x ts => Token.prepend x.1 x.2 ts) []) ∧
      textOf (l.foldr (fun x ts => Token.prepend x.1 x.2 ts) []) = l.map Prod.fst ∧
      maskOf (l.foldr (fun x ts => Token.prepend x.1 x.2 ts) []) = l.map Prod.snd := by
  induction l with
  | nil => exact ⟨.nil, rfl, rfl⟩
  | cons x l ih =>
    obtain ⟨hx, hl⟩ := List.forall_mem_cons.1 h
    obtain ⟨htokenized, htext, hmask⟩ := ih hl
    rw [List.foldr_cons, List.map_cons, List.map_cons, textOf_prepend htokenized hx,
      maskOf_prepend, htext, hmask]
    exact ⟨htokenized.prepend hx, rfl, rfl⟩

/-- If no quote is left over and there is no dollar sign, the tokens of a text are tokens of it. -/
theorem tokensOf_tokens {sql : Text}
    (h : ∀ c m, Token.other c m ∈ tokens sql → m ≠ '"' ∧ m ≠ '$') : TokensOf sql (tokens sql) := by
  obtain ⟨htokenized, htext, hmask⟩ :=
    tokens_spec fun x hx => @eq_or_eq_maskChar_of_mem_zip sql x.1 x.2 hx
  have hlength : sql.length = (maskLiterals sql).length := (length_maskLiterals sql).symm
  refine ⟨htokenized.lexed h, htokenized.quoted, ?_, ?_⟩
  · exact htext.trans (List.map_fst_zip hlength.le)
  · exact hmask.trans (List.map_snd_zip hlength.ge)

end QueryGate
