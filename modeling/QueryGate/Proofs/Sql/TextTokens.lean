import QueryGate.Proofs.Sql.AlikeTokens
import QueryGate.Proofs.Sql.Renaming

/-!
# Tokens in the text

Some rules look at the text of a query, literals included. A name and a literal never touch
(`TokensOf.mask_around`), so a run of word characters lies in one name or in one literal
(`TokensOf.exists_wordRun`). When names are replaced, such a run stands in the old text as well,
with the same marks around it, or it is part of a new name (`Renamed.wordRun`).
-/

namespace QueryGate

variable {sql f a b x z : Text} {ts us p q : List Token} {t : Token} {n : Text}

theorem Token.text_of_name (hn : t.name? = some n) : t.text = t.quotes ++ (n ++ t.quotes) := by
  have hname : ∀ c m, t ≠ .other c m := by
    rintro c m rfl
    cases hn
  rw [Token.text_eq_mask hname, Token.mask_of_name hn]

namespace TokensOf

theorem readable (h : TokensOf sql ts) : Readable ts := ⟨h.lexed, h.words⟩

/-- Before and behind a name the text is masked on its own. -/
theorem mask_around (h : TokensOf sql (p ++ t :: q)) (hn : t.name? = some n) :
    maskOf p = maskLiterals (textOf p) ∧ maskOf q = maskLiterals (textOf q) := by
  have hfit := h.lexed.fit t (by simp)
  have hname : ∀ c m, t ≠ .other c m := by
    rintro c m rfl
    cases hn
  have hmask := h.mask
  rw [← h.text] at hmask
  simp only [textOf_append, textOf_cons, maskOf_append, maskOf_cons, ← Token.text_eq_mask hname]
    at hmask
  obtain ⟨hp, hq, -⟩ := maskLiterals_around (Token.no_apostrophe hfit hname)
    (Token.exists_head? hfit hname) (length_maskOf p) hmask.symm
  exact ⟨hp, hq⟩

theorem getLast?_textOf (h : TokensOf sql (p ++ t :: q)) (hn : t.name? = some n) :
    (textOf p).getLast? = (maskOf p).getLast? := by
  rw [(h.mask_around hn).1, getLast?_maskLiterals]

theorem head?_textOf (h : TokensOf sql (p ++ t :: q)) (hn : t.name? = some n) :
    (textOf q).head? = (maskOf q).head? := by
  rw [(h.mask_around hn).2, head?_maskLiterals]

/-- A name stands as a whole word in the text. -/
theorem wholeWord_of_name (h : TokensOf sql (p ++ t :: q)) (hn : t.name? = some n) :
    sql = (textOf p ++ t.quotes) ++ (n ++ (t.quotes ++ textOf q)) ∧
      (textOf p ++ t.quotes).getLast?.any isWordChar = false ∧
      (t.quotes ++ textOf q).head?.any isWordChar = false := by
  obtain ⟨-, hstart, hend⟩ := h.lexed.wholeWord_of_name hn
  refine ⟨?_, ?_, ?_⟩
  · rw [← h.text, textOf_append, textOf_cons, Token.text_of_name hn]
    simp
  · rwa [List.getLast?_append, h.getLast?_textOf hn, ← List.getLast?_append]
  · rwa [List.head?_append, h.head?_textOf hn, ← List.head?_append]

end TokensOf

/-! ## Marks -/

/-- Characters that no name has. -/
def OfMarks (z : Text) : Prop := ∀ c ∈ z, isInName c = false

/-- A text that stands for itself, token by token. -/
def OfOthers (ts : List Token) : Prop := ∀ t ∈ ts, t.name? = none

/-- No marks end where part of a name does. -/
theorem OfMarks.eq_nil_of_end (hz : OfMarks z) (hx : ∀ c ∈ x, isInName c = true) (hne : x ≠ [])
    (h : z <:+ a ++ x) : z = [] := by
  by_contra hzne
  obtain ⟨d, hd⟩ := h
  have hlast := congrArg List.getLast? hd
  rw [List.getLast?_append_of_ne_nil d hzne, List.getLast?_append_of_ne_nil a hne,
    List.getLast?_eq_some_getLast hzne, List.getLast?_eq_some_getLast hne] at hlast
  have hno := hz _ (List.getLast_mem hzne)
  rw [Option.some.inj hlast, hx _ (List.getLast_mem hne)] at hno
  cases hno

/-- No marks begin where part of a name does. -/
theorem OfMarks.eq_nil_of_beginning (hz : OfMarks z) (hx : ∀ c ∈ x, isInName c = true)
    (hne : x ≠ []) (h : z <+: x ++ b) : z = [] := by
  cases z with
  | nil => rfl
  | cons c z =>
    obtain ⟨d, x, rfl⟩ := List.exists_cons_of_ne_nil hne
    obtain ⟨r, hr⟩ := h
    obtain ⟨rfl, -⟩ := List.cons.inj hr
    have hno := hz c List.mem_cons_self
    rw [hx c List.mem_cons_self] at hno
    cases hno

theorem Readable.isInName_of_mem_text (h : Readable ts) (ht : t ∈ ts) (hn : t.name? = some n)
    {c : Char} (hc : c ∈ t.text) : isInName c = true := by
  obtain ⟨p, q, rfl⟩ := List.append_of_mem ht
  refine (Readable.of_append h).2.isInName_of_name hn c ?_
  cases t with
  | word w => exact hc
  | quoted w => exact hc
  | other c m => cases hn

/-- A character that no name has is a token. -/
theorem Readable.exists_mark (h : Readable ts) {c : Char} (hc : isInName c = false)
    (hts : textOf ts = a ++ c :: b) :
    ∃ p m q, ts = p ++ .other c m :: q ∧ textOf p = a ∧ textOf q = b := by
  induction ts generalizing a with
  | nil => exact absurd hts (by simp)
  | cons t ts ih =>
    have hlater : ∀ a', textOf ts = a' ++ c :: b → a = t.text ++ a' →
        ∃ p m q, t :: ts = p ++ .other c m :: q ∧ textOf p = a ∧ textOf q = b := by
      rintro a' hts' rfl
      obtain ⟨p, m, q, rfl, rfl, rfl⟩ := ih h.tail hts'
      exact ⟨t :: p, m, q, rfl, rfl, rfl⟩
    rw [textOf_cons] at hts
    obtain ⟨a', rfl, ha'⟩ | ⟨y, hy, hrest⟩ := List.append_eq_append_iff.1 hts
    · exact hlater a' ha' rfl
    cases y with
    | nil => exact hlater [] (by simpa using hrest.symm) (by simpa using hy.symm)
    | cons d y =>
      obtain ⟨rfl, rfl⟩ := List.cons.inj hrest
      have hmem : c ∈ t.text := by
        rw [hy]
        simp
      have hname {n : Text} (hn : t.name? = some n) : False := by
        have := h.isInName_of_mem_text List.mem_cons_self hn hmem
        rw [hc] at this
        cases this
      cases t with
      | word w => exact (hname rfl).elim
      | quoted w => exact (hname rfl).elim
      | other d m =>
        have hlen : a.length = 0 := by
          have := congrArg List.length hy
          simp only [Token.text, List.length_append, List.length_cons, List.length_nil] at this
          omega
        obtain rfl := List.length_eq_zero_iff.1 hlen
        obtain ⟨rfl, rfl⟩ := List.cons.inj hy
        exact ⟨[], m, ts, rfl, rfl, rfl⟩

theorem Readable.exists_marks (h : Readable ts) (hz : OfMarks z) (hne : z ≠ [])
    (hts : textOf ts = a ++ (z ++ b)) :
    ∃ p v q, ts = p ++ (v ++ q) ∧ textOf p = a ∧ textOf v = z ∧ textOf q = b ∧ OfOthers v := by
  induction z generalizing ts a with
  | nil => exact absurd rfl hne
  | cons c z ih =>
    obtain ⟨p, m, q, rfl, hp, hq⟩ := h.exists_mark (hz c List.mem_cons_self) hts
    have hc : OfOthers [Token.other c m] := by
      intro t ht
      rw [List.mem_singleton.1 ht]
      rfl
    cases z with
    | nil => exact ⟨p, [.other c m], q, rfl, hp, rfl, hq, hc⟩
    | cons d z =>
      obtain ⟨p', v, q', hsplit, hp', hv, hq', hothers⟩ :=
        ih ((Readable.of_append h).2.tail) (a := []) (fun e he => hz e (List.mem_cons_of_mem c he))
          (List.cons_ne_nil _ _) hq
      have hlexed := (Readable.of_append h).2.tail.lexed
      rw [hsplit] at hlexed
      have hnil := (Lexed.of_append hlexed).1.eq_nil (by rw [length_maskOf, hp']; rfl)
      subst hnil
      refine ⟨p, .other c m :: v, q', by rw [hsplit]; simp, hp, ?_, hq', ?_⟩
      · simp [hv, Token.text]
      · intro t ht
        rcases List.mem_cons.1 ht with rfl | ht
        · rfl
        · exact hothers t ht

/-! ## Runs of word characters -/

/-- A run that does not go on behind some characters lies in them. -/
theorem exists_part_of_run {y r : Text} (hx : ∀ c ∈ x, isWordChar c = true)
    (hr : r.head?.any isWordChar = false) (h : x ++ b = y ++ r) : ∃ m, y = x ++ m ∧ b = m ++ r := by
  obtain ⟨m, rfl, hm⟩ | ⟨m, rfl, hm⟩ := List.append_eq_append_iff.1 h
  · exact ⟨m, rfl, hm⟩
  · cases m with
    | nil => exact ⟨[], by simp, by simpa using hm.symm⟩
    | cons c m =>
      rw [hm, List.cons_append, List.head?_cons, Option.any_some, hx c (by simp)] at hr
      cases hr

/-- A run of word characters is part of a name. -/
structure InName (ts : List Token) (a x b : Text) (q : List Token) (t : Token) (r : List Token)
    (l m : Text) : Prop where
  tokens : ts = q ++ t :: r
  name : t.name? = some (l ++ (x ++ m))
  before : a = textOf q ++ (t.quotes ++ l)
  behind : b = m ++ (t.quotes ++ textOf r)

/-- A run of word characters is a part of literals. -/
structure InLiterals (ts : List Token) (a x b : Text) (q v r : List Token) : Prop where
  tokens : ts = q ++ (v ++ r)
  before : textOf q = a
  run : textOf v = x
  behind : textOf r = b
  others : OfOthers v

theorem InName.cons {q r : List Token} {l m : Text} (h : InName ts a x b q t r l m) (u : Token) :
    InName (u :: ts) (u.text ++ a) x b (u :: q) t r l m :=
  ⟨by rw [h.tokens]; rfl, h.name, by rw [h.before, textOf_cons, List.append_assoc], h.behind⟩

theorem InLiterals.cons {q v r : List Token} (h : InLiterals ts a x b q v r) (u : Token) :
    InLiterals (u :: ts) (u.text ++ a) x b (u :: q) v r :=
  ⟨by rw [h.tokens]; rfl, by rw [textOf_cons, h.before], h.run, h.behind, h.others⟩

theorem InLiterals.single (ts : List Token) (c m : Char) :
    InLiterals (.other c m :: ts) [] [c] (textOf ts) [] [.other c m] ts :=
  ⟨rfl, rfl, rfl, rfl, fun _ ht => List.mem_singleton.1 ht ▸ rfl⟩

/-- A run of literals can be longer at its beginning. -/
theorem InLiterals.cons_run {v r : List Token} (h : InLiterals ts [] x b [] v r) (c m : Char) :
    InLiterals (.other c m :: ts) [] (c :: x) b [] (.other c m :: v) r := by
  refine ⟨by rw [h.tokens]; rfl, rfl, by rw [textOf_cons, h.run]; rfl, h.behind, fun t ht => ?_⟩
  rcases List.mem_cons.1 ht with rfl | ht
  · rfl
  · exact h.others t ht

/-- A run that begins in a name is part of it. -/
theorem TokensOf.exists_inName {y : Text} (h : TokensOf sql (p ++ t :: ts)) (hn : t.name? = some n)
    (hx : ∀ c ∈ x, isWordChar c = true) (hne : x ≠ []) (hy : t.text = a ++ y) (hyne : y ≠ [])
    (hrest : x ++ b = y ++ textOf ts) : ∃ l m, InName (t :: ts) a x b [] t ts l m := by
  have hhead : ∃ d z, y = d :: z ∧ isWordChar d = true := by
    obtain ⟨d, z, rfl⟩ := List.exists_cons_of_ne_nil hyne
    obtain ⟨e, x, rfl⟩ := List.exists_cons_of_ne_nil hne
    obtain ⟨rfl, -⟩ := List.cons.inj hrest
    exact ⟨e, z, rfl, hx e List.mem_cons_self⟩
  obtain ⟨d, z, rfl, hd⟩ := hhead
  cases t with
  | word w =>
    obtain ⟨-, -, hend⟩ := h.wholeWord_of_name rfl
    obtain ⟨m, hm, rfl⟩ := exists_part_of_run hx hend hrest
    rw [hm] at hy
    exact ⟨a, m, rfl, congrArg some hy, rfl, rfl⟩
  | quoted w =>
    cases a with
    | nil =>
      obtain ⟨rfl, -⟩ := List.cons.inj hy
      exact absurd rfl (isWordChar_ne_quote hd)
    | cons e a =>
      obtain ⟨rfl, hw⟩ := List.cons.inj hy
      change w ++ ['"'] = a ++ d :: z at hw
      obtain ⟨y, c, hz⟩ := (List.eq_nil_or_concat (d :: z)).resolve_left (List.cons_ne_nil _ _)
      rw [List.concat_eq_append] at hz
      rw [hz, ← List.append_assoc] at hw
      obtain ⟨rfl, hc⟩ := List.append_inj' hw rfl
      obtain rfl := List.singleton_inj.1 hc
      rw [hz, List.append_assoc] at hrest
      obtain ⟨m, rfl, rfl⟩ := exists_part_of_run hx (by rfl) hrest
      exact ⟨a, m, rfl, rfl, rfl, rfl⟩
  | other c m => cases hn

theorem Token.Fit.isWordChar_eq_false {c m : Char} (h : (Token.other c m).Fit) :
    isWordChar m = false := by
  by_contra hm
  have hno : isNamePart m = false := h.1
  rw [isNamePart_of_isWordChar (by simpa using hm)] at hno
  cases hno

/-- A name never follows a masked character. -/
theorem TokensOf.not_masked_before_name {c m : Char}
    (h : TokensOf sql (p ++ .other c m :: t :: q)) (hn : t.name? = some n) :
    isWordChar c = false := by
  have h' : TokensOf sql ((p ++ [.other c m]) ++ t :: q) := by simpa using h
  have hlast := h'.getLast?_textOf hn
  simp only [textOf_append, maskOf_append, textOf_cons, maskOf_cons, Token.text, Token.mask,
    textOf_nil, maskOf_nil, List.append_nil, List.getLast?_concat] at hlast
  rw [Option.some.inj hlast]
  exact (h.lexed.fit (.other c m) (by simp)).isWordChar_eq_false

/-- A name never stands before a masked character. -/
theorem TokensOf.not_masked_behind_name {c m : Char}
    (h : TokensOf sql (p ++ t :: .other c m :: q)) (hn : t.name? = some n) :
    isWordChar c = false := by
  have hhead := h.head?_textOf hn
  simp only [textOf_cons, maskOf_cons, Token.text, Token.mask, List.singleton_append,
    List.head?_cons] at hhead
  rw [Option.some.inj hhead]
  exact (h.lexed.fit (.other c m) (by simp)).isWordChar_eq_false

theorem Lexed.eq_nil_of_text {q r : List Token} {a : Text} (h : Lexed (q ++ r))
    (ha : [] = textOf q ++ a) : q = [] := by
  refine (Lexed.of_append h).1.eq_nil ?_
  rw [length_maskOf, (List.append_eq_nil_iff.1 ha.symm).1]
  rfl

/-- A run of word characters is part of a name, or it lies in literals. -/
theorem TokensOf.exists_wordRun (h : TokensOf sql (p ++ ts)) (hx : ∀ c ∈ x, isWordChar c = true)
    (hne : x ≠ []) (hts : textOf ts = a ++ (x ++ b)) :
    (∃ q t r l m, InName ts a x b q t r l m) ∨ ∃ q v r, InLiterals ts a x b q v r := by
  induction ts generalizing p a x with
  | nil => exact absurd hts (by simp [hne])
  | cons t ts ih =>
    have h' : TokensOf sql ((p ++ [t]) ++ ts) := by simpa using h
    have hlexed := (Lexed.of_append h'.lexed).2
    have hlater : ∀ a', textOf ts = a' ++ (x ++ b) → a = t.text ++ a' →
        (∃ q u r l m, InName (t :: ts) a x b q u r l m) ∨
          ∃ q v r, InLiterals (t :: ts) a x b q v r := by
      rintro a' hts' rfl
      exact (ih h' hx hne hts').imp (fun ⟨q, u, r, l, m, hin⟩ => ⟨t :: q, u, r, l, m, hin.cons t⟩)
        fun ⟨q, v, r, hin⟩ => ⟨t :: q, v, r, hin.cons t⟩
    rw [textOf_cons] at hts
    obtain ⟨a', rfl, ha'⟩ | ⟨y, hy, hrest⟩ := List.append_eq_append_iff.1 hts
    · exact hlater a' ha' rfl
    by_cases hyne : y = []
    · subst hyne
      exact hlater [] (by simpa using hrest.symm) (by simpa using hy.symm)
    have hname {n : Text} (hn : t.name? = some n) :
        ∃ q u r l m, InName (t :: ts) a x b q u r l m := by
      obtain ⟨l, m, hin⟩ := h.exists_inName hn hx hne hy hyne hrest
      exact ⟨[], t, ts, l, m, hin⟩
    cases t with
    | word w => exact .inl (hname rfl)
    | quoted w => exact .inl (hname rfl)
    | other c m =>
      -- The run begins with a character of a literal, and so does the rest of it, if there is any.
      right
      obtain ⟨rfl, rfl⟩ : a = [] ∧ y = [c] := by
        cases a with
        | nil => exact ⟨rfl, hy.symm⟩
        | cons e a => exact absurd (List.append_eq_nil_iff.1 (List.cons.inj hy).2.symm).2 hyne
      obtain ⟨e, x, rfl⟩ := List.exists_cons_of_ne_nil hne
      obtain ⟨rfl, htail⟩ := List.cons.inj hrest
      change x ++ b = textOf ts at htail
      by_cases hxne : x = []
      · subst hxne
        obtain rfl : b = textOf ts := htail
        exact ⟨[], [.other e m], ts, .single ts e m⟩
      have hx' : ∀ c ∈ x, isWordChar c = true := fun c hc => hx c (List.mem_cons_of_mem e hc)
      rcases ih (a := []) h' hx' hxne htail.symm with ⟨q, u, r, l, k, hin⟩ | ⟨q, v, r, hin⟩
      · have htokens := hin.tokens
        obtain rfl := Lexed.eq_nil_of_text (htokens ▸ hlexed) hin.before
        subst htokens
        have := h.not_masked_before_name hin.name
        rw [hx e List.mem_cons_self] at this
        cases this
      · have hlexed' : Lexed (q ++ (v ++ r)) := hin.tokens ▸ hlexed
        obtain rfl := @Lexed.eq_nil_of_text q _ [] hlexed' (by rw [hin.before]; rfl)
        exact ⟨[], .other e m :: v, r, hin.cons_run e m⟩

/-! ## Renamed queries -/

variable {names : Text → Prop}

/-- A token that is swapped for another is a name, as the other is. -/
theorem Swap.eq_or_named {u : Token} (h : Swap names t u) :
    t = u ∨ ∃ m n, t.name? = some m ∧ u.name? = some n ∧ names n ∧
      (t.quotes = [] → isKeyword m = false) := by
  cases h with
  | same => exact .inl rfl
  | @word w n hw hn => exact .inr ⟨w, n, rfl, rfl, hn, fun _ => hw⟩
  | @quote w n hw hn => exact .inr ⟨w, n, rfl, rfl, hn, fun _ => hw⟩
  | @quoted w n hn => exact .inr ⟨w, n, rfl, rfl, hn, nofun⟩

namespace Renamed

/-- Characters that are no names are left as they are. -/
theorem others (h : Renamed names ts us) (ho : OfOthers ts ∨ OfOthers us) : ts = us := by
  induction h with
  | nil => rfl
  | @cons t u ts us htu _ ih =>
    rcases htu.eq_or_named with rfl | ⟨m, n, hm, hn, -⟩
    · rw [ih (ho.imp (fun h v hv => h v (List.mem_cons_of_mem t hv))
        fun h v hv => h v (List.mem_cons_of_mem t hv))]
    · rcases ho with ho | ho
      · rw [ho t List.mem_cons_self] at hm
        cases hm
      · rw [ho u List.mem_cons_self] at hn
        cases hn

theorem exists_cons {u : Token} (h : Renamed names ts (p ++ u :: q)) :
    ∃ p' t q', ts = p' ++ t :: q' ∧ Renamed names p' p ∧ Swap names t u ∧ Renamed names q' q := by
  obtain ⟨p', r, rfl, hp, hr⟩ := h.of_append_right
  obtain ⟨t, q', htu, hq, rfl⟩ := List.forall₂_cons_right_iff.1 hr
  exact ⟨p', t, q', rfl, hp, htu, hq⟩

theorem exists_cons_left (h : Renamed names (p ++ t :: q) us) :
    ∃ p' u q', us = p' ++ u :: q' ∧ Renamed names p p' ∧ Swap names t u ∧ Renamed names q q' := by
  have hp := List.forall₂_take_append us p (t :: q) h.flip
  obtain ⟨u, q', htu, hq, hdrop⟩ :=
    List.forall₂_cons_right_iff.1 (List.forall₂_drop_append us p (t :: q) h.flip)
  refine ⟨us.take p.length, u, q', ?_, hp.flip, htu, hq.flip⟩
  rw [← hdrop, List.take_append_drop]

/-- Marks at the end are there before and after. -/
theorem marks_at_end (h : Renamed names ts us) (hus : Readable us) (hz : OfMarks z)
    (hend : z <:+ textOf us) : z <:+ textOf ts := by
  by_cases hne : z = []
  · rw [hne]
    exact List.nil_suffix
  obtain ⟨a, ha⟩ := hend
  obtain ⟨p, v, q, rfl, -, rfl, hq, hothers⟩ :=
    @Readable.exists_marks a [] z us hus hz hne (by rw [List.append_nil, ha])
  obtain ⟨p', r, rfl, -, hr⟩ := h.of_append_right
  obtain ⟨v', q', rfl, hv, hq'⟩ := Renamed.of_append_right hr
  obtain rfl := hv.others (.inr hothers)
  obtain rfl := (Readable.of_append (Readable.of_append hus).2).2.lexed.eq_nil
    (by rw [length_maskOf, hq]; rfl)
  obtain rfl := List.forall₂_nil_right_iff.1 hq'
  exact ⟨textOf p', by simp⟩

/-- Marks at the beginning are there before and after. -/
theorem marks_at_beginning (h : Renamed names ts us) (hus : Readable us) (hz : OfMarks z)
    (hbegin : z <+: textOf us) : z <+: textOf ts := by
  by_cases hne : z = []
  · rw [hne]
    exact List.nil_prefix
  obtain ⟨b, hb⟩ := hbegin
  obtain ⟨p, v, q, rfl, hp, rfl, -, hothers⟩ := @Readable.exists_marks [] b z us hus hz hne hb.symm
  obtain rfl := (Readable.of_append hus).1.lexed.eq_nil (by rw [length_maskOf, hp]; rfl)
  rw [List.nil_append] at h
  obtain ⟨v', q', rfl, hv, -⟩ := h.of_append_right
  obtain rfl := hv.others (.inr hothers)
  exact ⟨textOf q', by simp⟩

end Renamed

/-- The same marks stand at two places, and a word begins at the second if one begins at the
first. -/
structure SameAround (a b a' b' : Text) : Prop where
  start : a.getLast?.any isWordChar = false → a'.getLast?.any isWordChar = false
  before : ∀ z, OfMarks z → z <:+ a → z <:+ a'
  behind : ∀ z, OfMarks z → z <+: b → z <+: b'

theorem Readable.isWord_of_name (h : Readable (p ++ t :: q)) (hn : t.name? = some n) :
    IsWord n := by
  cases t with
  | word w =>
    obtain rfl := Option.some.inj hn
    exact h.lexed.fit (.word w) (by simp)
  | quoted w =>
    obtain rfl := Option.some.inj hn
    exact h.words w (by simp)
  | other c m => cases hn

namespace InName

variable {r : List Token} {l m : Text}

/-- A part that begins a word begins the name. -/
theorem eq_nil_of_start (h : InName ts a x b q t r l m) (hts : Readable ts)
    (ha : a.getLast?.any isWordChar = false) : l = [] := by
  by_contra hl
  have hword := (h.tokens ▸ hts).isWord_of_name h.name
  rw [h.before, ← List.append_assoc, getLast?_any_append _ hl,
    List.getLast?_eq_some_getLast hl, Option.any_some,
    hword.2 _ (List.mem_append_left _ (List.getLast_mem hl))] at ha
  cases ha

/-- A part that no word character follows ends the name. -/
theorem eq_nil_of_end (h : InName ts a x b q t r l m) (hts : Readable ts)
    (hb : b.head?.any isWordChar = false) : m = [] := by
  by_contra hm
  have hword := (h.tokens ▸ hts).isWord_of_name h.name
  obtain ⟨c, m, rfl⟩ := List.exists_cons_of_ne_nil hm
  rw [h.behind, List.cons_append, List.head?_cons, Option.any_some, hword.2 c (by simp)] at hb
  cases hb

theorem isInName (h : InName ts a x b q t r l m) (hts : Readable ts) :
    (∀ c ∈ t.quotes ++ l, isInName c = true) ∧ ∀ c ∈ m ++ t.quotes, isInName c = true := by
  have hword := (h.tokens ▸ hts).isWord_of_name h.name
  have hquotes : ∀ c ∈ t.quotes, QueryGate.isInName c = true := by
    cases t with
    | quoted w =>
      intro c hc
      rw [List.mem_singleton.1 hc]
      rfl
    | _ => exact nofun
  constructor <;> intro c hc <;> rcases List.mem_append.1 hc with hc | hc
  · exact hquotes c hc
  · simp [QueryGate.isInName, hword.2 c (by simp [hc])]
  · simp [QueryGate.isInName, hword.2 c (by simp [hc])]
  · exact hquotes c hc

/-- Marks before a part of a name stand before the name, without quotes between. -/
theorem marks_before (h : InName ts a x b q t r l m) (hts : Readable ts) (hz : OfMarks z)
    (hend : z <:+ a) : z <:+ textOf q ∧ (z = [] ∨ t.quotes ++ l = []) := by
  rw [h.before] at hend
  by_cases hnil : t.quotes ++ l = []
  · rw [hnil, List.append_nil] at hend
    exact ⟨hend, .inr hnil⟩
  · rw [hz.eq_nil_of_end (h.isInName hts).1 hnil hend]
    exact ⟨List.nil_suffix, .inl rfl⟩

/-- Marks behind a part of a name stand behind the name, without quotes between. -/
theorem marks_behind (h : InName ts a x b q t r l m) (hts : Readable ts) (hz : OfMarks z)
    (hbegin : z <+: b) : z <+: textOf r ∧ (z = [] ∨ m ++ t.quotes = []) := by
  rw [h.behind, ← List.append_assoc] at hbegin
  by_cases hnil : m ++ t.quotes = []
  · rw [hnil, List.nil_append] at hbegin
    exact ⟨hbegin, .inr hnil⟩
  · rw [hz.eq_nil_of_beginning (h.isInName hts).2 hnil hbegin]
    exact ⟨List.nil_prefix, .inl rfl⟩

/-- Around a name that is left as it is nothing changes but other names. -/
theorem sameAround {q' r' : List Token} (h : InName us a x b q t r l m) (hus : TokensOf f us)
    (hts : TokensOf sql (q' ++ t :: r')) (hq : Renamed names q' q) (hr : Renamed names r' r) :
    SameAround a b (textOf q' ++ (t.quotes ++ l)) (m ++ (t.quotes ++ textOf r')) := by
  have hreadable := h.tokens ▸ hus.readable
  constructor
  · intro ha
    obtain rfl := h.eq_nil_of_start hus.readable ha
    rw [List.append_nil]
    exact (hts.wholeWord_of_name h.name).2.1
  · intro z hz hend
    obtain ⟨hend, rfl | hnil⟩ := h.marks_before hus.readable hz hend
    · exact List.nil_suffix
    · rw [hnil, List.append_nil]
      exact hq.marks_at_end (Readable.of_append hreadable).1 hz hend
  · intro z hz hbegin
    obtain ⟨hbegin, rfl | hnil⟩ := h.marks_behind hus.readable hz hbegin
    · exact List.nil_prefix
    · rw [← List.append_assoc, hnil, List.nil_append]
      exact hr.marks_at_beginning (Readable.of_append hreadable).2.tail hz hbegin

end InName

namespace InLiterals

variable {v r : List Token}

/-- Around a part of literals nothing changes but names. -/
theorem sameAround {q' r' : List Token} (h : InLiterals us a x b q v r)
    (hx : ∀ c ∈ x, isWordChar c = true) (hne : x ≠ []) (hus : TokensOf f us)
    (hq : Renamed names q' q) (hr : Renamed names r' r) :
    SameAround a b (textOf q') (textOf r') := by
  have hreadable := h.tokens ▸ hus.readable
  obtain rfl := h.before
  obtain rfl := h.behind
  constructor
  · intro ha
    rcases List.eq_nil_or_concat q with rfl | ⟨q, u, rfl⟩
    · rw [List.forall₂_nil_right_iff.1 hq]
      rfl
    rw [List.concat_eq_append] at *
    obtain ⟨p, t, s, rfl, -, htu, hs⟩ := hq.exists_cons
    obtain rfl := List.forall₂_nil_right_iff.1 hs
    have hname {n : Text} (hn : u.name? = some n) : False := by
      have hv : ∃ c m v', v = .other c m :: v' ∧ isWordChar c = true := by
        cases v with
        | nil => exact absurd h.run.symm hne
        | cons w v =>
          have hw := h.others w List.mem_cons_self
          cases w with
          | word => cases hw
          | quoted => cases hw
          | other c m => exact ⟨c, m, v, rfl, hx c (by rw [← h.run]; exact List.mem_cons_self)⟩
      obtain ⟨c, m, v', rfl, hc⟩ := hv
      have htokens := h.tokens
      rw [List.append_assoc] at htokens
      have := (htokens ▸ hus).not_masked_behind_name hn
      rw [hc] at this
      cases this
    cases u with
    | word => exact (hname rfl).elim
    | quoted => exact (hname rfl).elim
    | other c m =>
      cases htu with
      | same =>
        have hlast (p : List Token) : (textOf (p ++ [.other c m])).getLast? = some c := by
          simp [Token.text]
        rwa [hlast] at ha ⊢
  · intro z hz hend
    exact hq.marks_at_end (Readable.of_append hreadable).1 hz hend
  · intro z hz hbegin
    exact hr.marks_at_beginning (Readable.of_append (Readable.of_append hreadable).2).2 hz hbegin

end InLiterals

/-- A run of word characters of a renamed query stands in the query as well, or it is part of a
name that is new. -/
theorem Renamed.wordRun (h : Renamed names ts us) (hts : TokensOf sql ts) (hus : TokensOf f us)
    (hx : ∀ c ∈ x, isWordChar c = true) (hne : x ≠ []) (hf : f = a ++ (x ++ b)) :
    (∃ a' b', sql = a' ++ (x ++ b') ∧ SameAround a b a' b') ∨
      ∃ q t r l m q' t' r', InName us a x b q t r l m ∧ names (l ++ (x ++ m)) ∧
        ts = q' ++ t' :: r' ∧ Renamed names q' q ∧ t'.name?.isSome = true := by
  have hrun := @TokensOf.exists_wordRun f a b x us [] hus hx hne (by rw [hus.text, hf])
  rcases hrun with ⟨q, t, r, l, m, hin⟩ | ⟨q, v, r, hin⟩
  · obtain ⟨q', t', r', rfl, hq, htt, hr⟩ := (hin.tokens ▸ h).exists_cons
    rcases htt.eq_or_named with rfl | ⟨w, n, ht', ht, hn, -⟩
    · refine .inl ⟨_, _, ?_, hin.sameAround hus hts hq hr⟩
      rw [(hts.wholeWord_of_name hin.name).1]
      simp
    · obtain rfl := Option.some.inj (ht.symm.trans hin.name)
      exact .inr ⟨q, t, r, l, m, q', t', r', hin, hn, rfl, hq, by rw [ht']; rfl⟩
  · obtain ⟨q', w, rfl, hq, hw⟩ := (hin.tokens ▸ h).of_append_right
    obtain ⟨v', r', rfl, hv, hr⟩ := Renamed.of_append_right hw
    obtain rfl := hv.others (.inr hin.others)
    refine .inl ⟨textOf q', textOf r', ?_, hin.sameAround hx hne hus hq hr⟩
    rw [← hts.text, ← hin.run]
    simp

end QueryGate
