import QueryGate.Proofs.Sql.LiteralMask
import QueryGate.Proofs.Sql.Names

/-!
# Tokens

A query is cut into words, names in quotes, and single other characters (`Lexed`). A token knows
how it stands in the text and how in the mask, which differ only in the characters of a literal.
A reading begins at a token if it begins outside words and quotes (`Lexed.exists_cut`), and a name
that it reads there is one token (`Lexed.exists_name`).
-/

namespace QueryGate

/-- One or more word characters. -/
def IsWord (w : Text) : Prop := w ≠ [] ∧ ∀ c ∈ w, isWordChar c = true

theorem isWord_of_spells {word x : Text} (hne : word ≠ [])
    (hword : ∀ c ∈ word.map foldLetter, c.isLower = true) (hx : Spells word x) : IsWord x := by
  refine ⟨fun hnil => hne ?_, fun c hc => isWordChar_of_isLower_foldLetter (hword _ (hx.mem hc))⟩
  rw [hnil] at hx
  exact List.length_eq_zero_iff.1 hx.length_eq.symm

/-- A part of a query. -/
inductive Token
  | word (w : Text)
  /-- A name with quotes around it. -/
  | quoted (w : Text)
  /-- Any other character, as it stands and as the mask of literals shows it. -/
  | other (c masked : Char)
deriving DecidableEq

namespace Token

/-- How a token stands in the text. -/
def text : Token → Text
  | word w => w
  | quoted w => inQuotes w
  | other c _ => [c]

/-- How a token stands in the mask of the text. -/
def mask : Token → Text
  | word w => w
  | quoted w => inQuotes w
  | other _ m => [m]

/-- What is a token and not several, or a part of one. -/
def Fit : Token → Prop
  | word w => IsWord w
  | quoted w => w ≠ [] ∧ ∀ c ∈ w, c ≠ '"' ∧ c ≠ '\''
  | other _ m => isNamePart m = false ∧ m ≠ '"'

theorem length_mask (t : Token) : t.mask.length = t.text.length := by
  cases t <;> rfl

theorem mask_ne_nil {t : Token} (h : t.Fit) : t.mask ≠ [] := by
  cases t with
  | word w => exact h.1
  | quoted w => exact List.cons_ne_nil _ _
  | other c m => exact List.cons_ne_nil _ _

/-- What is left of a name in quotes is the end of the name and the closing quote. -/
theorem exists_suffix_of_quoted {w x y : Text} (h : (quoted w).mask = x ++ y) (hx : x ≠ [])
    (hy : y ≠ []) : ∃ z, y = z ++ ['"'] ∧ z <:+ w := by
  obtain ⟨c, x, rfl⟩ := List.exists_cons_of_ne_nil hx
  obtain ⟨a, -, ha⟩ | ⟨a, rfl, ha⟩ := List.append_eq_append_iff.1 (List.cons.inj h).2
  · cases a with
    | nil => exact ⟨[], ha.symm, List.nil_suffix⟩
    | cons d a => exact absurd (List.append_eq_nil_iff.1 (List.cons.inj ha).2.symm).2 hy
  · exact ⟨a, ha, List.suffix_append x a⟩

/-- A token of one character is not cut. -/
theorem not_cut_of_other {c m : Char} {x y : Text} (h : (other c m).mask = x ++ y) (hx : x ≠ [])
    (hy : y ≠ []) : False := by
  have hlen := congrArg List.length h
  have := List.length_pos_iff.2 hx
  have := List.length_pos_iff.2 hy
  rw [mask, List.length_singleton, List.length_append] at hlen
  omega

end Token

/-- The text of some tokens. -/
def textOf (ts : List Token) : Text := ts.flatMap Token.text

/-- The mask of some tokens. -/
def maskOf (ts : List Token) : Text := ts.flatMap Token.mask

@[simp] theorem textOf_nil : textOf [] = [] := rfl

@[simp] theorem textOf_cons (t : Token) (ts : List Token) :
    textOf (t :: ts) = t.text ++ textOf ts := List.flatMap_cons

@[simp] theorem textOf_append (ts us : List Token) : textOf (ts ++ us) = textOf ts ++ textOf us :=
  List.flatMap_append

@[simp] theorem maskOf_nil : maskOf [] = [] := rfl

@[simp] theorem maskOf_cons (t : Token) (ts : List Token) :
    maskOf (t :: ts) = t.mask ++ maskOf ts := List.flatMap_cons

@[simp] theorem maskOf_append (ts us : List Token) : maskOf (ts ++ us) = maskOf ts ++ maskOf us :=
  List.flatMap_append

theorem length_maskOf (ts : List Token) : (maskOf ts).length = (textOf ts).length := by
  induction ts with
  | nil => rfl
  | cons t ts ih =>
    simp only [maskOf_cons, textOf_cons, List.length_append, Token.length_mask, ih]

/-- What stands behind a cut is in front of another, unless that one comes first. -/
theorem exists_append_of_not_prefix {α : Type} {x : α} {p q p' r : List α}
    (h : p ++ x :: q = p' ++ r) (hnot : ¬ p' <+: p) : ∃ a, p' = p ++ x :: a ∧ q = a ++ r := by
  obtain ⟨a, rfl, ha⟩ | ⟨a, rfl, -⟩ := List.append_eq_append_iff.1 h
  · cases a with
    | nil => exact absurd (by simp) hnot
    | cons y a =>
      obtain ⟨rfl, hq⟩ := List.cons.inj ha
      exact ⟨a, rfl, hq⟩
  · exact absurd (List.prefix_append p' a) hnot

theorem exists_append_of_lt {t : Token} {p q p' r : List Token} (h : p ++ t :: q = p' ++ r)
    (hlt : (maskOf p).length < (maskOf p').length) : ∃ a, p' = p ++ t :: a ∧ q = a ++ r := by
  refine exists_append_of_not_prefix h ?_
  rintro ⟨a, rfl⟩
  rw [maskOf_append, List.length_append] at hlt
  omega

/-- Tokens that are read back from the mask: each is one, and no word follows a word. -/
structure Lexed (ts : List Token) : Prop where
  fit : ∀ t ∈ ts, t.Fit
  apart : ∀ p w v q, ts ≠ p ++ Token.word w :: Token.word v :: q

/-- Each name in quotes is a single word. -/
def QuotesHoldWords (ts : List Token) : Prop := ∀ w, Token.quoted w ∈ ts → IsWord w

theorem QuotesHoldWords.of_append {ts us : List Token} (h : QuotesHoldWords (ts ++ us)) :
    QuotesHoldWords ts ∧ QuotesHoldWords us :=
  ⟨fun w hw => h w (List.mem_append_left us hw), fun w hw => h w (List.mem_append_right ts hw)⟩

/-- A character that no name begins behind. -/
def isInName (c : Char) : Bool := isWordChar c || c == '"'

theorem isWordChar_ne_quote {c : Char} (h : isWordChar c = true) : c ≠ '"' := by
  rintro rfl
  exact absurd h (by decide)

theorem Token.isInName_of_mem {t : Token} (h : t.Fit) (hq : QuotesHoldWords [t])
    (ht : t.mask.length ≠ 1) {c : Char} (hc : c ∈ t.mask) : isInName c = true := by
  cases t with
  | word w => simp [isInName, h.2 c hc]
  | quoted w =>
    rcases List.mem_cons.1 hc with rfl | hc
    · decide
    rcases List.mem_append.1 hc with hc | hc
    · simp [isInName, (hq w (List.mem_singleton_self _)).2 c hc]
    · rw [List.mem_singleton.1 hc]
      decide
  | other c m => exact absurd rfl ht

theorem getLast?_any_append {p : Char → Bool} (a : Text) {b : Text} (hb : b ≠ []) :
    (a ++ b).getLast?.any p = b.getLast?.any p := by
  rw [List.getLast?_append, List.getLast?_eq_some_getLast hb]
  rfl

namespace Lexed

variable {ts us : List Token} {t : Token}

theorem of_append (h : Lexed (ts ++ us)) : Lexed ts ∧ Lexed us := by
  constructor
  · refine ⟨fun t ht => h.fit t (List.mem_append_left us ht), fun p w v q hts => ?_⟩
    exact h.apart p w v (q ++ us) (by rw [hts]; simp)
  · refine ⟨fun t ht => h.fit t (List.mem_append_right ts ht), fun p w v q hus => ?_⟩
    exact h.apart (ts ++ p) w v q (by rw [hus]; simp)

theorem tail (h : Lexed (t :: ts)) : Lexed ts := (@of_append [t] ts h).2

theorem take (h : Lexed ts) (n : Nat) : Lexed (ts.take n) :=
  (of_append (by rwa [List.take_append_drop])).1

/-- What is written in blanks is no name. -/
theorem exists_other_of_blank (h : Lexed ts) (hblank : allBlank (maskOf ts) = true) (ht : t ∈ ts) :
    ∃ c m, t = .other c m := by
  have hall : ∀ c ∈ t.mask, isBlank c = true := fun c hc =>
    List.all_eq_true.1 hblank c (List.mem_flatMap.2 ⟨t, ht, hc⟩)
  have hfit := h.fit t ht
  cases t with
  | word w =>
    obtain ⟨c, w, rfl⟩ := List.exists_cons_of_ne_nil hfit.1
    have hc := isWordChar_eq_false_of_isBlank (hall c List.mem_cons_self)
    rw [hfit.2 c List.mem_cons_self] at hc
    cases hc
  | quoted w => exact absurd (hall '"' List.mem_cons_self) (by decide)
  | other c m => exact ⟨c, m, rfl⟩

theorem not_mem_word_of_blank (h : Lexed ts) (hblank : allBlank (maskOf ts) = true) (w : Text) :
    .word w ∉ ts := by
  intro hmem
  obtain ⟨c, m, hother⟩ := h.exists_other_of_blank hblank hmem
  cases hother

/-- A token goes in front of others unless both are words. -/
theorem cons (h : Lexed ts) (ht : t.Fit)
    (hnext : (∃ w, t = .word w) → ∀ v us, ts ≠ .word v :: us) : Lexed (t :: ts) := by
  constructor
  · intro u hu
    rcases List.mem_cons.1 hu with rfl | hu
    · exact ht
    · exact h.fit u hu
  · rintro (_ | ⟨p, ps⟩) w v q hts
    · obtain ⟨rfl, rfl⟩ := List.cons.inj hts
      exact hnext ⟨w, rfl⟩ v q rfl
    · exact h.apart ps w v q (List.cons.inj hts).2

theorem nil : Lexed [] := ⟨nofun, fun p w v q h => by cases p <;> cases h⟩

theorem cons_other {c m : Char} (h : Lexed ts) (ht : (Token.other c m).Fit) :
    Lexed (.other c m :: ts) :=
  h.cons ht fun ⟨_, hw⟩ => nomatch hw

/-- A place is one between two tokens, or it is inside one. -/
theorem exists_split {a b : Text} (hab : maskOf ts = a ++ b) :
    ∃ p q, ts = p ++ q ∧ a = maskOf p ∧ b = maskOf q ∨
      ∃ t x y, ts = p ++ t :: q ∧ a = maskOf p ++ x ∧ b = y ++ maskOf q ∧ t.mask = x ++ y ∧
        x ≠ [] ∧ y ≠ [] := by
  induction ts generalizing a with
  | nil =>
    obtain ⟨rfl, rfl⟩ := List.append_eq_nil_iff.1 hab.symm
    exact ⟨[], [], .inl ⟨rfl, rfl, rfl⟩⟩
  | cons t ts ih =>
    rw [maskOf_cons] at hab
    obtain ⟨a', rfl, ha'⟩ | ⟨y, hy, rfl⟩ := List.append_eq_append_iff.1 hab
    · obtain ⟨p, q, ⟨rfl, rfl, rfl⟩ | ⟨u, x, y, rfl, rfl, rfl, hu, hx, hy⟩⟩ := ih ha'
      · exact ⟨t :: p, q, .inl ⟨rfl, by rw [maskOf_cons], rfl⟩⟩
      · exact ⟨t :: p, q, .inr ⟨u, x, y, rfl, by rw [maskOf_cons, List.append_assoc], rfl, hu, hx,
          hy⟩⟩
    · by_cases ha : a = []
      · subst ha
        exact ⟨[], t :: ts, .inl ⟨rfl, rfl, by rw [maskOf_cons, hy]; rfl⟩⟩
      by_cases hne : y = []
      · subst hne
        rw [List.append_nil] at hy
        exact ⟨[t], ts, .inl ⟨rfl, by simp [hy], rfl⟩⟩
      · exact ⟨[], ts, .inr ⟨t, a, y, rfl, rfl, rfl, hy, ha, hne⟩⟩

/-- A place outside names is one between two tokens. -/
theorem exists_cut {a b : Text} (h : Lexed ts) (hq : QuotesHoldWords ts) (hab : maskOf ts = a ++ b)
    (ha : a.getLast?.any isInName = false) :
    ∃ p q, ts = p ++ q ∧ a = maskOf p ∧ b = maskOf q := by
  obtain ⟨p, q, hcut | ⟨t, x, y, rfl, rfl, -, ht, hx, hy⟩⟩ := exists_split hab
  · exact ⟨p, q, hcut⟩
  · have hone : t.mask.length ≠ 1 := by
      have := List.length_pos_iff.2 hx
      have := List.length_pos_iff.2 hy
      rw [ht, List.length_append]
      omega
    have hin := Token.isInName_of_mem (h.fit t (by simp))
      (@QuotesHoldWords.of_append [t] q (QuotesHoldWords.of_append hq).2).1 hone
      (ht ▸ List.mem_append_left y (List.getLast_mem hx))
    rw [getLast?_any_append _ hx, List.getLast?_eq_some_getLast hx, Option.any_some, hin] at ha
    cases ha

/-- A place outside words with no quote before it is one between two tokens, whatever the quotes
behind it hold. -/
theorem exists_cut_of_no_quote {a b : Text} (h : Lexed ts) (hab : maskOf ts = a ++ b)
    (hquote : '"' ∉ a) (ha : a.getLast?.any isInName = false) :
    ∃ p q, ts = p ++ q ∧ a = maskOf p ∧ b = maskOf q := by
  obtain ⟨p, q, hcut | ⟨t, x, y, rfl, rfl, -, ht, hx, hy⟩⟩ := exists_split hab
  · exact ⟨p, q, hcut⟩
  exfalso
  cases t with
  | word w =>
    have hw : IsWord w := h.fit (.word w) (by simp)
    have hin := hw.2 _ (ht ▸ List.mem_append_left y (List.getLast_mem hx))
    rw [getLast?_any_append _ hx, List.getLast?_eq_some_getLast hx, Option.any_some, isInName,
      hin] at ha
    cases ha
  | quoted w =>
    obtain ⟨c, x, rfl⟩ := List.exists_cons_of_ne_nil hx
    obtain rfl : '"' = c := (List.cons.inj ht).1
    exact hquote (by simp)
  | other c m => exact Token.not_cut_of_other ht hx hy

/-- A place where a word begins, with no quote behind it, is one between two tokens unless it is
inside of quotes. -/
theorem exists_cut_of_atWordStart (h : Lexed ts) {a b : Text} (hab : maskOf ts = a ++ b)
    (hstart : atWordStart a.reverse = true) (hb : b.head? ≠ some '"')
    (hquotes : ∀ u x y r, Token.quoted (x ++ y) ∈ ts → y ≠ [] → a = u ++ '"' :: x →
      b ≠ y ++ '"' :: r) :
    ∃ p q, ts = p ++ q ∧ a = maskOf p ∧ b = maskOf q := by
  obtain ⟨p, q, hcut | ⟨u, y, z, rfl, rfl, rfl, hu, hy, hne⟩⟩ := exists_split hab
  · exact ⟨p, q, hcut⟩
  exfalso
  have hfit := h.fit u (by simp)
  cases u with
  | word w =>
    have hlast : isWordChar (y.getLast hy) = false := by
      rw [List.reverse_append, atWordStart, List.head?_append, List.head?_reverse,
        List.getLast?_eq_some_getLast hy, Option.some_or] at hstart
      simpa using hstart
    have hmem : y.getLast hy ∈ w := by
      rw [show w = y ++ z from hu]
      exact List.mem_append_left z (List.getLast_mem hy)
    rw [hfit.2 _ hmem] at hlast
    cases hlast
  | other c m => exact Token.not_cut_of_other hu hy hne
  | quoted w =>
    obtain ⟨c, y, rfl⟩ := List.exists_cons_of_ne_nil hy
    obtain ⟨rfl, hw⟩ := List.cons.inj (hu : '"' :: (w ++ ['"']) = c :: (y ++ z))
    obtain ⟨e, rfl, -⟩ := Token.exists_suffix_of_quoted hu hy hne
    obtain rfl := (List.append_inj' (hw.trans (List.append_assoc ..).symm) rfl).1
    by_cases he : e = []
    · subst he
      exact hb rfl
    · exact hquotes (maskOf p) y e (maskOf q) (by simp) he rfl (by simp)

theorem head?_maskOf_any {w : Text} (h : Lexed (.word w :: ts)) :
    (maskOf ts).head?.any isNamePart = false := by
  cases ts with
  | nil => rfl
  | cons t ts =>
    cases t with
    | word v => exact absurd rfl (h.apart [] w v ts)
    | quoted v => exact (by decide : isNamePart '"' = false)
    | other c m =>
      have hfit : (Token.other c m).Fit := h.fit _ (by simp)
      exact hfit.1

/-- A name that is read where a token begins is that token. -/
theorem exists_name {isStart : Char → Bool} (hstart : ∀ c, isStart c = true → isWordChar c = true)
    {i : Identifier} {rest : Text} (h : Lexed ts)
    (hread : Identifier.read? isStart (maskOf ts) = some (i, rest)) :
    ∃ us, ts = (if i.quoted then .quoted i.name else .word i.name) :: us ∧ rest = maskOf us := by
  cases ts with
  | nil => cases hread
  | cons t ts =>
    have hfit := h.fit t List.mem_cons_self
    cases t with
    | word w =>
      cases w with
      | nil => exact absurd rfl hfit.1
      | cons c w =>
        have hc : c ≠ '"' := isWordChar_ne_quote (hfit.2 c List.mem_cons_self)
        have hw : ∀ x ∈ w, isNamePart x = true := fun x hx =>
          isNamePart_of_isWordChar (hfit.2 x (List.mem_cons_of_mem c hx))
        have hnext := h.head?_maskOf_any
        simp only [maskOf_cons, Token.mask, List.cons_append, Identifier.read?, beq_iff_eq, hc,
          ite_false, takeWhile_append_of_all hw hnext, dropWhile_append_of_all hw hnext] at hread
        split at hread
        · obtain ⟨rfl, rfl⟩ := Prod.mk.inj (Option.some.inj hread)
          exact ⟨ts, rfl, rfl⟩
        · cases hread
    | quoted w =>
      have hread' := Identifier.read?_inQuotes isStart hfit.1 (fun hc => (hfit.2 _ hc).1 rfl)
        (maskOf ts)
      obtain ⟨rfl, rfl⟩ := Prod.mk.inj (Option.some.inj (hread'.symm.trans hread))
      exact ⟨ts, rfl, rfl⟩
    | other c m =>
      have hm : isStart m = false := by
        have hno : isNamePart m = false := hfit.1
        by_contra hs
        rw [isNamePart_of_isWordChar (hstart m (by simpa using hs))] at hno
        cases hno
      simp only [maskOf_cons, Token.mask, List.singleton_append, Identifier.read?, beq_iff_eq,
        hfit.2, ite_false, hm, Bool.false_eq_true] at hread
      cases hread

end Lexed

end QueryGate
