import Mathlib.Data.List.DropRight
import Mathlib.Data.List.Forall2
import QueryGate.Proofs.Sql.TokenWords

/-!
# Alike tokens

Queries are alike with respect to some words if they differ in names only that are none of these
words (`Alike`). What reads those words and the characters between names reads the same in both.
-/

namespace QueryGate

/-- Whether a token is a character of some kind, no name. -/
def Token.isMark (p : Char → Bool) : Token → Bool
  | word _ => false
  | quoted _ => false
  | other _ m => p m

/-- The same token twice, or two names that are none of `words`. -/
inductive Like (words : List Text) : Token → Token → Prop
  | same (t : Token) : Like words t t
  | names {t u : Token} {x y : Text} : t.name? = some x → u.name? = some y →
      (∀ w ∈ words, ¬ Spells w x) → (∀ w ∈ words, ¬ Spells w y) → Like words t u

/-- Token by token alike. -/
abbrev Alike (words : List Text) : List Token → List Token → Prop := List.Forall₂ (Like words)

/-- Tokens that are read back, each name in quotes a single word. -/
structure Readable (ts : List Token) : Prop where
  lexed : Lexed ts
  words : QuotesHoldWords ts

namespace Readable

variable {ts us : List Token} {t : Token}

theorem of_append (h : Readable (ts ++ us)) : Readable ts ∧ Readable us :=
  ⟨⟨(Lexed.of_append h.lexed).1, (QuotesHoldWords.of_append h.words).1⟩,
    (Lexed.of_append h.lexed).2, (QuotesHoldWords.of_append h.words).2⟩

theorem tail (h : Readable (t :: ts)) : Readable ts := (@of_append [t] ts h).2

theorem isInName_of_name (h : Readable (t :: ts)) {x : Text} (hx : t.name? = some x) :
    ∀ c ∈ t.mask, isInName c = true := by
  intro c hc
  have hfit := h.lexed.fit t List.mem_cons_self
  cases t with
  | word w => simp [isInName, hfit.2 c hc]
  | quoted w =>
    have hw := h.words w List.mem_cons_self
    rcases List.mem_cons.1 hc with rfl | hc
    · rfl
    rcases List.mem_append.1 hc with hc | hc
    · simp [isInName, hw.2 c hc]
    · rw [List.mem_singleton.1 hc]
      rfl
  | other c m => cases hx

end Readable

/-- A word with a blank behind it is a bare name. -/
theorem Readable.exists_word_before_blank {ts : List Token} (h : Readable ts) {a x r : Text}
    (hx : IsWord x) (hts : maskOf ts = a ++ (x ++ r)) (ha : a.getLast?.any isWordChar = false)
    (hr : r.head?.any isBlank = true) :
    ∃ p q, ts = p ++ .word x :: q ∧ a = maskOf p ∧ r = maskOf q := by
  have hend : r.head?.any isWordChar = false := by
    cases r with
    | nil => rfl
    | cons c r => exact isWordChar_eq_false_of_isBlank hr
  obtain ⟨p, t, q, rfl, hname, hp, rfl⟩ := h.lexed.exists_wholeWord h.words hx hts ha hend
  have hquotes : t.quotes = [] := by
    cases t with
    | quoted v =>
      have hquote : isBlank '"' = true := hr
      exact absurd hquote (by decide)
    | _ => rfl
  obtain rfl := Token.eq_word hname hquotes
  rw [hquotes, List.append_nil] at hp
  exact ⟨p, q, rfl, hp, rfl⟩

/-- A kind of characters that no name has. -/
def OutsideNames (p : Char → Bool) : Prop := ∀ c, isInName c = true → p c = false

theorem outsideNames_isBlank : OutsideNames isBlank := by
  intro c hc
  rcases Bool.or_eq_true_iff.1 hc with hc | hc
  · exact isBlank_eq_false_of_isWordChar hc
  · rw [eq_of_beq hc]
    rfl

theorem outsideNames_beq {c : Char} (hc : isInName c = false) : OutsideNames (· == c) := by
  intro d hd
  rw [beq_eq_false_iff_ne]
  rintro rfl
  rw [hc] at hd
  cases hd

namespace Like

variable {words : List Text} {t u : Token}

theorem symm (h : Like words t u) : Like words u t := by
  cases h with
  | same => exact .same t
  | names hx hy hxs hys => exact .names hy hx hys hxs

theorem isMark_eq (h : Like words t u) (p : Char → Bool) : t.isMark p = u.isMark p := by
  cases h with
  | same => rfl
  | names hx hy _ _ =>
    cases t with
    | other c m => cases hx
    | _ => cases u with
      | other c m => cases hy
      | _ => rfl

theorem isOneOf (h : Like words t u) {vs : List Text} (hvs : ∀ v ∈ vs, v ∈ words)
    (hu : u.IsOneOf vs) : t.IsOneOf vs := by
  obtain ⟨y, hy, v, hv, hspells⟩ := hu
  cases h with
  | same => exact ⟨y, hy, v, hv, hspells⟩
  | names _ hy' _ hys =>
    obtain rfl := Option.some.inj (hy.symm.trans hy')
    exact absurd hspells (hys v (hvs v hv))

end Like

namespace Alike

variable {words : List Text} {ts us : List Token}

theorem symm (h : Alike words ts us) : Alike words us ts := by
  induction h with
  | nil => exact .nil
  | cons htu _ ih => exact .cons htu.symm ih

theorem exists_cons {p q : List Token} {t : Token} (h : Alike words ts (p ++ t :: q)) :
    ∃ p' u q', ts = p' ++ u :: q' ∧ Alike words p' p ∧ Like words u t ∧ Alike words q' q := by
  have hp := List.forall₂_take_append ts p (t :: q) h
  have hq := List.forall₂_drop_append ts p (t :: q) h
  obtain ⟨u, q', hu, hq', hdrop⟩ := List.forall₂_cons_right_iff.1 hq
  refine ⟨ts.take p.length, u, q', ?_, hp, hu, hq'⟩
  rw [← hdrop, List.take_append_drop]

theorem exists_isOneOf (h : Alike words ts us) {vs : List Text} (hvs : ∀ v ∈ vs, v ∈ words)
    (hus : ∃ u ∈ us, u.IsOneOf vs) : ∃ t ∈ ts, t.IsOneOf vs := by
  obtain ⟨u, hu, hone⟩ := hus
  obtain ⟨p, q, rfl⟩ := List.append_of_mem hu
  obtain ⟨p', t, q', rfl, -, htu, -⟩ := h.exists_cons
  exact ⟨t, by simp, htu.isOneOf hvs hone⟩

/-- One of the words stands in both at one place. -/
theorem exists_word {p q : List Token} {x w : Text} (h : Alike words ts (p ++ .word x :: q))
    (hw : w ∈ words) (hx : Spells w x) :
    ∃ p' q', ts = p' ++ .word x :: q' ∧ Alike words p' p ∧ Alike words q' q := by
  obtain ⟨p', u, q', rfl, hp, hu, hq⟩ := exists_cons h
  cases hu with
  | same => exact ⟨p', q', rfl, hp, hq⟩
  | names _ hy _ hys =>
    obtain rfl := Option.some.inj hy
    exact absurd hx (hys w hw)

theorem head?_any (h : Alike words ts us) (hts : Readable ts) (hus : Readable us)
    {p : Char → Bool} (hp : OutsideNames p) :
    (maskOf ts).head?.any p = (maskOf us).head?.any p := by
  cases h with
  | nil => rfl
  | @cons t u ts us htu hrest =>
    have hhead {t : Token} {ts : List Token} (h : Readable (t :: ts)) :
        (maskOf (t :: ts)).head?.any p = t.mask.head?.any p := by
      rw [maskOf_cons]
      exact head?_append_any (Token.mask_ne_nil (h.lexed.fit t List.mem_cons_self)) _
    have hname {t : Token} {ts : List Token} {x : Text} (h : Readable (t :: ts))
        (hx : t.name? = some x) : t.mask.head?.any p = false := by
      cases hm : t.mask.head? with
      | none => rfl
      | some c => exact hp c (h.isInName_of_name hx c (List.mem_of_mem_head? hm))
    rw [hhead hts, hhead hus]
    cases htu with
    | same => rfl
    | names hx hy _ _ => rw [hname hts hx, hname hus hy]

theorem exists_concat {u : Token} (h : Alike words ts (us ++ [u])) :
    ∃ ts' t, ts = ts' ++ [t] ∧ Alike words ts' us ∧ Like words t u := by
  obtain ⟨p, t, q, rfl, hp, ht, hq⟩ := exists_cons h
  obtain rfl := List.forall₂_nil_right_iff.1 hq
  exact ⟨p, t, rfl, hp, ht⟩

theorem getLast?_any (h : Alike words ts us) (hts : Readable ts) (hus : Readable us)
    {p : Char → Bool} (hp : OutsideNames p) :
    (maskOf ts).getLast?.any p = (maskOf us).getLast?.any p := by
  rcases List.eq_nil_or_concat us with rfl | ⟨us, u, rfl⟩
  · rw [List.forall₂_nil_right_iff.1 h]
  rw [List.concat_eq_append] at h hus ⊢
  obtain ⟨ts, t, rfl, -, htu⟩ := exists_concat h
  have hlast {ts : List Token} {t : Token} (h : Readable (ts ++ [t])) :
      (maskOf (ts ++ [t])).getLast?.any p = t.mask.getLast?.any p := by
    have hmask : maskOf (ts ++ [t]) = maskOf ts ++ t.mask := by simp
    rw [hmask]
    exact getLast?_any_append _ (Token.mask_ne_nil (h.lexed.fit t (by simp)))
  have hname {ts : List Token} {t : Token} {x : Text} (h : Readable (ts ++ [t]))
      (hx : t.name? = some x) : t.mask.getLast?.any p = false := by
    cases hm : t.mask.getLast? with
    | none => rfl
    | some c =>
      exact hp c ((Readable.of_append h).2.isInName_of_name hx c (List.mem_of_getLast? hm))
  rw [hlast hts, hlast hus]
  cases htu with
  | same => rfl
  | names hx hy _ _ => rw [hname hts hx, hname hus hy]

theorem count_eq (h : Alike words ts us) (hts : Readable ts) (hus : Readable us) {c : Char}
    (hc : isInName c = false) : (maskOf ts).count c = (maskOf us).count c := by
  induction h with
  | nil => rfl
  | @cons t u ts us htu _ ih =>
    have hname {t : Token} {ts : List Token} {x : Text} (h : Readable (t :: ts))
        (hx : t.name? = some x) : t.mask.count c = 0 := by
      rw [List.count_eq_zero]
      intro hmem
      have := h.isInName_of_name hx c hmem
      rw [hc] at this
      cases this
    rw [maskOf_cons, maskOf_cons, List.count_append, List.count_append, ih hts.tail hus.tail]
    cases htu with
    | same => rfl
    | names hx hy _ _ => rw [hname hts hx, hname hus hy]

end Alike

/-! ## Marks at the ends -/

theorem Readable.of_ending {ts us : List Token} (h : Readable ts) (hus : us <:+ ts) :
    Readable us := by
  obtain ⟨p, rfl⟩ := hus
  exact (Readable.of_append h).2

theorem Readable.of_beginning {ts us : List Token} (h : Readable ts) (hus : us <+: ts) :
    Readable us := by
  obtain ⟨q, rfl⟩ := hus
  exact (Readable.of_append h).1

section Marks

variable {ts us : List Token} {p : Char → Bool}

/-- Marks in front of the tokens are characters in front of the mask. -/
theorem maskOf_dropWhile (h : Readable ts) (hp : OutsideNames p) :
    maskOf (ts.dropWhile (·.isMark p)) = (maskOf ts).dropWhile p := by
  induction ts with
  | nil => rfl
  | cons t ts ih =>
    have hname {x : Text} (hx : t.name? = some x) (ht : t.isMark p = false) :
        maskOf ((t :: ts).dropWhile (·.isMark p)) = (maskOf (t :: ts)).dropWhile p := by
      obtain ⟨c, u, hc⟩ :=
        List.exists_cons_of_ne_nil (Token.mask_ne_nil (h.lexed.fit t List.mem_cons_self))
      have hpc := hp c (h.isInName_of_name hx c (by rw [hc]; exact List.mem_cons_self))
      rw [List.dropWhile_cons_of_neg (by simp [ht]), maskOf_cons, hc, List.cons_append,
        List.dropWhile_cons_of_neg (by simp [hpc])]
    cases t with
    | word w => exact hname rfl rfl
    | quoted w => exact hname rfl rfl
    | other c m =>
      have hmask : maskOf (.other c m :: ts) = m :: maskOf ts := rfl
      rw [hmask, List.dropWhile_cons, List.dropWhile_cons, Token.isMark]
      by_cases hm : p m = true
      · rw [if_pos hm, if_pos hm]
        exact ih h.tail
      · rw [if_neg hm, if_neg hm]
        exact hmask

theorem maskOf_rdropWhile (h : Readable ts) (hp : OutsideNames p) :
    maskOf (ts.rdropWhile (·.isMark p)) = (maskOf ts).rdropWhile p := by
  induction ts using List.reverseRecOn with
  | nil => rfl
  | append_singleton ts t ih =>
    have ht : Readable [t] := (Readable.of_append h).2
    have hname {x : Text} (hx : t.name? = some x) (hmark : t.isMark p = false) :
        maskOf ((ts ++ [t]).rdropWhile (·.isMark p)) = (maskOf (ts ++ [t])).rdropWhile p := by
      obtain ⟨u, c, hc⟩ := (List.eq_nil_or_concat t.mask).resolve_left
        (Token.mask_ne_nil (ht.lexed.fit t (List.mem_singleton_self t)))
      rw [List.concat_eq_append] at hc
      have hpc := hp c (ht.isInName_of_name hx c (by rw [hc]; simp))
      have hmask : maskOf (ts ++ [t]) = (maskOf ts ++ u) ++ [c] := by
        simp [hc]
      rw [List.rdropWhile_concat_neg _ _ _ (by simp [hmark]), hmask,
        List.rdropWhile_concat_neg _ _ _ (by simp [hpc])]
    cases t with
    | word w => exact hname rfl rfl
    | quoted w => exact hname rfl rfl
    | other c m =>
      have hmask : maskOf (ts ++ [.other c m]) = maskOf ts ++ [m] := by simp [Token.mask]
      rw [hmask, List.rdropWhile_concat, List.rdropWhile_concat, Token.isMark]
      by_cases hm : p m = true
      · rw [if_pos hm, if_pos hm]
        exact ih (Readable.of_append h).1
      · rw [if_neg hm, if_neg hm, hmask]

theorem Alike.dropWhile {words : List Text} (h : Alike words ts us) (p : Char → Bool) :
    Alike words (ts.dropWhile (·.isMark p)) (us.dropWhile (·.isMark p)) := by
  induction h with
  | nil => exact .nil
  | cons htu hrest ih =>
    rw [List.dropWhile_cons, List.dropWhile_cons, htu.isMark_eq p]
    split
    · exact ih
    · exact .cons htu hrest

theorem Alike.rdropWhile {words : List Text} (h : Alike words ts us) (p : Char → Bool) :
    Alike words (ts.rdropWhile (·.isMark p)) (us.rdropWhile (·.isMark p)) :=
  List.forall₂_reverse_iff.2 (Alike.dropWhile (List.forall₂_reverse_iff.2 h) p)

end Marks

end QueryGate
