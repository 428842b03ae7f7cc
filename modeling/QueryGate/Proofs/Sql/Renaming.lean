import Mathlib.Data.List.Forall2
import QueryGate.Proofs.Sql.Tokens
import QueryGate.Proofs.Text.Edits
import QueryGate.Proofs.Text.SmallLetters

/-!
# Renamed tokens

Two queries differ by a renaming if they have the same tokens but for some names, each of which
stands as a whole for another (`Renamed`). The mask follows a renaming (`KeepsTokens.mask_append`),
and edits that each write a name in place of one token make one (`LexedAs.applyEdits`).

A name is written in quotes if it needs them or if the one in its place has them (`Put`). Whether a
dot stands beside a token decides which readers look at it; a renaming leaves that as it is
(`Replaced.trans`).
-/

namespace QueryGate

/-! ## Swaps -/

/-- A token is left as it is, or it is a name and one of `names` stands for it. -/
inductive Swap (names : Text → Prop) : Token → Token → Prop
  | same (t : Token) : Swap names t t
  | word {w n : Text} : isKeyword w = false → names n → Swap names (.word w) (.word n)
  | quote {w n : Text} : isKeyword w = false → names n → Swap names (.word w) (.quoted n)
  | quoted {w n : Text} : names n → Swap names (.quoted w) (.quoted n)

/-- Token by token, a text with some names replaced. -/
abbrev Renamed (names : Text → Prop) : List Token → List Token → Prop := List.Forall₂ (Swap names)

variable {names : Text → Prop}

theorem Swap.trans {a b c : Token} (hab : Swap names a b) (hbc : Swap names b c) :
    Swap names a c := by
  cases hab with
  | same => exact hbc
  | word hw hn =>
    cases hbc with
    | same => exact .word hw hn
    | word _ hn' => exact .word hw hn'
    | quote _ hn' => exact .quote hw hn'
  | quote hw hn =>
    cases hbc with
    | same => exact .quote hw hn
    | quoted hn' => exact .quote hw hn'
  | quoted hn =>
    cases hbc with
    | same => exact .quoted hn
    | quoted hn' => exact .quoted hn'

theorem Swap.mono {names' : Text → Prop} {t u : Token} (h : Swap names t u)
    (hnames : ∀ n, names n → names' n) : Swap names' t u := by
  cases h with
  | same => exact .same t
  | word hw hn => exact .word hw (hnames _ hn)
  | quote hw hn => exact .quote hw (hnames _ hn)
  | quoted hn => exact .quoted (hnames _ hn)

theorem IsWord.fit_quoted {w : Text} (h : IsWord w) : (Token.quoted w).Fit := by
  refine ⟨h.1, fun c hc => ⟨isWordChar_ne_quote (h.2 c hc), ?_⟩⟩
  rintro rfl
  exact absurd (h.2 _ hc) (by decide)

namespace Renamed

variable {ts us vs : List Token}

theorem refl (ts : List Token) : Renamed names ts ts := List.forall₂_same.2 fun t _ => .same t

theorem trans (h : Renamed names ts us) (h' : Renamed names us vs) : Renamed names ts vs := by
  induction h generalizing vs with
  | nil => exact h'
  | cons hab _ ih =>
    cases h' with
    | cons hbc hrest => exact .cons (hab.trans hbc) (ih hrest)

theorem of_append_right {p q : List Token} (h : Renamed names ts (p ++ q)) :
    ∃ p' q', ts = p' ++ q' ∧ Renamed names p' p ∧ Renamed names q' q := by
  exact ⟨ts.take p.length, ts.drop p.length, (List.take_append_drop _ _).symm,
    List.forall₂_take_append ts p q h, List.forall₂_drop_append ts p q h⟩

theorem quotesHoldWords (h : Renamed names ts us) (hnames : ∀ n, names n → IsWord n)
    (hts : QuotesHoldWords ts) : QuotesHoldWords us := by
  induction h with
  | nil => exact hts
  | @cons t _ ts _ htu _ ih =>
    obtain ⟨ht, hts⟩ := @QuotesHoldWords.of_append [t] ts hts
    intro w hw
    rcases List.mem_cons.1 hw with rfl | hw
    · cases htu with
      | same => exact ht w (List.mem_singleton_self _)
      | quote _ hn => exact hnames w hn
      | quoted hn => exact hnames w hn
    · exact ih hts w hw

end Renamed

/-! ## Names that are written out -/

/-- The token that a known name is written as. -/
def Token.rendered (name : Text) (forceQuotes : Bool) : Token :=
  if forceQuotes || needsQuotes name then .quoted name else .word name

@[simp] theorem Token.rendered_true (name : Text) : rendered name true = .quoted name := rfl

theorem Token.rendered_of_needsQuotes {name : Text} (h : needsQuotes name = true)
    (forceQuotes : Bool) : rendered name forceQuotes = .quoted name := by
  rw [rendered, h, Bool.or_true, if_pos rfl]

theorem Token.rendered_of_not_needsQuotes {name : Text} (h : needsQuotes name = false) :
    rendered name false = .word name := by
  rw [rendered, h, Bool.or_false, if_neg Bool.false_ne_true]

/-- A name that is written bare has ASCII letters only. -/
theorem Token.ascii_of_rendered {name w : Text} {forceQuotes : Bool}
    (h : Token.rendered name forceQuotes = .word w) : name = w ∧ Ascii w := by
  unfold Token.rendered at h
  split at h
  · cases h
  rename_i hbare
  obtain rfl := Token.word.inj h
  refine ⟨rfl, fun c hc => ?_⟩
  rw [Bool.not_eq_true, Bool.or_eq_false_iff] at hbare
  exact ascii_of_isPlainNameChar (isPlainNameChar_of_not_needsQuotes hbare.2 c hc)

theorem Token.text_rendered (name : Text) (forceQuotes : Bool) :
    (Token.rendered name forceQuotes).text = renderName name forceQuotes := by
  unfold Token.rendered renderName
  split <;> rfl

/-- A token is left as it is, or it is a name that is no keyword and one of `names` is written in
its place: in quotes if it needs them or if the name in its place has them. -/
inductive Put (names : Text → Prop) : Token → Token → Prop
  | same (t : Token) : Put names t t
  | word {w n : Text} : isKeyword w = false → names n → Put names (.word w) (.rendered n false)
  | quoted {w n : Text} : names n → Put names (.quoted w) (.rendered n true)

theorem Put.swap {t u : Token} (h : Put names t u) : Swap names t u := by
  cases h with
  | same => exact .same _
  | @word w n hw hn =>
    unfold Token.rendered
    split
    · exact .quote hw hn
    · exact .word hw hn
  | quoted hn => exact .quoted hn

theorem Put.mono {names' : Text → Prop} {t u : Token} (h : Put names t u)
    (hnames : ∀ n, names n → names' n) : Put names' t u := by
  cases h with
  | same => exact .same t
  | word hw hn => exact .word hw (hnames _ hn)
  | quoted hn => exact .quoted (hnames _ hn)

/-! ## Relations that keep tokens -/

/-- Whatever a token is related to is a token as well: a word can only come from a word, and of the
characters outside names none is changed. -/
structure KeepsTokens (R : Token → Token → Prop) : Prop where
  fit : ∀ {t u}, R t u → t.Fit → u.Fit
  word : ∀ {t w}, R t (.word w) → ∃ v, t = .word v
  names : ∀ {t u}, R t u → t = u ∨ (∀ c m, t ≠ .other c m) ∧ ∀ c m, u ≠ .other c m

theorem Swap.word_of_word {t : Token} {w : Text} (h : Swap names t (.word w)) :
    ∃ v, t = .word v := by
  cases h <;> exact ⟨_, rfl⟩

theorem Swap.same_or_names {t u : Token} (h : Swap names t u) :
    t = u ∨ (∀ c m, t ≠ .other c m) ∧ ∀ c m, u ≠ .other c m := by
  cases h with
  | same => exact .inl rfl
  | word => exact .inr ⟨nofun, nofun⟩
  | quote => exact .inr ⟨nofun, nofun⟩
  | quoted => exact .inr ⟨nofun, nofun⟩

/-- A name that fits in quotes fits bare if it needs none. -/
theorem Token.fit_rendered {n : Text} (hn : (Token.quoted n).Fit) (forceQuotes : Bool) :
    (Token.rendered n forceQuotes).Fit := by
  unfold Token.rendered
  split
  · exact hn
  · rename_i hbare
    simp only [Bool.or_eq_true, not_or, Bool.not_eq_true] at hbare
    exact ⟨hn.1, fun c hc =>
      isWordChar_of_isPlainNameChar (isPlainNameChar_of_not_needsQuotes hbare.2 c hc)⟩

theorem Put.keepsTokens (hnames : ∀ n, names n → (Token.quoted n).Fit) :
    KeepsTokens (Put names) where
  fit h ht := by
    cases h with
    | same => exact ht
    | word _ hn => exact Token.fit_rendered (hnames _ hn) false
    | quoted hn => exact Token.fit_rendered (hnames _ hn) true
  word h := h.swap.word_of_word
  names h := h.swap.same_or_names

/-! ## The mask of a renamed text -/

/-- A part without apostrophes that is not masked cuts the mask: what stands before it and what
stands behind it is masked on its own, and so it is with any other such part in its place. -/
theorem maskLiterals_around {a x b ma mb : Text} (hx : '\'' ∉ x)
    (hhead : ∃ c, x.head? = some c ∧ c ≠ maskChar) (hlen : ma.length = a.length)
    (h : maskLiterals (a ++ (x ++ b)) = ma ++ (x ++ mb)) :
    ma = maskLiterals a ∧ mb = maskLiterals b ∧ ∀ y, '\'' ∉ y → y ≠ [] →
      maskLiterals (a ++ (y ++ b)) = ma ++ (y ++ mb) := by
  obtain ⟨c, hc, hmask⟩ := hhead
  have hhead? {z : Text} (hz : '\'' ∉ z) (hne : z ≠ []) : (z ++ b).head? ≠ some '\'' := by
    intro h
    rw [List.head?_append_of_ne_nil _ hne] at h
    exact hz (List.mem_of_mem_head? h)
  have hxne : x ≠ [] := by
    rintro rfl
    cases hc
  have hdrop := drop_maskLiterals_append a (hhead? hx hxne)
  rw [h, ← hlen, List.drop_left] at hdrop
  have hlenmask : ma.length = (maskLiterals a).length := by rw [hlen, length_maskLiterals]
  by_cases heven : a.count '\'' % 2 = 0
  · rw [maskLiterals_append_of_even heven (.inr (hhead? hx hxne)), maskLiterals_prepend hx] at h
    obtain ⟨rfl, hb⟩ := List.append_inj h hlenmask.symm
    have hb := List.append_cancel_left hb
    refine ⟨rfl, hb.symm, fun y hy hne => ?_⟩
    rw [maskLiterals_append_of_even heven (.inr (hhead? hy hne)), maskLiterals_prepend hy, hb]
  · rw [if_neg heven] at hdrop
    have hopen : '\'' ∉ b := by
      intro hb
      rw [maskOpen_prepend hx hb] at hdrop
      cases x with
      | nil => exact hxne rfl
      | cons d x =>
        obtain rfl : d = c := Option.some.inj hc
        exact hmask (List.cons.inj hdrop).1
    have hnot {z : Text} (hz : '\'' ∉ z) : '\'' ∉ z ++ b := fun h =>
      (List.mem_append.1 h).elim hz hopen
    rw [maskLiterals_append_of_not_mem a (hnot hx)] at h
    obtain ⟨rfl, hb⟩ := List.append_inj h hlenmask.symm
    have hb := List.append_cancel_left hb
    refine ⟨rfl, by rw [← hb, maskLiterals_eq_self hopen], fun y hy _ => ?_⟩
    rw [maskLiterals_append_of_not_mem a (hnot hy), hb]

theorem Token.no_apostrophe {t : Token} (ht : t.Fit) (hname : ∀ c m, t ≠ .other c m) :
    '\'' ∉ t.text := by
  intro h
  cases t with
  | word w => exact absurd (ht.2 _ h) (by decide)
  | quoted w =>
    rcases List.mem_cons.1 h with h | h
    · cases h
    rcases List.mem_append.1 h with h | h
    · exact (ht.2 _ h).2 rfl
    · cases List.mem_singleton.1 h
  | other c m => exact hname c m rfl

theorem Token.exists_head? {t : Token} (ht : t.Fit) (hname : ∀ c m, t ≠ .other c m) :
    ∃ c, t.text.head? = some c ∧ c ≠ maskChar := by
  cases t with
  | word w =>
    cases w with
    | nil => exact absurd rfl ht.1
    | cons c w =>
      refine ⟨c, rfl, ?_⟩
      rintro rfl
      exact absurd (ht.2 _ List.mem_cons_self) (by decide)
  | quoted w => exact ⟨'"', rfl, by decide⟩
  | other c m => exact absurd rfl (hname c m)

theorem Token.text_eq_mask {t : Token} (hname : ∀ c m, t ≠ .other c m) : t.text = t.mask := by
  cases t with
  | word w => rfl
  | quoted w => rfl
  | other c m => exact absurd rfl (hname c m)

namespace KeepsTokens

variable {R : Token → Token → Prop} {ts us : List Token}

theorem lexed (hR : KeepsTokens R) (h : List.Forall₂ R ts us) (hts : Lexed ts) : Lexed us := by
  constructor
  · intro u hu
    induction h with
    | nil => cases hu
    | cons htu _ ih =>
      rcases List.mem_cons.1 hu with rfl | hu
      · exact hR.fit htu (hts.fit _ List.mem_cons_self)
      · exact ih hts.tail hu
  · rintro p w v q rfl
    -- Only words are replaced by words.
    have hq := List.forall₂_drop_append ts p _ h
    have hts' : ts = ts.take p.length ++ ts.drop p.length := (List.take_append_drop _ _).symm
    generalize ts.drop p.length = q' at hq hts'
    cases hq with
    | cons hw hq =>
      cases hq with
      | cons hv hq =>
        obtain ⟨x, rfl⟩ := hR.word hw
        obtain ⟨y, rfl⟩ := hR.word hv
        exact hts.apart _ _ _ _ hts'

theorem mask_append (hR : KeepsTokens R) (h : List.Forall₂ R ts us) (hts : Lexed ts)
    (hus : Lexed us) (p : List Token)
    (hmask : maskLiterals (textOf (p ++ ts)) = maskOf (p ++ ts)) :
    maskLiterals (textOf (p ++ us)) = maskOf (p ++ us) := by
  induction h generalizing p with
  | nil => exact hmask
  | @cons t u ts us htu _ ih =>
    have hfit := hts.fit t List.mem_cons_self
    have hfit' := hus.fit u List.mem_cons_self
    have hstep : maskLiterals (textOf (p ++ u :: ts)) = maskOf (p ++ u :: ts) := by
      obtain rfl | ⟨ht, hu⟩ := hR.names htu
      · exact hmask
      · simp only [textOf_append, textOf_cons, maskOf_append, maskOf_cons,
          ← Token.text_eq_mask ht, ← Token.text_eq_mask hu] at hmask ⊢
        refine (maskLiterals_around (Token.no_apostrophe hfit ht) (Token.exists_head? hfit ht)
          (length_maskOf p) hmask).2.2 _ (Token.no_apostrophe hfit' hu) ?_
        rw [Token.text_eq_mask hu]
        exact Token.mask_ne_nil hfit'
    have := ih hts.tail hus.tail (p ++ [u]) (by simpa using hstep)
    simpa using this

end KeepsTokens

/-! ## Dots beside tokens -/

/-- Whether a dot is the first character of a text, blanks aside. -/
def beginsWithDot (t : Text) : Bool := (skipBlanks t).head? == some '.'

/-- Whether a dot stands beside a place, blanks aside. -/
def besideDot (before after : Text) : Bool := beginsWithDot before || beginsWithDot after

/-- Whether a dot stands beside the part of a text between two offsets. -/
def dotBeside (t : Text) (start stop : Nat) : Bool :=
  besideDot (t.take start).reverse (t.drop stop)

theorem dotBeside_maskOf (p : List Token) (t : Token) (q : List Token) :
    dotBeside (maskOf (p ++ t :: q)) (maskOf p).length ((maskOf p).length + t.mask.length) =
      besideDot (maskOf p).reverse (maskOf q) := by
  have hdrop : (maskOf (p ++ t :: q)).drop ((maskOf p).length + t.mask.length) = maskOf q := by
    rw [maskOf_append, maskOf_cons, ← List.drop_drop, List.drop_left, List.drop_left]
  rw [dotBeside, hdrop, maskOf_append, List.take_left]

theorem beginsWithDot_append {g r : Text} (hg : allBlank g = true) :
    beginsWithDot (g ++ '.' :: r) = true := by
  have hhead : ('.' :: r).head?.any isBlank = false := (by decide : isBlank '.' = false)
  rw [beginsWithDot, skipBlanks_append hg hhead]
  rfl

/-- A qualifier ends in a dot, blanks aside. -/
theorem beginsWithDot_reverse_of_dot {a : Text} {g g' : Text} (hg' : allBlank g' = true) :
    beginsWithDot (a ++ (g ++ '.' :: g')).reverse = true := by
  simp only [List.reverse_append, List.reverse_cons, List.append_assoc, List.singleton_append]
  exact beginsWithDot_append (by simpa [allBlank] using hg')

/-- The tokens behind a text (read backwards), each with whether a dot stands beside it. -/
def dotted (before : Text) : List Token → List (Token × Bool)
  | [] => []
  | t :: ts => (t, besideDot before (maskOf ts)) :: dotted (t.mask.reverse ++ before) ts

theorem map_fst_dotted (before : Text) (ts : List Token) :
    (dotted before ts).map Prod.fst = ts := by
  induction ts generalizing before with
  | nil => rfl
  | cons t ts ih => rw [dotted, List.map_cons, ih]

theorem exists_dotted_append (before : Text) (p : List Token) (t : Token) (q : List Token) :
    ∃ a b, dotted before (p ++ t :: q) =
      a ++ (t, besideDot ((maskOf p).reverse ++ before) (maskOf q)) :: b ∧ a.map Prod.fst = p := by
  induction p generalizing before with
  | nil => exact ⟨[], dotted (t.mask.reverse ++ before) q, rfl, rfl⟩
  | cons s p ih =>
    obtain ⟨a, b, hab, ha⟩ := ih (s.mask.reverse ++ before)
    refine ⟨(s, besideDot before (maskOf (p ++ t :: q))) :: a, b, ?_, by rw [List.map_cons, ha]⟩
    rw [List.cons_append, dotted, hab, maskOf_cons, List.reverse_append, List.append_assoc]
    rfl

/-- Each token is left or is related to what replaces it, where the relation may ask whether a dot
stands beside it. -/
def Replaced (R : Bool → Token → Token → Prop) (before : Text) (ts us : List Token) : Prop :=
  List.Forall₂ (fun x u => x.1 = u ∨ R x.2 x.1 u) (dotted before ts) us

section Replaced

variable {R S : Bool → Token → Token → Prop} {K : Token → Token → Prop} {before : Text}
  {ts us vs : List Token}

theorem Replaced.forall₂ (h : Replaced R before ts us) (hrefl : ∀ t, K t t)
    (hR : ∀ d t u, R d t u → K t u) : List.Forall₂ K ts us := by
  rw [← map_fst_dotted before ts, List.forall₂_map_left_iff]
  exact h.imp fun x u hxu => hxu.elim (fun heq => heq ▸ hrefl x.1) (hR _ _ _)

theorem Token.beginsWithDot_append {t : Token} (ht : t.Fit) (hname : ∀ c m, t ≠ .other c m)
    (r : Text) : beginsWithDot (t.mask ++ r) = false ∧
      beginsWithDot (t.mask.reverse ++ r) = false := by
  have hhead {x : Text} {c : Char} (hx : x.head? = some c) (hc : isInName c = true) :
      beginsWithDot (x ++ r) = false := by
    obtain ⟨y, rfl⟩ := List.head?_eq_some_iff.1 hx
    have hblank : isBlank c = false := by
      by_contra hb
      rw [isInName, isWordChar_eq_false_of_isBlank (by simpa using hb), Bool.false_or,
        beq_iff_eq] at hc
      subst hc
      exact hb (by decide)
    rw [beginsWithDot, List.cons_append, skipBlanks_eq_self (by simpa using hblank)]
    rw [List.head?_cons, beq_eq_false_iff_ne]
    intro hdot
    obtain rfl := Option.some.inj hdot
    exact absurd hc (by decide)
  cases t with
  | word w =>
    have hw (c : Char) (hc : c ∈ w) : isInName c = true := by simp [isInName, ht.2 c hc]
    refine ⟨hhead (List.head?_eq_some_head ht.1) (hw _ (List.head_mem ht.1)), ?_⟩
    have hne : w.reverse ≠ [] := by simpa using ht.1
    exact hhead (List.head?_eq_some_head hne) (hw _ (List.mem_reverse.1 (List.head_mem hne)))
  | quoted w =>
    refine ⟨hhead (c := '"') rfl (by decide), hhead (c := '"') ?_ (by decide)⟩
    simp [Token.mask, inQuotes]
  | other c m => exact absurd rfl (hname c m)

theorem KeepsTokens.beginsWithDot_append (hK : KeepsTokens K) {t u : Token} (h : K t u)
    (ht : t.Fit) {r r' : Text} (hr : beginsWithDot r = beginsWithDot r') :
    beginsWithDot (t.mask ++ r) = beginsWithDot (u.mask ++ r') ∧
      beginsWithDot (t.mask.reverse ++ r) = beginsWithDot (u.mask.reverse ++ r') := by
  have hnames {t u : Token} (ht : t.Fit) (hu : u.Fit) (htn : ∀ c m, t ≠ .other c m)
      (hun : ∀ c m, u ≠ .other c m) :
      beginsWithDot (t.mask ++ r) = beginsWithDot (u.mask ++ r') ∧
        beginsWithDot (t.mask.reverse ++ r) = beginsWithDot (u.mask.reverse ++ r') := by
    rw [(Token.beginsWithDot_append ht htn r).1, (Token.beginsWithDot_append hu hun r').1,
      (Token.beginsWithDot_append ht htn r).2, (Token.beginsWithDot_append hu hun r').2]
    exact ⟨rfl, rfl⟩
  obtain rfl | ⟨htn, hun⟩ := hK.names h
  · cases t with
    | word w => exact hnames ht ht nofun nofun
    | quoted w => exact hnames ht ht nofun nofun
    | other c m =>
      have hone : beginsWithDot (m :: r) = beginsWithDot (m :: r') := by
        cases hm : isBlank m with
        | true => simpa [beginsWithDot, skipBlanks, List.dropWhile_cons, hm] using hr
        | false => simp [beginsWithDot, skipBlanks, hm]
      exact ⟨hone, hone⟩
  · exact hnames ht (hK.fit h ht) htn hun

theorem KeepsTokens.beginsWithDot_maskOf (hK : KeepsTokens K) (h : List.Forall₂ K ts us)
    (hts : ∀ t ∈ ts, t.Fit) : beginsWithDot (maskOf ts) = beginsWithDot (maskOf us) := by
  induction h with
  | nil => rfl
  | cons htu _ ih =>
    obtain ⟨ht, hts⟩ := List.forall_mem_cons.1 hts
    rw [maskOf_cons, maskOf_cons]
    exact (hK.beginsWithDot_append htu ht (ih hts)).1

/-- Of two replacements in turn both know of the same dots. -/
theorem Replaced.trans (hK : KeepsTokens K) (hrefl : ∀ t, K t t) (hR : ∀ d t u, R d t u → K t u)
    {before' : Text} (hbefore : beginsWithDot before = beginsWithDot before')
    (hts : ∀ t ∈ ts, t.Fit) (h : Replaced R before ts us) (h' : Replaced S before' us vs) :
    Replaced (fun d t v => ∃ u, (t = u ∨ R d t u) ∧ (u = v ∨ S d u v)) before ts vs := by
  induction ts generalizing before before' us vs with
  | nil =>
    cases h
    cases h'
    exact .nil
  | cons t ts ih =>
    obtain ⟨ht, hts⟩ := List.forall_mem_cons.1 hts
    unfold Replaced at h h' ⊢
    rw [dotted] at h ⊢
    cases h with
    | @cons _ u _ us htu hrest =>
      rw [dotted] at h'
      cases h' with
      | @cons _ v _ vs huv hrest' =>
        have hKtu : K t u := htu.elim (fun heq => heq ▸ hrefl t) (hR _ _ _)
        have hafter := hK.beginsWithDot_maskOf (Replaced.forall₂ hrest hrefl hR) hts
        have hdot : besideDot before (maskOf ts) = besideDot before' (maskOf us) := by
          rw [besideDot, besideDot, hbefore, hafter]
        rw [← hdot] at huv
        exact .cons (.inr ⟨u, htu, huv⟩)
          (ih (hK.beginsWithDot_append hKtu ht hbefore).2 hts hrest hrest')

end Replaced

/-! ## Edits of pieces -/

section Pieces

variable {α : Type} {tok : α → Token} {R : α → Token → Prop} {xs : List α}

/-- An edit that writes a token in place of one of several, which may carry more than themselves. -/
def EditsPiece (tok : α → Token) (R : α → Token → Prop) (xs : List α) (e : Edit) : Prop :=
  ∃ p x u q, xs = p ++ x :: q ∧ R x u ∧
    e = ⟨(textOf (p.map tok)).length, (textOf (p.map tok)).length + (tok x).text.length, u.text⟩

theorem EditsPiece.of_start_lt {p q : List α} {e : Edit} (h : EditsPiece tok R (p ++ q) e)
    (hlt : e.start < (textOf (p.map tok)).length) : EditsPiece tok R p e := by
  obtain ⟨p', x, u, q', hsplit, hxu, rfl⟩ := h
  obtain ⟨a, rfl, -⟩ := exists_append_of_not_prefix hsplit.symm (by
    rintro ⟨a, rfl⟩
    simp only [List.map_append, textOf_append, List.length_append] at hlt
    omega)
  exact ⟨p', x, u, a, rfl, hxu, rfl⟩

/-- Edits of pieces, applied from the last to the first, replace each by what they write. -/
theorem exists_forall₂_of_foldl (hrefl : ∀ x, R x (tok x)) {edits : List Edit}
    (hedits : ∀ e ∈ edits, EditsPiece tok R xs e)
    (hsorted : edits.Pairwise fun d e => e.start < d.start) (r : Text) :
    ∃ us, List.Forall₂ R xs us ∧
      edits.foldl Edit.splice (textOf (xs.map tok) ++ r) = textOf us ++ r := by
  have hsame (xs : List α) : List.Forall₂ R xs (xs.map tok) :=
    List.forall₂_map_right_iff.2 (List.forall₂_same.2 fun x _ => hrefl x)
  induction edits generalizing xs r with
  | nil => exact ⟨xs.map tok, hsame xs, rfl⟩
  | cons e edits ih =>
    obtain ⟨hlt, hrest⟩ := List.pairwise_cons.1 hsorted
    obtain ⟨p, x, u, q, rfl, hxu, rfl⟩ := hedits e List.mem_cons_self
    have hsplice : Edit.splice (textOf ((p ++ x :: q).map tok) ++ r)
        ⟨(textOf (p.map tok)).length, (textOf (p.map tok)).length + (tok x).text.length, u.text⟩ =
          textOf (p.map tok) ++ (u.text ++ (textOf (q.map tok) ++ r)) := by
      simp only [List.map_append, List.map_cons, textOf_append, textOf_cons, List.append_assoc,
        Edit.splice_middle]
    -- The edits that are left lie before this one.
    have hbefore : ∀ d ∈ edits, EditsPiece tok R p d := fun d hd =>
      (hedits d (List.mem_cons_of_mem _ hd)).of_start_lt (hlt d hd)
    obtain ⟨us, hus, hfold⟩ := ih hbefore hrest (u.text ++ (textOf (q.map tok) ++ r))
    refine ⟨us ++ u :: q.map tok, List.rel_append hus (.cons hxu (hsame q)), ?_⟩
    rw [List.foldl_cons, hsplice, hfold]
    simp

end Pieces

/-! ## Edits of tokens -/

/-- An edit that writes a token in place of one that it is related to. -/
def EditsToken (R : Bool → Token → Token → Prop) (ts : List Token) (e : Edit) : Prop :=
  ∃ p t u q, ts = p ++ t :: q ∧ R (besideDot (maskOf p).reverse (maskOf q)) t u ∧
    e = ⟨(textOf p).length, (textOf p).length + t.text.length, u.text⟩

theorem EditsToken.piece {R : Bool → Token → Token → Prop} {ts : List Token} {e : Edit}
    (h : EditsToken R ts e) :
    EditsPiece Prod.fst (fun x u => x.1 = u ∨ R x.2 x.1 u) (dotted [] ts) e := by
  obtain ⟨p, t, u, q, rfl, htu, rfl⟩ := h
  obtain ⟨a, b, hab, rfl⟩ := exists_dotted_append [] p t q
  rw [List.append_nil] at hab
  exact ⟨a, _, u, b, hab, .inr htu, rfl⟩

/-- The tokens of a text. -/
structure LexedAs (sql : Text) (ts : List Token) : Prop where
  lexed : Lexed ts
  text : textOf ts = sql
  mask : maskOf ts = maskLiterals sql

/-- Edits of different tokens leave tokens. -/
theorem LexedAs.applyEdits {R : Bool → Token → Token → Prop} {K : Token → Token → Prop}
    {sql : Text} {ts : List Token} {edits : List Edit} (h : LexedAs sql ts) (hK : KeepsTokens K)
    (hrefl : ∀ t, K t t) (hR : ∀ d t u, R d t u → K t u)
    (hedits : ∀ e ∈ edits, EditsToken R ts e) (hnodup : (edits.map (·.start)).Nodup) :
    ∃ us, Replaced R [] ts us ∧ LexedAs (applyEdits sql edits) us := by
  obtain ⟨us, hus, hfold⟩ := exists_forall₂_of_foldl (fun _ => .inl rfl)
    (fun e he => (hedits e ((Edit.perm_fromLast edits).mem_iff.1 he)).piece)
    (Edit.pairwise_lt_fromLast hnodup) []
  rw [map_fst_dotted, List.append_nil, List.append_nil, h.text] at hfold
  have hrelated := Replaced.forall₂ hus hrefl hR
  have hlexed := hK.lexed hrelated h.lexed
  refine ⟨us, hus, hlexed, hfold.symm, ?_⟩
  have hmask := hK.mask_append hrelated h.lexed hlexed [] (by rw [List.nil_append, h.text, h.mask])
  rw [QueryGate.applyEdits, hfold]
  exact hmask.symm

/-! ## Renaming a query -/

/-- The tokens of a query whose names in quotes are single words. -/
structure TokensOf (sql : Text) (ts : List Token) : Prop where
  lexed : Lexed ts
  words : QuotesHoldWords ts
  text : textOf ts = sql
  mask : maskOf ts = maskLiterals sql

theorem TokensOf.lexedAs {sql : Text} {ts : List Token} (h : TokensOf sql ts) : LexedAs sql ts :=
  ⟨h.lexed, h.text, h.mask⟩

/-- Edits that write words in place of different tokens rename a query. -/
theorem TokensOf.renamed_of_edits {sql : Text} {ts : List Token} {edits : List Edit}
    (h : TokensOf sql ts) (hnames : ∀ n, names n → IsWord n)
    (hedits : ∀ e ∈ edits, EditsToken (fun _ => Put names) ts e)
    (hnodup : (edits.map (·.start)).Nodup) :
    ∃ us, Renamed names ts us ∧ TokensOf (QueryGate.applyEdits sql edits) us := by
  obtain ⟨us, hus, hlexed⟩ := h.lexedAs.applyEdits
    (Put.keepsTokens fun n hn => (hnames n hn).fit_quoted) .same (fun _ _ _ => id) hedits hnodup
  have hrenamed : Renamed names ts us :=
    (hus.forall₂ .same fun _ _ _ => id).imp fun _ _ => Put.swap
  exact ⟨us, hrenamed, hlexed.lexed, hrenamed.quotesHoldWords hnames h.words, hlexed.text,
    hlexed.mask⟩

end QueryGate
