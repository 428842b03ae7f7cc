import QueryGate.Proofs.Sql.ColumnTokens
import QueryGate.Proofs.Sql.PlacedTokens

/-!
# Where qualified names stand

Which tokens are read as qualified names is decided by the shapes of the tokens: what is a name,
and which other characters stand between (`hits_qualifiedRef`). Names can be replaced by others
without any effect on it.
-/

namespace QueryGate

/-! ## Shapes -/

/-- What a token is for a reader of qualified names: a name, a word that begins like none, or
another character. -/
inductive Shape
  | name
  | word
  | mark (m : Char)
deriving DecidableEq

def Token.shape : Token → Shape
  | .word w => if w.head?.any isNameStart then .name else .word
  | .quoted _ => .name
  | .other _ m => .mark m

theorem Token.shape_word (w : Text) :
    (Token.word w).shape = if w.head?.any isNameStart then .name else .word := rfl

/-- What is put in for a name is one. -/
theorem Token.shape_rendered {n : Text} (hne : n ≠ []) (forceQuotes : Bool) :
    (Token.rendered n forceQuotes).shape = .name := by
  unfold Token.rendered
  cases hcase : forceQuotes || needsQuotes n with
  | true => rfl
  | false =>
    have hplain := (Bool.or_eq_false_iff.1 hcase).2
    obtain ⟨c, w, rfl⟩ := List.exists_cons_of_ne_nil hne
    have hstart : isNameStart c = true := isNameStart_of_isPlainNameChar
      (isPlainNameChar_of_not_needsQuotes hplain c List.mem_cons_self)
      (Bool.or_eq_false_iff.1 hplain).2
    rw [if_neg Bool.false_ne_true, Token.shape_word, List.head?_cons, Option.any_some, hstart,
      if_pos rfl]

/-- How much of a qualified name has been read: nothing, the qualifier, or the dot as well. The
number is that of the qualifier. -/
inductive Half
  | none
  | qualifier (i : Nat)
  | dotted (i : Nat)

/-- Behind a qualifier a dot goes on with a qualified name. -/
def Half.dot : Half → Half
  | .qualifier i => .dotted i
  | _ => .none

/-- Whether a name directly behind the token begins no qualified name. -/
def Shape.bars : Shape → Bool
  | .mark m => m == '.'
  | _ => true

/-- The numbers of the qualifiers and columns of the qualified names, for tokens that are counted
from `n`; `barred` says of the token in front whether it bars a name. -/
def qualifiedPairs (half : Half) (barred : Bool) (n : Nat) : List Shape → List (Nat × Nat)
  | [] => []
  | .mark m :: ss =>
    qualifiedPairs (if isBlank m then half else if m == '.' then half.dot else .none) (m == '.')
      (n + 1) ss
  | .word :: ss => qualifiedPairs .none true (n + 1) ss
  | .name :: ss =>
    match half with
    | .dotted i => (i, n) :: qualifiedPairs .none true (n + 1) ss
    | _ => qualifiedPairs (if barred then .none else .qualifier n) true (n + 1) ss

theorem qualifiedPairs_name (barred : Bool) (n : Nat) (ss : List Shape) :
    qualifiedPairs .none barred n (.name :: ss) =
      qualifiedPairs (if barred then .none else .qualifier n) true (n + 1) ss := rfl

/-- Blanks, a dot and blanks, and then a name, with what follows it. -/
def DotName (g g' : Text) (ss rest : List Shape) : Prop :=
  allBlank g = true ∧ allBlank g' = true ∧
    ss = g.map .mark ++ .mark '.' :: (g'.map .mark ++ .name :: rest)

section Pairs

variable {i n : Nat} {barred : Bool} {g : Text} {ss rest : List Shape}

theorem qualifiedPairs_dotted (hg : allBlank g = true) :
    qualifiedPairs (.dotted i) barred n (g.map .mark ++ .name :: rest) =
      (i, n + g.length) :: qualifiedPairs .none true (n + g.length + 1) rest := by
  induction g generalizing barred n with
  | nil => rfl
  | cons c g ih =>
    obtain ⟨hc, hg⟩ := List.forall_mem_cons.1 (List.all_eq_true.1 hg)
    rw [List.map_cons, List.cons_append, qualifiedPairs, if_pos hc, ih (List.all_eq_true.2 hg),
      List.length_cons, Nat.add_assoc, Nat.add_comm 1]

/-- A qualifier that a dot and a name follow makes a pair with it. -/
theorem qualifiedPairs_of_dotName {g' : Text} (h : DotName g g' ss rest) :
    qualifiedPairs (.qualifier i) barred n ss =
      (i, n + g.length + 1 + g'.length) ::
        qualifiedPairs .none true (n + g.length + 1 + g'.length + 1) rest := by
  obtain ⟨hg, hg', rfl⟩ := h
  induction g generalizing barred n with
  | nil =>
    rw [List.map_nil, List.nil_append, qualifiedPairs, if_neg (by decide), if_pos (by decide),
      Half.dot, qualifiedPairs_dotted hg', List.length_nil, Nat.add_zero]
  | cons c g ih =>
    obtain ⟨hc, hg⟩ := List.forall_mem_cons.1 (List.all_eq_true.1 hg)
    rw [List.map_cons, List.cons_append, qualifiedPairs, if_pos hc, ih (List.all_eq_true.2 hg),
      List.length_cons, Nat.add_assoc n 1, Nat.add_comm 1]

theorem qualifiedPairs_dotted_of_not
    (h : ¬ ∃ g rest, allBlank g = true ∧ ss = g.map .mark ++ .name :: rest) :
    qualifiedPairs (.dotted i) barred n ss = qualifiedPairs .none barred n ss := by
  induction ss generalizing barred n with
  | nil => rfl
  | cons s ss ih =>
    cases s with
    | name => exact absurd ⟨[], ss, rfl, rfl⟩ h
    | word => rfl
    | mark m =>
      rw [qualifiedPairs, qualifiedPairs]
      cases hm : isBlank m with
      | true =>
        refine ih fun ⟨g, rest, hg, hss⟩ => h ⟨m :: g, rest, ?_, by rw [hss]; rfl⟩
        rw [allBlank, List.all_cons, hm, Bool.true_and]
        exact hg
      | false =>
        simp only [Bool.false_eq_true, if_false]
        rfl

/-- Otherwise the scan goes on as if no qualifier had been read. -/
theorem qualifiedPairs_of_not_dotName (h : ¬ ∃ g g' rest, DotName g g' ss rest) :
    qualifiedPairs (.qualifier i) barred n ss = qualifiedPairs .none barred n ss := by
  induction ss generalizing barred n with
  | nil => rfl
  | cons s ss ih =>
    cases s with
    | name => rfl
    | word => rfl
    | mark m =>
      rw [qualifiedPairs, qualifiedPairs]
      cases hm : isBlank m with
      | true =>
        refine ih ?_
        rintro ⟨g, g', rest, hg, hg', rfl⟩
        refine h ⟨m :: g, g', rest, ?_, hg', rfl⟩
        rw [allBlank, List.all_cons, hm, Bool.true_and]
        exact hg
      | false =>
        simp only [Bool.false_eq_true, if_false]
        cases hdot : m == '.' with
        | false => rfl
        | true =>
          obtain rfl := eq_of_beq hdot
          refine qualifiedPairs_dotted_of_not ?_
          rintro ⟨g', rest, hg', rfl⟩
          exact h ⟨[], g', rest, rfl, hg', rfl⟩

/-- A name that nothing bars makes a pair with the name behind the next dot. -/
theorem qualifiedPairs_of_name {g' : Text} (h : DotName g g' ss rest) :
    qualifiedPairs .none false n (.name :: ss) =
      (n, n + 1 + (g.length + 1 + g'.length)) ::
        qualifiedPairs .none true (n + 1 + (g.length + 1 + g'.length) + 1) rest := by
  have hcount : n + 1 + g.length + 1 + g'.length = n + 1 + (g.length + 1 + g'.length) := by omega
  rw [qualifiedPairs_name, if_neg Bool.false_ne_true, qualifiedPairs_of_dotName h, hcount]

/-- What is no name, is barred or has no dot and name behind it is passed over. -/
theorem qualifiedPairs_cons_of_not {s : Shape}
    (h : s = .name → barred = false → ¬ ∃ g g' rest, DotName g g' ss rest) :
    qualifiedPairs .none barred n (s :: ss) = qualifiedPairs .none s.bars (n + 1) ss := by
  cases s with
  | word => rfl
  | mark m =>
    rw [qualifiedPairs]
    simp only [Half.dot, ite_self]
    rfl
  | name =>
    rw [qualifiedPairs_name]
    cases barred with
    | true => rfl
    | false => exact qualifiedPairs_of_not_dotName (h rfl rfl)

end Pairs

/-- The number from which on what is read may belong to a qualified name. -/
def Half.floor (n : Nat) : Half → Nat
  | .none => n
  | .qualifier i => i
  | .dotted i => i

/-- Pairs of numbers in order, from a number on: in each the second is the greater one, and no
number is in two pairs. -/
structure Ordered (floor : Nat) (pairs : List (Nat × Nat)) : Prop where
  floor_le : ∀ p ∈ pairs, floor ≤ p.1
  lt : ∀ p ∈ pairs, p.1 < p.2
  apart : pairs.Pairwise fun p q => p.2 < q.1

namespace Ordered

variable {floor floor' : Nat} {pairs : List (Nat × Nat)}

theorem nil (floor : Nat) : Ordered floor [] := ⟨nofun, nofun, .nil⟩

theorem of_le (h : Ordered floor pairs) (hle : floor' ≤ floor) : Ordered floor' pairs :=
  ⟨fun p hp => Nat.le_trans hle (h.floor_le p hp), h.lt, h.apart⟩

theorem cons {i j : Nat} (h : Ordered (j + 1) pairs) (hfloor : floor ≤ i) (hlt : i < j) :
    Ordered floor ((i, j) :: pairs) := by
  refine ⟨List.forall_mem_cons.2 ⟨hfloor, fun p hp => ?_⟩, List.forall_mem_cons.2 ⟨hlt, h.lt⟩,
    List.pairwise_cons.2 ⟨fun p hp => h.floor_le p hp, h.apart⟩⟩
  have := h.floor_le p hp
  omega

/-- Two pairs of some in order are one, or one is in front of the other. -/
theorem cases (h : Ordered floor pairs) {p q : Nat × Nat} (hp : p ∈ pairs) (hq : q ∈ pairs) :
    p = q ∨ p.2 < q.1 ∨ q.2 < p.1 := by
  induction pairs with
  | nil => cases hp
  | cons r pairs ih =>
    obtain ⟨hfront, happart⟩ := List.pairwise_cons.1 h.apart
    have htail : Ordered floor pairs :=
      ⟨fun p hp => h.floor_le p (List.mem_cons_of_mem r hp),
        fun p hp => h.lt p (List.mem_cons_of_mem r hp), happart⟩
    rcases List.mem_cons.1 hp with hpr | hp
    · rcases List.mem_cons.1 hq with hqr | hq
      · exact .inl (hpr.trans hqr.symm)
      · exact .inr (.inl (hpr ▸ hfront q hq))
    · rcases List.mem_cons.1 hq with hqr | hq
      · exact .inr (.inr (hqr ▸ hfront p hp))
      · exact ih htail hp hq

/-- A column belongs to one qualifier. -/
theorem fst_unique (h : Ordered floor pairs) {i i' j : Nat} (hp : (i, j) ∈ pairs)
    (hq : (i', j) ∈ pairs) : i = i' := by
  have hlt := h.lt _ hp
  have hlt' := h.lt _ hq
  rcases h.cases hp hq with heq | hbefore | hbefore
  · exact congrArg Prod.fst heq
  · simp only at hlt' hbefore
    omega
  · simp only at hlt hbefore
    omega

/-- No qualifier is a column. -/
theorem fst_ne_snd (h : Ordered floor pairs) {i j m : Nat} (hp : (i, j) ∈ pairs)
    (hq : (m, i) ∈ pairs) : False := by
  have hlt := h.lt _ hp
  have hlt' := h.lt _ hq
  rcases h.cases hp hq with heq | hbefore | hbefore
  · obtain ⟨rfl, rfl⟩ := Prod.mk.inj heq
    exact Nat.lt_irrefl _ hlt
  · simp only at hlt hlt' hbefore
    omega
  · exact Nat.lt_irrefl _ hbefore

end Ordered

/-- What has been read stands in front of what is read next. -/
def Half.Below (n : Nat) : Half → Prop
  | .none => True
  | .qualifier i => i < n
  | .dotted i => i < n

namespace Half.Below

variable {half : Half} {n : Nat}

theorem floor_le (h : half.Below n) : half.floor n ≤ n := by
  cases half with
  | none => exact Nat.le_refl n
  | qualifier i => exact Nat.le_of_lt h
  | dotted i => exact Nat.le_of_lt h

theorem mark (h : half.Below n) (m : Char) :
    (if isBlank m then half else if m == '.' then half.dot else .none).Below (n + 1) ∧
      half.floor n ≤
        (if isBlank m then half else if m == '.' then half.dot else .none).floor (n + 1) := by
  have hnone : half.floor n ≤ n + 1 := Nat.le_succ_of_le h.floor_le
  split
  · cases half with
    | none => exact ⟨trivial, Nat.le_succ n⟩
    | qualifier i => exact ⟨Nat.lt_succ_of_lt h, Nat.le_refl i⟩
    | dotted i => exact ⟨Nat.lt_succ_of_lt h, Nat.le_refl i⟩
  split
  · cases half with
    | none => exact ⟨trivial, hnone⟩
    | qualifier i => exact ⟨Nat.lt_succ_of_lt h, Nat.le_refl i⟩
    | dotted i => exact ⟨trivial, hnone⟩
  · exact ⟨trivial, hnone⟩

end Half.Below

theorem ordered_qualifiedPairs {half : Half} {barred : Bool} {n : Nat} {ss : List Shape}
    (h : half.Below n) : Ordered (half.floor n) (qualifiedPairs half barred n ss) := by
  induction ss generalizing half barred n with
  | nil => exact .nil _
  | cons s ss ih =>
    have hbehind {barred : Bool} :
        Ordered (n + 1) (qualifiedPairs .none barred (n + 1) ss) := @ih .none barred (n + 1) trivial
    cases s with
    | mark m =>
      obtain ⟨hbelow, hle⟩ := h.mark m
      exact (ih hbelow).of_le hle
    | word => exact hbehind.of_le (Nat.le_succ_of_le h.floor_le)
    | name =>
      have hname : Ordered n
          (qualifiedPairs (if barred then .none else .qualifier n) true (n + 1) ss) := by
        cases barred with
        | true => exact hbehind.of_le (Nat.le_succ n)
        | false => exact @ih (.qualifier n) true (n + 1) (Nat.lt_succ_self n)
      cases half with
      | none => exact hname
      | qualifier i => exact hname.of_le h.floor_le
      | dotted i => exact hbehind.cons (Nat.le_refl i) h

/-! ## Readings by shape -/

section Reading

variable {ts us : List Token} {t : Token}

/-- A name that is read is a token with the shape of one. -/
theorem shape_of_read? {i : Identifier} {r rest : Text}
    (h : Identifier.read? isNameStart r = some (i, rest)) : i.token.shape = .name := by
  obtain ⟨w, quoted⟩ := i
  cases quoted with
  | true => rfl
  | false =>
    have hstart : w.head?.any isNameStart = true := Identifier.head?_any_of_read? h rfl
    change (Token.word w).shape = .name
    rw [Token.shape_word, hstart, if_pos rfl]

/-- A token with the shape of a name is read as one. -/
theorem Lexed.read?_of_shape (h : Lexed (t :: ts)) (ht : t.shape = .name) :
    ∃ i : Identifier, t = i.token ∧
      Identifier.read? isNameStart (maskOf (t :: ts)) = some (i, maskOf ts) := by
  cases t with
  | other c m => cases ht
  | quoted w => exact ⟨⟨w, true⟩, rfl, @Lexed.read?_token isNameStart ⟨w, true⟩ ts h nofun⟩
  | word w =>
    refine ⟨⟨w, false⟩, rfl, @Lexed.read?_token isNameStart ⟨w, false⟩ ts h fun _ => ?_⟩
    rw [Token.shape_word] at ht
    split at ht
    · rename_i hstart
      exact hstart
    · cases ht

theorem maskOf_of_marks {x : Text} (h : ts.map Token.shape = x.map .mark) : maskOf ts = x := by
  induction ts generalizing x with
  | nil => exact (List.map_eq_nil_iff.1 h.symm).symm
  | cons t ts ih =>
    cases x with
    | nil => cases h
    | cons c x =>
      obtain ⟨ht, hts⟩ := List.cons.inj h
      rw [maskOf_cons, ih hts]
      cases t with
      | word w =>
        rw [Token.shape_word] at ht
        split at ht <;> cases ht
      | quoted w => cases ht
      | other d m =>
        obtain rfl := Shape.mark.inj ht
        rfl

theorem marks_of_maskOf (hfit : ∀ t ∈ ts, t.Fit) (h : ∀ c ∈ maskOf ts, isInName c = false) :
    ts.map Token.shape = (maskOf ts).map .mark := by
  induction ts with
  | nil => rfl
  | cons t ts ih =>
    obtain ⟨ht, hts⟩ := List.forall_mem_cons.1 hfit
    rw [maskOf_cons] at h ⊢
    have hfirst := fun c hc => h c (List.mem_append_left _ hc)
    rw [List.map_cons, List.map_append, ih hts fun c hc => h c (List.mem_append_right _ hc)]
    cases t with
    | word w =>
      obtain ⟨c, w, rfl⟩ := List.exists_cons_of_ne_nil ht.1
      have hc := hfirst c List.mem_cons_self
      rw [isInName, ht.2 c List.mem_cons_self] at hc
      cases hc
    | quoted w => exact absurd (hfirst '"' List.mem_cons_self) (by decide)
    | other d m => rfl

theorem isInName_eq_false_of_mem_separator {g g' : Text} (hg : allBlank g = true)
    (hg' : allBlank g' = true) : ∀ c ∈ g ++ '.' :: g', isInName c = false := by
  have hblank {g : Text} (hg : allBlank g = true) : ∀ c ∈ g, isInName c = false := by
    intro c hc
    have hb := List.all_eq_true.1 hg c hc
    rw [isInName, isWordChar_eq_false_of_isBlank hb, Bool.false_or, beq_eq_false_iff_ne]
    rintro rfl
    exact absurd hb (by decide)
  intro c hc
  rcases List.mem_append.1 hc with hc | hc
  · exact hblank hg c hc
  rcases List.mem_cons.1 hc with rfl | hc
  · decide
  · exact hblank hg' c hc

/-- Whether no qualified name begins directly behind a text, which is read backwards. -/
def barsName (before : Text) : Bool :=
  before.head?.any fun c => isNamePart c || c == '.' || c == '"'

theorem barsName_concat {pre : List Token} (ht : t.Fit) :
    barsName (maskOf (pre ++ [t])).reverse = t.shape.bars := by
  rw [maskOf_append, maskOf_cons, maskOf_nil, List.append_nil, List.reverse_append, barsName,
    List.head?_append_of_ne_nil _ (by simpa using Token.mask_ne_nil ht), List.head?_reverse]
  cases t with
  | word w =>
    have hbars : (Token.word w).shape.bars = true := by
      rw [Token.shape_word]
      split <;> rfl
    rw [hbars, Token.mask, List.getLast?_eq_some_getLast ht.1, Option.any_some,
      isNamePart_of_isWordChar (ht.2 _ (List.getLast_mem ht.1))]
    rfl
  | quoted w =>
    rw [Token.mask, inQuotes, List.getLast?_append]
    rfl
  | other c m =>
    have hno : isNamePart m = false := ht.1
    have hquote : m ≠ '"' := ht.2
    simp [Token.mask, Token.shape, Shape.bars, hno, hquote]

theorem head?_mask_any_isBlank {i : Identifier} (h : i.token.Fit) :
    i.token.mask.head?.any isBlank = false := by
  obtain ⟨w, quoted⟩ := i
  cases quoted with
  | true => rfl
  | false =>
    obtain ⟨c, w, rfl⟩ := List.exists_cons_of_ne_nil h.1
    exact isBlank_eq_false_of_isWordChar (h.2 c List.mem_cons_self)

/-- A dot among blanks is read up to the name behind it. -/
theorem Lexed.dot?_of_blanks {s vs : List Token} {i : Identifier} (h : Lexed (i.token :: vs))
    {g g' : Text} (hmask : maskOf s = g ++ '.' :: g') (hg : allBlank g = true)
    (hg' : allBlank g' = true) :
    dot? (maskOf (s ++ i.token :: vs)) = some (maskOf (i.token :: vs)) := by
  have hhead : (maskOf (i.token :: vs)).head?.any isBlank = false := by
    have hfit := h.fit _ List.mem_cons_self
    rw [maskOf_cons, List.head?_append_of_ne_nil _ (Token.mask_ne_nil hfit)]
    exact head?_mask_any_isBlank hfit
  have hskip : skipBlanks (maskOf (s ++ i.token :: vs)) =
      '.' :: (g' ++ maskOf (i.token :: vs)) := by
    rw [maskOf_append, hmask, List.append_assoc, skipBlanks_append hg (by rfl)]
    rfl
  rw [dot?, hskip]
  simp only [skipBlanks_append hg' hhead]

/-- What is read at a token as a qualified name. -/
structure ReadsPair (pre : List Token) (t : Token) (us : List Token) (q : QualifiedRef)
    (s : List Token) (j : Token) (vs : List Token) : Prop where
  split : us = s ++ j :: vs
  reads : qualifiedRef (maskOf pre).reverse (maskOf (t :: us)) = some (q, maskOf vs)
  qualifier : t = q.qualifier.token
  column : j = q.column.token
  columnShape : j.shape = .name
  qualifierStart : q.qualifierSpan.start = (maskOf pre).length
  columnStart : q.columnSpan.start = (maskOf (pre ++ t :: s)).length
  dot : ∃ g g', maskOf s = g ++ '.' :: g' ∧ allBlank g = true ∧ allBlank g' = true
  isTableOrCall : q.isTableOrCall =
    (followsWord ["FROM", "JOIN"] (maskOf pre).reverse || opensCall (maskOf vs))

/-- A name that nothing bars is read with the name behind the next dot. -/
theorem exists_readsPair {pre : List Token} (h : Lexed (t :: us)) (ht : t.shape = .name)
    (hbars : barsName (maskOf pre).reverse = false) {g g' : Text} {rest : List Shape}
    (hdot : DotName g g' (us.map Token.shape) rest) :
    ∃ q s j vs, ReadsPair pre t us q s j vs ∧ s.length = g.length + 1 + g'.length ∧
      vs.map Token.shape = rest := by
  obtain ⟨hg, hg', hshapes⟩ := hdot
  have hsplit : us.map Token.shape = (g ++ '.' :: g').map .mark ++ .name :: rest := by
    rw [hshapes]
    simp
  obtain ⟨s, r, rfl, hs, hr⟩ := List.map_eq_append_iff.1 hsplit
  obtain ⟨j, vs, rfl, hj, hvs⟩ := List.map_eq_cons_iff.1 hr
  have hmask := maskOf_of_marks hs
  obtain ⟨x, rfl, hx⟩ := h.read?_of_shape ht
  have hjvs : Lexed (j :: vs) := (Lexed.of_append h.tail).2
  obtain ⟨y, rfl, hy⟩ := hjvs.read?_of_shape hj
  have hdot := hjvs.dot?_of_blanks hmask hg hg'
  have hname : QualifiedName.read? isNameStart (maskOf (x.token :: (s ++ y.token :: vs))) =
      some ⟨some x, y, maskOf (y.token :: vs), maskOf vs⟩ := by
    rw [QualifiedName.read?, hx]
    simp only [Option.bind_eq_bind, Option.bind_some, hdot, hy]
    rfl
  obtain ⟨q, hq⟩ : ∃ q : QualifiedRef, q =
      { qualifier := x
        column := y
        qualifierSpan := ⟨(maskOf pre).reverse.length, offsetOf (maskOf pre).reverse
          (maskOf (x.token :: (s ++ y.token :: vs))) (maskOf (s ++ y.token :: vs))⟩
        columnSpan := ⟨offsetOf (maskOf pre).reverse (maskOf (x.token :: (s ++ y.token :: vs)))
            (maskOf (y.token :: vs)),
          offsetOf (maskOf pre).reverse (maskOf (x.token :: (s ++ y.token :: vs))) (maskOf vs)⟩
        isTableOrCall := followsWord ["FROM", "JOIN"] (maskOf pre).reverse ||
          opensCall (maskOf vs) } := ⟨_, rfl⟩
  refine ⟨q, s, y.token, vs, ⟨rfl, ?_, by rw [hq], by rw [hq], hj, ?_, ?_,
    ⟨g, g', hmask, hg, hg'⟩, by rw [hq]⟩, ?_, hvs⟩
  · unfold barsName at hbars
    rw [qualifiedRef, hbars, if_neg Bool.false_ne_true, hname, hq]
    simp only [Option.bind_eq_bind, Option.bind_some, hx]
    rfl
  · rw [hq, List.length_reverse]
  · rw [hq]
    simp only [offsetOf, List.length_reverse, maskOf_append, maskOf_cons, List.length_append]
    omega
  · have := congrArg List.length hs
    simp only [List.length_map, List.length_append, List.length_cons] at this
    omega

/-- Only a name that nothing bars, with a dot and a name behind it, is read. -/
theorem dotName_of_reads {before rest : Text} {q : QualifiedRef} (h : Lexed (t :: us))
    (hread : qualifiedRef before (maskOf (t :: us)) = some (q, rest)) :
    t.shape = .name ∧ barsName before = false ∧
      ∃ g g' rest, DotName g g' (us.map Token.shape) rest := by
  unfold qualifiedRef at hread
  split at hread
  · cases hread
  rename_i hbefore
  obtain ⟨n, hn, hread⟩ := Option.bind_eq_some_iff.1 hread
  obtain ⟨i, hi, -⟩ := Option.bind_eq_some_iff.1 hread
  have hstart : ∀ c, isNameStart c = true → isWordChar c = true := fun _ hc =>
    isWordChar_of_isFoldedNameStart (isFoldedNameStart_of_isNameStart hc)
  obtain ⟨x, vs, hsplit, -, -, ⟨-, hnone⟩ | ⟨j, s, g, g', hj, rfl, hmask, hg, hg'⟩⟩ :=
    h.exists_qualifiedName hstart hn
  · rw [hnone] at hi
    cases hi
  rw [List.cons_append] at hsplit
  obtain ⟨rfl, rfl⟩ := List.cons.inj hsplit
  obtain ⟨r', hfirst, -, hsecond⟩ := QualifiedName.reads_of_qualifier hn hj
  have hmarks := marks_of_maskOf (fun t ht => h.fit t (by simp [ht]))
    (hmask ▸ isInName_eq_false_of_mem_separator hg hg')
  refine ⟨shape_of_read? hfirst, Bool.eq_false_iff.2 hbefore, g, g', vs.map Token.shape, hg, hg', ?_⟩
  rw [List.map_append, List.map_cons, hmarks, hmask, shape_of_read? hsecond]
  simp

/-- No token is cut between the places where it begins and ends. -/
theorem not_split_inside {pre p q : List Token} (h : pre ++ t :: us = p ++ q)
    (hlt : (maskOf pre).length < (maskOf p).length)
    (hlt' : (maskOf p).length < (maskOf (pre ++ [t])).length) : False := by
  obtain ⟨a, rfl, -⟩ := exists_append_of_lt h hlt
  simp only [maskOf_append, maskOf_cons, maskOf_nil, List.length_append, List.length_nil] at hlt'
  omega

/-- The scan passes over a token where no qualified name is read. -/
theorem hitsFrom_qualifiedRef_cons {pre : List Token} (h : Lexed (pre ++ t :: us))
    (hdots : QuotesLackDots (pre ++ t :: us))
    (hnone : qualifiedRef (maskOf pre).reverse (maskOf (t :: us)) = none) :
    hitsFrom qualifiedRef (maskOf pre).reverse 0 (maskOf (t :: us)) =
      hitsFrom qualifiedRef (maskOf (pre ++ [t])).reverse 0 (maskOf us) := by
  have hbefore : (maskOf (pre ++ [t])).reverse = t.mask.reverse ++ (maskOf pre).reverse := by
    simp [maskOf_append]
  rw [maskOf_cons, hitsFrom_append_of_none, hbefore]
  intro a b hab hb
  by_cases ha : a = []
  · subst ha
    rw [List.nil_append] at hab
    rwa [← hab, ← maskOf_cons]
  rw [Option.eq_none_iff_forall_ne_some]
  rintro ⟨q, rest⟩ hread
  have hmask : maskOf (pre ++ t :: us) = (maskOf pre ++ a) ++ (b ++ maskOf us) := by
    rw [maskOf_append, maskOf_cons, hab]
    simp
  obtain ⟨hbars, n, -, -, hn, hi, -⟩ := qualifiedRef_eq_some hread
  have hlast : (maskOf pre ++ a).getLast?.any isInName = false :=
    isInName_getLast?_eq_false (by rwa [List.reverse_append])
  obtain ⟨p, q', hsplit, hp, -⟩ := h.exists_cut_of_qualified hdots hmask hlast hn hi
  have hpos := List.length_pos_iff.2 ha
  have hpos' := List.length_pos_iff.2 hb
  refine not_split_inside hsplit ?_ ?_
  · rw [← hp, List.length_append]
    omega
  · rw [← hp]
    simp only [maskOf_append, maskOf_cons, maskOf_nil, hab, List.length_append, List.append_nil]
    omega

/-- A pair of numbers is that of a qualified name that is read. -/
structure PairOf (ts : List Token) (q : QualifiedRef) (p : Nat × Nat) : Prop where
  qualifier : ts[p.1]? = some q.qualifier.token
  qualifierPlace : placeOf ts p.1 = q.qualifierSpan.start
  column : ts[p.2]? = some q.column.token
  columnPlace : placeOf ts p.2 = q.columnSpan.start
  dotBehind : beginsWithDot (maskOf (ts.drop (p.1 + 1))) = true
  dotBefore : beginsWithDot (maskOf (ts.take p.2)).reverse = true
  isTableOrCall : q.isTableOrCall =
    (followsWord ["FROM", "JOIN"] (maskOf (ts.take p.1)).reverse ||
      opensCall (maskOf (ts.drop (p.2 + 1))))

theorem ReadsPair.pairOf {pre : List Token} {q : QualifiedRef} {s : List Token} {j : Token}
    {vs : List Token} (h : ReadsPair pre t us q s j vs) :
    PairOf (pre ++ t :: us) q (pre.length, pre.length + 1 + s.length) := by
  obtain ⟨rfl, -, rfl, rfl, -, hqualifier, hcolumn, ⟨g, g', hmask, hg, hg'⟩, hcall⟩ := h
  have hsplit : pre ++ q.qualifier.token :: (s ++ q.column.token :: vs) =
      (pre ++ q.qualifier.token :: s) ++ q.column.token :: vs := by simp
  have hlength : pre.length + 1 + s.length = (pre ++ q.qualifier.token :: s).length := by
    simp only [List.length_append, List.length_cons]
    omega
  have hbehind (p : List Token) (t : Token) (q : List Token) :
      (p ++ t :: q).drop (p.length + 1) = q := by
    rw [← List.drop_drop, List.drop_left, List.drop_succ_cons, List.drop_zero]
  refine ⟨getElem?_append_cons _ _ _, ?_, ?_, ?_, ?_, ?_, ?_⟩
  · rw [placeOf_append, hqualifier]
  · rw [hlength, hsplit]
    exact getElem?_append_cons _ _ _
  · rw [hlength, hsplit, placeOf_append, hcolumn]
  · rw [hbehind, maskOf_append, hmask, List.append_assoc]
    exact beginsWithDot_append hg
  · rw [hlength, hsplit, List.take_left, maskOf_append, maskOf_cons, hmask, ← List.append_assoc]
    exact beginsWithDot_reverse_of_dot hg'
  · rw [hcall, List.take_left, hlength, hsplit, hbehind]

/-- Where a pair is read the scan goes on behind its column. -/
theorem ReadsPair.hitsFrom_eq {pre : List Token} {q : QualifiedRef} {s : List Token} {j : Token}
    {vs : List Token} (hpair : ReadsPair pre t us q s j vs) (h : Lexed (t :: us)) :
    ∃ k : Hit QualifiedRef, k.value = q ∧
      hitsFrom qualifiedRef (maskOf pre).reverse 0 (maskOf (t :: us)) =
        k :: hitsFrom qualifiedRef (maskOf (pre ++ t :: s ++ [j])).reverse 0 (maskOf vs) := by
  have hmask : maskOf (t :: us) = maskOf (t :: s ++ [j]) ++ maskOf vs := by
    rw [hpair.split]
    simp
  have hne : maskOf (t :: s ++ [j]) ≠ [] := by
    rw [List.cons_append, maskOf_cons]
    exact List.append_ne_nil_of_left_ne_nil (Token.mask_ne_nil (h.fit t List.mem_cons_self)) _
  have hbefore : (maskOf (pre ++ t :: s ++ [j])).reverse =
      (maskOf (t :: s ++ [j])).reverse ++ (maskOf pre).reverse := by
    rw [List.append_assoc, maskOf_append, List.reverse_append]
  have hreads := hpair.reads
  rw [hmask] at hreads ⊢
  rw [hbefore, hitsFrom_of_read hne hreads]
  exact ⟨_, rfl, rfl⟩

/-- The qualified names that are read are the pairs, in their order. -/
theorem hitsFrom_qualifiedRef {pre us : List Token} (h : Lexed (pre ++ us))
    (hdots : QuotesLackDots (pre ++ us)) :
    List.Forall₂ (fun k p => PairOf (pre ++ us) k.value p)
      (hitsFrom qualifiedRef (maskOf pre).reverse 0 (maskOf us))
      (qualifiedPairs .none (barsName (maskOf pre).reverse) pre.length (us.map Token.shape)) := by
  induction hn : us.length using Nat.strong_induction_on generalizing pre us with
  | _ n ih =>
    subst hn
    cases us with
    | nil => exact .nil
    | cons t us =>
      have htail := (Lexed.of_append h).2
      cases hread : qualifiedRef (maskOf pre).reverse (maskOf (t :: us)) with
      | some r =>
        obtain ⟨q, rest⟩ := r
        obtain ⟨ht, hbars, g, g', rest', hdot⟩ := dotName_of_reads htail hread
        obtain ⟨q, s, j, vs, hpair, hlength, rfl⟩ := exists_readsPair htail ht hbars hdot
        have hsplit : pre ++ t :: us = (pre ++ t :: s ++ [j]) ++ vs := by
          rw [hpair.split]
          simp
        have hprefix : (pre ++ t :: s ++ [j]).length = pre.length + 1 + s.length + 1 := by
          simp only [List.length_append, List.length_cons, List.length_nil]
          omega
        have hlexed := hsplit ▸ h
        have hnext := ih vs.length (by rw [hpair.split]; simp; omega) hlexed (hsplit ▸ hdots) rfl
        obtain ⟨k, rfl, hhits⟩ := hpair.hitsFrom_eq htail
        rw [barsName_concat (hlexed.fit j (by simp)), hpair.columnShape, hprefix, ← hsplit] at hnext
        rw [hhits, List.map_cons, ht, hbars, qualifiedPairs_of_name hdot, ← hlength]
        exact .cons hpair.pairOf hnext
      | none =>
        have hsplit : pre ++ t :: us = (pre ++ [t]) ++ us := by simp
        have hnext := ih us.length (by simp) (hsplit ▸ h) (hsplit ▸ hdots) rfl
        rw [barsName_concat (h.fit t (by simp)), List.length_append, List.length_singleton,
          ← hsplit] at hnext
        rw [hitsFrom_qualifiedRef_cons h hdots hread, List.map_cons, qualifiedPairs_cons_of_not]
        · exact hnext
        rintro ht hbars ⟨g, g', rest, hdot⟩
        obtain ⟨q, s, j, vs, hpair, -⟩ := exists_readsPair htail ht hbars hdot
        rw [hpair.reads] at hread
        cases hread

end Reading

/-! ## All qualified names of a text -/

/-- The numbers of the qualifiers and columns of the qualified names among some tokens. -/
def qualifiedPlaces (ts : List Token) : List (Nat × Nat) :=
  qualifiedPairs .none false 0 (ts.map Token.shape)

theorem ordered_qualifiedPlaces (ts : List Token) : Ordered 0 (qualifiedPlaces ts) :=
  @ordered_qualifiedPairs .none false 0 (ts.map Token.shape) trivial

/-- What is read as part of a qualified name has the shape of a name. -/
theorem shape_of_mem_qualifiedRefs {t : Text} {q : QualifiedRef} (hq : q ∈ qualifiedRefs t) :
    q.qualifier.token.shape = .name ∧ q.column.token.shape = .name := by
  obtain ⟨k, hk, rfl⟩ := List.mem_map.1 (List.mem_filter.1 hq).1
  obtain ⟨a, b, rest, -, hread, -⟩ := span_of_mem_hitsFrom hk
  unfold qualifiedRef at hread
  split at hread
  · cases hread
  obtain ⟨n, hn, hread⟩ := Option.bind_eq_some_iff.1 hread
  obtain ⟨i, hi, hread⟩ := Option.bind_eq_some_iff.1 hread
  obtain ⟨⟨first, r⟩, -, hread⟩ := Option.bind_eq_some_iff.1 hread
  obtain ⟨r', hfirst, -, hsecond⟩ := QualifiedName.reads_of_qualifier hn hi
  rw [← (Prod.mk.inj (Option.some.inj hread)).1]
  exact ⟨shape_of_read? hfirst, shape_of_read? hsecond⟩

section All

variable {ts us : List Token} (h : Lexed ts) (hdots : QuotesLackDots ts)

include h hdots

/-- The qualified names of a text are those at the pairs of numbers, in their order. -/
theorem hits_qualifiedRef :
    List.Forall₂ (fun k p => PairOf ts k.value p) (hits qualifiedRef (maskOf ts))
      (qualifiedPlaces ts) :=
  @hitsFrom_qualifiedRef [] ts h hdots

theorem exists_pair_of_mem_qualifiedRefs {q : QualifiedRef} (hq : q ∈ qualifiedRefs (maskOf ts)) :
    ∃ p ∈ qualifiedPlaces ts, PairOf ts q p ∧ q.isTableOrCall = false := by
  obtain ⟨hq, hcall⟩ := List.mem_filter.1 hq
  obtain ⟨k, hk, rfl⟩ := List.mem_map.1 hq
  obtain ⟨n, hn⟩ := List.getElem?_of_mem hk
  obtain ⟨hlt, rfl⟩ := List.getElem?_eq_some_iff.1 hn
  have hall := hits_qualifiedRef h hdots
  have hlt' : n < (qualifiedPlaces ts).length := hall.length_eq ▸ hlt
  exact ⟨(qualifiedPlaces ts)[n], List.getElem_mem hlt', List.Forall₂.get hall hlt hlt',
    by simpa using hcall⟩

theorem exists_mem_qualifiedRefs_of_pair {p : Nat × Nat} (hp : p ∈ qualifiedPlaces ts) :
    ∃ q, PairOf ts q p ∧ (q.isTableOrCall = false → q ∈ qualifiedRefs (maskOf ts)) := by
  obtain ⟨n, hn⟩ := List.getElem?_of_mem hp
  obtain ⟨hlt, rfl⟩ := List.getElem?_eq_some_iff.1 hn
  have hall := hits_qualifiedRef h hdots
  have hlt' : n < (hits qualifiedRef (maskOf ts)).length := hall.length_eq ▸ hlt
  refine ⟨(hits qualifiedRef (maskOf ts))[n].value, List.Forall₂.get hall hlt' hlt, fun hcall => ?_⟩
  exact List.mem_filter.2 ⟨List.mem_map_of_mem (List.getElem_mem hlt'), by simpa using hcall⟩

end All

/-! ## What shapes say of the text -/

section Congr

variable {ts us : List Token} (hts : ∀ t ∈ ts, t.Fit) (hus : ∀ u ∈ us, u.Fit)
  (h : us.map Token.shape = ts.map Token.shape)

theorem Token.mask_of_mark {t : Token} {m : Char} (h : t.shape = .mark m) : t.mask = [m] := by
  have := @maskOf_of_marks [t] [m] (by rw [List.map_singleton, h]; rfl)
  simpa using this

/-- A name or a word begins and ends with a character of one. -/
theorem Token.isInName_ends {t : Token} (ht : t.Fit) (h : ∀ m, t.shape ≠ .mark m) :
    (∃ c x, t.mask = c :: x ∧ isInName c = true) ∧ t.mask.getLast?.any isInName = true := by
  cases t with
  | other c m => exact absurd rfl (h m)
  | quoted w =>
    refine ⟨⟨'"', _, rfl, by decide⟩, ?_⟩
    rw [Token.mask, inQuotes, List.getLast?_append]
    rfl
  | word w =>
    have hin : ∀ c ∈ w, isInName c = true := fun c hc => by simp [isInName, ht.2 c hc]
    obtain ⟨c, x, hw⟩ := List.exists_cons_of_ne_nil ht.1
    refine ⟨⟨c, x, hw, hin c (by simp [hw])⟩, ?_⟩
    rw [Token.mask, List.getLast?_eq_some_getLast ht.1, Option.any_some]
    exact hin _ (List.getLast_mem ht.1)

/-- Blanks aside, what begins like a name does not begin with a mark. -/
theorem head?_skipBlanks_of_isInName {m : Char} (hm : isInName m = false) {x : Text}
    (hx : x.head?.any isInName = true) (r : Text) :
    ((skipBlanks (x ++ r)).head? == some m) = false := by
  cases x with
  | nil => cases hx
  | cons c x =>
    have hc : isInName c = true := hx
    have hblank : isBlank c = false := by
      by_contra hblank
      rw [isInName, isWordChar_eq_false_of_isBlank (by simpa using hblank), Bool.false_or,
        beq_iff_eq] at hc
      subst hc
      exact hblank (by decide)
    rw [List.cons_append, skipBlanks_eq_self (by simpa using hblank), List.head?_cons,
      beq_eq_false_iff_ne, Ne, Option.some_inj]
    rintro rfl
    rw [hc] at hm
    cases hm

theorem skipBlanks_cons_of_isBlank {c : Char} (hc : isBlank c = true) (r : Text) :
    skipBlanks (c :: r) = skipBlanks r := by simp [skipBlanks, hc]

include hts hus h

/-- Whether some mark comes first, blanks aside, in what is written of tokens does not depend on
their names, if a mark is written as it is and a name or a word begins with a character of one. -/
theorem head?_skipBlanks_flatMap_congr {m : Char} (hm : isInName m = false) {write : Token → Text}
    (hwrite : ∀ (t : Token) (d : Char), t.shape = .mark d → write t = [d])
    (hname : ∀ t : Token, t.Fit → (∀ d, t.shape ≠ .mark d) →
      (write t).head?.any isInName = true) :
    ((skipBlanks (us.flatMap write)).head? == some m) =
      ((skipBlanks (ts.flatMap write)).head? == some m) := by
  induction ts generalizing us with
  | nil => rw [List.map_eq_nil_iff.1 h]
  | cons t ts ih =>
    obtain ⟨u, us, rfl, hu, hrest⟩ := List.map_eq_cons_iff.1 h
    obtain ⟨ht, hts⟩ := List.forall_mem_cons.1 hts
    obtain ⟨huFit, hus⟩ := List.forall_mem_cons.1 hus
    rw [List.flatMap_cons, List.flatMap_cons]
    by_cases hmark : ∃ d, t.shape = .mark d
    · obtain ⟨d, hd⟩ := hmark
      rw [hwrite t d hd, hwrite u d (hu.trans hd), List.singleton_append, List.singleton_append]
      cases hblank : isBlank d with
      | true =>
        rw [skipBlanks_cons_of_isBlank hblank, skipBlanks_cons_of_isBlank hblank, ih hts hus hrest]
      | false => simp [skipBlanks, hblank]
    · have hno : ∀ d, t.shape ≠ .mark d := fun d hd => hmark ⟨d, hd⟩
      rw [head?_skipBlanks_of_isInName hm (hname t ht hno),
        head?_skipBlanks_of_isInName hm (hname u huFit (by rwa [hu]))]

/-- Whether some mark comes first, blanks aside, does not depend on the names. -/
theorem head?_skipBlanks_congr {m : Char} (hm : isInName m = false) :
    ((skipBlanks (maskOf us)).head? == some m) = ((skipBlanks (maskOf ts)).head? == some m) := by
  refine head?_skipBlanks_flatMap_congr hts hus h hm (fun t d hd => Token.mask_of_mark hd) ?_
  intro t ht hno
  obtain ⟨c, x, hx, hc⟩ := (Token.isInName_ends ht hno).1
  rw [hx]
  exact hc

/-- The same of the mark that comes last. -/
theorem head?_skipBlanks_reverse_congr {m : Char} (hm : isInName m = false) :
    ((skipBlanks (maskOf us).reverse).head? == some m) =
      ((skipBlanks (maskOf ts).reverse).head? == some m) := by
  rw [maskOf, maskOf, List.reverse_flatMap, List.reverse_flatMap]
  refine head?_skipBlanks_flatMap_congr (fun t ht => hts t (List.mem_reverse.1 ht))
    (fun u hu => hus u (List.mem_reverse.1 hu)) ?_ hm (fun t d hd => ?_) fun t ht hno => ?_
  · rw [List.map_reverse, List.map_reverse, h]
  · rw [Function.comp_apply, Token.mask_of_mark hd, List.reverse_singleton]
  · rw [Function.comp_apply, List.head?_reverse]
    exact (Token.isInName_ends ht hno).2

theorem opensCall_congr : opensCall (maskOf us) = opensCall (maskOf ts) :=
  head?_skipBlanks_congr hts hus h (by decide)

theorem beginsWithDot_congr : beginsWithDot (maskOf us) = beginsWithDot (maskOf ts) :=
  head?_skipBlanks_congr hts hus h (by decide)

theorem beginsWithDot_reverse_congr :
    beginsWithDot (maskOf us).reverse = beginsWithDot (maskOf ts).reverse :=
  head?_skipBlanks_reverse_congr hts hus h (by decide)

/-- Whether some mark comes last does not depend on the names. -/
theorem getLast?_congr {m : Char} (hm : isInName m = false)
    (hlast : (maskOf ts).getLast? = some m) : (maskOf us).getLast? = some m := by
  rcases List.eq_nil_or_concat ts with rfl | ⟨ts, t, rfl⟩
  · cases hlast
  rw [List.concat_eq_append, List.map_append, List.map_singleton] at h
  obtain ⟨us, v, rfl, -, hv⟩ := List.map_eq_append_iff.1 h
  obtain ⟨u, rest, rfl, hu, hrest⟩ := List.map_eq_cons_iff.1 hv
  obtain rfl := List.map_eq_nil_iff.1 hrest
  have hfit := hts t (by simp)
  rw [List.concat_eq_append, maskOf_append, List.getLast?_append, maskOf_cons, maskOf_nil,
    List.append_nil, List.getLast?_eq_some_getLast (Token.mask_ne_nil hfit), Option.some_or] at hlast
  by_cases hmark : ∃ d, t.shape = .mark d
  · obtain ⟨d, hd⟩ := hmark
    rw [← List.getLast?_eq_some_getLast, Token.mask_of_mark hd] at hlast
    rw [maskOf_append, List.getLast?_append, maskOf_cons, maskOf_nil, List.append_nil,
      Token.mask_of_mark (hu.trans hd), hlast, Option.some_or]
  · have hin := (Token.isInName_ends hfit fun d hd => hmark ⟨d, hd⟩).2
    rw [List.getLast?_eq_some_getLast (Token.mask_ne_nil hfit), hlast, Option.any_some, hm] at hin
    cases hin

end Congr

end QueryGate
