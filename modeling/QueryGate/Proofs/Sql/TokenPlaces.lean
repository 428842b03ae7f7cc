import QueryGate.Proofs.Sql.NamesBack
import QueryGate.Proofs.Sql.Tokens

/-!
# Places of names

Where a reader of names begins at a token it ends at one, and the names that it reads are tokens.
`StandsIn` says of an identifier and two offsets that the identifier is the token between them.
-/

namespace QueryGate

/-- The token that an identifier is. -/
def Identifier.token (i : Identifier) : Token := if i.quoted then .quoted i.name else .word i.name

theorem Identifier.token_injective {i j : Identifier} (h : i.token = j.token) : i = j := by
  obtain ⟨v, a⟩ := i
  obtain ⟨w, b⟩ := j
  cases a <;> cases b <;> cases h <;> rfl

theorem Identifier.mask_token (i : Identifier) : i.token.text = i.token.mask := by
  obtain ⟨n, quoted⟩ := i
  cases quoted <;> rfl

/-- Tokens that take up no characters are none. -/
theorem Lexed.eq_nil {ts : List Token} (h : Lexed ts) (hlen : (maskOf ts).length = 0) :
    ts = [] := by
  cases ts with
  | nil => rfl
  | cons t ts =>
    have := List.length_pos_iff.2 (Token.mask_ne_nil (h.fit t List.mem_cons_self))
    rw [maskOf_cons, List.length_append] at hlen
    omega

/-- A place between two tokens is one place. -/
theorem Lexed.split_unique {ts p q p' q' : List Token} (h : Lexed ts) (hp : ts = p ++ q)
    (hp' : ts = p' ++ q') (hlen : (maskOf p).length = (maskOf p').length) : p = p' ∧ q = q' := by
  have hnone {a x b : List Token} (hts : ts = a ++ x ++ b)
      (hlen : (maskOf a).length = (maskOf (a ++ x)).length) : x = [] := by
    subst hts
    rw [maskOf_append, List.length_append] at hlen
    exact (Lexed.of_append (Lexed.of_append h).1).2.eq_nil (by omega)
  obtain ⟨x, rfl, rfl⟩ | ⟨x, rfl, rfl⟩ := List.append_eq_append_iff.1 (hp.symm.trans hp')
  · obtain rfl := hnone hp' hlen
    simp
  · obtain rfl := hnone hp hlen.symm
    simp

/-- Where a token begins no other does. -/
theorem Lexed.token_unique {ts p q p' q' : List Token} {t u : Token} (h : Lexed ts)
    (hp : ts = p ++ t :: q) (hp' : ts = p' ++ u :: q')
    (hlen : (maskOf p).length = (maskOf p').length) : t = u :=
  (List.cons.inj (h.split_unique hp hp' hlen).2).1

/-- A token that begins like a name is read as one. -/
theorem Lexed.read?_token {isStart : Char → Bool} {i : Identifier} {ts : List Token}
    (h : Lexed (i.token :: ts)) (hstart : i.quoted = false → i.name.head?.any isStart = true) :
    Identifier.read? isStart (maskOf (i.token :: ts)) = some (i, maskOf ts) := by
  have hfit := h.fit _ List.mem_cons_self
  obtain ⟨w, quoted⟩ := i
  cases quoted with
  | true =>
    exact Identifier.read?_inQuotes isStart hfit.1 (fun hc => (hfit.2 _ hc).1 rfl) (maskOf ts)
  | false =>
    obtain ⟨c, w, rfl⟩ := List.exists_cons_of_ne_nil hfit.1
    have hc : isStart c = true := hstart rfl
    have hquote : c ≠ '"' := isWordChar_ne_quote (hfit.2 c List.mem_cons_self)
    have hw : ∀ d ∈ w, isNamePart d = true := fun d hd =>
      isNamePart_of_isWordChar (hfit.2 d (List.mem_cons_of_mem c hd))
    have hnext := Lexed.head?_maskOf_any h
    change Identifier.read? isStart (c :: w ++ maskOf ts) = _
    simp only [List.cons_append, Identifier.read?, beq_iff_eq, hquote, if_false, hc, if_true,
      takeWhile_append_of_all hw hnext, dropWhile_append_of_all hw hnext]

/-- A name at the beginning is seen in the mask. -/
theorem Lexed.exists_cons_of_maskOf {i : Identifier} {ts us : List Token}
    (hts : Lexed (i.token :: ts)) (hus : Lexed us) (hmask : maskOf (i.token :: ts) = maskOf us) :
    ∃ vs, us = i.token :: vs := by
  have hread := @Lexed.read?_token isWordChar _ _ hts fun hbare => by
    obtain ⟨w, quoted⟩ := i
    obtain rfl := hbare
    have hword : IsWord w := hts.fit _ List.mem_cons_self
    rw [List.head?_eq_some_head hword.1]
    exact hword.2 _ (List.head_mem hword.1)
  rw [hmask] at hread
  obtain ⟨vs, hvs, -⟩ := hus.exists_name (fun _ hc => hc) hread
  exact ⟨vs, hvs⟩

/-- A text is cut into tokens in one way. -/
theorem Lexed.unique {ts us : List Token} (hts : Lexed ts) (hus : Lexed us)
    (htext : textOf ts = textOf us) (hmask : maskOf ts = maskOf us) : ts = us := by
  induction ts generalizing us with
  | nil => exact (hus.eq_nil (by rw [← hmask]; rfl)).symm
  | cons t ts ih =>
    -- Where the first tokens are one, so are those behind.
    have hrest {us : List Token} (hus : Lexed (t :: us)) (htext : textOf (t :: ts) = textOf (t :: us))
        (hmask : maskOf (t :: ts) = maskOf (t :: us)) : t :: ts = t :: us := by
      rw [ih hts.tail hus.tail (by simpa using htext) (by simpa using hmask)]
    cases t with
    | word w =>
      obtain ⟨vs, rfl⟩ := exists_cons_of_maskOf (i := ⟨w, false⟩) hts hus hmask
      exact hrest hus htext hmask
    | quoted w =>
      obtain ⟨vs, rfl⟩ := exists_cons_of_maskOf (i := ⟨w, true⟩) hts hus hmask
      exact hrest hus htext hmask
    | other c m =>
      cases us with
      | nil => cases hmask
      | cons u us =>
        cases u with
        | word w =>
          obtain ⟨vs, hvs⟩ := exists_cons_of_maskOf (i := ⟨w, false⟩) hus hts hmask.symm
          cases hvs
        | quoted w =>
          obtain ⟨vs, hvs⟩ := exists_cons_of_maskOf (i := ⟨w, true⟩) hus hts hmask.symm
          cases hvs
        | other d n =>
          obtain ⟨rfl, -⟩ := List.cons.inj htext
          obtain ⟨rfl, -⟩ := List.cons.inj hmask
          exact hrest hus htext hmask

/-- Between two offsets stands the identifier, as a token of some that begin at offset `n`. -/
def StandsIn (i : Identifier) (start stop n : Nat) (ts : List Token) : Prop :=
  ∃ p q, ts = p ++ i.token :: q ∧ start = n + (maskOf p).length ∧
    stop = start + i.token.mask.length

namespace StandsIn

variable {i : Identifier} {start stop n : Nat} {ts : List Token}

theorem unique {j : Identifier} {stop' : Nat} (h : StandsIn i start stop n ts) (hts : Lexed ts)
    (h' : StandsIn j start stop' n ts) : i = j ∧ stop = stop' := by
  obtain ⟨p, q, hp, hstart, rfl⟩ := h
  obtain ⟨p', q', hp', hstart', rfl⟩ := h'
  obtain rfl := Identifier.token_injective (hts.token_unique hp hp' (by omega))
  exact ⟨rfl, rfl⟩

end StandsIn

/-! ## Parts of a query that are read -/

section Reading

variable {ts : List Token} (h : Lexed ts)

include h in
/-- A word with nothing of a word behind it is one token. -/
theorem Lexed.exists_word {x r : Text} (hx : IsWord x) (hr : r.head?.any isWordChar = false)
    (hts : maskOf ts = x ++ r) : ∃ us, ts = .word x :: us ∧ r = maskOf us := by
  obtain ⟨hne, hchars⟩ := hx
  cases ts with
  | nil => exact absurd (List.append_eq_nil_iff.1 hts.symm).1 hne
  | cons t us =>
    have hfit := h.fit t List.mem_cons_self
    obtain ⟨c, x', rfl⟩ := List.exists_cons_of_ne_nil hne
    have hc := hchars c List.mem_cons_self
    cases t with
    | word w =>
      rw [maskOf_cons] at hts
      obtain ⟨z, hz, hrest⟩ | ⟨z, hz, hrest⟩ := List.append_eq_append_iff.1 hts
      · cases z with
        | nil =>
          rw [List.append_nil] at hz
          exact ⟨us, by rw [hz]; rfl, by simpa using hrest.symm⟩
        | cons d z =>
          have hd := hchars d (by rw [hz]; simp)
          have := head?_any_isWordChar h.head?_maskOf_any
          rw [hrest, List.cons_append, List.head?_cons, Option.any_some, hd] at this
          cases this
      · cases z with
        | nil =>
          rw [List.append_nil] at hz
          exact ⟨us, by rw [← hz]; rfl, by simpa using hrest⟩
        | cons d z =>
          have hd : isWordChar d = true := hfit.2 d (by
            change d ∈ Token.mask (.word w)
            rw [hz]
            simp)
          rw [hrest, List.cons_append, List.head?_cons, Option.any_some, hd] at hr
          cases hr
    | quoted w =>
      obtain rfl : '"' = c := (List.cons.inj hts).1
      exact absurd hc (by decide)
    | other d m =>
      obtain rfl : m = c := (List.cons.inj hts).1
      have hno : isNamePart m = false := hfit.1
      rw [isNamePart_of_isWordChar hc] at hno
      cases hno

theorem getLast?_any_isInName_of_blank {g : Text} (hg : allBlank g = true) :
    g.getLast?.any isInName = false := by
  cases hlast : g.getLast? with
  | none => rfl
  | some c =>
    have hblank := List.all_eq_true.1 hg c (List.mem_of_getLast? hlast)
    have hc : isInName c = false := by
      rw [isInName, isWordChar_eq_false_of_isBlank hblank, Bool.false_or, beq_eq_false_iff_ne]
      rintro rfl
      exact absurd hblank (by decide)
    exact hc

include h in
theorem Lexed.exists_spaced {rest : Text} (hs : spaced? (maskOf ts) = some rest) :
    ∃ p q, ts = p ++ q ∧ allBlank (maskOf p) = true ∧ rest = maskOf q := by
  obtain ⟨g, -, hg, -, hsplit⟩ := spaced?_eq_some_iff.1 hs
  obtain ⟨p, q, rfl, rfl, rfl⟩ := h.exists_cut_of_no_quote hsplit
    (not_mem_of_allBlank (by decide) hg) (getLast?_any_isInName_of_blank hg)
  exact ⟨p, q, rfl, hg, rfl⟩

/-- Behind a separator and blanks no name goes on. -/
theorem getLast?_any_isInName_of_separator {g g' : Text} {c : Char} (hc : isInName c = false)
    (hg' : allBlank g' = true) : (g ++ c :: g').getLast?.any isInName = false := by
  rw [getLast?_any_append _ (List.cons_ne_nil _ _)]
  cases g' with
  | nil => exact hc
  | cons d g' =>
    rw [List.getLast?_cons_of_ne_nil (List.cons_ne_nil _ _)]
    exact getLast?_any_isInName_of_blank hg'

include h in
/-- A separator with blanks around it. -/
theorem Lexed.exists_separator {c : Char} {r : Text} (hc : isInName c = false)
    (hskip : skipBlanks (maskOf ts) = c :: r) :
    ∃ p q g g', ts = p ++ q ∧ maskOf p = g ++ c :: g' ∧ allBlank g = true ∧ allBlank g' = true ∧
      skipBlanks r = maskOf q := by
  obtain ⟨g, hg, hts⟩ := exists_blanks_append_skipBlanks (maskOf ts)
  obtain ⟨g', hg', hr⟩ := exists_blanks_append_skipBlanks r
  have hsplit : maskOf ts = (g ++ c :: g') ++ skipBlanks r := by
    rw [List.append_assoc, List.cons_append, ← hr, ← hskip]
    exact hts
  have hquote : '"' ∉ g ++ c :: g' := by
    simp only [List.mem_append, List.mem_cons, not_or]
    refine ⟨not_mem_of_allBlank (by decide) hg, ?_, not_mem_of_allBlank (by decide) hg'⟩
    rintro rfl
    exact absurd hc (by decide)
  obtain ⟨p, q, rfl, hp, hrest⟩ := h.exists_cut_of_no_quote hsplit hquote
    (getLast?_any_isInName_of_separator hc hg')
  exact ⟨p, q, g, g', rfl, hp.symm, hg, hg', hrest⟩

include h in
/-- A qualified name is one token or two, with a dot between them. -/
theorem Lexed.exists_qualifiedName {isStart : Char → Bool}
    (hstart : ∀ c, isStart c = true → isWordChar c = true) {n : QualifiedName}
    (hread : QualifiedName.read? isStart (maskOf ts) = some n) :
    ∃ p q, ts = p ++ n.name.token :: q ∧ n.onward = maskOf (n.name.token :: q) ∧
      n.rest = maskOf q ∧ (p = [] ∧ n.qualifier = none ∨
        ∃ i s g g', n.qualifier = some i ∧ p = i.token :: s ∧ maskOf s = g ++ '.' :: g' ∧
          allBlank g = true ∧ allBlank g' = true) := by
  unfold QualifiedName.read? at hread
  obtain ⟨⟨first, r⟩, hfirst, hread⟩ := Option.bind_eq_some_iff.1 hread
  obtain ⟨us, hts, rfl⟩ := h.exists_name hstart hfirst
  change ts = first.token :: us at hts
  subst hts
  have halone :
      some (⟨none, first, maskOf (first.token :: us), maskOf us⟩ : QualifiedName) = some n →
      ∃ p q, first.token :: us = p ++ n.name.token :: q ∧ n.onward = maskOf (n.name.token :: q) ∧
        n.rest = maskOf q ∧ (p = [] ∧ n.qualifier = none ∨
          ∃ i s g g', n.qualifier = some i ∧ p = i.token :: s ∧ maskOf s = g ++ '.' :: g' ∧
            allBlank g = true ∧ allBlank g' = true) := by
    intro hn
    obtain rfl := Option.some.inj hn
    exact ⟨[], us, rfl, rfl, rfl, .inl ⟨rfl, rfl⟩⟩
  simp only at hread
  split at hread
  · exact halone hread
  · rename_i r' hdot
    obtain ⟨y, hy, rfl⟩ := dot?_eq_some hdot
    obtain ⟨s, q, g, g', rfl, hs, hg, hg', hrest⟩ := h.tail.exists_separator (by decide) hy
    rw [hrest] at hread
    split at hread
    · exact halone hread
    · rename_i second rest hsecond
      obtain ⟨vs, hvs, rfl⟩ := (Lexed.of_append h.tail).2.exists_name hstart hsecond
      change q = second.token :: vs at hvs
      subst hvs
      obtain rfl := Option.some.inj hread
      exact ⟨first.token :: s, vs, by simp, rfl, rfl, .inr ⟨first, s, g, g', rfl, rfl, hs, hg, hg'⟩⟩

end Reading

end QueryGate
