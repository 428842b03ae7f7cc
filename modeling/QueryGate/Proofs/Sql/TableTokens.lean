import QueryGate.Proofs.Sql.FromScan
import QueryGate.Proofs.Sql.Renaming
import QueryGate.Proofs.Sql.TokenWords
import QueryGate.Proofs.Text.Ascii

/-!
# Tables among the tokens

Each table reference names one token, and no two references name the same (`tableRefs_tokens`). The
list of one `FROM` holds no other (`NoFrom`). It may hold what is read as a `JOIN`, if a name is
spelled like one, but then the table behind it is none of the list: a word stands before it, and
before a table of the list a comma (`Behind`).
-/

namespace QueryGate

/-! ## What a reference says -/

/-- A reference says where the last name of a qualified one stands, and it is no bare keyword. -/
theorem tableRef?_identifier {size : Nat} {keyword rest : Text} {n : QualifiedName} {r : TableRef}
    (h : tableRef? size keyword n = some (r, rest)) :
    r.identifier = n.name ∧ r.start = size - n.onward.length ∧ r.stop = size - n.rest.length ∧
      (r.quoted = false → isKeyword r.name = false) ∧
      (rest = n.rest ∨ ∃ i, aliasAfter? n.rest = some (i, rest) ∧
        (i.quoted = false → isKeyword i.name = false)) := by
  unfold tableRef? at h
  split at h
  · cases h
  rename_i hname
  simp only [Option.some.injEq, Prod.mk.injEq] at h
  obtain ⟨rfl, rfl⟩ := h
  refine ⟨rfl, rfl, rfl, ?_, ?_⟩
  · intro hquoted
    simp only at hquoted
    have hboth : opensCall n.rest = false ∧ isKeyword n.name.name = false := by
      simpa [hquoted] using hname
    exact hboth.2
  · cases ha : aliasAfter? n.rest with
    | none => exact .inl rfl
    | some a =>
      obtain ⟨i, rest⟩ := a
      simp only
      split
      · rename_i hi
        refine .inr ⟨i, rfl, fun hquoted => ?_⟩
        simpa [hquoted] using hi
      · exact .inl rfl

theorem tableRef?_schema {size : Nat} {keyword rest : Text} {n : QualifiedName} {r : TableRef}
    (h : tableRef? size keyword n = some (r, rest)) : r.schema = n.qualifier.map (·.name) := by
  unfold tableRef? at h
  split at h
  · cases h
  · simp only [Option.some.injEq, Prod.mk.injEq] at h
    obtain ⟨rfl, -⟩ := h
    rfl

/-- The schema of a reference, if it has one, is the name of a token. -/
def SchemaIn (r : TableRef) (ts : List Token) : Prop :=
  ∀ s, r.schema = some s → ∃ t ∈ ts, t.name? = some s

/-! ## Parts without a `FROM` -/

/-- No word of some tokens is a `FROM` with a name behind it, others following: a dot stands behind
each that is spelled so. -/
def NoFrom (ts us : List Token) : Prop :=
  ∀ p w q, ts = p ++ .word w :: q → Spells "FROM" w → beginsWithDot (maskOf (q ++ us)) = true

/-- `FROM` is spelled in ASCII only, so each spelling is the keyword. -/
theorem isKeyword_of_spells_from {w : Text} (h : Spells "FROM" w) : isKeyword w = true := by
  have hletters : ∀ x ∈ ("FROM" : Text).map foldLetter, x.toNat < 128 ∧ x ∉ ['s', 'k', 'i'] := by
    decide
  have hascii : Ascii w := fun c hc =>
    ascii_of_foldLetter rfl (hletters _ (h.mem hc)).1 (hletters _ (h.mem hc)).2
  have hword : Ascii ("FROM" : Text) := by decide
  have hyes : isKeyword "FROM" = true := by decide
  rw [isKeyword, (hword.spells_iff hascii).1 h]
  exact hyes

/-- What is written `FROM` in capitals is no `JOIN`. -/
theorem spells_from_of_capitals {word x : Text} (hword : word ∈ sourceWords) (hx : Spells word x)
    (h : capitals x = "FROM") : Spells "FROM" x := by
  simp only [sourceWords, List.mem_cons, List.not_mem_nil, or_false] at hword
  rcases hword with rfl | rfl
  · exact hx
  exfalso
  cases x with
  | nil => cases h
  | cons c x =>
    have hc : foldLetter c = 'j' := (List.cons.inj hx).1
    have hcapital : capitalLetter c = 'F' := (List.cons.inj h).1
    rw [capitalLetter_of_foldLetter hc (by decide) (by decide)] at hcapital
    exact absurd hcapital (by decide)

namespace NoFrom

variable {ts us vs : List Token} {i : Identifier}

theorem append (h : NoFrom ts (us ++ vs)) (h' : NoFrom us vs) : NoFrom (ts ++ us) vs := by
  intro p w q hsplit hw
  obtain ⟨a, rfl, ha⟩ | ⟨a, rfl, ha⟩ := List.append_eq_append_iff.1 hsplit
  · exact h' a w q ha hw
  · cases a with
    | nil => exact h' [] w q ha.symm hw
    | cons t a =>
      obtain ⟨rfl, rfl⟩ := List.cons.inj ha
      have := h p w a rfl hw
      rwa [← List.append_assoc] at this

theorem nil (us : List Token) : NoFrom [] us := by
  intro p w q hsplit
  cases p <;> cases hsplit

theorem of_marks (hts : Lexed ts) (h : ∀ c ∈ maskOf ts, isWordChar c = false) : NoFrom ts us := by
  rintro p w q rfl -
  have hw : IsWord w := hts.fit (.word w) (by simp)
  obtain ⟨c, w, rfl⟩ := List.exists_cons_of_ne_nil hw.1
  have hc := h c (by simp [Token.mask])
  rw [hw.2 c List.mem_cons_self] at hc
  cases hc

theorem of_blank (hts : Lexed ts) (h : allBlank (maskOf ts) = true) : NoFrom ts us :=
  .of_marks hts fun _ hc => isWordChar_eq_false_of_isBlank (List.all_eq_true.1 h _ hc)

theorem of_separator (hts : Lexed ts) {g g' : Text} {c : Char} (h : maskOf ts = g ++ c :: g')
    (hc : isWordChar c = false) (hg : allBlank g = true) (hg' : allBlank g' = true) :
    NoFrom ts us := by
  refine .of_marks hts fun d hd => ?_
  rw [h] at hd
  rcases List.mem_append.1 hd with hd | hd
  · exact isWordChar_eq_false_of_isBlank (List.all_eq_true.1 hg d hd)
  · rcases List.mem_cons.1 hd with rfl | hd
    · exact hc
    · exact isWordChar_eq_false_of_isBlank (List.all_eq_true.1 hg' d hd)

theorem of_token {t : Token} (h : ∀ w, t = .word w → Spells "FROM" w →
    beginsWithDot (maskOf us) = true) : NoFrom [t] us := by
  intro p w q hsplit hw
  cases p with
  | nil =>
    obtain ⟨ht, rfl⟩ := List.cons.inj hsplit
    exact h w ht hw
  | cons s p =>
    obtain ⟨-, hnil⟩ := List.cons.inj hsplit
    exact absurd hnil (by simp)

theorem of_name (hi : i.quoted = false → isKeyword i.name = false) : NoFrom [i.token] us := by
  refine .of_token fun w hw hspells => ?_
  obtain ⟨v, quoted⟩ := i
  cases quoted with
  | true => cases hw
  | false =>
    obtain rfl : v = w := Token.word.inj hw
    have := hi rfl
    rw [isKeyword_of_spells_from hspells] at this
    cases this

end NoFrom

/-! ## Parts of a list of tables -/

section Region

variable {ts us : List Token} {i : Identifier}

/-- In front of an alias and in it there is no `FROM`. -/
theorem alias_tokens {rest : Text} (h : Lexed ts) (ha : aliasAfter? (maskOf ts) = some (i, rest))
    (hi : i.quoted = false → isKeyword i.name = false) :
    ∃ p q, ts = p ++ q ∧ rest = maskOf q ∧ NoFrom p q := by
  obtain ⟨u, hu, v, hv, hread⟩ := aliasAfter?_eq_some ha
  obtain ⟨g, ts, rfl, hg, rfl⟩ := h.exists_spaced hu
  obtain ⟨hgap, hlexed⟩ := Lexed.of_append h
  have hname {ts : List Token} (h : Lexed ts)
      (hread : Identifier.read? isFoldedNameStart (maskOf ts) = some (i, rest)) :
      ∃ q, ts = i.token :: q ∧ rest = maskOf q :=
    h.exists_name (fun _ => isWordChar_of_isFoldedNameStart) hread
  rcases hv with rfl | hv
  · obtain ⟨q, rfl, rfl⟩ := hname hlexed hread
    exact ⟨g ++ [i.token], q, by simp, rfl, .append (.of_blank hgap hg) (.of_name hi)⟩
  · obtain ⟨r, hr, hspaced⟩ := Option.bind_eq_some_iff.1 hv
    obtain ⟨x, hsplit, hx⟩ := keyword?_eq_some_iff.1 hr
    have hword : IsWord x := isWord_of_spells (by decide) (by decide) hx
    obtain ⟨us, rfl, rfl⟩ :=
      hlexed.exists_word hword (head?_any_isWordChar_of_spaced? hspaced) hsplit
    obtain ⟨g', us, rfl, hg', rfl⟩ := hlexed.tail.exists_spaced hspaced
    obtain ⟨hgap', hlexed'⟩ := Lexed.of_append hlexed.tail
    obtain ⟨q, rfl, rfl⟩ := hname hlexed' hread
    have has : NoFrom [.word x] (g' ++ ([i.token] ++ q)) := by
      refine .of_token fun w hw hspells => ?_
      obtain rfl := Token.word.inj hw
      exact absurd (hspells.length_eq.symm.trans hx.length_eq) (by decide)
    refine ⟨g ++ ([.word x] ++ (g' ++ [i.token])), q, by simp, rfl, ?_⟩
    refine .append (.of_blank hgap hg) (.append ?_ (.append (.of_blank hgap' hg') (.of_name hi)))
    simpa using has

/-- What may stand between the place where a table is introduced and its name: nothing, or a
qualifier with a dot. -/
def IsQualifier (x : List Token) : Prop :=
  x = [] ∨ ∃ (i : Identifier) (s : List Token) (g g' : Text), x = i.token :: s ∧
    maskOf s = g ++ '.' :: g' ∧ allBlank g = true ∧ allBlank g' = true

/-- A reference stands among tokens, and where it is introduced the last character in front, blanks
aside, is one of some. -/
def Behind (P : Char → Prop) (r : TableRef) (ts : List Token) : Prop :=
  ∃ a x q, ts = a ++ (x ++ r.identifier.token :: q) ∧ IsQualifier x ∧
    (∃ c, (skipBlanks (maskOf a).reverse).head? = some c ∧ P c) ∧
    r.start = (maskOf (a ++ x)).length ∧
    r.stop = r.start + r.identifier.token.mask.length

/-- What holds of every reference of a query: it stands among the tokens, it is no bare keyword, and
its schema is a token as well. -/
structure RefIn (r : TableRef) (ts : List Token) : Prop where
  stands : StandsIn r.identifier r.start r.stop 0 ts
  noKeyword : r.quoted = false → isKeyword r.name = false
  schema : SchemaIn r ts
  starts : r.quoted = false → r.name.head?.any isFoldedNameStart = true

theorem Behind.stands {P : Char → Prop} {r : TableRef} (h : Behind P r ts) :
    StandsIn r.identifier r.start r.stop 0 ts := by
  obtain ⟨a, x, q, rfl, -, -, hstart, hstop⟩ := h
  exact ⟨a ++ x, q, by simp, by omega, hstop⟩

/-- A token that names something is seen: it has a character of a name. -/
theorem exists_isInName_of_mem (h : Lexed ts) (hi : i.token ∈ ts) :
    ∃ c ∈ maskOf ts, isInName c = true := by
  have hfit := h.fit i.token hi
  obtain ⟨c, hc, hin⟩ : ∃ c ∈ i.token.mask, isInName c = true := by
    obtain ⟨w, quoted⟩ := i
    cases quoted with
    | true => exact ⟨'"', List.mem_cons_self, by decide⟩
    | false =>
      obtain ⟨c, w, rfl⟩ := List.exists_cons_of_ne_nil hfit.1
      exact ⟨c, List.mem_cons_self, by simp [isInName, hfit.2 c List.mem_cons_self]⟩
  obtain ⟨p, q, rfl⟩ := List.append_of_mem hi
  exact ⟨c, by rw [maskOf_append, maskOf_cons]; simp [hc], hin⟩

/-- Around a dot there is no name as long as there are blanks. -/
theorem not_mem_of_separator {g g' : Text} (h : Lexed ts) (hmask : maskOf ts = g ++ '.' :: g')
    (hg : allBlank g = true) (hg' : allBlank g' = true) : i.token ∉ ts := by
  intro hi
  obtain ⟨c, hc, hin⟩ := exists_isInName_of_mem h hi
  have hblank (hb : isBlank c = true) : False := by
    rw [isInName, isWordChar_eq_false_of_isBlank hb, Bool.false_or, beq_iff_eq] at hin
    subst hin
    exact absurd hb (by decide)
  rw [hmask] at hc
  rcases List.mem_append.1 hc with hc | hc
  · exact hblank (List.all_eq_true.1 hg c hc)
  · rcases List.mem_cons.1 hc with rfl | hc
    · exact absurd hin (by decide)
    · exact hblank (List.all_eq_true.1 hg' c hc)

namespace IsQualifier

variable {a x b y : List Token}

/-- A qualifier ends with its dot. -/
theorem endsWithDot (h : IsQualifier x) (hne : x ≠ []) (a : List Token) :
    beginsWithDot (maskOf (a ++ x)).reverse = true := by
  obtain rfl | ⟨i, s, g, g', rfl, hs, -, hg'⟩ := h
  · exact absurd rfl hne
  rw [maskOf_append, maskOf_cons, hs, ← List.append_assoc]
  exact beginsWithDot_reverse_of_dot hg'

/-- A qualifier with a dot is a name and no other, so none is the end of a longer one. -/
theorem eq_nil_of_append (hts : Lexed (x ++ y)) (h : IsQualifier (x ++ y)) (hy : IsQualifier y)
    (hne : y ≠ []) : x = [] := by
  obtain rfl | ⟨j, s', k, k', rfl, -⟩ := hy
  · exact absurd rfl hne
  cases x with
  | nil => rfl
  | cons t x =>
    obtain h | ⟨i, s, g, g', hcons, hs, hg, hg'⟩ := h
    · cases h
    obtain ⟨-, rfl⟩ := List.cons.inj hcons
    exact absurd (by simp) (not_mem_of_separator (i := j) hts.tail hs hg hg')

/-- Tokens that say where a table is introduced do so in one way. -/
theorem unique (hts : Lexed (a ++ x)) (heq : a ++ x = b ++ y) (hx : IsQualifier x)
    (hy : IsQualifier y) (ha : beginsWithDot (maskOf a).reverse = false)
    (hb : beginsWithDot (maskOf b).reverse = false) : a = b := by
  by_cases hxnil : x = []
  · by_cases hynil : y = []
    · simpa [hxnil, hynil] using heq
    · rw [hxnil, List.append_nil] at heq
      rw [heq, hy.endsWithDot hynil b] at ha
      cases ha
  by_cases hynil : y = []
  · rw [hynil, List.append_nil] at heq
    rw [← heq, hx.endsWithDot hxnil a] at hb
    cases hb
  -- Both are a name and a dot, and one of them is the end of the other.
  obtain ⟨z, rfl, rfl⟩ | ⟨z, rfl, rfl⟩ := List.append_eq_append_iff.1 heq
  · obtain rfl := eq_nil_of_append (Lexed.of_append hts).2 hx hy hynil
    simp
  · rw [heq] at hts
    obtain rfl := eq_nil_of_append (Lexed.of_append hts).2 hy hx hxnil
    simp

/-- In a qualifier there is no `FROM`: a dot stands behind its name. -/
theorem noFrom (h : IsQualifier x) (hts : Lexed (x ++ us)) : NoFrom x us := by
  obtain rfl | ⟨i, s, g, g', rfl, hs, hg, hg'⟩ := h
  · exact .nil us
  have hsep := (@Lexed.of_append (i.token :: s) _ hts).1.tail
  refine @NoFrom.append [i.token] s _ (.of_token fun _ _ _ => ?_)
    (.of_separator hsep hs (by decide) hg hg')
  rw [maskOf_append, hs, List.append_assoc, List.cons_append]
  exact beginsWithDot_append hg

end IsQualifier

/-- The same token is not behind two different characters. -/
theorem Behind.disjoint {P Q : Char → Prop} {r s : TableRef} (h : Lexed ts) (hr : Behind P r ts)
    (hs : Behind Q s ts) (hP : ∀ c, P c → c ≠ '.' ∧ ¬ Q c) (hQ : ¬ Q '.') :
    r.start ≠ s.start := by
  intro heq
  obtain ⟨a, x, q, rfl, hx, ⟨c, hc, hPc⟩, hstart, -⟩ := hr
  obtain ⟨b, y, q', hts, hy, ⟨d, hd, hQd⟩, hstart', -⟩ := hs
  have hsplit : a ++ x = b ++ y :=
    (h.split_unique (List.append_assoc ..).symm (hts.trans (List.append_assoc ..).symm)
      (by omega)).1
  have hlexed : Lexed (a ++ x) := by
    rw [← List.append_assoc] at h
    exact (Lexed.of_append h).1
  have ha : beginsWithDot (maskOf a).reverse = false := by
    rw [beginsWithDot, hc]
    simpa using (hP c hPc).1
  have hb : beginsWithDot (maskOf b).reverse = false := by
    rw [beginsWithDot, hd, beq_eq_false_iff_ne]
    intro h
    obtain rfl := Option.some.inj h
    exact hQ hQd
  obtain rfl := IsQualifier.unique hlexed hsplit hx hy ha hb
  obtain rfl := Option.some.inj (hc.symm.trans hd)
  exact (hP c hPc).2 hQd

/-- The name of a reference is a token, with its qualifier in front of it. -/
theorem exists_name_of_tableRef? {isStart : Char → Bool}
    (hstart : ∀ c, isStart c = true → isWordChar c = true) {a : List Token} {keyword rest : Text}
    {m : QualifiedName} {r : TableRef} (h : Lexed us)
    (hread : QualifiedName.read? isStart (maskOf us) = some m)
    (href : tableRef? (maskOf (a ++ us)).length keyword m = some (r, rest)) :
    ∃ x z, us = x ++ r.identifier.token :: z ∧ m.rest = maskOf z ∧ IsQualifier x ∧
      SchemaIn r x ∧ r.start = (maskOf (a ++ x)).length ∧
      r.stop = r.start + r.identifier.token.mask.length := by
  obtain ⟨hname, hrstart, hrstop, -⟩ := tableRef?_identifier href
  obtain ⟨x, z, rfl, honward, hmrest, hqual⟩ := h.exists_qualifiedName hstart hread
  rw [← hname] at honward hrstart hrstop ⊢
  have hplace : r.start = (maskOf (a ++ x)).length := by
    rw [hrstart, honward]
    simp only [maskOf_append, List.length_append]
    omega
  have hend : r.stop = r.start + r.identifier.token.mask.length := by
    rw [hrstop, hrstart, honward, hmrest]
    simp only [maskOf_append, maskOf_cons, List.length_append]
    omega
  refine ⟨x, z, rfl, hmrest, ?_, fun s hs => ?_, hplace, hend⟩
  · rcases hqual with ⟨rfl, -⟩ | ⟨i, s, g, g', -, rfl, hs⟩
    · exact .inl rfl
    · exact .inr ⟨i, s, g, g', rfl, hs⟩
  · rw [tableRef?_schema href] at hs
    rcases hqual with ⟨-, hnone⟩ | ⟨i, y, g, g', hi, rfl, -⟩
    · rw [hnone] at hs
      cases hs
    · rw [hi] at hs
      obtain rfl := Option.some.inj hs
      exact ⟨i.token, List.mem_cons_self, Identifier.name?_token i⟩

/-- A bare reference begins as its name is read to begin. -/
theorem tableRef?_starts {isStart : Char → Bool}
    (hfolded : ∀ c, isStart c = true → isFoldedNameStart c = true) {size : Nat}
    {keyword t rest : Text} {m : QualifiedName} {r : TableRef}
    (hread : QualifiedName.read? isStart t = some m)
    (href : tableRef? size keyword m = some (r, rest)) (hbare : r.quoted = false) :
    r.name.head?.any isFoldedNameStart = true := by
  have hi := QualifiedName.head?_any_of_read? hread
  rw [← (tableRef?_identifier href).1] at hi
  have hany := hi hbare
  rw [TableRef.identifier] at hany
  cases hc : r.name.head? with
  | none => rw [hc] at hany; cases hany
  | some c =>
    rw [hc] at hany
    exact hfolded c hany

/-- A reference stands where its name is read; there is no `FROM` in the name, or in the alias
behind it. -/
theorem reference_tokens {isStart : Char → Bool}
    (hfolded : ∀ c, isStart c = true → isFoldedNameStart c = true) {P : Char → Prop}
    {a : List Token} {keyword rest : Text} {m : QualifiedName} {r : TableRef}
    (h : Lexed (a ++ us))
    (ha : ∃ c, (skipBlanks (maskOf a).reverse).head? = some c ∧ P c)
    (hread : QualifiedName.read? isStart (maskOf us) = some m)
    (href : tableRef? (maskOf (a ++ us)).length keyword m = some (r, rest)) :
    ∃ y q s, us = y ++ (q ++ s) ∧ m.rest = maskOf (q ++ s) ∧ rest = maskOf s ∧
      NoFrom y (q ++ s) ∧ NoFrom q s ∧ RefIn r (a ++ us) ∧ Behind P r (a ++ us) ∧
      (maskOf a).length ≤ r.start ∧ r.start < (maskOf (a ++ y)).length := by
  have hus := (Lexed.of_append h).2
  have hhead := tableRef?_starts hfolded hread href
  obtain ⟨-, -, -, hkeyword, hrest⟩ := tableRef?_identifier href
  obtain ⟨x, z, rfl, hmrest, hx, hschema, hplace, hend⟩ :=
    exists_name_of_tableRef? (fun c hc => isWordChar_of_isFoldedNameStart (hfolded c hc)) hus hread
      href
  have hpos := List.length_pos_iff.2 (Token.mask_ne_nil (hus.fit r.identifier.token (by simp)))
  have hbehind : Behind P r (a ++ (x ++ r.identifier.token :: z)) :=
    ⟨a, x, z, rfl, hx, ha, hplace, hend⟩
  have hin : RefIn r (a ++ (x ++ r.identifier.token :: z)) := by
    refine ⟨hbehind.stands, hkeyword, fun s hs => ?_, hhead⟩
    obtain ⟨t, ht, hname⟩ := hschema s hs
    exact ⟨t, by simp [ht], hname⟩
  have hfront := hx.noFrom hus
  obtain ⟨q, s, rfl, rfl, hquiet⟩ : ∃ q s, z = q ++ s ∧ rest = maskOf s ∧ NoFrom q s := by
    rcases hrest with rfl | ⟨i, hi, hik⟩
    · exact ⟨[], z, rfl, hmrest, .nil z⟩
    · rw [hmrest] at hi
      exact alias_tokens (Lexed.of_append hus).2.tail hi hik
  refine ⟨x ++ [r.identifier.token], q, s, by simp, hmrest, rfl,
    .append (by simpa using hfront) (.of_name hkeyword), hquiet, hin, hbehind, ?_, ?_⟩
  · rw [hplace, maskOf_append, List.length_append]
    omega
  · rw [hplace]
    simp only [maskOf_append, maskOf_cons, List.length_append]
    omega

/-- References that are behind a comma each, one behind the other between two offsets. -/
structure Listed (refs : List TableRef) (ts : List Token) (start stop : Nat) : Prop where
  refIn : ∀ r ∈ refs, RefIn r ts
  comma : ∀ r ∈ refs, Behind (· = ',') r ts
  le_start : ∀ r ∈ refs, start ≤ r.start
  lt_stop : ∀ r ∈ refs, r.start < stop
  sorted : refs.Pairwise fun r s => r.start < s.start

theorem Listed.nil (ts : List Token) (start stop : Nat) : Listed [] ts start stop :=
  ⟨nofun, nofun, nofun, nofun, .nil⟩

theorem Listed.of_le {refs : List TableRef} {start start' stop : Nat}
    (h : Listed refs ts start stop) (hle : start' ≤ start) : Listed refs ts start' stop :=
  ⟨h.refIn, h.comma, fun r hr => Nat.le_trans hle (h.le_start r hr), h.lt_stop, h.sorted⟩

theorem Listed.cons {r : TableRef} {refs : List TableRef} {start middle stop : Nat}
    (hr : RefIn r ts) (hcomma : Behind (· = ',') r ts) (hstart : start ≤ r.start)
    (hmiddle : r.start < middle) (hle : middle ≤ stop) (h : Listed refs ts middle stop) :
    Listed (r :: refs) ts start stop := by
  refine ⟨List.forall_mem_cons.2 ⟨hr, h.refIn⟩, List.forall_mem_cons.2 ⟨hcomma, h.comma⟩,
    List.forall_mem_cons.2 ⟨hstart, fun s hs => ?_⟩,
    List.forall_mem_cons.2 ⟨by omega, h.lt_stop⟩, List.pairwise_cons.2 ⟨fun s hs => ?_, h.sorted⟩⟩
  · have := h.le_start s hs
    omega
  · have := h.le_start s hs
    omega

/-- The tables behind commas, in a part of the query without a `FROM`. -/
theorem listedRefs_tokens {steps : Nat} {keyword : Text} {a : List Token} (h : Lexed (a ++ us)) :
    ∃ p q, us = p ++ q ∧ NoFrom p q ∧
      Listed (listedRefs (maskOf (a ++ us)).length keyword steps (maskOf us)) (a ++ us)
        (maskOf a).length (maskOf (a ++ p)).length := by
  induction steps generalizing a us with
  | zero => exact ⟨[], us, rfl, .nil us, .nil _ _ _⟩
  | succ steps ih =>
    have hus := (Lexed.of_append h).2
    rw [listedRefs]
    split
    · exact ⟨[], us, rfl, .nil us, .nil _ _ _⟩
    rename_i r rest hread
    obtain ⟨m, hname, href⟩ := Option.bind_eq_some_iff.1 hread
    obtain ⟨u, hu, hm⟩ := Option.bind_eq_some_iff.1 hname
    obtain ⟨y, hy, rfl⟩ := comma?_eq_some hu
    obtain ⟨p, q, g, g', rfl, hp, hg, hg', hrest⟩ := hus.exists_separator (by decide) hy
    rw [hrest] at hm
    have hcomma : ∃ c, (skipBlanks (maskOf (a ++ p)).reverse).head? = some c ∧ c = ',' := by
      refine ⟨',', ?_, rfl⟩
      rw [maskOf_append, hp]
      simp only [List.reverse_append, List.reverse_cons, List.append_assoc, List.singleton_append]
      rw [skipBlanks_append (by simpa [allBlank] using hg') (by rfl)]
      rfl
    rw [← List.append_assoc] at h href ⊢
    obtain ⟨x, e, s, rfl, -, rfl, hx, he, hin, hbehind, hle, hlt⟩ := reference_tokens
      (fun _ hc => isFoldedNameStart_of_isNameStart hc) h hcomma hm href
    have hsplit : a ++ p ++ (x ++ (e ++ s)) = a ++ (p ++ (x ++ e)) ++ s := by simp
    have hlexed : Lexed (a ++ (p ++ (x ++ e)) ++ s) := hsplit ▸ h
    obtain ⟨v, w, rfl, hv, hlisted⟩ := ih hlexed
    rw [← hsplit] at hlisted
    refine ⟨p ++ (x ++ (e ++ v)), w, by simp, ?_,
      .cons hin hbehind ?_ ?_ ?_ (by simpa using hlisted)⟩
    · have hsep : NoFrom p (x ++ (e ++ v) ++ w) :=
        .of_separator (Lexed.of_append hus).1 hp (by decide) hg hg'
      refine .append hsep (.append ?_ (.append he hv))
      simpa using hx
    · rw [maskOf_append, List.length_append] at hle
      omega
    · simp only [maskOf_append, List.length_append] at hlt ⊢
      omega
    · simp only [maskOf_append, List.length_append]
      omega

/-! ## Sources of tables -/

/-- No name in quotes holds a `FROM` or `JOIN` with a blank behind it. -/
def QuotesLackSources (ts : List Token) : Prop :=
  ∀ w, Token.quoted w ∈ ts → occurs spacedSource w = false

/-- A blank is no part of a word. -/
theorem IsWord.spacedWord_eq_none {a b : Text} (h : IsWord (a ++ b)) (word : Text) :
    (keyword? word b).bind spaced? = none := by
  cases hread : (keyword? word b).bind spaced? with
  | none => rfl
  | some t =>
    obtain ⟨r, hr, hspaced⟩ := Option.bind_eq_some_iff.1 hread
    obtain ⟨x, rfl, -⟩ := keyword?_eq_some_iff.1 hr
    obtain ⟨g, hne, hg, -, rfl⟩ := spaced?_eq_some_iff.1 hspaced
    obtain ⟨c, g, rfl⟩ := List.exists_cons_of_ne_nil hne
    have hc := h.2 c (by simp)
    rw [isWordChar_eq_false_of_isBlank (List.all_eq_true.1 hg c List.mem_cons_self)] at hc
    cases hc

theorem QuotesHoldWords.lackSources (h : QuotesHoldWords ts) : QuotesLackSources ts := by
  intro w hw
  rw [occurs_eq_false_iff]
  rintro a b rfl -
  unfold spacedSource
  split
  · refine List.findSome?_eq_none_iff.2 fun word _ => ?_
    rw [(h _ hw).spacedWord_eq_none word]
    rfl
  · rfl

/-- Where `FROM` or `JOIN` is read no token is cut. -/
theorem exists_cut_of_source {a b rest : Text} {v : TableSource} (h : Lexed ts)
    (hq : QuotesLackSources ts) (hab : maskOf ts = a ++ b)
    (hread : tableSource a.reverse b = some (v, rest)) :
    ∃ p q, ts = p ++ q ∧ a = maskOf p ∧ b = maskOf q := by
  refine h.exists_cut_of_atWordStart hab (tableSource_eq_some hread).1 (fun hquote => ?_)
    fun u x y r hmem hy ha hb => ?_
  · obtain ⟨t, rfl⟩ := List.head?_eq_some_iff.1 hquote
    rw [tableSource_cons_eq_none (by decide) (by decide)] at hread
    cases hread
  · rw [ha, hb, List.reverse_append, List.append_cons] at hread
    exact not_read_in_quotes (hq _ hmem) hy hread

/-- A `FROM` or `JOIN` that is read is a word of the query, with blanks and a name behind it. -/
structure SourceAt (k : Hit TableSource) (ts p : List Token) (w : Text) (g us : List Token) :
    Prop where
  split : ts = p ++ .word w :: (g ++ us)
  start : k.start = (maskOf p).length
  blank : allBlank (maskOf g) = true
  name : QualifiedName.read? isFoldedNameStart (maskOf us) = some k.value.name
  stop : k.stop = (maskOf ts).length - k.value.name.rest.length
  lt : k.start < k.stop
  keyword : k.value.keyword = "FROM" → Spells "FROM" w
  gap : g ≠ []
  spells : ∃ word ∈ sourceWords, Spells word w

theorem hit_tableSource (h : Lexed ts) (hq : QuotesLackSources ts) {k : Hit TableSource}
    (hk : k ∈ hits tableSource (maskOf ts)) : ∃ p w g us, SourceAt k ts p w g us := by
  obtain ⟨a, b, rest, hab, hread, hstart, hstop, -⟩ := span_of_mem_hitsFrom hk
  rw [List.append_nil] at hread
  obtain ⟨p, q, rfl, rfl, rfl⟩ := exists_cut_of_source h hq hab hread
  obtain ⟨-, word, hword, x, r, hsplit, hx, ⟨t, ht, hn⟩, rfl, hkeyword, -⟩ :=
    tableSource_eq_some hread
  have hne : ∀ word ∈ sourceWords, word ≠ [] := by decide
  have hletters : ∀ word ∈ sourceWords, ∀ c ∈ word.map foldLetter, c.isLower = true := by decide
  have hx' : IsWord x := isWord_of_spells (hne word hword) (hletters word hword) hx
  have hpos := List.length_pos_iff.2 hx'.1
  have hlexed := (Lexed.of_append h).2
  obtain ⟨us, rfl, rfl⟩ := hlexed.exists_word hx' (head?_any_isWordChar_of_spaced? ht) hsplit
  obtain ⟨g, us, rfl, hg, rfl⟩ := hlexed.tail.exists_spaced ht
  obtain ⟨y, us', rfl, -, hrest, -⟩ := (Lexed.of_append hlexed.tail).2.exists_qualifiedName
    (fun _ => isWordChar_of_isFoldedNameStart) hn
  refine ⟨p, x, g, _, rfl, by simpa using hstart, hg, hn, ?_, ?_, fun hfrom => ?_, ?_, word, hword,
    hx⟩
  · rw [hstop, hstart, hrest]
    simp only [maskOf_append, maskOf_cons, List.length_append, List.length_nil]
    omega
  · rw [hstop, hstart, hrest]
    simp only [maskOf_append, maskOf_cons, Token.mask, List.length_append, List.length_nil]
    omega
  · exact spells_from_of_capitals hword hx (hkeyword.symm.trans hfrom)
  · rintro rfl
    obtain ⟨g, hne, -, -, hsplit⟩ := spaced?_eq_some_iff.1 ht
    exact hne (List.self_eq_append_left.1 hsplit)

/-- Behind the word of a source stands a name, and no dot. -/
theorem SourceAt.beginsWithDot_eq_false {k : Hit TableSource} {p g : List Token} {w : Text}
    (h : SourceAt k ts p w g us) (hts : Lexed ts) : beginsWithDot (maskOf (g ++ us)) = false := by
  obtain ⟨rfl, -, hblank, hname, -⟩ := h
  have hus : Lexed us := (Lexed.of_append (Lexed.of_append hts).2.tail).2
  have htoken {i : Identifier} {z : List Token} (hz : Lexed (i.token :: z)) :
      beginsWithDot (maskOf (i.token :: z)) = false := by
    rw [maskOf_cons]
    refine (Token.beginsWithDot_append (hz.fit _ List.mem_cons_self) (fun c m => ?_) _).1
    unfold Identifier.token
    split <;> exact nofun
  have hskip : beginsWithDot (maskOf g ++ maskOf us) = beginsWithDot (maskOf us) := by
    rw [beginsWithDot, skipBlanks, List.dropWhile_append_of_pos (List.all_eq_true.1 hblank)]
    rfl
  rw [maskOf_append, hskip]
  obtain ⟨x, z, rfl, -, -, ⟨rfl, -⟩ | ⟨i, s, g', g'', -, rfl, -⟩⟩ := hus.exists_qualifiedName
    (fun _ => isWordChar_of_isFoldedNameStart) hname
  · exact htoken hus
  · exact htoken hus

/-- In front of the name that a source reads stands its word. -/
theorem exists_last_of_word {p g : List Token} {w : Text} (hw : IsWord w)
    (hg : allBlank (maskOf g) = true) :
    ∃ c, (skipBlanks (maskOf (p ++ .word w :: g)).reverse).head? = some c ∧
      isWordChar c = true := by
  have hne : w.reverse ≠ [] := by simpa using hw.1
  have hlast := hw.2 _ (List.mem_reverse.1 (List.head_mem hne))
  have hhead (r : Text) : (w.reverse ++ r).head? = some (w.reverse.head hne) := by
    rw [List.head?_append_of_ne_nil _ hne, List.head?_eq_some_head hne]
  refine ⟨w.reverse.head hne, ?_, hlast⟩
  rw [maskOf_append, maskOf_cons, Token.mask, List.reverse_append, List.reverse_append,
    List.append_assoc, skipBlanks_append (by simpa [allBlank] using hg), hhead]
  rw [hhead]
  exact isBlank_eq_false_of_isWordChar hlast

/-- The references of one source: the first behind a word, the others behind commas in a part of
the query without another `FROM`. -/
structure SourceRefs (k : Hit TableSource) (ts : List Token) (first : Option TableRef)
    (more : List TableRef) (l q s : List Token) : Prop where
  split : ts = l ++ (q ++ s)
  stop : k.stop = (maskOf l).length
  noFrom : NoFrom q s
  refIn : ∀ r ∈ first, RefIn r ts
  word : ∀ r ∈ first, Behind (isWordChar · = true) r ts
  place : ∀ r ∈ first, k.start < r.start ∧ r.start < k.stop
  listed : Listed more ts k.stop (maskOf (l ++ q)).length
  keyword : more ≠ [] → k.value.keyword = "FROM"

/-- A source may introduce no table. -/
theorem SourceAt.exists_sourceRefs_nil {k : Hit TableSource} {p g : List Token} {w : Text}
    (h : SourceAt k ts p w g us) (hts : Lexed ts) : ∃ l q s, SourceRefs k ts none [] l q s := by
  obtain ⟨rfl, -, -, hname, hstop, -⟩ := h
  have hus : Lexed us := (Lexed.of_append (Lexed.of_append hts).2.tail).2
  obtain ⟨y, z, rfl, -, hrest, -⟩ := hus.exists_qualifiedName
    (fun _ => isWordChar_of_isFoldedNameStart) hname
  refine ⟨p ++ .word w :: (g ++ (y ++ [k.value.name.name.token])), [], z, by simp, ?_, .nil z,
    nofun, nofun, nofun, .nil _ _ _, fun h => absurd rfl h⟩
  rw [hstop, hrest]
  simp only [maskOf_append, maskOf_cons, maskOf_nil, List.length_append, List.length_nil]
  omega

/-- The tables of a source: the one behind its keyword, and behind `FROM` those of the list. -/
theorem SourceAt.exists_refs {k : Hit TableSource} {p g : List Token} {w : Text}
    (h : SourceAt k ts p w g us) (hts : Lexed ts) :
    ∃ first more l q s, k.value.refs (maskOf ts).length = first.toList ++ more ∧
      SourceRefs k ts first more l q s := by
  have hnone : ∃ first more l q s, ([] : List TableRef) = first.toList ++ more ∧
      SourceRefs k ts first more l q s := by
    obtain ⟨l, q, s, hrefs⟩ := h.exists_sourceRefs_nil hts
    exact ⟨none, [], l, q, s, rfl, hrefs⟩
  obtain ⟨rfl, hstart, hblank, hname, hstop, -, -⟩ := h
  have hsplit : p ++ .word w :: (g ++ us) = (p ++ .word w :: g) ++ us := by simp
  have hw : IsWord w := hts.fit (.word w) (by simp)
  unfold TableSource.refs
  split
  · exact hnone
  split
  · exact hnone
  rename_i r rest href
  rw [hsplit] at href hts ⊢
  obtain ⟨y, e, s, rfl, hrest, rfl, -, he, hin, hbehind, hle, hlt⟩ := reference_tokens
    (fun _ => id) hts (exists_last_of_word hw hblank) hname href
  have hstop' : k.stop = (maskOf (p ++ .word w :: g ++ y)).length := by
    rw [hstop, hrest]
    simp only [maskOf_append, maskOf_cons, List.length_append]
    omega
  have hplace : k.start < r.start ∧ r.start < k.stop := by
    have hpos := List.length_pos_iff.2 hw.1
    rw [hstop', hstart]
    refine ⟨?_, hlt⟩
    simp only [maskOf_append, maskOf_cons, Token.mask, List.length_append] at hle
    omega
  have hfirst {P : TableRef → Prop} (hr : P r) : ∀ r' ∈ some r, P r' := by
    rintro r' h
    rwa [← Option.some.inj h]
  by_cases hfrom : k.value.keyword = "FROM"
  · have hsplit' : p ++ .word w :: g ++ (y ++ (e ++ s)) = (p ++ .word w :: g ++ (y ++ e)) ++ s := by
      simp
    obtain ⟨v, z, rfl, hv, hlisted⟩ := @listedRefs_tokens s (maskOf s).length k.value.keyword
      (p ++ .word w :: g ++ (y ++ e)) (hsplit' ▸ hts)
    rw [← hsplit'] at hlisted
    rw [if_pos hfrom]
    refine ⟨some r, _, p ++ .word w :: g ++ y, e ++ v, z, rfl, by simp, hstop', .append he hv,
      hfirst hin, hfirst hbehind, hfirst hplace, ?_, fun _ => hfrom⟩
    have hall : p ++ .word w :: g ++ y ++ (e ++ v) = p ++ .word w :: g ++ (y ++ e) ++ v := by simp
    rw [hall]
    refine hlisted.of_le ?_
    rw [hstop']
    simp only [maskOf_append, List.length_append]
    omega
  · rw [if_neg hfrom]
    exact ⟨some r, [], p ++ .word w :: g ++ y, [], e ++ s, rfl, by simp, hstop', .nil _,
      hfirst hin, hfirst hbehind, hfirst hplace, .nil _ _ _, fun h => absurd rfl h⟩

/-- A token that begins in a part of some tokens is part of it. -/
theorem exists_split_of_lt {l q s p r : List Token} {t : Token} (h : l ++ (q ++ s) = p ++ t :: r)
    (hle : (maskOf l).length ≤ (maskOf p).length)
    (hlt : (maskOf p).length < (maskOf (l ++ q)).length) (ht : t.mask ≠ []) :
    ∃ z x, q = z ++ t :: x ∧ x ++ s = r := by
  have hpos := List.length_pos_iff.2 ht
  rw [← List.append_assoc] at h
  obtain ⟨x, hx, rfl⟩ := exists_append_of_lt h.symm hlt
  by_cases hpre : l <+: p
  · obtain ⟨z, rfl⟩ := hpre
    exact ⟨z, x, by simpa using hx, rfl⟩
  · obtain ⟨a, rfl, -⟩ := exists_append_of_not_prefix hx.symm hpre
    simp only [maskOf_append, maskOf_cons, List.length_append] at hle
    omega

/-- What a source names is named by no source in front of it. -/
theorem SourceRefs.disjoint {k k' : Hit TableSource} {first first' : Option TableRef}
    {more more' : List TableRef} {l q s l' q' s' : List Token} (hts : Lexed ts)
    (h : SourceRefs k ts first more l q s) (h' : SourceRefs k' ts first' more' l' q' s')
    {p g us : List Token} {w : Text} (hat : SourceAt k' ts p w g us) (hle : k.stop ≤ k'.start) :
    ∀ r ∈ first.toList ++ more, ∀ r' ∈ first'.toList ++ more', r.start ≠ r'.start := by
  have hbehind : ∀ r' ∈ first'.toList ++ more', k'.start < r'.start := by
    intro r' hr'
    rcases List.mem_append.1 hr' with hr' | hr'
    · exact (h'.place r' (Option.mem_toList.1 hr')).1
    · exact Nat.lt_of_lt_of_le hat.lt (h'.listed.le_start r' hr')
  intro r hr r' hr'
  rcases List.mem_append.1 hr with hr | hr
  · have := (h.place r (Option.mem_toList.1 hr)).2
    have := hbehind r' hr'
    omega
  rcases List.mem_append.1 hr' with hr' | hr'
  · refine (h.listed.comma r hr).disjoint hts (h'.word r' (Option.mem_toList.1 hr')) ?_ (by decide)
    rintro c rfl
    exact ⟨by decide, by decide⟩
  · -- The other source is a `FROM`, so it is none of the list in front.
    have hfrom := hat.keyword (h'.keyword (List.ne_nil_of_mem hr'))
    have hbeyond : (maskOf (l ++ q)).length ≤ k'.start := by
      by_contra hlt
      rw [hat.start] at hlt hle
      rw [h.stop] at hle
      obtain ⟨z, x, rfl, hz⟩ := exists_split_of_lt (h.split.symm.trans hat.split) hle
        (Nat.lt_of_not_le hlt) (Token.mask_ne_nil (hts.fit _ (by rw [hat.split]; simp)))
      have hdot := h.noFrom z w x rfl hfrom
      rw [hz, hat.beginsWithDot_eq_false hts] at hdot
      cases hdot
    have := h.listed.lt_stop r hr
    have := hbehind r' (List.mem_append_right _ hr')
    omega

end Region

/-- The references of a query stand in it, each at another token. -/
structure RefsIn (refs : List TableRef) (ts : List Token) : Prop where
  refIn : ∀ r ∈ refs, RefIn r ts
  nodup : (refs.map (·.start)).Nodup

theorem RefsIn.tail {r : TableRef} {refs : List TableRef} {ts : List Token}
    (h : RefsIn (r :: refs) ts) : RefsIn refs ts :=
  ⟨fun s hs => h.refIn s (List.mem_cons_of_mem r hs), (List.nodup_cons.1 h.nodup).2⟩

theorem LexedAs.tableRefs {sql : Text} {ts : List Token} (h : LexedAs sql ts)
    (hq : QuotesLackSources ts) : RefsIn (tableRefs sql) ts := by
  rw [QueryGate.tableRefs, tableRefsIn, ← h.mask]
  have hrefs : ∀ k ∈ hits tableSource (maskOf ts), ∃ first more l q s,
      k.value.refs (maskOf ts).length = first.toList ++ more ∧
        SourceRefs k ts first more l q s := by
    intro k hk
    obtain ⟨p, w, g, us, hat⟩ := hit_tableSource h.lexed hq hk
    exact hat.exists_refs h.lexed
  constructor
  · intro r hr
    obtain ⟨k, hk, hr⟩ := List.mem_flatMap.1 hr
    obtain ⟨first, more, l, q, s, heq, hsource⟩ := hrefs k hk
    rw [heq] at hr
    rcases List.mem_append.1 hr with hr | hr
    · exact hsource.refIn r (Option.mem_toList.1 hr)
    · exact hsource.listed.refIn r hr
  · refine List.pairwise_map.2 (List.pairwise_flatMap.2 ⟨fun k hk => ?_, ?_⟩)
    · obtain ⟨first, more, l, q, s, heq, hsource⟩ := hrefs k hk
      rw [heq]
      refine List.pairwise_append.2 ⟨?_, hsource.listed.sorted.imp Nat.ne_of_lt, ?_⟩
      · cases first <;> simp
      · intro r hr r' hr'
        have := (hsource.place r (Option.mem_toList.1 hr)).2
        have := hsource.listed.le_start r' hr'
        omega
    · refine pairwise_hitsFrom.imp_of_mem fun {k k'} hk hk' hkk' => ?_
      obtain ⟨first, more, l, q, s, heq, hsource⟩ := hrefs k hk
      obtain ⟨first', more', l', q', s', heq', hsource'⟩ := hrefs k' hk'
      obtain ⟨p, w, g, us, hat⟩ := hit_tableSource h.lexed hq hk'
      rw [heq, heq']
      exact hsource.disjoint h.lexed hsource' hat hkk'.2

theorem tableRefs_tokens {sql : Text} {ts : List Token} (h : TokensOf sql ts) :
    RefsIn (tableRefs sql) ts := h.lexedAs.tableRefs h.words.lackSources

end QueryGate
