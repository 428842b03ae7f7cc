import QueryGate.Proofs.Sql.GroupedQuery

/-!
# Items of a grouped query

An item is passed over as a part of its clause if its names in quotes are
(`SelectItem.passTokens`, `GroupItem.passTokens`). It is read back as it was written: a column with
its alias (`SelectItem.groupedColumn?`), and a group by its name or its position
(`GroupItem.foldlM_add`).
-/

namespace QueryGate

/-! ## Names of items -/

namespace FreeName

/-- Neither a clause that ends before `words` nor an item of it ends in the name. -/
def Stays (words : List Text) (depth : Nat) (n : FreeName) : Prop :=
  n.identifier.quoted = true → passOver words true depth n.identifier.name = some depth

/-- Nothing is read inside the quotes of the name. -/
def Lacks {α : Type} (read : Reading α) (n : FreeName) : Prop :=
  n.identifier.quoted = true → occurs read n.identifier.name = false

instance (words : List Text) (depth : Nat) : DecidablePred (Stays words depth) := fun n =>
  inferInstanceAs (Decidable (n.identifier.quoted = true → _))

instance {α : Type} (read : Reading α) : DecidablePred (Lacks read) := fun n =>
  inferInstanceAs (Decidable (n.identifier.quoted = true → _))

theorem identifier_of_token {n : FreeName} {w : Text} (h : n.token = .quoted w) :
    n.identifier = ⟨w, true⟩ :=
  @Identifier.token_injective n.identifier ⟨w, true⟩ h

end FreeName

def ColumnName.names (c : ColumnName) : List FreeName :=
  (c.qualifier?.map (·.1)).toList ++ [c.name]

def Expression.names : Expression → List FreeName
  | column c => c.names
  | call a => a.argument.item.names

def SelectItem.names (i : SelectItem) : List FreeName :=
  i.expression.names ++ (i.alias?.map (·.name)).toList

def GroupItem.names : GroupItem → List FreeName
  | column c => c.names
  | position .. => []

theorem ColumnName.mem_tokens {c : ColumnName} {t : Token} (ht : t ∈ c.tokens) :
    (∃ n ∈ c.names, t = n.token) ∨ ∃ d, t = .other d d ∧ (isBlank d = true ∨ d = '.') := by
  rw [tokens] at ht
  rw [names]
  cases hq : c.qualifier? with
  | none =>
    rw [hq] at ht
    exact .inl ⟨c.name, by simp, List.mem_singleton.1 ht⟩
  | some q =>
    obtain ⟨q, before, after⟩ := q
    rw [hq] at ht
    simp only [List.mem_cons, List.mem_append, List.not_mem_nil, or_false] at ht
    rcases ht with rfl | ht | rfl | ht | rfl
    · exact .inl ⟨q, by simp, rfl⟩
    · obtain ⟨d, hd, rfl⟩ := mem_blankTokens ht
      exact .inr ⟨d, rfl, .inl hd⟩
    · exact .inr ⟨'.', rfl, .inr rfl⟩
    · obtain ⟨d, hd, rfl⟩ := mem_blankTokens ht
      exact .inr ⟨d, rfl, .inl hd⟩
    · exact .inl ⟨c.name, by simp, rfl⟩

theorem FreeName.token_ne_other (n : FreeName) (d m : Char) : n.token ≠ .other d m := by
  rcases n.bare_or_quoted with ⟨htoken, -⟩ | ⟨htoken, -⟩ <;> rw [htoken] <;> exact nofun

/-- The marks in the name of a column are blanks and the dot. -/
theorem ColumnName.isBlank_or_dot {c : ColumnName} {d m : Char} (h : .other d m ∈ c.tokens) :
    isBlank m = true ∨ m = '.' := by
  obtain ⟨n, -, hn⟩ | ⟨e, he, hm⟩ := mem_tokens h
  · exact absurd hn.symm (n.token_ne_other d m)
  · obtain ⟨-, rfl⟩ := Token.other.inj he
    exact hm

theorem AsAlias.mem_tokens {a : AsAlias} {t : Token} (ht : t ∈ a.tokens) :
    t = .word a.word.text ∨ t = a.name.token ∨ ∃ d, t = .other d d ∧ isBlank d = true := by
  simp only [tokens, List.mem_append, List.mem_cons, List.not_mem_nil, or_false] at ht
  rcases ht with ht | rfl | ht | rfl
  · obtain ⟨d, hd, rfl⟩ := mem_blankTokens ht
    exact .inr (.inr ⟨d, rfl, hd⟩)
  · exact .inl rfl
  · obtain ⟨d, hd, rfl⟩ := mem_blankTokens ht
    exact .inr (.inr ⟨d, rfl, hd⟩)
  · exact .inr (.inl rfl)

theorem AsAlias.isBlank_of_mem {a : AsAlias} {d m : Char} (h : .other d m ∈ a.tokens) :
    isBlank m = true := by
  rcases mem_tokens h with h | h | ⟨e, he, hm⟩
  · cases h
  · exact absurd h.symm (a.name.token_ne_other d m)
  · obtain ⟨-, rfl⟩ := Token.other.inj he
    exact hm

theorem Padded.mem_tokens {α : Type} {write : α → List Token} {p : Padded α} {t : Token}
    (ht : t ∈ p.tokens write) : t ∈ write p.item ∨ ∃ d, t = .other d d ∧ isBlank d = true := by
  simp only [tokens, List.mem_append] at ht
  rcases ht with ht | ht | ht
  · obtain ⟨d, hd, rfl⟩ := mem_blankTokens ht
    exact .inr ⟨d, rfl, hd⟩
  · exact .inl ht
  · obtain ⟨d, hd, rfl⟩ := mem_blankTokens ht
    exact .inr ⟨d, rfl, hd⟩

/-- What stands in quotes in an item is a name of it. -/
theorem SelectItem.mem_names {i : SelectItem} {w : Text} (hw : .quoted w ∈ i.tokens) :
    ∃ n ∈ i.names, n.identifier = ⟨w, true⟩ := by
  have hcolumn {c : ColumnName} (hw : .quoted w ∈ c.tokens) :
      ∃ n ∈ c.names, n.identifier = ⟨w, true⟩ := by
    obtain ⟨n, hn, hnw⟩ | ⟨d, hd, -⟩ := ColumnName.mem_tokens hw
    · exact ⟨n, hn, FreeName.identifier_of_token hnw.symm⟩
    · cases hd
  rcases List.mem_append.1 hw with hw | hw
  · have hexpression : ∃ n ∈ i.expression.names, n.identifier = ⟨w, true⟩ := by
      cases he : i.expression with
      | column c =>
        rw [he] at hw
        exact hcolumn hw
      | call a =>
        rw [he] at hw
        simp only [Expression.tokens, AggregateCall.tokens, List.mem_cons, List.mem_append,
          List.not_mem_nil, or_false, reduceCtorEq, false_or] at hw
        rcases hw with hw | hw
        · obtain ⟨d, -, hd⟩ := mem_blankTokens hw
          cases hd
        · exact hcolumn ((Padded.mem_tokens hw).resolve_right nofun)
    obtain ⟨n, hn, hnw⟩ := hexpression
    exact ⟨n, List.mem_append_left _ hn, hnw⟩
  · cases ha : i.alias? with
    | none =>
      rw [ha] at hw
      cases hw
    | some a =>
      rw [ha] at hw
      rcases AsAlias.mem_tokens hw with h | h | ⟨d, h, -⟩
      · cases h
      · exact ⟨a.name, by simp [names, ha], FreeName.identifier_of_token h.symm⟩
      · cases h

theorem GroupItem.mem_names {g : GroupItem} {w : Text} (hw : .quoted w ∈ g.tokens) :
    ∃ n ∈ g.names, n.identifier = ⟨w, true⟩ := by
  cases g with
  | column c =>
    obtain ⟨n, hn, hnw⟩ | ⟨d, hd, -⟩ := ColumnName.mem_tokens hw
    · exact ⟨n, hn, FreeName.identifier_of_token hnw.symm⟩
    · cases hd
  | position digits hne hdigits => cases List.mem_singleton.1 hw

/-! ## Items that are passed over -/

section Passing

variable {words : List Text} {depth : Nat}

theorem FreeOf.tail {t : Token} {ts : List Token} (h : FreeOf words (t :: ts)) : FreeOf words ts :=
  ⟨h.lexed.tail, fun u hu => h.unmasked u (List.mem_cons_of_mem t hu),
    fun x hx => h.avoids x (List.mem_cons_of_mem t hx)⟩

/-- Tokens without commas, semicolons and parentheses outside quotes are passed over if what stands
in quotes is. -/
theorem FreeOf.passTokens {ts : List Token} (h : FreeOf words ts) (hwords : OfLetters words)
    (hquoted : ∀ w, .quoted w ∈ ts → passOver words true depth w = some depth)
    (hother : ∀ c m, .other c m ∈ ts → isQuiet m = true) :
    QueryGate.passTokens words depth ts = some depth := by
  induction ts with
  | nil => rfl
  | cons t ts ih =>
    have hfit := h.lexed.fit t List.mem_cons_self
    refine passTokens_cons ?_ (ih h.tail (fun w hw => hquoted w (List.mem_cons_of_mem t hw))
      fun c m hm => hother c m (List.mem_cons_of_mem t hm))
    cases t with
    | word x => exact passOver_word hfit (h.avoids x List.mem_cons_self)
    | quoted w => exact passOver_inQuotes hwords (hquoted w List.mem_cons_self)
    | other c m =>
      exact passOver_mark hwords (hother c m List.mem_cons_self)
        (head?_any_isWordChar (t := [m]) hfit.1)

theorem passTokens_blankTokens (hwords : OfLetters words) (b : Blanks) :
    passTokens words depth (blankTokens b) = some depth := by
  refine (FreeOf.blanks b).passTokens hwords (fun w hw => ?_) fun c m hm => ?_
  · obtain ⟨d, -, hd⟩ := mem_blankTokens hw
    cases hd
  · obtain ⟨d, hd, heq⟩ := mem_blankTokens hm
    obtain ⟨-, rfl⟩ := Token.other.inj heq
    exact isQuiet_of_isBlank hd

theorem Padded.passTokens {α : Type} {write : α → List Token} {p : Padded α}
    (hwords : OfLetters words)
    (h : QueryGate.passTokens words depth (write p.item) = some depth) :
    QueryGate.passTokens words depth (p.tokens write) = some depth :=
  passTokens_append (passTokens_blankTokens hwords _)
    (passTokens_append h (passTokens_blankTokens hwords _))

variable (hwords : OfLetters words) (hsub : ∀ k ∈ words, k ∈ clauseWords)

include hwords hsub

theorem ColumnName.passTokens {c : ColumnName} (h : ∀ n ∈ c.names, n.Stays words depth) :
    QueryGate.passTokens words depth c.tokens = some depth := by
  refine (c.freeOf.mono hsub).passTokens hwords (fun w hw => ?_) fun d m hm => ?_
  · obtain ⟨n, hn, hnw⟩ | ⟨d, hd, -⟩ := mem_tokens hw
    · have hstays := h n hn
      rw [FreeName.Stays, FreeName.identifier_of_token hnw.symm] at hstays
      exact hstays rfl
    · cases hd
  · rcases isBlank_or_dot hm with hblank | rfl
    · exact isQuiet_of_isBlank hblank
    · rfl

theorem AsAlias.passTokens {a : AsAlias} (h : a.name.Stays words depth) :
    QueryGate.passTokens words depth a.tokens = some depth := by
  refine (a.freeOf.mono hsub).passTokens hwords (fun w hw => ?_) fun d m hm =>
    isQuiet_of_isBlank (isBlank_of_mem hm)
  rcases mem_tokens hw with hw | hw | ⟨d, hw, -⟩
  · cases hw
  · rw [FreeName.Stays, FreeName.identifier_of_token hw.symm] at h
    exact h rfl
  · cases hw

theorem AggregateCall.passTokens {a : AggregateCall}
    (h : ∀ n ∈ a.argument.item.names, n.Stays words (depth + 1)) :
    QueryGate.passTokens words depth a.tokens = some depth := by
  have hfree := a.freeOf.mono hsub
  have hargument := Padded.passTokens hwords (ColumnName.passTokens hwords hsub h)
  have hclosing : QueryGate.passTokens words (depth + 1) [.other ')' ')'] = some depth := rfl
  have hopening : passOver words true depth (Token.other '(' '(').mask = some (depth + 1) := rfl
  exact passTokens_cons
    (passOver_word (hfree.lexed.fit _ List.mem_cons_self) (hfree.avoids _ List.mem_cons_self))
    (passTokens_append (passTokens_blankTokens hwords _)
      (passTokens_cons hopening (passTokens_append hargument hclosing)))

end Passing

theorem ofLetters_clauseWords : OfLetters clauseWords := by decide

theorem ofLetters_of_subset {words : List Text} (hsub : ∀ k ∈ words, k ∈ clauseWords) :
    OfLetters words := fun w hw => ofLetters_clauseWords w (hsub w hw)

theorem selectListEnds_subset : ∀ k ∈ selectListEnds, k ∈ clauseWords := by decide

theorem groupEnds_subset : ∀ k ∈ Grouping.groupEnds, k ∈ clauseWords := by decide

/-- Neither the select list nor one of its items ends in a name of the expression. -/
def Expression.Stays : Expression → Prop
  | column c => ∀ n ∈ c.names, n.Stays selectListEnds 0
  | call a => ∀ n ∈ a.argument.item.names, n.Stays selectListEnds 1

/-- Neither the select list nor one of its items ends in a name of the item. -/
def SelectItem.Stays (i : SelectItem) : Prop :=
  i.expression.Stays ∧ ∀ a ∈ i.alias?, a.name.Stays selectListEnds 0

/-- Neither the list of groups nor one of its items ends in a name of the item. -/
def GroupItem.Stays (g : GroupItem) : Prop := ∀ n ∈ g.names, n.Stays Grouping.groupEnds 0

instance : DecidablePred Expression.Stays
  | .column c => inferInstanceAs (Decidable (∀ n ∈ c.names, n.Stays selectListEnds 0))
  | .call a => inferInstanceAs (Decidable (∀ n ∈ a.argument.item.names, n.Stays selectListEnds 1))

instance : DecidablePred SelectItem.Stays := fun _ => inferInstanceAs (Decidable (_ ∧ _))

instance : DecidablePred GroupItem.Stays := fun g =>
  inferInstanceAs (Decidable (∀ n ∈ g.names, n.Stays Grouping.groupEnds 0))

theorem SelectItem.passTokens {i : SelectItem} (h : i.Stays) :
    QueryGate.passTokens selectListEnds 0 i.tokens = some 0 := by
  have hwords := ofLetters_of_subset selectListEnds_subset
  obtain ⟨hexpression, halias⟩ := h
  have hpass : QueryGate.passTokens selectListEnds 0 i.expression.tokens = some 0 := by
    cases he : i.expression with
    | column c =>
      rw [he] at hexpression
      exact ColumnName.passTokens hwords selectListEnds_subset hexpression
    | call a =>
      rw [he] at hexpression
      exact AggregateCall.passTokens hwords selectListEnds_subset hexpression
  refine passTokens_append hpass ?_
  cases ha : i.alias? with
  | none => rfl
  | some a => exact AsAlias.passTokens hwords selectListEnds_subset (halias a ha)

theorem GroupItem.passTokens {g : GroupItem} (h : g.Stays) :
    QueryGate.passTokens Grouping.groupEnds 0 g.tokens = some 0 := by
  have hwords := ofLetters_of_subset groupEnds_subset
  cases g with
  | column c => exact ColumnName.passTokens hwords groupEnds_subset h
  | position digits hne hdigits =>
    refine ((GroupItem.position digits hne hdigits).freeOf.mono groupEnds_subset).passTokens hwords
      (fun w hw => ?_) fun c m hm => ?_
    · cases List.mem_singleton.1 hw
    · cases List.mem_singleton.1 hm

/-! ## Items as they are written -/

/-- A token that is no blank. -/
def Token.isSolid : Token → Bool
  | other _ m => !isBlank m
  | _ => true

theorem Token.not_blank_mask {t : Token} (hfit : t.Fit) (h : t.isSolid = true) :
    t.mask.head?.any isBlank = false ∧ t.mask.getLast?.any isBlank = false := by
  cases t with
  | word w =>
    have hno : ∀ c ∈ w, isBlank c = false := fun c hc =>
      isBlank_eq_false_of_isWordChar (hfit.2 c hc)
    exact ⟨(Option.any_eq_false _ _).2 fun c hc => hno c (List.mem_of_head? hc),
      (Option.any_eq_false _ _).2 fun c hc => hno c (List.mem_of_getLast? hc)⟩
  | quoted w =>
    refine ⟨rfl, ?_⟩
    rw [mask, inQuotes, List.getLast?_concat]
    rfl
  | other c m =>
    have hm : isBlank m = false := by simpa [isSolid] using h
    exact ⟨hm, hm⟩

/-- Tokens are trimmed if neither the first nor the last is a blank. -/
theorem Trimmed.of_tokens {ts : List Token} (h : Lexed ts)
    (hhead : ts.head?.any Token.isSolid = true) (hlast : ts.getLast?.any Token.isSolid = true) :
    Trimmed (maskOf ts) := by
  obtain ⟨t, ht, hsolid⟩ := (Option.any_eq_true _ _).1 hhead
  obtain ⟨u, hu, hsolid'⟩ := (Option.any_eq_true _ _).1 hlast
  obtain ⟨r, rfl⟩ := List.head?_eq_some_iff.1 ht
  obtain ⟨p, hp⟩ := List.getLast?_eq_some_iff.1 hu
  have hfit := h.fit t List.mem_cons_self
  have hfit' := h.fit u (by rw [hp]; simp)
  have hne : maskOf [u] ≠ [] := by simpa using Token.mask_ne_nil hfit'
  refine ⟨?_, ?_, ?_⟩
  · simp [Token.mask_ne_nil hfit]
  · rw [maskOf_cons, head?_append_any (Token.mask_ne_nil hfit)]
    exact (Token.not_blank_mask hfit hsolid).1
  · rw [hp, maskOf_append, getLast?_any_append _ hne]
    simpa using (Token.not_blank_mask hfit' hsolid').2

theorem FreeName.isSolid_token (n : FreeName) : n.token.isSolid = true := by
  rcases n.bare_or_quoted with ⟨htoken, -⟩ | ⟨htoken, -⟩ <;> rw [htoken] <;> rfl

/-- A column begins with one of its names and ends with its own. -/
theorem ColumnName.tokens_ends (c : ColumnName) :
    (∃ n ∈ c.names, ∃ r, c.tokens = n.token :: r) ∧ ∃ p, c.tokens = p ++ [c.name.token] := by
  rw [tokens, names]
  cases c.qualifier? with
  | none => exact ⟨⟨c.name, by simp, [], rfl⟩, [], rfl⟩
  | some q =>
    obtain ⟨q, before, after⟩ := q
    exact ⟨⟨q, by simp, _, rfl⟩,
      q.token :: (blankTokens before ++ .other '.' '.' :: blankTokens after), by simp⟩

theorem Expression.tokens_ends (e : Expression) :
    (∃ t r, e.tokens = t :: r ∧ t.isSolid = true) ∧
      ∃ p t, e.tokens = p ++ [t] ∧ t.isSolid = true := by
  cases e with
  | column c =>
    obtain ⟨⟨n, -, r, hr⟩, p, hp⟩ := c.tokens_ends
    exact ⟨⟨n.token, r, hr, n.isSolid_token⟩, p, c.name.token, hp, c.name.isSolid_token⟩
  | call a =>
    refine ⟨⟨.word a.function, _, rfl, rfl⟩, .word a.function :: (blankTokens a.gap ++
      .other '(' '(' :: a.argument.tokens ColumnName.tokens), .other ')' ')', ?_, rfl⟩
    simp [Expression.tokens, AggregateCall.tokens]

theorem SelectItem.trimmed (i : SelectItem) : Trimmed (maskOf i.tokens) := by
  obtain ⟨⟨t, r, hr, ht⟩, p, u, hp, hu⟩ := i.expression.tokens_ends
  refine .of_tokens i.freeOf.lexed ?_ ?_
  · rw [tokens, hr]
    exact ht
  · rw [tokens]
    cases i.alias? with
    | none =>
      have hlast : (i.expression.tokens ++ []).getLast? = some u := by
        rw [List.append_nil, hp, List.getLast?_concat]
      exact (congrArg (Option.any Token.isSolid) hlast).trans hu
    | some a =>
      have hlast : (i.expression.tokens ++ a.tokens).getLast? = some a.name.token := by
        have hsplit : i.expression.tokens ++ a.tokens = (i.expression.tokens ++
            (blankTokens a.gap.toBlanks ++ .word a.word.text :: blankTokens a.behind.toBlanks)) ++
              [a.name.token] := by
          simp [AsAlias.tokens]
        rw [hsplit, List.getLast?_concat]
      exact (congrArg (Option.any Token.isSolid) hlast).trans a.name.isSolid_token

theorem GroupItem.trimmed (g : GroupItem) : Trimmed (maskOf g.tokens) := by
  have hlexed := g.freeOf.lexed
  cases g with
  | position digits hne hdigits => exact .of_tokens hlexed rfl rfl
  | column c =>
    obtain ⟨⟨n, -, r, hr⟩, p, hp⟩ := c.tokens_ends
    refine .of_tokens hlexed ?_ ?_
    · rw [tokens, hr]
      exact n.isSolid_token
    · rw [tokens, hp, List.getLast?_concat]
      exact c.name.isSolid_token

/-! ## Names read back -/

namespace FreeName

variable (n : FreeName)

theorem not_blank (r : Text) : (n.token.mask ++ r).head?.any isBlank = false := by
  have hfit := (n.freeOf .nil rfl).lexed.fit n.token List.mem_cons_self
  rw [head?_append_any (Token.mask_ne_nil hfit)]
  exact (Token.not_blank_mask hfit n.isSolid_token).1

theorem read? {isStart : Char → Bool} (hstart : ∀ c, isNameStart c = true → isStart c = true)
    {next : Text} (hnext : next.head?.any isNamePart = false) :
    Identifier.read? isStart (n.token.mask ++ next) = some (n.identifier, next) := by
  rcases n.bare_or_quoted with ⟨htoken, hq, hw⟩ | ⟨htoken, hq, hne, hquote, -⟩
  · rw [htoken, Token.mask, hw.read? hstart hnext, ← hq]
  · rw [htoken, Token.mask, Identifier.read?_inQuotes isStart hne hquote, ← hq]

/-- A keyword and blanks are not read where a name begins. -/
theorem keyword?_bind_spaced? {ts : List Token} (h : Lexed (n.token :: ts)) {k word : Text}
    (hk : k ∈ sqlKeywords) (hword : word.map foldLetter = k.map foldLetter)
    (hletters : ∀ c ∈ word.map foldLetter, c.isLower = true) :
    (keyword? word (maskOf (n.token :: ts))).bind spaced? = none := by
  rw [maskOf_cons]
  rcases n.bare_or_quoted with ⟨htoken, -, hw⟩ | ⟨htoken, -⟩
  · rw [htoken] at h ⊢
    exact hw.keyword?_bind_spaced? hk hword hletters h.head?_maskOf_any
  · rw [htoken]
    exact keyword?_bind_spaced?_inQuotes hletters _ _

end FreeName

theorem Apart.nil : Apart [] := ⟨rfl, rfl⟩

/-- A column is read back. -/
theorem ColumnName.read? {isStart : Char → Bool}
    (hstart : ∀ c, isNameStart c = true → isStart c = true) (c : ColumnName) {next : Text}
    (hnext : Apart next) :
    QualifiedName.read? isStart (maskOf c.tokens ++ next) =
      some ⟨c.qualifier?.map (·.1.identifier), c.name.identifier, c.name.token.mask ++ next,
        next⟩ := by
  have hname := c.name.read? hstart hnext.head
  rw [tokens]
  cases hq : c.qualifier? with
  | none =>
    simp only [maskOf_cons, maskOf_nil, List.append_nil]
    exact QualifiedName.read?_alone hname hnext.dot?_eq_none
  | some q =>
    obtain ⟨q, before, after⟩ := q
    have htext : maskOf (q.token :: (blankTokens before ++
        .other '.' '.' :: (blankTokens after ++ [c.name.token]))) ++ next =
        q.token.mask ++ (before.text ++ '.' :: (after.text ++ (c.name.token.mask ++ next))) := by
      simp [Token.mask]
    simp only [htext]
    exact QualifiedName.read?_qualified (q.read? hstart (head?_append_dot_any before.blank _))
      (dot?_append before.blank after.blank (c.name.not_blank next)) hname

namespace AsAlias

variable (a : AsAlias)

theorem maskOf_tokens : maskOf a.tokens =
    a.gap.text ++ (a.word.text ++ (a.behind.text ++ (a.name.token.mask ++ []))) := by
  simp [tokens, Token.mask]

theorem apart : Apart (maskOf a.tokens) := by
  rw [maskOf_tokens]
  exact .of_blanks a.gap.blank a.gap.ne_nil
    (a.word.head?_text_any (by decide) (by decide) (fun _ => not_end_of_isWordChar) _)

theorem atEnd_eq_false : atEnd (maskOf a.tokens) = false := by
  have hword : 0 < a.word.text.length :=
    List.length_pos_iff.2 (a.word.text_ne_nil (by decide))
  have hgap := List.length_pos_iff.2 a.gap.ne_nil
  rw [Bool.eq_false_iff, maskOf_tokens]
  intro hend
  rw [atEnd, Bool.or_eq_true, List.isEmpty_iff, beq_iff_eq] at hend
  have hlen : (a.gap.text ++ (a.word.text ++ (a.behind.text ++
      (a.name.token.mask ++ [])))).length ≤ 1 := by
    rcases hend with h | h <;> rw [h] <;> simp
  simp only [List.length_append] at hlen
  omega

/-- An alias is read back. -/
theorem aliasOnly? : QueryGate.aliasOnly? (maskOf a.tokens) = some a.name.identifier := by
  have hname : Identifier.read? isFoldedNameStart (a.name.token.mask ++ []) =
      some (a.name.identifier, []) := a.name.read? (fun _ => isFoldedNameStart_of_isNameStart) rfl
  have hgap := spaced?_append a.gap.ne_nil a.gap.blank (a.word.head?_text_any (p := isBlank)
    (by decide) (by decide) (fun _ => isBlank_eq_false_of_isWordChar)
    (a.behind.text ++ (a.name.token.mask ++ [])))
  have hbehind := spaced?_append a.behind.ne_nil a.behind.blank (a.name.not_blank [])
  rw [QueryGate.aliasOnly?, aliasReadings, maskOf_tokens, hgap]
  simp only [keyword?_append a.word.spells, Option.bind_some, hbehind, hname]
  rfl

end AsAlias

/-! ## Items read back -/

/-- A column with its alias is read back. -/
theorem simpleColumn?_of_column (c : ColumnName) (alias? : Option AsAlias) :
    Grouping.simpleColumn? (maskOf (c.tokens ++ (alias?.map AsAlias.tokens).getD [])) =
      some ⟨c.name.identifier, alias?.map (·.name.identifier)⟩ := by
  have hstart : ∀ c, isNameStart c = true → isFoldedNameStart c = true := fun _ =>
    isFoldedNameStart_of_isNameStart
  rw [Grouping.simpleColumn?, maskOf_append]
  cases alias? with
  | none =>
    have hread := c.read? hstart .nil
    simp only [Option.map_none, Option.getD_none, maskOf_nil, hread, Option.bind_eq_bind,
      Option.bind_some]
    rfl
  | some a =>
    have hread := c.read? hstart a.apart
    simp only [Option.map_some, Option.getD_some, hread, Option.bind_eq_bind, Option.bind_some,
      a.atEnd_eq_false, a.aliasOnly?]
    rfl

theorem skipQuantifier_eq_self {t : Text} (hhead : t.head?.any isBlank = false)
    (hdistinct : (keyword? "DISTINCT" t).bind spaced? = none)
    (hall : (keyword? "ALL" t).bind spaced? = none) : skipQuantifier t = t := by
  rw [skipQuantifier, skipBlanks_eq_self hhead]
  simp only [hdistinct, hall]
  rfl

theorem SelectItem.keyword?_bind_spaced? (i : SelectItem) {k word : Text} (hk : k ∈ sqlKeywords)
    (hword : word.map foldLetter = k.map foldLetter)
    (hletters : ∀ c ∈ word.map foldLetter, c.isLower = true)
    (hother : ∀ f ∈ aggregateFunctions, word.map foldLetter ≠ f.map foldLetter) :
    (keyword? word (maskOf i.tokens)).bind spaced? = none := by
  have hlexed := i.freeOf.lexed
  rw [tokens] at hlexed ⊢
  cases he : i.expression with
  | column c =>
    obtain ⟨⟨n, -, r, hr⟩, -⟩ := c.tokens_ends
    rw [he, Expression.tokens, hr, List.cons_append] at hlexed
    rw [Expression.tokens, hr, List.cons_append]
    exact n.keyword?_bind_spaced? hlexed hk hword hletters
  | call a =>
    rw [he, Expression.tokens, AggregateCall.tokens, List.cons_append] at hlexed
    rw [Expression.tokens, AggregateCall.tokens, List.cons_append, maskOf_cons]
    obtain ⟨f, hf, hspells⟩ := a.isAggregate
    exact keyword?_bind_spaced?_of_word hletters (isWord_of_mem_aggregateFunctions hf hspells).2
      (fun hs => hother f hf (hs.symm.trans hspells)) (head?_any_isWordChar hlexed.head?_maskOf_any)

/-- An item begins with no quantifier. -/
theorem SelectItem.skipQuantifier (i : SelectItem) :
    QueryGate.skipQuantifier (maskOf i.tokens) = maskOf i.tokens :=
  skipQuantifier_eq_self i.trimmed.head
    (i.keyword?_bind_spaced? (k := "distinct") (by decide) (by decide) (by decide) (by decide))
    (i.keyword?_bind_spaced? (k := "all") (by decide) (by decide) (by decide) (by decide))

/-- A parenthesis that opens a call is a token. -/
theorem exists_other_of_opensCall {ts : List Token} (h : Lexed ts)
    (hopens : opensCall (maskOf ts) = true) : ∃ c, .other c '(' ∈ ts := by
  induction ts with
  | nil => cases hopens
  | cons t ts ih =>
    have hfit := h.fit t List.mem_cons_self
    cases t with
    | word w =>
      obtain ⟨c, w, rfl⟩ := List.exists_cons_of_ne_nil hfit.1
      have hc := hfit.2 c List.mem_cons_self
      rw [opensCall, maskOf_cons, Token.mask, List.cons_append,
        skipBlanks_eq_self (t := c :: _) (isBlank_eq_false_of_isWordChar hc), beq_iff_eq] at hopens
      obtain rfl := Option.some.inj hopens
      exact absurd hc (by decide)
    | quoted w =>
      rw [opensCall, maskOf_cons, Token.mask, inQuotes, List.cons_append, List.cons_append,
        skipBlanks_eq_self rfl, beq_iff_eq] at hopens
      exact absurd (Option.some.inj hopens) (by decide)
    | other c m =>
      by_cases hm : isBlank m = true
      · rw [opensCall, maskOf_cons, Token.mask, skipBlanks, List.singleton_append,
          List.dropWhile_cons_of_pos hm] at hopens
        obtain ⟨d, hd⟩ := ih h.tail hopens
        exact ⟨d, List.mem_cons_of_mem _ hd⟩
      · rw [opensCall, maskOf_cons, Token.mask, List.singleton_append,
          skipBlanks_eq_self (by simpa using hm), beq_iff_eq] at hopens
        obtain rfl := Option.some.inj hopens
        exact ⟨c, List.mem_cons_self⟩

/-- No name in quotes of a column, or of its alias, holds an aggregate call. -/
def SelectItem.LacksCalls (i : SelectItem) : Prop :=
  match i.expression with
  | .column _ => ∀ n ∈ i.names, n.Lacks Grouping.aggregateCall
  | .call _ => True

instance : DecidablePred SelectItem.LacksCalls
  | ⟨.column c, alias?⟩ => inferInstanceAs
      (Decidable (∀ n ∈ SelectItem.names ⟨.column c, alias?⟩, n.Lacks Grouping.aggregateCall))
  | ⟨.call _, _⟩ => isTrue trivial

namespace SelectItem

variable {i : SelectItem}

/-- Outside quotes no parenthesis stands in a column, or in its alias. -/
theorem not_mem_opening {c : ColumnName} (hi : i.expression = .column c) (d : Char) :
    .other d '(' ∉ i.tokens := by
  intro hmem
  rw [tokens, hi] at hmem
  rcases List.mem_append.1 hmem with hmem | hmem
  · rcases ColumnName.isBlank_or_dot hmem with h | h
    · exact absurd h (by decide)
    · cases h
  · cases ha : i.alias? with
    | none =>
      rw [ha] at hmem
      cases hmem
    | some a =>
      rw [ha] at hmem
      exact absurd (AsAlias.isBlank_of_mem hmem) (by decide)

theorem not_occurs_aggregateCall {c : ColumnName} (hi : i.expression = .column c)
    (h : i.LacksCalls) : occurs Grouping.aggregateCall (maskOf i.tokens) = false := by
  rw [LacksCalls, hi] at h
  rw [occurs_eq_false_iff]
  intro a b hab _
  by_contra hread
  obtain ⟨p, x, q, hts, -, -, hopens⟩ | ⟨w, hw, hoccurs⟩ :=
    ReadsWords.aggregateCall.exists_token (by decide) i.freeOf.lexed hab
      (Option.isSome_iff_ne_none.2 hread)
  · have hlexed := i.freeOf.lexed
    rw [hts] at hlexed
    obtain ⟨d, hd⟩ := exists_other_of_opensCall (Lexed.of_append hlexed).2.tail hopens
    refine not_mem_opening hi d ?_
    rw [hts]
    simp [hd]
  · obtain ⟨n, hn, hnw⟩ := mem_names hw
    have hlacks := h n hn
    rw [FreeName.Lacks, hnw, hoccurs] at hlacks
    cases hlacks rfl

theorem occurs_aggregateCall {a : AggregateCall} (hi : i.expression = .call a) :
    occurs Grouping.aggregateCall (maskOf i.tokens) = true := by
  obtain ⟨f, hf, hspells⟩ := a.isAggregate
  have htext : ∃ r, maskOf i.tokens = a.function ++ (a.gap.text ++ '(' :: r) := by
    refine ⟨maskOf (a.argument.tokens ColumnName.tokens ++
      .other ')' ')' :: (i.alias?.map AsAlias.tokens).getD []), ?_⟩
    simp [tokens, hi, Expression.tokens, AggregateCall.tokens, Token.mask]
  obtain ⟨r, hr⟩ := htext
  have hopens : opensCall (a.gap.text ++ '(' :: r) = true := by
    rw [opensCall, skipBlanks_append a.gap.blank rfl]
    rfl
  refine occurs_eq_true_iff.2 ⟨[], maskOf i.tokens, rfl, i.trimmed.ne_nil, ?_⟩
  exact (ReadsWords.aggregateCall.isSome_iff _ _).2 ⟨rfl, f, hf, a.function, _, hr, hspells, hopens⟩

/-- An item is read back: a column with its alias, and nothing else. -/
theorem groupedColumn? (h : i.LacksCalls) :
    Grouping.groupedColumn? (maskOf i.tokens) = match i.expression with
      | .column c => some ⟨c.name.identifier, i.alias?.map (·.name.identifier)⟩
      | .call _ => none := by
  rw [Grouping.groupedColumn?, i.skipQuantifier]
  cases hi : i.expression with
  | call a => simp only [occurs_aggregateCall hi, ite_true]
  | column c =>
    have hkeyword : (c.name.identifier.quoted || !isKeyword c.name.identifier.name) = true := by
      rcases c.name.bare_or_quoted with ⟨-, -, hw⟩ | ⟨-, hq, -⟩
      · simp [hw.not_keyword]
      · simp [hq]
    have hread := simpleColumn?_of_column c i.alias?
    have htokens : i.tokens = c.tokens ++ (i.alias?.map AsAlias.tokens).getD [] := by
      rw [tokens, hi, Expression.tokens]
    simp only [not_occurs_aggregateCall hi h]
    rw [htokens, hread]
    simp [Option.filter, hkeyword]

end SelectItem

/-! ## Groups -/

/-- The position of an item, if it is one, has no more digits than are converted. -/
def GroupItem.Readable : GroupItem → Prop
  | column _ => True
  | position digits _ _ => digits.length ≤ Numeral.maxDigits

instance : DecidablePred GroupItem.Readable
  | .column _ => isTrue trivial
  | .position digits _ _ => inferInstanceAs (Decidable (digits.length ≤ Numeral.maxDigits))

theorem readDigits_of_isDigit {digits : Text} (hne : digits ≠ [])
    (hdigits : ∀ c ∈ digits, c.isDigit = true) (hlen : digits.length ≤ Numeral.maxDigits) :
    readDigits digits = .ok (Nat.ofDigitChars 10 digits 0) := by
  rw [readDigits_of_decimal hne fun c hc => isDecimalDigit_of_isDigit (hdigits c hc),
    if_neg (Nat.not_lt.2 hlen), ← Numeral.ofDigits_map,
    List.filterMap_eq_map_iff_forall_eq_some.2 fun c hc => digitValue?_of_isDigit (hdigits c hc)]
  rfl

/-- No column is taken for a position. -/
theorem ColumnName.not_all_isDigitLike (c : ColumnName) :
    (maskOf c.tokens).all isDigitLike = false := by
  obtain ⟨⟨n, -, r, hr⟩, -⟩ := c.tokens_ends
  have hmem : ∃ d ∈ n.token.mask, isDigitLike d = false := by
    rcases n.bare_or_quoted with ⟨htoken, -, hw⟩ | ⟨htoken, -⟩
    · obtain ⟨d, u, hdu, hd⟩ := hw.starts
      have := forall_ascii (p := fun d => !isNameStart d || !isDigitLike d) (by decide)
        (ascii_of_isNameStart hd)
      refine ⟨d, ?_, by simpa [hd] using this⟩
      rw [htoken, Token.mask, hdu]
      exact List.mem_cons_self
    · refine ⟨'"', ?_, by decide⟩
      rw [htoken]
      exact List.mem_cons_self
  obtain ⟨d, hd, hno⟩ := hmem
  rw [List.all_eq_false]
  exact ⟨d, by rw [hr, maskOf_cons]; exact List.mem_append_left _ hd, by simp [hno]⟩

namespace GroupItem

theorem add {g : GroupItem} (h : g.Readable) (groups : Grouping.Groups) :
    groups.add (maskOf g.tokens) =
      .ok ⟨g.name?.toList ++ groups.names, g.position?.toList ++ groups.positions⟩ := by
  rw [Grouping.Groups.add]
  cases g with
  | column c =>
    have hread := simpleColumn?_of_column c none
    simp only [Option.map_none, Option.getD_none, List.append_nil] at hread
    rw [tokens, c.not_all_isDigitLike, Bool.and_false, if_neg nofun, hread]
    rfl
  | position digits hne hdigits =>
    have hall : (maskOf (position digits hne hdigits).tokens).all isDigitLike = true := by
      simp only [tokens, maskOf_cons, maskOf_nil, List.append_nil, Token.mask, List.all_eq_true]
      intro c hc
      rw [isDigitLike, isDecimalDigit_of_isDigit (hdigits c hc), Bool.true_or]
    have htext : maskOf (position digits hne hdigits).tokens = digits := by
      simp [tokens, Token.mask]
    rw [hall, Bool.and_true, htext, List.isEmpty_eq_false_iff.2 hne, if_pos (by rfl),
      readDigits_of_isDigit hne hdigits h]
    rfl

/-- The groups are the names and the positions of the items. -/
theorem foldlM_add {items : List GroupItem} (h : ∀ g ∈ items, g.Readable)
    (groups : Grouping.Groups) :
    (items.map fun g => maskOf g.tokens).foldlM Grouping.Groups.add groups =
      .ok ⟨(items.filterMap name?).reverse ++ groups.names,
        (items.filterMap position?).reverse ++ groups.positions⟩ := by
  induction items generalizing groups with
  | nil => rfl
  | cons g items ih =>
    rw [List.map_cons, List.foldlM_cons, add (h g List.mem_cons_self)]
    refine (ih (fun g hg => h g (List.mem_cons_of_mem _ hg)) _).trans ?_
    cases g <;> simp [List.filterMap_cons, name?, position?]

end GroupItem

end QueryGate
