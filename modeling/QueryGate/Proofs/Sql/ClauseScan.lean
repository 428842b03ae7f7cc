import QueryGate.Proofs.Sql.ListItems
import QueryGate.Proofs.Sql.WordReadings

/-!
# Parts of a clause

The end of a clause and the commas between its items are found by counting parentheses. `passOver`
is that count for a part in which neither the clause nor an item of it ends. Such a part is passed
over by both scans (`clauseEndFrom_append`, `topLevelCommas_append`), and so is each of several
parts with commas between them: the clause goes on over them all (`GoesOn.commaJoin`), and
they are its items (`slices_topLevelItems`).
-/

namespace QueryGate

/-- The depth of parentheses behind a part of a clause that begins at a depth, if neither the
clause, before any of `words`, nor one of its items ends in the part. A word may begin where the
part does if `start` says so. -/
def passOver (words : List Text) (start : Bool) (depth : Nat) : Text → Option Nat
  | [] => some depth
  | c :: t =>
    if c == '(' then passOver words true (depth + 1) t
    else if c == ')' then
      if depth = 0 then none else passOver words true (depth - 1) t
    else if depth == 0 &&
        (c == ';' || c == ',' || (start && (oneWord words [] (c :: t)).isSome)) then none
    else passOver words (!isWordChar c) depth t

variable {words : List Text} {start : Bool} {depth e f : Nat} {a b t next : Text}

/-! ## Words that are read -/

theorem oneWord_isSome_eq (words : List Text) (before after : Text) :
    (oneWord words before after).isSome =
      (atWordStart before && (oneWord words [] after).isSome) := by
  cases h : atWordStart before with
  | false => simp [oneWord, h]
  | true => simp [oneWord, h, show atWordStart [] = true from rfl]

theorem oneWord_isSome_iff {after : Text} :
    (oneWord words [] after).isSome = true ↔
      ∃ w ∈ words, ∃ x r, after = x ++ r ∧ Spells w x ∧ atWordEnd r = true :=
  ((ReadsWords.oneWord words).isSome_iff [] after).trans (and_iff_right rfl)

theorem oneWord_eq_none_of_not_isWordChar (hwords : OfLetters words) {c : Char}
    (hc : isWordChar c = false) : (oneWord words [] (c :: t)).isSome = false := by
  rw [Bool.eq_false_iff]
  intro h
  obtain ⟨w, hw, x, r, hx, hspells, -⟩ := oneWord_isSome_iff.1 h
  obtain ⟨hne, hchars⟩ := isWord_of_spells (hwords w hw).1 (hwords w hw).2 hspells
  obtain ⟨d, x, rfl⟩ := List.exists_cons_of_ne_nil hne
  obtain ⟨rfl, -⟩ := List.cons.inj hx
  rw [hchars c List.mem_cons_self] at hc
  cases hc

/-- No word goes on from a text into the next. -/
def Cleft (a b : Text) : Prop :=
  a.getLast?.any isWordChar = false ∨ b.head?.any isWordChar = false

theorem Cleft.tail {c : Char} (h : Cleft (c :: a) b) : Cleft a b := by
  cases a with
  | nil => exact .inl rfl
  | cons d a => rwa [Cleft, List.getLast?_cons_of_ne_nil (List.cons_ne_nil d a)] at h

theorem Cleft.of_append {a' : Text} (h : Cleft (a ++ a') b) : Cleft a' b := by
  induction a with
  | nil => exact h
  | cons c a ih => exact ih h.tail

/-- A word that is read at the beginning of a text is read there without what follows. -/
theorem oneWord_isSome_of_append (hwords : OfLetters words) (ht : t ≠ []) (hcleft : Cleft t next)
    (h : (oneWord words [] (t ++ next)).isSome = true) :
    (oneWord words [] t).isSome = true := by
  obtain ⟨w, hw, x, r, hx, hspells, hend⟩ := oneWord_isSome_iff.1 h
  have hword := isWord_of_spells (hwords w hw).1 (hwords w hw).2 hspells
  refine oneWord_isSome_iff.2 ⟨w, hw, x, ?_⟩
  obtain ⟨y, rfl, rfl⟩ | ⟨y, rfl, rfl⟩ := List.append_eq_append_iff.1 hx
  · cases y with
    | nil => exact ⟨[], by simp, by simpa using hspells, rfl⟩
    | cons c y =>
      -- The word would go on from the text into the next.
      rcases hcleft with hlast | hhead
      · rw [List.getLast?_eq_some_getLast ht, Option.any_some,
          hword.2 _ (List.mem_append_left _ (List.getLast_mem ht))] at hlast
        cases hlast
      · rw [List.cons_append, List.head?_cons, Option.any_some, hword.2 c (by simp)] at hhead
        cases hhead
  · refine ⟨y, rfl, hspells, ?_⟩
    cases y with
    | nil => rfl
    | cons c y => exact hend

/-! ## Parts that are passed over -/

/-- A character is no parenthesis, and outside parentheses neither ends the clause or an item nor
begins a word that does. -/
structure StaysAt (words : List Text) (start : Bool) (depth : Nat) (c : Char) (t : Text) :
    Prop where
  not_opening : c ≠ '('
  not_closing : c ≠ ')'
  not_mark : depth = 0 → c ≠ ';' ∧ c ≠ ','
  not_word : depth = 0 → start = true → (oneWord words [] (c :: t)).isSome = false

theorem StaysAt.passOver_cons {c : Char} (h : StaysAt words start depth c t) :
    passOver words start depth (c :: t) = passOver words (!isWordChar c) depth t := by
  rw [passOver, if_neg (by simpa using h.not_opening), if_neg (by simpa using h.not_closing),
    if_neg]
  rw [Bool.and_eq_true, beq_iff_eq]
  rintro ⟨hdepth, hstop⟩
  obtain ⟨hend, hcomma⟩ := h.not_mark hdepth
  cases start with
  | false => simp [hend, hcomma] at hstop
  | true => simp [hend, hcomma, h.not_word hdepth rfl] at hstop

/-- One character is passed over: a parenthesis that opens, one that closes an open one, or another
at which the clause goes on. -/
theorem passOver_cons_eq_some_iff {c : Char} :
    passOver words start depth (c :: t) = some e ↔
      c = '(' ∧ passOver words true (depth + 1) t = some e ∨
      (c = ')' ∧ ∃ d, depth = d + 1 ∧ passOver words true d t = some e) ∨
      StaysAt words start depth c t ∧ passOver words (!isWordChar c) depth t = some e := by
  constructor
  · intro h
    unfold passOver at h
    split at h
    · exact .inl ⟨by simpa using ‹(c == '(') = true›, h⟩
    rename_i hopen
    split at h
    · rename_i hclose
      cases depth with
      | zero => cases h
      | succ d => exact .inr (.inl ⟨by simpa using hclose, d, rfl, h⟩)
    rename_i hclose
    split at h
    · cases h
    rename_i hstop
    simp only [Bool.and_eq_true, Bool.or_eq_true, beq_iff_eq, not_and, not_or] at hstop
    exact .inr (.inr ⟨⟨by simpa using hopen, by simpa using hclose, fun hdepth =>
      (hstop hdepth).1, fun hdepth hstart => by simpa using (hstop hdepth).2 hstart⟩, h⟩)
  · rintro (⟨rfl, h⟩ | ⟨rfl, d, rfl, h⟩ | ⟨hstays, h⟩)
    · exact h
    · exact h
    · exact hstays.passOver_cons.trans h

theorem passOver_of_start (h : passOver words true depth t = some e) :
    passOver words start depth t = some e := by
  cases t with
  | nil => exact h
  | cons c t =>
    rw [passOver_cons_eq_some_iff] at h ⊢
    exact h.imp_right (.imp_right fun ⟨hstays, h⟩ =>
      ⟨{ hstays with not_word := fun hdepth _ => hstays.not_word hdepth rfl }, h⟩)

/-- What follows does not make a word of the part one that ends the clause. -/
theorem StaysAt.append (hwords : OfLetters words) {c : Char} (h : StaysAt words start depth c t)
    (hcleft : Cleft (c :: t) next) : StaysAt words start depth c (t ++ next) where
  not_opening := h.not_opening
  not_closing := h.not_closing
  not_mark := h.not_mark
  not_word hdepth hstart := by
    have hno := h.not_word hdepth hstart
    rw [Bool.eq_false_iff] at hno ⊢
    exact mt (oneWord_isSome_of_append hwords (List.cons_ne_nil c t) hcleft) hno

/-- Two parts are passed over one after the other. -/
theorem passOver_append (hwords : OfLetters words) (ha : passOver words start depth a = some e)
    (hb : passOver words true e b = some f) (hcleft : Cleft a b) :
    passOver words start depth (a ++ b) = some f := by
  induction a generalizing start depth with
  | nil =>
    obtain rfl := Option.some.inj ha
    exact passOver_of_start hb
  | cons c a ih =>
    rw [List.cons_append]
    rw [passOver_cons_eq_some_iff] at ha ⊢
    rcases ha with ⟨hc, ha⟩ | ⟨hc, d, hd, ha⟩ | ⟨hstays, ha⟩
    · exact .inl ⟨hc, ih ha hcleft.tail⟩
    · exact .inr (.inl ⟨hc, d, hd, ih ha hcleft.tail⟩)
    · exact .inr (.inr ⟨hstays.append hwords hcleft, ih ha hcleft.tail⟩)

/-- Neither a parenthesis nor a mark at which a clause or an item ends. -/
def isQuiet (c : Char) : Bool := c != '(' && c != ')' && c != ';' && c != ','

theorem StaysAt.of_isQuiet {c : Char} (hc : isQuiet c = true)
    (h : depth = 0 → start = true → (oneWord words [] (c :: t)).isSome = false) :
    StaysAt words start depth c t := by
  simp only [isQuiet, Bool.and_eq_true, bne_iff_ne, ne_eq] at hc
  obtain ⟨⟨⟨hopen, hclose⟩, hend⟩, hcomma⟩ := hc
  exact ⟨hopen, hclose, fun _ => ⟨hend, hcomma⟩, h⟩

/-- The characters of a class without parentheses, semicolons and commas. -/
theorem isQuiet_of_class {p : Char → Bool} (hp : ∀ d ∈ ['(', ')', ';', ','], p d = false)
    {c : Char} (hc : p c = true) : isQuiet c = true := by
  have hne : ∀ d ∈ ['(', ')', ';', ','], c ≠ d := by
    rintro d hd rfl
    rw [hp c hd] at hc
    cases hc
  simpa [isQuiet, and_assoc] using hne

theorem isQuiet_of_isWordChar {c : Char} (hc : isWordChar c = true) : isQuiet c = true :=
  isQuiet_of_class (by decide) hc

theorem isQuiet_of_isBlank {c : Char} (hc : isBlank c = true) : isQuiet c = true :=
  isQuiet_of_class (by decide) hc

theorem passOver_wordChars {w : Text} (hw : ∀ c ∈ w, isWordChar c = true) :
    passOver words false depth w = some depth := by
  induction w with
  | nil => rfl
  | cons c w ih =>
    have hc := hw c List.mem_cons_self
    have hstays : StaysAt words false depth c w :=
      .of_isQuiet (isQuiet_of_isWordChar hc) fun _ h => Bool.noConfusion h
    rw [hstays.passOver_cons, hc]
    exact ih fun d hd => hw d (List.mem_cons_of_mem c hd)

/-- A word that is none of `words` is passed over. -/
theorem passOver_word {w : Text} (hw : IsWord w) (hno : ∀ k ∈ words, ¬ Spells k w) :
    passOver words true depth w = some depth := by
  obtain ⟨c, w, rfl⟩ := List.exists_cons_of_ne_nil hw.1
  have hc := hw.2 c List.mem_cons_self
  have hstays : StaysAt words true depth c w := by
    refine .of_isQuiet (isQuiet_of_isWordChar hc) fun _ _ => ?_
    rw [Bool.eq_false_iff]
    intro h
    obtain ⟨k, hk, x, r, hx, hspells, hend⟩ := oneWord_isSome_iff.1 h
    cases r with
    | nil =>
      rw [List.append_nil] at hx
      exact hno k hk (hx ▸ hspells)
    | cons d r =>
      rw [atWordEnd, List.head?_cons, Option.any_some, hw.2 d (by rw [hx]; simp)] at hend
      cases hend
  rw [hstays.passOver_cons, hc]
  exact passOver_wordChars fun d hd => hw.2 d (List.mem_cons_of_mem c hd)

theorem passOver_mark (hwords : OfLetters words) {c : Char} (hc : isQuiet c = true)
    (hword : isWordChar c = false) : passOver words start depth [c] = some depth := by
  have hstays : StaysAt words start depth c [] :=
    .of_isQuiet hc fun _ _ => oneWord_eq_none_of_not_isWordChar hwords hword
  rw [hstays.passOver_cons]
  rfl

/-- A name in quotes is passed over if what is between the quotes is. -/
theorem passOver_inQuotes (hwords : OfLetters words) {name : Text}
    (h : passOver words true depth name = some e) :
    passOver words true depth (inQuotes name) = some e := by
  have hname := passOver_append hwords h (passOver_mark hwords (c := '"') rfl rfl) (.inr rfl)
  have hmark : passOver words true depth ['"'] = some depth := passOver_mark hwords rfl rfl
  have hsplit : inQuotes name = ['"'] ++ (name ++ ['"']) := by simp [inQuotes]
  rw [hsplit]
  exact passOver_append hwords hmark hname (.inl rfl)

/-! ## Tokens -/

/-- The depth of parentheses behind some tokens, as for a text. -/
def passTokens (words : List Text) (depth : Nat) (ts : List Token) : Option Nat :=
  ts.foldlM (fun depth t => passOver words true depth t.mask) depth

theorem passTokens_cons {k : Token} {ts : List Token}
    (h : passOver words true depth k.mask = some e) (hts : passTokens words e ts = some f) :
    passTokens words depth (k :: ts) = some f := by
  rw [passTokens, List.foldlM_cons, h]
  exact hts

theorem passTokens_append {ts us : List Token} (h : passTokens words depth ts = some e)
    (hus : passTokens words e us = some f) : passTokens words depth (ts ++ us) = some f := by
  unfold passTokens at h hus ⊢
  rw [List.foldlM_append, h]
  exact hus

theorem Lexed.cleft {k : Token} {ts : List Token} (h : Lexed (k :: ts)) :
    Cleft k.mask (maskOf ts) := by
  cases k with
  | word w => exact .inr (head?_any_isWordChar h.head?_maskOf_any)
  | quoted w =>
    left
    rw [Token.mask, inQuotes, List.getLast?_concat]
    rfl
  | other c m =>
    have hfit : (Token.other c m).Fit := h.fit _ List.mem_cons_self
    exact .inl (head?_any_isWordChar (t := [m]) hfit.1)

/-- Tokens that are passed over one by one are passed over as a text. -/
theorem passOver_maskOf (hwords : OfLetters words) {ts : List Token} (hlexed : Lexed ts)
    (h : passTokens words depth ts = some e) : passOver words true depth (maskOf ts) = some e := by
  induction ts generalizing depth with
  | nil => exact h
  | cons k ts ih =>
    rw [passTokens, List.foldlM_cons] at h
    obtain ⟨d, hk, hts⟩ := Option.bind_eq_some_iff.1 h
    rw [maskOf_cons]
    exact passOver_append hwords hk (ih hlexed.tail hts) hlexed.cleft

/-! ## The end of a clause -/

theorem beginsClause_eq (hne : words ≠ []) (before after : Text) :
    beginsClause words before after =
      (atWordStart before && (oneWord words [] after).isSome) := by
  rw [beginsClause, List.isEmpty_eq_false_iff.2 hne, if_neg (by decide), oneWord_isSome_eq,
    ← Bool.and_assoc, Bool.and_self]

theorem StaysAt.clauseEndFrom_cons (hne : words ≠ []) {before : Text} {c : Char}
    (hstart : atWordStart before = true → start = true) (h : StaysAt words start depth c t) :
    clauseEndFrom words before depth (c :: t) = clauseEndFrom words (c :: before) depth t := by
  rw [clauseEndFrom, if_neg (by simpa using h.not_opening), if_neg (by simpa using h.not_closing),
    if_neg, if_neg]
  · rw [Bool.and_eq_true, beq_iff_eq, beginsClause_eq hne, Bool.and_eq_true]
    rintro ⟨hdepth, hbefore, hread⟩
    rw [h.not_word hdepth (hstart hbefore)] at hread
    cases hread
  · simp only [Bool.and_eq_true, beq_iff_eq]
    rintro ⟨hend, hdepth⟩
    exact (h.not_mark hdepth).1 hend

/-- A clause does not end in a part that is passed over. -/
theorem clauseEndFrom_append (hwords : OfLetters words) (hne : words ≠ []) {before : Text}
    (hstart : atWordStart before = true → start = true)
    (h : passOver words start depth t = some e) (hcleft : Cleft t next) :
    clauseEndFrom words before depth (t ++ next) =
      clauseEndFrom words (t.reverse ++ before) e next := by
  induction t generalizing start depth before with
  | nil =>
    obtain rfl := Option.some.inj h
    rfl
  | cons c t ih =>
    rw [List.cons_append, List.reverse_cons, List.append_assoc, List.singleton_append]
    rcases passOver_cons_eq_some_iff.1 h with ⟨rfl, ht⟩ | ⟨rfl, d, rfl, ht⟩ | ⟨hstays, ht⟩
    · exact ih (fun _ => rfl) ht hcleft.tail
    · exact ih (fun _ => rfl) ht hcleft.tail
    · rw [(hstays.append hwords hcleft).clauseEndFrom_cons hne hstart]
      exact ih id ht hcleft.tail

/-- A clause goes on over a text at the depth where it began. -/
def GoesOn (words : List Text) (t : Text) : Prop :=
  ∀ before next, Cleft t next →
    clauseEndFrom words before 0 (t ++ next) = clauseEndFrom words (t.reverse ++ before) 0 next

theorem GoesOn.of_passOver (hwords : OfLetters words) (hne : words ≠ [])
    (h : passOver words true 0 t = some 0) : GoesOn words t := fun _ _ =>
  clauseEndFrom_append hwords hne (fun _ => rfl) h

/-- A clause ends where a word stands that begins the next. -/
theorem clauseEndFrom_of_word (hwords : OfLetters words) {w x r before : Text} (hw : w ∈ words)
    (hx : Spells w x) (hstart : atWordStart before = true) (hend : atWordEnd r = true) :
    clauseEndFrom words before 0 (x ++ r) = before.length := by
  have hread : beginsClause words before (x ++ r) = true := by
    rw [beginsClause_eq (List.ne_nil_of_mem hw), hstart, Bool.true_and, oneWord_isSome_iff]
    exact ⟨w, hw, x, r, rfl, hx, hend⟩
  have hword := isWord_of_spells (hwords w hw).1 (hwords w hw).2 hx
  obtain ⟨c, x, rfl⟩ := List.exists_cons_of_ne_nil hword.1
  have hquiet := isQuiet_of_isWordChar (hword.2 c List.mem_cons_self)
  simp only [isQuiet, Bool.and_eq_true, bne_iff_ne, ne_eq] at hquiet
  obtain ⟨⟨⟨hopen, hclose⟩, -⟩, -⟩ := hquiet
  rw [List.cons_append] at hread ⊢
  rw [clauseEndFrom, if_neg (by simpa using hopen), if_neg (by simpa using hclose), hread]
  simp

/-- A clause that goes on over some tokens ends behind them if no more follow or a word does that
begins the next clause. -/
theorem GoesOn.clauseEnd_maskOf (hwords : OfLetters words) {p ts q : List Token}
    (h : GoesOn words (maskOf ts)) (hlexed : Lexed (p ++ (ts ++ q)))
    (hq : q = [] ∨ ∃ w ∈ words, ∃ x r, q = .word x :: r ∧ Spells w x) :
    clauseEnd (maskOf (p ++ (ts ++ q))) (maskOf p).length words =
      (maskOf p).length + (maskOf ts).length := by
  rw [clauseEnd, maskOf_append, List.take_left, List.drop_left, maskOf_append]
  rcases hq with rfl | ⟨w, hw, x, r, rfl, hx⟩
  · rw [h _ _ (.inr rfl)]
    simp [clauseEndFrom, Nat.add_comm]
  · have hcleft : Cleft (maskOf ts) (maskOf (.word x :: r)) :=
      .inl (Lexed.of_append hlexed).2.getLast?_maskOf_any
    have hbehind := (Lexed.of_append (Lexed.of_append hlexed).2).2
    rw [← List.append_assoc] at hlexed
    have hstart := hlexed.getLast?_maskOf_any
    have hend := head?_any_isWordChar hbehind.head?_maskOf_any
    rw [h _ _ hcleft, ← List.reverse_append, ← maskOf_append, maskOf_cons, Token.mask,
      clauseEndFrom_of_word hwords hw hx (atWordStart_reverse_iff.2 hstart)
        (by simpa [atWordEnd] using hend)]
    simp [Nat.add_comm]

/-! ## The items of a clause -/

theorem StaysAt.topLevelCommas_cons {c : Char} (h : StaysAt words start depth c t) (offset : Nat)
    (u : Text) : topLevelCommas depth offset (c :: u) = topLevelCommas depth (offset + 1) u := by
  rw [topLevelCommas, if_neg (by simpa using h.not_opening), if_neg (by simpa using h.not_closing),
    if_neg]
  simp only [Bool.and_eq_true, beq_iff_eq]
  rintro ⟨hcomma, hdepth⟩
  exact (h.not_mark (by omega)).2 hcomma

theorem topLevelCommas_append (offset : Nat) (h : passOver words start depth t = some e) :
    topLevelCommas depth offset (t ++ next) = topLevelCommas e (offset + t.length) next := by
  induction t generalizing start depth offset with
  | nil =>
    obtain rfl := Option.some.inj h
    rfl
  | cons c t ih =>
    have hlen : offset + (c :: t).length = offset + 1 + t.length := by
      rw [List.length_cons]
      omega
    rw [List.cons_append, hlen]
    rcases passOver_cons_eq_some_iff.1 h with ⟨rfl, ht⟩ | ⟨rfl, d, rfl, ht⟩ | ⟨hstays, ht⟩
    · exact ih (offset + 1) ht
    · have hcast : ((d + 1 : Nat) : Int) - 1 = d := by omega
      have hclose : topLevelCommas (d + 1 : Nat) offset (')' :: (t ++ next)) =
          topLevelCommas ((d + 1 : Nat) - 1) (offset + 1) (t ++ next) := rfl
      rw [hclose, hcast]
      exact ih (offset + 1) ht
    · rw [hstays.topLevelCommas_cons]
      exact ih (offset + 1) ht

/-- Something with blanks around it. -/
structure Padded (α : Type) where
  before : Blanks
  item : α
  after : Blanks

/-- A padded thing as it is written. -/
def Padded.text {α : Type} (write : α → Text) (p : Padded α) : Text :=
  p.before.text ++ (write p.item ++ p.after.text)

/-- Parts with commas between them. -/
def commaJoin (first : Text) (more : List Text) : Text := first ++ more.flatMap (',' :: ·)

theorem commaJoin_cons (first second : Text) (more : List Text) :
    commaJoin first (second :: more) = first ++ ',' :: commaJoin second more := by
  simp [commaJoin]

/-- Parts with commas between them are passed over if each is. -/
theorem GoesOn.commaJoin (hwords : OfLetters words) (hne : words ≠ []) {first : Text}
    {more : List Text} (hparts : ∀ p ∈ first :: more, passOver words true 0 p = some 0) :
    GoesOn words (commaJoin first more) := by
  induction more generalizing first with
  | nil =>
    rw [QueryGate.commaJoin, List.flatMap_nil, List.append_nil]
    exact .of_passOver hwords hne (hparts first List.mem_cons_self)
  | cons second more ih =>
    intro before next hcleft
    rw [commaJoin_cons] at hcleft ⊢
    have hcomma (before t : Text) :
        clauseEndFrom words before 0 (',' :: t) = clauseEndFrom words (',' :: before) 0 t := by
      have hread : beginsClause words before (',' :: t) = false := by
        rw [beginsClause_eq hne, oneWord_eq_none_of_not_isWordChar hwords rfl, Bool.and_false]
      rw [clauseEndFrom, hread]
      rfl
    have hfirst := GoesOn.of_passOver hwords hne (hparts first List.mem_cons_self)
    have hlater := ih fun p hp => hparts p (List.mem_cons_of_mem first hp)
    rw [List.append_assoc, List.cons_append, hfirst before _ (.inr rfl), hcomma,
      hlater _ next hcleft.of_append.tail]
    simp

theorem trimSpan?_padded {α : Type} (write : α → Text) {p : Padded α}
    (h : Trimmed (write p.item)) (a b : Text) :
    ∃ s, trimSpan? (a ++ (p.text write ++ b))
        ⟨a.length, a.length + (p.text write).length⟩ = some s ∧
      Text.slice (a ++ (p.text write ++ b)) s.start s.stop = write p.item := by
  have htrim := trim_append_blanks p.before.blank p.after.blank h.ne_nil h.head h.last
  have hskip : skipBlanks (p.text write) = write p.item ++ p.after.text :=
    skipBlanks_append p.before.blank (by rw [head?_append_any h.ne_nil]; exact h.head)
  have hslice : Text.slice (a ++ (p.text write ++ b)) a.length
      (a.length + (p.text write).length) = p.text write := Text.slice_middle ..
  refine ⟨⟨a.length + p.before.text.length,
    a.length + p.before.text.length + (write p.item).length⟩, ?_, ?_⟩
  · have hgap : (p.text write).length - (write p.item ++ p.after.text).length =
        p.before.text.length := by
      simp only [Padded.text, List.length_append]
      omega
    rw [trimSpan?]
    simp only [hslice]
    rw [← Padded.text] at htrim
    rw [hskip, htrim, hgap, if_neg (by simpa using h.ne_nil)]
  · have hsplit : a ++ (p.text write ++ b) =
        (a ++ p.before.text) ++ (write p.item ++ (p.after.text ++ b)) := by
      simp [Padded.text]
    rw [hsplit, ← List.length_append, Text.slice_middle]

/-- The items of a list are the things in it. -/
theorem slices_topLevelItems {α : Type} (write : α → Text) {first : Padded α}
    {more : List (Padded α)} (htrimmed : ∀ p ∈ first :: more, Trimmed (write p.item))
    (hparts : ∀ p ∈ first :: more, passOver words true 0 (p.text write) = some 0)
    {list : Text} (hlist : list = commaJoin (first.text write) (more.map (·.text write)))
    (a b : Text) :
    (topLevelItems (a ++ (list ++ b)) a.length (a.length + list.length)).map
        (fun s => Text.slice (a ++ (list ++ b)) s.start s.stop) =
      (first :: more).map (write ·.item) := by
  rw [topLevelItems, Text.slice_middle]
  induction more generalizing first list a with
  | nil =>
    obtain rfl : list = first.text write := by simpa [commaJoin] using hlist
    obtain ⟨s, hs, hslice⟩ := trimSpan?_padded write (htrimmed first List.mem_cons_self) a b
    have hnone : topLevelCommas 0 a.length (first.text write) = [] := by
      rw [← List.append_nil (first.text write)]
      exact topLevelCommas_append a.length (hparts first List.mem_cons_self)
    simp [hnone, spansBetween, hs, hslice]
  | cons second more ih =>
    rw [List.map_cons, commaJoin_cons] at hlist
    generalize hrest : commaJoin (second.text write) (more.map (·.text write)) = rest at hlist
    have htext : a ++ (list ++ b) = a ++ (first.text write ++ ',' :: (rest ++ b)) := by
      simp [hlist]
    have hbehind : a ++ (list ++ b) = (a ++ (first.text write ++ [','])) ++ (rest ++ b) := by
      simp [hlist]
    have hstart : (a ++ (first.text write ++ [','])).length =
        a.length + (first.text write).length + 1 := by
      simp [Nat.add_assoc]
    have hstop : a.length + list.length =
        a.length + (first.text write).length + 1 + rest.length := by
      rw [hlist, List.length_append, List.length_cons]
      omega
    have hcommas : topLevelCommas 0 a.length list = (a.length + (first.text write).length) ::
        topLevelCommas 0 (a.length + (first.text write).length + 1) rest := by
      rw [hlist]
      exact topLevelCommas_append a.length (hparts first List.mem_cons_self)
    obtain ⟨s, hs, hslice⟩ := trimSpan?_padded write (htrimmed first List.mem_cons_self) a
      (',' :: (rest ++ b))
    have hlater := ih (fun p hp => htrimmed p (List.mem_cons_of_mem first hp))
      (fun p hp => hparts p (List.mem_cons_of_mem first hp)) hrest.symm
      (a ++ (first.text write ++ [',']))
    rw [← htext] at hs hslice
    rw [← hbehind, hstart, ← hstop] at hlater
    rw [hcommas, spansBetween, List.filterMap_cons_some hs, List.map_cons, hslice, hlater]
    rfl

end QueryGate
