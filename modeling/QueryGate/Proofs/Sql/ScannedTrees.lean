import QueryGate.Proofs.Sql.Subqueries
import QueryGate.Sql.Scanner

/-!
# The trees of the scanner

The scanner is a lawful parser (`Parser.scanner_lawful`). Its trees are built from its lexemes
(`Builds`): the lexemes that it has read are those of the parts that it holds (`Holds`), and every
step keeps this. So each parenthesis in a tree is a pair of lexemes (`Builds.exists_of_stands`).
Where the text has neither escapes nor comments, the scan passes over literals and quoted names
token by token, so a lexeme that is a parenthesis is one in the mask (`lexemesFrom_tokens`).
-/

namespace QueryGate

open ParseTree (textAll Stands)

/-! ## Trees and their lexemes -/

theorem map_char_lexemesFrom (covered : Nat) (depth : Int) (t : Text) :
    (lexemesFrom covered depth t).map Lexeme.char = t := by
  induction t generalizing covered depth with
  | nil => rfl
  | cons c t ih =>
    have hplain (n : Nat) (d : Int) :
        (Lexeme.plain c :: lexemesFrom n d t).map Lexeme.char = c :: t :=
      congrArg (c :: ·) (ih n d)
    cases covered with
    | succ n => exact hplain n depth
    | zero =>
      rw [lexemesFrom]
      cases opaqueLength (c :: t) with
      | succ n => exact hplain n depth
      | zero =>
        simp only
        split
        · rename_i hc
          rw [eq_of_beq hc]
          exact congrArg ('(' :: ·) (ih 0 (depth + 1))
        split
        · rename_i hc
          rw [eq_of_beq hc]
          exact congrArg (')' :: ·) (ih 0 (depth - 1))
        split
        · rename_i hc
          rw [eq_of_beq (Bool.and_eq_true_iff.1 hc).1]
          exact congrArg (';' :: ·) (ih 0 0)
        · exact hplain 0 depth

/-- Trees are built from lexemes: a parenthesis from an opening lexeme, what it holds, and a closing
one, and another group from what it holds. -/
inductive Builds : List Lexeme → List ParseTree → Prop
  | nil : Builds [] []
  | leaf {xs : List Lexeme} {trees : List ParseTree} (x : Lexeme) (rest : Builds xs trees) :
      Builds (x :: xs) (.leaf [x.char] :: trees)
  | parenthesis {ys xs : List Lexeme} {parts trees : List ParseTree} (inner : Builds ys parts)
      (rest : Builds xs trees) :
      Builds (.opening :: (ys ++ .closing :: xs))
        (.group true (.leaf ['('] :: (parts ++ [.leaf [')']])) :: trees)
  | group {ys xs : List Lexeme} {parts trees : List ParseTree} (inner : Builds ys parts)
      (rest : Builds xs trees) : Builds (ys ++ xs) (.group false parts :: trees)

theorem textAll_append (a b : List ParseTree) : textAll (a ++ b) = textAll a ++ textAll b := by
  induction a with
  | nil => rfl
  | cons tree a ih => rw [List.cons_append, textAll, ih, textAll, List.append_assoc]

theorem ParseTree.Stands.of_append {tree : ParseTree} {u v : Text} {a b : List ParseTree}
    (h : Stands tree u (a ++ b) v) :
    (∃ w, Stands tree u a w ∧ v = w ++ textAll b) ∨
      ∃ w, Stands tree w b v ∧ u = textAll a ++ w := by
  induction a generalizing u v with
  | nil => exact .inr ⟨u, h, rfl⟩
  | cons first a ih =>
    cases h with
    | here => exact .inl ⟨textAll a, .here a, textAll_append a b⟩
    | later _ hrest =>
      rcases ih hrest with ⟨w, hw, rfl⟩ | ⟨w, hw, rfl⟩
      · exact .inl ⟨w, .later first hw, rfl⟩
      · exact .inr ⟨w, hw, by rw [textAll, List.append_assoc]⟩
    | inside parenthesis _ hpart =>
      exact .inl ⟨_, .inside parenthesis a hpart, by
        rw [List.append_eq, textAll_append, List.append_assoc]⟩

/-- No group stands in a leaf. -/
theorem stands_of_leaf {parenthesis : Bool} {parts trees : List ParseTree} {u v w : Text}
    (h : Stands (.group parenthesis parts) u (.leaf w :: trees) v) :
    ∃ u', Stands (.group parenthesis parts) u' trees v ∧ u = w ++ u' := by
  cases h with
  | later _ hrest => exact ⟨_, hrest, rfl⟩

namespace Builds

theorem textAll_eq {xs : List Lexeme} {trees : List ParseTree} (h : Builds xs trees) :
    textAll trees = xs.map Lexeme.char := by
  induction h with
  | nil => rfl
  | leaf x rest ih => rw [textAll, ParseTree.text, ih, List.map_cons, List.singleton_append]
  | parenthesis inner rest ihi ihr =>
    simp [textAll, ParseTree.text, textAll_append, ihi, ihr, Lexeme.char]
  | group inner rest ihi ihr => rw [textAll, ParseTree.text, ihi, ihr, List.map_append]

theorem append {xs ys : List Lexeme} {a b : List ParseTree} (ha : Builds xs a) (hb : Builds ys b) :
    Builds (xs ++ ys) (a ++ b) := by
  induction ha with
  | nil => exact hb
  | leaf x rest ih => exact .leaf x ih
  | parenthesis inner rest _ ih => simpa using Builds.parenthesis inner ih
  | group inner rest _ ih => simpa using Builds.group inner ih

/-- A parenthesis in a tree is a pair of lexemes with what stands between them. -/
theorem exists_of_stands {xs : List Lexeme} {trees parts : List ParseTree} {u v : Text}
    (h : Builds xs trees) (hstands : Stands (.group true parts) u trees v) :
    ∃ a b c, xs = a ++ .opening :: (b ++ .closing :: c) ∧ a.map Lexeme.char = u ∧
      textAll parts = '(' :: (b.map Lexeme.char ++ [')']) := by
  induction h generalizing u v with
  | nil => cases hstands
  | leaf x rest ih =>
    cases hstands with
    | later first hrest =>
      obtain ⟨a, b, c, rfl, rfl, hparts⟩ := ih hrest
      exact ⟨x :: a, b, c, rfl, rfl, hparts⟩
  | @parenthesis ys xs inside trees inner rest ihi ihr =>
    cases hstands with
    | here =>
      refine ⟨[], ys, xs, rfl, rfl, ?_⟩
      simp [textAll, ParseTree.text, textAll_append, inner.textAll_eq]
    | later first hrest =>
      obtain ⟨a, b, c, rfl, rfl, hparts⟩ := ihr hrest
      refine ⟨.opening :: (ys ++ .closing :: a), b, c, by simp, ?_, hparts⟩
      simp [ParseTree.text, textAll, textAll_append, inner.textAll_eq, Lexeme.char]
    | inside _ _ hpart =>
      obtain ⟨u, hin, rfl⟩ := stands_of_leaf hpart
      rcases hin.of_append with ⟨v, hinside, rfl⟩ | ⟨w, hlast, rfl⟩
      · obtain ⟨a, b, c, rfl, rfl, hparts⟩ := ihi hinside
        exact ⟨.opening :: a, b, c ++ .closing :: xs, by simp, rfl, hparts⟩
      · obtain ⟨w, hnone, rfl⟩ := stands_of_leaf hlast
        cases hnone
  | @group ys xs inside trees inner rest ihi ihr =>
    cases hstands with
    | later first hrest =>
      obtain ⟨a, b, c, rfl, rfl, hparts⟩ := ihr hrest
      exact ⟨ys ++ a, b, c, by simp, by simp [ParseTree.text, inner.textAll_eq], hparts⟩
    | inside _ _ hpart =>
      obtain ⟨a, b, c, rfl, rfl, hparts⟩ := ihi hpart
      exact ⟨a, b, c ++ xs, by simp, rfl, hparts⟩

end Builds

/-! ## The statements of the scanner -/

/-- The lexemes that have been read are those of the parts of each open parenthesis, which itself is
the first of them. -/
inductive Holds : List (List ParseTree) → List ParseTree → List Lexeme → Prop
  | bottom {level : List ParseTree} {xs : List Lexeme} (parts : Builds xs level.reverse) :
      Holds [] level xs
  | opened {around : List (List ParseTree)} {outer level parts : List ParseTree}
      {xs ys : List Lexeme} (before : Holds around outer xs) (inner : Builds ys parts)
      (hlevel : level.reverse = .leaf ['('] :: parts) :
      Holds (outer :: around) level (xs ++ .opening :: ys)

namespace Holds

variable {opened : List (List ParseTree)} {outer level : List ParseTree} {xs : List Lexeme}

theorem leaf (h : Holds opened level xs) (x : Lexeme) :
    Holds opened (.leaf [x.char] :: level) (xs ++ [x]) := by
  have hone : Builds [x] [.leaf [x.char]] := .leaf x .nil
  cases h with
  | bottom parts =>
    refine .bottom ?_
    rw [List.reverse_cons]
    exact parts.append hone
  | opened before inner hlevel =>
    rw [List.append_assoc, List.cons_append]
    refine .opened before (inner.append hone) ?_
    rw [List.reverse_cons, hlevel, List.cons_append]

theorem opening (h : Holds opened level xs) :
    Holds (level :: opened) [.leaf ['(']] (xs ++ [.opening]) :=
  .opened h .nil rfl

theorem closing (h : Holds (outer :: opened) level xs) :
    Holds opened (.group true (ParseTree.leaf [')'] :: level).reverse :: outer)
      (xs ++ [.closing]) := by
  cases h with
  | @opened _ _ _ parts xs ys before inner hlevel =>
    have hgroup : Builds (.opening :: (ys ++ [.closing]))
        [.group true (ParseTree.leaf [')'] :: level).reverse] := by
      rw [List.reverse_cons, hlevel]
      exact .parenthesis inner .nil
    have hsplit : xs ++ .opening :: ys ++ [.closing] =
        xs ++ .opening :: (ys ++ [.closing]) := by simp
    rw [hsplit]
    cases before with
    | bottom parts =>
      refine .bottom ?_
      rw [List.reverse_cons]
      exact parts.append hgroup
    | opened before inner' hlevel' =>
      rw [List.append_assoc, List.cons_append]
      refine .opened before (inner'.append hgroup) ?_
      rw [List.reverse_cons, hlevel', List.cons_append]

/-- The parentheses that stay open are parts like others. -/
theorem builds (h : Holds opened level xs) : Builds xs (partsOf opened level).reverse := by
  induction opened generalizing level xs with
  | nil =>
    cases h with
    | bottom parts => exact parts
  | cons outer opened ih =>
    cases h with
    | @opened _ _ _ parts xs ys before inner hlevel =>
      have hlevel : Builds (.opening :: ys) level.reverse := hlevel ▸ .leaf .opening inner
      refine ih ?_
      cases before with
      | bottom parts =>
        refine .bottom ?_
        rw [List.reverse_append]
        exact parts.append hlevel
      | opened before inner' hlevel' =>
        rw [List.append_assoc, List.cons_append]
        refine .opened before (inner'.append hlevel) ?_
        rw [List.reverse_append, hlevel', List.cons_append]

end Holds

theorem builds_statementsFrom {opened : List (List ParseTree)} {level : List ParseTree}
    {xs ys : List Lexeme} (h : Holds opened level xs) :
    Builds (xs ++ ys) (statementsFrom opened level ys) := by
  induction ys generalizing opened level xs with
  | nil => exact .group h.builds .nil
  | cons y ys ih =>
    have hstep {opened : List (List ParseTree)} {level : List ParseTree}
        (h : Holds opened level (xs ++ [y])) :
        Builds (xs ++ y :: ys) (statementsFrom opened level ys) := by
      simpa using ih h
    cases y with
    | plain c => exact hstep (h.leaf (.plain c))
    | opening => exact hstep h.opening
    | closing =>
      cases opened with
      | nil => exact hstep (h.leaf .closing)
      | cons outer opened => exact hstep h.closing
    | statementEnd =>
      have hrest : Builds ys (statementsFrom [] [] ys) := @ih [] [] [] (.bottom .nil)
      rw [← List.singleton_append, ← List.append_assoc]
      exact .group (h.leaf .statementEnd).builds hrest

theorem builds_scanner (sql : Text) :
    Builds (lexemesFrom 0 0 sql) (statementsFrom [] [] (lexemesFrom 0 0 sql)) :=
  @builds_statementsFrom [] [] [] _ (.bottom .nil)

/-! ## Strings -/

/-- Without backslashes a string ends where the literal does. -/
theorem stringTail?_eq_literalTail? {t : Text} (h : '\\' ∉ t) :
    stringTail? '\'' t = literalTail? t := by
  fun_induction literalTail? t with
  | case1 => rfl
  | case2 t n hn ih =>
    simp only [List.mem_cons, not_or] at h
    simp [stringTail?, ih h.2.2, hn]
  | case3 t hn ih =>
    simp only [List.mem_cons, not_or] at h
    simp [stringTail?, ih h.2.2, hn]
  | case4 c t hne hc =>
    obtain rfl := eq_of_beq hc
    cases t with
    | nil => rfl
    | cons d t =>
      have hd : ¬ d = '\'' := fun hd => hne t rfl (by rw [hd])
      simp [stringTail?, hd]
  | case5 c t hne hc ih =>
    simp only [List.mem_cons, not_or] at h
    have hslash : ¬ c = '\\' := Ne.symm h.1
    rw [← ih h.2]
    cases t <;> simp [stringTail?, hslash, show ¬ c = '\'' by simpa using hc]

/-- An opened literal is masked up to where it ends. -/
theorem maskOpen_eq_append {t : Text} {n : Nat} (h : literalTail? t = some n) :
    ∃ z, maskOpen t = z ++ maskLiterals (t.drop n) ∧ z.length = n ∧ z ≠ [] ∧
      ∀ c ∈ z, c = maskChar ∨ c = '\'' := by
  fun_induction literalTail? t generalizing n with
  | case1 => cases h
  | case2 t m hm ih =>
    obtain rfl := Option.some.inj h
    have ht := apostrophe_mem_of_literalTail? hm
    obtain ⟨z, hz, hlen, -, hchars⟩ := ih hm
    refine ⟨maskChar :: maskChar :: z, ?_, by simp [hlen], List.cons_ne_nil _ _, ?_⟩
    · rw [maskOpen_escape ht, hz]
      rfl
    · simpa using hchars
  | case3 t hm ih =>
    obtain rfl := Option.some.inj h
    have ht := literalTail?_eq_none_iff.1 hm
    refine ⟨['\''], ?_, rfl, List.cons_ne_nil _ _, by simp⟩
    rw [maskOpen_last_two ht, List.drop_one, List.tail_cons, maskLiterals_apostrophe,
      maskOpen_eq_self ht]
    rfl
  | case4 c t hne hc =>
    obtain rfl := Option.some.inj h
    obtain rfl := eq_of_beq hc
    refine ⟨['\''], ?_, rfl, List.cons_ne_nil _ _, by simp⟩
    have hhead : t.head? ≠ some '\'' := by
      intro hhead
      obtain ⟨r, rfl⟩ := List.head?_eq_some_iff.1 hhead
      exact hne r rfl rfl
    rw [maskOpen_apostrophe hhead]
    rfl
  | case5 c t hne hc ih =>
    obtain ⟨m, hm, rfl⟩ := Option.map_eq_some_iff.1 h
    have ht := apostrophe_mem_of_literalTail? hm
    obtain ⟨z, hz, hlen, -, hchars⟩ := ih hm
    refine ⟨maskChar :: z, ?_, by simp [hlen], List.cons_ne_nil _ _, ?_⟩
    · rw [maskOpen_cons (by simpa using hc) ht, hz]
      rfl
    · simpa using hchars

/-! ## The lexemes of tokens -/

/-- Beside quotes only comments are passed over. -/
theorem opaqueLength_eq_zero {c : Char} {t : Text} (h : Uncommented (c :: t)) (hc : c ≠ '\'')
    (hc' : c ≠ '"') : opaqueLength (c :: t) = 0 := by
  unfold opaqueLength
  split
  · rename_i heq
    exact absurd (List.cons.inj heq).1 hc
  · rename_i heq
    exact absurd (List.cons.inj heq).1 hc'
  · rename_i r heq
    rw [heq] at h
    exact absurd (List.prefix_append "--".toList r).isInfix h.noDashes
  · rename_i r heq
    rw [heq] at h
    exact absurd List.mem_cons_self h.noHash
  · rename_i r heq
    rw [heq] at h
    exact absurd (List.prefix_append "/*".toList r).isInfix h.noOpening
  · rfl

/-! ## Quoted names -/

theorem stringTail?_append {w r : Text} (hw : ∀ c ∈ w, isWordChar c = true) :
    stringTail? '"' (w ++ r) = (stringTail? '"' r).map (· + w.length) := by
  induction w with
  | nil => simp
  | cons c w ih =>
    have hc := hw c List.mem_cons_self
    have hquote : (c == '"') = false := by simpa using isWordChar_ne_quote hc
    have hslash : (c == '\\') = false := by
      rw [beq_eq_false_iff_ne]
      rintro rfl
      exact absurd hc (by decide)
    rw [List.cons_append, stringTail?.eq_def]
    simp only [hquote, hslash, Bool.false_eq_true, ite_false,
      ih fun d hd => hw d (List.mem_cons_of_mem c hd), Option.map_map]
    congr 1

theorem stringTail?_closing {r : Text} (hr : r.head? ≠ some '"') :
    stringTail? '"' ('"' :: r) = some 1 := by
  cases r with
  | nil => rfl
  | cons d r =>
    have hd : ¬ d = '"' := fun hd => hr (by rw [hd]; rfl)
    simp [stringTail?, hd]

theorem TokensOf.behind_name {t : Token} {n : Text} {ts : List Token}
    (h : TokensOf (textOf (t :: ts)) (t :: ts)) (hn : t.name? = some n) :
    TokensOf (textOf ts) ts :=
  ⟨h.lexed.tail, h.readable.tail.words, rfl, (@TokensOf.mask_around _ [] ts t n h hn).2⟩

/-- Names in quotes that follow one another directly are passed over together. -/
theorem exists_stringTail?_quoted {w : Text} {ts : List Token}
    (h : TokensOf (textOf (.quoted w :: ts)) (.quoted w :: ts)) :
    ∃ p q, ts = p ++ q ∧ TokensOf (textOf q) q ∧
      stringTail? '"' (w ++ '"' :: textOf ts) = some (w.length + 1 + (textOf p).length) := by
  induction ts generalizing w with
  | nil =>
    refine ⟨[], [], rfl, h.behind_name rfl, ?_⟩
    rw [stringTail?_append (h.words w List.mem_cons_self).2, stringTail?_closing (by simp)]
    simp [Nat.add_comm]
  | cons t ts ih =>
    have hw : ∀ c ∈ w, isWordChar c = true := (h.words w List.mem_cons_self).2
    have hrest := h.behind_name rfl
    have hfit := h.lexed.fit t (by simp)
    rw [stringTail?_append hw]
    by_cases hhead : (textOf (t :: ts)).head? = some '"'
    · have hquoted : ∃ v, t = .quoted v := by
        have hmask := @TokensOf.head?_textOf _ [] (t :: ts) (.quoted w) w h rfl
        rw [hhead] at hmask
        cases t with
        | quoted v => exact ⟨v, rfl⟩
        | word v =>
          obtain ⟨c, v, rfl⟩ := List.exists_cons_of_ne_nil hfit.1
          exact absurd (Option.some.inj hhead)
            (isWordChar_ne_quote (hfit.2 c List.mem_cons_self))
        | other c m => exact absurd (Option.some.inj hmask).symm hfit.2
      obtain ⟨v, rfl⟩ := hquoted
      obtain ⟨p, q, rfl, hq, hread⟩ := ih hrest
      refine ⟨.quoted v :: p, q, rfl, hq, ?_⟩
      have htext : textOf (.quoted v :: (p ++ q)) = '"' :: (v ++ '"' :: textOf (p ++ q)) := by
        simp [Token.text, inQuotes]
      have hlen : (textOf (.quoted v :: p)).length = v.length + 2 + (textOf p).length := by
        simp only [textOf_cons, Token.text, inQuotes, List.length_append, List.length_cons,
          List.length_nil]
      rw [htext, stringTail?.eq_def]
      simp only [beq_self_eq_true, ite_true, hread, Option.map_some, hlen]
      congr 1
      omega
    · refine ⟨[], t :: ts, rfl, hrest, ?_⟩
      rw [stringTail?_closing hhead]
      simp [Nat.add_comm]

/-! ## Tokens that are passed over -/

/-- The scan passes over some tokens at the beginning, and what is behind them is masked on its
own. -/
def PassesOver (ts : List Token) : Prop :=
  ∃ p q, ts = p ++ q ∧ p ≠ [] ∧ textOf p ≠ [] ∧ TokensOf (textOf q) q ∧
    opaqueLength (textOf p ++ textOf q) = (textOf p).length

theorem passesOver_quoted {w : Text} {ts : List Token}
    (h : TokensOf (textOf (.quoted w :: ts)) (.quoted w :: ts)) : PassesOver (.quoted w :: ts) := by
  obtain ⟨p, q, rfl, hq, hread⟩ := exists_stringTail?_quoted h
  have htext : textOf (.quoted w :: p) ++ textOf q = '"' :: (w ++ '"' :: textOf (p ++ q)) := by
    simp [Token.text, inQuotes]
  refine ⟨.quoted w :: p, q, rfl, List.cons_ne_nil _ _, by simp [Token.text, inQuotes], hq, ?_⟩
  rw [htext, opaqueLength, hread]
  simp only [Option.map_some, Option.getD_some, textOf_cons, Token.text, inQuotes,
    List.length_append, List.length_cons, List.length_nil]
  omega

/-- What is behind a literal is masked on its own. -/
theorem TokensOf.behind_literal {m : Char} {ts : List Token} {n : Nat}
    (h : TokensOf (textOf (.other '\'' m :: ts)) (.other '\'' m :: ts))
    (hn : literalTail? (textOf ts) = some n) :
    ∃ p q, ts = p ++ q ∧ (textOf p).length = n ∧ TokensOf (textOf q) q := by
  obtain ⟨z, hz, hlen, hne, hchars⟩ := maskOpen_eq_append hn
  have hmask : maskOf ts = z ++ maskLiterals ((textOf ts).drop n) := by
    have := h.mask
    rw [textOf_cons, Token.text, List.singleton_append, maskLiterals_apostrophe, hz] at this
    exact (List.cons.inj this).2
  have hlast : z.getLast?.any isInName = false := by
    rw [List.getLast?_eq_some_getLast hne, Option.any_some]
    rcases hchars _ (List.getLast_mem hne) with hc | hc <;> rw [hc] <;> rfl
  obtain ⟨p, q, rfl, rfl, hq⟩ := h.lexed.tail.exists_cut h.readable.tail.words hmask hlast
  rw [length_maskOf] at hlen
  refine ⟨p, q, rfl, hlen, (Lexed.of_append h.lexed.tail).2,
    (QuotesHoldWords.of_append h.readable.tail.words).2, rfl, ?_⟩
  rw [← hq, textOf_append, ← hlen, List.drop_left]

/-- An apostrophe opens a literal, or none follows it. -/
theorem passesOver_literal {m : Char} {ts : List Token}
    (h : TokensOf (textOf (.other '\'' m :: ts)) (.other '\'' m :: ts))
    (hplain : Uncommented ('\'' :: textOf ts)) :
    PassesOver (.other '\'' m :: ts) ∨
      opaqueLength ('\'' :: textOf ts) = 0 ∧ TokensOf (textOf ts) ts := by
  have hstring : stringTail? '\'' (textOf ts) = literalTail? (textOf ts) :=
    stringTail?_eq_literalTail? (@Uncommented.of_append ['\''] _ hplain).noBackslash
  cases hn : literalTail? (textOf ts) with
  | some n =>
    left
    obtain ⟨p, q, rfl, hlen, hq⟩ := h.behind_literal hn
    have htext : textOf (.other '\'' m :: p) ++ textOf q = '\'' :: textOf (p ++ q) := by
      simp [Token.text]
    refine ⟨.other '\'' m :: p, q, rfl, List.cons_ne_nil _ _, by simp [Token.text], hq, ?_⟩
    rw [htext, opaqueLength, hstring, hn]
    simp [Token.text, hlen]
  | none =>
    right
    have hno := literalTail?_eq_none_iff.1 hn
    refine ⟨by rw [opaqueLength, hstring, hn]; rfl, h.lexed.tail, h.readable.tail.words, rfl, ?_⟩
    have hmask := h.mask
    rw [textOf_cons, Token.text, List.singleton_append, maskLiterals_apostrophe,
      maskOpen_eq_self hno] at hmask
    rw [maskLiterals_eq_self hno]
    exact (List.cons.inj hmask).2

/-! ## Parentheses -/

/-- A parenthesis that counts is one in the mask. -/
def Lexeme.Agrees (m : Char) : Lexeme → Prop
  | .opening => m = '('
  | .closing => m = ')'
  | .plain _ | .statementEnd => True

/-- Every parenthesis that counts among the lexemes is one in the mask. -/
def Agree (xs : List Lexeme) (mask : Text) : Prop :=
  List.Forall₂ (fun x m => x.Agrees m) xs mask

theorem Agree.append {xs ys : List Lexeme} {u v : Text} (h : Agree xs u) (h' : Agree ys v) :
    Agree (xs ++ ys) (u ++ v) :=
  List.rel_append h h'

theorem agree_plain {u z : Text} (hlen : z.length = u.length) : Agree (u.map .plain) z := by
  rw [Agree, List.forall₂_map_left_iff]
  exact List.forall₂_iff_get.2 ⟨hlen.symm, fun _ _ _ => trivial⟩

theorem Agree.exists_at {a b : List Lexeme} {x : Lexeme} {mask : Text}
    (h : Agree (a ++ x :: b) mask) : ∃ m, mask[a.length]? = some m ∧ x.Agrees m := by
  have hlt : a.length < (a ++ x :: b).length := by simp
  have hlt' : a.length < mask.length := h.length_eq ▸ hlt
  have hx := h.get hlt hlt'
  rw [List.get_eq_getElem, List.get_eq_getElem, List.getElem_append_right (Nat.le_refl _)] at hx
  simp only [Nat.sub_self, List.getElem_cons_zero] at hx
  exact ⟨_, List.getElem?_eq_getElem hlt', hx⟩

theorem lexemesFrom_covered (depth : Int) (u t : Text) :
    lexemesFrom u.length depth (u ++ t) = u.map .plain ++ lexemesFrom 0 depth t := by
  induction u with
  | nil => rfl
  | cons c u ih => rw [List.length_cons, List.cons_append, lexemesFrom, ih]; rfl

/-- A string is passed over. -/
theorem lexemesFrom_string (depth : Int) {u t : Text} (hu : u ≠ [])
    (h : opaqueLength (u ++ t) = u.length) :
    lexemesFrom 0 depth (u ++ t) = u.map .plain ++ lexemesFrom 0 depth t := by
  obtain ⟨c, u, rfl⟩ := List.exists_cons_of_ne_nil hu
  rw [List.cons_append] at h ⊢
  rw [lexemesFrom, h, List.length_cons]
  simp only
  rw [lexemesFrom_covered]
  rfl

theorem lexemesFrom_cons (depth : Int) {c : Char} {t : Text} (h : opaqueLength (c :: t) = 0) :
    ∃ x d, lexemesFrom 0 depth (c :: t) = x :: lexemesFrom 0 d t ∧ x.Agrees c ∧
      (c ∉ ['(', ')', ';'] → x = .plain c ∧ d = depth) := by
  rw [lexemesFrom, h]
  simp only
  split
  · rename_i hc
    obtain rfl := eq_of_beq hc
    exact ⟨_, _, rfl, rfl, fun hno => absurd hno (by decide)⟩
  split
  · rename_i hc
    obtain rfl := eq_of_beq hc
    exact ⟨_, _, rfl, rfl, fun hno => absurd hno (by decide)⟩
  split
  · rename_i hc
    obtain rfl := eq_of_beq (Bool.and_eq_true_iff.1 hc).1
    exact ⟨_, _, rfl, trivial, fun hno => absurd hno (by decide)⟩
  · exact ⟨_, _, rfl, trivial, fun _ => ⟨rfl, rfl⟩⟩

theorem lexemesFrom_word (depth : Int) {w t : Text} (hw : ∀ c ∈ w, isWordChar c = true)
    (h : Uncommented (w ++ t)) :
    lexemesFrom 0 depth (w ++ t) = w.map .plain ++ lexemesFrom 0 depth t := by
  induction w with
  | nil => rfl
  | cons c w ih =>
    have hc := hw c List.mem_cons_self
    have hne {d : Char} (hd : isWordChar d = false) : c ≠ d := by
      rintro rfl
      rw [hc] at hd
      cases hd
    have hmarks : c ∉ ['(', ')', ';'] := by
      intro hmem
      have hno : ∀ d ∈ ['(', ')', ';'], isWordChar d = false := by decide
      exact hne (hno c hmem) rfl
    have hcovers : opaqueLength (c :: (w ++ t)) = 0 :=
      opaqueLength_eq_zero h (hne (by decide)) (hne (by decide))
    obtain ⟨x, d, hlexemes, -, hplain⟩ := lexemesFrom_cons depth hcovers
    obtain ⟨rfl, rfl⟩ := hplain hmarks
    rw [List.cons_append, hlexemes,
      ih (fun d hd => hw d (List.mem_cons_of_mem c hd)) (@Uncommented.of_append [c] _ h)]
    rfl

/-- The parentheses that count among the lexemes of a text are those in its mask. -/
theorem lexemesFrom_tokens {ts : List Token} (h : TokensOf (textOf ts) ts)
    (hplain : Uncommented (textOf ts)) (depth : Int) :
    Agree (lexemesFrom 0 depth (textOf ts)) (maskOf ts) := by
  induction hlen : ts.length using Nat.strongRecOn generalizing ts depth with
  | ind n ih =>
  subst hlen
  cases ts with
  | nil => exact .nil
  | cons t ts =>
    -- Behind the first tokens the scan goes on.
    have hlater {p q : List Token} (hsplit : t :: ts = p ++ q) (hp : p ≠ []) (d : Int)
        (hq : TokensOf (textOf q) q) : Agree (lexemesFrom 0 d (textOf q)) (maskOf q) := by
      have hlt : q.length < (t :: ts).length := by
        have := congrArg List.length hsplit
        have := List.length_pos_iff.2 hp
        rw [List.length_append] at *
        omega
      rw [hsplit, textOf_append] at hplain
      exact ih q.length hlt hq hplain.of_append d rfl
    have hpassed (hover : PassesOver (t :: ts)) :
        Agree (lexemesFrom 0 depth (textOf (t :: ts))) (maskOf (t :: ts)) := by
      obtain ⟨p, q, hsplit, hp, hne, hq, hcovers⟩ := hover
      rw [hsplit, textOf_append, lexemesFrom_string depth hne hcovers, maskOf_append]
      exact (agree_plain (length_maskOf p)).append (hlater hsplit hp depth hq)
    cases t with
    | word w =>
      rw [textOf_cons, Token.text] at hplain ⊢
      rw [lexemesFrom_word depth (h.lexed.fit (.word w) List.mem_cons_self).2 hplain, maskOf_cons]
      exact (agree_plain rfl).append
        (@hlater [.word w] ts rfl (List.cons_ne_nil _ _) depth (h.behind_name rfl))
    | quoted w => exact hpassed (passesOver_quoted h)
    | other c m =>
      have hmask := h.mask
      rw [textOf_cons, Token.text, List.singleton_append] at hplain hmask ⊢
      have hrest (d : Int) (hq : TokensOf (textOf ts) ts) :=
        @hlater [.other c m] ts rfl (List.cons_ne_nil _ _) d hq
      by_cases hc : c = '\''
      · subst hc
        rcases passesOver_literal h hplain with hover | ⟨hcovers, hq⟩
        · exact hpassed hover
        · obtain ⟨x, d, hlexemes, -, hx⟩ := lexemesFrom_cons depth hcovers
          obtain ⟨rfl, rfl⟩ := hx (by decide)
          rw [hlexemes]
          exact .cons trivial (hrest d hq)
      · rw [maskLiterals_cons hc] at hmask
        obtain ⟨rfl, htail⟩ := List.cons.inj hmask
        have hquote : m ≠ '"' := (h.lexed.fit (.other m m) List.mem_cons_self).2
        obtain ⟨x, d, hlexemes, hx, -⟩ :=
          lexemesFrom_cons depth (opaqueLength_eq_zero hplain hc hquote)
        rw [hlexemes]
        exact .cons hx (hrest d ⟨h.lexed.tail, h.readable.tail.words, rfl, htail⟩)

/-! ## The scanner -/

theorem Parser.scanner_lawful : Parser.scanner.Lawful where
  covers hparse := by
    obtain rfl := Except.ok.inj hparse
    refine ⟨[], rfl, ?_⟩
    rw [(builds_scanner _).textAll_eq, map_char_lexemesFrom, List.append_nil]
  parenthesised hparse hstands := by
    obtain rfl := Except.ok.inj hparse
    obtain ⟨-, b, -, -, -, hparts⟩ := (builds_scanner _).exists_of_stands hstands
    exact ⟨b.map Lexeme.char, hparts⟩
  outside hparse hplain hstands := by
    obtain rfl := Except.ok.inj hparse
    obtain ⟨a, b, c, hlexemes, rfl, hparts⟩ := (builds_scanner _).exists_of_stands hstands
    obtain ⟨ts, hts, -⟩ := hplain.tokens
    obtain rfl := hts.text
    have hagree := lexemesFrom_tokens hts hplain.uncommented 0
    rw [hlexemes, hts.mask] at hagree
    obtain ⟨m, hopen, rfl⟩ := hagree.exists_at
    have hsplit : a ++ .opening :: (b ++ .closing :: c) =
        (a ++ .opening :: b) ++ .closing :: c := by simp
    obtain ⟨m, hclose, rfl⟩ := (hsplit ▸ hagree).exists_at
    have hlast : (a.map Lexeme.char).length + ('(' :: (b.map Lexeme.char ++ [')'])).length - 1 =
        (a ++ .opening :: b).length := by simp
    rw [hparts, hlast, List.length_map]
    exact ⟨hopen, hclose⟩

end QueryGate
