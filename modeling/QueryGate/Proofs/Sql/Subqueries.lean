import QueryGate.Proofs.Sql.ClauseScan
import QueryGate.Proofs.Sql.TextTokens
import QueryGate.Sql.Subquery

/-!
# Subqueries

What a parser makes of a text is not known beyond a few facts (`Parser.Lawful`): the statements are
the text, a group for a parenthesis is a part in parentheses, and these are no part of a string
where every lexer delimits the strings alike (`PlainlyDelimited`). So a subquery is a part of the
query in parentheses (`Parser.Lawful.exists_place`), it holds the word `SELECT` behind the first of
them (`Parser.Lawful.exists_select_of_subquery`), and no word is read in its mask that is not read
in that of the query (`Parser.Lawful.not_occurs_of_subquery`).
-/

namespace QueryGate

/-! ## Trees in trees -/

namespace ParseTree

/-- A tree stands in one of several, or is one of them, with a text in front of it and one behind
it. -/
inductive Stands (tree : ParseTree) : Text → List ParseTree → Text → Prop
  | here (trees : List ParseTree) : Stands tree [] (tree :: trees) (textAll trees)
  | later {u v : Text} {trees : List ParseTree} (first : ParseTree) (rest : Stands tree u trees v) :
      Stands tree (first.text ++ u) (first :: trees) v
  | inside {u v : Text} {parts : List ParseTree} (parenthesis : Bool) (trees : List ParseTree)
      (part : Stands tree u parts v) :
      Stands tree u (.group parenthesis parts :: trees) (v ++ textAll trees)

theorem Stands.textAll_eq {tree : ParseTree} {u v : Text} {trees : List ParseTree}
    (h : Stands tree u trees v) : textAll trees = u ++ (tree.text ++ v) := by
  induction h with
  | here trees => rfl
  | later first rest ih => rw [textAll, ih, List.append_assoc]
  | inside parenthesis trees part ih =>
    rw [textAll, text, ih]
    simp

theorem mem_found_andThen {w next : Walk} {s : Text} (h : s ∈ (w.andThen next).found) :
    s ∈ w.found ∨ s ∈ next.found := by
  unfold Walk.andThen at h
  split at h
  · exact .inl h
  · exact List.mem_append.1 h

mutual

/-- What the walk through a tree finds is a parenthesis in it, or the tree itself. -/
theorem exists_stands_of_mem_found (room : Nat) (s : Text) (trees : List ParseTree) :
    ∀ tree : ParseTree, s ∈ (tree.subqueries room).found → ∃ u parts v,
      Stands (.group true parts) u (tree :: trees) v ∧ textAll parts = s ∧ isSubquery s = true
  | .leaf _, h => by
    rw [subqueries] at h
    cases h
  | .group parenthesis parts, h => by
    have hown (h : s ∈ if parenthesis && isSubquery (textAll parts) then [textAll parts] else []) :
        parenthesis = true ∧ textAll parts = s ∧ isSubquery s = true := by
      split at h
      · rename_i hboth
        obtain rfl := List.mem_singleton.1 h
        rw [Bool.and_eq_true] at hboth
        exact ⟨hboth.1, rfl, hboth.2⟩
      · cases h
    have hhere (h : parenthesis = true ∧ textAll parts = s ∧ isSubquery s = true) :
        ∃ u parts' v, Stands (.group true parts') u (.group parenthesis parts :: trees) v ∧
          textAll parts' = s ∧ isSubquery s = true := by
      obtain ⟨rfl, hs⟩ := h
      exact ⟨[], parts, textAll trees, .here trees, hs⟩
    cases room with
    | zero => exact hhere (hown h)
    | succ room =>
      rcases mem_found_andThen h with h | h
      · exact hhere (hown h)
      · obtain ⟨u, parts', v, hstands, hs⟩ := exists_stands_of_mem_foundAll room s parts h
        exact ⟨u, parts', v ++ textAll trees, .inside parenthesis trees hstands, hs⟩

theorem exists_stands_of_mem_foundAll (room : Nat) (s : Text) :
    ∀ trees : List ParseTree, s ∈ (subqueriesAll room trees).found → ∃ u parts v,
      Stands (.group true parts) u trees v ∧ textAll parts = s ∧ isSubquery s = true
  | [], h => by
    rw [subqueriesAll] at h
    cases h
  | tree :: trees, h => by
    rw [subqueriesAll] at h
    rcases mem_found_andThen h with h | h
    · exact exists_stands_of_mem_found room s trees tree h
    · obtain ⟨u, parts, v, hstands, hs⟩ := exists_stands_of_mem_foundAll room s trees h
      exact ⟨tree.text ++ u, parts, v, .later tree hstands, hs⟩

end

end ParseTree

/-! ## Parsers -/

/-- A text with nothing in it that a lexer could take for an escape or a comment. -/
structure Uncommented (t : Text) : Prop where
  noBackslash : '\\' ∉ t
  noHash : '#' ∉ t
  noDashes : ¬ "--".toList <:+: t
  noOpening : ¬ "/*".toList <:+: t

theorem Uncommented.of_append {a b : Text} (h : Uncommented (a ++ b)) : Uncommented b :=
  ⟨fun hmem => h.noBackslash (List.mem_append_right a hmem),
    fun hmem => h.noHash (List.mem_append_right a hmem),
    fun hin => h.noDashes (hin.trans (List.suffix_append a b).isInfix),
    fun hin => h.noOpening (hin.trans (List.suffix_append a b).isInfix)⟩

/-- Characters that delimit strings or names in one dialect or another, beside the two quotes. -/
def foreignQuotes : List Char := ['`', '´', '[', '$']

/-- A text in which every lexer finds the same strings: outside these double quotes stand around
single words only, and no other character delimits anything. -/
structure PlainlyDelimited (sql : Text) : Prop where
  uncommented : Uncommented sql
  tokens : ∃ ts, TokensOf sql ts ∧ ∀ c m, .other c m ∈ ts → m ∉ foreignQuotes

namespace Parser

/-- What is known of a parser. -/
structure Lawful (parser : Parser) : Prop where
  /-- Nothing of a text is lost but blanks behind the last statement. -/
  covers : ∀ {sql statements}, parser.parse sql = .ok statements →
    ∃ g, allBlank g = true ∧ sql = ParseTree.textAll statements ++ g
  /-- A group that is a parenthesis begins with one and ends with one. -/
  parenthesised : ∀ {sql statements u parts v}, parser.parse sql = .ok statements →
    ParseTree.Stands (.group true parts) u statements v →
    ∃ inner, ParseTree.textAll parts = '(' :: (inner ++ [')'])
  /-- Neither of the two is part of a string. -/
  outside : ∀ {sql statements u parts v}, parser.parse sql = .ok statements →
    PlainlyDelimited sql → ParseTree.Stands (.group true parts) u statements v →
    (maskLiterals sql)[u.length]? = some '(' ∧
      (maskLiterals sql)[u.length + (ParseTree.textAll parts).length - 1]? = some ')'

/-- A text can be parsed, and the walk through its tree comes to its end. A parser that does not
validate what it reads fails only where a text is too large for it or nested too deep. -/
def Reads (parser : Parser) (sql : Text) : Prop := (parser.subqueries sql).fault? = none

instance (parser : Parser) (sql : Text) : Decidable (parser.Reads sql) :=
  inferInstanceAs (Decidable ((parser.subqueries sql).fault? = none))

end Parser

/-! ## Words in parentheses -/

/-- A word that is read between parentheses is read as well in a text around them. -/
theorem oneWord_isSome_of_parenthesised {words : List Text} (hwords : OfLetters words)
    {u z v a b : Text} (hab : '(' :: (z ++ [')']) = a ++ b)
    (h : (oneWord words a.reverse b).isSome = true) :
    a ≠ [] ∧ (oneWord words (u ++ a).reverse (b ++ v)).isSome = true := by
  rw [oneWord_isSome_eq, Bool.and_eq_true] at h
  obtain ⟨hstart, hread⟩ := h
  obtain ⟨w, hw, x, r, rfl, hspells, hend⟩ := oneWord_isSome_iff.1 hread
  have hx := isWord_of_spells (hwords w hw).1 (hwords w hw).2 hspells
  have hane : a ≠ [] := by
    rintro rfl
    obtain ⟨c, x, rfl⟩ := List.exists_cons_of_ne_nil hx.1
    obtain ⟨rfl, -⟩ := List.cons.inj hab
    exact absurd (hx.2 _ List.mem_cons_self) (by decide)
  have hrne : r ≠ [] := by
    rintro rfl
    have hlast := congrArg List.getLast? hab
    rw [List.append_nil, List.getLast?_append, List.getLast?_eq_some_getLast hx.1, Option.some_or,
      ← List.cons_append, List.getLast?_concat] at hlast
    exact absurd (hx.2 _ (List.getLast_mem hx.1)) (by rw [← Option.some.inj hlast]; decide)
  refine ⟨hane, ?_⟩
  rw [List.append_assoc]
  refine oneWord_isSome ?_ hw hspells ?_
  · obtain ⟨c, y, hy⟩ := List.exists_cons_of_ne_nil (List.reverse_ne_nil_iff.2 hane)
    rw [hy] at hstart
    rw [List.reverse_append, hy]
    exact hstart
  · obtain ⟨c, y, rfl⟩ := List.exists_cons_of_ne_nil hrne
    exact hend

theorem occurs_oneWord_of_parenthesised {words : List Text} (hwords : OfLetters words)
    {u z v : Text} (h : occurs (oneWord words) ('(' :: (z ++ [')'])) = true) :
    occurs (oneWord words) (u ++ ('(' :: (z ++ [')']) ++ v)) = true := by
  obtain ⟨a, b, hab, hb, hread⟩ := occurs_eq_true_iff.1 h
  refine occurs_eq_true_iff.2 ⟨u ++ a, b ++ v, by rw [hab]; simp, by simp [hb],
    (oneWord_isSome_of_parenthesised hwords hab hread).2⟩

/-- A subquery begins with its parenthesis, blanks, and the word. -/
theorem exists_of_isSubquery {t : Text} (h : isSubquery t = true) :
    ∃ g x r, t = '(' :: (g ++ (x ++ r)) ∧ allBlank g = true ∧ Spells "SELECT" x ∧
      atWordEnd r = true := by
  unfold isSubquery at h
  split at h
  case h_2 => cases h
  rename_i t
  obtain ⟨r, hr, hend⟩ := (Option.any_eq_true _ _).1 h
  obtain ⟨x, hx, hspells⟩ := keyword?_eq_some_iff.1 hr
  obtain ⟨g, hg, ht⟩ := exists_blanks_append_skipBlanks t
  exact ⟨g, x, r, by rw [← hx, ← ht], hg, hspells, hend⟩

/-- A character that is not masked cuts the mask: what stands before it and what stands behind it is
masked on its own. -/
theorem maskLiterals_append_cons {a b : Text} {c : Char} (hc : c ≠ '\'') (hmask : c ≠ maskChar)
    (h : (maskLiterals (a ++ c :: b))[a.length]? = some c) :
    maskLiterals (a ++ c :: b) = maskLiterals a ++ c :: maskLiterals b := by
  have hlt : a.length < (maskLiterals (a ++ c :: b)).length := by simp
  have hcut := List.take_append_drop a.length (maskLiterals (a ++ c :: b))
  rw [List.drop_eq_getElem_cons hlt, (List.getElem?_eq_some_iff.1 h).2] at hcut
  obtain ⟨ha, hb, -⟩ := maskLiterals_around (x := [c]) (by simpa using Ne.symm hc)
    ⟨c, rfl, hmask⟩ (by simp) hcut.symm
  rw [← ha, ← hb, hcut]

/-! ## Subqueries of a text -/

namespace Parser.Lawful

variable {parser : Parser} {sql s : Text}

/-- A subquery is a part of the text in parentheses, which are no part of a string. -/
theorem exists_place (h : parser.Lawful) (hs : s ∈ (parser.subqueries sql).found) :
    ∃ u inner v, sql = u ++ (s ++ v) ∧ s = '(' :: (inner ++ [')']) ∧ isSubquery s = true ∧
      (PlainlyDelimited sql → (maskLiterals sql)[u.length]? = some '(' ∧
        (maskLiterals sql)[u.length + s.length - 1]? = some ')') := by
  unfold Parser.subqueries at hs
  cases hparse : parser.parse sql with
  | error message =>
    rw [hparse] at hs
    cases hs
  | ok statements =>
    rw [hparse] at hs
    obtain ⟨u, parts, v, hstands, rfl, hsub⟩ := ParseTree.exists_stands_of_mem_foundAll _ s _ hs
    obtain ⟨g, -, hsql⟩ := h.covers hparse
    obtain ⟨inner, hinner⟩ := h.parenthesised hparse hstands
    refine ⟨u, inner, v ++ g, ?_, hinner, hsub, fun hplain => h.outside hparse hplain hstands⟩
    rw [hsql, hstands.textAll_eq, ParseTree.text]
    simp

/-- Without a parenthesis there are no subqueries. -/
theorem found_eq_nil (h : parser.Lawful) (hno : '(' ∉ sql) :
    (parser.subqueries sql).found = [] := by
  rw [List.eq_nil_iff_forall_not_mem]
  intro s hs
  obtain ⟨u, inner, v, rfl, rfl, -⟩ := h.exists_place hs
  exact hno (by simp)

/-- A subquery holds the word `SELECT` behind its parenthesis. -/
theorem exists_select_of_subquery (h : parser.Lawful)
    (hs : s ∈ (parser.subqueries sql).found) :
    ∃ a b, sql = a ++ b ∧ a ≠ [] ∧ (wholeWord "SELECT" a.reverse b).isSome = true := by
  obtain ⟨u, inner, v, rfl, rfl, hsub, -⟩ := h.exists_place hs
  obtain ⟨g, x, r, hsplit, hg, hspells, hend⟩ := exists_of_isSubquery hsub
  have hstart : atWordStart ('(' :: g).reverse = true := by
    rw [List.reverse_cons]
    cases hrev : g.reverse with
    | nil => rfl
    | cons c z =>
      have hc : c ∈ g := by
        rw [← List.mem_reverse, hrev]
        exact List.mem_cons_self
      simp [atWordStart, isWordChar_eq_false_of_isBlank (List.all_eq_true.1 hg c hc)]
  have hread := oneWord_isSome_of_parenthesised (u := u) (v := v) (by decide) hsplit
    (oneWord_isSome hstart (List.mem_singleton_self _) hspells hend)
  exact ⟨u ++ '(' :: g, x ++ r ++ v, by rw [hsplit]; simp, by simp, hread.2⟩

/-- In a text whose strings are the same for every lexer a subquery is masked as in the query. -/
theorem exists_maskLiterals_eq (h : parser.Lawful) (hplain : PlainlyDelimited sql)
    (hs : s ∈ (parser.subqueries sql).found) :
    ∃ u v z, maskLiterals sql = u ++ (maskLiterals s ++ v) ∧
      maskLiterals s = '(' :: (z ++ [')']) := by
  obtain ⟨u, inner, v, rfl, rfl, -, hmarks⟩ := h.exists_place hs
  obtain ⟨hopen, hclose⟩ := hmarks hplain
  have hsplit : u ++ ('(' :: (inner ++ [')']) ++ v) = u ++ '(' :: (inner ++ ')' :: v) := by simp
  have hlast : u.length + ('(' :: (inner ++ [')'])).length - 1 =
      (maskLiterals u).length + (inner.length + 1) := by
    rw [length_maskLiterals]
    simp
  rw [hsplit] at hopen hclose ⊢
  have hsql := maskLiterals_append_cons (by decide) (by decide) hopen
  rw [hsql, hlast, List.getElem?_append_right (Nat.le_add_right _ _), Nat.add_sub_cancel_left,
    List.getElem?_cons_succ] at hclose
  have hbehind := maskLiterals_append_cons (by decide) (by decide) hclose
  refine ⟨maskLiterals u, maskLiterals v, maskLiterals inner, ?_, ?_⟩
  · rw [hsql, hbehind, maskLiterals_cons (by decide),
      maskLiterals_append_of_not_mem _ (by decide)]
    simp
  · rw [maskLiterals_cons (by decide), maskLiterals_append_of_not_mem _ (by decide)]

/-- A word that is read in the mask of a subquery is read in that of the query. -/
theorem not_occurs_of_subquery (h : parser.Lawful) (hplain : PlainlyDelimited sql)
    {words : List Text} (hwords : OfLetters words)
    (hno : occurs (oneWord words) (maskLiterals sql) = false)
    (hs : s ∈ (parser.subqueries sql).found) :
    occurs (oneWord words) (maskLiterals s) = false := by
  obtain ⟨u, v, z, hsql, hz⟩ := h.exists_maskLiterals_eq hplain hs
  rw [Bool.eq_false_iff]
  intro hoccurs
  rw [hz] at hoccurs
  have hin := occurs_oneWord_of_parenthesised hwords (u := u) (v := v) hoccurs
  rw [← hz, ← hsql, hno] at hin
  cases hin

end Parser.Lawful

end QueryGate
