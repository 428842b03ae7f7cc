import QueryGate.Text.Basic

/-!
# Lexing literals and quoted identifiers

A lexer of SQL runs over a text once, from left to right. An apostrophe opens a string literal and a
double quote a quoted identifier, each of them only outside the other; two adjacent apostrophes
inside a literal are an escaped one. What belongs to neither is the rest.

The apostrophes before a place in the rest are those of whole literals, an even number, and those
inside quoted identifiers (`count_apostrophe`).
-/

namespace QueryGate

/-- Where a lexer stands in a text. -/
inductive LexState
  | rest
  | literal
  /-- Behind an apostrophe inside a literal, which closes it unless another one follows. -/
  | apostrophe
  | quotedName
deriving DecidableEq, Repr

namespace LexState

/-- What a character of the rest leads to. -/
def ofRest (c : Char) : LexState :=
  if c = '\'' then .literal else if c = '"' then .quotedName else .rest

/-- What a character leads to. -/
def next : LexState → Char → LexState
  | .rest, c => ofRest c
  | .literal, c => if c = '\'' then .apostrophe else .literal
  | .apostrophe, c => if c = '\'' then .literal else ofRest c
  | .quotedName, c => if c = '"' then .rest else .quotedName

/-- Whether a character that is no apostrophe belongs to the rest. -/
def isOutside : LexState → Bool
  | .rest | .apostrophe => true
  | .literal | .quotedName => false

/-- How many apostrophes the literal at hand is behind, up to pairs. -/
def opened : LexState → Nat
  | .literal => 1
  | .rest | .apostrophe | .quotedName => 0

end LexState

/-- Where a lexer stands behind a text. -/
def lexState (t : Text) : LexState := t.foldl LexState.next .rest

/-- The number of apostrophes inside quoted identifiers, from a state of the lexer on. -/
def quotedApostrophesFrom (s : LexState) : Text → Nat
  | [] => 0
  | c :: t =>
    (if s = .quotedName ∧ c = '\'' then 1 else 0) + quotedApostrophesFrom (s.next c) t

/-- The number of apostrophes inside quoted identifiers. -/
def quotedApostrophes (t : Text) : Nat := quotedApostrophesFrom .rest t

theorem quotedApostrophesFrom_append (s : LexState) (a b : Text) :
    quotedApostrophesFrom s (a ++ b) =
      quotedApostrophesFrom s a + quotedApostrophesFrom (a.foldl LexState.next s) b := by
  induction a generalizing s with
  | nil => simp [quotedApostrophesFrom]
  | cons c a ih =>
    rw [List.cons_append, quotedApostrophesFrom, quotedApostrophesFrom, ih, List.foldl_cons,
      Nat.add_assoc]

/-- One character keeps count: an apostrophe opens a literal, closes it, or is inside a quoted
identifier. -/
theorem LexState.opened_next (s : LexState) (c : Char) :
    ((if c = '\'' then 1 else 0) + s.opened) % 2 =
      ((if s = .quotedName ∧ c = '\'' then 1 else 0) + (s.next c).opened) % 2 := by
  by_cases hq : c = '\''
  · subst hq
    cases s <;> rfl
  by_cases hd : c = '"'
  · subst hd
    cases s <;> rfl
  · cases s <;> simp [next, ofRest, opened, hq, hd]

theorem count_apostrophe_from (s : LexState) (t : Text) :
    (t.count '\'' + s.opened) % 2 =
      (quotedApostrophesFrom s t + (t.foldl LexState.next s).opened) % 2 := by
  induction t generalizing s with
  | nil => simp [quotedApostrophesFrom]
  | cons c t ih =>
    have hstep := s.opened_next c
    have hrest := ih (s.next c)
    rw [List.count_cons, quotedApostrophesFrom, List.foldl_cons]
    simp only [beq_iff_eq]
    omega

/-- The apostrophes before a place in the rest are even or odd in number as those inside quoted
identifiers are. -/
theorem count_apostrophe {t : Text} (h : (lexState t).isOutside = true) :
    t.count '\'' % 2 = quotedApostrophes t % 2 := by
  have hcount := count_apostrophe_from .rest t
  have hopen : (t.foldl LexState.next .rest).opened = 0 := by
    unfold lexState at h
    cases hs : t.foldl LexState.next .rest <;> rw [hs] at h <;> first | rfl | cases h
  rw [hopen] at hcount
  exact hcount

end QueryGate
