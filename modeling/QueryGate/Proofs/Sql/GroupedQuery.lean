import QueryGate.Gate.Grouping
import QueryGate.Proofs.Sql.ClauseScan
import QueryGate.Proofs.Text.Numeral

/-!
# Grouped queries

Columns and aggregate calls that are selected from one table and grouped by columns and positions
(`GroupedQuery`). A name in quotes may hold anything but quote characters, so it may look like a
part of the query. What the query as a whole does not depend on is proved for its tokens
(`FreeOf`): none of them but the four words of the query itself begins a clause.
-/

namespace QueryGate

/-! ## Names -/

/-- Whether an identifier is a plain word, or a quoted name that holds something and no quote
character. -/
def Identifier.isFree (i : Identifier) : Bool :=
  if i.quoted then !i.name.isEmpty && !i.name.contains '"' && !i.name.contains '\''
  else isPlainWord i.name

/-- A plain word, or a name in quotes whatever else it holds. -/
structure FreeName where
  identifier : Identifier
  free : identifier.isFree = true := by decide +kernel

namespace FreeName

def token (n : FreeName) : Token := n.identifier.token

/-- A name as it is compared: in small letters. -/
def small (n : FreeName) : Text := lower n.identifier.name

end FreeName

/-- The name of a column, perhaps with a qualifier and blanks around the dot. -/
structure ColumnName where
  qualifier? : Option (FreeName × Blanks × Blanks)
  name : FreeName

/-- An alias behind `AS`, with the blanks in front of both. -/
structure AsAlias where
  gap : Gap
  word : Spelling "AS"
  behind : Gap
  name : FreeName

/-- An aggregate function that is applied to a column. -/
structure AggregateCall where
  function : Text
  isAggregate : ∃ f ∈ aggregateFunctions, Spells f function := by decide
  gap : Blanks
  argument : Padded ColumnName

/-- What is selected. -/
inductive Expression
  | column (c : ColumnName)
  | call (a : AggregateCall)

/-- An item of a select list. -/
structure SelectItem where
  expression : Expression
  alias? : Option AsAlias

/-- An item of a list of groups. -/
inductive GroupItem
  | column (c : ColumnName)
  | position (digits : Text) (ne_nil : digits ≠ []) (decimal : ∀ c ∈ digits, c.isDigit = true)

/-- One or more items with commas between them. -/
structure Listing (α : Type) where
  first : Padded α
  more : List (Padded α)

namespace Listing

variable {α : Type}

def padded (l : Listing α) : List (Padded α) := l.first :: l.more

def items (l : Listing α) : List α := l.padded.map (·.item)

def last (l : Listing α) : Padded α := l.padded.getLast (List.cons_ne_nil _ _)

end Listing

/-- Columns and aggregate calls of one table, with the groups of its rows. -/
structure GroupedQuery where
  selectWord : Spelling "SELECT"
  columns : Listing SelectItem
  columnsApart : columns.first.before.text ≠ [] ∧ columns.last.after.text ≠ [] := by decide
  fromWord : Spelling "FROM"
  tableGap : Gap
  table : Text
  plain : isPlainWord table = true := by decide +kernel
  groupGap : Gap
  groupWord : Spelling "GROUP"
  byGap : Gap
  byWord : Spelling "BY"
  groups : Listing GroupItem
  groupsApart : groups.first.before.text ≠ [] := by decide

/-! ## Tokens -/

/-- Blanks as tokens. -/
def blankTokens (b : Blanks) : List Token := b.text.map fun c => .other c c

def Padded.tokens {α : Type} (write : α → List Token) (p : Padded α) : List Token :=
  blankTokens p.before ++ (write p.item ++ blankTokens p.after)

def Listing.tokens {α : Type} (write : α → List Token) (l : Listing α) : List Token :=
  l.first.tokens write ++ l.more.flatMap fun p => .other ',' ',' :: p.tokens write

def ColumnName.tokens (c : ColumnName) : List Token :=
  match c.qualifier? with
  | none => [c.name.token]
  | some (q, before, after) =>
    q.token :: (blankTokens before ++ .other '.' '.' :: (blankTokens after ++ [c.name.token]))

def AsAlias.tokens (a : AsAlias) : List Token :=
  blankTokens a.gap.toBlanks ++
    .word a.word.text :: (blankTokens a.behind.toBlanks ++ [a.name.token])

def AggregateCall.tokens (a : AggregateCall) : List Token :=
  .word a.function :: (blankTokens a.gap ++
    .other '(' '(' :: (a.argument.tokens ColumnName.tokens ++ [.other ')' ')']))

def Expression.tokens : Expression → List Token
  | column c => c.tokens
  | call a => a.tokens

def SelectItem.tokens (i : SelectItem) : List Token :=
  i.expression.tokens ++ (i.alias?.map AsAlias.tokens).getD []

def GroupItem.tokens : GroupItem → List Token
  | column c => c.tokens
  | position digits _ _ => [.word digits]

namespace GroupedQuery

/-- The tokens between `SELECT` and `FROM`. -/
def columnTokens (q : GroupedQuery) : List Token := q.columns.tokens SelectItem.tokens

/-- The tokens behind `GROUP BY`. -/
def groupTokens (q : GroupedQuery) : List Token := q.groups.tokens GroupItem.tokens

/-- The tokens between `FROM` and `GROUP`. -/
def tableTokens (q : GroupedQuery) : List Token :=
  blankTokens q.tableGap.toBlanks ++ .word q.table :: blankTokens q.groupGap.toBlanks

/-- The tokens from `GROUP` on. -/
def groupClause (q : GroupedQuery) : List Token :=
  .word q.groupWord.text :: (blankTokens q.byGap.toBlanks ++ .word q.byWord.text :: q.groupTokens)

/-- The tokens from `FROM` on. -/
def fromClause (q : GroupedQuery) : List Token :=
  .word q.fromWord.text :: (q.tableTokens ++ q.groupClause)

/-- The tokens from `FROM` up to `GROUP`. -/
def sourceTokens (q : GroupedQuery) : List Token := .word q.fromWord.text :: q.tableTokens

/-- The tokens in front of the groups. -/
def leadTokens (q : GroupedQuery) : List Token :=
  .word q.selectWord.text :: (q.columnTokens ++ .word q.fromWord.text :: (q.tableTokens ++
    .word q.groupWord.text :: (blankTokens q.byGap.toBlanks ++ [.word q.byWord.text])))

def tokens (q : GroupedQuery) : List Token :=
  .word q.selectWord.text :: (q.columnTokens ++ q.fromClause)

def text (q : GroupedQuery) : Text := textOf q.tokens

end GroupedQuery

/-! ## What has to be grouped -/

namespace GroupItem

/-- The name that an item groups by, as it is compared. -/
def name? : GroupItem → Option Text
  | column c => some c.name.small
  | position .. => none

/-- The position that an item groups by. -/
def position? : GroupItem → Option Nat
  | column _ => none
  | position digits _ _ => some (Nat.ofDigitChars 10 digits 0)

end GroupItem

namespace GroupedQuery

variable (q : GroupedQuery)

def groupNames : List Text := q.groups.items.filterMap GroupItem.name?

def positions : List Nat := q.groups.items.filterMap GroupItem.position?

/-- A column at a position of the select list is grouped by its position, its name or its alias. -/
def IsGrouped (position : Nat) (c : ColumnName) (alias? : Option AsAlias) : Prop :=
  position ∈ q.positions ∨ c.name.small ∈ q.groupNames ∨ ∃ a ∈ alias?, a.name.small ∈ q.groupNames

instance (position : Nat) (c : ColumnName) (alias? : Option AsAlias) :
    Decidable (q.IsGrouped position c alias?) :=
  inferInstanceAs (Decidable (_ ∨ _ ∨ _))

/-- The name of the item at a position, if it is a column that is not grouped. -/
def ungroupedName? (position : Nat) (i : SelectItem) : Option Text :=
  match i.expression with
  | .call _ => none
  | .column c => if q.IsGrouped position c i.alias? then none else some c.name.identifier.name

/-- The columns that are selected and not grouped, by name, each once. -/
def ungrouped : List Text :=
  distinct ((q.columns.items.zipIdx 1).filterMap fun (i, position) => q.ungroupedName? position i)

end GroupedQuery

/-! ## Tokens that begin no clause -/

def Token.isWord : Token → Bool
  | word _ => true
  | _ => false

/-- Tokens with nothing in them for the mask of literals, none of which is one of some words. -/
structure FreeOf (words : List Text) (ts : List Token) : Prop where
  lexed : Lexed ts
  unmasked : ∀ t ∈ ts, t.mask = t.text ∧ '\'' ∉ t.text
  avoids : ∀ x, .word x ∈ ts → ∀ w ∈ words, ¬ Spells w x

/-- The words that begin a clause or are read as the beginning of one. -/
def clauseWords : List Text := "SELECT" :: "BY" :: (selectListEnds ++ Grouping.groupEnds)

theorem IsWord.not_mem_apostrophe {w : Text} (h : IsWord w) : '\'' ∉ w := fun hmem =>
  absurd (h.2 _ hmem) (by decide)

theorem PlainWord.isWord {w : Text} (h : PlainWord w) : IsWord w := by
  obtain ⟨c, u, rfl, -⟩ := h.starts
  exact ⟨List.cons_ne_nil c u, h.chars⟩

theorem PlainWord.not_clauseWord {w : Text} (h : PlainWord w) : ∀ k ∈ clauseWords, ¬ Spells k w := by
  have hwords : ∀ k ∈ clauseWords, ∃ v ∈ sqlKeywords, k.map foldLetter = v.map foldLetter := by
    decide
  intro k hk hspells
  obtain ⟨v, hv, hfold⟩ := hwords k hk
  exact h.not_spelling v hv (hspells.trans hfold)

namespace FreeOf

variable {words words' : List Text} {ts us : List Token}

theorem nil : FreeOf words [] := ⟨.nil, nofun, nofun⟩

theorem mono (h : FreeOf words ts) (hsub : ∀ w ∈ words', w ∈ words) : FreeOf words' ts :=
  ⟨h.lexed, h.unmasked, fun x hx w hw => h.avoids x hx w (hsub w hw)⟩

theorem append (h : FreeOf words ts) (h' : FreeOf words us)
    (hcut : ts.getLast?.any Token.isWord = false ∨ us.head?.any Token.isWord = false) :
    FreeOf words (ts ++ us) := by
  refine ⟨?_, List.forall_mem_append.2 ⟨h.unmasked, h'.unmasked⟩, fun x hx => ?_⟩
  · refine ⟨List.forall_mem_append.2 ⟨h.lexed.fit, h'.lexed.fit⟩, fun p w v q hts => ?_⟩
    obtain ⟨a, rfl, ha⟩ | ⟨a, rfl, ha⟩ := List.append_eq_append_iff.1 hts
    · exact h'.lexed.apart a w v q ha
    · -- The two words would be on both sides of the cut.
      match a, ha with
      | [], ha => exact h'.lexed.apart [] w v q ha.symm
      | [t], ha =>
        obtain ⟨rfl, rfl⟩ := List.cons.inj ha
        simp [Token.isWord] at hcut
      | t :: u :: a, ha =>
        obtain ⟨ht, ha⟩ := List.cons.inj ha
        obtain ⟨hu, -⟩ := List.cons.inj ha
        exact h.lexed.apart p w v a (by rw [ht, hu])
  · exact (List.mem_append.1 hx).elim (h.avoids x) (h'.avoids x)

theorem cons_other {c : Char} (h : FreeOf words ts) (hc : isNamePart c = false) (hquote : c ≠ '"')
    (hapostrophe : c ≠ '\'') : FreeOf words (.other c c :: ts) :=
  ⟨h.lexed.cons_other ⟨hc, hquote⟩,
    List.forall_mem_cons.2 ⟨⟨rfl, by simpa [Token.text] using hapostrophe.symm⟩, h.unmasked⟩,
    fun x hx => h.avoids x ((List.mem_cons.1 hx).resolve_left nofun)⟩

theorem cons_word {x : Text} (h : FreeOf words ts) (hx : IsWord x)
    (hwords : ∀ w ∈ words, ¬ Spells w x) (hnext : ts.head?.any Token.isWord = false) :
    FreeOf words (.word x :: ts) := by
  refine ⟨h.lexed.cons hx fun _ v us hts => ?_,
    List.forall_mem_cons.2 ⟨⟨rfl, hx.not_mem_apostrophe⟩, h.unmasked⟩, fun y hy => ?_⟩
  · rw [hts] at hnext
    cases hnext
  · rcases List.mem_cons.1 hy with heq | hy
    · obtain rfl := Token.word.inj heq
      exact hwords
    · exact h.avoids y hy

theorem blanks (b : Blanks) : FreeOf words (blankTokens b) := by
  have hall : ∀ t : Text, (∀ c ∈ t, isBlank c = true) →
      FreeOf words (t.map fun c => .other c c) := by
    intro t ht
    induction t with
    | nil => exact nil
    | cons c t ih =>
      have hc := ht c List.mem_cons_self
      have hne : ∀ d, isBlank d = false → c ≠ d := by
        rintro d hd rfl
        rw [hc] at hd
        cases hd
      exact (ih fun d hd => ht d (List.mem_cons_of_mem c hd)).cons_other
        (isNamePart_eq_false_of_isBlank hc) (hne _ (by decide)) (hne _ (by decide))
  exact hall b.text (List.all_eq_true.1 b.blank)

theorem blanks_append (b : Blanks) (h : FreeOf words ts) : FreeOf words (blankTokens b ++ ts) := by
  refine (blanks b).append h (.inl ?_)
  rw [blankTokens, List.getLast?_map]
  cases b.text.getLast? <;> rfl

end FreeOf

theorem mem_blankTokens {b : Blanks} {t : Token} (ht : t ∈ blankTokens b) :
    ∃ c, isBlank c = true ∧ t = .other c c := by
  obtain ⟨c, hc, rfl⟩ := List.mem_map.1 ht
  exact ⟨c, List.all_eq_true.1 b.blank c hc, rfl⟩

@[simp] theorem maskOf_blankTokens (b : Blanks) : maskOf (blankTokens b) = b.text := by
  rw [blankTokens, maskOf, List.flatMap_map]
  exact List.flatMap_singleton' b.text

/-- No word begins behind blanks, or before a mark. -/
theorem head?_blankTokens_other (b : Blanks) (c m : Char) (ts : List Token) :
    (blankTokens b ++ .other c m :: ts).head?.any Token.isWord = false := by
  rw [blankTokens]
  cases b.text <;> rfl

theorem head?_gapTokens (g : Gap) (ts : List Token) :
    (blankTokens g.toBlanks ++ ts).head?.any Token.isWord = false := by
  rw [blankTokens]
  cases hg : g.text with
  | nil => exact absurd hg g.ne_nil
  | cons c t => rfl

/-! ## The parts of a query -/

theorem FreeName.bare_or_quoted (n : FreeName) :
    (n.token = .word n.identifier.name ∧ n.identifier.quoted = false ∧
        PlainWord n.identifier.name) ∨
      (n.token = .quoted n.identifier.name ∧ n.identifier.quoted = true ∧
        n.identifier.name ≠ [] ∧ '"' ∉ n.identifier.name ∧ '\'' ∉ n.identifier.name) := by
  have hfree := n.free
  rw [Identifier.isFree] at hfree
  rw [token, Identifier.token]
  cases hq : n.identifier.quoted with
  | false =>
    rw [hq] at hfree
    exact .inl ⟨rfl, rfl, .of_isPlainWord hfree⟩
  | true =>
    rw [hq] at hfree
    exact .inr ⟨rfl, rfl, by simpa [and_assoc] using hfree⟩

theorem FreeName.freeOf (n : FreeName) {ts : List Token} (h : FreeOf clauseWords ts)
    (hnext : ts.head?.any Token.isWord = false) : FreeOf clauseWords (n.token :: ts) := by
  rcases n.bare_or_quoted with ⟨htoken, -, hw⟩ | ⟨htoken, -, hne, hquote, hapostrophe⟩
  · rw [htoken]
    exact h.cons_word hw.isWord hw.not_clauseWord hnext
  · rw [htoken]
    have hfit : (Token.quoted n.identifier.name).Fit := by
      refine ⟨hne, fun c hc => ⟨?_, ?_⟩⟩
      · rintro rfl
        exact hquote hc
      · rintro rfl
        exact hapostrophe hc
    have hunmasked : '\'' ∉ (Token.quoted n.identifier.name).text := by
      simp [Token.text, inQuotes, hapostrophe]
    refine ⟨h.lexed.cons hfit fun hword => ?_,
      List.forall_mem_cons.2 ⟨⟨rfl, hunmasked⟩, h.unmasked⟩, fun x hx => ?_⟩
    · obtain ⟨w, hw⟩ := hword
      cases hw
    · exact h.avoids x ((List.mem_cons.1 hx).resolve_left Token.noConfusion)

theorem ColumnName.freeOf (c : ColumnName) : FreeOf clauseWords c.tokens := by
  rw [tokens]
  split
  · exact c.name.freeOf .nil rfl
  · rename_i q before after _
    have hname : FreeOf clauseWords (blankTokens after ++ [c.name.token]) :=
      .blanks_append after (c.name.freeOf .nil rfl)
    exact q.freeOf (.blanks_append before (hname.cons_other rfl (by decide) (by decide)))
      (head?_blankTokens_other ..)

theorem AsAlias.freeOf (a : AsAlias) : FreeOf clauseWords a.tokens := by
  have has : ∀ k ∈ clauseWords, k.map foldLetter ≠ "AS".toList.map foldLetter := by decide
  have hword : IsWord a.word.text := isWord_of_spells (by decide) (by decide) a.word.spells
  refine .blanks_append a.gap.toBlanks (.cons_word (.blanks_append _ (a.name.freeOf .nil rfl)) hword
    (fun k hk hspells => ?_) (head?_gapTokens ..))
  exact has k hk (hspells.symm.trans a.word.spells)

theorem Padded.freeOf {α : Type} {write : α → List Token} (p : Padded α)
    (h : FreeOf clauseWords (write p.item)) : FreeOf clauseWords (p.tokens write) := by
  refine .blanks_append p.before (h.append (.blanks p.after) (.inr ?_))
  rw [blankTokens]
  cases p.after.text <;> rfl

theorem isWord_of_mem_aggregateFunctions {f x : Text} (hf : f ∈ aggregateFunctions)
    (hx : Spells f x) : IsWord x := by
  have hletters : OfLetters aggregateFunctions := by decide
  exact isWord_of_spells (hletters f hf).1 (hletters f hf).2 hx

theorem AggregateCall.freeOf (a : AggregateCall) : FreeOf clauseWords a.tokens := by
  have hother : ∀ k ∈ clauseWords, ∀ f ∈ aggregateFunctions,
      k.map foldLetter ≠ f.map foldLetter := by
    decide
  obtain ⟨f, hf, hspells⟩ := a.isAggregate
  have hclosing : FreeOf clauseWords [.other ')' ')'] :=
    FreeOf.nil.cons_other rfl (by decide) (by decide)
  have hargument := (a.argument.freeOf a.argument.item.freeOf).append hclosing (.inr rfl)
  refine .cons_word (.blanks_append a.gap (hargument.cons_other rfl (by decide) (by decide)))
    (isWord_of_mem_aggregateFunctions hf hspells) (fun k hk hk' => ?_)
    (head?_blankTokens_other ..)
  exact hother k hk f hf (hk'.symm.trans hspells)

theorem SelectItem.freeOf (i : SelectItem) : FreeOf clauseWords i.tokens := by
  have hexpression : FreeOf clauseWords i.expression.tokens := by
    cases i.expression with
    | column c => exact c.freeOf
    | call a => exact a.freeOf
  rw [tokens]
  cases i.alias? with
  | none => exact hexpression.append .nil (.inr rfl)
  | some a => exact hexpression.append a.freeOf (.inr (head?_gapTokens ..))

theorem GroupItem.freeOf (g : GroupItem) : FreeOf clauseWords g.tokens := by
  have hletters : OfLetters clauseWords := by decide
  cases g with
  | column c => exact c.freeOf
  | position digits hne hdigits =>
    refine FreeOf.nil.cons_word ⟨hne, fun c hc => isWordChar_of_isDigit (hdigits c hc)⟩
      (fun k hk hspells => ?_) rfl
    obtain ⟨c, hc⟩ := List.exists_mem_of_ne_nil digits hne
    have hno := isDecimalDigit_eq_false_of_isLower_foldLetter ((hletters k hk).2 _ (hspells.mem hc))
    rw [isDecimalDigit_of_isDigit (hdigits c hc)] at hno
    cases hno

theorem Listing.freeOf {α : Type} {write : α → List Token}
    (h : ∀ i, FreeOf clauseWords (write i)) (l : Listing α) :
    FreeOf clauseWords (l.tokens write) := by
  have hmore : ∀ ps : List (Padded α), FreeOf clauseWords
      (ps.flatMap fun p => .other ',' ',' :: p.tokens write) ∧
      (ps.flatMap fun p => .other ',' ',' :: p.tokens write).head?.any Token.isWord = false := by
    intro ps
    induction ps with
    | nil => exact ⟨.nil, rfl⟩
    | cons p ps ih =>
      rw [List.flatMap_cons, List.cons_append]
      exact ⟨((p.freeOf (h _)).append ih.1 (.inr ih.2)).cons_other rfl (by decide) (by decide), rfl⟩
  exact (l.first.freeOf (h _)).append (hmore l.more).1 (.inr (hmore l.more).2)

end QueryGate
