import QueryGate.Proofs.Sql.LiteralMask
import QueryGate.Proofs.Sql.TableScan

/-!
# Queries with a list of tables

The syntax of a query around the list of its `FROM`: sources in a row, each behind a comma or a
`JOIN` with its condition, and each a table or a query in parentheses. What the list does not
determine is free text (`Piece`): the select list, conditions, queries in parentheses and what
follows the list.

A query is written with a function that is applied to its free pieces, so that the query and its
mask have one shape (`FromQuery.maskLiterals_sql`).
-/

namespace QueryGate

/-! ## Words and blanks -/

/-- Blanks, perhaps none. -/
structure Blanks where
  text : Text
  blank : allBlank text = true := by decide

/-- One or more blanks. -/
structure Gap extends Blanks where
  ne_nil : text ≠ [] := by decide

/-- A word as it is spelled, regardless of case. -/
structure Spelling (word : Text) where
  text : Text
  spells : Spells word text := by decide

/-- A spelling that is a keyword by its small letters, too. -/
structure Keyword (word : Text) extends Spelling word where
  keyword : isKeyword text = true := by decide +kernel

/-! ## Names -/

/-- Reads `FROM` or `JOIN` and a blank. -/
def spacedSource : Reading Unit := fun before after =>
  if atWordStart before then
    sourceWords.findSome? fun word => ((keyword? word after).bind spaced?).map ((), ·)
  else none

/-- A plain word that is no keyword, nor read as one. -/
def isPlainWord (w : Text) : Bool :=
  w.head?.any isNameStart && w.all isWordChar && !isKeyword w &&
    !sqlKeywords.any fun k => decide (Spells k w)

/-- A name that can stand between double quotes: in it no literal and no list of tables begins. -/
def isQuotable (name : Text) : Bool :=
  !name.isEmpty && !name.contains '"' && !name.contains '\'' && !occurs spacedSource name

namespace Identifier

/-- An identifier as it is written. -/
def written (i : Identifier) : Text := if i.quoted then inQuotes i.name else i.name

/-- Whether an identifier is a plain word or a quoted name. -/
def isPlain (i : Identifier) : Bool := if i.quoted then isQuotable i.name else isPlainWord i.name

end Identifier

/-- A plain word or a quoted name. -/
structure PlainName where
  identifier : Identifier
  plain : identifier.isPlain = true := by decide +kernel

def PlainName.text (n : PlainName) : Text := n.identifier.written

/-- The name of a table, perhaps with a qualifier and blanks around the dot. -/
structure TableName where
  qualifier? : Option (PlainName × Blanks × Blanks)
  name : PlainName

namespace TableName

/-- What stands in front of the name itself. -/
def lead (t : TableName) : Text :=
  match t.qualifier? with
  | none => []
  | some (q, before, after) => q.text ++ (before.text ++ '.' :: after.text)

def text (t : TableName) : Text := t.lead ++ t.name.text

end TableName

/-- An alias, with or without `AS`. -/
structure Alias where
  as? : Option (Spelling "AS" × Gap)
  name : PlainName

def Alias.text (a : Alias) : Text :=
  match a.as? with
  | none => a.name.text
  | some (word, gap) => word.text ++ (gap.text ++ a.name.text)

/-! ## Free text -/

/-- Free text: its literals are closed, if no quoted name holds an apostrophe, and it introduces no
table but in parentheses. -/
structure Piece where
  text : Text
  even : text.count '\'' % 2 = 0 := by decide
  closed : isClosed (maskLiterals text) = true := by decide +kernel

/-- A query in parentheses. -/
structure Subquery extends Piece where
  opens : '(' ∈ text.head? := by decide
  closes : ')' ∈ text.getLast? := by decide

/-- The condition of a `JOIN`, apart from the word `ON`. -/
structure Condition extends Piece where
  apart : text.head?.any isNamePart = false := by decide

/-- What stands before a `FROM`, apart from it: the `FROM` is neither an argument of a function such
as `EXTRACT` nor that of `IS DISTINCT FROM`. -/
structure Head extends Piece where
  ne_nil : text ≠ [] := by decide
  apart : text.getLast?.any isNamePart = false := by decide
  plain : followsWord ["DISTINCT"] (maskLiterals text).reverse = false := by decide +kernel
  outside : (enclosingCall? 0 (maskLiterals text).reverse).any
    fromArgumentFunctions.contains = false := by decide +kernel

/-- What follows a list of tables. -/
structure Tail where
  text : Text
  apart : text.head?.any (fun c => isNamePart c || c == '\'') = false := by decide
  ends : (skipBlanks text).head?.any (fun c => c == '.' || c == '(') = false := by decide

/-! ## Sources -/

/-- What a list of tables is made of: a table that may have an alias, or a query with an alias. -/
inductive Source
  | table (name : TableName) (alias? : Option (Gap × Alias))
  | derived (query : Subquery) (gap : Blanks) (name : Alias)

/-- An alias as it is written, with the blanks in front of it. -/
def aliasText : Option (Gap × Alias) → Text
  | none => []
  | some (gap, a) => gap.text ++ a.text

namespace Source

/-- A source as it is written, where `f` is applied to free text. -/
def text (f : Text → Text) : Source → Text
  | table name alias? => name.text ++ aliasText alias?
  | derived query gap a => f query.text ++ (gap.text ++ a.text)

def isTable : Source → Bool
  | table .. => true
  | derived .. => false

end Source

/-- A source behind `FROM` or `JOIN`. -/
structure Introduced where
  gap : Blanks
  source : Source
  apart : source.isTable = true → gap.text ≠ [] := by decide

/-- Words that may stand in front of `JOIN`. -/
def joinKinds : List Text := ["INNER", "LEFT", "RIGHT", "FULL", "OUTER", "CROSS", "NATURAL"]

/-- A word in front of `JOIN`, with the blanks in front of it. -/
structure JoinKind where
  gap : Gap
  word : Text
  mem : word ∈ joinKinds := by decide
  spelling : Keyword word

/-- Words in front of `JOIN` as they are written. -/
def kindsText (kinds : List JoinKind) : Text := kinds.flatMap fun k => k.gap.text ++ k.spelling.text

/-- A source behind `JOIN`, with its condition. -/
structure Join where
  kinds : List JoinKind
  gap : Gap
  word : Keyword "JOIN"
  target : Introduced
  gapOn : Gap
  on : Spelling "ON"
  condition : Condition

/-- A source behind the first one. -/
inductive Item
  | comma (before after : Blanks) (source : Source)
  | join (j : Join)

namespace Item

def source : Item → Source
  | comma _ _ s => s
  | join j => j.target.source

/-- What stands before the source. -/
def lead : Item → Text
  | comma before after _ => before.text ++ ',' :: after.text
  | join j => kindsText j.kinds ++ (j.gap.text ++ (j.word.text ++ j.target.gap.text))

/-- What stands behind the source. -/
def trail (f : Text → Text) : Item → Text
  | comma .. => []
  | join j => j.gapOn.text ++ (j.on.text ++ f j.condition.text)

/-- An item as it is written. -/
def text (f : Text → Text) (i : Item) : Text := i.lead ++ (i.source.text f ++ i.trail f)

end Item

/-- A query with a list of tables. -/
structure FromQuery where
  head : Head
  word : Spelling "FROM"
  first : Introduced
  items : List Item
  tail : Tail

namespace FromQuery

/-- What follows the first source, as it is written. -/
def restText (f : Text → Text) (items : List Item) (tail : Tail) : Text :=
  items.flatMap (·.text f) ++ f tail.text

/-- A query as it is written. -/
def text (f : Text → Text) (q : FromQuery) : Text :=
  f q.head.text ++ (q.word.text ++ (q.first.gap.text ++ (q.first.source.text f ++
    restText f q.items q.tail)))

/-- The text of a query. -/
def sql (q : FromQuery) : Text := q.text id

end FromQuery

/-! ## The tables of a list -/

/-- How a table of a list is introduced. -/
inductive Link
  /-- It is the first source, or behind a comma after tables and commas only. -/
  | leading
  | joined
  /-- It is behind a comma, after a `JOIN` or a query in parentheses. -/
  | detached
deriving DecidableEq, Repr

/-- A table of a list, with the offset of its name. -/
structure Placed where
  table : TableName
  start : Nat
  link : Link

/-- The table that a source is, where the source starts at an offset. -/
def Source.placed (start : Nat) (link : Link) : Source → List Placed
  | table name _ => [⟨name, start + name.lead.length, link⟩]
  | derived .. => []

namespace Item

/-- How the source of an item is introduced, where `run` says that only tables and commas
precede. -/
def link (run : Bool) : Item → Link
  | comma .. => if run then .leading else .detached
  | join _ => .joined

/-- Whether an item is a table behind a comma. -/
def isListed : Item → Bool
  | comma _ _ s => s.isTable
  | join _ => false

end Item

/-- The tables of items that start at an offset. -/
def placedItems (start : Nat) (run : Bool) : List Item → List Placed
  | [] => []
  | i :: items =>
    i.source.placed (start + i.lead.length) (i.link run) ++
      placedItems (start + (i.text id).length) (run && i.isListed) items

namespace FromQuery

/-- Where the first source of a query starts. -/
def firstStart (q : FromQuery) : Nat :=
  q.head.text.length + (q.word.text.length + q.first.gap.text.length)

/-- The tables of the list of a query. -/
def tables (q : FromQuery) : List Placed :=
  q.first.source.placed q.firstStart .leading ++
    placedItems (q.firstStart + (q.first.source.text id).length) q.first.source.isTable q.items

end FromQuery

/-! ## What names are made of -/

/-- The parts of being a plain word. -/
structure PlainWord (w : Text) : Prop where
  starts : ∃ c u, w = c :: u ∧ isNameStart c = true
  chars : ∀ c ∈ w, isWordChar c = true
  not_keyword : isKeyword w = false
  not_spelling : ∀ k ∈ sqlKeywords, ¬ Spells k w

/-- The parts of being a name between quotes. -/
structure Quotable (name : Text) : Prop where
  ne_nil : name ≠ []
  no_quote : '"' ∉ name
  no_apostrophe : '\'' ∉ name
  quiet : occurs spacedSource name = false

theorem PlainWord.of_isPlainWord {w : Text} (h : isPlainWord w = true) : PlainWord w := by
  simp only [isPlainWord, Bool.and_eq_true, Bool.not_eq_true', List.any_eq_false,
    decide_eq_true_eq] at h
  obtain ⟨⟨⟨hstart, hchars⟩, hkeyword⟩, hspelling⟩ := h
  refine ⟨?_, List.all_eq_true.1 hchars, hkeyword, hspelling⟩
  cases w with
  | nil => cases hstart
  | cons c u => exact ⟨c, u, rfl, hstart⟩

theorem Quotable.of_isQuotable {name : Text} (h : isQuotable name = true) : Quotable name := by
  simp only [isQuotable, Bool.and_eq_true, Bool.not_eq_true', List.isEmpty_eq_false_iff,
    List.contains_eq_mem, decide_eq_false_iff_not] at h
  obtain ⟨⟨⟨hne, hquote⟩, hapostrophe⟩, hquiet⟩ := h
  exact ⟨hne, hquote, hapostrophe, hquiet⟩

namespace PlainName

theorem bare_or_quoted (n : PlainName) :
    (n.identifier.quoted = false ∧ n.text = n.identifier.name ∧ PlainWord n.identifier.name) ∨
      (n.identifier.quoted = true ∧ n.text = inQuotes n.identifier.name ∧
        Quotable n.identifier.name) := by
  have hplain := n.plain
  rw [Identifier.isPlain] at hplain
  rw [text, Identifier.written]
  cases hq : n.identifier.quoted with
  | false =>
    rw [hq] at hplain
    exact .inl ⟨rfl, rfl, .of_isPlainWord hplain⟩
  | true =>
    rw [hq] at hplain
    exact .inr ⟨rfl, rfl, .of_isQuotable hplain⟩

theorem no_apostrophe (n : PlainName) : '\'' ∉ n.text := by
  rcases n.bare_or_quoted with ⟨-, htext, hw⟩ | ⟨-, htext, hq⟩
  · rw [htext]
    exact fun hmem => absurd (hw.chars _ hmem) (by decide)
  · rw [htext, inQuotes]
    simp [hq.no_apostrophe]

theorem text_ne_nil (n : PlainName) : n.text ≠ [] := by
  rcases n.bare_or_quoted with ⟨-, htext, hw⟩ | ⟨-, htext, -⟩
  · obtain ⟨c, u, hcu, -⟩ := hw.starts
    rw [htext, hcu]
    exact List.cons_ne_nil _ _
  · rw [htext]
    exact List.cons_ne_nil _ _

end PlainName

/-! ## The mask of a query -/

theorem Blanks.no_apostrophe (b : Blanks) : '\'' ∉ b.text := not_mem_of_allBlank (by decide) b.blank

theorem Spelling.no_apostrophe {word : Text} (w : Spelling word)
    (hword : ∀ c ∈ word.map foldLetter, c.isLower = true) : '\'' ∉ w.text := fun hmem =>
  absurd (hword _ (w.spells.mem hmem)) (by decide)

theorem TableName.no_apostrophe (t : TableName) : '\'' ∉ t.text := by
  rw [TableName.text, TableName.lead]
  split
  · exact t.name.no_apostrophe
  · rename_i q before after _
    simp [q.no_apostrophe, before.no_apostrophe, after.no_apostrophe, t.name.no_apostrophe]

theorem Alias.no_apostrophe (a : Alias) : '\'' ∉ a.text := by
  rw [Alias.text]
  split
  · exact a.name.no_apostrophe
  · rename_i word gap _
    simp [word.no_apostrophe (by decide), gap.no_apostrophe, a.name.no_apostrophe]

theorem Alias.text_ne_nil (a : Alias) : a.text ≠ [] := by
  rw [Alias.text]
  split
  · exact a.name.text_ne_nil
  · simp [a.name.text_ne_nil]

theorem JoinKind.letters (k : JoinKind) : ∀ c ∈ k.word.map foldLetter, c.isLower = true := by
  have hletters : ∀ word ∈ joinKinds, ∀ c ∈ word.map foldLetter, c.isLower = true := by decide
  exact hletters _ k.mem

theorem Item.no_apostrophe_lead (i : Item) : '\'' ∉ i.lead := by
  cases i with
  | comma before after s => simp [lead, before.no_apostrophe, after.no_apostrophe]
  | join j =>
    have hkinds : '\'' ∉ kindsText j.kinds := by
      rw [kindsText, List.mem_flatMap]
      rintro ⟨k, -, hk⟩
      rcases List.mem_append.1 hk with hk | hk
      · exact k.gap.no_apostrophe hk
      · exact k.spelling.no_apostrophe k.letters hk
    simp only [lead, List.mem_append, not_or]
    exact ⟨hkinds, j.gap.no_apostrophe, j.word.no_apostrophe (by decide),
      j.target.gap.no_apostrophe⟩

theorem Item.lead_ne_nil (i : Item) : i.lead ≠ [] := by
  cases i with
  | comma before after s => simp [lead]
  | join j => simp [lead, j.gap.ne_nil]

theorem head?_append_ne {c : Char} {u : Text} (hc : c ∉ u) (hu : u ≠ []) (t : Text) :
    (u ++ t).head? ≠ some c := by
  cases u with
  | nil => exact absurd rfl hu
  | cons d u =>
    intro h
    exact hc (Option.some.inj h ▸ List.mem_cons_self)

theorem Piece.maskLiterals_append (p : Piece) {t : Text} (ht : t.head? ≠ some '\'') :
    maskLiterals (p.text ++ t) = maskLiterals p.text ++ maskLiterals t :=
  maskLiterals_append_of_even p.even (.inr ht)

theorem Source.maskLiterals_append (s : Source) (t : Text) :
    maskLiterals (s.text id ++ t) = s.text maskLiterals ++ maskLiterals t := by
  cases s with
  | table name alias? =>
    have halias : '\'' ∉ aliasText alias? := by
      cases alias? with
      | none => simp [aliasText]
      | some p => simp [aliasText, p.1.no_apostrophe, p.2.no_apostrophe]
    have htable : '\'' ∉ name.text ++ aliasText alias? := by simp [name.no_apostrophe, halias]
    exact maskLiterals_prepend htable t
  | derived query gap a =>
    have hfixed : '\'' ∉ gap.text ++ a.text := by simp [gap.no_apostrophe, a.no_apostrophe]
    have hne : gap.text ++ a.text ≠ [] := by simp [a.text_ne_nil]
    have htext : ∀ f : Text → Text,
        (Source.derived query gap a).text f = f query.text ++ (gap.text ++ a.text) := fun _ => rfl
    rw [htext, htext, List.append_assoc, id_eq,
      query.maskLiterals_append (head?_append_ne hfixed hne t), maskLiterals_prepend hfixed,
      List.append_assoc (maskLiterals query.text)]

theorem Source.length_text_maskLiterals (s : Source) :
    (s.text maskLiterals).length = (s.text id).length := by
  cases s <;> simp [text]

theorem Item.length_text_maskLiterals (i : Item) :
    (i.text maskLiterals).length = (i.text id).length := by
  cases i <;> simp [text, trail, Source.length_text_maskLiterals]

theorem Item.maskLiterals_append (i : Item) {t : Text} (ht : t.head? ≠ some '\'') :
    maskLiterals (i.text id ++ t) = i.text maskLiterals ++ maskLiterals t := by
  have htrail : maskLiterals (i.trail id ++ t) = i.trail maskLiterals ++ maskLiterals t := by
    cases i with
    | comma before after s => rfl
    | join j =>
      simp only [Item.trail, id_eq]
      rw [List.append_assoc, List.append_assoc, maskLiterals_prepend j.gapOn.no_apostrophe,
        maskLiterals_prepend (j.on.no_apostrophe (by decide)),
        j.condition.maskLiterals_append ht, List.append_assoc, List.append_assoc]
  rw [Item.text, List.append_assoc, maskLiterals_prepend i.no_apostrophe_lead, List.append_assoc,
    Source.maskLiterals_append, htrail, Item.text, List.append_assoc, List.append_assoc]

namespace FromQuery

theorem restText_cons (f : Text → Text) (i : Item) (items : List Item) (tail : Tail) :
    restText f (i :: items) tail = i.text f ++ restText f items tail := by
  rw [restText, List.flatMap_cons, List.append_assoc, restText]

theorem head?_restText_ne (items : List Item) (tail : Tail) :
    (restText id items tail).head? ≠ some '\'' := by
  cases items with
  | nil =>
    intro h
    have := tail.apart
    simp only [restText, List.flatMap_nil, List.nil_append, id_eq] at h
    rw [h, Option.any_some] at this
    cases this
  | cons i items =>
    rw [restText_cons, Item.text, List.append_assoc]
    exact head?_append_ne i.no_apostrophe_lead i.lead_ne_nil _

theorem maskLiterals_restText (items : List Item) (tail : Tail) :
    maskLiterals (restText id items tail) = restText maskLiterals items tail := by
  induction items with
  | nil => rfl
  | cons i items ih =>
    rw [restText_cons, restText_cons, i.maskLiterals_append (head?_restText_ne items tail), ih]

/-- The mask of a query is the query with its free text masked. -/
theorem maskLiterals_sql (q : FromQuery) : maskLiterals q.sql = q.text maskLiterals := by
  have hword := q.word.no_apostrophe (by decide)
  have hne : q.word.text ≠ [] := fun h => by
    have := q.word.spells.length_eq
    rw [h] at this
    cases this
  simp only [sql, text, id_eq]
  rw [q.head.maskLiterals_append (head?_append_ne hword hne _), maskLiterals_prepend hword,
    maskLiterals_prepend q.first.gap.no_apostrophe, Source.maskLiterals_append,
    maskLiterals_restText]

end FromQuery

end QueryGate
