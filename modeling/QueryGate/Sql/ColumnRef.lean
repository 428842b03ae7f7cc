import QueryGate.Sql.Literal
import QueryGate.Sql.SelectItem

/-!
# Places where a column may stand

Four readings find the places: a name with a qualifier, a name in quotes, a bare name, and a name
on the left of a comparison. What follows `FROM` or `JOIN` is a table, and what follows `AS` is an
alias, so neither is a column.
-/

namespace QueryGate

/-! ## Qualified names -/

/-- A column with its qualifier and the offsets of both. -/
structure QualifiedRef where
  qualifier : Identifier
  column : Identifier
  qualifierSpan : Span
  columnSpan : Span
  /-- Whether the name stands where a table is named, or a parenthesis follows it. -/
  isTableOrCall : Bool
deriving DecidableEq, Repr

/-- Reads `qualifier.column`, wherever it stands. -/
def qualifiedRef : Reading QualifiedRef := fun before after => do
  if before.head?.any fun c => isNamePart c || c == '.' || c == '"' then none
  else
    let n ← QualifiedName.read? isNameStart after
    let qualifier ← n.qualifier
    let (_, r) ← Identifier.read? isNameStart after
    let at_ := offsetOf before after
    return ({ qualifier := qualifier
              column := n.name
              qualifierSpan := ⟨before.length, at_ r⟩
              columnSpan := ⟨at_ n.onward, at_ n.rest⟩
              isTableOrCall := followsWord ["FROM", "JOIN"] before || opensCall n.rest }, n.rest)

/-- The columns with a qualifier. -/
def qualifiedRefs (masked : Text) : List QualifiedRef :=
  ((hits qualifiedRef masked).map (·.value)).filter (!·.isTableOrCall)

/-! ## Quoted names -/

/-- Reads a name in quotes; the value says whether a column may stand there. -/
def quotedName : Reading (Text × Bool) := fun before after =>
  match after with
  | '"' :: _ =>
    match Identifier.read? isNameStart after with
    | none => none
    | some (i, rest) =>
      let qualified := (skipBlanks before).head? == some '.' || (skipBlanks rest).head? == some '.'
      some ((i.name, !qualified && !followsWord ["FROM", "JOIN", "AS"] before), rest)
  | _ => none

/-- The names in quotes that may be columns without a qualifier. -/
def quotedNames (masked : Text) : List (Hit Text) :=
  (hits quotedName masked).filterMap fun h =>
    if h.value.2 then some ⟨h.start, h.stop, h.value.1⟩ else none

/-! ## Bare names -/

/-- Whether the character before a place makes the name there a part of something else. -/
def joinsName (c : Char) : Bool := isNamePart c || c == '.' || c == '"' || c == maskChar

/-- Whether the text before a place ends with `AS` or a cast, read from the place backwards. -/
def namesAliasOrType (before : Text) : Bool :=
  match skipBlanks before with
  | ':' :: ':' :: _ => true
  | r => endsWithWord ["AS"] r

/-- Reads a bare name of which nothing else is a part; the value says whether it may be a column,
where `head` characters of the text belong to what precedes the range that is read. -/
def bareName (head : Nat) : Reading (Text × Bool) := fun before after =>
  if before.head?.any joinsName then none
  else match after with
    | [] => none
    | c :: t =>
      let rest := t.dropWhile isNamePart
      if !isNameStart c || rest.head? == some '"' then none
      else
        let next := (skipBlanks rest).head?
        let inRange := before.take (before.length - head)
        let column := next != some '.' && next != some '(' && !namesAliasOrType inRange
        some ((c :: t.takeWhile isNamePart, column), rest)

/-- The bare names between two offsets that may be columns. -/
def bareNames (masked : Text) (start stop : Nat) : List (Hit Text) :=
  (hitsWithin (bareName start) masked start stop).filterMap fun h =>
    if h.value.2 then some ⟨h.start, h.stop, h.value.1⟩ else none

/-- The bare names in the expressions of the select lists. -/
def selectedNames (masked : Text) : List (Hit Text) :=
  (selectItems masked).flatMap fun s =>
    bareNames masked s.start (expressionEnd masked s.start s.stop)

/-! ## Left sides of comparisons -/

/-- Words that compare what stands before them. -/
def comparisonWords : List Text := ["IN", "LIKE", "ILIKE", "BETWEEN", "IS"]

/-- Whether a comparison follows a place, after blanks. -/
def comparisonFollows (before after : Text) : Bool :=
  let rest := skipBlanks after
  let gap := (after.take (after.length - rest.length)).reverse ++ before
  match rest with
  | '=' :: _ | '<' :: _ | '>' :: _ | '!' :: '=' :: _ => true
  | _ =>
    (oneWord comparisonWords gap rest).isSome ||
      (atWordStart gap && (keywords? "NOT" "IN" rest).any atWordEnd)

/-- The longest part of a name, at least its first character, that a comparison follows. The name
is given as what has been read of it, from its end backwards, and `steps` bounds what may be given
up. -/
def comparedPart? : (steps : Nat) → (name after : Text) → Option Text
  | 0, _, _ => none
  | steps + 1, name, after =>
    if comparisonFollows name after then some name.reverse
    else match name with
      | [] => none
      | c :: shorter => comparedPart? steps shorter (c :: after)

/-- Reads a bare name on the left of a comparison. -/
def comparedName : Reading Text := fun before after =>
  if before.head?.any joinsName then none
  else match after with
    | [] => none
    | c :: t =>
      if !isFoldedNameStart c then none
      else
        let name := c :: t.takeWhile isNamePart
        (comparedPart? name.length name.reverse (t.dropWhile isNamePart)).map fun part =>
          (part, after.drop part.length)

/-- The bare names that are compared between two offsets. -/
def comparedNames (masked : Text) (start stop : Nat) : List Text :=
  (hitsWithin comparedName masked start stop).map (·.value)

end QueryGate
