import QueryGate.Sql.Alias
import QueryGate.Sql.Clause
import QueryGate.Sql.Items
import QueryGate.Sql.Vocabulary

/-!
# Items of a select list

An item is an expression and perhaps an alias. The alias is the last name of the item, if what
stands before it is complete: a name after an operator word belongs to the expression, and a
reserved word is no alias.
-/

namespace QueryGate

/-- The text without a leading `DISTINCT` or `ALL`. -/
def skipQuantifier (t : Text) : Text :=
  let body := skipBlanks t
  match (keyword? "DISTINCT" body).bind spaced? <|> (keyword? "ALL" body).bind spaced? with
  | some rest => rest
  | none => t

/-- The characters that an expression before an alias may end with. -/
def endsExpression (c : Char) : Bool := isWordChar c || c == '"' || c == ')' || c == ']'

/-- Words after which an expression is still incomplete. -/
def operatorWords : List Text :=
  ["AND", "OR", "NOT", "CASE", "WHEN", "THEN", "ELSE", "DISTINCT", "IS", "IN", "LIKE"]

/-- The shortest expression with an alias behind it: how long it is, with its text from the end
backwards, and the alias. -/
def splitAlias? (before : Text) : Text → Option (Text × Identifier)
  | [] => none
  | c :: after =>
    let before := c :: before
    match if endsExpression c then aliasOnly? after else none with
    | some i => some (before, i)
    | none => splitAlias? before after

/-- The offset where the expression of the item between two offsets ends. -/
def expressionEnd (masked : Text) (start stop : Nat) : Nat :=
  let item := Text.slice masked start stop
  let body := skipQuantifier item
  match splitAlias? [] body with
  | none => stop
  | some (expression, i) =>
    if !i.quoted && isReserved i.name then stop
    else if endsWithWord operatorWords expression then stop
    else start + (item.length - body.length) + expression.length

/-- The alias that the item between two offsets declares. -/
def itemAlias? (masked : Text) (start stop : Nat) : Option Text :=
  let e := expressionEnd masked start stop
  if e = stop then none
  else
    let tail := Text.slice masked e stop
    let tail := match spaced? tail with
      | none => tail
      | some t => ((keyword? "AS" t).bind spaced?).getD t
    let name := (Identifier.ofText (trim tail)).name
    if name.isEmpty then none else some name

/-- The items of every select list. -/
def selectItems (masked : Text) : List Span :=
  (selectLists masked).flatMap fun s => topLevelItems masked s.start s.stop

end QueryGate
