import QueryGate.Sql.Alias
import QueryGate.Sql.Literal
import QueryGate.Sql.Vocabulary

/-!
# Table references

A table is named after `FROM` or `JOIN`, and after a comma in the list of a `FROM`. A name that an
opening parenthesis follows is a function, an unquoted keyword is no name, and a `FROM` inside the
arguments of a function such as `EXTRACT`, or in `IS DISTINCT FROM`, introduces no table.
-/

namespace QueryGate

/-- A table named in SQL. -/
structure TableRef where
  name : Text
  schema : Option Text
  aliasName : Option Text
  quoted : Bool
  /-- The offsets of the table name, its quotes included. -/
  start : Nat
  stop : Nat
  /-- The word that introduces the table, in capitals. -/
  keyword : Text
deriving DecidableEq, Repr

def TableRef.identifier (r : TableRef) : Identifier := ⟨r.name, r.quoted⟩

/-- The name in front of a parenthesis, in small letters, read from the parenthesis backwards;
blanks may stand in between. -/
def calledName (before : Text) : Text :=
  lower (((skipBlanks before).takeWhile isWordChar).reverse.dropWhile (!isNameStart ·))

/-- The name of the function whose arguments a place is in, read from the place backwards. -/
def enclosingCall? (depth : Nat) : (before : Text) → Option Text
  | [] => none
  | c :: before =>
    if c == ')' then enclosingCall? (depth + 1) before
    else if c == '(' then
      if depth = 0 then some (calledName before) else enclosingCall? (depth - 1) before
    else enclosingCall? depth before

/-- Whether a `FROM` at this place introduces a table. -/
def introducesTable (before : Text) : Bool :=
  !followsWord ["DISTINCT"] before &&
    !(enclosingCall? 0 before).any fromArgumentFunctions.contains

/-- What the first word of a table list says: the word in capitals, whether it introduces a table,
and the name after it. -/
structure TableSource where
  keyword : Text
  introduces : Bool
  name : QualifiedName

/-- Reads `FROM name` or `JOIN name`. -/
def tableSource : Reading TableSource := fun before after =>
  let source (word : Text) : Option (TableSource × Text) := do
    let rest ← (keyword? word after).bind spaced?
    let name ← QualifiedName.read? isFoldedNameStart rest
    let keyword := capitals (after.take word.length)
    return (⟨keyword, keyword ≠ "FROM" || introducesTable before, name⟩, name.rest)
  if atWordStart before then source "FROM" <|> source "JOIN" else none

/-- The reference that a name in a text of `size` characters makes, and what follows it, its alias
included. -/
def tableRef? (size : Nat) (keyword : Text) (n : QualifiedName) : Option (TableRef × Text) :=
  if opensCall n.rest || (!n.name.quoted && isKeyword n.name.name) then none
  else
    let (aliasName, rest) := match aliasAfter? n.rest with
      | some (i, rest) =>
        if i.quoted || !isKeyword i.name then (some i.name, rest) else (none, n.rest)
      | none => (none, n.rest)
    some ({ name := n.name.name
            schema := n.qualifier.map (·.name)
            aliasName := aliasName
            quoted := n.name.quoted
            start := size - n.onward.length
            stop := size - n.rest.length
            keyword := keyword }, rest)

/-- The text after a comma with blanks allowed around it. -/
def comma? (t : Text) : Option Text :=
  match skipBlanks t with
  | ',' :: r => some (skipBlanks r)
  | _ => none

/-- The references after a comma each; `steps` bounds their number. -/
def listedRefs (size : Nat) (keyword : Text) : (steps : Nat) → Text → List TableRef
  | 0, _ => []
  | steps + 1, t =>
    match (comma? t).bind (QualifiedName.read? isNameStart) |>.bind (tableRef? size keyword) with
    | none => []
    | some (r, rest) => r :: listedRefs size keyword steps rest

/-- The references that one `FROM` or `JOIN` makes. -/
def TableSource.refs (size : Nat) (s : TableSource) : List TableRef :=
  if !s.introduces then []
  else match tableRef? size s.keyword s.name with
    | none => []
    | some (r, rest) =>
      r :: if s.keyword = "FROM" then listedRefs size s.keyword rest.length rest else []

/-- The tables named in a text whose literals are masked. -/
def tableRefsIn (masked : Text) : List TableRef :=
  (hits tableSource masked).flatMap fun h => h.value.refs masked.length

def tableRefs (sql : Text) : List TableRef := tableRefsIn (maskLiterals sql)

end QueryGate
