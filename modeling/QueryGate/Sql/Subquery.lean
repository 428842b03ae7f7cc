import QueryGate.Fault
import QueryGate.Sql.ParseTree
import QueryGate.Text.Keyword

/-!
# Subqueries

A subquery is a `SELECT` in parentheses. Where the parentheses are is up to a parser, which may fail
on a text. The tree that it makes is walked group by group, and the walk fails where more groups
stand inside one another than there is room for.
-/

namespace QueryGate

/-- Whether a text in parentheses is a `SELECT`. -/
def isSubquery (t : Text) : Bool :=
  match t with
  | '(' :: r => (keyword? "SELECT" (skipBlanks r)).any atWordEnd
  | _ => false

/-- What a walk comes across, one after the other, and what breaks it off in the end, if anything
does. -/
structure Walk where
  found : List Text
  fault? : Option Fault
deriving DecidableEq, Repr

/-- One walk and then another, which is not begun if the first is broken off. -/
def Walk.andThen (w next : Walk) : Walk :=
  match w.fault? with
  | some _ => w
  | none => ⟨w.found ++ next.found, next.fault?⟩

namespace ParseTree

mutual

/-- The subqueries of a tree, an outer one before those inside it. There is room for so many groups
inside one another. -/
def subqueries (room : Nat) : ParseTree → Walk
  | .leaf _ => ⟨[], none⟩
  | .group parenthesis parts =>
    let own := if parenthesis && isSubquery (textAll parts) then [textAll parts] else []
    match room with
    | 0 => ⟨own, some .tooDeep⟩
    | room + 1 => Walk.andThen ⟨own, none⟩ (subqueriesAll room parts)

def subqueriesAll (room : Nat) : List ParseTree → Walk
  | [] => ⟨[], none⟩
  | tree :: trees => (tree.subqueries room).andThen (subqueriesAll room trees)

end

end ParseTree

/-- A parser, which makes a group of each statement or reports an error, and how many groups inside
one another can be walked through. -/
structure Parser where
  parse : Text → Except Text (List ParseTree)
  room : Nat

/-- The subqueries of a text, each with its parentheses. -/
def Parser.subqueries (parser : Parser) (sql : Text) : Walk :=
  match parser.parse sql with
  | .error message => ⟨[], some (.unparsed message)⟩
  | .ok statements => ParseTree.subqueriesAll parser.room statements

end QueryGate
