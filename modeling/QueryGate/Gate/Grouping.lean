import QueryGate.Fault
import QueryGate.Sql.SelectItem

/-!
# Agreement of `SELECT` and `GROUP BY`

Where a select list is followed by `GROUP BY`, each plain column of the list has to be a group
item: by its name, by its alias, or by its position in the list. Names are compared in small
letters and without qualifiers. Items with an aggregate call, and items that are no plain columns,
are not looked at.
-/

namespace QueryGate

namespace Grouping

/-- A column of a select list, with its alias. -/
structure SimpleColumn where
  column : Identifier
  aliasName : Option Identifier
deriving DecidableEq, Repr

/-- Reads an item that is a column, perhaps with a qualifier and an alias, and nothing else. -/
def simpleColumn? (item : Text) : Option SimpleColumn := do
  let n ← QualifiedName.read? isFoldedNameStart item
  if atEnd n.rest then return ⟨n.name, none⟩
  else return ⟨n.name, some (← aliasOnly? n.rest)⟩

/-- Reads an aggregate function with its opening parenthesis. -/
def aggregateCall : Reading Unit := fun before after =>
  if atWordStart before then
    aggregateFunctions.findSome? fun f =>
      match (keyword? f after).map skipBlanks with
      | some ('(' :: rest) => some ((), rest)
      | _ => none
  else none

/-- A text with each run of blanks made one space. -/
def squeeze : Text → Text
  | [] => []
  | c :: t =>
    if isBlank c then
      if t.head?.any isBlank then squeeze t else ' ' :: squeeze t
    else c :: squeeze t

/-- What groups the rows: names in small letters and positions in the select list. -/
structure Groups where
  names : List Text
  positions : List Nat

def Groups.add (g : Groups) (item : Text) : Except Fault Groups :=
  if !item.isEmpty && item.all isDigitLike then
    (readDigits item).map fun n => { g with positions := n :: g.positions }
  else match simpleColumn? item with
    | some ⟨i, none⟩ => .ok { g with names := lower i.name :: g.names }
    | _ => .ok { g with names := lower (squeeze item) :: g.names }

/-- The words that may begin the clause after a select statement's body. -/
def bodyEnds : List Text := ["GROUP", "UNION", "INTERSECT", "EXCEPT"]

/-- The words that end a list of groups. -/
def groupEnds : List Text :=
  ["HAVING", "ORDER", "LIMIT", "OFFSET", "WINDOW", "FETCH", "UNION", "INTERSECT", "EXCEPT"]

/-- The span of the `GROUP BY` list that belongs to a select list. -/
def groupSpan? (masked : Text) (list : Span) : Option Span :=
  let boundary := clauseEnd masked list.stop bodyEnds
  let after := masked.drop boundary
  match keywords? "GROUP" "BY" after with
  | none => none
  | some rest =>
    if atWordEnd rest then
      let start := boundary + (after.length - rest.length)
      some ⟨start, clauseEnd masked start groupEnds⟩
    else none

/-- Whether the groups cover a column at a position. -/
def Groups.covers (g : Groups) (position : Nat) (c : SimpleColumn) : Bool :=
  g.positions.contains position || g.names.contains (lower c.column.name)
    || c.aliasName.any fun a => g.names.contains (lower a.name)

/-- The column of a select item that the groups have to cover. -/
def groupedColumn? (item : Text) : Option SimpleColumn :=
  let item := skipQuantifier item
  if occurs aggregateCall item then none
  else (simpleColumn? item).filter fun c => c.column.quoted || !isKeyword c.column.name

/-- The columns of a select list that the groups do not cover, by name. -/
def uncovered (sql : Text) (g : Groups) : (position : Nat) → List Span → List Text
  | _, [] => []
  | position, s :: items =>
    match groupedColumn? (Text.slice sql s.start s.stop) with
    | some c =>
      if g.covers position c then uncovered sql g (position + 1) items
      else c.column.name :: uncovered sql g (position + 1) items
    | none => uncovered sql g (position + 1) items

/-- The uncovered columns of one select list. -/
def uncoveredIn (sql masked : Text) (list : Span) : Except Fault (List Text) :=
  match groupSpan? masked list with
  | none => .ok []
  | some s => do
    let items := (topLevelItems masked s.start s.stop).map fun i => Text.slice sql i.start i.stop
    let groups ← items.foldlM Groups.add ⟨[], []⟩
    return uncovered sql groups 1 (topLevelItems masked list.start list.stop)

end Grouping

/-- The columns that are selected and not grouped, each once. -/
def ungroupedColumns (sql masked : Text) : Except Fault (List Text) := do
  let columns ← (selectLists masked).mapM (Grouping.uncoveredIn sql masked)
  return distinct columns.flatten

end QueryGate
