import QueryGate.Gate.Outcome
import QueryGate.Repair
import QueryGate.Schema.Registry

/-!
# Existence of tables

The third tier resolves every table that a query names. A table exists under its name regardless
of case, or under a name that is longer or shorter by a part after an underscore; in the second
case the query gets the name that exists, qualifiers included. Then near misses of names are
repaired. A table that cannot be resolved is a violation; a column is not.
-/

namespace QueryGate

namespace Existence

inductive Resolution
  | named (table : Table)
  | bySuffix (table : Table)
  | unknown

/-- The first table whose name is that of the reference but for a part after an underscore. -/
def bySuffix? (tables : List Table) (name : Text) : Option Table :=
  tables.find? fun t =>
    (lower name ++ ['_']).isPrefixOf (lower t.name)
      || (lower t.name ++ ['_']).isPrefixOf (lower name)

def resolve (tables : List Table) (name : Text) : Resolution :=
  match findTable? tables name with
  | some t => .named t
  | none =>
    match bySuffix? tables name with
    | some t => .bySuffix t
    | none => .unknown

/-! ## Qualifiers -/

/-- The text after `name`, if the text begins with it regardless of case. -/
def sameBeginning? : (name t : Text) → Option Text
  | [], t => some t
  | _ :: _, [] => none
  | n :: name, c :: t => if sameLetter n c then sameBeginning? name t else none

/-- Reads a name, bare or in quotes, where a dot follows it; the value says whether it is quoted. -/
def qualifier (name : Text) : Reading Bool := fun before after =>
  let ifDotFollows (quoted : Bool) (rest : Text) : Option (Bool × Text) :=
    if (skipBlanks rest).head? == some '.' then some (quoted, rest) else none
  if before.head?.any fun c => isNamePart c || c == '.' || c == '"' then none
  else (sameBeginning? name after).bind (ifDotFollows false)
    <|> (sameBeginning? (inQuotes name) after).bind (ifDotFollows true)

/-- Replacements of a name, where it is a qualifier, by another. -/
def qualifierEdits (masked name target : Text) : List Edit :=
  (hits (qualifier name) masked).map fun h => ⟨h.start, h.stop, renderName target h.value⟩

/-! ## What the references come to -/

/-- What the references of a query come to: the tables meant, replacements and their notes. -/
structure Naming where
  tables : List Table
  edits : List Edit
  notes : List Text

/-- The line that tells of a table found by a suffix. -/
def suffixNote (name : Text) (t : Table) : Text :=
  "Table: " ++ arrow name t.name ++ " (table name suffix match)"

/-- Resolves references in turn, up to one that is unknown. -/
def naming (tables : List Table) (masked : Text) : List TableRef → Except Violation Naming
  | [] => .ok ⟨[], [], []⟩
  | r :: refs =>
    match resolve tables r.name with
    | .unknown => .error (.unknownTable r.name (tables.map (·.name)))
    | .named t => do
      let w ← naming tables masked refs
      return { w with tables := t :: w.tables }
    | .bySuffix t => do
      let w ← naming tables masked refs
      let edit : Edit := ⟨r.start, r.stop, renderName t.name r.quoted⟩
      return { tables := t :: w.tables
               edits := edit :: qualifierEdits masked r.name t.name ++ w.edits
               notes := suffixNote r.name t :: w.notes }

/-- The edits without those whose span an earlier one has. -/
def oncePerSpan (edits : List Edit) : List Edit :=
  edits.foldl (fun kept e => if kept.any (·.span == e.span) then kept else kept ++ [e]) []

end Existence

open Existence in
/-- The third tier. -/
def checkExistence (tables : List Table) (sql : Text) : Outcome :=
  match naming tables (maskLiterals sql) (tableRefs sql) with
  | .error v => .rejected .schema v
  | .ok w =>
    let renamed := applyEdits sql (oncePerSpan w.edits)
    let known := KnownNames.of (tables.map (·.name)) (columnsByTable (distinct w.tables))
    let repaired := repair known renamed
    if Text.hasPart ".." (maskLiterals repaired.sql) then .rejected .schema .doubleDot
    else
      let corrected := if repaired.sql = sql then none else some repaired.sql
      .accepted .schema corrected (w.notes ++ repaired.notes)

end QueryGate
