import QueryGate.Matching.Score
import QueryGate.Matching.Synonyms

/-!
# Matching a name against known names

A name that does not exist is matched by the first of five strategies that finds one that does:
the same name in other letters, its plural or singular, a name that contains it or that it
contains, a synonym, and the most similar name. Within a strategy the earlier known name wins.
-/

namespace QueryGate

/-- How a name was found, in the order in which it is tried. -/
inductive Strategy
  | exact
  | plural
  | part
  | synonym
  | similar
deriving DecidableEq, Repr

def Strategy.label : Strategy → Text
  | .exact => "exact"
  | .plural => "plural_singular"
  | .part => "substring"
  | .synonym => "semantic"
  | .similar => "edit_distance"

/-- A known name that was found for a candidate. -/
structure NameMatch where
  name : Text
  strategy : Strategy
  score : Score
  /-- The similarity in percent, if the strategy measures one. -/
  percent : Option Nat
deriving DecidableEq

namespace Matching

/-- The candidate itself, or else the first name that differs in case and separators only. -/
def identical? (candidate : Text) (known : List Text) : Option NameMatch :=
  let same (name : Text) : Bool :=
    lower name == lower candidate
      || (!(normalForm candidate).isEmpty && normalForm name == normalForm candidate)
  let found := if known.contains candidate then some candidate else known.find? same
  found.map fun name => ⟨name, .exact, Score.exact, none⟩

/-- The first plural or singular of the candidate. -/
def plural? (candidate : Text) (known : List Text) : Option NameMatch :=
  (known.find? (isPluralPair candidate)).map fun name => ⟨name, .plural, Score.plural, none⟩

/-- The first name that contains the candidate or is contained in it, and is similar enough. -/
def part? (candidate : Text) (known : List Text) : Option NameMatch :=
  let form := normalForm candidate
  if form.isEmpty then none
  else known.findSome? fun name =>
    let other := normalForm name
    if other.isEmpty || !(Text.hasPart form other || Text.hasPart other form) then none
    else
      let s := similarity candidate name
      if Score.partThreshold < s then some ⟨name, .part, Score.part, some s.percent⟩ else none

/-- The first synonym of the candidate. -/
def synonym? (candidate : Text) (known : List Text) : Option NameMatch :=
  let group := synonyms candidate
  (known.find? fun name => group.contains (normalForm name)).map fun name =>
    ⟨name, .synonym, Score.synonym, none⟩

/-- The similarity of a name, raised if the context (in small letters) mentions the name. -/
def rating (candidate context name : Text) : Score :=
  let s := similarity candidate name
  let s :=
    if !context.isEmpty && Text.hasPart (lower name) context then s.plus Score.mentionBonus else s
  if s ≤ Score.greatestInexact then s else Score.greatestInexact

/-- The best name and its rating, given the best so far; an equal rating does not replace it. -/
def bestFrom (candidate context : Text) : Option (Text × Score) → List Text → Option (Text × Score)
  | best, [] => best
  | best, name :: known =>
    let s := rating candidate context name
    let least := (best.map (·.2)).getD 0
    bestFrom candidate context (if least < s then some (name, s) else best) known

/-- The most similar name, if it is similar enough. -/
def similar? (candidate : Text) (known : List Text) (context : Text) : Option NameMatch :=
  match bestFrom candidate (lower context) none known with
  | some (name, s) =>
    if Score.threshold ≤ s then some ⟨name, .similar, s.toPlaces, some s.percent⟩ else none
  | none => none

end Matching

/-- The known name that a candidate is taken for. A known name that the context mentions is
preferred among similar ones. -/
def matchName (candidate : Text) (known : List Text) (context : Text) : Option NameMatch :=
  if candidate.isEmpty then none
  else Matching.identical? candidate known
    <|> Matching.plural? candidate known
    <|> Matching.part? candidate known
    <|> Matching.synonym? candidate known
    <|> Matching.similar? candidate known context

/-! ## What is said about a match -/

/-- Two names with an arrow between them. -/
def arrow (candidate name : Text) : Text := '"' :: candidate ++ "\" -> \"" ++ name ++ ['"']

/-- Why the name was taken for the candidate. -/
def NameMatch.reason (candidate : Text) (m : NameMatch) : Text :=
  let share : Text := Text.ofNat (m.percent.getD 0) ++ "% edit-distance similarity): "
  match m.strategy with
  | .exact => "Exact match"
  | .plural => "Plural/singular variant: " ++ arrow candidate m.name
  | .part => "Partial fuzzy match (substring, " ++ share ++ arrow candidate m.name
  | .synonym => "Semantic match: " ++ arrow candidate m.name
  | .similar => "Fuzzy match (" ++ share ++ arrow candidate m.name

/-- The most names that are listed when none matches. -/
def listedNames : Nat := 5

/-- Why no name was taken for the candidate. -/
def noMatchReason (candidate : Text) (known : List Text) : Text :=
  if candidate.isEmpty || known.isEmpty then "No input or no available names"
  else
    "No match found for \"" ++ candidate ++ "\". Available: "
      ++ Text.join ", " (known.take listedNames)
      ++ if listedNames < known.length then ("..." : Text) else []

end QueryGate
