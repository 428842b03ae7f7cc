import QueryGate.Sql.Identifier

/-!
# Aliases

An alias follows what it names after blanks, with or without the word `AS`. Where `AS` is followed
by no name it could itself be the alias; `aliasReadings` lists both possibilities, the better one
first.
-/

namespace QueryGate

/-- The aliases that a text may begin with: one after `AS`, then one without. -/
def aliasReadings (t : Text) : List (Identifier × Text) :=
  match spaced? t with
  | none => []
  | some t =>
    let explicit := (keyword? "AS" t).bind spaced? |>.bind (Identifier.read? isFoldedNameStart)
    explicit.toList ++ (Identifier.read? isFoldedNameStart t).toList

/-- The alias that a text begins with. -/
def aliasAfter? (t : Text) : Option (Identifier × Text) := (aliasReadings t).head?

/-- Whether a text is over, but for a line feed that may end it. -/
def atEnd (t : Text) : Bool := t.isEmpty || t == ['\n']

/-- The alias that makes up all of a text. -/
def aliasOnly? (t : Text) : Option Identifier :=
  ((aliasReadings t).find? fun r => atEnd r.2).map (·.1)

def asAlias : Reading Identifier := fun before after =>
  if atWordStart before then
    (keyword? "AS" after).bind spaced? |>.bind (Identifier.read? isFoldedNameStart)
  else none

/-- Reads a closing parenthesis and the alias after it. -/
def closingAlias : Reading Identifier := fun _ after =>
  match after with
  | ')' :: t => aliasAfter? t
  | _ => none

def declaredAliases (masked : Text) : List Text := (hits asAlias masked).map (·.value.name)

/-- The names given to what stands in parentheses. -/
def closingAliases (masked : Text) : List Text := (hits closingAlias masked).map (·.value.name)

end QueryGate
