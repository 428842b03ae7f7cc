import QueryGate.Gate.Outcome
import QueryGate.Sql.Literal
import QueryGate.Text.Keyword

/-!
# Wording

The first tier reads a query as a sequence of words, its string literals masked: it must be one
complete statement, without comments, without words that administer a database, and without
mention of a database's own catalogues. Comments and catalogues are sought in the text as it
stands, literals included.
-/

namespace QueryGate

namespace Wording

/-- Words that administer a database. -/
def forbiddenWords : List Text :=
  ["COMMENT", "EXEC", "EXECUTE", "CALL", "GRANT", "REVOKE", "MERGE", "COPY", "IMPORT", "EXPORT",
    "BACKUP", "RESTORE"]

/-- Words that control a transaction. -/
def transactionWords : List Text := ["BEGIN", "COMMIT", "ROLLBACK"]

/-- The first forbidden word, in capitals. -/
def forbiddenWord? (masked : Text) : Option Text :=
  (firstHit? (oneWord forbiddenWords) masked).map fun h => capitals h.value

/-! ## Incomplete conditions -/

/-- Reads `WHERE` and a blank after it. -/
def whereWord : Reading Unit := fun before after =>
  if atWordStart before then
    ((keyword? "WHERE" after).bind spaced?).map fun rest => ((), rest)
  else none

/-- Whether the text before one of `words`, with which a text (read backwards) ends, has a
condition. -/
def conditionEndsWith (words : List Text) (back : Text) : Bool :=
  words.any fun word =>
    match keyword? word.reverse back with
    | some rest => atWordStart rest && occurs whereWord rest.reverse
    | none => false

/-- Whether more parentheses open than close after the first `WHERE`. -/
def conditionStaysOpen (t : Text) : Bool :=
  match firstHit? (wholeWord "WHERE") t with
  | some h => (t.drop h.stop).count ')' < (t.drop h.stop).count '('
  | none => false

/-- Whether a text breaks off inside a condition: after `WHERE`, after a comparison, inside the
list of an `IN`, after a connective, or inside parentheses. -/
def breaksOff (masked : Text) : Bool :=
  let t := trimEnd (trimEndOf ';' (trim masked))
  let back := t.reverse
  endsWithWord ["WHERE"] back
    || (back.head?.any ['=', '<', '>'].contains && occurs whereWord t)
    || (match back with
        | '(' :: r => conditionEndsWith ["IN"] (skipBlanks r)
        | _ => false)
    || conditionEndsWith ["AND", "OR", "NOT"] back
    || conditionStaysOpen t

/-! ## Suspicious texts -/

/-- Reads a semicolon with an administrative word after it. -/
def chainedWord : Reading Unit := fun _ after =>
  match after with
  | ';' :: t =>
    (Text.ofStrings ["EXEC", "GRANT", "REVOKE", "COMMENT"]).findSome? fun word =>
      (keyword? word (skipBlanks t)).map fun rest => ((), rest)
  | _ => none

/-- Marks of comments. -/
def commentMarks : List Text := ["--", "/*", "*/"]

/-- What the names of stored procedures and catalogues begin with. -/
def catalogueBeginnings : List Text := ["xp_", "sp_", "pg_", "sys.", "master."]

/-- Reads the name of the standard catalogue, even inside a word. -/
def standardCatalogue : Reading Unit := fun _ after =>
  (keyword? "information_schema" after).map fun rest => ((), rest)

/-- Whether a text has a comment, names a catalogue, or chains an administrative word. -/
def isSuspicious (sql : Text) : Bool :=
  occurs chainedWord sql
    || commentMarks.any (fun mark => Text.hasPart mark sql)
    || catalogueBeginnings.any (fun beginning => occurs (wordBeginning beginning) sql)
    || occurs standardCatalogue sql

/-- Whether a text begins with the first word of a statement. -/
def beginsStatement (sql : Text) : Bool :=
  (oneWord statementWords [] (skipBlanks sql)).isSome

/-- The first rule that a text violates. -/
def violation? (sql : Text) : Option Violation :=
  let masked := maskLiterals sql
  if allBlank sql then some .emptyQuery
  else if Text.hasPart ".." masked then some .doubleDot
  else if breaksOff masked then some .incompleteWhere
  else match forbiddenWord? masked with
    | some word => some (.forbiddenWord word)
    | none =>
      if isSuspicious sql then some .suspicious
      else if !beginsStatement sql then some .noStatement
      else if 1 < masked.count ';' then some .severalStatements
      else if occurs (oneWord transactionWords) masked then some .transaction
      else none

end Wording

/-- The first tier. -/
def checkWording (sql : Text) : Outcome :=
  match Wording.violation? sql with
  | some v => .rejected .wording v
  | none => .accepted .wording none []

end QueryGate
