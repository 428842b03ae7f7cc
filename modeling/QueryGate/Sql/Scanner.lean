import QueryGate.Sql.Subquery

/-!
# A scan for parentheses

The scanner is a parser that groups nothing but statements and parentheses. Parentheses pair within
one statement, the innermost first; those inside strings, quoted identifiers and comments do not
count, and one without its partner pairs with nothing. A statement ends at a semicolon that is in no
parenthesis.

Strings are delimited here as a lexer of many dialects does it: beside the doubled quote, a
backslash escapes a quote.
-/

namespace QueryGate

/-- How many characters after an opening quote belong to the string, its closing quote included.
Where the string would otherwise never close, a doubled or escaped quote closes it. -/
def stringTail? (quote : Char) : Text → Option Nat
  | [] => none
  | c :: t =>
    if c == quote then
      match t with
      | d :: r =>
        if d == quote then
          match stringTail? quote r with
          | some n => some (n + 2)
          | none => some 1
        else some 1
      | [] => some 1
    else if c == '\\' then
      match t with
      | d :: r =>
        if d == quote then
          match stringTail? quote r with
          | some n => some (n + 2)
          | none => (stringTail? quote (d :: r)).map (· + 1)
        else (stringTail? quote (d :: r)).map (· + 1)
      | [] => none
    else (stringTail? quote t).map (· + 1)

/-- How many characters after `--` or `#` belong to the comment: all of the line. -/
def lineTail (t : Text) : Nat := (t.takeWhile fun c => c != '\n' && c != '\r').length

/-- How many characters after `/*` belong to the comment, if it is closed. -/
def blockTail? : Text → Option Nat
  | [] => none
  | c :: t =>
    if c == '*' && t.head? == some '/' then some 2 else (blockTail? t).map (· + 1)

/-- How many characters from here on are passed over as one string or comment. -/
def opaqueLength (t : Text) : Nat :=
  match t with
  | '\'' :: r => ((stringTail? '\'' r).map (· + 1)).getD 0
  | '"' :: r => ((stringTail? '"' r).map (· + 1)).getD 0
  | '-' :: '-' :: r => lineTail r + 2
  | '#' :: ' ' :: r => lineTail r + 2
  | '/' :: '*' :: r => ((blockTail? r).map (· + 2)).getD 0
  | _ => 0

/-- A character, told apart if it is a parenthesis that counts, or ends a statement. -/
inductive Lexeme
  | plain (c : Char)
  | opening
  | closing
  | statementEnd
deriving DecidableEq, Repr

def Lexeme.char : Lexeme → Char
  | .plain c => c
  | .opening => '('
  | .closing => ')'
  | .statementEnd => ';'

/-- The characters of a text, where the first `covered` belong to a string or comment and `depth` is
what the parentheses of the statement add up to. -/
def lexemesFrom (covered : Nat) (depth : Int) : Text → List Lexeme
  | [] => []
  | c :: t =>
    match covered with
    | n + 1 => .plain c :: lexemesFrom n depth t
    | 0 =>
      match opaqueLength (c :: t) with
      | n + 1 => .plain c :: lexemesFrom n depth t
      | 0 =>
        if c == '(' then .opening :: lexemesFrom 0 (depth + 1) t
        else if c == ')' then .closing :: lexemesFrom 0 (depth - 1) t
        else if c == ';' && depth ≤ 0 then .statementEnd :: lexemesFrom 0 0 t
        else .plain c :: lexemesFrom 0 depth t

/-- The parts of a statement in which some parentheses are open, the last part first: those in the
innermost, then those around it. The parentheses without a partner are parts like others. -/
def partsOf (opened : List (List ParseTree)) (level : List ParseTree) : List ParseTree :=
  opened.foldl (· ++ ·) level

/-- The statements of a text. `level` holds the parts in the innermost open parenthesis, that
parenthesis included, and `opened` those in the ones around it; the last part is the first. -/
def statementsFrom (opened : List (List ParseTree)) (level : List ParseTree) :
    List Lexeme → List ParseTree
  | [] => [.group false (partsOf opened level).reverse]
  | x :: lexemes =>
    let leaf : ParseTree := .leaf [x.char]
    match x with
    | .plain _ => statementsFrom opened (leaf :: level) lexemes
    | .opening => statementsFrom (level :: opened) [leaf] lexemes
    | .closing =>
      match opened with
      | [] => statementsFrom [] (leaf :: level) lexemes
      | outer :: opened =>
        statementsFrom opened (.group true (leaf :: level).reverse :: outer) lexemes
    | .statementEnd =>
      .group false (partsOf opened (leaf :: level)).reverse :: statementsFrom [] [] lexemes

/-- The parser that scans for parentheses. It never fails, and walks are stopped at the depth at
which calls commonly are. -/
def Parser.scanner : Parser where
  parse sql := .ok (statementsFrom [] [] (lexemesFrom 0 0 sql))
  room := 1000

end QueryGate
