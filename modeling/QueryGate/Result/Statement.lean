import QueryGate.Text.Blank

/-!
# Statements as sent

What is sent to a driver is one statement without the blanks around it and without its semicolon.
Whatever follows a semicolon inside it is not sent.
-/

namespace QueryGate

/-- The statement to send. -/
def statementToSend (sql : Text) : Text :=
  let t := trim sql
  let t := if t.getLast? == some ';' then trimEnd t.dropLast else t
  if t.contains ';' then trimEnd (t.takeWhile (· != ';')) else t

end QueryGate
