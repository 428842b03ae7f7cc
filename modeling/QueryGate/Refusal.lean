import QueryGate.Text.Blank
import QueryGate.Text.Case

/-!
# Refusals

Whoever asked the question reads one line when no answer can be given. It begins with a fixed word,
and a text that begins with it already is such a line: the writer of the SQL may refuse as well.
-/

namespace QueryGate

/-- What a refusal begins with. -/
def refusalPrefix : Text := "not_available"

/-- The refusal that says why, in general words if no reason is given. -/
def refusal (reason : Text) : Text :=
  let given := trim reason
  let detail : Text :=
    if given.isEmpty then "The query could not be answered from the available data." else given
  if refusalPrefix.isPrefixOf (lower detail) then detail else refusalPrefix ++ ": " ++ detail

def isRefusal (t : Text) : Bool := refusalPrefix.isPrefixOf (lower (trim t))

end QueryGate
