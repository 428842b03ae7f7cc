import QueryGate.Text.Basic

/-!
# Parse trees

A parser splits a text into statements and groups the tokens of each: a parenthesis with what it
holds is a group, and so are names with their qualifiers, conditions, and whatever else the parser
knows of. Which groups there are beside the parentheses is left open.
-/

namespace QueryGate

/-- A token of a statement, or a group of tokens. -/
inductive ParseTree
  | leaf (text : Text)
  | group (parenthesis : Bool) (parts : List ParseTree)

namespace ParseTree

mutual

/-- The text that a tree was made from. -/
def text : ParseTree → Text
  | .leaf text => text
  | .group _ parts => textAll parts

def textAll : List ParseTree → Text
  | [] => []
  | tree :: trees => tree.text ++ textAll trees

end

end ParseTree

end QueryGate
