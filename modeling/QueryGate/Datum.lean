import QueryGate.Number.Shortest
import QueryGate.Text.Quoted

/-!
# Plain data

Settings and schema mappings come as plain data: nothing, truth values, numbers, texts, lists and
mappings. `Datum.shown` writes a value the way messages show it, texts in quotes; `Datum.plainText`
leaves the quotes off a text.
-/

namespace QueryGate

/-- A value of plain data. -/
inductive Datum
  | null
  | bool (b : Bool)
  | int (n : Int)
  | float (x : Binary64)
  | text (t : Text)
  | list (items : List Datum)
  | mapping (entries : List (Text × Datum))
deriving Inhabited

namespace Datum

mutual

def shown : Datum → Text
  | .null => "None"
  | .bool b => if b then "True" else "False"
  | .int n => Text.ofInt n
  | .float x => x.text
  | .text t => quoted t
  | .list items => '[' :: shownItems items ++ [']']
  | .mapping entries => '\x7b' :: shownEntries entries ++ ['\x7d']

def shownItems : List Datum → Text
  | [] => []
  | [d] => shown d
  | d :: e :: rest => shown d ++ ", " ++ shownItems (e :: rest)

def shownEntries : List (Text × Datum) → Text
  | [] => []
  | [(k, d)] => quoted k ++ ": " ++ shown d
  | (k, d) :: e :: rest => quoted k ++ ": " ++ shown d ++ ", " ++ shownEntries (e :: rest)

end

/-- A value as text: a text is itself. -/
def plainText : Datum → Text
  | .text t => t
  | d => shown d

/-- Whether a value counts as true: it is neither nothing nor zero nor empty. -/
def holds : Datum → Bool
  | .null => false
  | .bool b => b
  | .int n => n != 0
  | .float (.finite _ mantissa _) => mantissa != 0
  | .float _ => true
  | .text t => !t.isEmpty
  | .list items => !items.isEmpty
  | .mapping entries => !entries.isEmpty

def kind : Datum → Text
  | .null => "NoneType"
  | .bool _ => "bool"
  | .int _ => "int"
  | .float _ => "float"
  | .text _ => "str"
  | .list _ => "list"
  | .mapping _ => "dict"

def entry? (key : Text) (entries : List (Text × Datum)) : Option Datum :=
  (entries.find? fun e => e.1 == key).map (·.2)

end Datum

end QueryGate
