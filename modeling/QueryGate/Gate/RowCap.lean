import QueryGate.Datum
import QueryGate.Fault

/-!
# Row caps

The most rows that a query may return: a positive whole number.
-/

namespace QueryGate

/-- A positive number of rows, and how messages show it. -/
structure RowCap where
  rows : Nat
  shown : Text
  rows_pos : 0 < rows

namespace RowCap

/-- The cap of a positive number. -/
def ofNat (n : Nat) (h : 0 < n) : RowCap := ⟨n, Text.ofNat n, h⟩

theorem standard_pos : 0 < 5000 := by decide

def standard : RowCap := ofNat 5000 standard_pos

def ofDatum (d : Datum) : Except Fault RowCap :=
  match d with
  | .int (.ofNat (n + 1)) => .ok (ofNat (n + 1) n.succ_pos)
  | d => .error (.rowCap d.plainText)

/-- The cap that a whole number gives, where the truth value true counts as one. -/
def ofDatumOrTrue (d : Datum) : Except Fault RowCap :=
  match d with
  | .bool true => .ok ⟨1, d.plainText, by decide⟩
  | d => ofDatum d

end RowCap

end QueryGate
