import QueryGate.Text.Case

/-!
# Normal forms of names

Two spellings of one name differ in case and in what separates its words; the normal form keeps
the small letters and digits only. `isPlural` relates the normal forms of an English noun and its
plural.
-/

namespace QueryGate

/-- The small ASCII letters and digits of a name, in order. -/
def normalForm (name : Text) : Text := (lower name).filter fun c => c.isLower || c.isDigit

/-- Whether `long` is a regular plural of `short`. -/
def pluralOf (short long : Text) : Bool :=
  long == short ++ ['s'] || long == short ++ "es"
    || (['y'].isSuffixOf short && long == short.dropLast ++ "ies")
    || (['f'].isSuffixOf short && long == short.dropLast ++ "ves")

/-- Whether one of two names is the plural of the other. -/
def isPluralPair (a b : Text) : Bool :=
  let m := normalForm a
  let n := normalForm b
  !m.isEmpty && !n.isEmpty && m != n && (pluralOf m n || pluralOf n m)

end QueryGate
