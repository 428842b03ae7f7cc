import QueryGate.Proofs.Sql.LeadingWords
import QueryGate.Proofs.Sql.QualifiedPlaces
import QueryGate.Proofs.Sql.TableTokens

/-!
# Where aliases stand

An alias follows what it names, or `AS`. So it is the name of no table reference, which follows
`FROM`, `JOIN`, a comma or the dot behind a schema (`front_of_mem_tableRefs`), and it is no
part of a qualified name.
-/

namespace QueryGate

/-! ## In front of a table -/

section Front

variable {a x ts : List Token}

/-- Behind a schema stands a dot. -/
theorem IsQualifier.front (hx : IsQualifier x) (a : List Token) :
    x = [] ∨ beginsWithDot (maskOf (a ++ x)).reverse = true := by
  rcases hx with rfl | ⟨i, s, g, g', rfl, hs, -, hg'⟩
  · exact .inl rfl
  · right
    rw [maskOf_append, maskOf_cons, hs, ← List.append_assoc]
    exact beginsWithDot_reverse_of_dot hg'

/-- The first reference of a source is named behind its word. -/
theorem SourceAt.front {k : Hit TableSource} {p g us : List Token} {w : Text}
    (h : SourceAt k ts p w g us) (hts : Lexed ts) {r : TableRef} {more : List TableRef}
    (hrefs : k.value.refs (maskOf ts).length = r :: more) :
    ∃ x q, ts = (p ++ .word w :: g) ++ x ++ r.identifier.token :: q ∧ IsQualifier x ∧
      r.start = (maskOf ((p ++ .word w :: g) ++ x)).length := by
  unfold TableSource.refs at hrefs
  split at hrefs
  · cases hrefs
  split at hrefs
  · cases hrefs
  rename_i r' rest href
  obtain ⟨rfl, -⟩ := List.cons.inj hrefs
  obtain ⟨hname, hstart, -⟩ := tableRef?_identifier href
  have hsplit : ts = (p ++ .word w :: g) ++ us := by simp [h.split]
  obtain ⟨x, q, rfl, honward, -, hqual⟩ := (Lexed.of_append (hsplit ▸ hts)).2.exists_qualifiedName
    (fun _ => isWordChar_of_isFoldedNameStart) h.name
  refine ⟨x, q, by simp [hsplit, hname], ?_, ?_⟩
  · rcases hqual with ⟨rfl, -⟩ | ⟨i, s, g, g', -, rfl, hs⟩
    · exact .inl rfl
    · exact .inr ⟨i, s, g, g', rfl, hs⟩
  · rw [hstart, honward, hsplit]
    simp only [maskOf_append, List.length_append]
    omega

/-- In front of the name of a table reference stands `FROM`, `JOIN`, a comma or a dot. -/
theorem front_of_mem_tableRefs {sql : Text} (h : LexedAs sql ts) (hq : QuotesLackSources ts)
    {r : TableRef} (hr : r ∈ tableRefs sql) {n : Nat} {t : Token} (hn : ts[n]? = some t)
    (hplace : placeOf ts n = r.start) :
    LeadBy sourceWords (ts.take n) ∨
      (skipBlanks (maskOf (ts.take n)).reverse).head? = some ',' ∨
      beginsWithDot (maskOf (ts.take n)).reverse = true := by
  rw [tableRefs, tableRefsIn, ← h.mask, List.mem_flatMap] at hr
  obtain ⟨k, hk, hr⟩ := hr
  obtain ⟨p, w, g, us, hat⟩ := hit_tableSource h.lexed hq hk
  have htake {a q : List Token} (hsplit : ts = a ++ r.identifier.token :: q)
      (hstart : r.start = (maskOf a).length) : ts.take n = a := by
    obtain ⟨b, q', hts, rfl⟩ := exists_split_of_getElem? hn
    rw [hts, placeOf_append] at hplace
    obtain ⟨rfl, -⟩ := h.lexed.split_unique hts hsplit (hplace.trans hstart)
    rw [hts, List.take_left]
  obtain ⟨first, more, l, q, s, hrefs, hsource⟩ := hat.exists_refs h.lexed
  rw [hrefs] at hr
  rcases List.mem_append.1 hr with hfirst | hmore
  · rw [Option.mem_toList.1 hfirst, Option.toList_some, List.singleton_append] at hrefs
    obtain ⟨x, q, hsplit, hx, hstart⟩ := hat.front h.lexed hrefs
    rw [htake hsplit hstart]
    rcases hx.front (p ++ .word w :: g) with rfl | hdot
    · left
      rw [List.append_nil]
      exact ⟨p, w, g, rfl, hat.gap, hat.blank, hat.spells⟩
    · exact .inr (.inr hdot)
  · obtain ⟨a, x, q, hsplit, hx, ⟨c, hc, rfl⟩, hstart, -⟩ := hsource.listed.comma r hmore
    rw [← List.append_assoc] at hsplit
    rw [htake hsplit hstart]
    rcases hx.front a with rfl | hdot
    · right; left
      rwa [List.append_nil]
    · exact .inr (.inr hdot)

end Front

/-! ## Places of aliases -/

/-- No table is named at a token, and no part of a qualified name: what stands at every alias. -/
structure AliasPlace (ts : List Token) (n : Nat) : Prop where
  noSource : ¬ LeadBy sourceWords (ts.take n)
  noComma : (skipBlanks (maskOf (ts.take n)).reverse).head? ≠ some ','
  noDotBefore : beginsWithDot (maskOf (ts.take n)).reverse = false
  noDotBehind : beginsWithDot (maskOf (ts.drop (n + 1))) = false

namespace AliasPlace

variable {ts us : List Token} {n : Nat} {t : Token}

theorem ne_table (h : AliasPlace ts n) {sql : Text} (hts : LexedAs sql ts)
    (hq : QuotesLackSources ts) (hn : ts[n]? = some t) {r : TableRef} (hr : r ∈ tableRefs sql) :
    r.start ≠ placeOf ts n := by
  intro hplace
  rcases front_of_mem_tableRefs hts hq hr hn hplace.symm with hlead | hcomma | hdot
  · exact h.noSource hlead
  · exact h.noComma hcomma
  · rw [h.noDotBefore] at hdot
    cases hdot

theorem ne_qualified (h : AliasPlace ts n) (hts : Lexed ts) (hdots : QuotesLackDots ts)
    (hn : ts[n]? = some t) {q : QualifiedRef} (hq : q ∈ qualifiedRefs (maskOf ts)) :
    q.columnSpan.start ≠ placeOf ts n ∧ q.qualifierSpan.start ≠ placeOf ts n := by
  obtain ⟨p, -, hpair, -⟩ := exists_pair_of_mem_qualifiedRefs hts hdots hq
  constructor
  · intro hplace
    obtain rfl := hts.placeOf_injective hpair.column hn (hpair.columnPlace.trans hplace)
    have hdot := hpair.dotBefore
    rw [h.noDotBefore] at hdot
    cases hdot
  · intro hplace
    obtain rfl := hts.placeOf_injective hpair.qualifier hn (hpair.qualifierPlace.trans hplace)
    have hdot := hpair.dotBehind
    rw [h.noDotBehind] at hdot
    cases hdot

/-- Where names are replaced by names no dot comes beside an alias. -/
theorem besideDot_of_shape (h : AliasPlace ts n) (hts : Lexed ts) (hus : Lexed us)
    (hshape : us.map Token.shape = ts.map Token.shape) :
    besideDot (maskOf (us.take n)).reverse (maskOf (us.drop (n + 1))) = false := by
  have hbefore : beginsWithDot (maskOf (us.take n)).reverse =
      beginsWithDot (maskOf (ts.take n)).reverse :=
    beginsWithDot_reverse_congr (fun t ht => hts.fit t (List.mem_of_mem_take ht))
      (fun t ht => hus.fit t (List.mem_of_mem_take ht))
      (by rw [List.map_take, List.map_take, hshape])
  have hbehind : beginsWithDot (maskOf (us.drop (n + 1))) =
      beginsWithDot (maskOf (ts.drop (n + 1))) :=
    beginsWithDot_congr (fun t ht => hts.fit t (List.mem_of_mem_drop ht))
      (fun t ht => hus.fit t (List.mem_of_mem_drop ht))
      (by rw [List.map_drop, List.map_drop, hshape])
  rw [besideDot, hbefore, hbehind, h.noDotBefore, h.noDotBehind]
  rfl

end AliasPlace

end QueryGate
