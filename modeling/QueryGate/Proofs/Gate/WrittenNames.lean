import QueryGate.Gate.Existence
import QueryGate.Proofs.Gate.FinalQuery
import QueryGate.Proofs.Repair.Spelling
import QueryGate.Proofs.Repair.Lookups

/-!
# Names as they are written

A known name that replaces another is written so that it is read back: in quotes, or bare where it
is folded to itself (`readsBack_renderName`). Which of the two is decided by its letters alone. A
known name that is a keyword has the letters of a bare name, and is written bare, where it is no
name at all (`written_names_readBack`).
-/

namespace QueryGate

/-! ## Bare names -/

/-- A text that is a name without quotes. -/
structure IsBareName (t : Text) : Prop where
  start : t.head?.any isNameStart = true
  parts : ∀ c ∈ t, isNamePart c = true

/-- A name that need not be quoted is a bare name. -/
theorem isBareName_of_not_needsQuotes {n : Text} (hne : n ≠ []) (h : needsQuotes n = false) :
    IsBareName n := by
  have hplain := isPlainNameChar_of_not_needsQuotes h
  refine ⟨?_, fun c hc => isNamePart_of_isWordChar (isWordChar_of_isPlainNameChar (hplain c hc))⟩
  obtain ⟨c, w, rfl⟩ := List.exists_cons_of_ne_nil hne
  have hdigit : c.isDigit = false := (Bool.or_eq_false_iff.1 h).2
  exact isNameStart_of_isPlainNameChar (hplain c List.mem_cons_self) hdigit

theorem IsBareName.read? {t : Text} (h : IsBareName t) {next : Text}
    (hnext : next.head?.any isNamePart = false) :
    Identifier.read? isNameStart (t ++ next) = some (⟨t, false⟩, next) := by
  cases t with
  | nil => cases h.start
  | cons c w =>
    have hw : ∀ d ∈ w, isNamePart d = true := fun d hd => h.parts d (List.mem_cons_of_mem c hd)
    have hquote : c ≠ '"' := by
      rintro rfl
      exact absurd h.start (by simp [isNameStart])
    have hstart : isNameStart c = true := h.start
    simp only [List.cons_append, Identifier.read?, beq_iff_eq, hquote, if_false, hstart, if_true,
      takeWhile_append_of_all hw hnext, dropWhile_append_of_all hw hnext]

/-! ## What a written name is read as -/

/-- A text is read as a name that the database sees as `n`, where no name goes on behind it. -/
def ReadsBack (n text : Text) : Prop :=
  ∃ i : Identifier, i.effective = n ∧ ∀ next : Text, next.head?.any isNamePart = false →
    Identifier.read? isNameStart (text ++ next) = some (i, next)

/-- A text stands for a name: it is the name in quotes, or bare and no keyword, and the database
folds it to the name. -/
def StandsFor (n text : Text) : Prop :=
  text = inQuotes n ∨
    IsBareName text ∧ isKeyword text = false ∧ (Identifier.mk text false).effective = n

/-- A keyword is spelled like a name that needs no quotes, and so is the name without letters. -/
theorem not_needsQuotes_of_nil_or_keyword {n : Text} (h : n = [] ∨ n ∈ sqlKeywords) :
    needsQuotes n = false := by
  have hkeywords : ∀ w ∈ sqlKeywords, needsQuotes w = false := by decide +kernel
  rcases h with rfl | h
  · rfl
  · exact hkeywords n h

section Rendered

variable {n : Text} {forceQuotes : Bool}

/-- A known name is read back as it was meant, whether it is written in quotes or bare. -/
theorem readsBack_renderName (hne : n ≠ []) (hquote : '"' ∉ n) :
    ReadsBack n (renderName n forceQuotes) := by
  refine ⟨.rendered n forceQuotes, Identifier.effective_rendered n forceQuotes, fun next hnext => ?_⟩
  unfold renderName Identifier.rendered
  cases hcase : forceQuotes || needsQuotes n with
  | true => exact Identifier.read?_inQuotes isNameStart hne hquote next
  | false =>
    exact (isBareName_of_not_needsQuotes hne (Bool.or_eq_false_iff.1 hcase).2).read? hnext

theorem ne_inQuotes (n : Text) : n ≠ inQuotes n := by
  intro heq
  have hlength := congrArg List.length heq
  rw [inQuotes, List.length_append, List.length_cons, List.length_singleton] at hlength
  omega

theorem renderName_eq_inQuotes_iff :
    renderName n forceQuotes = inQuotes n ↔ forceQuotes = true ∨ needsQuotes n = true := by
  unfold renderName
  rw [← Bool.or_eq_true]
  split
  · rename_i h
    exact iff_of_true rfl h
  · rename_i h
    exact iff_of_false (ne_inQuotes n) h

/-- A known name that is written bare does not stand for itself exactly if it is a keyword, or if
nothing is written. -/
theorem standsFor_renderName_iff :
    StandsFor n (renderName n forceQuotes) ↔ (n = [] ∨ n ∈ sqlKeywords → forceQuotes = true) := by
  cases hcase : forceQuotes || needsQuotes n with
  | true =>
    rw [renderName, hcase, if_pos rfl]
    refine iff_of_true (.inl rfl) fun hn => ?_
    rwa [not_needsQuotes_of_nil_or_keyword hn, Bool.or_false] at hcase
  | false =>
    obtain ⟨rfl, hplain⟩ := Bool.or_eq_false_iff.1 hcase
    have hlower := lower_of_not_needsQuotes hplain
    rw [renderName, hcase, if_neg Bool.false_ne_true]
    simp only [Bool.false_eq_true, imp_false, not_or]
    constructor
    · rintro (hquotes | ⟨hbare, hkeyword, -⟩)
      · exact absurd hquotes (ne_inQuotes n)
      · refine ⟨?_, ?_⟩
        · rintro rfl
          cases hbare.start
        · rwa [isKeyword, hlower, List.contains_eq_mem, decide_eq_false_iff_not] at hkeyword
    · rintro ⟨hne, hkeyword⟩
      refine .inr ⟨isBareName_of_not_needsQuotes hne hplain, ?_, hlower⟩
      rwa [isKeyword, hlower, List.contains_eq_mem, decide_eq_false_iff_not]

end Rendered

/-! ## What a suffix changes -/

namespace Existence

/-- Each replacement is the name of the table that a reference is taken for by a suffix. -/
theorem exists_suffix_of_naming {tables : List Table} {masked : Text} {refs : List TableRef}
    {w : Naming} (hw : naming tables masked refs = .ok w) {e : Edit} (he : e ∈ w.edits) :
    ∃ r ∈ refs, ∃ t ∈ tables, resolve tables r.name = .bySuffix t ∧
      ∃ forceQuotes, e.text = renderName t.name forceQuotes := by
  induction refs generalizing w with
  | nil =>
    obtain rfl := Except.ok.inj hw
    cases he
  | cons r refs ih =>
    have hlater {v : Naming} (hv : naming tables masked refs = .ok v) (he : e ∈ v.edits) :
        ∃ s ∈ r :: refs, ∃ t ∈ tables, resolve tables s.name = .bySuffix t ∧
          ∃ forceQuotes, e.text = renderName t.name forceQuotes := by
      obtain ⟨s, hs, hfound⟩ := ih hv he
      exact ⟨s, List.mem_cons_of_mem r hs, hfound⟩
    unfold naming at hw
    split at hw
    · cases hw
    · obtain ⟨v, hv, hw⟩ := bind_eq_ok_iff.1 hw
      obtain rfl := Except.ok.inj hw
      exact hlater hv he
    · rename_i t hresolve
      obtain ⟨v, hv, hw⟩ := bind_eq_ok_iff.1 hw
      obtain rfl := Except.ok.inj hw
      have ht := mem_of_resolve_bySuffix hresolve
      rcases List.mem_append.1 he with he | he
      · rcases List.mem_cons.1 he with rfl | he
        · exact ⟨r, List.mem_cons_self, t, ht, hresolve, r.quoted, rfl⟩
        · obtain ⟨h, -, rfl⟩ := List.mem_map.1 he
          exact ⟨r, List.mem_cons_self, t, ht, hresolve, h.value, rfl⟩
      · exact hlater hv he

end Existence

/-! ## Every written name -/

/-- Each name that the repair or a suffix puts in is read back as the name that is meant. It also
stands for it among the words of SQL exactly if it is not a keyword that is written bare. -/
theorem written_names_readBack {k : KnownNames} (hk : ∀ n, k.Knows n → '"' ∉ n)
    {tables : List Table} (htables : ∀ t ∈ tables, '"' ∉ t.name) (sql : Text) :
    (∀ p ∈ passes k sql, ∀ l ∈ p.lookups, ∀ c, l.correction? sql = some c →
      ∃ m, matchName l.identifier.name l.known sql = some m ∧ ReadsBack m.name c.edit.text ∧
        (StandsFor m.name c.edit.text ↔
          (m.name ∈ sqlKeywords → l.identifier.quoted = true))) ∧
      ∀ w, Existence.naming tables (maskLiterals sql) (tableRefs sql) = .ok w → ∀ e ∈ w.edits,
        ∃ r ∈ tableRefs sql, ∃ t ∈ tables, Existence.resolve tables r.name = .bySuffix t ∧
          (t.name ≠ [] → ReadsBack t.name e.text) ∧
          (StandsFor t.name e.text ↔
            (t.name = [] ∨ t.name ∈ sqlKeywords → e.text = inQuotes t.name)) := by
  constructor
  · intro p hp l hl c hc
    obtain ⟨m, hmatch, htext⟩ := Lookup.exists_match_of_correction? hc
    have hne := ne_nil_of_matchName hmatch
    have hknows := Lookup.known_of_passes k.within_knows hp hl m.name (mem_of_matchName hmatch)
    rw [htext]
    refine ⟨m, hmatch, readsBack_renderName hne (hk m.name hknows), ?_⟩
    rw [standsFor_renderName_iff]
    simp only [hne, false_or]
  · intro w hw e he
    obtain ⟨r, hr, t, ht, hresolve, forceQuotes, htext⟩ := Existence.exists_suffix_of_naming hw he
    rw [htext]
    refine ⟨r, hr, t, ht, hresolve, fun hne => readsBack_renderName hne (htables t ht), ?_⟩
    rw [standsFor_renderName_iff]
    refine forall_congr' fun hn => ?_
    rw [renderName_eq_inQuotes_iff, not_needsQuotes_of_nil_or_keyword hn]
    simp

/-- A column that is a keyword is put in quotes as the name in its place was, and a table that is
found by its suffix is written bare. -/
theorem written_names_readBack_quoted :
    let k : KnownNames := ⟨["orders_new"], [("orders_new", ["order"])]⟩
    let t : Table := { name := "orders_new", columns := [{ name := "order" }] }
    let sql : Text := "SELECT \"ordr\" FROM orders"
    let l : Lookup := ⟨"Column", ⟨"ordr", true⟩, ⟨7, 13⟩, ["order"]⟩
    ⟨"SELECT \"ordr\" FROM orders_new", [l]⟩ ∈ passes k sql ∧
      (∃ c, l.correction? sql = some c ∧ c.edit.text = "\"order\"" ∧
        StandsFor "order" c.edit.text) ∧
      ∃ w, Existence.naming [t] (maskLiterals sql) (tableRefs sql) = .ok w ∧
        ∃ e ∈ w.edits, e.text = "orders_new" ∧ StandsFor "orders_new" e.text := by
  intro k t sql l
  have hk : ∀ n, k.Knows n → '"' ∉ n := KnownNames.forall_knows_iff.2 (by decide +kernel)
  have ht : ∀ u ∈ [t], '"' ∉ u.name := by decide +kernel
  have hp : ⟨"SELECT \"ordr\" FROM orders_new", [l]⟩ ∈ passes k sql := by decide +kernel
  have hcorrected : (l.correction? sql).map (·.edit) = some ⟨7, 13, "\"order\""⟩ := by decide +kernel
  have hnamed : (Existence.naming [t] (maskLiterals sql) (tableRefs sql)).toOption.map (·.edits) =
      some [⟨19, 25, "orders_new"⟩] := by decide +kernel
  obtain ⟨hlooked, hsuffix⟩ := written_names_readBack hk ht sql
  obtain ⟨c, hc, hedit⟩ := Option.map_eq_some_iff.1 hcorrected
  obtain ⟨w, hw, hedits⟩ := Option.map_eq_some_iff.1 hnamed
  have hw : Existence.naming [t] (maskLiterals sql) (tableRefs sql) = .ok w := by
    cases hcase : Existence.naming [t] (maskLiterals sql) (tableRefs sql) with
    | ok v => rw [hcase] at hw; exact congrArg _ (Option.some.inj hw)
    | error v => rw [hcase] at hw; cases hw
  refine ⟨hp, ⟨c, hc, by rw [hedit], ?_⟩, w, hw, ⟨19, 25, "orders_new"⟩, by simp [hedits], rfl, ?_⟩
  · obtain ⟨m, hmatch, -, hstands⟩ := hlooked _ hp l List.mem_cons_self c hc
    have hm := mem_of_matchName hmatch
    rw [← List.mem_singleton.1 hm]
    exact hstands.2 fun _ => rfl
  · obtain ⟨r, -, u, hu, -, -, hstands⟩ := hsuffix w hw ⟨19, 25, "orders_new"⟩ (by simp [hedits])
    rw [List.mem_singleton.1 hu] at hstands
    exact hstands.2 fun hn => absurd hn (by decide +kernel)

/-- A misspelt column is replaced by one that is a keyword, without quotes. -/
theorem keyword_written_bare :
    let k : KnownNames := ⟨["t"], [("t", ["order"])]⟩
    let sql : Text := "SELECT ordr FROM t"
    let l : Lookup := ⟨"Column", ⟨"ordr", false⟩, ⟨7, 11⟩, ["order"]⟩
    ⟨sql, [l]⟩ ∈ passes k sql ∧
      (∃ c, l.correction? sql = some c ∧ c.edit.text = "order" ∧ ¬ StandsFor "order" c.edit.text) ∧
      (repair k sql).sql = "SELECT order FROM t" := by
  intro k sql l
  have hcorrected : (l.correction? sql).map (·.edit) = some ⟨7, 11, "order"⟩ := by decide +kernel
  obtain ⟨c, hc, hedit⟩ := Option.map_eq_some_iff.1 hcorrected
  refine ⟨by decide +kernel, ⟨c, hc, by rw [hedit], ?_⟩, by decide +kernel⟩
  have hstands : ¬ StandsFor "order" (renderName "order" false) := by
    rw [standsFor_renderName_iff]
    exact fun h => absurd (h (.inr (by decide +kernel))) Bool.false_ne_true
  rwa [hedit]

end QueryGate
