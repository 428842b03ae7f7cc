import QueryGate.Gate.Verdict
import QueryGate.Proofs.Gate.RenamedStructure
import QueryGate.Proofs.Sql.ScannedTrees

/-!
# The corrected query

What the gate accepts is the query as written, and what runs is the query with its names corrected.
The third tier looks once more for double dots in what it corrected, and for nothing else. Over a
schema of harmless names nothing else is needed in a plain query, but that the select lists agree
with the groups still (`acceptedAsWritten_finalSql`). A known name that is a forbidden word
gets into an accepted query (`accepted_with_forbidden_name`).
-/

namespace QueryGate

/-- A text that both tiers accept. -/
structure AcceptedAsWritten (parser : Parser) (cap : RowCap) (sql : Text) : Prop where
  wording : (checkWording sql).isValid = true
  structural : ∃ o, checkStructure parser cap sql = .ok o ∧ o.isValid = true

theorem checkQuery_eq_accepted {parser : Parser} {cap : RowCap} {tables : List Table} {sql : Text}
    {o : Outcome} (h : checkQuery parser cap tables sql = .ok o) (ho : o.isValid = true) :
    AcceptedAsWritten parser cap sql ∧ checkExistence tables sql = o := by
  unfold checkQuery at h
  simp only at h
  split at h
  · rename_i hw
    obtain rfl := Except.ok.inj h
    rw [ho] at hw
    cases hw
  rename_i hw
  obtain ⟨structural, hs, h⟩ := bind_eq_ok_iff.1 h
  split at h
  · rename_i hv
    obtain rfl := Except.ok.inj h
    rw [ho] at hv
    cases hv
  · rename_i hv
    exact ⟨⟨by simpa using hw, structural, hs, by simpa using hv⟩, Except.ok.inj h⟩

theorem noDoubleDot_of_checkExistence {tables : List Table} {sql : Text}
    (hsql : Text.hasPart ".." (maskLiterals sql) = false)
    (ho : (checkExistence tables sql).isValid = true) :
    Text.hasPart ".." (maskLiterals ((checkExistence tables sql).finalSql sql)) = false := by
  unfold checkExistence at ho ⊢
  split at ho
  · cases ho
  · simp only at ho ⊢
    split at ho
    · cases ho
    rename_i hdots
    rw [if_neg hdots]
    split
    · exact hsql
    · simp only [Outcome.finalSql, Outcome.corrected?]
      split
      · exact hsql
      · simpa using hdots

theorem acceptedAsWritten_iff {parser : Parser} {cap : RowCap} {sql : Text} :
    AcceptedAsWritten parser cap sql ↔ Wording.Kept sql ∧ Structure.Kept parser cap sql := by
  have hstructure : (∃ o, checkStructure parser cap sql = .ok o ∧ o.isValid = true) ↔
      Structure.violation? parser cap sql = .ok none := by
    unfold checkStructure
    constructor
    · rintro ⟨o, ho, hvalid⟩
      obtain ⟨violation, hviolation, ho⟩ := bind_eq_ok_iff.1 ho
      cases violation with
      | none => exact hviolation
      | some v =>
        obtain rfl := Except.ok.inj ho
        cases hvalid
    · intro hnone
      rw [hnone]
      exact ⟨_, rfl, rfl⟩
  rw [← checkWording_isValid_iff, ← Structure.violation?_eq_none_iff, ← hstructure]
  exact ⟨fun h => ⟨h.wording, h.structural⟩, fun h => ⟨h.1, h.2⟩⟩

/-- An accepted query that is not corrected is the text that both tiers looked at. If a plain one is
corrected over a schema of harmless names, the first tier accepts it still, and the second tier does
if the parser can read it still and the select lists still agree with the groups. There are none if
the query had none. -/
theorem acceptedAsWritten_finalSql {parser : Parser} (hparser : parser.Lawful) {cap : RowCap}
    {tables : List Table} {sql : Text} {o : Outcome}
    (h : checkQuery parser cap tables sql = .ok o) (ho : o.isValid = true) :
    (o.corrected? = none → AcceptedAsWritten parser cap (o.finalSql sql)) ∧
      (PlainQuery sql → (∀ n, InSchema tables n → HarmlessName n) →
        (checkWording (o.finalSql sql)).isValid = true ∧
          (AcceptedAsWritten parser cap (o.finalSql sql) ↔ parser.Reads (o.finalSql sql) ∧
            ungroupedColumns (o.finalSql sql) (maskLiterals (o.finalSql sql)) = .ok []) ∧
          (occurs (oneWord ["GROUP"]) (maskLiterals sql) = false →
            parser.Reads (o.finalSql sql) → AcceptedAsWritten parser cap (o.finalSql sql))) := by
  obtain ⟨hwritten, rfl⟩ := checkQuery_eq_accepted h ho
  constructor
  · intro hnone
    rw [Outcome.finalSql, hnone]
    exact hwritten
  intro hq hnames
  obtain ⟨hwording, hstructure⟩ := acceptedAsWritten_iff.1 hwritten
  have hts := hq.tokensOf
  obtain ⟨us, hus, hf⟩ := checkExistence_renamed hts hq.plainTokens
    fun n hn => ⟨(hnames n hn).word, (hnames n hn).ascii⟩
  have hkept := hwording.of_renamed hus hts hf hq.plainTokens hnames hq.single
    (noDoubleDot_of_checkExistence hwording.noDoubleDot ho)
  have hgrouped := hstructure.of_renamed hparser hus hf hq hnames hkept
  refine ⟨checkWording_isValid_iff.2 hkept, ⟨fun haccepted => ?_, fun hboth => ?_⟩, ?_⟩
  · obtain ⟨-, hfinal⟩ := acceptedAsWritten_iff.1 haccepted
    exact ⟨hfinal.parsed, hfinal.grouped⟩
  · exact acceptedAsWritten_iff.2 ⟨hkept, hgrouped hboth.1 hboth.2⟩
  · intro hno hreads
    refine acceptedAsWritten_iff.2 ⟨hkept, hgrouped hreads (ungroupedColumns_of_no_group hf ?_)⟩
    -- The word is no name, so that no correction brings it in.
    refine hus.not_occurs_oneWord hts hf (by decide) (fun n hn w hw => ?_) hno
    obtain rfl := List.mem_singleton.1 hw
    exact not_spells_of_not_keyword (hnames n hn).notKeyword (hnames n hn).ascii (by decide)
      (by decide)

/-- A column is repaired in the select list and not in the groups. -/
example : checkQuery .scanner .standard [⟨"t", [⟨"city", .text, true⟩]⟩]
    "SELECT citys, COUNT(*) FROM t GROUP BY citys" = .ok (.accepted .schema
      (some "SELECT city, COUNT(*) FROM t GROUP BY citys")
      ["Column: \"citys\" -> \"city\" (Plural/singular variant: \"citys\" -> \"city\")"]) ∧
    ungroupedColumns "SELECT city, COUNT(*) FROM t GROUP BY citys"
      (maskLiterals "SELECT city, COUNT(*) FROM t GROUP BY citys") = .ok ["city"] := by
  constructor <;> decide +kernel

/-- A repaired query that both tiers accept. -/
theorem acceptedAsWritten_repaired_query :
    checkQuery .scanner .standard [⟨"posts", [⟨"title", .text, true⟩]⟩]
        "SELECT titles FROM posts" =
        .ok (.accepted .schema (some "SELECT title FROM posts")
          ["Column: \"titles\" -> \"title\" (Plural/singular variant: \"titles\" -> \"title\")"]) ∧
      AcceptedAsWritten .scanner .standard "SELECT title FROM posts" := by
  have h : checkQuery .scanner .standard [⟨"posts", [⟨"title", .text, true⟩]⟩]
      "SELECT titles FROM posts" =
      .ok (.accepted .schema (some "SELECT title FROM posts")
        ["Column: \"titles\" -> \"title\" (Plural/singular variant: \"titles\" -> \"title\")"]) := by
    decide +kernel
  have hplain : PlainQuery "SELECT titles FROM posts" := by
    refine ⟨by decide +kernel, by decide +kernel, fun before after hsql => ?_, by decide, by decide⟩
    have hmem : ';' ∈ before ++ ';' :: after := by simp
    rw [← hsql] at hmem
    exact absurd hmem (by decide)
  have hnames : ∀ n, InSchema [⟨"posts", [⟨"title", .text, true⟩]⟩] n → HarmlessName n := by
    rintro n ⟨t, ht, hn⟩
    obtain rfl := List.mem_singleton.1 ht
    have hmem : n ∈ Text.ofStrings ["posts", "title"] := by
      rcases hn with rfl | hn
      · exact List.mem_cons_self
      · exact List.mem_cons_of_mem _ hn
    exact (by decide +kernel : ∀ n ∈ Text.ofStrings ["posts", "title"], HarmlessName n) n hmem
  exact ⟨h, ((acceptedAsWritten_finalSql Parser.scanner_lawful h rfl).2 hplain hnames).2.2
    (by decide +kernel) (by decide +kernel)⟩

/-- A column that is repaired to a forbidden word. -/
theorem accepted_with_forbidden_name :
    checkQuery .scanner .standard [⟨"posts", [⟨"comment", .text, true⟩]⟩]
        "SELECT comments FROM posts" =
        .ok (.accepted .schema (some "SELECT comment FROM posts")
          ["Column: \"comments\" -> \"comment\" (Plural/singular variant: \"comments\" -> \"comment\")"]) ∧
      checkWording "SELECT comment FROM posts" = .rejected .wording (.forbiddenWord "COMMENT") := by
  constructor <;> decide +kernel

end QueryGate
