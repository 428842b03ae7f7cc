import Mathlib.Data.List.Nodup
import QueryGate.Proofs.Matching.Matches
import QueryGate.Proofs.Sql.ColumnTokens
import QueryGate.Proofs.Sql.SelectTokens
import QueryGate.Proofs.Sql.TableTokens
import QueryGate.Repair

/-!
# Repair renames

Repair replaces names of a query by known ones and nothing else (`repair_renamed`). Each of its four
passes edits tokens of the text that the pass before left, no token twice, so each is a renaming.
-/

namespace QueryGate

variable {names : Text → Prop}

/-! ## Known names -/

theorem mem_distinct {α : Type} [DecidableEq α] {xs : List α} : ∀ x ∈ distinct xs, x ∈ xs := by
  apply List.foldlRecOn (motive := fun seen => ∀ x ∈ seen, x ∈ xs)
  · intro x hx
    cases hx
  · intro seen hseen y hy x hx
    split at hx
    · exact hseen x hx
    · rcases List.mem_append.1 hx with hx | hx
      · exact hseen x hx
      · rwa [List.mem_singleton.1 hx]

theorem mem_distinct_of_mem {α : Type} [DecidableEq α] {x : α} {xs : List α} (h : x ∈ xs) :
    x ∈ distinct xs := by
  have hall (seen : List α) (hx : x ∈ seen ∨ x ∈ xs) :
      x ∈ xs.foldl (fun seen x => if x ∈ seen then seen else seen ++ [x]) seen := by
    clear h
    induction xs generalizing seen with
    | nil => exact hx.resolve_right nofun
    | cons y xs ih =>
      refine ih _ ?_
      rw [List.mem_cons, ← or_assoc] at hx
      refine hx.imp_left fun hx => ?_
      simp only
      split
      · rename_i hy
        exact hx.elim id fun h => h ▸ hy
      · exact hx.elim (List.mem_append_left _) fun h => h ▸ List.mem_concat_self
  exact hall [] (.inr h)

theorem nodup_distinct {α : Type} [DecidableEq α] (xs : List α) : (distinct xs).Nodup := by
  apply List.foldlRecOn (motive := List.Nodup)
  · exact List.nodup_nil
  · intro seen hseen y hy
    split
    · exact hseen
    · rename_i hnew
      refine List.nodup_append.2 ⟨hseen, List.nodup_singleton y, ?_⟩
      intro a ha b hb
      rw [List.mem_singleton.1 hb]
      rintro rfl
      exact hnew ha

/-- Known names are some among `names`. -/
structure KnownNames.Within (k : KnownNames) (names : Text → Prop) : Prop where
  tables : ∀ n ∈ k.tables, names n
  columns : ∀ e ∈ k.columns, ∀ n ∈ e.2, names n

namespace KnownNames.Within

variable {k : KnownNames} (h : k.Within names)

include h

theorem columnsOf (tables : List Text) : ∀ n ∈ k.columnsOf tables, names n := by
  intro n hn
  obtain ⟨t, -, hn⟩ := List.mem_flatMap.1 (mem_distinct n hn)
  cases hfind : Dictionary.find? (lower t) k.columns with
  | none =>
    rw [hfind] at hn
    cases hn
  | some columns =>
    rw [hfind] at hn
    refine h.columns (lower t, columns) ?_ n hn
    have hmem : ∀ d : Dictionary (List Text), Dictionary.find? (lower t) d = some columns →
        (lower t, columns) ∈ d := by
      intro d
      induction d with
      | nil => exact nofun
      | cons e d ih =>
        intro hd
        unfold Dictionary.find? at hd
        split at hd
        · rename_i key
          obtain rfl := Option.some.inj hd
          rw [← key]
          exact List.mem_cons_self
        · exact List.mem_cons_of_mem e (ih hd)
    exact hmem _ hfind

theorem candidateColumns (tables : List Text) : ∀ n ∈ k.candidateColumns tables, names n := by
  unfold KnownNames.candidateColumns
  simp only
  split
  · exact h.columnsOf _
  · exact h.columnsOf _

end KnownNames.Within

/-! ## One correction -/

theorem isKeyword_eq_false_of_isReserved {name : Text} (h : isReserved name = false) :
    isKeyword name = false := by
  unfold isReserved reservedWords at h
  unfold isKeyword
  simp only [List.contains_eq_mem, decide_eq_false_iff_not, List.mem_append, not_or] at h ⊢
  exact h.1.1

/-- What is read where a known name has been written. -/
def Identifier.rendered (name : Text) (forceQuotes : Bool) : Identifier :=
  ⟨name, forceQuotes || needsQuotes name⟩

theorem Identifier.token_rendered (name : Text) (forceQuotes : Bool) :
    (rendered name forceQuotes).token = .rendered name forceQuotes := rfl

theorem Identifier.effective_rendered (name : Text) (forceQuotes : Bool) :
    (rendered name forceQuotes).effective = name := by
  unfold effective
  split
  · rfl
  · rename_i hbare
    refine lower_of_not_needsQuotes ?_
    simp only [rendered, Bool.or_eq_true, not_or, Bool.not_eq_true] at hbare
    exact hbare.2

theorem Put.of_identifier {i : Identifier} {n : Text}
    (hkeyword : i.quoted = false → isKeyword i.name = false) (hn : names n) :
    Put names i.token (.rendered n i.quoted) := by
  obtain ⟨w, quoted⟩ := i
  cases quoted with
  | true => exact .quoted hn
  | false => exact .word (hkeyword rfl) hn

/-- What a correction writes in place of an identifier: one of `names`, where `P` says what the pass
knows (whether a dot stands beside the identifier, the identifier, and the name). -/
def PutWhere (names : Text → Prop) (P : Bool → Identifier → Text → Prop) (d : Bool)
    (t u : Token) : Prop :=
  ∃ i n, t = i.token ∧ u = .rendered n i.quoted ∧ (i.quoted = false → isKeyword i.name = false) ∧
    (names n ∧ n ≠ []) ∧ P d i n

theorem PutWhere.put {P : Bool → Identifier → Text → Prop} {d : Bool} {t u : Token}
    (h : PutWhere names P d t u) : Put (fun n => names n ∧ n ≠ []) t u := by
  obtain ⟨i, n, rfl, rfl, hkeyword, hn, -⟩ := h
  exact .of_identifier hkeyword hn

/-- A name that is written where an identifier stands replaces its token. -/
theorem StandsIn.edits {R : Bool → Token → Token → Prop} {ts : List Token} {i : Identifier}
    {start stop : Nat} {n : Text} (h : StandsIn i start stop 0 ts)
    (hR : R (dotBeside (maskOf ts) start stop) i.token (.rendered n i.quoted)) :
    EditsToken R ts ⟨start, stop, renderName n i.quoted⟩ := by
  obtain ⟨p, q, rfl, rfl, rfl⟩ := h
  rw [Nat.zero_add, dotBeside_maskOf] at hR
  refine ⟨p, i.token, .rendered n i.quoted, q, rfl, hR, ?_⟩
  rw [Token.text_rendered, length_maskOf, Token.length_mask, Nat.zero_add]

/-- A correction at a token replaces it by a known name. -/
theorem correction?_edits {P : Bool → Identifier → Text → Prop} {ts : List Token}
    {what context : Text} {i : Identifier} {s : Span} {known : List Text} {c : Correction}
    (hstands : StandsIn i s.start s.stop 0 ts)
    (hkeyword : i.quoted = false → isKeyword i.name = false) (hknown : ∀ n ∈ known, names n)
    (h : Repair.correction? what i s known context = some c)
    (hP : ∀ n ∈ known, c.edit.text = renderName n i.quoted →
      P (dotBeside (maskOf ts) s.start s.stop) i n) :
    EditsToken (PutWhere names P) ts c.edit ∧ c.edit.start = s.start := by
  unfold Repair.correction? at h
  split at h
  · cases h
  rename_i m hm
  split at h
  · cases h
  obtain rfl := Option.some.inj h
  have hmem := mem_of_matchName hm
  exact ⟨hstands.edits ⟨i, m.name, rfl, rfl, hkeyword, ⟨hknown _ hmem, ne_nil_of_matchName hm⟩,
    hP _ hmem rfl⟩, rfl⟩

/-- Corrections that edit tokens, each another one. -/
structure CorrectsTokens (R : Bool → Token → Token → Prop) (ts : List Token)
    (cs : List Correction) : Prop where
  edits : ∀ c ∈ cs, EditsToken R ts c.edit
  nodup : (cs.map (·.edit.start)).Nodup

/-- A pass whose corrections edit tokens replaces tokens. -/
theorem CorrectsTokens.replaced {P : Bool → Identifier → Text → Prop} {sql : Text}
    {ts : List Token} {cs : List Correction} (h : CorrectsTokens (PutWhere names P) ts cs)
    (hnames : ∀ n, names n → n ≠ [] → (Token.quoted n).Fit) (hts : LexedAs sql ts) :
    ∃ us, Replaced (PutWhere names P) [] ts us ∧ LexedAs (Repair.apply sql cs) us := by
  refine hts.applyEdits (Put.keepsTokens fun n hn => hnames n hn.1 hn.2) .same
    (fun _ _ _ => PutWhere.put) (fun e he => ?_) ?_
  · obtain ⟨c, hc, rfl⟩ := List.mem_map.1 he
    exact h.edits c hc
  · rw [List.map_map]
    exact h.nodup

theorem nodup_starts_of_pairwise {cs : List Correction}
    (h : cs.Pairwise fun c d => c.edit.start < d.edit.start) :
    (cs.map (·.edit.start)).Nodup :=
  List.pairwise_map.2 (h.imp fun hlt => Nat.ne_of_lt hlt)

/-! ## The passes -/

/-- A bare table name with a dot beside it that the repair puts in quotes. -/
def TableRef.PutInQuotes (k : KnownNames) (sql : Text) (r : TableRef) : Prop :=
  r.quoted = false ∧ dotBeside (maskLiterals sql) r.start r.stop = true ∧
    ∃ c n, Repair.correction? "Table" r.identifier ⟨r.start, r.stop⟩ k.tables sql = some c ∧
      c.edit.text = inQuotes n

/-- What is known of a table that is corrected: if it is put in quotes beside a dot, then it is a
reference of the query to which this happens. -/
def Repair.OfTable (k : KnownNames) (sql : Text) (refs : List TableRef) (d : Bool)
    (i : Identifier) (n : Text) : Prop :=
  n ∈ k.tables ∧ (d = true → i.quoted = false → needsQuotes n = true →
    ∃ r ∈ refs, r.identifier = i ∧ r.PutInQuotes k sql)

/-- What is known of a name that is corrected as part of a qualified one: the dot beside it. -/
def Repair.OfQualified (d : Bool) (_ : Identifier) (_ : Text) : Prop := d = true

/-- What is known of a column in quotes that is corrected: no dot stands beside it, and it is no
table. -/
def Repair.OfQuoted (k : KnownNames) (d : Bool) (i : Identifier) (_ : Text) : Prop :=
  i.quoted = true ∧ d = false ∧ ∀ t ∈ k.tables, lower t ≠ lower i.name

/-- What is known of a name in a select list that is corrected: it is bare. -/
def Repair.OfSelected (_ : Bool) (i : Identifier) (_ : Text) : Prop := i.quoted = false

section Passes

variable {sql : Text} {ts : List Token} {k : KnownNames} {context : Text} {bound : Repair.Bindings}

theorem tableCorrections_edit (h : LexedAs sql ts) (hrefs : RefsIn (tableRefs sql) ts)
    (hk : k.Within names) :
    CorrectsTokens (PutWhere names (Repair.OfTable k sql (tableRefs sql))) ts
      (Repair.tableCorrections k sql (tableRefs sql)) := by
  have hone : ∀ r ∈ tableRefs sql, ∀ c,
      Repair.correction? "Table" r.identifier ⟨r.start, r.stop⟩ k.tables sql = some c →
      EditsToken (PutWhere names (Repair.OfTable k sql (tableRefs sql))) ts c.edit ∧
        c.edit.start = r.start := by
    intro r hr c hc
    have hin := hrefs.refIn r hr
    refine correction?_edits hin.stands hin.noKeyword hk.tables hc
      fun n hn htext => ⟨hn, fun hdot hbare hneeds => ⟨r, hr, rfl, hbare, ?_, c, n, hc, ?_⟩⟩
    · rwa [← h.mask]
    · rw [htext, renderName, hneeds, Bool.or_true, if_pos rfl]
  constructor
  · intro c hc
    obtain ⟨r, hr, hsome⟩ := List.mem_filterMap.1 hc
    exact (hone r hr c hsome).1
  · refine List.pairwise_map.2 (List.pairwise_filterMap.2 ?_)
    refine (List.pairwise_map.1 hrefs.nodup).imp_of_mem fun {r s} hr hs hne => ?_
    intro c hc d hd
    rw [(hone r hr c hc).2, (hone s hs d hd).2]
    exact hne

theorem columnCorrection?_edits (hk : k.Within names) {q : QualifiedRef} {table : Text}
    {c : Correction} (hq : StandsIn q.column q.columnSpan.start q.columnSpan.stop 0 ts)
    (hdot : dotBeside (maskOf ts) q.columnSpan.start q.columnSpan.stop = true)
    (h : Repair.columnCorrection? k context q table = some c) :
    EditsToken (PutWhere names Repair.OfQualified) ts c.edit ∧
      c.edit.start = q.columnSpan.start := by
  unfold Repair.columnCorrection? at h
  split at h
  · cases h
  rename_i hreserved
  refine correction?_edits hq (fun hquoted => ?_) (hk.columnsOf _) h fun _ _ _ => hdot
  apply isKeyword_eq_false_of_isReserved
  simpa [hquoted] using hreserved

/-- The qualifier is corrected in front of the column. -/
theorem exists_of_qualifiedCorrections (hk : k.Within names) {q : QualifiedRef}
    (hqualifier : StandsIn q.qualifier q.qualifierSpan.start q.qualifierSpan.stop 0 ts)
    (hdot : dotBeside (maskOf ts) q.qualifierSpan.start q.qualifierSpan.stop = true)
    (hcolumn : StandsIn q.column q.columnSpan.start q.columnSpan.stop 0 ts)
    (hdot' : dotBeside (maskOf ts) q.columnSpan.start q.columnSpan.stop = true) :
    ∃ a b : Option Correction,
      Repair.qualifiedCorrections k context bound q = a.toList ++ b.toList ∧
      (∀ c, a = some c → EditsToken (PutWhere names Repair.OfQualified) ts c.edit ∧
        c.edit.start = q.qualifierSpan.start) ∧
      ∀ c, b = some c → EditsToken (PutWhere names Repair.OfQualified) ts c.edit ∧
        c.edit.start = q.columnSpan.start := by
  have hnone : ∀ c, (none : Option Correction) = some c →
      EditsToken (PutWhere names Repair.OfQualified) ts c.edit ∧
        c.edit.start = q.qualifierSpan.start := nofun
  unfold Repair.qualifiedCorrections
  split
  · exact ⟨none, _, rfl, hnone, fun c hc => columnCorrection?_edits hk hcolumn hdot' hc⟩
  split
  · exact ⟨none, none, rfl, hnone, nofun⟩
  rename_i hreserved
  split
  · exact ⟨none, none, rfl, hnone, nofun⟩
  · refine ⟨_, _, rfl, fun c hc => ?_, fun c hc => columnCorrection?_edits hk hcolumn hdot' hc⟩
    refine correction?_edits hqualifier (fun _ => ?_) hk.tables hc fun _ _ _ => hdot
    exact isKeyword_eq_false_of_isReserved (Bool.eq_false_iff.2 hreserved)

theorem qualifiedCorrections_edit (h : LexedAs sql ts) (hdots : QuotesLackDots ts)
    (hk : k.Within names) :
    CorrectsTokens (PutWhere names Repair.OfQualified) ts
      ((qualifiedRefs (maskLiterals sql)).flatMap
        (Repair.qualifiedCorrections k context bound)) := by
  rw [← h.mask]
  have hone : ∀ q ∈ qualifiedRefs (maskOf ts),
      (∀ c ∈ Repair.qualifiedCorrections k context bound q,
        EditsToken (PutWhere names Repair.OfQualified) ts c.edit ∧
          q.qualifierSpan.start ≤ c.edit.start ∧ c.edit.start ≤ q.columnSpan.start) ∧
      (Repair.qualifiedCorrections k context bound q).Pairwise
        fun c d => c.edit.start < d.edit.start := by
    intro q hmem
    obtain ⟨hqualifier, hcolumn, hlt, hdot, hdot'⟩ := stand_of_mem_qualifiedRefs h.lexed hdots hmem
    obtain ⟨a, b, heq, ha, hb⟩ := exists_of_qualifiedCorrections hk hqualifier hdot hcolumn hdot'
    rw [heq]
    constructor
    · intro c hc
      rcases List.mem_append.1 hc with hc | hc
      · obtain ⟨hedits, hstart⟩ := ha c (Option.mem_toList.1 hc)
        exact ⟨hedits, by omega, by omega⟩
      · obtain ⟨hedits, hstart⟩ := hb c (Option.mem_toList.1 hc)
        exact ⟨hedits, by omega, by omega⟩
    · refine List.pairwise_append.2 ⟨?_, ?_, fun c hc d hd => ?_⟩
      · cases a <;> simp
      · cases b <;> simp
      · rw [(ha c (Option.mem_toList.1 hc)).2, (hb d (Option.mem_toList.1 hd)).2]
        exact hlt
  constructor
  · intro c hc
    obtain ⟨q, hmem, hc⟩ := List.mem_flatMap.1 hc
    exact ((hone q hmem).1 c hc).1
  · apply nodup_starts_of_pairwise
    refine List.pairwise_flatMap.2 ⟨fun q hmem => (hone q hmem).2, ?_⟩
    refine (pairwise_qualifiedRefs h.lexed hdots).imp_of_mem ?_
    intro q r hqmem hrmem hlt c hc d hd
    have := (hone q hqmem).1 c hc
    have := (hone r hrmem).1 d hd
    omega

theorem quotedCorrections_edit (h : LexedAs sql ts) {columns : List Text}
    (hcolumns : ∀ n ∈ columns, names n) :
    CorrectsTokens (PutWhere names (Repair.OfQuoted k)) ts
      (Repair.quotedCorrections k context (maskLiterals sql) bound columns) := by
  rw [← h.mask]
  have hone : ∀ l ∈ quotedNames (maskOf ts), ∀ c : Correction,
      (if (Dictionary.find? (lower l.value) bound).isSome ||
          (declaredAliases (maskOf ts)).contains l.value ||
          k.tables.any (fun t => lower t == lower l.value) then none
        else Repair.correction? "Column" ⟨l.value, true⟩ ⟨l.start, l.stop⟩ columns context) =
          some c →
      EditsToken (PutWhere names (Repair.OfQuoted k)) ts c.edit ∧ c.edit.start = l.start := by
    intro l hl c hc
    split at hc
    · cases hc
    · rename_i hno
      have hdot := not_dotBeside_of_mem_quotedNames h.lexed hl
      refine correction?_edits (stand_of_mem_quotedNames h.lexed hl) (fun hbare => by cases hbare)
        hcolumns hc fun _ _ _ => ⟨rfl, hdot, fun t ht heq => hno ?_⟩
      rw [Bool.or_eq_true_iff]
      exact .inr (List.any_eq_true.2 ⟨t, ht, by simpa using heq⟩)
  constructor
  · intro c hc
    obtain ⟨l, hl, hsome⟩ := List.mem_filterMap.1 hc
    exact (hone l hl c hsome).1
  · apply nodup_starts_of_pairwise
    refine List.pairwise_filterMap.2 ((pairwise_quotedNames _).imp_of_mem fun {l m} hl hm hlt => ?_)
    intro c hc d hd
    rw [(hone l hl c hc).2, (hone m hm d hd).2]
    exact hlt.1

theorem stands_of_mem_distinct (h : LexedAs sql ts) {l : Hit Text}
    (hl : l ∈ distinct (selectedNames (maskQuoted (maskLiterals sql)))) :
    StandsIn ⟨l.value, false⟩ l.start l.stop 0 ts := by
  rw [← h.mask] at hl
  exact stand_of_mem_selectedNames h.lexed (mem_distinct l hl)

/-- Two places where a bare name stands differ in their starts. -/
theorem pairwise_selectedNames (h : LexedAs sql ts) :
    (distinct (selectedNames (maskQuoted (maskLiterals sql)))).Pairwise
      fun l m => l.start ≠ m.start := by
  refine (nodup_distinct _).imp_of_mem fun {l m} hl hm hne heq => hne ?_
  have hm' := stands_of_mem_distinct h hm
  rw [← heq] at hm'
  obtain ⟨hi, hstop⟩ := (stands_of_mem_distinct h hl).unique h.lexed hm'
  obtain ⟨start, stop, value⟩ := l
  obtain ⟨start', stop', value'⟩ := m
  rw [Hit.mk.injEq]
  exact ⟨heq, hstop, congrArg Identifier.name hi⟩

theorem selectCorrections_edit (h : LexedAs sql ts) {columns : List Text}
    (hcolumns : ∀ n ∈ columns, names n) :
    CorrectsTokens (PutWhere names Repair.OfSelected) ts
      (Repair.selectCorrections context sql bound columns) := by
  have hone : ∀ l ∈ distinct (selectedNames (maskQuoted (maskLiterals sql))), ∀ b : Bool,
      ∀ c : Correction, (if isReserved l.value || b then none
        else Repair.correction? "Column" ⟨l.value, false⟩ ⟨l.start, l.stop⟩ columns context) =
          some c →
      EditsToken (PutWhere names Repair.OfSelected) ts c.edit ∧ c.edit.start = l.start := by
    intro l hl b c hc
    split at hc
    · cases hc
    · rename_i hreserved
      refine correction?_edits (stands_of_mem_distinct h hl) (fun _ => ?_) hcolumns hc fun _ _ _ => rfl
      apply isKeyword_eq_false_of_isReserved
      cases hr : isReserved l.value
      · rfl
      · rw [hr] at hreserved
        exact absurd rfl hreserved
  unfold Repair.selectCorrections
  simp only [Bool.or_assoc]
  constructor
  · intro c hc
    obtain ⟨l, hl, hsome⟩ := List.mem_filterMap.1 hc
    exact (hone l hl _ c hsome).1
  · refine List.pairwise_map.2 (List.pairwise_filterMap.2 ?_)
    refine (pairwise_selectedNames h).imp_of_mem fun {l m} hl hm hne => ?_
    intro c hc d hd
    rw [(hone l hl _ c hc).2, (hone m hm _ d hd).2]
    exact hne

end Passes

/-! ## The passes in turn -/

/-- The tokens of a text as each pass of the repair leaves them. -/
structure RepairSteps (names : Text → Prop) (k : KnownNames) (sql : Text)
    (ts a b c d : List Token) : Prop where
  tables : Replaced (PutWhere names (Repair.OfTable k sql (tableRefs sql))) [] ts a
  qualified : Replaced (PutWhere names Repair.OfQualified) [] a b
  quoted : Replaced (PutWhere names (Repair.OfQuoted k)) [] b c
  selected : Replaced (PutWhere names Repair.OfSelected) [] c d
  lexed : LexedAs (repair k sql).sql d

theorem Replaced.put {P : Bool → Identifier → Text → Prop} {before : Text} {ts us : List Token}
    (h : Replaced (PutWhere names P) before ts us) :
    List.Forall₂ (Put fun n => names n ∧ n ≠ []) ts us :=
  h.forall₂ .same fun _ _ _ => PutWhere.put

theorem QuotesLackDots.put {ts us : List Token} (hts : QuotesLackDots ts)
    (h : List.Forall₂ (Put names) ts us) (hnames : ∀ n, names n → '.' ∉ n) :
    QuotesLackDots us := by
  intro w hw
  induction h with
  | nil => cases hw
  | @cons t u ts us htu _ ih =>
    have htail : QuotesLackDots ts := fun v hv => hts v (List.mem_cons_of_mem t hv)
    rcases List.mem_cons.1 hw with rfl | hw
    · cases hswap : htu.swap with
      | same => exact hts w List.mem_cons_self
      | quote _ hn => exact hnames w hn
      | quoted hn => exact hnames w hn
    · exact ih htail hw

theorem Replaced.refl (R : Bool → Token → Token → Prop) (before : Text) (ts : List Token) :
    Replaced R before ts ts := by
  unfold Replaced
  nth_rewrite 2 [← map_fst_dotted before ts]
  exact List.forall₂_map_right_iff.2 (List.forall₂_same.2 fun _ _ => .inl rfl)

/-- Each pass of the repair replaces tokens of the text that the one before it left. -/
theorem exists_repairSteps {k : KnownNames} {sql : Text} {ts : List Token} (h : TokensOf sql ts)
    (hk : k.Within names)
    (hnames : ∀ n, names n → n ≠ [] → (Token.quoted n).Fit ∧ '.' ∉ n) :
    ∃ a b c d, RepairSteps names k sql ts a b c d := by
  have hfit : ∀ n, names n → n ≠ [] → (Token.quoted n).Fit := fun n hn hne => (hnames n hn hne).1
  suffices hsteps : ∃ a b c d,
      Replaced (PutWhere names (Repair.OfTable k sql (tableRefs sql))) [] ts a ∧
      Replaced (PutWhere names Repair.OfQualified) [] a b ∧
      Replaced (PutWhere names (Repair.OfQuoted k)) [] b c ∧
      Replaced (PutWhere names Repair.OfSelected) [] c d ∧ LexedAs (repair k sql).sql d by
    obtain ⟨a, b, c, d, ha, hb, hc, hd, hlexed⟩ := hsteps
    exact ⟨a, b, c, d, ha, hb, hc, hd, hlexed⟩
  unfold repair
  split
  · exact ⟨ts, ts, ts, ts, .refl _ _ ts, .refl _ _ ts, .refl _ _ ts, .refl _ _ ts, h.lexedAs⟩
  simp only
  obtain ⟨a, ha, hta⟩ :=
    (tableCorrections_edit h.lexedAs (tableRefs_tokens h) hk).replaced hfit h.lexedAs
  have hdots : QuotesLackDots a := h.words.lackDots.put ha.put fun n hn => (hnames n hn.1 hn.2).2
  generalize Repair.apply sql (Repair.tableCorrections k sql (tableRefs sql)) = sql₁ at hta ⊢
  generalize Repair.bindings k sql (tableRefs sql) = bound
  obtain ⟨b, hb, htb⟩ :=
    (@qualifiedCorrections_edit _ _ _ k sql bound hta hdots hk).replaced hfit hta
  generalize Repair.apply sql₁ _ = sql₂ at htb ⊢
  have hcolumns := hk.candidateColumns (distinct ((tableRefs sql).map (Repair.resolvedTable k sql)))
  generalize k.candidateColumns _ = columns at hcolumns ⊢
  obtain ⟨c, hc, htc⟩ :=
    (@quotedCorrections_edit _ _ _ k sql bound htb columns hcolumns).replaced hfit htb
  generalize Repair.apply sql₂ _ = sql₃ at htc ⊢
  obtain ⟨d, hd, htd⟩ :=
    (@selectCorrections_edit _ _ _ sql bound htc columns hcolumns).replaced hfit htc
  exact ⟨a, b, c, d, ha, hb, hc, hd, htd⟩

/-- Repair replaces names by known ones, token by token. -/
theorem repair_renamed {k : KnownNames} {sql : Text} {ts : List Token} (h : TokensOf sql ts)
    (hk : k.Within names) (hnames : ∀ n, names n → IsWord n) :
    ∃ us, Renamed names ts us ∧ TokensOf (repair k sql).sql us := by
  have hfit : ∀ n, names n → n ≠ [] → (Token.quoted n).Fit ∧ '.' ∉ n := fun n hn _ =>
    ⟨(hnames n hn).fit_quoted, fun hdot => absurd ((hnames n hn).2 _ hdot) (by decide)⟩
  obtain ⟨a, b, c, d, hsteps⟩ := exists_repairSteps h hk hfit
  have hrenamed {t u : List Token} (hput : List.Forall₂ (Put fun n => names n ∧ n ≠ []) t u) :
      Renamed names t u := hput.imp fun _ _ htu => htu.swap.mono fun n hn => hn.1
  have hall : Renamed names ts d :=
    ((hrenamed hsteps.tables.put).trans (hrenamed hsteps.qualified.put)).trans
      ((hrenamed hsteps.quoted.put).trans (hrenamed hsteps.selected.put))
  exact ⟨d, hall, hsteps.lexed.lexed, hall.quotesHoldWords hnames h.words, hsteps.lexed.text,
    hsteps.lexed.mask⟩

end QueryGate
