import QueryGate.Proofs.Sql.NamesBack

/-!
# The scan of a list of tables

What the scan for tables finds in the parts of a query: nothing in names, aliases and blanks, one
reference behind a `JOIN`, and in free text references that start in it.
-/

namespace QueryGate

/-! ## Parts where nothing is read -/

theorem foldLetter_head?_of_spells {word x r : Text} (hword : word ∈ sourceWords)
    (hx : Spells word x) : ∃ c u, x ++ r = c :: u ∧ (foldLetter c = 'f' ∨ foldLetter c = 'j') := by
  cases x with
  | nil =>
    have hne : ∀ word ∈ sourceWords, word ≠ [] := by decide
    exact absurd (List.length_eq_zero_iff.1 hx.length_eq.symm) (hne word hword)
  | cons c x =>
    refine ⟨c, x ++ r, rfl, ?_⟩
    simp only [sourceWords, List.mem_cons, List.not_mem_nil, or_false] at hword
    rcases hword with rfl | rfl
    · exact .inl (List.cons.inj hx).1
    · exact .inr (List.cons.inj hx).1

/-- Characters that begin neither `FROM` nor `JOIN`. -/
theorem tableSource_cons_eq_none {before t : Text} {c : Char} (hf : foldLetter c ≠ 'f')
    (hj : foldLetter c ≠ 'j') : tableSource before (c :: t) = none := by
  rw [Option.eq_none_iff_forall_ne_some]
  rintro ⟨v, rest⟩ h
  obtain ⟨-, word, hword, x, r, heq, hx, -⟩ := tableSource_eq_some h
  obtain ⟨d, u, hd, hfold⟩ := foldLetter_head?_of_spells (r := r) hword hx
  rw [← heq] at hd
  obtain ⟨rfl, -⟩ := List.cons.inj hd
  exact hfold.elim hf hj

/-- A word with a blank behind it that is read inside a quoted name is read in the name alone. -/
theorem spacedWord_of_read_in_quotes {word x a b before next r t : Text}
    (hword : ∀ c ∈ word.map foldLetter, c.isLower = true)
    (hstart : atWordStart (('"' :: a).reverse ++ before) = true) (hb : b ++ '"' :: next = x ++ r)
    (hx : Spells word x) (ht : spaced? r = some t) :
    atWordStart a.reverse = true ∧ ((keyword? word b).bind spaced?).isSome = true := by
  constructor
  · rw [List.reverse_cons, List.append_assoc] at hstart
    cases ha : a.reverse with
    | nil => rfl
    | cons c u =>
      rw [ha] at hstart
      exact hstart
  obtain ⟨y, rfl, rfl⟩ : ∃ y, b = x ++ y ∧ r = y ++ '"' :: next := by
    obtain ⟨z, rfl, hz⟩ | ⟨z, rfl, rfl⟩ := List.append_eq_append_iff.1 hb
    · cases z with
      | nil => exact ⟨[], by simp, hz.symm⟩
      | cons c z =>
        -- The word has letters only, and no quote.
        obtain ⟨rfl, -⟩ := List.cons.inj hz
        exact absurd (hword _ (hx.mem (c := '"') (by simp))) (by decide)
    · exact ⟨z, rfl, rfl⟩
  rw [keyword?_append hx, Option.bind_some]
  cases y with
  | nil => cases ht
  | cons c y =>
    rw [List.cons_append, spaced?] at ht
    split at ht
    · rename_i hc
      rw [spaced?, if_pos hc]
      rfl
    · cases ht

/-- A reading inside a quoted name shows in the name alone. -/
theorem not_read_in_quotes {a b before next rest : Text} {v : TableSource}
    (hq : occurs spacedSource (a ++ b) = false) (hb : b ≠ [])
    (h : tableSource (('"' :: a).reverse ++ before) (b ++ ['"'] ++ next) = some (v, rest)) :
    False := by
  rw [List.append_assoc, List.singleton_append] at h
  obtain ⟨hstart, word, hword, x, r, heq, hx, ⟨t, ht, -⟩, -⟩ := tableSource_eq_some h
  have hletters : ∀ word ∈ sourceWords, ∀ c ∈ word.map foldLetter, c.isLower = true := by decide
  obtain ⟨hstart', hsome⟩ :=
    spacedWord_of_read_in_quotes (hletters word hword) hstart heq hx ht
  have hnone := occurs_eq_false_iff.1 hq a b rfl hb
  rw [spacedSource, if_pos hstart', List.findSome?_eq_none_iff] at hnone
  rw [Option.map_eq_none_iff.1 (hnone word hword)] at hsome
  cases hsome

namespace Scanned

variable {before next : Text}

theorem of_chars {p : Text} (h : ∀ c ∈ p, foldLetter c ≠ 'f' ∧ foldLetter c ≠ 'j') :
    Scanned before p next [] := by
  refine .of_none fun a b hab hb => ?_
  cases b with
  | nil => exact absurd rfl hb
  | cons c b =>
    obtain ⟨hf, hj⟩ := h c (by rw [hab]; simp)
    exact tableSource_cons_eq_none hf hj

theorem foldLetter_ne_of_isBlank {c : Char} (h : isBlank c = true) :
    foldLetter c ≠ 'f' ∧ foldLetter c ≠ 'j' := by
  have hno : (foldLetter c).isLower ≠ true := fun hlower => by
    have := isBlank_eq_false_of_isWordChar (isWordChar_of_isLower_foldLetter hlower)
    rw [h] at this
    cases this
  constructor <;> intro hc <;> rw [hc] at hno <;> exact hno rfl

theorem of_blank {g : Text} (hg : allBlank g = true) : Scanned before g next [] :=
  .of_chars fun c hc => foldLetter_ne_of_isBlank (List.all_eq_true.1 hg c hc)

/-- Parts where nothing is read, one behind the other. -/
theorem append_nil {p q : Text} (hp : Scanned before p (q ++ next) [])
    (hq : Scanned (p.reverse ++ before) q next []) : Scanned before (p ++ q) next [] := hp.append hq

/-- In a word nothing is read behind its first character. -/
theorem of_wordChars {w : Text} (hw : ∀ c ∈ w, isWordChar c = true)
    (h : tableSource before (w ++ next) = none) : Scanned before w next [] := by
  refine .of_none fun a b hab hb => ?_
  rcases List.eq_nil_or_concat a with rfl | ⟨z, c, rfl⟩
  · rw [List.nil_append] at hab
    rw [← hab]
    exact h
  · rw [Option.eq_none_iff_forall_ne_some]
    rintro ⟨v, rest⟩ hread
    have hstart := (tableSource_eq_some hread).1
    have hc : isWordChar c = true := hw c (by rw [hab]; simp)
    rw [List.concat_eq_append, List.reverse_append, List.reverse_singleton] at hstart
    simp [atWordStart, hc] at hstart

theorem of_word {w : Text} (hw : ∀ c ∈ w, isWordChar c = true)
    (hne : ∀ word ∈ sourceWords, ¬ Spells word w) (hnext : next.head?.any isWordChar = false) :
    Scanned before w next [] := by
  refine .of_wordChars hw ?_
  rw [Option.eq_none_iff_forall_ne_some]
  rintro ⟨v, rest⟩ h
  obtain ⟨-, word, hword, x, r, heq, hx, ⟨t, ht, -⟩, -⟩ := tableSource_eq_some h
  have hletters : ∀ word ∈ sourceWords, ∀ c ∈ word.map foldLetter, c.isLower = true := by decide
  have hnone := keyword?_bind_spaced?_of_word (hletters word hword) hw (hne word hword) hnext
  rw [heq, keyword?_append hx, Option.bind_some, ht] at hnone
  cases hnone

theorem of_inQuotes {q : Text} (hq : occurs spacedSource q = false) :
    Scanned before (inQuotes q) next [] := by
  have hquote (before t : Text) : tableSource before ('"' :: t) = none :=
    tableSource_cons_eq_none (by decide) (by decide)
  refine .of_none fun a b hab hb => ?_
  rw [inQuotes, List.cons_append] at hab
  cases a with
  | nil =>
    rw [List.nil_append] at hab
    rw [← hab]
    exact hquote _ _
  | cons d a =>
    obtain ⟨rfl, hq'⟩ := List.cons.inj hab
    obtain ⟨z, rfl, hz⟩ | ⟨z, rfl, rfl⟩ := List.append_eq_append_iff.1 hq'
    · cases z with
      | nil =>
        rw [List.nil_append] at hz
        rw [← hz]
        exact hquote _ _
      | cons e z =>
        obtain ⟨-, hz⟩ := List.cons.inj hz
        exact absurd (List.append_eq_nil_iff.1 hz.symm).2 hb
    · cases z with
      | nil => exact hquote _ _
      | cons e z =>
        rw [Option.eq_none_iff_forall_ne_some]
        rintro ⟨v, rest⟩ h
        exact not_read_in_quotes hq (List.cons_ne_nil _ _) h

end Scanned

/-! ## Names and aliases -/

theorem sourceWords_spelled_by_keywords : ∀ word ∈ sourceWords,
    ∃ k ∈ sqlKeywords, word.map foldLetter = k.map foldLetter := by decide +kernel

theorem Scanned.of_spelling {before next word : Text} (w : Spelling word)
    (hletters : ∀ c ∈ word.map foldLetter, c.isLower = true)
    (hne : ∀ k ∈ sourceWords, k.map foldLetter ≠ word.map foldLetter)
    (hnext : next.head?.any isWordChar = false) : Scanned before w.text next [] := by
  refine .of_word (fun c hc => ?_) (fun k hk hs => hne k hk (hs.symm.trans w.spells)) hnext
  exact isWordChar_of_isLower_foldLetter (hletters _ (w.spells.mem hc))

theorem PlainName.scanned {before next : Text} (n : PlainName)
    (hnext : next.head?.any isNamePart = false) : Scanned before n.text next [] := by
  rcases n.bare_or_quoted with ⟨-, htext, hw⟩ | ⟨-, htext, hq⟩
  · rw [htext]
    refine .of_word hw.chars (fun word hword hs => ?_) (head?_any_isWordChar hnext)
    obtain ⟨k, hk, hfold⟩ := sourceWords_spelled_by_keywords word hword
    exact hw.not_spelling k hk (hs.trans hfold)
  · rw [htext]
    exact .of_inQuotes hq.quiet

theorem head?_any_isNamePart_of_blank {g r : Text} (hg : allBlank g = true)
    (hr : g = [] → r.head?.any isNamePart = false) : (g ++ r).head?.any isNamePart = false := by
  cases g with
  | nil => exact hr rfl
  | cons c g => exact isNamePart_eq_false_of_isBlank (List.all_eq_true.1 hg c List.mem_cons_self)

theorem TableName.scanned {before next : Text} (t : TableName)
    (hnext : next.head?.any isNamePart = false) : Scanned before t.text next [] := by
  rw [TableName.text, TableName.lead]
  cases t.qualifier? with
  | none => exact t.name.scanned hnext
  | some q =>
    obtain ⟨q, gap, gap'⟩ := q
    have hdot : ∀ c ∈ gap.text ++ '.' :: gap'.text, foldLetter c ≠ 'f' ∧ foldLetter c ≠ 'j' := by
      intro c hc
      rcases List.mem_append.1 hc with hc | hc
      · exact Scanned.foldLetter_ne_of_isBlank (List.all_eq_true.1 gap.blank c hc)
      · rcases List.mem_cons.1 hc with rfl | hc
        · decide
        · exact Scanned.foldLetter_ne_of_isBlank (List.all_eq_true.1 gap'.blank c hc)
    refine .append_nil (.append_nil (q.scanned ?_) (.of_chars hdot)) (t.name.scanned hnext)
    rw [List.append_assoc]
    exact head?_any_isNamePart_of_blank gap.blank fun _ => rfl

theorem Alias.scanned {before next : Text} (a : Alias)
    (hnext : next.head?.any isNamePart = false) : Scanned before a.text next [] := by
  rw [Alias.text]
  cases a.as? with
  | none => exact a.name.scanned hnext
  | some p =>
    obtain ⟨word, gap⟩ := p
    refine .append_nil (.of_spelling word (by decide) (by decide) ?_)
      (.append_nil (.of_blank gap.blank) (a.name.scanned hnext))
    rw [List.append_assoc]
    exact head?_any_isWordChar
      (head?_any_isNamePart_of_blank gap.blank fun h => absurd h gap.ne_nil)

/-! ## Sources behind `FROM` and `JOIN` -/

theorem TableName.not_blank (t : TableName) (r : Text) :
    (t.text ++ r).head?.any isBlank = false := by
  rw [TableName.text, TableName.lead]
  cases t.qualifier? with
  | none => exact t.name.not_blank r
  | some q =>
    obtain ⟨q, gap, gap'⟩ := q
    rw [List.append_assoc, List.append_assoc]
    exact q.not_blank _

/-- A table behind `FROM` or `JOIN` is read. -/
theorem tableSource_of_table {before next word gap : Text} (hword : word ∈ sourceWords)
    (w : Spelling word) (hb : atWordStart before = true) (hgap : allBlank gap = true)
    (hne : gap ≠ []) (t : TableName) (hnext : Apart next) :
    tableSource before (w.text ++ (gap ++ (t.text ++ next))) =
      some (⟨capitals w.text, capitals w.text ≠ "FROM" || introducesTable before,
        t.readBack next⟩, next) := by
  have hrest : (keyword? word (w.text ++ (gap ++ (t.text ++ next)))).bind spaced? =
      some (t.text ++ next) := by
    rw [keyword?_append w.spells, Option.bind_some]
    exact spaced?_append hne hgap (t.not_blank next)
  have hread := t.read? (fun _ => isFoldedNameStart_of_isNameStart) hnext
  have htake : (w.text ++ (gap ++ (t.text ++ next))).take word.length = w.text := by
    rw [← w.spells.length_eq, List.take_left]
  unfold tableSource
  rw [if_pos hb]
  simp only [sourceWords, List.mem_cons, List.not_mem_nil, or_false] at hword
  rcases hword with rfl | rfl
  · simp only [hrest, hread, htake, Option.bind_eq_bind, Option.bind_some]
    rfl
  · have hfrom : (keyword? "FROM" (w.text ++ (gap ++ (t.text ++ next)))) = none := by
      cases hw : w.text with
      | nil =>
        have := w.spells.length_eq
        rw [hw] at this
        cases this
      | cons c u =>
        have hc : foldLetter c = 'j' := by
          have := w.spells
          rw [hw] at this
          exact (List.cons.inj this).1
        have : foldLetter 'F' ≠ foldLetter c := by
          rw [hc]
          decide
        exact if_neg fun hb => this (eq_of_beq hb)
    simp only [hfrom, hrest, hread, htake, Option.bind_eq_bind, Option.bind_some, Option.bind_none]
    rfl

/-- A query in parentheses behind `FROM` or `JOIN` is not. -/
theorem tableSource_of_parenthesis {before t word gap : Text} (hword : word ∈ sourceWords)
    (w : Spelling word) (hgap : allBlank gap = true) :
    tableSource before (w.text ++ (gap ++ '(' :: t)) = none := by
  rw [Option.eq_none_iff_forall_ne_some]
  rintro ⟨v, rest⟩ h
  obtain ⟨-, word', hword', x, r, heq, hx, ⟨u, hu, hn⟩, -⟩ := tableSource_eq_some h
  have hlen : w.text.length = x.length := by
    have hfour : ∀ word ∈ sourceWords, word.length = 4 := by decide
    rw [w.spells.length_eq, hx.length_eq, hfour word hword, hfour word' hword']
  obtain ⟨-, rfl⟩ := List.append_inj heq hlen
  rw [spaced?_eq_skipBlanks hu, skipBlanks_append hgap rfl] at hn
  cases hn

/-- In front of a parenthesis nothing is read in `FROM` or `JOIN` and the blanks. -/
theorem Scanned.of_parenthesis (before : Text) {next word gap : Text} (hword : word ∈ sourceWords)
    (w : Spelling word) (hgap : allBlank gap = true) (hnext : next.head? = some '(') :
    Scanned before (w.text ++ gap) next [] := by
  obtain ⟨t, rfl⟩ : ∃ t, next = '(' :: t := by
    cases next with
    | nil => cases hnext
    | cons c t => exact ⟨t, by rw [Option.some.inj hnext]⟩
  refine .append_nil (.of_wordChars (fun c hc => ?_) (tableSource_of_parenthesis hword w hgap))
    (.of_blank hgap)
  exact isWordChar_of_isLower_foldLetter (spells_sourceWord_letters hword w.spells c hc)

/-! ## References -/

/-- A reference to a table that was written with its name at an offset. -/
structure TableRef.Names (r : TableRef) (t : TableName) (start : Nat) : Prop where
  identifier : r.identifier = t.name.identifier
  schema : r.schema = t.qualifier?.map (·.1.identifier.name)
  start : r.start = start

/-- What is left behind the name of a table and its alias, if one is read. -/
def afterAlias (t : Text) : Text :=
  match aliasAfter? t with
  | some (i, rest) => if i.quoted || !isKeyword i.name then rest else t
  | none => t

theorem PlainName.not_keyword (n : PlainName) :
    (!n.identifier.quoted && isKeyword n.identifier.name) = false := by
  rcases n.bare_or_quoted with ⟨-, -, hw⟩ | ⟨hq, -, -⟩
  · rw [hw.not_keyword, Bool.and_false]
  · rw [hq]
    rfl

/-- A table that is read back makes a reference. -/
theorem exists_tableRef? (size : Nat) (keyword : Text) (t : TableName) {next : Text}
    (hnext : Apart next) :
    ∃ r, tableRef? size keyword (t.readBack next) = some (r, afterAlias next) ∧
      r.Names t (size - (t.name.text ++ next).length) := by
  unfold tableRef?
  have hcall : opensCall (t.readBack next).rest = false := hnext.opensCall_eq_false
  have hkeyword : (!(t.readBack next).name.quoted && isKeyword (t.readBack next).name.name) =
      false := t.name.not_keyword
  rw [hcall, hkeyword, if_neg (by decide)]
  have hschema : (t.readBack next).qualifier.map (·.name) =
      t.qualifier?.map (·.1.identifier.name) := by
    rw [TableName.readBack, Option.map_map]
    rfl
  unfold afterAlias
  have hrest : (t.readBack next).rest = next := rfl
  rw [hrest]
  cases ha : aliasAfter? next with
  | none => exact ⟨_, rfl, rfl, hschema, rfl⟩
  | some a =>
    obtain ⟨i, rest⟩ := a
    simp only
    split
    · exact ⟨_, rfl, rfl, hschema, rfl⟩
    · exact ⟨_, rfl, rfl, hschema, rfl⟩

/-! ## Sources and items -/

theorem apart_aliasText (alias? : Option (Gap × Alias)) {next : Text} (hnext : Apart next) :
    Apart (aliasText alias? ++ next) := by
  cases alias? with
  | none => exact hnext
  | some p =>
    obtain ⟨gap, a⟩ := p
    rw [aliasText, List.append_assoc]
    exact a.apart gap next

theorem scanned_aliasText (before : Text) {next : Text} (alias? : Option (Gap × Alias))
    (hnext : next.head?.any isNamePart = false) : Scanned before (aliasText alias?) next [] := by
  cases alias? with
  | none => exact .of_blank rfl
  | some p => exact .append_nil (.of_blank p.1.blank) (p.2.scanned hnext)

theorem Subquery.head?_text_maskLiterals (query : Subquery) (r : Text) :
    '(' ∈ (maskLiterals query.text ++ r).head? := by
  rw [List.head?_append, head?_maskLiterals, query.opens]
  rfl

theorem Subquery.scanned (before : Text) (query : Subquery) {next : Text}
    (hdot : (skipBlanks next).head? ≠ some '.') :
    ∃ rs, Scanned before (maskLiterals query.text) next rs := by
  have hlast : (maskLiterals query.text).getLast? = some ')' := by
    rw [getLast?_maskLiterals, query.closes]
  refine Scanned.of_isClosed before query.closed (.inr ⟨fun hnil => ?_, ?_⟩) hdot
  · rw [hnil] at hlast
    cases hlast
  · rw [hlast]
    rfl

/-- A source that is not behind `FROM` or `JOIN` adds references only if it is a query. -/
theorem Source.scanned (before : Text) (s : Source) {next : Text} (hnext : Apart next) :
    ∃ rs, Scanned before (s.text maskLiterals) next rs ∧ (s.isTable = true → rs = []) := by
  cases s with
  | table name alias? =>
    have hname := (apart_aliasText alias? hnext).head
    exact ⟨[], .append_nil (name.scanned hname) (scanned_aliasText _ alias? hnext.head),
      fun _ => rfl⟩
  | derived query gap a =>
    have hdot : (skipBlanks (gap.text ++ a.text ++ next)).head? ≠ some '.' := by
      have hno : (a.text ++ next).head?.any (fun c => isBlank c || c == '.' || c == '(') = false :=
        a.head?_text_any (by decide) (fun _ => not_end_of_isWordChar) next
      rw [List.append_assoc, skipBlanks_append gap.blank (a.not_blank next)]
      intro h
      rw [h] at hno
      cases hno
    obtain ⟨rs, hrs⟩ := query.scanned before hdot
    have halias : Scanned ((maskLiterals query.text).reverse ++ before) (gap.text ++ a.text)
        next [] :=
      .append_nil (.of_blank gap.blank) (a.scanned hnext.head)
    exact ⟨rs ++ [], hrs.append halias, fun h => nomatch h⟩

theorem kindsText_cons (k : JoinKind) (kinds : List JoinKind) :
    kindsText (k :: kinds) = k.gap.text ++ k.spelling.text ++ kindsText kinds := by
  rw [kindsText, List.flatMap_cons, kindsText]

theorem head?_kindsText_any (kinds : List JoinKind) {next : Text}
    (hnext : next.head?.any isNamePart = false) :
    (kindsText kinds ++ next).head?.any isNamePart = false := by
  cases kinds with
  | nil => exact hnext
  | cons k kinds =>
    rw [kindsText_cons, List.append_assoc, List.append_assoc]
    exact head?_any_isNamePart_of_blank k.gap.blank fun h => absurd h k.gap.ne_nil

theorem scanned_kindsText {before next : Text} (kinds : List JoinKind)
    (hnext : next.head?.any isNamePart = false) : Scanned before (kindsText kinds) next [] := by
  induction kinds generalizing before with
  | nil => exact .of_blank rfl
  | cons k kinds ih =>
    have hne : ∀ word ∈ joinKinds, ∀ k ∈ sourceWords, k.map foldLetter ≠ word.map foldLetter := by
      decide
    have hword {before : Text} : Scanned before k.spelling.text (kindsText kinds ++ next) [] :=
      .of_spelling _ k.letters (hne _ k.mem)
        (head?_any_isWordChar (head?_kindsText_any kinds hnext))
    rw [kindsText_cons]
    exact .append_nil (.append_nil (.of_blank k.gap.blank) hword) ih

theorem capitals_join_ne (w : Spelling "JOIN") : capitals w.text ≠ "FROM" := by
  obtain ⟨w, hw⟩ := w
  cases w with
  | nil => cases hw
  | cons c w =>
    have hc : foldLetter c = 'j' := (List.cons.inj hw).1
    intro h
    have hcap : capitalLetter c = 'F' := (List.cons.inj h).1
    rw [capitalLetter_of_foldLetter hc (by decide) (by decide)] at hcap
    exact absurd hcap (by decide)

/-- The text from the name of a table on, measured from the end. -/
theorem TableName.start_eq (t : TableName) (n : Nat) (u next : Text) :
    n + (u ++ (t.text ++ next)).length - (t.name.text ++ next).length =
      n + u.length + t.lead.length := by
  simp only [TableName.text, List.length_append]
  omega

/-- A table behind `JOIN` adds the reference to it. -/
theorem Scanned.of_joinedTable {before next gap : Text} (w : Spelling "JOIN")
    (hb : atWordStart before = true) (hgap : allBlank gap = true) (hne : gap ≠ []) (t : TableName)
    (hnext : Apart next) :
    ∃ r, Scanned before (w.text ++ gap ++ t.text) next [r] ∧
      r.Names t (before.length + (w.text ++ gap).length + t.lead.length) := by
  have hread := tableSource_of_table (by decide) w hb hgap hne t hnext
  have hu : w.text ++ gap ++ t.text ≠ [] := by simp [hne]
  rw [← List.append_assoc, ← List.append_assoc] at hread
  have hrefs := refsFrom_of_read hu hread
  obtain ⟨r, href, hnames⟩ := exists_tableRef?
    (before.length + (w.text ++ gap ++ t.text ++ next).length) (capitals w.text) t hnext
  have hjoin := capitals_join_ne w
  rw [TableSource.refs] at hrefs
  simp only [href, hjoin, ne_eq, not_false_eq_true, decide_true, Bool.true_or, Bool.not_true,
    if_neg, Bool.false_eq_true] at hrefs
  rw [List.append_assoc, t.start_eq] at hnames
  refine ⟨r, ⟨hrefs, fun r' hr' => ?_⟩, hnames⟩
  rw [List.mem_singleton.1 hr', hnames.start]
  have : t.name.text.length ≠ 0 := fun h => t.name.text_ne_nil (List.length_eq_zero_iff.1 h)
  simp only [TableName.text, List.length_append]
  omega

theorem refs_of_from {size : Nat} {v : TableSource} {r : TableRef} {rest : Text}
    (hintroduces : v.introduces = true) (hkeyword : v.keyword = "FROM")
    (h : tableRef? size "FROM" v.name = some (r, rest)) :
    v.refs size = r :: listedRefs size "FROM" rest.length rest := by
  rw [TableSource.refs, hintroduces, hkeyword, h]
  rfl

/-- A table behind `FROM` makes a reference, and the list and the scan go on behind it. -/
theorem refsFrom_table {before next gap : Text} (w : Spelling "FROM")
    (hb : atWordStart before = true) (hintroduces : introducesTable before = true)
    (hgap : allBlank gap = true) (hne : gap ≠ []) (t : TableName) (hnext : Apart next) :
    ∃ r, refsFrom before (w.text ++ gap ++ t.text ++ next) =
        r :: listedRefs (before.length + (w.text ++ gap ++ t.text ++ next).length) "FROM"
          (afterAlias next).length (afterAlias next) ++
        refsFrom ((w.text ++ gap ++ t.text).reverse ++ before) next ∧
      r.Names t (before.length + (w.text ++ gap).length + t.lead.length) := by
  have hread := tableSource_of_table (by decide) w hb hgap hne t hnext
  rw [← List.append_assoc, ← List.append_assoc] at hread
  have hrefs := refsFrom_of_read (by simp [hne]) hread
  obtain ⟨r, href, hnames⟩ := exists_tableRef?
    (before.length + (w.text ++ gap ++ t.text ++ next).length) "FROM" t hnext
  rw [refs_of_from (by rw [hintroduces, Bool.or_true]) (capitals_of_spells_from w.spells) href]
    at hrefs
  rw [List.append_assoc, t.start_eq] at hnames
  exact ⟨r, hrefs, hnames⟩

/-- A source behind `JOIN` adds the reference to it, if it is a table. -/
theorem Introduced.scanned_joined {before next : Text} (w : Spelling "JOIN") (s : Introduced)
    (hb : atWordStart before = true) (hnext : Apart next) :
    ∃ rs, Scanned before (w.text ++ s.gap.text ++ s.source.text maskLiterals) next rs ∧
      ∀ p ∈ s.source.placed (before.length + (w.text ++ s.gap.text).length) .joined,
        ∃ r ∈ rs, r.Names p.table p.start := by
  obtain ⟨gap, source, hgap⟩ := s
  cases source with
  | table name alias? =>
    obtain ⟨r, hr, hnames⟩ := Scanned.of_joinedTable w hb gap.blank (hgap rfl) name
      (apart_aliasText alias? hnext)
    refine ⟨[r] ++ [], ?_, fun p hp => ?_⟩
    · simp only [Source.text]
      rw [← List.append_assoc]
      exact hr.append (scanned_aliasText _ alias? hnext.head)
    · rw [List.mem_singleton.1 hp]
      exact ⟨r, by simp, hnames⟩
  | derived query gap' a =>
    obtain ⟨rs, hrs, -⟩ := Source.scanned ((w.text ++ gap.text).reverse ++ before)
      (.derived query gap' a) hnext
    have hword : Scanned before (w.text ++ gap.text)
        ((Source.derived query gap' a).text maskLiterals ++ next) [] :=
      .of_parenthesis _ (by decide) w gap.blank <| by
        rw [Source.text, List.append_assoc]
        exact query.head?_text_maskLiterals _
    exact ⟨[] ++ rs, hword.append hrs, fun p hp => absurd hp List.not_mem_nil⟩

end QueryGate
