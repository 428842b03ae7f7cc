import QueryGate.Proofs.Sql.FromScan

/-!
# The items of a list of tables

What is found in the items behind the first source of a list. The scan finds the tables behind
`JOIN`, wherever they stand (`FromQuery.foundAs_refsFrom_restText`). The list of a `FROM` goes from
comma to comma and stops at the first item that is no plain table, so it finds the leading tables
(`FromQuery.foundAs_listedRefs`). Neither finds a detached one.
-/

namespace QueryGate

/-! ## What an item begins with -/

theorem Introduced.head?_any_isNamePart (s : Introduced) (r : Text) :
    (s.gap.text ++ (s.source.text maskLiterals ++ r)).head?.any isNamePart = false := by
  refine head?_any_isNamePart_of_blank s.gap.blank fun hgap => ?_
  cases hs : s.source with
  | table name alias? => exact absurd hgap (s.apart (by rw [hs]; rfl))
  | derived query gap a =>
    rw [Source.text, List.append_assoc, query.head?_text_maskLiterals]
    rfl

/-- The words that a `JOIN` may begin with. -/
def joinWords : List Text := "JOIN" :: joinKinds

theorem joinWords_letters : ∀ word ∈ joinWords, ∀ c ∈ word.map foldLetter, c.isLower = true := by
  decide

theorem joinWords_ne_nil : ∀ word ∈ joinWords, word ≠ [] := by decide

/-- A source behind `JOIN` begins with blanks and a keyword. -/
theorem Join.exists_keyword (j : Join) (next : Text) :
    ∃ (gap : Gap) (word : Text) (w : Keyword word) (r : Text), word ∈ joinWords ∧
      (Item.join j).text maskLiterals ++ next = gap.text ++ (w.text ++ r) ∧
      r.head?.any isNamePart = false := by
  have htarget := j.target.head?_any_isNamePart ((Item.join j).trail maskLiterals ++ next)
  cases hkinds : j.kinds with
  | nil =>
    refine ⟨j.gap, "JOIN", j.word, _, List.mem_cons_self, ?_, htarget⟩
    simp only [Item.text, Item.lead, Item.source, hkinds, kindsText, List.flatMap_nil,
      List.nil_append, List.append_assoc]
  | cons k kinds =>
    refine ⟨k.gap, k.word, k.spelling, kindsText kinds ++ (j.gap.text ++ (j.word.text ++
      (j.target.gap.text ++ (j.target.source.text maskLiterals ++
        ((Item.join j).trail maskLiterals ++ next))))), List.mem_cons_of_mem _ k.mem, ?_, ?_⟩
    · simp only [Item.text, Item.lead, Item.source, hkinds, kindsText_cons, List.append_assoc]
    · exact head?_kindsText_any kinds
        (head?_any_isNamePart_of_blank j.gap.blank fun h => absurd h j.gap.ne_nil)

/-- An item keeps what is in front of it apart. -/
theorem Item.apart (i : Item) (next : Text) : Apart (i.text maskLiterals ++ next) := by
  cases i with
  | comma before after s =>
    rw [text, lead, List.append_assoc, List.append_assoc]
    refine ⟨head?_any_isNamePart_of_blank before.blank fun _ => rfl, ?_⟩
    rw [skipBlanks_append before.blank rfl]
    rfl
  | join j =>
    obtain ⟨gap, word, w, r, hword, heq, -⟩ := j.exists_keyword next
    rw [heq]
    exact .of_blanks gap.blank gap.ne_nil (w.head?_text_any (joinWords_letters word hword)
      (joinWords_ne_nil word hword) (fun _ => not_end_of_isWordChar) r)

theorem Tail.apart_maskLiterals (tail : Tail) : Apart (maskLiterals tail.text) := by
  constructor
  · have hhead := tail.apart
    rw [head?_maskLiterals]
    cases ht : tail.text.head? with
    | none => rfl
    | some c =>
      rw [ht, Option.any_some, Bool.or_eq_false_iff] at hhead
      exact hhead.1
  · obtain ⟨g, hg, htext⟩ := exists_blanks_append_skipBlanks tail.text
    have hblank : (maskLiterals (skipBlanks tail.text)).head?.any isBlank = false := by
      rw [head?_maskLiterals]
      exact head?_skipBlanks _
    have hends := tail.ends
    rw [htext, maskLiterals_prepend (not_mem_of_allBlank (by decide) hg),
      skipBlanks_append hg hblank, head?_maskLiterals]
    exact hends

theorem FromQuery.apart_restText (items : List Item) (tail : Tail) :
    Apart (restText maskLiterals items tail) := by
  cases items with
  | nil => exact tail.apart_maskLiterals
  | cons i items =>
    rw [restText_cons]
    exact i.apart _

/-! ## Aliases in front of an item -/

theorem afterAlias_append (gap : Gap) (a : Alias) {next : Text}
    (hnext : next.head?.any isNamePart = false) :
    afterAlias (gap.text ++ (a.text ++ next)) = next := by
  have hplain : (a.name.identifier.quoted || !isKeyword a.name.identifier.name) = true := by
    have := a.name.not_keyword
    cases hq : a.name.identifier.quoted with
    | true => rfl
    | false =>
      rw [hq, Bool.not_false, Bool.true_and] at this
      rw [this]
      rfl
  rw [afterAlias, a.aliasAfter? gap.blank gap.ne_nil hnext]
  simp only [hplain, if_true]

theorem aliasAfter?_comma {g : Text} (hg : allBlank g = true) (r : Text) :
    aliasAfter? (g ++ ',' :: r) = none := by
  rw [Option.eq_none_iff_forall_ne_some]
  rintro ⟨i, rest⟩ h
  obtain ⟨u, hu, v, hv, hread⟩ := aliasAfter?_eq_some h
  obtain rfl := spaced?_eq_skipBlanks hu
  rw [skipBlanks_append hg rfl] at hv
  rcases hv with rfl | hv
  · cases hread
  · cases hv

/-- A keyword that could be an alias is none. -/
theorem afterAlias_keyword {word g r : Text} (w : Keyword word)
    (hletters : ∀ c ∈ word.map foldLetter, c.isLower = true)
    (hword : word.map foldLetter ≠ ("AS" : Text).map foldLetter) (hne : word ≠ [])
    (hg : allBlank g = true) (hr : r.head?.any isNamePart = false) :
    afterAlias (g ++ (w.text ++ r)) = g ++ (w.text ++ r) := by
  have hchars : ∀ c ∈ w.text, isWordChar c = true := fun c hc =>
    isWordChar_of_isLower_foldLetter (hletters _ (w.spells.mem hc))
  have hblank : (w.text ++ r).head?.any isBlank = false :=
    w.head?_text_any hletters hne (fun _ => isBlank_eq_false_of_isWordChar) r
  unfold afterAlias
  split
  · rename_i i rest h
    obtain ⟨u, hu, v, hv, hread⟩ := aliasAfter?_eq_some h
    obtain rfl := spaced?_eq_skipBlanks hu
    rw [skipBlanks_append hg hblank] at hv
    rcases hv with rfl | hv
    · obtain rfl := Identifier.read?_word hchars (w.text_ne_nil hne) hr hread
      simp only [w.keyword]
      rfl
    · rw [keyword?_bind_spaced?_of_word (by decide) hchars (fun hs => ?_)
        (head?_any_isWordChar hr)] at hv
      · cases hv
      · exact hword (w.spells.symm.trans hs)
  · rfl

/-- An item is not read as an alias. -/
theorem Item.afterAlias (i : Item) (next : Text) :
    QueryGate.afterAlias (i.text maskLiterals ++ next) = i.text maskLiterals ++ next := by
  cases i with
  | comma before after s =>
    have hcomma (r : Text) : aliasAfter? (before.text ++ ',' :: r) = none :=
      aliasAfter?_comma before.blank r
    simp only [text, lead, List.append_assoc, List.cons_append]
    rw [QueryGate.afterAlias, hcomma]
  | join j =>
    obtain ⟨gap, word, w, r, hword, heq, hr⟩ := j.exists_keyword next
    have hne : ∀ word ∈ joinWords, word.map foldLetter ≠ ("AS" : Text).map foldLetter := by decide
    rw [heq, afterAlias_keyword w (joinWords_letters word hword) (hne word hword)
      (joinWords_ne_nil word hword) gap.blank hr]

/-! ## The scan of an item -/

theorem Condition.scanned (before : Text) (c : Condition) {next : Text} (hnext : Apart next) :
    ∃ rs, Scanned before (maskLiterals c.text) next rs := by
  refine Scanned.of_isClosed before c.closed (.inl hnext.head) fun hdot => ?_
  have := hnext.ends
  rw [hdot] at this
  cases this

theorem Join.scanned_on (before : Text) (j : Join) (next : Text)
    (hnext : next.head?.any isNamePart = false) :
    Scanned before (j.gapOn.text ++ j.on.text) next [] :=
  .append_nil (.of_blank j.gapOn.blank)
    (.of_spelling j.on (by decide) (by decide) (head?_any_isWordChar hnext))

theorem Condition.head?_any_isNamePart (c : Condition) {next : Text} (hnext : Apart next) :
    (maskLiterals c.text ++ next).head?.any isNamePart = false := by
  rw [List.head?_append, head?_maskLiterals]
  have := c.apart
  cases hc : c.text.head? with
  | none => exact hnext.head
  | some d =>
    rw [hc] at this
    exact this

theorem Join.scanned_kinds (before : Text) (j : Join) (next : Text) :
    Scanned before (kindsText j.kinds ++ j.gap.text) next [] :=
  .append_nil (scanned_kindsText j.kinds
    (head?_any_isNamePart_of_blank j.gap.blank fun h => absurd h j.gap.ne_nil))
    (.of_blank j.gap.blank)

theorem Gap.atWordStart (g : Gap) (before : Text) :
    QueryGate.atWordStart (g.text.reverse ++ before) = true := by
  cases hg : g.text.reverse with
  | nil => exact absurd (List.reverse_eq_nil_iff.1 hg) g.ne_nil
  | cons c u =>
    have hc : c ∈ g.text := List.mem_reverse.1 (hg ▸ List.mem_cons_self)
    have := isWordChar_eq_false_of_isBlank (List.all_eq_true.1 g.blank c hc)
    rw [List.cons_append, QueryGate.atWordStart, List.head?_cons, Option.any_some, this]
    rfl

/-- A `JOIN` adds the reference to its table. -/
theorem Join.scanned (before : Text) (j : Join) {next : Text} (hnext : Apart next) :
    ∃ rs, Scanned before ((Item.join j).text maskLiterals) next rs ∧
      ∀ p ∈ j.target.source.placed (before.length + (Item.join j).lead.length) .joined,
        ∃ r ∈ rs, r.Names p.table p.start := by
  have hcondition := j.condition.head?_any_isNamePart hnext
  have hon : Apart (j.gapOn.text ++ j.on.text ++ (maskLiterals j.condition.text ++ next)) := by
    rw [List.append_assoc]
    exact .of_blanks j.gapOn.blank j.gapOn.ne_nil
      (j.on.head?_text_any (by decide) (by decide) (fun _ => not_end_of_isWordChar) _)
  have hstart : QueryGate.atWordStart ((kindsText j.kinds ++ j.gap.text).reverse ++ before) =
      true := by
    rw [List.reverse_append, List.append_assoc]
    exact j.gap.atWordStart _
  obtain ⟨rs, hrs, hnames⟩ := j.target.scanned_joined j.word.toSpelling hstart hon
  obtain ⟨ss, hss⟩ := j.condition.scanned (((j.gapOn.text ++ j.on.text).reverse ++
    ((j.word.text ++ j.target.gap.text ++ j.target.source.text maskLiterals).reverse ++
      ((kindsText j.kinds ++ j.gap.text).reverse ++ before)))) hnext
  have htext : (Item.join j).text maskLiterals = (kindsText j.kinds ++ j.gap.text) ++
      ((j.word.text ++ j.target.gap.text ++ j.target.source.text maskLiterals) ++
        ((j.gapOn.text ++ j.on.text) ++ maskLiterals j.condition.text)) := by
    simp only [Item.text, Item.lead, Item.trail, Item.source, List.append_assoc]
  refine ⟨[] ++ (rs ++ ([] ++ ss)), ?_, fun p hp => ?_⟩
  · rw [htext]
    refine .append (j.scanned_kinds before _) (.append ?_
      (.append (j.scanned_on _ _ hcondition) hss))
    rw [List.append_assoc (j.gapOn.text ++ j.on.text)]
    exact hrs
  · have hlead : before.length + (Item.join j).lead.length =
        ((kindsText j.kinds ++ j.gap.text).reverse ++ before).length +
          (j.word.text ++ j.target.gap.text).length := by
      simp only [Item.lead, List.length_append, List.length_reverse]
      omega
    rw [hlead] at hp
    obtain ⟨r, hr, hn⟩ := hnames p hp
    exact ⟨r, by simp [hr], hn⟩

/-! ## The tables that are found -/

/-- A source places at most one table, somewhere in its text. -/
theorem Source.of_mem_placed {s : Source} {start : Nat} {link : Link} {p : Placed}
    (h : p ∈ s.placed start link) :
    p.link = link ∧ s.isTable = true ∧ start ≤ p.start ∧ p.start < start + (s.text id).length := by
  cases s with
  | table name alias? =>
    obtain rfl := List.mem_singleton.1 h
    have := List.length_pos_iff.2 name.name.text_ne_nil
    refine ⟨rfl, rfl, by simp, ?_⟩
    simp only [text, TableName.text, List.length_append]
    omega
  | derived query gap a => cases h

theorem Item.start_lt {i : Item} {start : Nat} {link : Link} {p : Placed}
    (h : p ∈ i.source.placed (start + i.lead.length) link) :
    p.start < start + (i.text id).length := by
  have := (Source.of_mem_placed h).2.2.2
  rw [text, List.length_append, List.length_append]
  omega

theorem le_start_of_mem_placedItems {start : Nat} {run : Bool} {items : List Item} {p : Placed}
    (h : p ∈ placedItems start run items) : start ≤ p.start := by
  induction items generalizing start run with
  | nil => cases h
  | cons i items ih =>
    rcases List.mem_append.1 h with h | h
    · have := (Source.of_mem_placed h).2.2.1
      omega
    · have := ih h
      omega

/-- Behind a `JOIN` or a query in parentheses no table is leading. -/
theorem link_ne_leading {start : Nat} {items : List Item} {p : Placed}
    (h : p ∈ placedItems start false items) : p.link ≠ .leading := by
  induction items generalizing start with
  | nil => cases h
  | cons i items ih =>
    rcases List.mem_append.1 h with h | h
    · rw [(Source.of_mem_placed h).1]
      cases i <;> exact fun h => nomatch h
    · exact ih h

/-- A table of a list is among some references if it has one of some links, and none of the
references starts where it stands if it is detached. -/
structure FoundAs (links : List Link) (refs : List TableRef) (p : Placed) : Prop where
  found : p.link ∈ links → ∃ r ∈ refs, r.Names p.table p.start
  missed : p.link = .detached → ∀ r ∈ refs, r.start ≠ p.start

namespace FoundAs

variable {ls ms : List Link} {rs ss : List TableRef} {p : Placed}

theorem of_missed (h : ∀ r ∈ rs, r.start ≠ p.start) : FoundAs [] rs p :=
  ⟨fun hlink => absurd hlink List.not_mem_nil, fun _ => h⟩

theorem append (h : FoundAs ls rs p) (h' : FoundAs ms ss p) : FoundAs (ls ++ ms) (rs ++ ss) p := by
  constructor
  · intro hlink
    rcases List.mem_append.1 hlink with hlink | hlink
    · obtain ⟨r, hr, hn⟩ := h.found hlink
      exact ⟨r, List.mem_append_left _ hr, hn⟩
    · obtain ⟨r, hr, hn⟩ := h'.found hlink
      exact ⟨r, List.mem_append_right _ hr, hn⟩
  · intro hlink r hr
    rcases List.mem_append.1 hr with hr | hr
    · exact h.missed hlink r hr
    · exact h'.missed hlink r hr

end FoundAs

/-- The scan finds the table of an item behind `JOIN`. -/
theorem Item.scanned (before : Text) (i : Item) (run : Bool) {next : Text} (hnext : Apart next) :
    ∃ rs, Scanned before (i.text maskLiterals) next rs ∧
      ∀ p ∈ i.source.placed (before.length + i.lead.length) (i.link run),
        FoundAs [.joined] rs p := by
  cases i with
  | comma gap gap' s =>
    have hlead : Scanned before (gap.text ++ ',' :: gap'.text)
        (s.text maskLiterals ++ next) [] := by
      refine .append_nil (.of_blank gap.blank) (.of_chars fun c hc => ?_)
      rcases List.mem_cons.1 hc with rfl | hc
      · decide
      · exact Scanned.foldLetter_ne_of_isBlank (List.all_eq_true.1 gap'.blank c hc)
    obtain ⟨rs, hrs, hnil⟩ := s.scanned ((gap.text ++ ',' :: gap'.text).reverse ++ before) hnext
    refine ⟨[] ++ rs, ?_, fun p hp => ?_⟩
    · rw [text, trail, List.append_nil]
      exact hlead.append hrs
    · obtain ⟨hlink, htable, -⟩ := Source.of_mem_placed hp
      rw [hnil htable]
      refine ⟨fun hjoined => ?_, fun _ r hr => absurd hr List.not_mem_nil⟩
      rw [List.mem_singleton.1 hjoined, link] at hlink
      split at hlink <;> cases hlink
  | join j =>
    obtain ⟨rs, hrs, hnames⟩ := j.scanned before hnext
    refine ⟨rs, hrs, fun p hp => ⟨fun _ => hnames p hp, fun hdetached => ?_⟩⟩
    rw [(Source.of_mem_placed hp).1] at hdetached
    cases hdetached

namespace FromQuery

/-- The scan behind the first source finds the tables behind `JOIN`. -/
theorem foundAs_refsFrom_restText (before : Text) (run : Bool) (items : List Item) (tail : Tail)
    {p : Placed} (hp : p ∈ placedItems before.length run items) :
    FoundAs [.joined] (refsFrom before (restText maskLiterals items tail)) p := by
  induction items generalizing before run with
  | nil => cases hp
  | cons i items ih =>
    obtain ⟨rs, hrs, hfound⟩ := i.scanned before run (apart_restText items tail)
    have hlength : ((i.text maskLiterals).reverse ++ before).length =
        before.length + (i.text id).length := by
      rw [List.length_append, List.length_reverse, i.length_text_maskLiterals, Nat.add_comm]
    rw [restText_cons, hrs.eq]
    rcases List.mem_append.1 hp with hp | hp
    · refine (hfound p hp).append (.of_missed fun r hr => ?_)
      have hlow := le_start_of_mem_refsFrom hr
      have := Item.start_lt hp
      omega
    · refine FoundAs.append (.of_missed fun r hr => ?_) (ih _ _ (hlength ▸ hp))
      have hhigh := (hrs.inside r hr).2
      have := le_start_of_mem_placedItems hp
      rw [i.length_text_maskLiterals] at hhigh
      omega

end FromQuery

/-! ## The list of a `FROM` -/

theorem listedRefs_table (size steps : Nat) (keyword : Text) (g g' : Blanks) (t : TableName)
    {next : Text} (hnext : Apart next) :
    ∃ r, listedRefs size keyword (steps + 1) (g.text ++ ',' :: g'.text ++ (t.text ++ next)) =
        r :: listedRefs size keyword steps (afterAlias next) ∧
      r.Names t (size - (t.name.text ++ next).length) := by
  obtain ⟨r, href, hnames⟩ := exists_tableRef? size keyword t hnext
  have hcomma : comma? (g.text ++ ',' :: g'.text ++ (t.text ++ next)) = some (t.text ++ next) := by
    rw [List.append_assoc, List.cons_append, comma?, skipBlanks_append g.blank rfl]
    simp only [skipBlanks_append g'.blank (t.not_blank next)]
  refine ⟨r, ?_, hnames⟩
  rw [listedRefs, hcomma, Option.bind_some, t.read? (fun _ => id) hnext, Option.bind_some, href]

theorem comma?_eq_none {g t : Text} (hg : allBlank g = true)
    (ht : t.head?.any (fun c => isBlank c || c == ',') = false) : comma? (g ++ t) = none := by
  have hblank : t.head?.any isBlank = false := by
    cases t with
    | nil => rfl
    | cons c t => exact (Bool.or_eq_false_iff.1 ht).1
  rw [Option.eq_none_iff_forall_ne_some]
  intro r hr
  obtain ⟨u, hu, -⟩ := comma?_eq_some hr
  rw [skipBlanks_append hg hblank] at hu
  rw [hu] at ht
  cases ht

theorem comma?_bind_read?_parenthesis {g g' t : Text} (hg : allBlank g = true)
    (hg' : allBlank g' = true) (ht : t.head? = some '(') :
    (comma? (g ++ ',' :: (g' ++ t))).bind (QualifiedName.read? isNameStart) = none := by
  obtain ⟨u, rfl⟩ := List.head?_eq_some_iff.1 ht
  rw [comma?, skipBlanks_append hg rfl]
  simp only [skipBlanks_append hg' (r := '(' :: u) rfl]
  rfl

/-- Where no table is listed, the list is over. -/
theorem Item.listedRefs_eq_nil {i : Item} (hi : i.isListed = false) (size steps : Nat)
    (keyword next : Text) : listedRefs size keyword steps (i.text maskLiterals ++ next) = [] := by
  cases steps with
  | zero => rfl
  | succ steps =>
    have hnone : (comma? (i.text maskLiterals ++ next)).bind (QualifiedName.read? isNameStart) =
        none := by
      cases i with
      | comma before after s =>
        cases s with
        | table name alias? => cases hi
        | derived query gap a =>
          have hopen := query.head?_text_maskLiterals (gap.text ++ a.text ++ next)
          simp only [text, lead, trail, source, Source.text, List.append_assoc, List.cons_append,
            List.append_nil] at hopen ⊢
          exact comma?_bind_read?_parenthesis before.blank after.blank hopen
      | join j =>
        obtain ⟨gap, word, w, r, hword, heq, -⟩ := j.exists_keyword next
        have hcomma : ∀ c, isWordChar c = true → (isBlank c || c == ',') = false := by
          intro c hc
          have hne : c ≠ ',' := by
            rintro rfl
            exact absurd hc (by decide)
          simp [isBlank_eq_false_of_isWordChar hc, hne]
        rw [heq, comma?_eq_none gap.blank (w.head?_text_any (joinWords_letters word hword)
          (joinWords_ne_nil word hword) hcomma r)]
        rfl
    rw [listedRefs, hnone]
    rfl

theorem Item.exists_of_isListed {i : Item} (hi : i.isListed = true) :
    ∃ g g' name alias?, i = .comma g g' (.table name alias?) := by
  cases i with
  | comma g g' s =>
    cases s with
    | table name alias? => exact ⟨g, g', name, alias?, rfl⟩
    | derived => cases hi
  | join => cases hi

theorem Item.text_table (f : Text → Text) (g g' : Blanks) (name : TableName)
    (alias? : Option (Gap × Alias)) (next : Text) :
    (Item.comma g g' (.table name alias?)).text f ++ next =
      g.text ++ ',' :: g'.text ++ (name.text ++ (aliasText alias? ++ next)) := by
  simp [text, lead, trail, source, Source.text]

theorem Item.link_ne_leading {i : Item} (hi : i.isListed = false) {start : Nat} {run : Bool}
    {p : Placed} (hp : p ∈ i.source.placed start (i.link run)) : p.link ≠ .leading := by
  obtain ⟨hlink, htable, -⟩ := Source.of_mem_placed hp
  rw [hlink]
  cases i with
  | comma before after s =>
    rw [isListed] at hi
    rw [source, hi] at htable
    cases htable
  | join j => exact fun h => nomatch h

theorem Item.afterAlias_aliasText (alias? : Option (Gap × Alias)) (i : Item) (next : Text) :
    QueryGate.afterAlias (aliasText alias? ++ (i.text maskLiterals ++ next)) =
      i.text maskLiterals ++ next := by
  cases alias? with
  | none => exact i.afterAlias next
  | some p =>
    rw [aliasText, List.append_assoc]
    exact afterAlias_append p.1 p.2 (i.apart next).head

namespace FromQuery

theorem length_items_le (f : Text → Text) (items : List Item) (tail : Tail) :
    items.length ≤ (restText f items tail).length := by
  induction items with
  | nil => exact Nat.zero_le _
  | cons i items ih =>
    have := List.length_pos_iff.2 i.lead_ne_nil
    rw [restText_cons, Item.text, List.length_cons]
    simp only [List.length_append]
    omega

/-- Behind a table the list goes on with the items. -/
theorem afterAlias_restText (alias? : Option (Gap × Alias)) {items : List Item} (hne : items ≠ [])
    (tail : Tail) : afterAlias (aliasText alias? ++ restText maskLiterals items tail) =
      restText maskLiterals items tail := by
  cases items with
  | nil => exact absurd rfl hne
  | cons i items => rw [restText_cons, i.afterAlias_aliasText]

/-- A table behind a comma makes a reference where the list of a `FROM` reaches it. -/
theorem listedRefs_table_item (n steps : Nat) (keyword : Text) (g g' : Blanks) (name : TableName)
    (alias? : Option (Gap × Alias)) (items : List Item) (tail : Tail) :
    let i := Item.comma g g' (.table name alias?)
    let size := n + (restText maskLiterals (i :: items) tail).length
    ∃ r, listedRefs size keyword (steps + 1) (restText maskLiterals (i :: items) tail) =
        r :: listedRefs size keyword steps
          (afterAlias (aliasText alias? ++ restText maskLiterals items tail)) ∧
      r.Names name (n + i.lead.length + name.lead.length) := by
  intro i size
  obtain ⟨r, href, hnames⟩ := listedRefs_table size steps keyword g g' name
    (apart_aliasText alias? (apart_restText items tail))
  have htext : restText maskLiterals (i :: items) tail = g.text ++ ',' :: g'.text ++
      (name.text ++ (aliasText alias? ++ restText maskLiterals items tail)) := by
    rw [restText_cons, Item.text_table]
  have hsize : size = n + (g.text ++ ',' :: g'.text ++
      (name.text ++ (aliasText alias? ++ restText maskLiterals items tail))).length := by
    rw [← htext]
  rw [hsize, name.start_eq] at hnames
  rw [htext]
  exact ⟨r, href, hnames⟩

/-- The list of a `FROM` finds the leading tables. -/
theorem foundAs_listedRefs (n steps : Nat) (keyword : Text) (items : List Item) (tail : Tail)
    (hsteps : items.length ≤ steps) {p : Placed} (hp : p ∈ placedItems n true items) :
    FoundAs [.leading] (listedRefs (n + (restText maskLiterals items tail).length) keyword steps
      (restText maskLiterals items tail)) p := by
  induction items generalizing n steps with
  | nil => cases hp
  | cons i items ih =>
    have hsize : n + (restText maskLiterals (i :: items) tail).length =
        n + (i.text id).length + (restText maskLiterals items tail).length := by
      rw [restText_cons, List.length_append, i.length_text_maskLiterals, Nat.add_assoc]
    rw [placedItems] at hp
    cases hi : i.isListed with
    | false =>
      rw [restText_cons, Item.listedRefs_eq_nil hi]
      refine ⟨fun hlink => absurd (List.mem_singleton.1 hlink) ?_, fun _ r hr => nomatch hr⟩
      rcases List.mem_append.1 hp with hp | hp
      · exact Item.link_ne_leading hi hp
      · exact link_ne_leading (hi ▸ hp)
    | true =>
      obtain ⟨steps, rfl⟩ := Nat.exists_eq_succ_of_ne_zero (Nat.ne_zero_of_lt hsteps)
      obtain ⟨g, g', name, alias?, rfl⟩ := Item.exists_of_isListed hi
      obtain ⟨r, href, hnames⟩ := listedRefs_table_item n steps keyword g g' name alias? items tail
      rw [href]
      rcases List.mem_append.1 hp with hp | hp
      · obtain rfl := List.mem_singleton.1 hp
        exact ⟨fun _ => ⟨r, List.mem_cons_self, hnames⟩, fun h => nomatch h⟩
      · have hne : items ≠ [] := by
          rintro rfl
          cases hp
        have hlow := le_start_of_mem_placedItems hp
        have hhigh : n + (Item.comma g g' (.table name alias?)).lead.length + name.lead.length <
            n + ((Item.comma g g' (.table name alias?)).text id).length :=
          Item.start_lt (p := ⟨name, _, .leading⟩) (List.mem_singleton_self _)
        have hmissed : FoundAs [] [r] p := .of_missed fun r' hr' => by
          rw [List.mem_singleton.1 hr', hnames.start]
          omega
        rw [afterAlias_restText alias? hne, hsize]
        exact hmissed.append (ih _ steps (Nat.le_of_succ_le_succ hsteps) (hi ▸ hp))

end FromQuery

end QueryGate
