import QueryGate.Proofs.Sql.GroupedItems
import QueryGate.Proofs.Sql.Subqueries

/-!
# Clauses of a grouped query

A query whose names in quotes hide nothing (`GroupedQuery.Harmless`) is cut where it was put
together. It has one select list (`GroupedQuery.selectLists_text`), the list of its groups is found
behind it (`GroupedQuery.groupSpan?_text`), and the items of both are the ones that were written.
Neither a limit nor a subquery is found in it.
-/

namespace QueryGate

/-! ## Lists of items -/

/-- No word ends before the end of blanks. -/
theorem getLast?_append_blankTokens {b : Blanks} (h : b.text ≠ []) (ts : List Token) :
    (ts ++ blankTokens b).getLast?.any Token.isWord = false := by
  rw [blankTokens, List.getLast?_append, List.getLast?_map, List.getLast?_eq_some_getLast h]
  rfl

section Listings

variable {α : Type} {write : α → List Token}

theorem Padded.maskOf_tokens (p : Padded α) :
    maskOf (p.tokens write) = p.text fun i => maskOf (write i) := by
  simp [tokens, text]

namespace Listing

theorem maskOf_tokens (l : Listing α) : maskOf (l.tokens write) =
    commaJoin (l.first.text fun i => maskOf (write i))
      (l.more.map fun p => p.text fun i => maskOf (write i)) := by
  have hmore : ∀ ps : List (Padded α),
      maskOf (ps.flatMap fun p => .other ',' ',' :: p.tokens write) =
        (ps.map fun p => p.text fun i => maskOf (write i)).flatMap (',' :: ·) := by
    intro ps
    induction ps with
    | nil => rfl
    | cons p ps ih => simp [ih, Padded.maskOf_tokens, Token.mask]
  rw [tokens, maskOf_append, hmore, Padded.maskOf_tokens, commaJoin]

theorem mem_tokens {l : Listing α} {t : Token} (ht : t ∈ l.tokens write) :
    (∃ i ∈ l.items, t ∈ write i) ∨ ∃ c, t = .other c c := by
  have hpadded : (∃ p ∈ l.padded, t ∈ p.tokens write) ∨ t = .other ',' ',' := by
    rw [tokens, List.mem_append, List.mem_flatMap] at ht
    rcases ht with ht | ⟨p, hp, ht⟩
    · exact .inl ⟨l.first, List.mem_cons_self, ht⟩
    · rcases List.mem_cons.1 ht with rfl | ht
      · exact .inr rfl
      · exact .inl ⟨p, List.mem_cons_of_mem _ hp, ht⟩
  rcases hpadded with ⟨p, hp, ht⟩ | rfl
  · rcases Padded.mem_tokens ht with ht | ⟨c, rfl, -⟩
    · exact .inl ⟨p.item, List.mem_map_of_mem hp, ht⟩
    · exact .inr ⟨c, rfl⟩
  · exact .inr ⟨',', rfl⟩

/-- A list ends with the blanks behind its last item. -/
theorem exists_append_blankTokens (l : Listing α) :
    ∃ ts, l.tokens write = ts ++ blankTokens l.last.after := by
  obtain ⟨first, more⟩ := l
  induction more generalizing first with
  | nil => exact ⟨blankTokens first.before ++ write first.item, by
      simp [tokens, Padded.tokens, last, padded]⟩
  | cons second more ih =>
    obtain ⟨ts, hts⟩ := ih second
    refine ⟨first.tokens write ++ .other ',' ',' :: ts, ?_⟩
    have hlast : (Listing.mk first (second :: more)).last = (Listing.mk second more).last := rfl
    rw [hlast, List.append_assoc, List.cons_append, ← hts]
    simp [tokens]

/-- No word begins or ends a list with blanks at its ends. -/
theorem head?_tokens {l : Listing α} (h : l.first.before.text ≠ []) (ts : List Token) :
    (l.tokens write ++ ts).head?.any Token.isWord = false := by
  obtain ⟨c, t, hc⟩ := List.exists_cons_of_ne_nil h
  simp [tokens, Padded.tokens, blankTokens, hc, Token.isWord]

theorem getLast?_tokens {l : Listing α} (h : l.last.after.text ≠ []) :
    (l.tokens write).getLast?.any Token.isWord = false := by
  obtain ⟨ts, hts⟩ : ∃ ts, l.tokens write = ts ++ blankTokens l.last.after :=
    l.exists_append_blankTokens
  rw [hts]
  exact getLast?_append_blankTokens h ts

variable {words : List Text} (hwords : OfLetters words)
  (hfree : ∀ i, FreeOf clauseWords (write i))
  {l : Listing α} (hpass : ∀ i ∈ l.items, passTokens words 0 (write i) = some 0)

include hwords hfree hpass

theorem passOver_padded : ∀ p ∈ l.padded,
    passOver words true 0 (p.text fun i => maskOf (write i)) = some 0 := by
  intro p hp
  rw [← Padded.maskOf_tokens]
  exact passOver_maskOf hwords (p.freeOf (hfree _)).lexed
    (Padded.passTokens hwords (hpass _ (List.mem_map_of_mem hp)))

theorem goesOn (hne : words ≠ []) : GoesOn words (maskOf (l.tokens write)) := by
  rw [maskOf_tokens]
  refine .commaJoin hwords hne fun t ht => ?_
  obtain ⟨p, hp, rfl⟩ : ∃ p ∈ l.padded, (p.text fun i => maskOf (write i)) = t :=
    List.mem_map.1 ht
  exact passOver_padded hwords hfree hpass p hp

/-- The items of a list are read back. -/
theorem slices_items (htrimmed : ∀ i, Trimmed (maskOf (write i))) (a b : Text) :
    (topLevelItems (a ++ (maskOf (l.tokens write) ++ b)) a.length
        (a.length + (maskOf (l.tokens write)).length)).map
      (fun s => Text.slice (a ++ (maskOf (l.tokens write) ++ b)) s.start s.stop) =
      l.items.map fun i => maskOf (write i) := by
  rw [slices_topLevelItems (fun i => maskOf (write i)) (fun p _ => htrimmed p.item)
    (passOver_padded hwords hfree hpass) l.maskOf_tokens a b, items, List.map_map]
  rfl

end Listing

end Listings

/-! ## Tokens of a query -/

/-- The words that are looked for in the whole query, not in a clause. -/
def scannedWords : List Text := ["SELECT", "LIMIT"]

theorem scannedWords_subset : ∀ k ∈ scannedWords, k ∈ clauseWords := by decide

theorem Spelling.isWord {s : Text} (w : Spelling s) (hs : OfLetters [s]) : IsWord w.text :=
  isWord_of_spells (hs s List.mem_cons_self).1 (hs s List.mem_cons_self).2 w.spells

theorem Spelling.not_spells {s : Text} (w : Spelling s) {words : List Text}
    (h : ∀ k ∈ words, k.map foldLetter ≠ s.map foldLetter) : ∀ k ∈ words, ¬ Spells k w.text :=
  fun k hk hspells => h k hk (hspells.symm.trans w.spells)

namespace GroupedQuery

variable (q : GroupedQuery)

theorem freeOf_columnTokens : FreeOf clauseWords q.columnTokens :=
  Listing.freeOf SelectItem.freeOf q.columns

theorem freeOf_groupTokens : FreeOf clauseWords q.groupTokens :=
  Listing.freeOf GroupItem.freeOf q.groups

theorem freeOf_tableTokens : FreeOf clauseWords q.tableTokens := by
  have hw := PlainWord.of_isPlainWord q.plain
  refine .blanks_append _ ((FreeOf.blanks _).cons_word hw.isWord hw.not_clauseWord ?_)
  simpa using head?_gapTokens q.groupGap []

theorem freeOf_by_groupTokens : FreeOf scannedWords (.word q.byWord.text :: q.groupTokens) :=
  (q.freeOf_groupTokens.mono scannedWords_subset).cons_word (q.byWord.isWord (by decide))
    (q.byWord.not_spells (by decide))
    (by simpa [groupTokens] using Listing.head?_tokens q.groupsApart [])

theorem freeOf_groupClause : FreeOf scannedWords q.groupClause :=
  (FreeOf.blanks_append _ q.freeOf_by_groupTokens).cons_word (q.groupWord.isWord (by decide))
    (q.groupWord.not_spells (by decide)) (head?_gapTokens ..)

theorem freeOf_fromClause : FreeOf scannedWords q.fromClause := by
  have hlast : q.tableTokens.getLast?.any Token.isWord = false := by
    rw [tableTokens, List.append_cons]
    exact getLast?_append_blankTokens q.groupGap.ne_nil _
  have hhead : (q.tableTokens ++ q.groupClause).head?.any Token.isWord = false := by
    rw [tableTokens, List.append_assoc]
    exact head?_gapTokens ..
  have hbehind := (q.freeOf_tableTokens.mono scannedWords_subset).append q.freeOf_groupClause
    (.inl hlast)
  exact hbehind.cons_word (q.fromWord.isWord (by decide)) (q.fromWord.not_spells (by decide))
    hhead

theorem freeOf_behindSelect : FreeOf scannedWords (q.columnTokens ++ q.fromClause) :=
  (q.freeOf_columnTokens.mono scannedWords_subset).append q.freeOf_fromClause
    (.inl (Listing.getLast?_tokens q.columnsApart.2))

/-- Only the first word of a query is one that is looked for. -/
theorem freeOf_tokens : FreeOf ["LIMIT"] q.tokens :=
  (q.freeOf_behindSelect.mono (by decide)).cons_word (q.selectWord.isWord (by decide))
    (q.selectWord.not_spells (by decide)) (Listing.head?_tokens q.columnsApart.1 _)

/-- No literal stands in a query. -/
theorem maskOf_tokens : maskOf q.tokens = q.text := by
  have hmask : ∀ ts : List Token, (∀ t ∈ ts, t.mask = t.text) → maskOf ts = textOf ts :=
    fun ts h => List.flatMap_congr h
  exact hmask q.tokens fun t ht => (q.freeOf_tokens.unmasked t ht).1

theorem maskLiterals_text : maskLiterals q.text = q.text := by
  refine maskLiterals_eq_self fun hmem => ?_
  obtain ⟨t, ht, hc⟩ := List.mem_flatMap.1 hmem
  exact (q.freeOf_tokens.unmasked t ht).2 hc

theorem text_eq_lead_append : q.text = maskOf q.leadTokens ++ (maskOf q.groupTokens ++ []) := by
  rw [← q.maskOf_tokens]
  simp [tokens, leadTokens, fromClause, groupClause]

theorem text_eq_select_append :
    q.text = q.selectWord.text ++ (maskOf q.columnTokens ++ maskOf q.fromClause) := by
  rw [← q.maskOf_tokens]
  simp [tokens, Token.mask]

theorem tokens_eq_source_append :
    q.tokens = (.word q.selectWord.text :: q.columnTokens) ++ (q.sourceTokens ++ q.groupClause) := by
  simp [tokens, fromClause, sourceTokens]

/-! ## The end of the source -/

theorem goesOn_source : GoesOn Grouping.bodyEnds (maskOf q.sourceTokens) := by
  have hwords : OfLetters Grouping.bodyEnds := by decide
  have hfree : FreeOf Grouping.bodyEnds q.sourceTokens :=
    (q.freeOf_tableTokens.mono (by decide)).cons_word (q.fromWord.isWord (by decide))
      (q.fromWord.not_spells (by decide)) (head?_gapTokens ..)
  have hmem {t : Token} (ht : t ∈ q.sourceTokens) :
      (∃ x, t = .word x) ∨ ∃ c, isBlank c = true ∧ t = .other c c := by
    simp only [sourceTokens, tableTokens, List.mem_cons, List.mem_append] at ht
    rcases ht with rfl | ht | rfl | ht
    · exact .inl ⟨_, rfl⟩
    · exact .inr (mem_blankTokens ht)
    · exact .inl ⟨_, rfl⟩
    · exact .inr (mem_blankTokens ht)
  have hpass : passTokens Grouping.bodyEnds 0 q.sourceTokens = some 0 := by
    refine hfree.passTokens hwords (fun w hw => ?_) fun c m hm => ?_
    · rcases hmem hw with ⟨x, hx⟩ | ⟨c, -, hc⟩
      · cases hx
      · cases hc
    · rcases hmem hm with ⟨x, hx⟩ | ⟨d, hd, heq⟩
      · cases hx
      · obtain ⟨-, rfl⟩ := Token.other.inj heq
        exact isQuiet_of_isBlank hd
  exact .of_passOver hwords (by decide) (passOver_maskOf hwords hfree.lexed hpass)

/-- What is selected from ends before the groups. -/
theorem clauseEnd_source :
    clauseEnd q.text (q.selectWord.text.length + (maskOf q.columnTokens).length)
        Grouping.bodyEnds =
      q.selectWord.text.length + (maskOf q.columnTokens).length +
        (maskOf q.sourceTokens).length := by
  have hlexed := q.freeOf_tokens.lexed
  rw [tokens_eq_source_append] at hlexed
  have hend := q.goesOn_source.clauseEnd_maskOf (by decide) hlexed
    (.inr ⟨"GROUP", List.mem_cons_self, q.groupWord.text, _, rfl, q.groupWord.spells⟩)
  have htext : maskOf ((.word q.selectWord.text :: q.columnTokens) ++
      (q.sourceTokens ++ q.groupClause)) = q.text := by
    rw [← tokens_eq_source_append, q.maskOf_tokens]
  have hselect : (maskOf (.word q.selectWord.text :: q.columnTokens)).length =
      q.selectWord.text.length + (maskOf q.columnTokens).length := by
    simp [Token.mask]
  rw [← htext, ← hselect]
  exact hend

theorem keywords?_groupClause :
    keywords? "GROUP" "BY" (maskOf q.groupClause) = some (maskOf q.groupTokens) := by
  have htext : maskOf q.groupClause = q.groupWord.text ++
      (q.byGap.text ++ (q.byWord.text ++ maskOf q.groupTokens)) := by
    simp [groupClause, Token.mask]
  have hgap := spaced?_append q.byGap.ne_nil q.byGap.blank (q.byWord.head?_text_any (p := isBlank)
    (by decide) (by decide) (fun _ => isBlank_eq_false_of_isWordChar) (maskOf q.groupTokens))
  rw [keywords?, htext, keyword?_append q.groupWord.spells]
  simp only [Option.bind_some, hgap, keyword?_append q.byWord.spells]

/-! ## Names that hide nothing -/

/-- The names of the columns, of what they are grouped by, and of the aliases. -/
def names : List FreeName :=
  q.columns.items.flatMap SelectItem.names ++ q.groups.items.flatMap GroupItem.names

/-- What stands in quotes in a query is one of its names. -/
theorem mem_names {q : GroupedQuery} {w : Text} (hw : .quoted w ∈ q.tokens) :
    ∃ n ∈ q.names, n.identifier = ⟨w, true⟩ := by
  have hblank {b : Blanks} (h : .quoted w ∈ blankTokens b) : False := by
    obtain ⟨c, -, hc⟩ := mem_blankTokens h
    cases hc
  have hcases : .quoted w ∈ q.columnTokens ∨ .quoted w ∈ q.groupTokens := by
    simp only [tokens, fromClause, tableTokens, groupClause, List.mem_cons, List.mem_append,
      reduceCtorEq, false_or] at hw
    rcases hw with hw | (hw | hw) | hw | hw
    · exact .inl hw
    · exact (hblank hw).elim
    · exact (hblank hw).elim
    · exact (hblank hw).elim
    · exact .inr hw
  rcases hcases with hw | hw
  · obtain ⟨i, hi, hmem⟩ | ⟨c, hc⟩ := Listing.mem_tokens hw
    · obtain ⟨n, hn, hnw⟩ := SelectItem.mem_names hmem
      exact ⟨n, List.mem_append_left _ (List.mem_flatMap.2 ⟨i, hi, hn⟩), hnw⟩
    · cases hc
  · obtain ⟨g, hg, hmem⟩ | ⟨c, hc⟩ := Listing.mem_tokens hw
    · obtain ⟨n, hn, hnw⟩ := GroupItem.mem_names hmem
      exact ⟨n, List.mem_append_right _ (List.mem_flatMap.2 ⟨g, hg, hn⟩), hnw⟩
    · cases hc

/-- The names in quotes of a query hide nothing: neither the clause nor the item that a name is in
ends in it, no column holds an aggregate call, and no name holds `SELECT`, or `LIMIT` and a number.
The positions have no more digits than are converted. -/
structure Harmless : Prop where
  columns : ∀ i ∈ q.columns.items, i.Stays ∧ i.LacksCalls
  groups : ∀ g ∈ q.groups.items, g.Stays ∧ g.Readable
  noSelect : ∀ n ∈ q.names, n.Lacks (wholeWord "SELECT")
  noLimit : ∀ n ∈ q.names, n.Lacks Structure.limitNumber

instance : DecidablePred Harmless := fun q =>
  decidable_of_iff ((∀ i ∈ q.columns.items, i.Stays ∧ i.LacksCalls) ∧
      (∀ g ∈ q.groups.items, g.Stays ∧ g.Readable) ∧
      (∀ n ∈ q.names, n.Lacks (wholeWord "SELECT")) ∧
      ∀ n ∈ q.names, n.Lacks Structure.limitNumber)
    ⟨fun ⟨hcolumns, hgroups, hselect, hlimit⟩ => ⟨hcolumns, hgroups, hselect, hlimit⟩,
      fun h => ⟨h.columns, h.groups, h.noSelect, h.noLimit⟩⟩

variable {q}

theorem not_occurs_of_lacks {α : Type} {read : Reading α} (h : ∀ n ∈ q.names, n.Lacks read)
    {w : Text} (hw : .quoted w ∈ q.tokens) : occurs read w = false := by
  obtain ⟨n, hn, hnw⟩ := mem_names hw
  have hlacks := h n hn
  rw [FreeName.Lacks, hnw] at hlacks
  exact hlacks rfl

/-- Nothing is limited. -/
theorem Harmless.limits_eq_nil (h : q.Harmless) : hits Structure.limitNumber q.text = [] := by
  rw [hits, hitsFrom_eq_nil_iff]
  intro a b hab _
  rw [List.append_nil, ← Option.not_isSome_iff_eq_none]
  intro hread
  rw [← q.maskOf_tokens] at hab
  obtain ⟨p, x, r, hts, -, ⟨w, hw, hx⟩, -⟩ | ⟨w, hw, hoccurs⟩ :=
    ReadsWords.limitNumber.exists_token (by decide) q.freeOf_tokens.lexed hab hread
  · exact q.freeOf_tokens.avoids x (by rw [hts]; simp) w hw hx
  · rw [not_occurs_of_lacks h.noLimit hw] at hoccurs
    cases hoccurs

/-- `SELECT` is read only where the query begins. -/
theorem Harmless.select_at_start (h : q.Harmless) {a b : Text} (hab : q.text = a ++ b)
    (hread : (wholeWord "SELECT" a.reverse b).isSome = true) : a = [] := by
  rw [← q.maskOf_tokens] at hab
  obtain ⟨p, x, r, hts, rfl, ⟨w, hw, hx⟩, -⟩ | ⟨w, hw, hoccurs⟩ :=
    (ReadsWords.oneWord ["SELECT"]).exists_token (by decide) q.freeOf_tokens.lexed hab hread
  · cases p with
    | nil => rfl
    | cons t p =>
      obtain ⟨-, hbehind⟩ := List.cons.inj hts
      refine absurd hx (q.freeOf_behindSelect.avoids x (by rw [hbehind]; simp) w ?_)
      obtain rfl := List.mem_singleton.1 hw
      exact List.mem_cons_self
  · exact (Bool.false_ne_true ((not_occurs_of_lacks h.noSelect hw).symm.trans hoccurs)).elim

theorem Harmless.found_eq_nil (h : q.Harmless) {parser : Parser} (hparser : parser.Lawful) :
    (parser.subqueries q.text).found = [] := by
  rw [List.eq_nil_iff_forall_not_mem]
  intro s hs
  obtain ⟨a, b, hab, hne, hread⟩ := hparser.exists_select_of_subquery hs
  exact hne (h.select_at_start hab hread)

/-! ## The two lists -/

theorem Harmless.columns_pass (h : q.Harmless) :
    ∀ i ∈ q.columns.items, passTokens selectListEnds 0 i.tokens = some 0 := fun i hi =>
  SelectItem.passTokens (h.columns i hi).1

theorem Harmless.groups_pass (h : q.Harmless) :
    ∀ g ∈ q.groups.items, passTokens Grouping.groupEnds 0 g.tokens = some 0 := fun g hg =>
  GroupItem.passTokens (h.groups g hg).1

theorem Harmless.hits_select (h : q.Harmless) :
    hits (wholeWord "SELECT") q.text =
      [⟨0, q.selectWord.text.length, q.selectWord.text⟩] := by
  have hend := head?_any_isWordChar q.freeOf_tokens.lexed.head?_maskOf_any
  rw [maskOf_append] at hend
  have hread : wholeWord "SELECT" [] q.text = some (q.selectWord.text,
      maskOf q.columnTokens ++ maskOf q.fromClause) := by
    rw [text_eq_select_append]
    exact wholeWord_append rfl q.selectWord.spells (by simpa [atWordEnd] using hend)
  have hnone : hitsFrom (wholeWord "SELECT") (q.selectWord.text.reverse ++ []) 0
      (maskOf q.columnTokens ++ maskOf q.fromClause) = [] := by
    rw [hitsFrom_eq_nil_iff]
    intro a b hab _
    rw [← Option.not_isSome_iff_eq_none]
    intro hsome
    have hnil := h.select_at_start (a := q.selectWord.text ++ a) (b := b)
      (by rw [text_eq_select_append, hab, List.append_assoc]) (by simpa using hsome)
    exact q.selectWord.text_ne_nil (by decide) (List.append_eq_nil_iff.1 hnil).1
  rw [text_eq_select_append] at hread ⊢
  rw [hits, hitsFrom_of_read (q.selectWord.text_ne_nil (by decide)) hread, hnone]
  simp

/-- A query has one select list. -/
theorem Harmless.selectLists_text (h : q.Harmless) :
    selectLists q.text = [⟨q.selectWord.text.length,
      q.selectWord.text.length + (maskOf q.columnTokens).length⟩] := by
  have hwords := ofLetters_of_subset selectListEnds_subset
  have hgoes : GoesOn selectListEnds (maskOf q.columnTokens) :=
    Listing.goesOn hwords SelectItem.freeOf h.columns_pass (by decide)
  have hend := hgoes.clauseEnd_maskOf hwords (p := [.word q.selectWord.text])
    (q := q.fromClause) q.freeOf_tokens.lexed
    (.inr ⟨"FROM", List.mem_cons_self, q.fromWord.text, _, rfl, q.fromWord.spells⟩)
  have htext : maskOf ([.word q.selectWord.text] ++ (q.columnTokens ++ q.fromClause)) = q.text :=
    q.maskOf_tokens
  have hselect : maskOf [.word q.selectWord.text] = q.selectWord.text := by simp [Token.mask]
  rw [htext, hselect] at hend
  rw [selectLists, h.hits_select, List.map_singleton, hend]

/-- The list of the groups is found behind the select list. -/
theorem Harmless.groupSpan?_text (h : q.Harmless) (start : Nat) :
    Grouping.groupSpan? q.text
        ⟨start, q.selectWord.text.length + (maskOf q.columnTokens).length⟩ =
      some ⟨(maskOf q.leadTokens).length,
        (maskOf q.leadTokens).length + (maskOf q.groupTokens).length⟩ := by
  have hwords := ofLetters_of_subset groupEnds_subset
  have hdrop : q.text.drop (q.selectWord.text.length + (maskOf q.columnTokens).length +
      (maskOf q.sourceTokens).length) = maskOf q.groupClause := by
    have hsplit : q.text = (q.selectWord.text ++ maskOf q.columnTokens ++ maskOf q.sourceTokens) ++
        maskOf q.groupClause := by
      rw [← q.maskOf_tokens, tokens_eq_source_append]
      simp [Token.mask]
    rw [hsplit, List.drop_left' (by simp [Nat.add_assoc])]
  have hstart : q.selectWord.text.length + (maskOf q.columnTokens).length +
      (maskOf q.sourceTokens).length +
        ((maskOf q.groupClause).length - (maskOf q.groupTokens).length) =
      (maskOf q.leadTokens).length := by
    simp [leadTokens, groupClause, sourceTokens, Token.mask]
    omega
  have hgoes : GoesOn Grouping.groupEnds (maskOf q.groupTokens) :=
    Listing.goesOn hwords GroupItem.freeOf h.groups_pass (by decide)
  have hlead : q.tokens = q.leadTokens ++ (q.groupTokens ++ []) := by
    simp [tokens, leadTokens, fromClause, groupClause]
  have hend := hgoes.clauseEnd_maskOf hwords (hlead ▸ q.freeOf_tokens.lexed) (.inl rfl)
  rw [← hlead, q.maskOf_tokens] at hend
  have hword : atWordEnd (maskOf q.groupTokens) = true := by
    have hhead := head?_any_isWordChar q.freeOf_by_groupTokens.lexed.head?_maskOf_any
    rw [atWordEnd, hhead, Bool.not_false]
  rw [Grouping.groupSpan?]
  simp only [q.clauseEnd_source, hdrop, q.keywords?_groupClause, hword, hstart, hend, ite_true]

end GroupedQuery

end QueryGate
