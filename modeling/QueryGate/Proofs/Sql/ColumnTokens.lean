import QueryGate.Proofs.Sql.Renaming
import QueryGate.Proofs.Sql.TokenPlaces
import QueryGate.Proofs.Text.Hits
import QueryGate.Sql.ColumnRef

/-!
# Columns among the tokens

A qualified name is two tokens of the query and a name in quotes is one (`hit_qualifiedRef`,
`stand_of_mem_quotedNames`): no reading begins inside a token.
-/

namespace QueryGate

/-- No name in quotes has a dot. -/
def QuotesLackDots (ts : List Token) : Prop := ∀ w, Token.quoted w ∈ ts → '.' ∉ w

theorem QuotesHoldWords.lackDots {ts : List Token} (h : QuotesHoldWords ts) :
    QuotesLackDots ts := by
  intro w hw hdot
  exact absurd ((h w hw).2 _ hdot) (by decide)

theorem beginsWithDot_eq_false_of_quote {v : Text} (hv : '.' ∉ v) (r : Text) :
    beginsWithDot (v ++ '"' :: r) = false := by
  rw [beginsWithDot, beq_eq_false_iff_ne]
  intro hdot
  obtain ⟨g, hg, hsplit⟩ := exists_blanks_append_skipBlanks (v ++ '"' :: r)
  obtain ⟨y, hy⟩ := List.head?_eq_some_iff.1 hdot
  rw [hy] at hsplit
  -- The blanks in front of the dot end before the quote, so the dot stands in what it closes.
  obtain ⟨a, rfl, ha⟩ | ⟨a, hv', ha⟩ := List.append_eq_append_iff.1 hsplit
  · cases a with
    | nil => exact absurd (List.cons.inj ha).1 (by decide)
    | cons c a =>
      obtain ⟨rfl, -⟩ := List.cons.inj ha
      exact not_mem_of_allBlank (c := '"') (by decide) hg (by simp)
  · cases a with
    | nil => exact absurd (List.cons.inj ha).1 (by decide)
    | cons c a =>
      obtain ⟨rfl, -⟩ := List.cons.inj ha
      exact hv (by simp [hv'])

section Reading

variable {ts : List Token} (h : Lexed ts)

/-- Where a qualified name may begin no other name ends. -/
theorem isInName_getLast?_eq_false {a : Text}
    (h : a.reverse.head?.any (fun c => isNamePart c || c == '.' || c == '"') = false) :
    a.getLast?.any isInName = false := by
  rw [List.head?_reverse] at h
  cases ha : a.getLast? with
  | none => rfl
  | some c =>
    rw [ha, Option.any_some] at h
    by_contra hc
    rw [Option.any_some, Bool.not_eq_false, isInName] at hc
    rcases Bool.or_eq_true_iff.1 hc with hc | hc <;> simp [isNamePart, hc] at h

theorem qualifiedRef_eq_some {before t rest : Text} {q : QualifiedRef}
    (h : qualifiedRef before t = some (q, rest)) :
    before.head?.any (fun c => isNamePart c || c == '.' || c == '"') = false ∧
      ∃ n first r, QualifiedName.read? isNameStart t = some n ∧ n.qualifier = some q.qualifier ∧
        Identifier.read? isNameStart t = some (first, r) ∧ rest = n.rest ∧ q.column = n.name ∧
        q.qualifierSpan = ⟨before.length, offsetOf before t r⟩ ∧
        q.columnSpan = ⟨offsetOf before t n.onward, offsetOf before t n.rest⟩ := by
  unfold qualifiedRef at h
  split at h
  · cases h
  rename_i hbefore
  obtain ⟨n, hn, h⟩ := Option.bind_eq_some_iff.1 h
  obtain ⟨i, hi, h⟩ := Option.bind_eq_some_iff.1 h
  obtain ⟨⟨first, r⟩, hfirst, h⟩ := Option.bind_eq_some_iff.1 h
  obtain ⟨rfl, rfl⟩ := Prod.mk.inj (Option.some.inj h)
  exact ⟨Bool.eq_false_iff.2 hbefore, n, first, r, hn, hi, hfirst, rfl, rfl, rfl, rfl⟩

include h in
/-- The first quote in the mask opens a name. -/
theorem Lexed.exists_quoted_of_dropWhile (hdots : QuotesLackDots ts) {c : Char} {r : Text}
    (hdrop : (maskOf ts).dropWhile (· != '"') = c :: r) :
    ∃ v r', r = v ++ '"' :: r' ∧ '.' ∉ v := by
  induction ts with
  | nil => cases hdrop
  | cons t ts ih =>
    have hfit := h.fit t List.mem_cons_self
    have hskip (ht : ∀ d ∈ t.mask, d ≠ '"') : ∃ v r', r = v ++ '"' :: r' ∧ '.' ∉ v := by
      rw [maskOf_cons, List.dropWhile_append_of_pos fun d hd => by simpa using ht d hd] at hdrop
      exact ih h.tail (fun w hw => hdots w (List.mem_cons_of_mem t hw)) hdrop
    cases t with
    | word w => exact hskip fun d hd => isWordChar_ne_quote (hfit.2 d hd)
    | other d m => exact hskip fun d' hd => List.mem_singleton.1 hd ▸ hfit.2
    | quoted w =>
      rw [maskOf_cons, Token.mask, inQuotes, List.cons_append, List.cons_append,
        List.dropWhile_cons_of_neg (by simp)] at hdrop
      obtain ⟨-, rfl⟩ := List.cons.inj hdrop
      exact ⟨w, maskOf ts, by simp, hdots w List.mem_cons_self⟩

include h in
/-- What is read from inside quotes ends in front of no dot. -/
theorem Lexed.beginsWithDot_of_read_in_quotes (hdots : QuotesLackDots ts) {z r : Text}
    {first : Identifier} (hz : ∀ c ∈ z, c ≠ '"' ∧ c ≠ '.')
    (hread : Identifier.read? isNameStart (z ++ '"' :: maskOf ts) = some (first, r)) :
    beginsWithDot r = false := by
  cases z with
  | nil =>
    -- The closing quote is taken for an opening one, and the next name's for the closing one.
    rw [List.nil_append, Identifier.read?] at hread
    simp only [beq_self_eq_true, if_true] at hread
    split at hread
    · cases hread
    · rename_i hdrop
      split at hread
      · cases hread
      obtain ⟨v, r', rfl, hv⟩ := h.exists_quoted_of_dropWhile hdots hdrop
      obtain ⟨-, rfl⟩ := Prod.mk.inj (Option.some.inj hread)
      exact beginsWithDot_eq_false_of_quote hv r'
  | cons c z =>
    obtain ⟨hc, hz⟩ := List.forall_mem_cons.1 hz
    rw [List.cons_append, Identifier.read?, if_neg (by simpa using hc.1)] at hread
    split at hread
    · obtain ⟨-, rfl⟩ := Prod.mk.inj (Option.some.inj hread)
      have hdrop : (z ++ '"' :: maskOf ts).dropWhile isNamePart =
          z.dropWhile isNamePart ++ '"' :: maskOf ts := by
        rw [List.dropWhile_append]
        split
        · rename_i hempty
          rw [List.isEmpty_iff.1 hempty]
          rfl
        · rfl
      rw [hdrop]
      exact beginsWithDot_eq_false_of_quote
        (fun hmem => (hz _ (List.dropWhile_subset _ hmem)).2 rfl) (maskOf ts)
    · cases hread

include h in
/-- Where a qualified name is read no token is cut. -/
theorem Lexed.exists_cut_of_qualified (hdots : QuotesLackDots ts) {a b : Text}
    {n : QualifiedName} {i : Identifier} (hab : maskOf ts = a ++ b)
    (ha : a.getLast?.any isInName = false) (hn : QualifiedName.read? isNameStart b = some n)
    (hi : n.qualifier = some i) : ∃ p q, ts = p ++ q ∧ a = maskOf p ∧ b = maskOf q := by
  obtain ⟨p, q, hcut | ⟨t, x, y, rfl, rfl, rfl, ht, hx, hy⟩⟩ := Lexed.exists_split hab
  · exact ⟨p, q, hcut⟩
  exfalso
  have hfit := h.fit t (by simp)
  cases t with
  | word w =>
    have hword := hfit.2 _ (ht ▸ List.mem_append_left y (List.getLast_mem hx))
    rw [getLast?_any_append _ hx, List.getLast?_eq_some_getLast hx, Option.any_some, isInName,
      hword] at ha
    cases ha
  | other c m => exact Token.not_cut_of_other ht hx hy
  | quoted w =>
    obtain ⟨z, rfl, hz⟩ := Token.exists_suffix_of_quoted ht hx hy
    unfold QualifiedName.read? at hn
    obtain ⟨⟨first, r⟩, hfirst, hn⟩ := Option.bind_eq_some_iff.1 hn
    rw [List.append_assoc, List.singleton_append] at hfirst
    have hr := (Lexed.of_append h).2.tail.beginsWithDot_of_read_in_quotes
      (fun v hv => hdots v (by simp [hv])) (fun c hc => ⟨(hfit.2 c (hz.subset hc)).1, fun hdot =>
        hdots w (by simp) (hdot ▸ hz.subset hc)⟩) hfirst
    have hnone : dot? r = none := by
      rw [Option.eq_none_iff_forall_ne_some]
      intro t ht
      obtain ⟨u, hu, -⟩ := dot?_eq_some ht
      rw [beginsWithDot, hu] at hr
      cases hr
    simp only [hnone] at hn
    obtain rfl := Option.some.inj hn
    cases hi

/-- A qualified name among tokens: its two names, with blanks and a dot between them. -/
structure QualifiedAt (q : QualifiedRef) (ts p s vs : List Token) : Prop where
  split : ts = p ++ q.qualifier.token :: (s ++ q.column.token :: vs)
  dot : ∃ g g', maskOf s = g ++ '.' :: g' ∧ allBlank g = true ∧ allBlank g' = true
  qualifierSpan : q.qualifierSpan =
    ⟨(maskOf p).length, (maskOf p).length + q.qualifier.token.mask.length⟩
  columnSpan : q.columnSpan = ⟨(maskOf (p ++ q.qualifier.token :: s)).length,
    (maskOf (p ++ q.qualifier.token :: s)).length + q.column.token.mask.length⟩

namespace QualifiedAt

variable {q : QualifiedRef} {p s vs : List Token} (hq : QualifiedAt q ts p s vs)
include hq

theorem columnSplit : ts = (p ++ q.qualifier.token :: s) ++ q.column.token :: vs := by
  rw [hq.split]
  simp

theorem qualifier_stands :
    StandsIn q.qualifier q.qualifierSpan.start q.qualifierSpan.stop 0 ts := by
  rw [hq.qualifierSpan]
  exact ⟨p, _, hq.split, (Nat.zero_add _).symm, rfl⟩

theorem column_stands : StandsIn q.column q.columnSpan.start q.columnSpan.stop 0 ts := by
  rw [hq.columnSpan]
  exact ⟨_, vs, hq.columnSplit, (Nat.zero_add _).symm, rfl⟩

theorem dotBeside_qualifier :
    dotBeside (maskOf ts) q.qualifierSpan.start q.qualifierSpan.stop = true := by
  obtain ⟨g, g', hdot, hg, -⟩ := hq.dot
  have hafter : beginsWithDot (maskOf (s ++ q.column.token :: vs)) = true := by
    rw [maskOf_append, hdot, List.append_assoc, List.cons_append]
    exact beginsWithDot_append hg
  rw [hq.qualifierSpan, hq.split, dotBeside_maskOf, besideDot, hafter, Bool.or_true]

theorem dotBeside_column :
    dotBeside (maskOf ts) q.columnSpan.start q.columnSpan.stop = true := by
  obtain ⟨g, g', hdot, -, hg'⟩ := hq.dot
  have hbehind : beginsWithDot (maskOf (p ++ q.qualifier.token :: s)).reverse = true := by
    rw [maskOf_append, maskOf_cons, hdot, ← List.append_assoc]
    exact beginsWithDot_reverse_of_dot hg'
  rw [hq.columnSpan, hq.columnSplit, dotBeside_maskOf, besideDot, hbehind, Bool.true_or]

end QualifiedAt

include h in
/-- Both names of a qualified one are tokens, between the ends of the hit. -/
theorem hit_qualifiedRef (hdots : QuotesLackDots ts) {k : Hit QualifiedRef}
    (hk : k ∈ hits qualifiedRef (maskOf ts)) :
    (∃ p s vs, QualifiedAt k.value ts p s vs) ∧ k.start = k.value.qualifierSpan.start ∧
      k.value.qualifierSpan.start < k.value.columnSpan.start ∧
      k.value.columnSpan.start < k.stop := by
  obtain ⟨a, b, rest, hab, hread, hstart, hstop, -⟩ := span_of_mem_hitsFrom hk
  rw [List.append_nil] at hread
  obtain ⟨hbefore, n, first, r, hn, hi, hfirst, rfl, hcolumn, hqualifierSpan, hcolumnSpan⟩ :=
    qualifiedRef_eq_some hread
  obtain ⟨p, us, rfl, rfl, rfl⟩ :=
    h.exists_cut_of_qualified hdots hab (isInName_getLast?_eq_false hbefore) hn hi
  have hus := (Lexed.of_append h).2
  have hnameStart (c : Char) (hc : isNameStart c = true) : isWordChar c = true :=
    isWordChar_of_isFoldedNameStart (isFoldedNameStart_of_isNameStart hc)
  obtain ⟨x, vs, rfl, honward, hrest, hqual⟩ := hus.exists_qualifiedName hnameStart hn
  obtain ⟨-, hnone⟩ | ⟨j, s, g, g', hj, rfl, hdot⟩ := hqual
  · rw [hnone] at hi
    cases hi
  obtain rfl := Option.some.inj (hi.symm.trans hj)
  obtain ⟨ys, hys, rfl⟩ := hus.exists_name hnameStart hfirst
  rw [List.cons_append] at hys
  obtain rfl := (List.cons.inj hys).2
  rw [← hcolumn] at h honward
  have hat : QualifiedAt k.value (p ++ (k.value.qualifier.token :: s ++ k.value.column.token :: vs))
      p s vs := by
    refine ⟨rfl, ⟨g, g', hdot⟩, ?_, ?_⟩
    · rw [hqualifierSpan, ← hcolumn]
      simp only [offsetOf, List.length_reverse, Span.mk.injEq, true_and, List.cons_append,
        maskOf_append, maskOf_cons, List.length_append]
      omega
    · rw [hcolumnSpan, ← hcolumn]
      simp only [offsetOf, honward, hrest, List.length_reverse, Span.mk.injEq, List.cons_append,
        maskOf_append, maskOf_cons, List.length_append]
      omega
  have hpos := List.length_pos_iff.2 (Token.mask_ne_nil (h.fit k.value.qualifier.token (by simp)))
  have hpos' := List.length_pos_iff.2 (Token.mask_ne_nil (h.fit k.value.column.token (by simp)))
  refine ⟨⟨p, s, vs, hcolumn ▸ hat⟩, ?_, ?_, ?_⟩
  · simp [hstart, hat.qualifierSpan]
  · rw [hat.qualifierSpan, hat.columnSpan]
    simp only [maskOf_append, maskOf_cons, List.length_append]
    omega
  · rw [hat.columnSpan, hstop, hstart, hrest, ← hcolumn]
    simp only [List.length_nil, Nat.zero_add, List.cons_append, maskOf_append, maskOf_cons,
      List.length_append]
    omega

include h in
/-- The qualified names of a query come in the order of their tokens. -/
theorem pairwise_qualifiedRefs (hdots : QuotesLackDots ts) :
    (qualifiedRefs (maskOf ts)).Pairwise fun q r =>
      q.columnSpan.start < r.qualifierSpan.start := by
  refine .filter _ (List.pairwise_map.2 ?_)
  refine pairwise_hitsFrom.imp_of_mem fun {k l} hk hl hkl => ?_
  obtain ⟨-, -, -, hend⟩ := hit_qualifiedRef h hdots hk
  obtain ⟨-, hstart, -⟩ := hit_qualifiedRef h hdots hl
  omega

include h in
theorem stand_of_mem_qualifiedRefs (hdots : QuotesLackDots ts) {q : QualifiedRef}
    (hmem : q ∈ qualifiedRefs (maskOf ts)) :
    StandsIn q.qualifier q.qualifierSpan.start q.qualifierSpan.stop 0 ts ∧
      StandsIn q.column q.columnSpan.start q.columnSpan.stop 0 ts ∧
      q.qualifierSpan.start < q.columnSpan.start ∧
      dotBeside (maskOf ts) q.qualifierSpan.start q.qualifierSpan.stop = true ∧
      dotBeside (maskOf ts) q.columnSpan.start q.columnSpan.stop = true := by
  obtain ⟨k, hk, rfl⟩ := List.mem_map.1 (List.mem_filter.1 hmem).1
  obtain ⟨⟨p, s, vs, hat⟩, -, hlt, -⟩ := hit_qualifiedRef h hdots hk
  exact ⟨hat.qualifier_stands, hat.column_stands, hlt, hat.dotBeside_qualifier,
    hat.dotBeside_column⟩

/-! ## Names in quotes -/

theorem quotedName_of_head {before t : Text} (ht : t.head? ≠ some '"') :
    quotedName before t = none := by
  unfold quotedName
  split
  · exact absurd rfl ht
  · rfl

/-- What is found where a token begins: a name in quotes, and whether a column may stand there. -/
def quotedHit? (before : Text) (ts : List Token) : Token → Option (Hit (Text × Bool))
  | .quoted w =>
    some ⟨before.length, before.length + (inQuotes w).length,
      (w, !besideDot before (maskOf ts) && !followsWord ["FROM", "JOIN", "AS"] before)⟩
  | _ => none

/-- The names in quotes are found token by token. -/
theorem hitsFrom_quotedName_cons {t : Token} {ts : List Token} (h : Lexed (t :: ts))
    (before : Text) :
    hitsFrom quotedName before 0 (maskOf (t :: ts)) =
      (quotedHit? before ts t).toList ++
        hitsFrom quotedName (t.mask.reverse ++ before) 0 (maskOf ts) := by
  have hfit := h.fit t List.mem_cons_self
  have hskip (hquote : '"' ∉ t.mask) : hitsFrom quotedName before 0 (maskOf (t :: ts)) =
      hitsFrom quotedName (t.mask.reverse ++ before) 0 (maskOf ts) := by
    rw [maskOf_cons, hitsFrom_append_of_none]
    intro a b hab hb
    apply quotedName_of_head
    intro hhead
    rw [List.head?_append_of_ne_nil _ hb] at hhead
    rw [hab] at hquote
    exact hquote (List.mem_append_right a (List.mem_of_mem_head? hhead))
  cases t with
  | word w => exact hskip fun hmem => isWordChar_ne_quote (hfit.2 _ hmem) rfl
  | other c m => exact hskip fun hmem => hfit.2 (List.mem_singleton.1 hmem).symm
  | quoted w =>
    have hname := Identifier.read?_inQuotes isNameStart hfit.1 (fun hc => (hfit.2 _ hc).1 rfl)
      (maskOf ts)
    have hread : quotedName before (inQuotes w ++ maskOf ts) =
        some ((w, !besideDot before (maskOf ts) && !followsWord ["FROM", "JOIN", "AS"] before),
          maskOf ts) := by
      unfold quotedName
      rw [hname]
      rfl
    have hne : inQuotes w ≠ [] := List.cons_ne_nil _ _
    rw [maskOf_cons, Token.mask, hitsFrom_of_read hne hread]
    rfl

/-- The hits are the names in quotes, each with what stands beside it. -/
theorem mem_hitsFrom_quotedName_iff (h : Lexed ts) {before : Text} {k : Hit (Text × Bool)} :
    k ∈ hitsFrom quotedName before 0 (maskOf ts) ↔
      ∃ p w q, ts = p ++ .quoted w :: q ∧
        quotedHit? ((maskOf p).reverse ++ before) q (.quoted w) = some k := by
  induction ts generalizing before with
  | nil =>
    refine iff_of_false List.not_mem_nil ?_
    rintro ⟨p, w, q, hsplit, -⟩
    cases p <;> cases hsplit
  | cons t ts ih =>
    rw [hitsFrom_quotedName_cons h, List.mem_append, Option.mem_toList, ih h.tail]
    constructor
    · rintro (hhere | ⟨p, w, q, rfl, hhit⟩)
      · cases t with
        | word w => cases hhere
        | other c m => cases hhere
        | quoted w => exact ⟨[], w, ts, rfl, hhere⟩
      · refine ⟨t :: p, w, q, rfl, ?_⟩
        rwa [maskOf_cons, List.reverse_append, List.append_assoc]
    · rintro ⟨p, w, q, hsplit, hhit⟩
      cases p with
      | nil =>
        obtain ⟨rfl, rfl⟩ := List.cons.inj hsplit
        exact .inl hhit
      | cons u p =>
        obtain ⟨rfl, rfl⟩ := List.cons.inj hsplit
        refine .inr ⟨p, w, q, rfl, ?_⟩
        rwa [maskOf_cons, List.reverse_append, List.append_assoc] at hhit

/-- A name in quotes may be a column unless there is a dot beside it, or `FROM`, `JOIN` or `AS` in
front. -/
theorem mem_quotedNames_iff (h : Lexed ts) {k : Hit Text} :
    k ∈ quotedNames (maskOf ts) ↔
      ∃ p q, ts = p ++ .quoted k.value :: q ∧ k.start = (maskOf p).length ∧
        k.stop = (maskOf p).length + (inQuotes k.value).length ∧
        besideDot (maskOf p).reverse (maskOf q) = false ∧
        followsWord ["FROM", "JOIN", "AS"] (maskOf p).reverse = false := by
  rw [quotedNames, List.mem_filterMap]
  constructor
  · rintro ⟨l, hl, hsome⟩
    obtain ⟨p, w, q, rfl, hhit⟩ := (mem_hitsFrom_quotedName_iff h).1 hl
    obtain rfl := Option.some.inj hhit
    split at hsome
    swap
    · cases hsome
    rename_i hcolumn
    obtain rfl := Option.some.inj hsome
    simp only [List.append_nil, Bool.and_eq_true, Bool.not_eq_true'] at hcolumn
    exact ⟨p, q, rfl, by simp, by simp, hcolumn⟩
  · rintro ⟨p, q, hts, hstart, hstop, hdot, hword⟩
    refine ⟨⟨k.start, k.stop, (k.value, true)⟩, ?_, rfl⟩
    refine (mem_hitsFrom_quotedName_iff h).2 ⟨p, k.value, q, hts, ?_⟩
    simp only [quotedHit?, List.append_nil, List.length_reverse, hdot, hword, hstart, hstop]
    rfl

include h in
theorem stand_of_mem_quotedNames {k : Hit Text} (hk : k ∈ quotedNames (maskOf ts)) :
    StandsIn ⟨k.value, true⟩ k.start k.stop 0 ts := by
  obtain ⟨p, q, hts, hstart, hstop, -⟩ := (mem_quotedNames_iff h).1 hk
  exact ⟨p, q, hts, by rw [hstart, Nat.zero_add], by rw [hstop, hstart]; rfl⟩

include h in
/-- A name in quotes with a dot beside it is part of a qualified one. -/
theorem not_dotBeside_of_mem_quotedNames {k : Hit Text} (hk : k ∈ quotedNames (maskOf ts)) :
    dotBeside (maskOf ts) k.start k.stop = false := by
  obtain ⟨p, q, hts, hstart, hstop, hdot, -⟩ := (mem_quotedNames_iff h).1 hk
  rw [hstart, hstop, hts]
  exact (dotBeside_maskOf p (.quoted k.value) q).trans hdot

theorem pairwise_quotedNames (masked : Text) :
    (quotedNames masked).Pairwise fun k l => k.start < l.start ∧ k.stop ≤ l.start := by
  refine List.pairwise_filterMap.2 (pairwise_hitsFrom.imp fun {k l} hkl => ?_)
  intro k' hk' l' hl'
  split at hk'
  · split at hl'
    · obtain rfl := Option.some.inj hk'
      obtain rfl := Option.some.inj hl'
      exact hkl
    · cases hl'
  · cases hk'

end Reading

end QueryGate
