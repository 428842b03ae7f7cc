import QueryGate.Proofs.Repair.Lookups
import QueryGate.Proofs.Repair.Spelling
import QueryGate.Proofs.Sql.LeadingWords
import QueryGate.Proofs.Sql.QualifiedPlaces

/-!
# Tokens through the passes

A pass replaces the tokens whose lookups it corrects and no other (`Step`). So a token of the query
can be followed by its number through all four passes to the repaired text (`exists_traced`): what
it becomes is decided at each by the lookups at its place.
-/

namespace QueryGate

/-! ## What a lookup makes of its token -/

namespace Lookup

/-- The token that is written in place of the name that is looked up. -/
def replacement? (context : Text) (l : Lookup) : Option Token :=
  match matchName l.identifier.name l.known context with
  | none => none
  | some m =>
    if l.identifier.effective = m.name then none else some (.rendered m.name l.identifier.quoted)

variable {l : Lookup} {context : Text}

theorem correction?_edit (l : Lookup) (context : Text) :
    (l.correction? context).map (·.edit) =
      (l.replacement? context).map fun u => ⟨l.span.start, l.span.stop, u.text⟩ := by
  unfold correction? Repair.correction? replacement?
  cases matchName l.identifier.name l.known context with
  | none => rfl
  | some m =>
    simp only
    split
    · rfl
    · rw [Option.map_some, Option.map_some, Token.text_rendered]

theorem replacement?_eq_none_iff :
    l.replacement? context = none ↔ l.correction? context = none := by
  have h := l.correction?_edit context
  rw [← Option.map_eq_none_iff, ← h, Option.map_eq_none_iff]

/-- A replacement is the rendering of a known name, which is another one than the name denotes. -/
theorem exists_name_of_replacement? {u : Token} (h : l.replacement? context = some u) :
    ∃ m, matchName l.identifier.name l.known context = some m ∧ l.identifier.effective ≠ m.name ∧
      u = .rendered m.name l.identifier.quoted := by
  unfold replacement? at h
  split at h
  · cases h
  rename_i m hm
  split at h
  · cases h
  rename_i hne
  exact ⟨m, hm, hne, (Option.some.inj h).symm⟩

/-- A name that is looked up is a token that is no keyword, among known names that are some of
`names`. -/
structure Fits (names : Text → Prop) (ts : List Token) (l : Lookup) : Prop where
  stands : StandsIn l.identifier l.span.start l.span.stop 0 ts
  noKeyword : l.identifier.quoted = false → isKeyword l.identifier.name = false
  known : ∀ n ∈ l.known, names n

end Lookup

/-! ## One pass -/

/-- What a pass makes of a token: a lookup at its place replaces it, or none does and it is left. -/
def Becomes (context : Text) (lookups : List Lookup) (place : Nat) (t u : Token) : Prop :=
  (∃ l ∈ lookups, l.span.start = place ∧ l.replacement? context = some u) ∨
    u = t ∧ ∀ l ∈ lookups, l.span.start = place → l.replacement? context = none

/-- A pass over a text that is cut into tokens, and the tokens that it leaves. -/
structure Step (names : Text → Prop) (context : Text) (lookups : List Lookup)
    (ts us : List Token) : Prop where
  source : LexedAs (textOf ts) ts
  target : LexedAs (textOf us) us
  fits : ∀ l ∈ lookups, l.Fits names ts
  becomes : List.Forall₂ (fun x u => Becomes context lookups x.2 x.1 u) (placed 0 ts) us
  output : textOf us =
    Repair.apply (textOf ts) (lookups.filterMap (Lookup.correction? context))

section Step

variable {names : Text → Prop} {context : Text} {lookups : List Lookup} {ts us : List Token}

theorem LexedAs.textOf {sql : Text} (h : LexedAs sql ts) : LexedAs (textOf ts) ts :=
  h.text ▸ h

/-- Each edit writes the replacement of a lookup. -/
theorem Lookup.mem_edits_iff {e : Edit} :
    e ∈ (lookups.filterMap (Lookup.correction? context)).map (·.edit) ↔
      ∃ l ∈ lookups, ∃ u, l.replacement? context = some u ∧
        e = ⟨l.span.start, l.span.stop, u.text⟩ := by
  rw [List.map_filterMap, List.mem_filterMap]
  refine exists_congr fun l => and_congr_right fun _ => ?_
  rw [Lookup.correction?_edit, Option.map_eq_some_iff]
  exact exists_congr fun u => and_congr_right fun _ => eq_comm

theorem Lookup.Fits.put {l : Lookup} (h : l.Fits names ts) {u : Token}
    (hu : l.replacement? context = some u) :
    Put (fun n => names n ∧ n ≠ []) l.identifier.token u := by
  obtain ⟨m, hm, -, rfl⟩ := Lookup.exists_name_of_replacement? hu
  exact .of_identifier h.noKeyword ⟨h.known _ (mem_of_matchName hm), ne_nil_of_matchName hm⟩

/-- The edit of a lookup replaces the token at its place. -/
theorem Lookup.Fits.editsPiece {l : Lookup} (h : l.Fits names ts) (hl : l ∈ lookups) {u : Token}
    (hu : l.replacement? context = some u) :
    EditsPiece Prod.fst (fun x u => Becomes context lookups x.2 x.1 u ∧
      Put (fun n => names n ∧ n ≠ []) x.1 u) (placed 0 ts) ⟨l.span.start, l.span.stop, u.text⟩ := by
  have hput := h.put hu
  obtain ⟨p, q, rfl, hstart, hstop⟩ := h.stands
  rw [Nat.zero_add] at hstart
  refine ⟨placed 0 p, (l.identifier.token, (maskOf p).length), u, _,
    by rw [placed_append, placed, Nat.zero_add], ⟨.inl ⟨l, hl, hstart, hu⟩, hput⟩, ?_⟩
  rw [map_fst_placed, hstop, hstart, length_maskOf, Identifier.mask_token]

/-- A pass whose corrections are apart leaves tokens. -/
theorem exists_step (context : Text) {sql : Text} (h : LexedAs sql ts)
    (hfits : ∀ l ∈ lookups, l.Fits names ts)
    (hnodup : ((lookups.filterMap (Lookup.correction? context)).map (·.edit.start)).Nodup)
    (hnames : ∀ n, names n → n ≠ [] → (Token.quoted n).Fit) :
    ∃ us, Step names context lookups ts us := by
  obtain ⟨edits, hedits⟩ : ∃ edits, edits =
      (lookups.filterMap (Lookup.correction? context)).map (·.edit) := ⟨_, rfl⟩
  have hmem : ∀ e, e ∈ Edit.fromLast edits ↔ ∃ l ∈ lookups, ∃ u,
      l.replacement? context = some u ∧ e = ⟨l.span.start, l.span.stop, u.text⟩ := by
    intro e
    rw [(Edit.perm_fromLast edits).mem_iff, hedits, Lookup.mem_edits_iff]
  have hpieces : ∀ e ∈ Edit.fromLast edits,
      EditsPiece Prod.fst (fun x u => Becomes context lookups x.2 x.1 u ∧
        Put (fun n => names n ∧ n ≠ []) x.1 u) (placed 0 ts) e := by
    intro e he
    obtain ⟨l, hl, u, hu, rfl⟩ := (hmem e).1 he
    exact (hfits l hl).editsPiece hl hu
  have hsorted : (Edit.fromLast edits).Pairwise fun d e => e.start < d.start := by
    refine Edit.pairwise_lt_fromLast ?_
    rw [hedits, List.map_map]
    exact hnodup
  obtain ⟨us, hus, hfold⟩ := exists_forall₂_placed_of_foldl
    (fun t ht => Token.mask_ne_nil (h.lexed.fit t ht)) hpieces hsorted (fun x hx hno => by
      refine ⟨.inr ⟨rfl, fun l hl hplace => ?_⟩, .same x.1⟩
      cases hu : l.replacement? context with
      | none => rfl
      | some u => exact absurd hplace (hno _ ((hmem _).2 ⟨l, hl, u, hu, rfl⟩))) []
  rw [List.append_nil, List.append_nil, h.text] at hfold
  have hK : KeepsTokens (Put fun n => names n ∧ n ≠ []) :=
    Put.keepsTokens fun n hn => hnames n hn.1 hn.2
  have hrelated : List.Forall₂ (Put fun n => names n ∧ n ≠ []) ts us := by
    rw [← map_fst_placed 0 ts, List.forall₂_map_left_iff]
    exact hus.imp fun _ _ hxu => hxu.2
  have hlexed := hK.lexed hrelated h.lexed
  have hmask := hK.mask_append hrelated h.lexed hlexed [] (by rw [List.nil_append, h.text, h.mask])
  refine ⟨us, h.textOf, ⟨hlexed, rfl, hmask.symm⟩, hfits, hus.imp fun _ _ hxu => hxu.1, ?_⟩
  rw [Repair.apply, ← hedits, applyEdits, h.text, hfold]

/-- Nothing is looked up, and nothing changes. -/
theorem Step.refl (h : LexedAs (textOf ts) ts) : Step names context [] ts ts :=
  ⟨h, h, nofun, forall₂_placed fun _ _ => .inr ⟨rfl, nofun⟩, rfl⟩

/-- Tokens that are all left stand where they stood. -/
theorem take_eq_of_kept (hlen : us.length = ts.length) {n : Nat} {p s : List Token}
    (hsplit : ts.take n = p ++ s)
    (hkept : ∀ (j : Nat) t, ts[j]? = some t → t ∈ s → us[j]? = some t) :
    us.take n = (us.take n).take p.length ++ s := by
  have hdrop : (us.take n).drop p.length = s := by
    refine List.ext_getElem? fun j => ?_
    rw [List.getElem?_drop]
    cases hj : s[j]? with
    | some t =>
      have hts : (ts.take n)[p.length + j]? = some t := by
        rw [hsplit, List.getElem?_append_right (Nat.le_add_right _ _), Nat.add_sub_cancel_left, hj]
      have hlt : p.length + j < n := by
        have := (List.getElem?_eq_some_iff.1 hts).1
        rw [List.length_take] at this
        omega
      rw [List.getElem?_take_of_lt hlt] at hts ⊢
      exact hkept _ t hts (List.mem_of_getElem? hj)
    | none =>
      have hlength := congrArg List.length hsplit
      rw [List.length_append, List.length_take, ← hlen, ← List.length_take] at hlength
      rw [List.getElem?_eq_none_iff] at hj ⊢
      omega
  rw [← hdrop, List.take_append_drop]

namespace Step

theorem length_eq (h : Step names context lookups ts us) : us.length = ts.length := by
  rw [← h.becomes.length_eq, ← List.length_map Prod.fst, map_fst_placed]

/-- What becomes of the token with a number. -/
theorem exists_becomes (h : Step names context lookups ts us) {i : Nat} {t : Token}
    (ht : ts[i]? = some t) :
    ∃ u, us[i]? = some u ∧ Becomes context lookups (placeOf ts i) t u := by
  obtain ⟨p, q, rfl, rfl⟩ := exists_split_of_getElem? ht
  have hall := h.becomes
  rw [placed_append, placed, Nat.zero_add] at hall
  have hdrop := List.forall₂_drop_append us (placed 0 p) _ hall.flip
  have hlen : (placed 0 p).length = p.length := by
    rw [← List.length_map Prod.fst, map_fst_placed]
  obtain ⟨u, vs, hu, -, hus⟩ := List.forall₂_cons_right_iff.1 hdrop
  refine ⟨u, ?_, by rwa [placeOf_append]⟩
  rw [← hlen, ← Nat.add_zero (placed 0 p).length, ← List.getElem?_drop, hus]
  rfl

theorem exists_source (h : Step names context lookups ts us) {i : Nat} {u : Token}
    (hu : us[i]? = some u) :
    ∃ t, ts[i]? = some t ∧ Becomes context lookups (placeOf ts i) t u := by
  obtain ⟨hi, -⟩ := List.getElem?_eq_some_iff.1 hu
  rw [h.length_eq] at hi
  obtain ⟨v, hv, hbecomes⟩ := h.exists_becomes (List.getElem?_eq_getElem hi)
  obtain rfl := Option.some.inj (hu.symm.trans hv)
  exact ⟨ts[i], List.getElem?_eq_getElem hi, hbecomes⟩

/-- A name is left, or a lookup of it replaces it by the known name that it finds. -/
theorem exists_lookup (h : Step names context lookups ts us) {n : Nat} {i : Identifier}
    (hn : ts[n]? = some i.token) :
    us[n]? = some i.token ∨
      ∃ l ∈ lookups, l.identifier = i ∧ l.span.start = placeOf ts n ∧
        ∃ m, matchName i.name l.known context = some m ∧ i.effective ≠ m.name ∧
          us[n]? = some (.rendered m.name i.quoted) := by
  obtain ⟨u, hu, ⟨l, hl, hplace, hrep⟩ | ⟨rfl, -⟩⟩ := h.exists_becomes hn
  · refine .inr ⟨l, hl, ?_⟩
    have hstands := (h.fits l hl).stands
    rw [hplace] at hstands
    obtain ⟨rfl, -⟩ := hstands.unique h.source.lexed (.of_number hn)
    obtain ⟨m, hm, hne, rfl⟩ := Lookup.exists_name_of_replacement? hrep
    exact ⟨rfl, hplace, m, hm, hne, hu⟩
  · exact .inl hu

/-- A name behind a pass was there in front of it, or it is the known name that a lookup found. -/
theorem exists_origin (h : Step names context lookups ts us) {n : Nat} {i : Identifier}
    (hn : us[n]? = some i.token) :
    ts[n]? = some i.token ∨
      ∃ l ∈ lookups, l.span.start = placeOf ts n ∧ ts[n]? = some l.identifier.token ∧
        ∃ m, matchName l.identifier.name l.known context = some m ∧
          i = .rendered m.name l.identifier.quoted := by
  obtain ⟨t, ht, ⟨l, hl, hplace, hrep⟩ | ⟨rfl, -⟩⟩ := h.exists_source hn
  · obtain ⟨j, hj, hj'⟩ := (h.fits l hl).stands.exists_number
    obtain rfl := h.source.lexed.placeOf_injective ht hj (hplace.symm.trans hj'.symm)
    obtain ⟨m, hm, -, hrendered⟩ := Lookup.exists_name_of_replacement? hrep
    rw [← Identifier.token_rendered] at hrendered
    exact .inr ⟨l, hl, hplace, hj, m, hm, Identifier.token_injective hrendered⟩
  · exact .inl ht

theorem kept_other (h : Step names context lookups ts us) {n : Nat} {c m : Char}
    (hn : ts[n]? = some (.other c m)) : us[n]? = some (.other c m) := by
  obtain ⟨u, hu, ⟨l, hl, hplace, -⟩ | ⟨rfl, -⟩⟩ := h.exists_becomes hn
  · obtain ⟨j, hj, hj'⟩ := (h.fits l hl).stands.exists_number
    obtain rfl := h.source.lexed.placeOf_injective hn hj (hplace.symm.trans hj'.symm)
    exact absurd (hn.symm.trans hj) (by
      obtain ⟨w, quoted⟩ := l.identifier
      cases quoted <;> nofun)
  · exact hu

theorem kept_keyword (h : Step names context lookups ts us) {n : Nat} {w : Text}
    (hn : ts[n]? = some (.word w)) (hw : isKeyword w = true) : us[n]? = some (.word w) := by
  rcases h.exists_lookup (i := ⟨w, false⟩) hn with hkept | ⟨l, hl, hi, -⟩
  · exact hkept
  · have := (h.fits l hl).noKeyword (by rw [hi])
    rw [hi, hw] at this
    cases this

/-- Where names are looked up only, what is a name is left so, and so is every other token. -/
theorem map_shape (h : Step names context lookups ts us)
    (hshape : ∀ l ∈ lookups, l.identifier.token.shape = .name) :
    us.map Token.shape = ts.map Token.shape := by
  refine List.ext_getElem? fun n => ?_
  rw [List.getElem?_map, List.getElem?_map]
  cases hn : us[n]? with
  | none =>
    rw [List.getElem?_eq_none_iff, h.length_eq, ← List.getElem?_eq_none_iff] at hn
    rw [hn]
  | some u =>
    obtain ⟨t, ht, ⟨l, hl, hplace, hrep⟩ | ⟨rfl, -⟩⟩ := h.exists_source hn
    · obtain ⟨j, hj, hj'⟩ := (h.fits l hl).stands.exists_number
      obtain rfl := h.source.lexed.placeOf_injective ht hj (hplace.symm.trans hj'.symm)
      obtain rfl := Option.some.inj (ht.symm.trans hj)
      obtain ⟨m, hm, -, rfl⟩ := Lookup.exists_name_of_replacement? hrep
      rw [ht, Option.map_some, Option.map_some, hshape l hl,
        Token.shape_rendered (ne_nil_of_matchName hm)]
    · rw [ht]

/-- What becomes of a token is that token, or the rendering of a known name. -/
theorem eq_or_rendered (h : Step names context lookups ts us) {n : Nat} {u : Token}
    (hn : us[n]? = some u) :
    ts[n]? = some u ∨ ∃ name forceQuotes, names name ∧ u = .rendered name forceQuotes := by
  obtain ⟨t, ht, ⟨l, hl, -, hrep⟩ | ⟨rfl, -⟩⟩ := h.exists_source hn
  · obtain ⟨m, hm, -, rfl⟩ := Lookup.exists_name_of_replacement? hrep
    exact .inr ⟨m.name, _, (h.fits l hl).known _ (mem_of_matchName hm), rfl⟩
  · exact .inl ht

/-- A name that is put in bare has plain letters. -/
theorem plainWords (h : Step names context lookups ts us) (hts : PlainWords ts) :
    PlainWords us := by
  intro u hu
  obtain ⟨n, hn⟩ := List.getElem?_of_mem hu
  rcases h.eq_or_rendered hn with ht | ⟨name, forceQuotes, -, rfl⟩
  · exact hts _ (List.mem_of_getElem? ht)
  · cases hword : Token.rendered name forceQuotes with
    | word w =>
      intro c hc hmem
      have hall : ∀ c ∈ foldedLetters, 128 ≤ c.toNat := by decide
      exact absurd ((Token.ascii_of_rendered hword).2 c hc) (Nat.not_lt.2 (hall c hmem))
    | quoted w => exact trivial
    | other c m => exact trivial

/-- What holds of the names in quotes and of the known names holds of the names in quotes behind a
pass. -/
theorem forall_quoted (h : Step names context lookups ts us) {P : Text → Prop}
    (hnames : ∀ n, names n → P n) (hts : ∀ w, Token.quoted w ∈ ts → P w) :
    ∀ w, Token.quoted w ∈ us → P w := by
  intro w hw
  obtain ⟨n, hn⟩ := List.getElem?_of_mem hw
  rcases h.eq_or_rendered hn with ht | ⟨name, forceQuotes, hname, hrendered⟩
  · exact hts w (List.mem_of_getElem? ht)
  · unfold Token.rendered at hrendered
    split at hrendered
    · rw [Token.quoted.inj hrendered]
      exact hnames name hname
    · cases hrendered

/-- A pass puts dots in quotes only where a known name has one. -/
theorem quotesLackDots (h : Step names context lookups ts us) (hts : QuotesLackDots ts)
    (hnames : ∀ n, names n → '.' ∉ n) : QuotesLackDots us := h.forall_quoted hnames hts

/-- Keywords that lead up to a token do so still. -/
theorem leadBy (h : Step names context lookups ts us) (hts : PlainWords ts) {words : List Text}
    (hwords : ∀ w ∈ words, Ascii w ∧ isKeyword w = true) {n : Nat}
    (hlead : LeadBy words (ts.take n)) : LeadBy words (us.take n) := by
  obtain ⟨p, w, g, hsplit, hne, hblank, word, hword, hspells⟩ := hlead
  have hlexed : Lexed (.word w :: g) := (Lexed.of_append (hsplit ▸ h.source.lexed.take n)).2
  have hw : .word w ∈ ts := List.mem_of_mem_take (hsplit ▸ List.mem_append_right p List.mem_cons_self)
  have hkeyword : isKeyword w = true := by
    rw [isKeyword_of_spells (hwords word hword).1 (hts _ hw) hspells]
    exact (hwords word hword).2
  -- The keyword and the blanks are left where they are.
  refine ⟨(us.take n).take p.length, w, g, take_eq_of_kept h.length_eq hsplit fun j t hj ht => ?_,
    hne, hblank, word, hword, hspells⟩
  rcases List.mem_cons.1 ht with rfl | ht
  · exact h.kept_keyword hj hkeyword
  · obtain ⟨c, m, rfl⟩ := hlexed.tail.exists_other_of_blank hblank ht
    exact h.kept_other hj

/-- No keyword comes in front of a token. -/
theorem leadBy_of_target (h : Step names context lookups ts us)
    (hnames : ∀ n, names n → isKeyword n = false) {words : List Text}
    (hwords : ∀ w ∈ words, Ascii w ∧ isKeyword w = true) {n : Nat}
    (hlead : LeadBy words (us.take n)) : LeadBy words (ts.take n) := by
  obtain ⟨p, w, g, hsplit, hne, hblank, word, hword, hspells⟩ := hlead
  have hlexed : Lexed (.word w :: g) := (Lexed.of_append (hsplit ▸ h.target.lexed.take n)).2
  refine ⟨(ts.take n).take p.length, w, g,
    take_eq_of_kept h.length_eq.symm hsplit fun j t hj ht => ?_, hne, hblank, word, hword, hspells⟩
  refine (h.eq_or_rendered hj).resolve_right ?_
  rintro ⟨name, forceQuotes, hname, rfl⟩
  rcases List.mem_cons.1 ht with hw | hg
  · -- A bare name has ASCII letters only, so that it would be the keyword.
    obtain ⟨rfl, hascii⟩ := Token.ascii_of_rendered hw
    have hno := hnames name hname
    rw [isKeyword, ((hwords word hword).1.spells_iff hascii).1 hspells, ← isKeyword,
      (hwords word hword).2] at hno
    cases hno
  · obtain ⟨c, m, hother⟩ := hlexed.tail.exists_other_of_blank hblank hg
    unfold Token.rendered at hother
    split at hother <;> cases hother

end Step

end Step

/-! ## The four passes -/

namespace Repair

/-- The columns that the last two passes look names up among. -/
def candidates (k : KnownNames) (sql : Text) : List Text :=
  k.candidateColumns (distinct ((tableRefs sql).map (resolvedTable k sql)))

end Repair

namespace Lookup

variable (k : KnownNames) (sql text : Text)

/-- The names that the second pass looks up in a text, for the query `sql`. -/
def inQualified : List Lookup :=
  (qualifiedRefs (maskLiterals text)).flatMap
    (qualified k sql (Repair.bindings k sql (tableRefs sql)))

/-- The names that the third pass looks up. -/
def inQuoted : List Lookup :=
  quoted k (maskLiterals text) (Repair.bindings k sql (tableRefs sql)) (Repair.candidates k sql)

/-- The names that the last pass looks up. -/
def inSelected : List Lookup :=
  selected text (Repair.bindings k sql (tableRefs sql)) (Repair.candidates k sql)

end Lookup

/-- A text is read as tokens, whatever its names in quotes hold but dots and what introduces a
table. -/
structure ReadAs (sql : Text) (ts : List Token) : Prop extends LexedAs sql ts where
  dots : QuotesLackDots ts
  sources : QuotesLackSources ts

theorem TokensOf.readAs {sql : Text} {ts : List Token} (h : TokensOf sql ts) : ReadAs sql ts :=
  ⟨h.lexedAs, h.words.lackDots, h.words.lackSources⟩

section Fits

variable {names : Text → Prop} {k : KnownNames} {sql text : Text} {ts : List Token} {l : Lookup}

theorem fits_tables (hk : k.Within names) (hrefs : RefsIn (tableRefs sql) ts)
    (hl : l ∈ Lookup.tables k (tableRefs sql)) : l.Fits names ts := by
  obtain ⟨r, hr, rfl⟩ := List.mem_map.1 hl
  have hin := hrefs.refIn r hr
  exact ⟨hin.stands, hin.noKeyword, hk.tables⟩

/-- A qualified name is looked up as a column of the table that its qualifier means, or of the one
that the qualifier is taken for, or it is a qualifier that is bound to nothing. -/
theorem mem_qualified {bound : Repair.Bindings} {context : Text} {q : QualifiedRef}
    (hl : l ∈ Lookup.qualified k context bound q) :
    (l.identifier = q.column ∧ l.span = q.columnSpan ∧
        (q.column.quoted = false → isReserved q.column.name = false) ∧
        ∃ table, l.known = k.columnsOf [table] ∧
          (Dictionary.find? (lower q.qualifier.name) bound = some table ∨
            Dictionary.find? (lower q.qualifier.name) bound = none ∧
              (matchName q.qualifier.name k.tables context).map (·.name) = some table)) ∨
      (l.identifier = q.qualifier ∧ l.span = q.qualifierSpan ∧
        isReserved q.qualifier.name = false ∧ l.known = k.tables ∧
        Dictionary.find? (lower q.qualifier.name) bound = none) := by
  have hcolumn {table : Text} (hl : l ∈ Lookup.column k q table) :
      l.identifier = q.column ∧ l.span = q.columnSpan ∧
        (q.column.quoted = false → isReserved q.column.name = false) ∧
        l.known = k.columnsOf [table] := by
    unfold Lookup.column at hl
    split at hl
    · cases hl
    rename_i hreserved
    obtain rfl := List.mem_singleton.1 hl
    refine ⟨rfl, rfl, fun hquoted => ?_, rfl⟩
    simpa [hquoted] using hreserved
  unfold Lookup.qualified at hl
  split at hl
  · rename_i table hfind
    obtain ⟨hi, hs, hreserved, hknown⟩ := hcolumn hl
    exact .inl ⟨hi, hs, hreserved, table, hknown, .inl hfind⟩
  rename_i hfind
  split at hl
  · cases hl
  rename_i hreserved
  rcases List.mem_cons.1 hl with rfl | hl
  · exact .inr ⟨rfl, rfl, Bool.eq_false_iff.2 hreserved, rfl, hfind⟩
  · split at hl
    · cases hl
    rename_i m hm
    obtain ⟨hi, hs, hreserved, hknown⟩ := hcolumn hl
    exact .inl ⟨hi, hs, hreserved, m.name, hknown, .inr ⟨hfind, by rw [hm]; rfl⟩⟩

theorem fits_inQualified (hk : k.Within names) (h : LexedAs text ts) (hdots : QuotesLackDots ts)
    (hl : l ∈ Lookup.inQualified k sql text) : l.Fits names ts := by
  obtain ⟨q, hq, hl⟩ := List.mem_flatMap.1 hl
  rw [← h.mask] at hq
  obtain ⟨hqualifier, hcolumn, -⟩ := stand_of_mem_qualifiedRefs h.lexed hdots hq
  have hknown := Lookup.known_of_qualified hk hl
  rcases mem_qualified hl with ⟨hi, hs, hreserved, -⟩ | ⟨hi, hs, hreserved, -⟩
  · refine ⟨by rwa [hi, hs], fun hbare => ?_, hknown⟩
    rw [hi] at hbare ⊢
    exact isKeyword_eq_false_of_isReserved (hreserved hbare)
  · refine ⟨by rwa [hi, hs], fun _ => ?_, hknown⟩
    rw [hi]
    exact isKeyword_eq_false_of_isReserved hreserved

/-- What the third pass looks up is a name in quotes that is none the query declares. -/
theorem mem_inQuoted (hl : l ∈ Lookup.inQuoted k sql text) :
    ∃ h ∈ quotedNames (maskLiterals text), l.identifier = ⟨h.value, true⟩ ∧
      l.span = ⟨h.start, h.stop⟩ ∧ l.known = Repair.candidates k sql ∧
      Dictionary.find? (lower h.value) (Repair.bindings k sql (tableRefs sql)) = none ∧
      h.value ∉ declaredAliases (maskLiterals text) ∧ ∀ t ∈ k.tables, lower t ≠ lower h.value := by
  obtain ⟨h, hh, hsome⟩ := List.mem_filterMap.1 hl
  split at hsome
  · cases hsome
  rename_i hno
  obtain rfl := Option.some.inj hsome
  simp only [Bool.or_eq_true, not_or, Bool.not_eq_true, Option.isSome_eq_false_iff,
    Option.isNone_iff_eq_none, List.any_eq_false, beq_iff_eq] at hno
  refine ⟨h, hh, rfl, rfl, rfl, hno.1.1, ?_, hno.2⟩
  simpa using hno.1.2

theorem fits_inQuoted (hk : k.Within names) (h : LexedAs text ts)
    (hl : l ∈ Lookup.inQuoted k sql text) : l.Fits names ts := by
  obtain ⟨m, hm, hi, hs, hknown, -⟩ := mem_inQuoted hl
  rw [← h.mask] at hm
  refine ⟨?_, fun hbare => ?_, ?_⟩
  · rw [hi, hs]
    exact stand_of_mem_quotedNames h.lexed hm
  · rw [hi] at hbare
    cases hbare
  · rw [hknown]
    exact hk.candidateColumns _

/-- What the last pass looks up is a bare name in a select list that the query does not declare. -/
theorem mem_inSelected (hl : l ∈ Lookup.inSelected k sql text) :
    ∃ h ∈ selectedNames (maskQuoted (maskLiterals text)), l.identifier = ⟨h.value, false⟩ ∧
      l.span = ⟨h.start, h.stop⟩ ∧ l.known = Repair.candidates k sql ∧
      isReserved h.value = false ∧
      Dictionary.find? (lower h.value) (Repair.bindings k sql (tableRefs sql)) = none ∧
      2 ≤ h.value.length ∧
      (lower h.value ∈
          Repair.outputNames (maskLiterals text) (maskQuoted (maskLiterals text)) →
        lower h.value ∈ (Repair.candidates k sql).map lower) := by
  obtain ⟨h, hh, hsome⟩ := List.mem_filterMap.1 hl
  split at hsome
  · cases hsome
  rename_i hno
  obtain rfl := Option.some.inj hsome
  simp only [Bool.or_eq_true, not_or, Bool.not_eq_true, Option.isSome_eq_false_iff,
    Option.isNone_iff_eq_none] at hno
  refine ⟨h, mem_distinct h hh, rfl, rfl, rfl, hno.1.1.1, hno.1.1.2,
    Nat.not_lt.1 (of_decide_eq_false hno.1.2), fun hout => ?_⟩
  by_contra hcolumn
  have hin : ((Repair.outputNames (maskLiterals text) (maskQuoted (maskLiterals text))).filter
      (!((Repair.candidates k sql).map lower).contains ·)).contains (lower h.value) = true := by
    rw [List.contains_iff_mem, List.mem_filter]
    exact ⟨hout, by simpa using hcolumn⟩
  rw [hin] at hno
  exact absurd hno.2 (by decide)

theorem fits_inSelected (hk : k.Within names) (h : LexedAs text ts)
    (hl : l ∈ Lookup.inSelected k sql text) : l.Fits names ts := by
  obtain ⟨m, hm, hi, hs, hknown, hreserved, -⟩ := mem_inSelected hl
  rw [← h.mask] at hm
  refine ⟨?_, fun _ => ?_, ?_⟩
  · rw [hi, hs]
    exact stand_of_mem_selectedNames h.lexed hm
  · rw [hi]
    exact isKeyword_eq_false_of_isReserved hreserved
  · rw [hknown]
    exact hk.candidateColumns _

end Fits

/-- The tokens of a query as each pass of the repair leaves them, the last as those of the repaired
text. -/
structure Traced (k : KnownNames) (sql : Text) (ts a b c us : List Token) : Prop where
  tables : Step k.Knows sql (Lookup.tables k (tableRefs sql)) ts a
  qualified : Step k.Knows sql (Lookup.inQualified k sql (textOf a)) a b
  quoted : Step k.Knows sql (Lookup.inQuoted k sql (textOf b)) b c
  selected : Step k.Knows sql (Lookup.inSelected k sql (textOf c)) c us
  output : textOf us = (repair k sql).sql

/-- Where nothing but blanks stands, no name does. -/
theorem StandsIn.not_blank {ts : List Token} {i : Identifier} {start stop : Nat}
    (h : StandsIn i start stop 0 ts) (hts : Lexed ts) : allBlank (maskOf ts) = false := by
  obtain ⟨p, q, rfl, -, -⟩ := h
  rw [Bool.eq_false_iff]
  intro hblank
  obtain ⟨c, m, hother⟩ := hts.exists_other_of_blank (t := i.token) hblank (by simp)
  obtain ⟨w, quoted⟩ := i
  cases quoted <;> cases hother

theorem repair_of_blank (k : KnownNames) {sql : Text} (h : allBlank sql = true) :
    (repair k sql).sql = sql := by
  unfold repair
  rw [if_pos h]

theorem repair_of_not_blank (k : KnownNames) {sql : Text} (h : allBlank sql = false) :
    (repair k sql).sql =
      let text₁ := Repair.apply sql
        ((Lookup.tables k (tableRefs sql)).filterMap (Lookup.correction? sql))
      let text₂ := Repair.apply text₁
        ((Lookup.inQualified k sql text₁).filterMap (Lookup.correction? sql))
      let text₃ := Repair.apply text₂
        ((Lookup.inQuoted k sql text₂).filterMap (Lookup.correction? sql))
      Repair.apply text₃ ((Lookup.inSelected k sql text₃).filterMap (Lookup.correction? sql)) := by
  unfold repair
  rw [h, if_neg Bool.false_ne_true]
  simp only [Lookup.inQualified, Lookup.inQuoted, Lookup.inSelected, Repair.candidates,
    filterMap_tables, filterMap_flatMap_qualified, filterMap_quoted, filterMap_selected]

/-- The known names can stand in quotes, and in front of a dot and behind one. -/
def KnownNames.Writable (k : KnownNames) : Prop :=
  ∀ n, k.Knows n → '"' ∉ n ∧ '\'' ∉ n ∧ '.' ∉ n

theorem KnownNames.Writable.fit {k : KnownNames} (h : k.Writable) {n : Text} (hn : k.Knows n)
    (hne : n ≠ []) : (Token.quoted n).Fit := by
  obtain ⟨hquote, happostrophe, -⟩ := h n hn
  refine ⟨hne, fun c hc => ⟨?_, ?_⟩⟩
  · rintro rfl
    exact hquote hc
  · rintro rfl
    exact happostrophe hc

/-- Every query that is read as tokens can be traced through the repair. -/
theorem exists_traced {k : KnownNames} (hk : k.Writable) {sql : Text} {ts : List Token}
    (h : ReadAs sql ts) : ∃ a b c us, Traced k sql ts a b c us := by
  have hrefs := h.toLexedAs.tableRefs h.sources
  have hwithin := k.within_knows
  have hfit : ∀ n, k.Knows n → n ≠ [] → (Token.quoted n).Fit := fun n => hk.fit
  cases hblank : allBlank sql with
  | true =>
    have hmask : allBlank (maskOf ts) = true := by
      rw [h.mask, maskLiterals_eq_self (not_mem_of_allBlank (by decide) hblank), hblank]
    have hnone {lookups : List Lookup} (hl : ∀ l ∈ lookups, l.Fits k.Knows ts) :
        Step k.Knows sql lookups ts ts := by
      cases lookups with
      | nil => exact .refl h.toLexedAs.textOf
      | cons l lookups =>
        have := (hl l List.mem_cons_self).stands.not_blank h.lexed
        rw [hmask] at this
        cases this
    have hlexed := h.toLexedAs.textOf
    exact ⟨ts, ts, ts, ts, hnone fun l => fits_tables hwithin hrefs,
      hnone fun l => fits_inQualified hwithin hlexed h.dots, hnone fun l => fits_inQuoted hwithin hlexed,
      hnone fun l => fits_inSelected hwithin hlexed, by rw [repair_of_blank k hblank, h.text]⟩
  | false =>
    obtain ⟨a, ha⟩ := exists_step sql h.toLexedAs
      (fun l => fits_tables hwithin hrefs) (by
        rw [filterMap_tables]
        exact (tableCorrections_edit h.toLexedAs hrefs hwithin).nodup) hfit
    have hdots := ha.quotesLackDots h.dots fun n hn => (hk n hn).2.2
    obtain ⟨b, hb⟩ := exists_step sql ha.target
      (fun l (hl : l ∈ Lookup.inQualified k sql _) => fits_inQualified hwithin ha.target hdots hl) (by
        rw [Lookup.inQualified, filterMap_flatMap_qualified]
        exact (qualifiedCorrections_edit ha.target hdots hwithin).nodup) hfit
    obtain ⟨c, hc⟩ := exists_step sql hb.target
      (fun l (hl : l ∈ Lookup.inQuoted k sql _) => fits_inQuoted hwithin hb.target hl) (by
        rw [Lookup.inQuoted, filterMap_quoted]
        exact (quotedCorrections_edit hb.target (hwithin.candidateColumns _)).nodup) hfit
    obtain ⟨us, hus⟩ := exists_step sql hc.target
      (fun l (hl : l ∈ Lookup.inSelected k sql _) => fits_inSelected hwithin hc.target hl) (by
        rw [Lookup.inSelected, filterMap_selected]
        exact (selectCorrections_edit hc.target (hwithin.candidateColumns _)).nodup) hfit
    refine ⟨a, b, c, us, ha, hb, hc, hus, ?_⟩
    rw [hus.output, hc.output, hb.output, ha.output, h.text, repair_of_not_blank k hblank]

end QueryGate
