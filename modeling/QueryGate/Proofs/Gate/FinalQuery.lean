import QueryGate.Gate.Existence
import QueryGate.Proofs.Repair.Renames
import QueryGate.Proofs.Schema.Registry
import QueryGate.Proofs.Text.Ascii
import QueryGate.Proofs.Text.Numeral

/-!
# The final query

The query that runs is the query as written but for its names: the third tier renames, first the
tables that it finds by a suffix and their qualifiers, then what repair replaces
(`checkExistence_renamed`).
-/

namespace QueryGate

variable {names : Text → Prop}

/-! ## Tokens in ASCII -/

theorem Ascii.inQuotes {name : Text} (h : Ascii name) : Ascii (inQuotes name) := by
  have hquote : Ascii ['"'] := by decide
  exact hquote.append (h.append hquote)

theorem Renamed.ascii {ts us : List Token} (h : Renamed names ts us)
    (hnames : ∀ n, names n → Ascii n) (hts : Ascii (maskOf ts)) : Ascii (maskOf us) := by
  induction h with
  | nil => exact hts
  | cons htu _ ih =>
    rw [maskOf_cons] at hts ⊢
    refine Ascii.append ?_ (ih (Ascii.of_append hts).2)
    cases htu with
    | same => exact (Ascii.of_append hts).1
    | word _ hn => exact hnames _ hn
    | quote _ hn => exact (hnames _ hn).inQuotes
    | quoted hn => exact (hnames _ hn).inQuotes

/-! ## Qualifiers -/

namespace Existence

theorem sameBeginning?_eq_some {name t rest : Text} (hname : Ascii name) (h : Ascii t)
    (hread : sameBeginning? name t = some rest) :
    ∃ x, t = x ++ rest ∧ x.map Char.toLower = name.map Char.toLower := by
  induction name generalizing t with
  | nil => exact ⟨[], Option.some.inj hread, rfl⟩
  | cons n name ih =>
    cases t with
    | nil => cases hread
    | cons c t =>
      rw [sameBeginning?] at hread
      split at hread
      · rename_i hsame
        obtain ⟨x, rfl, hx⟩ := ih (fun d hd => hname d (List.mem_cons_of_mem n hd))
          (fun d hd => h d (List.mem_cons_of_mem c hd)) hread
        have := toLower_of_sameLetter (hname n List.mem_cons_self) (h c List.mem_cons_self) hsame
        exact ⟨c :: x, rfl, by simp [hx, this]⟩
      · cases hread

theorem qualifier_eq_some {name before t rest : Text} {quoted : Bool}
    (h : qualifier name before t = some (quoted, rest)) :
    before.head?.any (fun c => isNamePart c || c == '.' || c == '"') = false ∧
      (skipBlanks rest).head? = some '.' ∧
      sameBeginning? (if quoted then inQuotes name else name) t = some rest := by
  unfold qualifier at h
  simp only at h
  split at h
  · cases h
  rename_i hbefore
  refine ⟨Bool.eq_false_iff.2 hbefore, ?_⟩
  rw [Option.orElse_eq_orElse, Option.orElse_eq_or, Option.or_eq_some_iff] at h
  rcases h with h | ⟨-, h⟩
  all_goals
    obtain ⟨r, hr, h⟩ := Option.bind_eq_some_iff.1 h
    split at h
    · rename_i hdot
      obtain ⟨rfl, rfl⟩ := Prod.mk.inj (Option.some.inj h)
      exact ⟨eq_of_beq hdot, hr⟩
    · cases h

/-- Behind a qualifier comes a blank or a dot. -/
theorem head?_any_isNamePart_of_dot {rest : Text} (h : (skipBlanks rest).head? = some '.') :
    rest.head?.any isNamePart = false := by
  cases rest with
  | nil => rfl
  | cons c rest =>
    by_cases hc : isBlank c = true
    · exact isNamePart_eq_false_of_isBlank hc
    · have hskip : skipBlanks (c :: rest) = c :: rest := List.dropWhile_cons_of_neg hc
      rw [hskip] at h
      obtain rfl : c = '.' := Option.some.inj h
      exact (by decide : isNamePart '.' = false)

theorem isWord_of_map_toLower {x name : Text} (hx : Ascii x) (hname : IsWord name)
    (hascii : Ascii name) (h : x.map Char.toLower = name.map Char.toLower) : IsWord x := by
  constructor
  · rintro rfl
    exact hname.1 (List.map_eq_nil_iff.1 h.symm)
  · intro c hc
    have hmem : c.toLower ∈ name.map Char.toLower := h ▸ List.mem_map_of_mem hc
    obtain ⟨n, hn, heq⟩ := List.mem_map.1 hmem
    rw [← isWordChar_toLower (hx c hc), ← heq, isWordChar_toLower (hascii n hn)]
    exact hname.2 n hn

theorem eq_quote_of_toLower {c : Char} (hc : c.toNat < 128) (h : c.toLower = '"') : c = '"' := by
  have := @forall_ascii (fun c => c.toLower != '"' || c == '"') (by decide) c hc
  simpa [h] using this

theorem sameBeginning?_inQuotes {name t rest : Text} (hname : Ascii name) (h : Ascii t)
    (hread : sameBeginning? (inQuotes name) t = some rest) :
    ∃ x, t = inQuotes x ++ rest ∧ x.map Char.toLower = name.map Char.toLower := by
  obtain ⟨z, rfl, heq⟩ := sameBeginning?_eq_some hname.inQuotes h hread
  have hz : z.map Char.toLower = '"' :: (name.map Char.toLower ++ ['"']) := by
    rw [heq, inQuotes]
    simp
  obtain ⟨c, z, rfl, hc, hz⟩ := List.map_eq_cons_iff.1 hz
  obtain ⟨x, y, rfl, hx, hy⟩ := List.map_eq_append_iff.1 hz
  obtain ⟨d, e, rfl, hd, he⟩ := List.map_eq_cons_iff.1 hy
  obtain rfl := List.map_eq_nil_iff.1 he
  obtain rfl := eq_quote_of_toLower (h c (by simp)) hc
  obtain rfl := eq_quote_of_toLower (h d (by simp)) hd
  exact ⟨x, rfl, hx⟩

/-- Where a qualifier is read, a token is in the letters of the name. -/
theorem exists_token_of_sameBeginning? {us : List Token} (h : Lexed us) (hascii : Ascii (maskOf us))
    {name rest : Text} (hname : IsWord name) (hnameAscii : Ascii name) {quoted : Bool}
    (hdot : (skipBlanks rest).head? = some '.')
    (hsame : sameBeginning? (if quoted then inQuotes name else name) (maskOf us) = some rest) :
    ∃ w vs, us = Identifier.token ⟨w, quoted⟩ :: vs ∧ rest = maskOf vs ∧ lower w = lower name := by
  have hlower {x : Text} (hx : Ascii x) (heq : x.map Char.toLower = name.map Char.toLower) :
      lower x = lower name := by
    rw [hx.lower_eq, hnameAscii.lower_eq, heq]
  cases quoted with
  | false =>
    obtain ⟨x, hx, heq⟩ := sameBeginning?_eq_some hnameAscii hascii hsame
    rw [hx] at hascii
    have hxAscii := (Ascii.of_append hascii).1
    obtain ⟨vs, hvs, hrest⟩ := h.exists_word (isWord_of_map_toLower hxAscii hname hnameAscii heq)
      (head?_any_isWordChar (head?_any_isNamePart_of_dot hdot)) hx
    exact ⟨x, vs, hvs, hrest, hlower hxAscii heq⟩
  | true =>
    obtain ⟨x, hx, heq⟩ := sameBeginning?_inQuotes hnameAscii hascii hsame
    have hxAscii : Ascii x := fun c hc => hascii c (by rw [hx]; simp [inQuotes, hc])
    have hword := isWord_of_map_toLower hxAscii hname hnameAscii heq
    have hread := Identifier.read?_inQuotes isFoldedNameStart hword.1
      (fun hc => isWordChar_ne_quote (hword.2 _ hc) rfl) rest
    rw [← hx] at hread
    obtain ⟨vs, hvs, hrest⟩ := h.exists_name (fun _ => isWordChar_of_isFoldedNameStart) hread
    exact ⟨x, vs, hvs, hrest, hlower hxAscii heq⟩

/-- A name that is read as a qualifier is a token, in the letters of the name. -/
theorem hit_qualifier {ts : List Token} (h : Lexed ts) (hq : QuotesHoldWords ts)
    (hascii : Ascii (maskOf ts)) {name : Text} (hname : IsWord name) (hnameAscii : Ascii name)
    {k : Hit Bool} (hk : k ∈ hits (qualifier name) (maskOf ts)) :
    ∃ w, StandsIn ⟨w, k.value⟩ k.start k.stop 0 ts ∧ lower w = lower name := by
  obtain ⟨a, b, rest, hab, hread, hstart, hstop, -⟩ := span_of_mem_hitsFrom hk
  rw [List.append_nil] at hread
  obtain ⟨hbefore, hdot, hsame⟩ := qualifier_eq_some hread
  obtain ⟨p, us, rfl, rfl, rfl⟩ := h.exists_cut hq hab (isInName_getLast?_eq_false hbefore)
  rw [maskOf_append] at hascii
  obtain ⟨w, vs, rfl, rfl, hlower⟩ := exists_token_of_sameBeginning? (Lexed.of_append h).2
    (Ascii.of_append hascii).2 hname hnameAscii hdot hsame
  refine ⟨w, ⟨p, vs, rfl, by rw [hstart]; rfl, ?_⟩, hlower⟩
  rw [hstop, maskOf_cons, List.length_append]
  omega

/-! ## Naming -/

theorem mem_of_resolve_bySuffix {tables : List Table} {name : Text} {t : Table}
    (h : resolve tables name = .bySuffix t) : t ∈ tables := by
  unfold resolve at h
  split at h
  · cases h
  split at h
  · rename_i u hu
    obtain rfl : u = t := by simpa using h
    exact List.mem_of_find?_eq_some hu
  · cases h

theorem mem_of_resolve_named {tables : List Table} {name : Text} {t : Table}
    (h : resolve tables name = .named t) : t ∈ tables := by
  unfold resolve at h
  split at h
  · rename_i u hu
    obtain rfl : u = t := by simpa using h
    exact List.mem_reverse.1 (List.mem_of_find?_eq_some hu)
  split at h <;> cases h

end Existence

/-- The name of a table or of a column. -/
def InSchema (tables : List Table) (n : Text) : Prop :=
  ∃ t ∈ tables, n = t.name ∨ n ∈ t.columnNames

/-- Whether a query reads as names, other words and other characters of ASCII, none of the names
that are quoted a keyword. -/
structure PlainTokens (ts : List Token) : Prop where
  ascii : Ascii (maskOf ts)
  quotedNames : ∀ w, Token.quoted w ∈ ts → isKeyword w = false

theorem PlainTokens.of_standsIn {ts : List Token} {i : Identifier} {start stop n : Nat}
    (hplain : PlainTokens ts) (h : Lexed ts) (hq : QuotesHoldWords ts)
    (hi : StandsIn i start stop n ts) :
    IsWord i.name ∧ Ascii i.name ∧ (i.quoted = true → isKeyword i.name = false) := by
  obtain ⟨p, q, rfl, -⟩ := hi
  have hascii : Ascii i.token.mask := by
    have := hplain.ascii
    rw [maskOf_append, maskOf_cons] at this
    exact (Ascii.of_append (Ascii.of_append this).2).1
  obtain ⟨w, quoted⟩ := i
  cases quoted with
  | false => exact ⟨h.fit (.word w) (by simp [Identifier.token]), hascii, nofun⟩
  | true =>
    have hmem : Token.quoted w ∈ p ++ Identifier.token ⟨w, true⟩ :: q := by simp [Identifier.token]
    refine ⟨hq w hmem, fun c hc => hascii c ?_, fun _ => hplain.quotedNames w hmem⟩
    exact List.mem_cons_of_mem _ (List.mem_append_left _ hc)

namespace Existence

/-- The edits of a reference that is resolved by a suffix: its own, and those of the qualifiers in
its name. -/
theorem edits_of_suffixRef {tables : List Table} {ts : List Token} (h : Lexed ts)
    (hq : QuotesHoldWords ts) (hplain : PlainTokens ts) {r : TableRef} (hr : RefIn r ts) {t : Table}
    (ht : t ∈ tables) :
    ∀ e ∈ ⟨r.start, r.stop, renderName t.name r.quoted⟩ :: qualifierEdits (maskOf ts) r.name t.name,
      EditsToken (fun _ => Put (InSchema tables)) ts e := by
  have hname : InSchema tables t.name := ⟨t, ht, .inl rfl⟩
  intro e he
  rcases List.mem_cons.1 he with rfl | he
  · exact hr.stands.edits (.of_identifier hr.noKeyword hname)
  · obtain ⟨k, hk, rfl⟩ := List.mem_map.1 he
    obtain ⟨hword, hascii, hquoted⟩ := hplain.of_standsIn h hq hr.stands
    obtain ⟨x, hx, hlower⟩ := hit_qualifier h hq hplain.ascii hword hascii hk
    refine hx.edits (.of_identifier (fun _ => ?_) hname)
    rw [isKeyword, hlower]
    cases hbare : r.quoted with
    | false => exact hr.noKeyword hbare
    | true => exact hquoted hbare

/-- The edits of resolved references replace tokens by the names of tables. -/
theorem edits_of_naming {tables : List Table} {sql : Text} {ts : List Token} {refs : List TableRef}
    {w : Naming} (h : TokensOf sql ts) (hplain : PlainTokens ts) (hrefs : RefsIn refs ts)
    (hw : naming tables (maskLiterals sql) refs = .ok w) :
    (∀ t ∈ w.tables, t ∈ tables) ∧
      ∀ e ∈ w.edits, EditsToken (fun _ => Put (InSchema tables)) ts e := by
  induction refs generalizing w with
  | nil =>
    obtain rfl := Except.ok.inj hw
    exact ⟨nofun, nofun⟩
  | cons r refs ih =>
    unfold naming at hw
    split at hw
    · cases hw
    all_goals
      rename_i t hresolve
      obtain ⟨v, hv, hw⟩ := bind_eq_ok_iff.1 hw
      obtain rfl := Except.ok.inj hw
      obtain ⟨htables, hedits⟩ := ih hrefs.tail hv
    · exact ⟨List.forall_mem_cons.2 ⟨mem_of_resolve_named hresolve, htables⟩, hedits⟩
    · have ht := mem_of_resolve_bySuffix hresolve
      refine ⟨List.forall_mem_cons.2 ⟨ht, htables⟩, List.forall_mem_append.2 ⟨?_, hedits⟩⟩
      rw [← h.mask]
      exact edits_of_suffixRef h.lexed h.words hplain (hrefs.refIn r List.mem_cons_self) ht

/-- Some of the edits, no two of one span. -/
structure KeptOnce (edits kept : List Edit) : Prop where
  mem : ∀ e ∈ kept, e ∈ edits
  spans : kept.Pairwise fun e d => e.span ≠ d.span

theorem keptOnce_oncePerSpan (edits : List Edit) : KeptOnce edits (oncePerSpan edits) := by
  unfold oncePerSpan
  apply List.foldlRecOn (motive := KeptOnce edits)
  · exact ⟨fun _ h => (nomatch h), .nil⟩
  · rintro kept ⟨hmem, hspans⟩ e he
    split
    · exact ⟨hmem, hspans⟩
    rename_i hnew
    constructor
    · intro d hd
      rcases List.mem_append.1 hd with hd | hd
      · exact hmem d hd
      · rwa [List.mem_singleton.1 hd]
    · refine List.pairwise_append.2 ⟨hspans, List.pairwise_singleton _ _, ?_⟩
      intro d hd d' hd' heq
      obtain rfl := List.mem_singleton.1 hd'
      exact hnew (List.any_eq_true.2 ⟨d, hd, by simp [heq]⟩)

/-- Edits of tokens that are kept once for each span edit each token once. -/
theorem nodup_starts_oncePerSpan {R : Bool → Token → Token → Prop} {ts : List Token}
    {edits : List Edit} (hts : Lexed ts) (h : ∀ e ∈ edits, EditsToken R ts e) :
    ((oncePerSpan edits).map (·.start)).Nodup := by
  obtain ⟨hmem, hspans⟩ := keptOnce_oncePerSpan edits
  refine List.pairwise_map.2 (hspans.imp_of_mem fun {e d} he hd hne heq => hne ?_)
  obtain ⟨p, t, u, q, hp, -, rfl⟩ := h e (hmem e he)
  obtain ⟨p', t', u', q', hp', -, rfl⟩ := h d (hmem d hd)
  have hlen : (textOf p).length = (textOf p').length := heq
  obtain rfl : t = t' := hts.token_unique hp hp' (by rw [length_maskOf, length_maskOf, hlen])
  simp [Edit.span, hlen]

end Existence

/-! ## The names of the schema -/

theorem within_inSchema {tables used : List Table} (h : ∀ t ∈ used, t ∈ tables) :
    (KnownNames.of (tables.map (·.name)) (columnsByTable used)).Within (InSchema tables) := by
  constructor
  · intro n hn
    obtain ⟨t, ht, rfl⟩ := List.mem_map.1 hn
    exact ⟨t, ht, .inl rfl⟩
  · intro e he n hn
    obtain ⟨f, hf, rfl⟩ := List.mem_map.1 (Dictionary.mem_ofEntries e he)
    obtain ⟨t, ht, rfl⟩ := List.mem_map.1 (Dictionary.mem_ofEntries f hf)
    exact ⟨t, h t ht, .inr hn⟩

/-- What the third tier corrects it renames: the final query has the tokens of the query, but for
names that others of the schema replace. -/
theorem checkExistence_renamed {tables : List Table} {sql : Text} {ts : List Token}
    (h : TokensOf sql ts) (hplain : PlainTokens ts)
    (hschema : ∀ n, InSchema tables n → IsWord n ∧ Ascii n) :
    ∃ us, Renamed (InSchema tables) ts us ∧
      TokensOf ((checkExistence tables sql).finalSql sql) us := by
  have hwords : ∀ n, InSchema tables n → IsWord n := fun n hn => (hschema n hn).1
  have hself : ∃ us, Renamed (InSchema tables) ts us ∧ TokensOf sql us := ⟨ts, .refl ts, h⟩
  unfold checkExistence
  split
  · exact hself
  rename_i w hw
  obtain ⟨htables, hedits⟩ := Existence.edits_of_naming h hplain (tableRefs_tokens h) hw
  obtain ⟨us, hus, htus⟩ := h.renamed_of_edits hwords
    (fun e he => hedits e ((Existence.keptOnce_oncePerSpan _).mem e he))
    (Existence.nodup_starts_oncePerSpan h.lexed hedits)
  obtain ⟨vs, hvs, htvs⟩ := repair_renamed htus (within_inSchema fun t ht => htables t (mem_distinct t ht)) hwords
  simp only
  split
  · exact hself
  split
  · exact hself
  · simp only [Outcome.finalSql, Outcome.corrected?]
    split
    · exact hself
    · exact ⟨vs, hus.trans hvs, htvs⟩

end QueryGate
