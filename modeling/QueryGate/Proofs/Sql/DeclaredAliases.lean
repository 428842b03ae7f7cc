import QueryGate.Proofs.Sql.AliasPlaces
import QueryGate.Proofs.Sql.NamesBack

/-!
# Aliases that a query declares

The aliases that are read behind `AS` are the names of the tokens behind that word
(`mem_declaredAliases_iff`), if no `AS` stands behind another (`AsOnce`), which would be read as the
alias itself, and no name in quotes holds an `AS` with a blank behind it (`QuotesLackAs`). What
stands behind a closing parenthesis is read as an alias as well (`mem_closingAliases`).
-/

namespace QueryGate

variable {ts : List Token}

/-! ## Readings -/

/-- Reads `AS` and a blank. -/
def spacedAs : Reading Unit := fun before after =>
  if atWordStart before then ((keyword? "AS" after).bind spaced?).map ((), ·) else none

/-- No name in quotes holds an `AS` with a blank behind it. -/
def QuotesLackAs (ts : List Token) : Prop :=
  ∀ w, Token.quoted w ∈ ts → occurs spacedAs w = false

theorem QuotesHoldWords.lackAs (h : QuotesHoldWords ts) : QuotesLackAs ts := by
  intro w hw
  rw [occurs_eq_false_iff]
  rintro a b rfl -
  unfold spacedAs
  split
  · rw [(h _ hw).spacedWord_eq_none "AS"]
    rfl
  · rfl

theorem asAlias_eq_some_iff {before after rest : Text} {i : Identifier} :
    asAlias before after = some (i, rest) ↔
      atWordStart before = true ∧ ∃ x r t, after = x ++ r ∧ Spells "AS" x ∧ spaced? r = some t ∧
        Identifier.read? isFoldedNameStart t = some (i, rest) := by
  unfold asAlias
  split
  · rename_i hstart
    rw [Option.bind_eq_some_iff]
    constructor
    · rintro ⟨t, ht, hread⟩
      obtain ⟨r, hr, hspaced⟩ := Option.bind_eq_some_iff.1 ht
      obtain ⟨x, rfl, hx⟩ := keyword?_eq_some_iff.1 hr
      exact ⟨hstart, x, r, t, rfl, hx, hspaced, hread⟩
    · rintro ⟨-, x, r, t, rfl, hx, hspaced, hread⟩
      exact ⟨t, by rw [keyword?_append hx, Option.bind_some, hspaced], hread⟩
  · rename_i hstart
    exact iff_of_false nofun fun h => hstart h.1

/-- An alias that is read inside a quoted name shows in the name alone. -/
theorem not_asAlias_in_quotes {x y before next rest : Text} {i : Identifier}
    (hq : occurs spacedAs (x ++ y) = false) (hy : y ≠ [])
    (h : asAlias (('"' :: x).reverse ++ before) (y ++ '"' :: next) = some (i, rest)) : False := by
  obtain ⟨hstart, w, r, t, heq, hw, hspaced, -⟩ := asAlias_eq_some_iff.1 h
  obtain ⟨hstart', hsome⟩ := spacedWord_of_read_in_quotes (by decide) hstart heq hw hspaced
  have hnone := occurs_eq_false_iff.1 hq x y rfl hy
  rw [spacedAs, if_pos hstart', Option.map_eq_none_iff] at hnone
  rw [hnone] at hsome
  cases hsome

/-- An alias that is read behind `AS` is the name of a token behind that word. -/
theorem exists_tokens_of_asAlias (h : Lexed ts) (hq : QuotesLackAs ts) {a b rest : Text}
    {i : Identifier} (hab : maskOf ts = a ++ b) (hread : asAlias a.reverse b = some (i, rest)) :
    ∃ p w g q, ts = p ++ .word w :: (g ++ i.token :: q) ∧ a = maskOf p ∧ rest = maskOf q ∧
      Spells "AS" w ∧ g ≠ [] ∧ allBlank (maskOf g) = true := by
  have hread' := hread
  obtain ⟨hstart, w, r, t, rfl, hw, hspaced, hname⟩ := asAlias_eq_some_iff.1 hread
  have hword : IsWord w := isWord_of_spells (by decide) (by decide) hw
  obtain ⟨p, us, rfl, rfl, hus⟩ : ∃ p us, ts = p ++ us ∧ a = maskOf p ∧ w ++ r = maskOf us := by
    refine h.exists_cut_of_atWordStart hab hstart (fun hquote => ?_) fun u x y s hmem hy ha hb => ?_
    · rw [List.head?_append_of_ne_nil _ hword.1, List.head?_eq_some_head hword.1] at hquote
      exact isWordChar_ne_quote (hword.2 _ (List.head_mem hword.1)) (Option.some.inj hquote)
    · rw [ha, hb, List.reverse_append] at hread'
      exact not_asAlias_in_quotes (hq _ hmem) hy hread'
  have hlexed := (Lexed.of_append h).2
  obtain ⟨us, rfl, rfl⟩ :=
    hlexed.exists_word hword (head?_any_isWordChar_of_spaced? hspaced) hus.symm
  obtain ⟨g, us, rfl, hg, rfl⟩ := hlexed.tail.exists_spaced hspaced
  obtain ⟨q, hq', rfl⟩ := (Lexed.of_append hlexed.tail).2.exists_name
    (fun _ => isWordChar_of_isFoldedNameStart) hname
  obtain rfl : us = i.token :: q := hq'
  refine ⟨p, w, g, q, rfl, rfl, rfl, hw, ?_, hg⟩
  rintro rfl
  obtain ⟨g, hne, -, -, hsplit⟩ := spaced?_eq_some_iff.1 hspaced
  exact hne (List.self_eq_append_left.1 hsplit)

/-- Blanks are read up to the name behind them. -/
theorem Lexed.spaced?_of_blanks {g q : List Token} {i : Identifier}
    (h : Lexed (g ++ i.token :: q)) (hne : g ≠ []) (hg : allBlank (maskOf g) = true) :
    spaced? (maskOf (g ++ i.token :: q)) = some (maskOf (i.token :: q)) := by
  have hfit := (Lexed.of_append h).2.fit _ List.mem_cons_self
  refine spaced?_eq_some_iff.2 ⟨maskOf g, fun hnil => ?_, hg, ?_, maskOf_append g _⟩
  · exact hne ((Lexed.of_append h).1.eq_nil (by rw [hnil]; rfl))
  · rw [maskOf_cons, head?_append_any (Token.mask_ne_nil hfit)]
    exact head?_mask_any_isBlank hfit

theorem asAlias_of_tokens {p g q : List Token} {w : Text} {i : Identifier}
    (h : Lexed (p ++ .word w :: (g ++ i.token :: q))) (hw : Spells "AS" w) (hne : g ≠ [])
    (hg : allBlank (maskOf g) = true)
    (hstart : i.quoted = false → i.name.head?.any isFoldedNameStart = true) :
    asAlias (maskOf p).reverse (maskOf (.word w :: (g ++ i.token :: q))) = some (i, maskOf q) := by
  have hus := (Lexed.of_append h).2
  exact asAlias_eq_some_iff.2 ⟨atWordStart_reverse_iff.2 h.getLast?_maskOf_any, w,
    maskOf (g ++ i.token :: q), maskOf (i.token :: q), rfl, hw, hus.tail.spaced?_of_blanks hne hg,
    (Lexed.of_append hus.tail).2.read?_token hstart⟩

/-! ## Places behind `AS` -/

/-- A token names an alias behind `AS`. -/
structure DeclaredAt (ts : List Token) (n : Nat) (i : Identifier) : Prop where
  token : ts[n]? = some i.token
  lead : LeadBy ["AS"] (ts.take n)
  start : i.quoted = false → i.name.head?.any isFoldedNameStart = true

/-- Behind `AS` there is no other `AS`. -/
def AsOnce (ts : List Token) : Prop :=
  ∀ n w, ts[n]? = some (.word w) → LeadBy ["AS"] (ts.take n) → ¬ Spells "AS" w

/-- No alias behind an earlier `AS` goes on over an `AS`. -/
theorem length_le_of_asAlias {p us : List Token} {w : Text} (h : Lexed (p ++ .word w :: us))
    (hq : QuotesLackAs (p ++ .word w :: us)) (honce : AsOnce (p ++ .word w :: us))
    (hw : Spells "AS" w) {x y rest : Text} {i : Identifier} (hxy : maskOf p = x ++ y) (hy : y ≠ [])
    (hread : asAlias x.reverse (y ++ maskOf (.word w :: us)) = some (i, rest)) :
    (maskOf (.word w :: us)).length ≤ rest.length := by
  obtain ⟨p', w', g, q, hsplit, rfl, rfl, hw', hne, hg⟩ := exists_tokens_of_asAlias h hq
    (by rw [maskOf_append, hxy, List.append_assoc]) hread
  have hlt : (maskOf p').length < (maskOf p).length := by
    rw [hxy, List.length_append]
    have := List.length_pos_iff.2 hy
    omega
  obtain ⟨a, rfl, hbehind⟩ := exists_append_of_lt hsplit.symm hlt
  have hother : a ≠ g := by
    rintro rfl
    refine honce (p' ++ .word w' :: a).length w (getElem?_append_cons _ _ _) ?_ hw
    rw [List.take_left]
    exact ⟨p', w', a, rfl, hne, hg, "AS", List.mem_singleton_self _, hw'⟩
  have hblank : Lexed g := (Lexed.of_append (Lexed.of_append (hsplit ▸ h)).2.tail).1
  obtain ⟨z, rfl, hz⟩ | ⟨z, rfl, hz⟩ := List.append_eq_append_iff.1 hbehind
  · cases z with
    | nil => exact absurd (List.append_nil g) hother
    | cons t z =>
      obtain rfl : q = z ++ .word w :: us := (List.cons.inj hz).2
      rw [maskOf_append, List.length_append]
      omega
  · cases z with
    | nil => exact absurd (List.append_nil a).symm hother
    | cons t z =>
      obtain ⟨rfl, -⟩ := List.cons.inj hz
      exact absurd (by simp) (hblank.not_mem_word_of_blank hg w)

/-- The aliases that a query declares with `AS` are the names behind that word. -/
theorem mem_declaredAliases_iff (h : Lexed ts) (hq : QuotesLackAs ts) (honce : AsOnce ts)
    {v : Text} : v ∈ declaredAliases (maskOf ts) ↔ ∃ n i, DeclaredAt ts n i ∧ i.name = v := by
  rw [declaredAliases, List.mem_map]
  constructor
  · rintro ⟨k, hk, rfl⟩
    obtain ⟨a, b, rest, hab, -, hread⟩ := mem_hitsFrom hk
    rw [List.append_nil] at hread
    obtain ⟨p, w, g, q, rfl, -, -, hw, hne, hg⟩ := exists_tokens_of_asAlias h hq hab hread
    obtain ⟨-, _, _, _, -, -, -, hname⟩ := asAlias_eq_some_iff.1 hread
    have hsplit : p ++ .word w :: (g ++ k.value.token :: q) =
        (p ++ .word w :: g) ++ k.value.token :: q := by simp
    refine ⟨(p ++ .word w :: g).length, k.value, ⟨?_, ?_, Identifier.head?_any_of_read? hname⟩, rfl⟩
    · rw [hsplit]
      exact getElem?_append_cons _ _ _
    · rw [hsplit, List.take_left]
      exact ⟨p, w, g, rfl, hne, hg, "AS", List.mem_singleton_self _, hw⟩
  · rintro ⟨n, i, ⟨hn, ⟨p, w, g, hlead, hne, hg, word, hword, hw⟩, hstart⟩, rfl⟩
    obtain rfl := List.mem_singleton.1 hword
    obtain ⟨p', q, hts, rfl⟩ := exists_split_of_getElem? hn
    rw [hts, List.take_left] at hlead
    subst hlead
    have hsplit : ts = p ++ .word w :: (g ++ i.token :: q) := by simp [hts]
    rw [hsplit] at h
    have hq' := hsplit ▸ hq
    have honce' := hsplit ▸ honce
    have hread := asAlias_of_tokens h hw hne hg hstart
    have hnil : maskOf (.word w :: (g ++ i.token :: q)) ≠ [] := fun hnil => by
      have := (Lexed.of_append h).2.eq_nil (by rw [hnil]; rfl)
      cases this
    obtain ⟨k, hk, hv⟩ := exists_mem_hits_of_free hnil hread fun x y v' rest' hxy hy hread' =>
      length_le_of_asAlias h hq' honce' hw hxy hy hread'
    rw [hsplit, maskOf_append]
    exact ⟨k, hk, by rw [hv]⟩

/-! ## Aliases behind parentheses -/

/-- No name in quotes holds a closing parenthesis. -/
def QuotesLackClosing (ts : List Token) : Prop := ∀ w, Token.quoted w ∈ ts → ')' ∉ w

/-- Quotes come in pairs. -/
theorem Lexed.count_quotes (h : Lexed ts) : (maskOf ts).count '"' % 2 = 0 := by
  induction ts with
  | nil => rfl
  | cons t ts ih =>
    have hrest := ih h.tail
    have hfit := h.fit t List.mem_cons_self
    have htoken : t.mask.count '"' % 2 = 0 := by
      cases t with
      | word w =>
        rw [Token.mask, List.count_eq_zero.2 fun hmem => isWordChar_ne_quote (hfit.2 _ hmem) rfl]
      | quoted w =>
        rw [Token.mask, inQuotes, List.count_append, List.count_cons_self,
          List.count_eq_zero.2 fun hmem => (hfit.2 _ hmem).1 rfl]
        rfl
      | other c m =>
        rw [Token.mask, List.count_eq_zero.2 fun hmem => hfit.2 (List.mem_singleton.1 hmem).symm]
    rw [maskOf_cons, List.count_append]
    omega

/-- A closing parenthesis is a token if none is in quotes. -/
theorem Lexed.exists_cut_of_closing (h : Lexed ts) (hq : QuotesLackClosing ts) {a b : Text}
    (hab : maskOf ts = a ++ ')' :: b) : ∃ p q, ts = p ++ q ∧ a = maskOf p ∧ ')' :: b = maskOf q := by
  obtain ⟨p, q, hcut | ⟨t, x, y, rfl, rfl, hb, ht, hx, hy⟩⟩ := Lexed.exists_split hab
  · exact ⟨p, q, hcut⟩
  exfalso
  obtain ⟨c, y, rfl⟩ := List.exists_cons_of_ne_nil hy
  obtain rfl := (List.cons.inj hb).1
  have hmem : ')' ∈ t.mask := by simp [ht]
  have hfit := h.fit t (by simp)
  cases t with
  | word w => exact absurd (hfit.2 _ hmem) (by decide)
  | quoted w => exact hq w (by simp) (by simpa [Token.mask, inQuotes] using hmem)
  | other c m => exact Token.not_cut_of_other ht hx hy

/-- A name behind a parenthesis and blanks is an alias. -/
theorem aliasAfter?_of_tokens {g q : List Token} {i : Identifier} (h : Lexed (g ++ i.token :: q))
    (hne : g ≠ []) (hg : allBlank (maskOf g) = true)
    (hbare : i.quoted = false → i.name.head?.any isFoldedNameStart = true ∧ ¬ Spells "AS" i.name) :
    aliasAfter? (maskOf (g ++ i.token :: q)) = some (i, maskOf q) := by
  have hname := (Lexed.of_append h).2
  have hno : (keyword? "AS" (maskOf (i.token :: q))).bind spaced? = none := by
    have hfit := hname.fit _ List.mem_cons_self
    obtain ⟨w, quoted⟩ := i
    cases quoted with
    | true => exact keyword?_bind_spaced?_inQuotes (by decide) w (maskOf q)
    | false =>
      exact keyword?_bind_spaced?_of_word (by decide) hfit.2 (hbare rfl).2
        (head?_any_isWordChar hname.head?_maskOf_any)
  rw [aliasAfter?, aliasReadings, h.spaced?_of_blanks hne hg]
  simp only [hno, Option.bind_none, Option.toList_none, List.nil_append,
    hname.read?_token fun hquoted => (hbare hquoted).1, Option.toList_some, List.head?_cons]

/-- Some tokens end in a closing parenthesis, with blanks behind it. -/
def ClosedBefore (ts : List Token) : Prop :=
  ∃ p c g, ts = p ++ .other c ')' :: g ∧ g ≠ [] ∧ allBlank (maskOf g) = true

/-- The name behind a closing parenthesis is an alias that the query declares. -/
theorem mem_closingAliases (h : Lexed ts) (hq : QuotesLackClosing ts) {n : Nat} {i : Identifier}
    (hn : ts[n]? = some i.token) (hclosed : ClosedBefore (ts.take n))
    (hbare : i.quoted = false → i.name.head?.any isFoldedNameStart = true ∧ ¬ Spells "AS" i.name) :
    i.name ∈ closingAliases (maskOf ts) := by
  obtain ⟨p, c, g, hsplit, hne, hg⟩ := hclosed
  obtain ⟨p', q, hts, rfl⟩ := exists_split_of_getElem? hn
  rw [hts, List.take_left] at hsplit
  obtain rfl : ts = p ++ .other c ')' :: (g ++ i.token :: q) := by simp [hts, hsplit]
  have hread : closingAlias (maskOf p).reverse (')' :: maskOf (g ++ i.token :: q)) =
      some (i, maskOf q) := aliasAfter?_of_tokens (Lexed.of_append h).2.tail hne hg hbare
  obtain ⟨k, hk, hv⟩ :=
    exists_mem_hits_of_free (List.cons_ne_nil _ _) hread fun x y v' rest' hxy hy hread' => by
      cases y with
      | nil => exact absurd rfl hy
      | cons d y =>
        unfold closingAlias at hread'
        split at hread'
        · rename_i t ht
          obtain ⟨rfl, rfl⟩ := List.cons.inj ht
          -- The quotes between the two parentheses come in pairs.
          obtain ⟨p', q', rfl, rfl, hy'⟩ := (Lexed.of_append h).1.exists_cut_of_closing
            (fun w hw => hq w (List.mem_append_left _ hw)) hxy
          have hcount := (Lexed.of_append (Lexed.of_append h).1).2.count_quotes
          rw [← hy', List.count_cons_of_ne (by decide)] at hcount
          obtain ⟨u, rfl, -⟩ := ReachesTo.aliasAfter? (s := ')' :: maskOf (g ++ i.token :: q)) rfl
            ⟨y, rfl, hcount⟩ hread'
          rw [List.length_append]
          omega
        · cases hread'
  rw [closingAliases, List.mem_map, maskOf_append]
  exact ⟨k, hk, by rw [hv]⟩

end QueryGate
