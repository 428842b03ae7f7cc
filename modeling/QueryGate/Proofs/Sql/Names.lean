import QueryGate.Proofs.Text.Parts
import QueryGate.Sql.TableRef

/-!
# Names that are read

How far the readers of names, aliases and lists of tables get in a text. What is left is never
longer than what was read. A quoted name that is opened behind an even number of double quotes in a
part of a text is closed in the part, if the part holds an even number of them in all
(`Identifier.read?_part`), so a closing parenthesis outside quoted names is a barrier: no name,
alias or list of tables is read across it (`Barrier`).
-/

namespace QueryGate

/-! ## Names in a part of a text -/

theorem dot?_eq_some {t rest : Text} (h : dot? t = some rest) :
    ∃ r, skipBlanks t = '.' :: r ∧ rest = skipBlanks r := by
  rw [dot?] at h
  split at h
  · rename_i r hr
    exact ⟨r, hr, (Option.some.inj h).symm⟩
  · cases h

theorem comma?_eq_some {t rest : Text} (h : comma? t = some rest) :
    ∃ r, skipBlanks t = ',' :: r ∧ rest = skipBlanks r := by
  rw [comma?] at h
  split at h
  · rename_i r hr
    exact ⟨r, hr, (Option.some.inj h).symm⟩
  · cases h

/-- No bare name runs on from the part `u` of a text into what follows. -/
def Cut (u s : Text) : Prop :=
  s.head?.any isNamePart = false ∨ u ≠ [] ∧ u.getLast?.any isNamePart = false

theorem Cut.of_suffix {u v s : Text} (h : Cut u s) (hv : v <:+ u) (hne : v ≠ []) : Cut v s := by
  refine h.imp_right fun ⟨_, hlast⟩ => ⟨hne, ?_⟩
  obtain ⟨x, rfl⟩ := hv
  rwa [List.getLast?_append, List.getLast?_eq_some_getLast hne, Option.some_or,
    ← List.getLast?_eq_some_getLast hne] at hlast

theorem Cut.dropWhile {u s : Text} (h : Cut u s) :
    (u ++ s).dropWhile isNamePart = u.dropWhile isNamePart ++ s := by
  rw [List.dropWhile_append]
  split
  · rename_i hnil
    have hall : u.dropWhile isNamePart = [] := List.isEmpty_iff.1 hnil
    rw [hall, List.nil_append]
    have hs : s.head?.any isNamePart = false := by
      refine h.resolve_right fun ⟨hne, hlast⟩ => ?_
      have := List.dropWhile_eq_nil_iff.1 hall _ (List.getLast_mem hne)
      rw [List.getLast?_eq_some_getLast hne, Option.any_some, this] at hlast
      cases hlast
    exact dropWhile_append_of_all (u := []) (fun _ h => nomatch h) hs
  · rfl

theorem count_dropWhile_isNamePart (u : Text) :
    (u.dropWhile isNamePart).count '"' = u.count '"' := by
  induction u with
  | nil => rfl
  | cons c u ih =>
    rw [List.dropWhile_cons]
    split
    · rename_i hc
      have : c ≠ '"' := by
        rintro rfl
        exact absurd hc (by decide)
      rw [ih, List.count_cons_of_ne this]
    · rfl

/-- A name that begins in a part with an even number of double quotes ends in it. -/
theorem Identifier.read?_part {isStart : Char → Bool} {u s rest : Text} {i : Identifier}
    (hstart : ∀ c, isStart c = true → isNamePart c = true)
    (h : Identifier.read? isStart (u ++ s) = some (i, rest)) (hne : u ≠ [])
    (heven : u.count '"' % 2 = 0) (hcut : Cut u s) :
    ∃ v, rest = v ++ s ∧ v <:+ u ∧ v.count '"' % 2 = 0 := by
  cases u with
  | nil => exact absurd rfl hne
  | cons c u =>
    rw [List.cons_append, Identifier.read?] at h
    split at h
    · rename_i hc
      obtain rfl := eq_of_beq hc
      rw [List.count_cons_self] at heven
      have hmem : '"' ∈ u := List.count_pos_iff.1 (by omega)
      obtain ⟨q, v, rfl, hq⟩ := List.eq_append_cons_of_mem hmem
      have hall : ∀ c ∈ q, (c != '"') = true := bne_of_not_mem hq
      rw [List.append_assoc, takeWhile_append_of_all hall rfl,
        dropWhile_append_of_all hall rfl] at h
      simp only [List.cons_append] at h
      split at h
      · cases h
      · obtain ⟨-, rfl⟩ := Prod.mk.inj (Option.some.inj h)
        refine ⟨v, rfl, ⟨'"' :: (q ++ ['"']), by simp⟩, ?_⟩
        rw [List.count_append, List.count_cons_self, List.count_eq_zero.2 hq] at heven
        omega
    · split at h
      · rename_i hc hs
        obtain ⟨-, rfl⟩ := Prod.mk.inj (Option.some.inj h)
        have hcut' : Cut u s := by
          cases u with
          | nil =>
            refine .inl (hcut.resolve_right fun ⟨_, hlast⟩ => ?_)
            rw [List.getLast?_singleton, Option.any_some, hstart c hs] at hlast
            cases hlast
          | cons d u => exact hcut.of_suffix (List.suffix_cons _ _) (List.cons_ne_nil _ _)
        refine ⟨u.dropWhile isNamePart, hcut'.dropWhile, ?_, ?_⟩
        · exact (List.dropWhile_suffix _).trans (List.suffix_cons _ _)
        · have hcq : c ≠ '"' := by simpa using hc
          rw [count_dropWhile_isNamePart]
          rwa [List.count_cons_of_ne hcq] at heven
      · cases h

/-- A name in quotes is read back. -/
theorem Identifier.read?_inQuotes (isStart : Char → Bool) {w : Text} (hne : w ≠ [])
    (hw : '"' ∉ w) (next : Text) :
    Identifier.read? isStart (inQuotes w ++ next) = some (⟨w, true⟩, next) := by
  have hchars : ∀ c ∈ w, (c != '"') = true := bne_of_not_mem hw
  have hnext : ('"' :: next).head?.any (· != '"') = false := by simp
  have hsplit : inQuotes w ++ next = '"' :: (w ++ '"' :: next) := by simp [inQuotes]
  rw [hsplit, Identifier.read?]
  simp only [beq_self_eq_true, ite_true, takeWhile_append_of_all hchars hnext,
    dropWhile_append_of_all hchars hnext, List.isEmpty_eq_false_iff.2 hne, Bool.false_eq_true,
    ite_false]

/-- A dot that is read behind a part that does not end in one stands in the part. -/
theorem dot?_part {v s r : Text} (h : dot? (v ++ s) = some r)
    (hdot : (skipBlanks s).head? ≠ some '.')
    (hlast : ∀ x y, v = x ++ '.' :: y → allBlank y = false) :
    ∃ g y, allBlank g = true ∧ v = g ++ '.' :: y ∧ allBlank y = false ∧ r = skipBlanks y ++ s := by
  obtain ⟨w, hw, rfl⟩ := dot?_eq_some h
  cases hblank : allBlank v with
  | true =>
    rw [skipBlanks, List.dropWhile_append_of_pos (List.all_eq_true.1 hblank)] at hw
    exact absurd (congrArg List.head? hw) hdot
  | false =>
    rw [skipBlanks_append_of_not_allBlank hblank] at hw
    obtain ⟨g, hg, hv⟩ := exists_blanks_append_skipBlanks v
    cases hskip : skipBlanks v with
    | nil =>
      rw [skipBlanks_eq_nil_iff.1 hskip] at hblank
      cases hblank
    | cons c y =>
      rw [hskip, List.cons_append] at hw
      obtain ⟨rfl, rfl⟩ := List.cons.inj hw
      rw [hskip] at hv
      have hy := hlast g y hv
      exact ⟨g, y, hg, hv, hy, skipBlanks_append_of_not_allBlank hy s⟩

/-- A qualified name that begins in such a part ends in it, if the part does not end in a dot and
none follows. -/
theorem QualifiedName.read?_part {isStart : Char → Bool} {u s : Text} {n : QualifiedName}
    (hstart : ∀ c, isStart c = true → isNamePart c = true)
    (h : QualifiedName.read? isStart (u ++ s) = some n) (hne : u ≠ [])
    (heven : u.count '"' % 2 = 0) (hcut : Cut u s) (hdot : (skipBlanks s).head? ≠ some '.')
    (hlast : (trim u).getLast? ≠ some '.') : ∃ v, n.rest = v ++ s := by
  obtain ⟨⟨first, r⟩, hfirst, h⟩ := Option.bind_eq_some_iff.1 h
  obtain ⟨v, rfl, ⟨x, rfl⟩, hveven⟩ := Identifier.read?_part hstart hfirst hne heven hcut
  simp only at h
  split at h
  · obtain rfl := Option.some.inj h
    exact ⟨v, rfl⟩
  rename_i r' hr'
  split at h
  · obtain rfl := Option.some.inj h
    exact ⟨v, rfl⟩
  rename_i second rest hsecond
  obtain rfl := Option.some.inj h
  have hbehind : ∀ g y, v = g ++ '.' :: y → allBlank y = false := by
    rintro g y rfl
    rw [Bool.eq_false_iff]
    intro hy
    refine hlast ((getLast?_trim_eq_some_iff (by decide)).2 ⟨x ++ g, y, ?_, hy⟩)
    rw [List.append_assoc]
  obtain ⟨g, y, hg, rfl, hy, rfl⟩ := dot?_part hr' hdot hbehind
  -- The second name begins in the part, behind the dot.
  have hne' : skipBlanks y ≠ [] := fun hnil => by
    rw [skipBlanks_eq_nil_iff.1 hnil] at hy
    cases hy
  have hsuffix : skipBlanks y <:+ x ++ (g ++ '.' :: y) :=
    (List.dropWhile_suffix _).trans ⟨x ++ g ++ ['.'], by simp⟩
  have heven' : (skipBlanks y).count '"' % 2 = 0 := by
    have hcount : g.count '"' = 0 := List.count_eq_zero.2 (not_mem_of_allBlank (by decide) hg)
    rwa [List.count_append, hcount, Nat.zero_add, List.count_cons_of_ne (by decide),
      ← count_skipBlanks (by decide)] at hveven
  obtain ⟨z, hz, -⟩ :=
    Identifier.read?_part hstart hsecond hne' heven' (hcut.of_suffix hsuffix hne')
  exact ⟨z, hz⟩

theorem isNamePart_of_isWordChar {c : Char} (h : isWordChar c = true) : isNamePart c = true := by
  rw [isNamePart, h]
  rfl

theorem isNamePart_eq_false_of_isBlank {c : Char} (h : isBlank c = true) :
    isNamePart c = false := by
  have hdollar : c ≠ '$' := by
    rintro rfl
    exact absurd h (by decide)
  simp [isNamePart, isWordChar_eq_false_of_isBlank h, hdollar]

theorem isNamePart_of_isFoldedNameStart {c : Char} (h : isFoldedNameStart c = true) :
    isNamePart c = true :=
  isNamePart_of_isWordChar (isWordChar_of_isFoldedNameStart h)

theorem isNamePart_of_isNameStart {c : Char} (h : isNameStart c = true) : isNamePart c = true :=
  isNamePart_of_isFoldedNameStart (isFoldedNameStart_of_isNameStart h)

/-! ## What is read -/

theorem Identifier.head?_any_of_read? {isStart : Char → Bool} {t rest : Text} {i : Identifier}
    (h : Identifier.read? isStart t = some (i, rest)) (hbare : i.quoted = false) :
    i.name.head?.any isStart = true := by
  cases t with
  | nil => cases h
  | cons c t =>
    rw [Identifier.read?] at h
    split at h
    · simp only at h
      split at h
      · cases h
      split at h
      · cases h
      · obtain ⟨rfl, -⟩ := Prod.mk.inj (Option.some.inj h)
        cases hbare
    · split at h
      · rename_i hc
        obtain ⟨rfl, -⟩ := Prod.mk.inj (Option.some.inj h)
        exact hc
      · cases h

/-- The last name of a qualified one begins as a name does. -/
theorem QualifiedName.head?_any_of_read? {isStart : Char → Bool} {t : Text} {n : QualifiedName}
    (h : QualifiedName.read? isStart t = some n) (hbare : n.name.quoted = false) :
    n.name.name.head?.any isStart = true := by
  unfold QualifiedName.read? at h
  obtain ⟨⟨first, r⟩, hfirst, h⟩ := Option.bind_eq_some_iff.1 h
  simp only at h
  split at h
  · cases h
    exact Identifier.head?_any_of_read? hfirst hbare
  split at h
  · cases h
    exact Identifier.head?_any_of_read? hfirst hbare
  · rename_i second rest hsecond
    cases h
    exact Identifier.head?_any_of_read? hsecond hbare

/-- The two names of a qualified one are read in turn. -/
theorem QualifiedName.reads_of_qualifier {isStart : Char → Bool} {r : Text} {n : QualifiedName}
    {i : Identifier} (h : QualifiedName.read? isStart r = some n) (hi : n.qualifier = some i) :
    ∃ r', Identifier.read? isStart r = some (i, r') ∧ dot? r' = some n.onward ∧
      Identifier.read? isStart n.onward = some (n.name, n.rest) := by
  unfold QualifiedName.read? at h
  obtain ⟨⟨first, r'⟩, hfirst, h⟩ := Option.bind_eq_some_iff.1 h
  simp only at h
  split at h
  · cases h
    cases hi
  rename_i r'' hdot
  split at h
  · cases h
    cases hi
  rename_i second rest hsecond
  cases h
  obtain rfl : first = i := Option.some.inj hi
  exact ⟨r', hfirst, hdot, hsecond⟩

/-! ## How much is read -/

theorem Identifier.length_of_read? {isStart : Char → Bool} {t rest : Text} {i : Identifier}
    (h : Identifier.read? isStart t = some (i, rest)) : rest.length < t.length := by
  cases t with
  | nil => cases h
  | cons c t =>
    rw [Identifier.read?] at h
    split at h
    · simp only at h
      split at h
      · cases h
      · rename_i d rest' hdrop
        split at h
        · cases h
        · obtain ⟨-, rfl⟩ := Prod.mk.inj (Option.some.inj h)
          have hle := (List.dropWhile_suffix (fun c => c != '"') (l := t)).length_le
          rw [hdrop] at hle
          simp only [List.length_cons] at hle ⊢
          omega
    · split at h
      · obtain ⟨-, rfl⟩ := Prod.mk.inj (Option.some.inj h)
        exact Nat.lt_succ_of_le (List.dropWhile_suffix _).length_le
      · cases h

theorem length_of_dot? {t rest : Text} (h : dot? t = some rest) : rest.length ≤ t.length := by
  obtain ⟨r, hr, rfl⟩ := dot?_eq_some h
  have hskip := length_skipBlanks_le t
  have := length_skipBlanks_le r
  rw [hr, List.length_cons] at hskip
  omega

theorem length_of_comma? {t rest : Text} (h : comma? t = some rest) : rest.length < t.length := by
  obtain ⟨r, hr, rfl⟩ := comma?_eq_some h
  have hskip := length_skipBlanks_le t
  have := length_skipBlanks_le r
  rw [hr, List.length_cons] at hskip
  omega

theorem QualifiedName.length_of_read? {isStart : Char → Bool} {t : Text} {n : QualifiedName}
    (h : QualifiedName.read? isStart t = some n) :
    n.rest.length < n.onward.length ∧ n.onward.length ≤ t.length := by
  obtain ⟨⟨first, r⟩, hfirst, h⟩ := Option.bind_eq_some_iff.1 h
  have hlt := Identifier.length_of_read? hfirst
  simp only at h
  split at h
  · obtain rfl := Option.some.inj h
    exact ⟨hlt, Nat.le_refl _⟩
  · rename_i r' hdot
    have hle := length_of_dot? hdot
    split at h
    · obtain rfl := Option.some.inj h
      exact ⟨hlt, Nat.le_refl _⟩
    · rename_i second rest hsecond
      obtain rfl := Option.some.inj h
      have := Identifier.length_of_read? hsecond
      exact ⟨this, by simp only; omega⟩

/-- What an alias is read from: a name behind blanks, perhaps behind `AS` and more blanks. -/
theorem aliasAfter?_eq_some {t rest : Text} {i : Identifier} (h : aliasAfter? t = some (i, rest)) :
    ∃ u, spaced? t = some u ∧ ∃ v, (v = u ∨ (keyword? "AS" u).bind spaced? = some v) ∧
      Identifier.read? isFoldedNameStart v = some (i, rest) := by
  have hmem : (i, rest) ∈ aliasReadings t := List.mem_of_mem_head? (by rw [← aliasAfter?, h]; rfl)
  unfold aliasReadings at hmem
  split at hmem
  · cases hmem
  · rename_i u hu
    refine ⟨u, hu, ?_⟩
    rcases List.mem_append.1 hmem with hmem | hmem
    · obtain ⟨v, hv, hread⟩ := Option.bind_eq_some_iff.1 (Option.mem_toList.1 hmem)
      exact ⟨v, .inr hv, hread⟩
    · exact ⟨u, .inl rfl, Option.mem_toList.1 hmem⟩

/-- What a reference says of the name that makes it, and what is left behind it. -/
theorem tableRef?_eq_some {size : Nat} {keyword rest : Text} {n : QualifiedName} {r : TableRef}
    (h : tableRef? size keyword n = some (r, rest)) :
    r.start = size - n.onward.length ∧
      (rest = n.rest ∨ ∃ i, aliasAfter? n.rest = some (i, rest)) := by
  unfold tableRef? at h
  split at h
  · cases h
  simp only [Option.some.injEq, Prod.mk.injEq] at h
  obtain ⟨rfl, rfl⟩ := h
  refine ⟨rfl, ?_⟩
  cases ha : aliasAfter? n.rest with
  | none => exact .inl rfl
  | some a =>
    obtain ⟨i, rest⟩ := a
    simp only
    split
    · exact .inr ⟨i, rfl⟩
    · exact .inl rfl

theorem length_of_spaced? {t rest : Text} (h : spaced? t = some rest) :
    rest.length < t.length := by
  obtain ⟨g, hne, -, -, rfl⟩ := spaced?_eq_some_iff.1 h
  have := List.length_pos_iff.2 hne
  rw [List.length_append]
  omega

theorem length_of_aliasAfter? {t rest : Text} {i : Identifier}
    (h : aliasAfter? t = some (i, rest)) : rest.length < t.length := by
  obtain ⟨u, hu, v, hv, hread⟩ := aliasAfter?_eq_some h
  have hlt := Identifier.length_of_read? hread
  have hut := length_of_spaced? hu
  rcases hv with rfl | hv
  · omega
  · obtain ⟨w, hw, hspaced⟩ := Option.bind_eq_some_iff.1 hv
    obtain ⟨x, rfl, -⟩ := keyword?_eq_some_iff.1 hw
    have := length_of_spaced? hspaced
    rw [List.length_append] at hut
    omega

/-- A reference of a list is the first of it, or one of the rest. -/
theorem mem_listedRefs_succ {size steps : Nat} {keyword t : Text} {r : TableRef}
    (h : r ∈ listedRefs size keyword (steps + 1) t) :
    ∃ u n r' rest, comma? t = some u ∧ QualifiedName.read? isNameStart u = some n ∧
      tableRef? size keyword n = some (r', rest) ∧
      (r = r' ∨ r ∈ listedRefs size keyword steps rest) := by
  rw [listedRefs] at h
  split at h
  · cases h
  · rename_i r' rest hread
    obtain ⟨n, hn, href⟩ := Option.bind_eq_some_iff.1 hread
    obtain ⟨u, hu, hn⟩ := Option.bind_eq_some_iff.1 hn
    exact ⟨u, n, r', rest, hu, hn, href, List.mem_cons.1 h⟩

/-- The references of a list start in the text of the list. -/
theorem le_start_of_mem_listedRefs {size steps : Nat} {keyword t : Text} {r : TableRef}
    (h : r ∈ listedRefs size keyword steps t) : size ≤ r.start + t.length := by
  induction steps generalizing t with
  | zero => cases h
  | succ steps ih =>
    obtain ⟨u, n, r', rest, hu, hn, href, h⟩ := mem_listedRefs_succ h
    obtain ⟨hstart, hrest⟩ := tableRef?_eq_some href
    have hcomma := length_of_comma? hu
    obtain ⟨hlt, hle⟩ := QualifiedName.length_of_read? hn
    rcases h with rfl | h
    · omega
    · have := ih h
      rcases hrest with rfl | ⟨i, hi⟩
      · omega
      · have := length_of_aliasAfter? hi
        omega

/-! ## Barriers -/

/-- The text reaches as far as `s`, with an even number of double quotes before it. -/
def ReachesTo (s t : Text) : Prop := ∃ u, t = u ++ s ∧ u.count '"' % 2 = 0

namespace ReachesTo

variable {s t rest : Text} (hs : s.head? = some ')')
include hs

theorem cons {c : Char} (h : ReachesTo s (c :: t)) (hp : c ≠ ')') (hq : c ≠ '"') :
    ReachesTo s t := by
  obtain ⟨u, hu, heven⟩ := h
  cases u with
  | nil =>
    rw [List.nil_append] at hu
    rw [← hu] at hs
    exact absurd (Option.some.inj hs) hp
  | cons d u =>
    obtain ⟨rfl, rfl⟩ := List.cons.inj hu
    exact ⟨u, rfl, by rwa [List.count_cons_of_ne hq] at heven⟩

theorem append {x : Text} (h : ReachesTo s (x ++ t)) (hx : ∀ c ∈ x, c ≠ ')' ∧ c ≠ '"') :
    ReachesTo s t := by
  induction x with
  | nil => exact h
  | cons c x ih =>
    obtain ⟨hp, hq⟩ := hx c List.mem_cons_self
    exact ih (h.cons hs hp hq) fun d hd => hx d (List.mem_cons_of_mem c hd)

theorem skipBlanks (h : ReachesTo s t) : ReachesTo s (skipBlanks t) := by
  obtain ⟨g, hg, ht⟩ := exists_blanks_append_skipBlanks t
  rw [ht] at h
  refine h.append hs fun c hc => ?_
  have hblank := List.all_eq_true.1 hg c hc
  constructor <;> rintro rfl <;> exact absurd hblank (by decide)

theorem spaced? (h : ReachesTo s t) (ht : spaced? t = some rest) : ReachesTo s rest := by
  obtain ⟨g, -, hg, -, rfl⟩ := spaced?_eq_some_iff.1 ht
  refine h.append hs fun c hc => ?_
  have hblank := List.all_eq_true.1 hg c hc
  constructor <;> rintro rfl <;> exact absurd hblank (by decide)

theorem keyword? {word : Text} (hword : ∀ c ∈ word.map foldLetter, c.isLower = true)
    (h : ReachesTo s t) (ht : keyword? word t = some rest) : ReachesTo s rest := by
  obtain ⟨w, rfl, hw⟩ := keyword?_eq_some_iff.1 ht
  refine h.append hs fun c hc => ?_
  have hlower := hword _ (hw.mem hc)
  constructor <;> rintro rfl <;> exact absurd hlower (by decide)

theorem read? {isStart : Char → Bool} {i : Identifier}
    (hstart : ∀ c, isStart c = true → isNamePart c = true) (h : ReachesTo s t)
    (ht : Identifier.read? isStart t = some (i, rest)) :
    ReachesTo s rest ∧ s.length < t.length := by
  obtain ⟨u, rfl, heven⟩ := h
  have hcut : Cut u s := .inl (by rw [hs]; rfl)
  have hne : u ≠ [] := by
    rintro rfl
    cases s with
    | nil => cases hs
    | cons c s =>
      obtain rfl := Option.some.inj hs
      have hno : isStart ')' = false := by
        cases hc : isStart ')' with
        | false => rfl
        | true => exact absurd (hstart _ hc) (by decide)
      rw [List.nil_append, Identifier.read?, if_neg (by decide), if_neg (by simp [hno])] at ht
      cases ht
  obtain ⟨v, rfl, -, hv⟩ := Identifier.read?_part hstart ht hne heven hcut
  refine ⟨⟨v, rfl, hv⟩, ?_⟩
  have := List.length_pos_iff.2 hne
  rw [List.length_append]
  omega

theorem dot? (h : ReachesTo s t) (ht : dot? t = some rest) : ReachesTo s rest := by
  obtain ⟨r, hr, rfl⟩ := dot?_eq_some ht
  exact ((hr ▸ h.skipBlanks hs).cons hs (by decide) (by decide)).skipBlanks hs

theorem comma? (h : ReachesTo s t) (ht : comma? t = some rest) : ReachesTo s rest := by
  obtain ⟨r, hr, rfl⟩ := comma?_eq_some ht
  exact ((hr ▸ h.skipBlanks hs).cons hs (by decide) (by decide)).skipBlanks hs

theorem readQualified? {isStart : Char → Bool} {n : QualifiedName}
    (hstart : ∀ c, isStart c = true → isNamePart c = true) (h : ReachesTo s t)
    (ht : QualifiedName.read? isStart t = some n) :
    ReachesTo s n.rest ∧ s.length < n.onward.length := by
  obtain ⟨⟨first, r⟩, hfirst, ht⟩ := Option.bind_eq_some_iff.1 ht
  obtain ⟨hr, hlt⟩ := h.read? hs hstart hfirst
  simp only at ht
  split at ht
  · obtain rfl := Option.some.inj ht
    exact ⟨hr, hlt⟩
  · rename_i r' hdot
    split at ht
    · obtain rfl := Option.some.inj ht
      exact ⟨hr, hlt⟩
    · rename_i second rest hsecond
      obtain rfl := Option.some.inj ht
      exact (hr.dot? hs hdot).read? hs hstart hsecond

theorem aliasAfter? {i : Identifier} (h : ReachesTo s t) (ht : aliasAfter? t = some (i, rest)) :
    ReachesTo s rest := by
  obtain ⟨u, hu, v, hv, hread⟩ := aliasAfter?_eq_some ht
  have hu := h.spaced? hs hu
  have hv : ReachesTo s v := by
    rcases hv with rfl | hv
    · exact hu
    · obtain ⟨w, hw, hspaced⟩ := Option.bind_eq_some_iff.1 hv
      exact (hu.keyword? hs (by decide) hw).spaced? hs hspaced
  exact (hv.read? hs (fun _ => isNamePart_of_isFoldedNameStart) hread).1

theorem tableRef? {size : Nat} {keyword : Text} {n : QualifiedName} {r : TableRef}
    (h : ReachesTo s n.rest) (ht : tableRef? size keyword n = some (r, rest)) :
    ReachesTo s rest := by
  obtain ⟨-, rfl | ⟨i, hi⟩⟩ := tableRef?_eq_some ht
  · exact h
  · exact h.aliasAfter? hs hi

theorem start_lt_of_mem_listedRefs {size steps : Nat} {keyword : Text} {r : TableRef}
    (h : ReachesTo s t) (hsize : t.length ≤ size) (hr : r ∈ listedRefs size keyword steps t) :
    r.start + s.length < size := by
  induction steps generalizing t with
  | zero => cases hr
  | succ steps ih =>
    obtain ⟨u, n, r', rest, hu, hn, href, hr⟩ := mem_listedRefs_succ hr
    have hname := (h.comma? hs hu).readQualified? hs (fun _ => isNamePart_of_isNameStart) hn
    have hstart := (tableRef?_eq_some href).1
    have hcomma := length_of_comma? hu
    obtain ⟨hlt, hle⟩ := QualifiedName.length_of_read? hn
    rcases hr with rfl | hr
    · omega
    · refine ih (hname.1.tableRef? hs href) ?_ hr
      obtain ⟨-, rfl | ⟨i, hi⟩⟩ := tableRef?_eq_some href
      · omega
      · have := length_of_aliasAfter? hi
        omega

end ReachesTo

end QueryGate
