import QueryGate.Proofs.Bound.Bounding

/-!
# Bounded queries

What bounding says it enforces is what is read off the query it leaves, and no more than the cap
(`outerLimit?_bound`). Bounding that query again finds its bound low enough and changes nothing
(`bound_bound`).
-/

namespace QueryGate

/-! ## The clause that is left -/

/-- The last clause of a text asks for a number of rows, and no more than the cap. -/
def Bound.Carries (cap : RowCap) (t : Text) (n : Nat) : Prop :=
  n ≤ cap.rows ∧ ∃ hit, (firstHit? trailingLimit (maskLiterals t) <|>
    firstHit? trailingFetch (maskLiterals t)) = some hit ∧ Bound.number? hit.value = .ok (some n)

namespace Bound

variable {cap : RowCap} {body bounded : Text} {effect : BoundEffect} {n : Nat}

theorem Carries.limitAtEnd? (h : Carries cap bounded n) :
    limitAtEnd? (maskLiterals bounded) = .ok (some n) := by
  obtain ⟨-, hit, hhit, hn⟩ := h
  exact limitAtEnd?_of_firstHit? hhit hn

/-- A text that carries a bound is left as it is. -/
theorem Carries.body_eq (h : Carries cap bounded n) :
    Bound.body cap bounded = .ok (bounded, .within n) := by
  obtain ⟨hle, hit, hhit, hn⟩ := h
  unfold Bound.body
  simp only [hhit, hn]
  exact if_pos hle

/-- A clause with a number at the end of a text is the one that is found. -/
theorem Carries.of_clause {a head ds tail : Text} (hc : IsBoundClause head ds tail)
    (hp : atWordStart (maskLiterals a).reverse = true) (hd : IsDigitRun ds)
    (hn : readDigits ds = .ok n) (hle : n ≤ cap.rows) :
    Carries cap (a ++ (head ++ (ds ++ tail))) n := by
  have hquote : '\'' ∉ head ++ (ds ++ tail) :=
    hc.madeOf.not_mem (by decide) (by decide) (by decide)
  refine ⟨hle, ?_⟩
  rw [maskLiterals_append_of_not_mem a hquote]
  exact hc.exists_hit hp hd hn

/-- The rows that a body may return after what was done to it. -/
def limitOf (cap : RowCap) : BoundEffect → Nat
  | .within n => n
  | .lowered _ | .added => cap.rows
  | .notSelect => 0

theorem enforced_eq_limitOf (b : Bounded) (h : b.cap = cap.rows) :
    b.enforced = limitOf cap b.effect := by
  unfold Bounded.enforced
  cases hb : b.effect <;> simp [limitOf, h]

/-- Whatever was done to a body, it carries the bound that is said to be enforced. -/
theorem carries_of_body (h : Bound.body cap body = .ok (bounded, effect)) :
    Carries cap bounded (limitOf cap effect) := by
  rcases body_eq_ok h with ⟨hit, n, hh, hn, hle, rfl, rfl⟩ |
    ⟨hit, ds, asked, hh, hw, -, -, hds, rfl, rfl⟩ | ⟨ds, hds, rfl, rfl⟩
  · exact ⟨hle, hit, hh, hn⟩
  · have hd := isDigitRun_of_writeDigits hds
    obtain ⟨a, head, written, tail, rfl, hp, hc, hv⟩ := exists_clause_of_body hh
    rw [hv] at hw ⊢
    rw [lowerTo_append]
    exact .of_clause (hc.replace hw hd) hp hd (readDigits_of_writeDigits hds) (Nat.le_refl _)
  · have hd := isDigitRun_of_writeDigits hds
    obtain ⟨a, off, rfl, -, hoff, hadd⟩ := exists_addTo_eq ds body
    have hc : LimitClause "LIMIT " ds off :=
      ⟨⟨"LIMIT", " ", rfl, rfl, by decide, by decide⟩, .inl hd,
        hoff.imp (fun h => by rw [h]; rfl) id⟩
    have hsplit : a ++ (clause ds ++ off) = (a ++ [' ']) ++ ("LIMIT ".toList ++ (ds ++ off)) := by
      rw [List.append_assoc]
      rfl
    rw [hadd, hsplit]
    refine .of_clause (.inl hc) ?_ hd (readDigits_of_writeDigits hds) (Nat.le_refl _)
    rw [maskLiterals_append_of_not_mem a (by decide), List.reverse_append]
    rfl

end Bound

/-! ## The statement word -/

theorem isSelect_iff {t : Text} :
    isSelect t = true ↔ ∃ g w r, t = g ++ (w ++ r) ∧ allBlank g = true ∧ Spells "SELECT" w ∧
      atWordEnd r = true := by
  unfold isSelect
  rw [Option.any_eq_true]
  constructor
  · rintro ⟨r, hr, hend⟩
    obtain ⟨w, hw, hs⟩ := keyword?_eq_some_iff.1 hr
    obtain ⟨g, hg, ht⟩ := exists_blanks_append_skipBlanks t
    exact ⟨g, w, r, by rw [← hw, ← ht], hg, hs, hend⟩
  · rintro ⟨g, w, r, rfl, hg, hs, hend⟩
    refine ⟨r, ?_, hend⟩
    rw [skipBlanks_append hg (hs.head?_any_isBlank (by decide) r)]
    exact keyword?_append hs r

/-- A query is its body, with blanks around it and behind it perhaps a semicolon. -/
theorem exists_around_withoutSemicolon (sql : Text) :
    ∃ z, skipBlanks sql = (withoutSemicolon sql).1 ++ z ∧ ∀ c ∈ z, isBlank c = true ∨ c = ';' := by
  obtain ⟨g, hg, ht⟩ := exists_trimEnd_append_blanks (skipBlanks sql)
  have hblank : ∀ c ∈ g, isBlank c = true := List.all_eq_true.1 hg
  unfold withoutSemicolon
  simp only
  split
  · rename_i hlast
    obtain ⟨u, hu⟩ := List.getLast?_eq_some_iff.1 hlast
    obtain ⟨g', hg', hu'⟩ := exists_trimEnd_append_blanks (trim sql).dropLast
    refine ⟨g' ++ (';' :: g), ?_, ?_⟩
    · have hdrop : trim sql = (trim sql).dropLast ++ [';'] := by
        rw [hu, List.dropLast_concat]
      rw [ht, ← trim, ← List.append_assoc, ← hu']
      calc trim sql ++ g = ((trim sql).dropLast ++ [';']) ++ g := by rw [← hdrop]
        _ = (trim sql).dropLast ++ ';' :: g := by simp
    · intro c hc
      rcases List.mem_append.1 hc with hc | hc
      · exact .inl (List.all_eq_true.1 hg' c hc)
      · rcases List.mem_cons.1 hc with rfl | hc
        · exact .inr rfl
        · exact .inl (hblank c hc)
  · exact ⟨g, ht, fun c hc => .inl (hblank c hc)⟩

theorem isWordChar_of_spells_select {w : Text} (h : Spells "SELECT" w) :
    ∀ c ∈ w, isWordChar c = true := by
  have hlower : ∀ c ∈ "SELECT".toList.map foldLetter, c.isLower = true := by decide
  exact fun c hc => isWordChar_of_isLower_foldLetter (hlower _ (h.mem hc))

theorem atWordEnd_of_append {r z : Text} (h : atWordEnd (r ++ z) = true) : atWordEnd r = true := by
  cases r with
  | nil => rfl
  | cons c r => exact h

/-- The body of a `SELECT` begins with the word. -/
theorem exists_select_of_isSelect {sql : Text} (h : isSelect sql = true) :
    ∃ w r, (withoutSemicolon sql).1 = w ++ r ∧ Spells "SELECT" w ∧ atWordEnd r = true := by
  obtain ⟨g, w, r, rfl, hg, hs, hend⟩ := isSelect_iff.1 h
  obtain ⟨z, hz, hzc⟩ := exists_around_withoutSemicolon (g ++ (w ++ r))
  rw [skipBlanks_append hg (hs.head?_any_isBlank (by decide) r)] at hz
  obtain ⟨y, hb, rfl⟩ | ⟨y, hw, hy⟩ := List.append_eq_append_iff.1 hz
  · exact ⟨w, y, hb, hs, atWordEnd_of_append hend⟩
  · cases y with
    | nil => exact ⟨w, [], by simpa using hw.symm, hs, rfl⟩
    | cons c y =>
      -- No character of the word stands behind the body.
      have hc : isWordChar c = true := isWordChar_of_spells_select hs c (hw ▸ by simp)
      rcases hzc c (hy ▸ List.mem_append_left r List.mem_cons_self) with hblank | rfl
      · rw [isWordChar_eq_false_of_isBlank hblank] at hc
        cases hc
      · exact absurd hc (by decide)

/-- The word at the head of a body is in the part that bounding keeps, if the cut is in no word. -/
theorem select_of_append {a x y w r : Text} (hbody : a ++ x = w ++ r) (hs : Spells "SELECT" w)
    (hend : atWordEnd r = true)
    (hcut : a ≠ [] ∧ a.getLast?.any isWordChar = false ∨
      atWordEnd x = true ∧ atWordEnd y = true) :
    ∃ r', a ++ y = w ++ r' ∧ atWordEnd r' = true := by
  have hword := isWordChar_of_spells_select hs
  obtain ⟨z, rfl, rfl⟩ | ⟨z, rfl, rfl⟩ := List.append_eq_append_iff.1 hbody
  · rcases hcut with ⟨ha, hlast⟩ | ⟨hx, hy⟩
    · have := hword _ (List.mem_append_left z (List.getLast_mem ha))
      rw [List.getLast?_eq_some_getLast ha, Option.any_some, this] at hlast
      cases hlast
    · cases z with
      | nil => exact ⟨y, by simp, hy⟩
      | cons c z =>
        have hc : isWordChar c = true := hword c (by simp)
        simp [atWordEnd, hc] at hx
  · refine ⟨z ++ y, by rw [List.append_assoc], ?_⟩
    cases z with
    | cons c z => exact hend
    | nil =>
      rcases hcut with ⟨ha, hlast⟩ | ⟨-, hy⟩
      · rw [List.append_nil] at ha hlast
        have := hword _ (List.getLast_mem ha)
        rw [List.getLast?_eq_some_getLast ha, Option.any_some, this] at hlast
        cases hlast
      · exact hy

theorem KeywordGap.getLast?_any {word t : Text} (h : KeywordGap word t) (a : Text) :
    (a ++ t).getLast?.any isWordChar = false := by
  obtain ⟨w, g, rfl, -, hne, hg⟩ := h.parts
  have hblank := List.all_eq_true.1 hg _ (List.getLast_mem hne)
  rw [← List.append_assoc, List.getLast?_append, List.getLast?_eq_some_getLast hne, Option.some_or,
    Option.any_some]
  exact isWordChar_eq_false_of_isBlank hblank

theorem IsBoundClause.getLast?_any {head written tail : Text} (h : IsBoundClause head written tail)
    (a : Text) : (a ++ head).getLast?.any isWordChar = false := by
  rcases h with h | h
  · exact h.head.getLast?_any a
  · obtain ⟨f, n, rfl, -, hn⟩ := h.head
    rw [← List.append_assoc]
    rcases hn with hn | hn <;> exact hn.getLast?_any _

theorem atWordEnd_of_isBlank {t : Text} (h : t = [] ∨ t.head?.any isBlank = true) :
    atWordEnd t = true := by
  cases t with
  | nil => rfl
  | cons c t =>
    have hc : isBlank c = true := h.resolve_left (List.cons_ne_nil _ _)
    simp [atWordEnd, isWordChar_eq_false_of_isBlank hc]

/-- Bounding keeps the word at the head of a body. -/
theorem Bound.select_of_body {cap : RowCap} {body bounded w r : Text} {effect : BoundEffect}
    (h : Bound.body cap body = .ok (bounded, effect)) (hbody : body = w ++ r)
    (hs : Spells "SELECT" w) (hend : atWordEnd r = true) :
    ∃ r', bounded = w ++ r' ∧ atWordEnd r' = true := by
  rcases body_eq_ok h with ⟨hit, n, hh, hn, hle, rfl, rfl⟩ |
    ⟨hit, ds, asked, hh, hw, -, -, hds, rfl, rfl⟩ | ⟨ds, hds, rfl, rfl⟩
  · exact ⟨r, hbody, hend⟩
  · obtain ⟨a, head, written, tail, rfl, -, hc, hv⟩ := exists_clause_of_body hh
    rw [← List.append_assoc] at hbody
    have hne : a ++ head ≠ [] := fun hnil => hc.head_ne_nil (List.append_eq_nil_iff.1 hnil).2
    rw [hv, lowerTo_append, ← List.append_assoc]
    exact select_of_append hbody hs hend (.inl ⟨hne, hc.getLast?_any a⟩)
  · obtain ⟨a, off, rfl, -, hoff, hadd⟩ := exists_addTo_eq ds body
    rw [hadd]
    refine select_of_append hbody hs hend (.inr ⟨?_, rfl⟩)
    exact atWordEnd_of_isBlank (hoff.imp_right head?_any_isBlank_of_isOffset)

/-! ## Whole queries -/

/-- What bounding makes of a `SELECT`. -/
theorem exists_body_of_bound {cap : RowCap} {sql : Text} {b : Bounded} (h : bound cap sql = .ok b)
    (hs : isSelect sql = true) :
    ∃ bounded effect, Bound.body cap (withoutSemicolon sql).1 = .ok (bounded, effect) ∧
      EndBounded cap (withoutSemicolon sql).1 bounded ∧
      b = ⟨if (withoutSemicolon sql).2 then bounded ++ [';'] else bounded, effect, cap.rows⟩ := by
  obtain ⟨c, u, hu, hc⟩ := exists_withoutSemicolon_cons hs
  unfold bound at h
  rw [if_pos hs] at h
  obtain ⟨⟨bounded, effect⟩, hbody, h⟩ := bind_eq_ok_iff.1 h
  refine ⟨bounded, effect, hbody, ?_, (Except.ok.inj h).symm⟩
  apply Bound.endBounded_of_body _ (getLast?_withoutSemicolon sql) hbody
  · simp [hu]
  · simpa [hu] using hc

namespace EndBounded

variable {cap : RowCap} {body bounded : Text}

theorem outerLimit?_semicolon (h : EndBounded cap body bounded) (semicolon : Bool) :
    outerLimit? (if semicolon then bounded ++ [';'] else bounded) =
      limitAtEnd? (maskLiterals bounded) := by
  cases semicolon with
  | false => exact h.outerLimit?_eq
  | true =>
    have hdrop : trimEndOf ';' (bounded ++ [';']) = trimEndOf ';' bounded := by
      simp [trimEndOf]
    rw [if_pos rfl, QueryGate.outerLimit?_eq, h.trim_semicolon, hdrop,
      trimEndOf_eq_self h.getLast?_ne_semicolon, trimEnd_eq_self h.last]

end EndBounded

/-- What bounding enforces on a `SELECT` is read off the query it leaves, and is no more than the
cap. -/
theorem outerLimit?_bound {cap : RowCap} {sql : Text} {b : Bounded} (hs : isSelect sql = true)
    (h : bound cap sql = .ok b) :
    outerLimit? b.sql = .ok (some b.enforced) ∧ b.enforced ≤ cap.rows := by
  obtain ⟨bounded, effect, hbody, hend, rfl⟩ := exists_body_of_bound h hs
  have hcarries := Bound.carries_of_body hbody
  rw [Bound.enforced_eq_limitOf _ rfl, hend.outerLimit?_semicolon]
  exact ⟨hcarries.limitAtEnd?, hcarries.1⟩

/-- A bound above the cap is lowered to it, in front of an offset and a semicolon. -/
theorem outerLimit?_lowered_query :
    bound (.ofNat 10 (by decide)) "SELECT a FROM t LIMIT 99 OFFSET 5 ;".toList =
        .ok ⟨"SELECT a FROM t LIMIT 10 OFFSET 5;".toList, .lowered (some 99), 10⟩ ∧
      outerLimit? "SELECT a FROM t LIMIT 10 OFFSET 5;".toList = .ok (some 10) := by
  have h : bound (.ofNat 10 (by decide)) "SELECT a FROM t LIMIT 99 OFFSET 5 ;".toList =
      .ok ⟨"SELECT a FROM t LIMIT 10 OFFSET 5;".toList, .lowered (some 99), 10⟩ := by
    decide +kernel
  exact ⟨h, (outerLimit?_bound (by decide +kernel) h).1⟩

/-- A query that was bounded is bounded again to itself: its bound is low enough. -/
theorem bound_bound {cap : RowCap} {sql : Text} {b : Bounded} (h : bound cap sql = .ok b) :
    ∃ b', bound cap b.sql = .ok b' ∧ b'.sql = b.sql ∧ b'.isApplied = false ∧
      b'.wasLowered = false ∧ b'.enforced = b.enforced := by
  by_cases hs : isSelect sql = true
  · obtain ⟨bounded, effect, hbody, hend, rfl⟩ := exists_body_of_bound h hs
    obtain ⟨w, r, hw, hspells, hr⟩ := exists_select_of_isSelect hs
    obtain ⟨r', rfl, hr'⟩ := Bound.select_of_body hbody hw hspells hr
    have hagain := (Bound.carries_of_body hbody).body_eq
    have hselect :
        isSelect (if (withoutSemicolon sql).2 then (w ++ r') ++ [';'] else w ++ r') = true := by
      split
      · refine isSelect_iff.2 ⟨[], w, r' ++ [';'], by simp, rfl, hspells, ?_⟩
        cases r' with
        | nil => decide
        | cons c r' => exact hr'
      · exact isSelect_iff.2 ⟨[], w, r', rfl, rfl, hspells, hr'⟩
    refine ⟨⟨_, .within (Bound.limitOf cap effect), cap.rows⟩, ?_, rfl, rfl, rfl, ?_⟩
    · simp only [bound, hselect, ite_true, hend.withoutSemicolon_mk, hagain]
      rfl
    · rw [Bound.enforced_eq_limitOf _ rfl, Bound.enforced_eq_limitOf _ rfl]
      rfl
  · unfold bound at h
    rw [if_neg hs] at h
    obtain rfl := Except.ok.inj h
    refine ⟨⟨sql, .notSelect, cap.rows⟩, ?_, rfl, rfl, rfl, rfl⟩
    unfold bound
    rw [if_neg hs]

/-- A literal that is never closed hides no bound that was added behind it. -/
theorem bound_again_unclosed_literal :
    bound (.ofNat 10 (by decide)) "SELECT 'a LIMIT 5 ; ;".toList =
        .ok ⟨"SELECT 'a LIMIT 5 ; LIMIT 10;".toList, .added, 10⟩ ∧
      ∃ b', bound (.ofNat 10 (by decide)) "SELECT 'a LIMIT 5 ; LIMIT 10;".toList = .ok b' ∧
        b'.sql = "SELECT 'a LIMIT 5 ; LIMIT 10;".toList ∧ b'.isApplied = false ∧
        b'.wasLowered = false ∧ b'.enforced = 10 := by
  have h : bound (.ofNat 10 (by decide)) "SELECT 'a LIMIT 5 ; ;".toList =
      .ok ⟨"SELECT 'a LIMIT 5 ; LIMIT 10;".toList, .added, 10⟩ := by
    decide +kernel
  exact ⟨h, bound_bound h⟩

end QueryGate
