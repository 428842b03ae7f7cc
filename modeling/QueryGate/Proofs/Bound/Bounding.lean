import QueryGate.Proofs.Bound.Clauses
import QueryGate.Proofs.Sql.LiteralMask

/-!
# What bounding does

Bounding changes nothing but the end of a query, behind its last semicolon and outside its literals
(`EndBounded`), and what is left at the end is a clause that reads back as a number no greater than
the cap (`Bound.endBounded_of_body`). The same holds of a whole query with the blanks around it and
its semicolon (`bound_eq_ok`).
-/

namespace QueryGate

/-! ## The number read back -/

/-- The number of rows that the last clause of a masked query asks for. -/
def limitAtEnd? (masked : Text) : Except Fault (Option Nat) := do
  match firstHit? trailingLimit masked with
  | some h =>
    match ← Bound.number? h.value with
    | some n => return some n
    | none => outerLimit?.fetched masked
  | none => outerLimit?.fetched masked

theorem outerLimit?_eq (sql : Text) :
    outerLimit? sql = limitAtEnd? (maskLiterals (trimEnd (trimEndOf ';' (trim sql)))) := rfl

theorem Bound.number?_of_digits {ds : Text} {s : Span} {n : Nat} (hd : IsDigitRun ds)
    (hn : readDigits ds = .ok n) : Bound.number? ⟨ds, s⟩ = .ok (some n) := by
  have hne : ds.isEmpty = false := List.isEmpty_eq_false_iff.2 hd.1
  rw [Bound.number?, hne, if_neg (by decide), if_pos (List.all_eq_true.2 hd.2), hn]
  rfl

theorem Bound.limitAtEnd?_of_firstHit? {masked : Text} {h : Hit WrittenBound} {n : Nat}
    (hh : (firstHit? trailingLimit masked <|> firstHit? trailingFetch masked) = some h)
    (hn : Bound.number? h.value = .ok (some n)) : limitAtEnd? masked = .ok (some n) := by
  rw [Option.orElse_eq_orElse, Option.orElse_eq_or, Option.or_eq_some_iff] at hh
  rcases hh with hh | ⟨hnone, hh⟩
  · simp only [limitAtEnd?, hh, hn]
    rfl
  · simp only [limitAtEnd?, outerLimit?.fetched, hnone, hh, hn]

/-- The parts of a clause in its short or its long form. -/
def IsBoundClause (head written tail : Text) : Prop :=
  LimitClause head written tail ∨ FetchClause head written tail

namespace IsBoundClause

variable {p head written ds tail : Text} {n : Nat}

theorem madeOf (h : IsBoundClause head written tail) :
    MadeOf "limtaoferwchnsxy" (head ++ (written ++ tail)) :=
  h.elim (fun h => h.madeOf.mono (by decide)) fun h => h.madeOf.mono (by decide)

theorem head_ne_nil (h : IsBoundClause head written tail) : head ≠ [] := by
  rcases h with h | h
  · exact h.head.ne_nil
  · obtain ⟨f, n, rfl, hf, -⟩ := h.head
    exact fun hnil => hf.ne_nil (List.append_eq_nil_iff.1 hnil).1

theorem replace (h : IsBoundClause head written tail) (hw : written ≠ []) (hds : IsDigitRun ds) :
    IsBoundClause head ds tail :=
  h.imp (fun h => h.replace hds) fun h => h.replace hw hds

/-- A clause at the end of a text, with a number, is the one that is found. -/
theorem exists_hit (h : IsBoundClause head ds tail) (hp : atWordStart p.reverse = true)
    (hd : IsDigitRun ds) (hn : readDigits ds = .ok n) :
    ∃ hit, (firstHit? trailingLimit (p ++ (head ++ (ds ++ tail))) <|>
      firstHit? trailingFetch (p ++ (head ++ (ds ++ tail)))) = some hit ∧
        Bound.number? hit.value = .ok (some n) := by
  rcases h with h | h
  · obtain ⟨hit, hhit, hv⟩ := firstHit?_of_onlyAt trailingLimit (a := p)
      onlyAt_of_trailingLimit (trailingLimit_eq_some_iff.2 ⟨hp, head, ds, tail, h, rfl, rfl⟩)
    refine ⟨hit, ?_, ?_⟩
    · rw [hhit]
      rfl
    · rw [hv]
      exact Bound.number?_of_digits hd hn
  · obtain ⟨hit, hhit, hv⟩ := firstHit?_of_onlyAt trailingFetch (a := p)
      onlyAt_of_trailingFetch (trailingFetch_append hp h hd.1)
    refine ⟨hit, ?_, ?_⟩
    · rw [firstHit?_trailingLimit_eq_none h, hhit]
      rfl
    · rw [hv]
      exact Bound.number?_of_digits hd hn

/-- A clause at the end of a text, with a number, is read as asking for that number. -/
theorem limitAtEnd? (h : IsBoundClause head ds tail) (hp : atWordStart p.reverse = true)
    (hd : IsDigitRun ds) (hn : readDigits ds = .ok n) :
    limitAtEnd? (p ++ (head ++ (ds ++ tail))) = .ok (some n) := by
  obtain ⟨hit, hhit, hvalue⟩ := h.exists_hit hp hd hn
  exact Bound.limitAtEnd?_of_firstHit? hhit hvalue

end IsBoundClause

/-! ## The end of a body -/

/-- A body before and after it was bounded: the two differ in an end without semicolons, and what
is left at the end bounds the body. -/
structure EndBounded (cap : RowCap) (body bounded : Text) : Prop where
  ends : ∃ a x y, body = a ++ x ∧ bounded = a ++ y ∧ ';' ∉ x ∧ ';' ∉ y ∧ y ≠ []
  head : bounded.head?.any isBlank = false
  last : bounded.getLast?.any isBlank = false
  limit : ∃ n ≤ cap.rows, limitAtEnd? (maskLiterals bounded) = .ok (some n)

theorem exists_eq_append_of_maskLiterals {t p c : Text} (h : maskLiterals t = p ++ c)
    (hc : '\'' ∉ c) : ∃ a, t = a ++ c ∧ a.length = p.length ∧ maskLiterals a = p := by
  have hlen : p.length ≤ t.length := by
    rw [← length_maskLiterals t, h, List.length_append]
    omega
  have hdrop : (maskLiterals (t.take p.length ++ t.drop p.length)).drop (t.take p.length).length =
      c := by
    rw [List.take_append_drop, h, List.length_take, Nat.min_eq_left hlen]
    exact List.drop_left
  obtain ⟨-, hcut⟩ := maskLiterals_append_of_not_mem_drop (hdrop ▸ hc)
  rw [List.take_append_drop, h] at hcut
  have hlen' : p.length = (maskLiterals (t.take p.length)).length := by
    rw [length_maskLiterals, List.length_take, Nat.min_eq_left hlen]
  obtain ⟨hp, hc'⟩ := List.append_inj hcut hlen'
  refine ⟨t.take p.length, ?_, by rw [List.length_take, Nat.min_eq_left hlen], hp.symm⟩
  rw [hc', List.take_append_drop]

/-- The place and the parts of the clause that bounds a body already. -/
theorem exists_clause_of_firstHit? {masked : Text} {h : Hit WrittenBound}
    (hh : (firstHit? trailingLimit masked <|> firstHit? trailingFetch masked) = some h) :
    ∃ p head written tail, masked = p ++ (head ++ (written ++ tail)) ∧
      atWordStart p.reverse = true ∧
      IsBoundClause head written tail ∧
      h.value = ⟨written, ⟨p.length + head.length, p.length + head.length + written.length⟩⟩ := by
  rw [Option.orElse_eq_orElse, Option.orElse_eq_or, Option.or_eq_some_iff] at hh
  rcases hh with hh | ⟨-, hh⟩
  · obtain ⟨p, b, rest, rfl, -, hread, -⟩ := firstHit?_eq_some hh
    obtain ⟨hp, head, written, tail, hc, rfl, hv⟩ := trailingLimit_eq_some_iff.1 hread
    obtain ⟨hv, -⟩ := Prod.mk.inj hv
    exact ⟨p, head, written, tail, rfl, hp, .inl hc, by rw [hv, List.length_reverse]⟩
  · obtain ⟨p, b, rest, rfl, -, hread, -⟩ := firstHit?_eq_some hh
    obtain ⟨hp, head, written, tail, hc, rfl, hv⟩ := trailingFetch_eq_some hread
    obtain ⟨hv, -⟩ := Prod.mk.inj hv
    exact ⟨p, head, written, tail, rfl, hp, .inr hc, by rw [hv, List.length_reverse]⟩

/-- The clause stands in the body as it stands in the mask, since no literal is in it. -/
theorem exists_clause_of_body {body : Text} {h : Hit WrittenBound}
    (hh : (firstHit? trailingLimit (maskLiterals body) <|>
      firstHit? trailingFetch (maskLiterals body)) = some h) :
    ∃ a head written tail, body = a ++ (head ++ (written ++ tail)) ∧
      atWordStart (maskLiterals a).reverse = true ∧ IsBoundClause head written tail ∧
      h.value = ⟨written, ⟨a.length + head.length, a.length + head.length + written.length⟩⟩ := by
  obtain ⟨p, head, written, tail, hmask, hp, hc, hv⟩ := exists_clause_of_firstHit? hh
  obtain ⟨a, rfl, hlen, rfl⟩ := exists_eq_append_of_maskLiterals hmask
    (hc.madeOf.not_mem (by decide) (by decide) (by decide))
  exact ⟨a, head, written, tail, rfl, hp, hc, hlen ▸ hv⟩

namespace Bound

variable {cap : RowCap} {body bounded : Text} {effect : BoundEffect}

theorem lowerTo_append (ds a head written tail : Text) :
    lowerTo ds (a ++ (head ++ (written ++ tail)))
        ⟨a.length + head.length, a.length + head.length + written.length⟩ =
      a ++ (head ++ (ds ++ tail)) := by
  have htake : (a ++ (head ++ (written ++ tail))).take (a.length + head.length) = a ++ head := by
    rw [← List.append_assoc, ← List.length_append, List.take_left]
  have hdrop : (a ++ (head ++ (written ++ tail))).drop
      (a.length + head.length + written.length) = tail := by
    rw [← List.append_assoc, ← List.append_assoc, ← List.length_append, ← List.length_append,
      List.drop_left]
  rw [lowerTo, htake, hdrop]
  simp only [List.append_assoc]

theorem exists_addTo_eq (ds body : Text) :
    ∃ a off, body = a ++ off ∧ maskLiterals body = maskLiterals a ++ off ∧
      (off = [] ∨ isOffset off = true) ∧
      addTo ds body (maskLiterals body) = a ++ (clause ds ++ off) := by
  cases hh : firstHit? trailingOffset (maskLiterals body) with
  | none =>
    refine ⟨body, [], (List.append_nil _).symm, (List.append_nil _).symm, .inl rfl, ?_⟩
    simp only [addTo, hh, List.append_nil]
  | some h =>
    obtain ⟨p, off, rest, hp, -, hread, hstart, -⟩ := firstHit?_eq_some hh
    have hoff : isOffset off = true := by
      by_contra hno
      rw [trailingOffset, if_neg hno] at hread
      cases hread
    obtain ⟨a, rfl, hlen, rfl⟩ := exists_eq_append_of_maskLiterals hp
      ((madeOf_of_isOffset hoff).not_mem (by decide) (by decide) (by decide))
    refine ⟨a, off, rfl, hp, .inr hoff, ?_⟩
    simp only [addTo, hh]
    rw [hstart, ← hlen, List.take_left, List.drop_left, List.append_assoc]

/-- What bounding makes of a body: the bound was low enough, or it was lowered, or one was added. -/
theorem body_eq_ok (h : Bound.body cap body = .ok (bounded, effect)) :
    (∃ hit n, (firstHit? trailingLimit (maskLiterals body) <|>
        firstHit? trailingFetch (maskLiterals body)) = some hit ∧
      number? hit.value = .ok (some n) ∧ n ≤ cap.rows ∧ bounded = body ∧ effect = .within n) ∨
    (∃ hit ds asked, (firstHit? trailingLimit (maskLiterals body) <|>
        firstHit? trailingFetch (maskLiterals body)) = some hit ∧
      hit.value.written ≠ [] ∧ number? hit.value = .ok asked ∧
      (∀ n, asked = some n → cap.rows < n) ∧ writeDigits cap.rows = .ok ds ∧
      bounded = lowerTo ds body hit.value.span ∧ effect = .lowered asked) ∨
    ∃ ds, writeDigits cap.rows = .ok ds ∧ bounded = addTo ds body (maskLiterals body) ∧
      effect = .added := by
  unfold Bound.body at h
  simp only at h
  cases hh : (firstHit? trailingLimit (maskLiterals body) <|>
    firstHit? trailingFetch (maskLiterals body)) with
  | none =>
    rw [hh] at h
    obtain ⟨ds, hds, h⟩ := bind_eq_ok_iff.1 h
    obtain ⟨rfl, rfl⟩ := Prod.mk.inj (Except.ok.inj h)
    exact .inr (.inr ⟨ds, hds, rfl, rfl⟩)
  | some hit =>
    rw [hh] at h
    obtain ⟨asked, hasked, h⟩ := bind_eq_ok_iff.1 h
    have hwritten : asked ≠ some 1 → hit.value.written ≠ [] := by
      intro hne hnil
      rw [number?, hnil, List.isEmpty_nil, if_pos rfl] at hasked
      exact hne (Except.ok.inj hasked).symm
    cases asked with
    | none =>
      obtain ⟨ds, hds, h⟩ := bind_eq_ok_iff.1 h
      obtain ⟨rfl, rfl⟩ := Prod.mk.inj (Except.ok.inj h)
      exact .inr (.inl ⟨hit, ds, none, rfl, hwritten (by simp), hasked, nofun, hds, rfl, rfl⟩)
    | some n =>
      simp only at h
      split at h
      · rename_i hn
        obtain ⟨rfl, rfl⟩ := Prod.mk.inj (Except.ok.inj h)
        exact .inl ⟨hit, n, rfl, hasked, hn, rfl, rfl⟩
      · rename_i hn
        obtain ⟨ds, hds, h⟩ := bind_eq_ok_iff.1 h
        obtain ⟨rfl, rfl⟩ := Prod.mk.inj (Except.ok.inj h)
        refine .inr (.inl ⟨hit, ds, some n, rfl, hwritten fun h1 => hn ?_, hasked,
          fun m hm => ?_, hds, rfl, rfl⟩)
        -- Without a number one row is asked for, and no cap is lower.
        · rw [Option.some.inj h1]
          exact cap.rows_pos
        · rw [← Option.some.inj hm]
          exact Nat.lt_of_not_le hn

theorem getLast?_append_digits {u ds tail : Text} (hds : IsDigitRun ds)
    (ht : tail.getLast?.any isBlank = false) :
    (u ++ (ds ++ tail)).getLast?.any isBlank = false := by
  rw [List.getLast?_append, List.getLast?_append]
  cases tail with
  | cons c t =>
    rw [List.getLast?_cons] at ht ⊢
    exact ht
  | nil =>
    rw [List.getLast?_nil, Option.none_or, List.getLast?_eq_some_getLast hds.1]
    exact isBlank_eq_false_of_isDecimalDigit (hds.2 _ (List.getLast_mem _))

theorem getLast?_any_of_append {u tail : Text} (h : (u ++ tail).getLast?.any isBlank = false) :
    tail.getLast?.any isBlank = false := by
  cases tail with
  | nil => rfl
  | cons c t =>
    rw [List.getLast?_append, List.getLast?_cons] at h
    rwa [List.getLast?_cons]

theorem isDigitRun_of_writeDigits {n : Nat} {ds : Text} (h : writeDigits n = .ok ds) :
    IsDigitRun ds := by
  obtain ⟨rfl, -⟩ := writeDigits_eq_ok h
  exact ⟨Text.ofNat_ne_nil n, fun c hc => isDecimalDigit_of_isDigit (Text.isDigit_of_mem_ofNat hc)⟩

/-- A clause with the cap for its number, perhaps after blanks, at the end of what is left of a
body. -/
theorem endBounded_of_clause {a x g head ds tail : Text} (hx : ';' ∉ x) (hg : allBlank g = true)
    (hp : atWordStart (maskLiterals a ++ g).reverse = true) (hds : writeDigits cap.rows = .ok ds)
    (hc : IsBoundClause head ds tail) (hhead : (a ++ (g ++ head)).head?.any isBlank = false)
    (hlast : (a ++ x).getLast?.any isBlank = false) (htail : ∃ z, x = z ++ tail) :
    EndBounded cap (a ++ x) (a ++ (g ++ (head ++ (ds ++ tail)))) := by
  have hd := isDigitRun_of_writeDigits hds
  have hmade : MadeOf "limtaoferwchnsxy" (g ++ (head ++ (ds ++ tail))) :=
    (MadeOf.of_allBlank hg).append hc.madeOf
  have hne : a ++ (g ++ head) ≠ [] := fun hnil =>
    hc.head_ne_nil (List.append_eq_nil_iff.1 (List.append_eq_nil_iff.1 hnil).2).2
  refine ⟨⟨a, x, _, rfl, rfl, hx, ?_, ?_⟩, ?_, ?_, cap.rows, Nat.le_refl _, ?_⟩
  · exact hmade.not_mem (by decide) (by decide) (by decide)
  · exact fun hnil => hc.head_ne_nil
      (List.append_eq_nil_iff.1 (List.append_eq_nil_iff.1 hnil).2).1
  · rw [← List.append_assoc g, ← List.append_assoc, head?_append_any hne]
    exact hhead
  · obtain ⟨z, rfl⟩ := htail
    rw [← List.append_assoc g, ← List.append_assoc]
    exact getLast?_append_digits hd (getLast?_any_of_append (getLast?_any_of_append hlast))
  · rw [maskLiterals_append_of_not_mem a (hmade.not_mem (by decide) (by decide) (by decide)),
      ← List.append_assoc]
    exact hc.limitAtEnd? hp hd (readDigits_of_writeDigits hds)

section

variable (hhead : body.head?.any isBlank = false) (hlast : body.getLast?.any isBlank = false)
include hhead hlast

theorem endBounded_within {hit : Hit WrittenBound} {n : Nat}
    (hh : (firstHit? trailingLimit (maskLiterals body) <|>
      firstHit? trailingFetch (maskLiterals body)) = some hit)
    (hn : number? hit.value = .ok (some n)) (hle : n ≤ cap.rows) : EndBounded cap body body := by
  obtain ⟨a, head, written, tail, rfl, -, hc, -⟩ := exists_clause_of_body hh
  have hsemi : ';' ∉ head ++ (written ++ tail) :=
    hc.madeOf.not_mem (by decide) (by decide) (by decide)
  exact ⟨⟨a, _, _, rfl, rfl, hsemi, hsemi,
    fun hnil => hc.head_ne_nil (List.append_eq_nil_iff.1 hnil).1⟩, hhead, hlast, n, hle,
    limitAtEnd?_of_firstHit? hh hn⟩

theorem endBounded_lowered {hit : Hit WrittenBound} {ds : Text}
    (hh : (firstHit? trailingLimit (maskLiterals body) <|>
      firstHit? trailingFetch (maskLiterals body)) = some hit)
    (hw : hit.value.written ≠ []) (hds : writeDigits cap.rows = .ok ds) :
    EndBounded cap body (lowerTo ds body hit.value.span) := by
  obtain ⟨a, head, written, tail, rfl, hp, hc, hv⟩ := exists_clause_of_body hh
  rw [hv] at hw ⊢
  rw [lowerTo_append]
  have hne : a ++ head ≠ [] := fun hnil => hc.head_ne_nil (List.append_eq_nil_iff.1 hnil).2
  rw [← List.append_assoc, head?_append_any hne] at hhead
  exact endBounded_of_clause (g := [])
    (hc.madeOf.not_mem (by decide) (by decide) (by decide)) rfl (by rwa [List.append_nil]) hds
    (hc.replace hw (isDigitRun_of_writeDigits hds)) hhead hlast
    ⟨head ++ written, by rw [List.append_assoc]⟩

theorem endBounded_added {ds : Text} (hne : body ≠ []) (hds : writeDigits cap.rows = .ok ds) :
    EndBounded cap body (addTo ds body (maskLiterals body)) := by
  obtain ⟨a, off, rfl, hmask, hoff, hadd⟩ := exists_addTo_eq ds body
  have hsemi : ';' ∉ off := by
    rcases hoff with rfl | hoff
    · simp
    · exact (madeOf_of_isOffset hoff).not_mem (by decide) (by decide) (by decide)
  have ha : a ≠ [] := by
    rintro rfl
    rcases hoff with rfl | hoff
    · exact hne rfl
    · rw [List.nil_append, head?_any_isBlank_of_isOffset hoff] at hhead
      cases hhead
  have hc : LimitClause "LIMIT " ds off :=
    ⟨⟨"LIMIT", " ", rfl, rfl, by decide, by decide⟩, .inl (isDigitRun_of_writeDigits hds),
      hoff.imp (fun h => by rw [h]; rfl) id⟩
  rw [head?_append_any ha] at hhead
  -- The blank in front of the clause ends the word before it.
  have hclause : clause ds ++ off = [' '] ++ (("LIMIT " : Text) ++ (ds ++ off)) := rfl
  rw [hadd, hclause]
  exact endBounded_of_clause (g := [' ']) hsemi (by decide)
    (by rw [List.reverse_append]; rfl) hds (.inl hc) (by rwa [head?_append_any ha]) hlast
    ⟨[], rfl⟩

/-- What bounding makes of a body without blanks around it. -/
theorem endBounded_of_body (h : Bound.body cap body = .ok (bounded, effect)) (hne : body ≠ []) :
    EndBounded cap body bounded := by
  rcases body_eq_ok h with ⟨hit, n, hh, hn, hle, rfl, -⟩ | ⟨hit, ds, -, hh, hw, -, -, hds, rfl, -⟩ |
    ⟨ds, hds, rfl, -⟩
  · exact endBounded_within hhead hlast hh hn hle
  · exact endBounded_lowered hhead hlast hh hw hds
  · exact endBounded_added hhead hlast hne hds

end

end Bound

/-! ## Whole queries -/

theorem getLast?_withoutSemicolon (sql : Text) :
    (withoutSemicolon sql).1.getLast?.any isBlank = false := by
  rw [withoutSemicolon]
  split
  · exact getLast?_trimEnd _
  · exact getLast?_trimEnd _

theorem exists_withoutSemicolon_cons {sql : Text} (h : isSelect sql = true) :
    ∃ c u, (withoutSemicolon sql).1 = c :: u ∧ isBlank c = false := by
  obtain ⟨rest, hrest, -⟩ := (Option.any_eq_true ..).1 h
  obtain ⟨w, hw, hs⟩ := keyword?_eq_some_iff.1 hrest
  cases w with
  | nil => cases hs
  | cons c w =>
    have hfold : foldLetter c = 's' := (List.cons.inj hs).1
    have hblank : isBlank c = false :=
      isBlank_eq_false_of_isWordChar (isWordChar_of_isLower_foldLetter (by rw [hfold]; rfl))
    obtain ⟨u, hu⟩ := exists_trimEnd_cons hblank (w ++ rest)
    have htrim : trim sql = c :: u := by
      rw [trim, hw]
      exact hu
    rw [withoutSemicolon, htrim]
    split
    · rename_i hlast
      cases u with
      | nil =>
        -- The word is no semicolon.
        obtain rfl := Option.some.inj hlast
        cases hfold
      | cons d u =>
        obtain ⟨v, hv⟩ := exists_trimEnd_cons hblank (d :: u).dropLast
        exact ⟨c, v, hv, hblank⟩
    · exact ⟨c, u, rfl, hblank⟩

/-- What bounding makes of a `SELECT`, apart from the blanks around it. -/
theorem bound_eq_ok {cap : RowCap} {sql : Text} {b : Bounded} (h : bound cap sql = .ok b)
    (hs : isSelect sql = true) :
    ∃ bounded, EndBounded cap (withoutSemicolon sql).1 bounded ∧
      b.sql = if (withoutSemicolon sql).2 then bounded ++ [';'] else bounded := by
  rw [bound, if_pos hs] at h
  obtain ⟨⟨bounded, effect⟩, hbody, h⟩ := bind_eq_ok_iff.1 h
  obtain ⟨c, u, hu, hc⟩ := exists_withoutSemicolon_cons hs
  obtain rfl := Except.ok.inj h
  refine ⟨bounded, Bound.endBounded_of_body ?_ (getLast?_withoutSemicolon sql) hbody ?_, rfl⟩
  · rw [hu]
    exact hc
  · rw [hu]
    exact List.cons_ne_nil _ _

namespace EndBounded

variable {cap : RowCap} {body bounded : Text}

theorem getLast?_ne_semicolon (h : EndBounded cap body bounded) : bounded.getLast? ≠ some ';' := by
  obtain ⟨a, x, y, -, rfl, -, hy, hne⟩ := h.ends
  rw [List.getLast?_append, List.getLast?_eq_some_getLast hne, Option.some_or]
  exact fun hlast => hy (Option.some.inj hlast ▸ List.getLast_mem hne)

theorem ne_nil (h : EndBounded cap body bounded) : bounded ≠ [] := by
  obtain ⟨a, x, y, -, rfl, -, -, hne⟩ := h.ends
  exact fun hnil => hne (List.append_eq_nil_iff.1 hnil).2

theorem semicolon_mem_iff (h : EndBounded cap body bounded) : ';' ∈ bounded ↔ ';' ∈ body := by
  obtain ⟨a, x, y, rfl, rfl, hx, hy, -⟩ := h.ends
  simp [hx, hy]

theorem takeWhile_eq (h : EndBounded cap body bounded) (hmem : ';' ∈ body) :
    bounded.takeWhile (· != ';') = body.takeWhile (· != ';') := by
  obtain ⟨a, x, y, rfl, rfl, hx, -, -⟩ := h.ends
  have ha : ';' ∈ a := (List.mem_append.1 hmem).resolve_right hx
  obtain ⟨u, v, rfl, hu⟩ := List.eq_append_cons_of_mem ha
  have hall : ∀ c ∈ u, (c != ';') = true := bne_of_not_mem hu
  rw [List.append_assoc, List.append_assoc, takeWhile_append_of_all hall rfl,
    takeWhile_append_of_all hall rfl]

theorem trim_semicolon (h : EndBounded cap body bounded) :
    trim (bounded ++ [';']) = bounded ++ [';'] := by
  apply trim_eq_self
  · rw [head?_append_any h.ne_nil]
    exact h.head
  · rw [List.getLast?_concat]
    rfl

/-- The body that bounding leaves is found again, with its semicolon. -/
theorem withoutSemicolon_mk (h : EndBounded cap body bounded) (semicolon : Bool) :
    withoutSemicolon (if semicolon then bounded ++ [';'] else bounded) = (bounded, semicolon) := by
  unfold withoutSemicolon
  cases semicolon with
  | false =>
    simp only [Bool.false_eq_true, ite_false, trim_eq_self h.head h.last]
    split
    · rename_i hlast
      exact absurd hlast h.getLast?_ne_semicolon
    · rfl
  | true =>
    simp only [ite_true, h.trim_semicolon, List.getLast?_concat, List.dropLast_concat,
      trimEnd_eq_self h.last]

theorem withoutSemicolon_eq (h : EndBounded cap body bounded) (semicolon : Bool) :
    (withoutSemicolon (if semicolon then bounded ++ [';'] else bounded)).1 = bounded := by
  rw [h.withoutSemicolon_mk]

theorem outerLimit?_eq (h : EndBounded cap body bounded) :
    outerLimit? bounded = limitAtEnd? (maskLiterals bounded) := by
  rw [QueryGate.outerLimit?_eq, trim_eq_self h.head h.last,
    trimEndOf_eq_self h.getLast?_ne_semicolon,
    trimEnd_eq_self h.last]

end EndBounded

end QueryGate
