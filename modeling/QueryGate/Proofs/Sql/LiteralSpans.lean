import QueryGate.Proofs.Sql.LiteralMask
import QueryGate.Proofs.Text.Parts

/-!
# The string literals of a text

The literals of a text are the parts whose insides the mask blots out. What stands in front of the
first apostrophe or behind the last has no part in them: it may be put in, taken off or replaced,
and every literal is kept, in order (`literals_append`, `literals_prepend`).

At a place outside literals a text can be cut: what stands before it and what stands behind it have
the literals that they have on their own (`literalSpans_cut`). A place with an odd number of
apostrophes before it and one more behind it lies inside a literal (`exists_literalSpan_of_odd`).
-/

namespace QueryGate

/-- The spans of the literals of a text that begins at `offset`, given that its next `inside`
characters belong to a literal that was opened before. -/
def literalSpansFrom : (offset inside : Nat) → Text → List Span
  | _, _, [] => []
  | offset, n + 1, _ :: t => literalSpansFrom (offset + 1) n t
  | offset, 0, c :: t =>
    match if c == '\'' then literalTail? t else none with
    | some n => ⟨offset, offset + 1 + n⟩ :: literalSpansFrom (offset + 1) n t
    | none => literalSpansFrom (offset + 1) 0 t

/-- The spans of the string literals of a text, their delimiters included. -/
def literalSpans (t : Text) : List Span := literalSpansFrom 0 0 t

/-- The string literals of a text, as written. -/
def literals (t : Text) : List Text := (literalSpans t).map fun s => Text.slice t s.start s.stop

/-- A place is in none of the literals. -/
def OutsideLiterals (t : Text) (n : Nat) : Prop :=
  ∀ s ∈ literalSpans t, n ≤ s.start ∨ s.stop ≤ n

/-! ## Steps of the scan -/

section Steps

variable {o n : Nat} {t a b : Text}

theorem literalSpansFrom_cons {c : Char} (hc : c ≠ '\'') :
    literalSpansFrom o 0 (c :: t) = literalSpansFrom (o + 1) 0 t := by
  rw [literalSpansFrom, if_neg (by simpa using hc)]

theorem literalSpansFrom_closed (h : literalTail? t = some n) :
    literalSpansFrom o 0 ('\'' :: t) = ⟨o, o + 1 + n⟩ :: literalSpansFrom (o + 1) n t := by
  rw [literalSpansFrom, if_pos (by decide), h]

theorem literalSpansFrom_open (h : literalTail? t = none) :
    literalSpansFrom o 0 ('\'' :: t) = literalSpansFrom (o + 1) 0 t := by
  rw [literalSpansFrom, if_pos (by decide), h]

/-- A literal lies in the text. -/
theorem stop_le_of_mem_literalSpansFrom (hn : n ≤ t.length) {s : Span}
    (hs : s ∈ literalSpansFrom o n t) : s.stop ≤ o + t.length := by
  induction t generalizing o n with
  | nil => cases hs
  | cons c t ih =>
    have hlater {m : Nat} (hm : m ≤ t.length) (hs : s ∈ literalSpansFrom (o + 1) m t) :
        s.stop ≤ o + (c :: t).length := by
      have := ih hm hs
      rw [List.length_cons]
      omega
    cases n with
    | succ n => exact hlater (Nat.le_of_succ_le_succ hn) hs
    | zero =>
      by_cases hc : c = '\''
      · subst hc
        cases hk : literalTail? t with
        | none =>
          rw [literalSpansFrom_open hk] at hs
          exact hlater (Nat.zero_le _) hs
        | some k =>
          have hle := literalTail?_le_length hk
          rw [literalSpansFrom_closed hk] at hs
          rcases List.mem_cons.1 hs with rfl | hs
          · rw [List.length_cons]
            simp only
            omega
          · exact hlater hle hs
      · rw [literalSpansFrom_cons hc] at hs
        exact hlater (Nat.zero_le _) hs

/-! ## Around the apostrophes -/

theorem literalTail?_append (hb : '\'' ∉ b) : literalTail? (a ++ b) = literalTail? a := by
  have hb' := literalTail?_eq_none_iff.2 hb
  have hhead : b.head? ≠ some '\'' := fun h => hb (List.mem_of_mem_head? h)
  fun_induction literalTail? a with
  | case1 => exact hb'
  | case2 t n hn ih => simp only [List.cons_append, literalTail?, ih, hn]
  | case3 t hn ih => simp only [List.cons_append, literalTail?, ih, hn]
  | case4 c t hne hc =>
    obtain rfl := beq_iff_eq.1 hc
    refine literalTail?_apostrophe (head?_append_ne_of_ne ?_ hhead)
    intro ht
    obtain ⟨u, rfl⟩ := List.head?_eq_some_iff.1 ht
    exact hne u rfl rfl
  | case5 c t hne hc ih =>
    rw [List.cons_append, literalTail?_cons (by simpa using hc), ih]

theorem literalSpansFrom_eq_nil (hb : '\'' ∉ b) : literalSpansFrom o 0 b = [] := by
  induction b generalizing o with
  | nil => rfl
  | cons c b ih =>
    obtain ⟨hc, hb⟩ := List.ne_and_not_mem_of_not_mem_cons hb
    rw [literalSpansFrom_cons hc.symm, ih hb]

theorem literalSpansFrom_append (hb : '\'' ∉ b) (hn : n ≤ a.length) :
    literalSpansFrom o n (a ++ b) = literalSpansFrom o n a := by
  induction a generalizing o n with
  | nil =>
    obtain rfl := Nat.le_zero.1 hn
    exact literalSpansFrom_eq_nil hb
  | cons c a ih =>
    cases n with
    | succ n => exact ih (Nat.le_of_succ_le_succ hn)
    | zero =>
      rw [List.cons_append]
      by_cases hc : c = '\''
      · subst hc
        have htail := @literalTail?_append a b hb
        cases hk : literalTail? a with
        | none =>
          rw [literalSpansFrom_open (htail.trans hk), literalSpansFrom_open hk, ih (Nat.zero_le _)]
        | some k =>
          rw [literalSpansFrom_closed (htail.trans hk), literalSpansFrom_closed hk,
            ih (literalTail?_le_length hk)]
      · rw [literalSpansFrom_cons hc, literalSpansFrom_cons hc, ih (Nat.zero_le _)]

theorem literalSpansFrom_prepend {g : Text} (hg : '\'' ∉ g) :
    literalSpansFrom o 0 (g ++ t) = literalSpansFrom (o + g.length) 0 t := by
  induction g generalizing o with
  | nil => rfl
  | cons c g ih =>
    obtain ⟨hc, hg⟩ := List.ne_and_not_mem_of_not_mem_cons hg
    rw [List.cons_append, literalSpansFrom_cons hc.symm, ih hg, List.length_cons]
    congr 1
    omega

/-- The offset at which a text begins moves its literals along. -/
theorem literalSpansFrom_shift (k : Nat) :
    literalSpansFrom (k + o) n t =
      (literalSpansFrom o n t).map fun s => ⟨k + s.start, k + s.stop⟩ := by
  induction t generalizing o n with
  | nil => rfl
  | cons c t ih =>
    cases n with
    | succ n => exact ih (o := o + 1)
    | zero =>
      by_cases hc : c = '\''
      · subst hc
        cases hk : literalTail? t with
        | none =>
          rw [literalSpansFrom_open hk, literalSpansFrom_open hk]
          exact ih (o := o + 1)
        | some m =>
          rw [literalSpansFrom_closed hk, literalSpansFrom_closed hk, List.map_cons, ← ih]
          simp only [Nat.add_assoc]
      · rw [literalSpansFrom_cons hc, literalSpansFrom_cons hc]
        exact ih (o := o + 1)

end Steps

/-! ## The literals kept -/

section Kept

variable {a b g t : Text}

theorem stop_le_of_mem_literalSpans {s : Span} (hs : s ∈ literalSpans t) : s.stop ≤ t.length := by
  have hstop := stop_le_of_mem_literalSpansFrom (Nat.zero_le _) hs
  rwa [Nat.zero_add] at hstop

theorem slices_append {spans : List Span} (h : ∀ s ∈ spans, s.stop ≤ a.length) :
    spans.map (fun s => Text.slice (a ++ b) s.start s.stop) =
      spans.map fun s => Text.slice a s.start s.stop := by
  refine List.map_congr_left fun s hs => ?_
  rw [Text.slice, Text.slice, List.take_append_of_le_length (h s hs)]

theorem slices_shift (spans : List Span) :
    (spans.map fun s => (⟨g.length + s.start, g.length + s.stop⟩ : Span)).map
        (fun s => Text.slice (g ++ t) s.start s.stop) =
      spans.map fun s => Text.slice t s.start s.stop := by
  rw [List.map_map]
  refine List.map_congr_left fun s _ => ?_
  rw [Function.comp_apply, Text.slice, Text.slice, List.take_length_add_append,
    List.drop_length_add_append]

theorem literals_append (hb : '\'' ∉ b) : literals (a ++ b) = literals a := by
  rw [literals, literalSpans, literalSpansFrom_append hb (Nat.zero_le _)]
  exact slices_append fun s hs => stop_le_of_mem_literalSpans hs

theorem literals_prepend (hg : '\'' ∉ g) : literals (g ++ t) = literals t := by
  rw [literals, literalSpans, literalSpansFrom_prepend hg, Nat.zero_add, ← Nat.add_zero g.length,
    literalSpansFrom_shift]
  exact slices_shift _

/-- No literal reaches beyond the last apostrophe. -/
theorem outsideLiterals_append (hb : '\'' ∉ b) : OutsideLiterals (a ++ b) a.length := by
  intro s hs
  rw [literalSpans, literalSpansFrom_append hb (Nat.zero_le _)] at hs
  exact .inr (stop_le_of_mem_literalSpans hs)

end Kept

/-! ## Reading on from a place -/

/-- How many characters of a text that begins inside or outside a literal belong to that literal. -/
def literalRest : (inside : Bool) → Text → Nat
  | false, _ => 0
  | true, t => (literalTail? t).getD 0

/-- The spans of the literals of a text that begins at `offset`, inside or outside a literal. -/
def literalSpansAs (inside : Bool) (offset : Nat) (t : Text) : List Span :=
  literalSpansFrom offset (literalRest inside t) t

section Steps

variable {c : Char} {o : Nat} {t : Text}

theorem literalRest_closing (ht : t.head? ≠ some '\'') : literalRest true ('\'' :: t) = 1 := by
  rw [literalRest, literalTail?_apostrophe ht]
  rfl

theorem literalRest_escape (ht : '\'' ∈ t) :
    literalRest true ('\'' :: '\'' :: t) = literalRest true t + 2 := by
  cases hk : literalTail? t with
  | none => exact absurd ht (literalTail?_eq_none_iff.1 hk)
  | some k => simp only [literalRest, literalTail?, hk, Option.getD_some]

theorem literalRest_masked (hc : c ≠ '\'') (ht : '\'' ∈ t) :
    literalRest true (c :: t) = literalRest true t + 1 := by
  cases hk : literalTail? t with
  | none => exact absurd ht (literalTail?_eq_none_iff.1 hk)
  | some k => simp only [literalRest, literalTail?_cons hc, hk, Option.map_some, Option.getD_some]

theorem literalSpansAs_opening (ht : '\'' ∈ t) : literalSpansAs false o ('\'' :: t) =
    ⟨o, o + 1 + literalRest true t⟩ :: literalSpansAs true (o + 1) t := by
  cases hk : literalTail? t with
  | none => exact absurd ht (literalTail?_eq_none_iff.1 hk)
  | some k =>
    rw [literalSpansAs, literalRest, literalSpansFrom_closed hk, literalSpansAs, literalRest, hk]
    rfl

theorem literalSpansAs_plain (hc : c ≠ '\'') :
    literalSpansAs false o (c :: t) = literalSpansAs false (o + 1) t := literalSpansFrom_cons hc

theorem literalSpansAs_closing (ht : t.head? ≠ some '\'') :
    literalSpansAs true o ('\'' :: t) = literalSpansAs false (o + 1) t := by
  rw [literalSpansAs, literalRest_closing ht]
  rfl

theorem literalSpansAs_escape (ht : '\'' ∈ t) :
    literalSpansAs true o ('\'' :: '\'' :: t) = literalSpansAs true (o + 2) t := by
  rw [literalSpansAs, literalRest_escape ht]
  rfl

theorem literalSpansAs_masked (hc : c ≠ '\'') (ht : '\'' ∈ t) :
    literalSpansAs true o (c :: t) = literalSpansAs true (o + 1) t := by
  rw [literalSpansAs, literalRest_masked hc ht]
  rfl

end Steps

section Parts

variable {inside : Bool} {a b r : Text}

theorem EndsOutside.literalRest_append (h : EndsOutside inside a) (hb : b.head? ≠ some '\'') :
    literalRest inside (a ++ b) = literalRest inside a := by
  induction h with
  | nil | opening | plain => rfl
  | closing ha _ =>
    rw [literalRest_closing ha]
    exact literalRest_closing (head?_append_ne_of_ne ha hb)
  | escape h ih =>
    rw [literalRest_escape h.apostrophe_mem, ← ih]
    exact literalRest_escape (List.mem_append_left b h.apostrophe_mem)
  | masked hc h ih =>
    rw [literalRest_masked hc h.apostrophe_mem, ← ih]
    exact literalRest_masked hc (List.mem_append_left b h.apostrophe_mem)

/-- Behind a place outside literals the literals are found anew. -/
theorem EndsOutside.literalSpansAs_append (h : EndsOutside inside a) (hb : b.head? ≠ some '\'')
    (o : Nat) : literalSpansAs inside o (a ++ b) =
      literalSpansAs inside o a ++ literalSpansAs false (o + a.length) b := by
  induction h generalizing o with
  | nil => rfl
  | @opening a h ih =>
    have ha := h.apostrophe_mem
    rw [List.cons_append, literalSpansAs_opening (List.mem_append_left b ha),
      literalSpansAs_opening ha, h.literalRest_append hb, ih, Text.add_length_cons]
    rfl
  | plain hc h ih =>
    rw [List.cons_append, literalSpansAs_plain hc, literalSpansAs_plain hc, ih,
      Text.add_length_cons]
  | closing ha h ih =>
    rw [List.cons_append, literalSpansAs_closing (head?_append_ne_of_ne ha hb),
      literalSpansAs_closing ha, ih, Text.add_length_cons]
  | escape h ih =>
    have ha := h.apostrophe_mem
    rw [List.cons_append, List.cons_append, literalSpansAs_escape (List.mem_append_left b ha),
      literalSpansAs_escape ha, ih, Text.add_length_cons, Text.add_length_cons]
  | masked hc h ih =>
    have ha := h.apostrophe_mem
    rw [List.cons_append, literalSpansAs_masked hc (List.mem_append_left b ha),
      literalSpansAs_masked hc ha, ih, Text.add_length_cons]

theorem literalRest_pos {t : Text} (ht : '\'' ∈ t) : 0 < literalRest true t := by
  cases hk : literalTail? t with
  | none => exact absurd ht (literalTail?_eq_none_iff.1 hk)
  | some k =>
    rw [literalRest, hk]
    exact Nat.pos_of_ne_zero fun h0 => literalTail?_ne_zero t (h0 ▸ hk)

/-- A place inside a literal that an apostrophe behind it closes: the literal is the one that the
text begins in, or it is found before the place and reaches beyond it. -/
theorem exists_literalSpan_around (hr : r.head? ≠ some '\'') (hmem : '\'' ∈ r)
    (h : ¬ EndsOutside inside a) :
    inside = true ∧ a.length < literalRest inside (a ++ r) ∨
      ∀ o, ∃ s ∈ literalSpansAs inside o (a ++ r),
        s.start < o + a.length ∧ o + a.length < s.stop := by
  have hmem (a : Text) : '\'' ∈ a ++ r := List.mem_append_right a hmem
  induction inside, a using maskAs_induction with
  | nil inside =>
    cases inside with
    | false => exact absurd .nil h
    | true => exact .inl ⟨rfl, literalRest_pos (hmem [])⟩
  | opening a ih =>
    refine .inr fun o => ?_
    rw [List.cons_append, literalSpansAs_opening (hmem a), Text.add_length_cons]
    rcases ih fun hends => h (.opening hends) with ⟨-, hlt⟩ | hlater
    · exact ⟨_, List.mem_cons_self, by simp only; omega, by simp only; omega⟩
    · obtain ⟨s, hs, hbounds⟩ := hlater (o + 1)
      exact ⟨s, List.mem_cons_of_mem _ hs, hbounds⟩
  | plain c a hc ih =>
    refine .inr fun o => ?_
    rw [List.cons_append, literalSpansAs_plain hc, Text.add_length_cons]
    have hafter := ih fun hends => h (.plain hc hends)
    exact (hafter.resolve_left fun h => Bool.noConfusion h.1) (o + 1)
  | closing a ha ih =>
    refine .inr fun o => ?_
    rw [List.cons_append, literalSpansAs_closing (head?_append_ne_of_ne ha hr),
      Text.add_length_cons]
    have hafter := ih fun hends => h (.closing ha hends)
    exact (hafter.resolve_left fun h => Bool.noConfusion h.1) (o + 1)
  | escape a ih =>
    rw [List.cons_append, List.cons_append, literalRest_escape (hmem a)]
    rcases ih fun hends => h (.escape hends) with ⟨-, hlt⟩ | hlater
    · exact .inl ⟨rfl, Nat.succ_lt_succ (Nat.succ_lt_succ hlt)⟩
    · refine .inr fun o => ?_
      rw [literalSpansAs_escape (hmem a), Text.add_length_cons, Text.add_length_cons]
      exact hlater (o + 2)
  | masked c a hc ih =>
    rw [List.cons_append, literalRest_masked hc (hmem a)]
    rcases ih fun hends => h (.masked hc hends) with ⟨-, hlt⟩ | hlater
    · exact .inl ⟨rfl, Nat.succ_lt_succ hlt⟩
    · refine .inr fun o => ?_
      rw [literalSpansAs_masked hc (hmem a), Text.add_length_cons]
      exact hlater (o + 1)

/-- At a place behind an odd number of apostrophes a literal is open, if it is closed at all. -/
theorem exists_literalSpan_of_odd (hr : r.head? ≠ some '\'') (hmem : '\'' ∈ r)
    (hodd : a.count '\'' % 2 = 1) :
    ∃ s ∈ literalSpans (a ++ r), s.start < a.length ∧ a.length < s.stop := by
  have hinside : ¬ EndsOutside false a := by
    rw [endsOutside_iff, hodd]
    decide
  rcases exists_literalSpan_around hr hmem hinside with ⟨hfalse, -⟩ | haround
  · cases hfalse
  · obtain ⟨s, hs, hstart, hstop⟩ := haround 0
    rw [Nat.zero_add] at hstart hstop
    exact ⟨s, hs, hstart, hstop⟩

end Parts

/-! ## Cutting at a part -/

section Even

variable {a b : Text} (ha : a.count '\'' % 2 = 0) (hb : b.head? ≠ some '\'')

include ha hb

theorem literalSpans_append_of_even : literalSpans (a ++ b) =
    literalSpans a ++ (literalSpans b).map fun s => ⟨a.length + s.start, a.length + s.stop⟩ := by
  have h : EndsOutside false a := endsOutside_iff.2 ha
  have happend := h.literalSpansAs_append hb 0
  rw [Nat.zero_add] at happend
  exact happend.trans (congrArg _ (literalSpansFrom_shift (o := 0) a.length))

theorem literals_append_of_even : literals (a ++ b) = literals a ++ literals b := by
  unfold literals
  rw [literalSpans_append_of_even ha hb, List.map_append, slices_shift,
    slices_append fun s hs => stop_le_of_mem_literalSpans hs]

end Even

section Cut

variable {a b x : Text} (hx : '\'' ∉ x)
  (hcut : a.count '\'' % 2 = 0 ∧ x ≠ [] ∨ '\'' ∉ b)

theorem head?_append_ne_apostrophe (hx : '\'' ∉ x) (hne : x ≠ []) :
    (x ++ b).head? ≠ some '\'' := by
  cases x with
  | nil => exact absurd rfl hne
  | cons c x => exact fun h => hx (List.mem_of_mem_head? h)

include hx hcut

/-- A part without apostrophes outside literals stands in the mask as in the text, between the masks
of what stands around it. -/
theorem maskLiterals_cut :
    maskLiterals (a ++ (x ++ b)) = maskLiterals a ++ (x ++ maskLiterals b) := by
  rcases hcut with ⟨ha, hne⟩ | hb
  · rw [maskLiterals_append_of_even ha (.inr (head?_append_ne_apostrophe hx hne)),
      maskLiterals_prepend hx]
  · have hxb : '\'' ∉ x ++ b := fun h => (List.mem_append.1 h).elim hx hb
    rw [maskLiterals_append_of_not_mem a hxb, maskLiterals_eq_self hb]

theorem literalSpans_cut : literalSpans (a ++ (x ++ b)) = literalSpans a ++
    (literalSpans (x ++ b)).map fun s => ⟨a.length + s.start, a.length + s.stop⟩ := by
  rcases hcut with ⟨ha, hne⟩ | hb
  · exact literalSpans_append_of_even ha (head?_append_ne_apostrophe hx hne)
  · have hxb : '\'' ∉ x ++ b := fun h => (List.mem_append.1 h).elim hx hb
    have hnone : literalSpans (x ++ b) = [] := literalSpansFrom_eq_nil hxb
    rw [hnone, List.map_nil, List.append_nil, literalSpans,
      literalSpansFrom_append hxb (Nat.zero_le _), literalSpans]

theorem literals_cut : literals (a ++ (x ++ b)) = literals a ++ literals b := by
  rcases hcut with ⟨ha, hne⟩ | hb
  · rw [literals_append_of_even ha (head?_append_ne_apostrophe hx hne), literals_prepend hx]
  · have hxb : '\'' ∉ x ++ b := fun h => (List.mem_append.1 h).elim hx hb
    have hnone : literals b = [] := congrArg _ (literalSpansFrom_eq_nil hb)
    rw [literals_append hxb, hnone, List.append_nil]

end Cut

/-- Of two apostrophes inside a literal neither ends it, and a literal that is not closed is
none. -/
example : literals "SELECT 'it''s' || '' || 'open".toList = [("'it''s'" : Text), "''"] := by decide

end QueryGate
