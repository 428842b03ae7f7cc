import Mathlib.Data.List.Pairwise
import Mathlib.Data.List.Sort
import QueryGate.Proofs.Text.Parts
import QueryGate.Sql.Items

/-!
# The items of a list

A list is cut at its commas at depth zero, and the blanks around each part are taken off. What is
left are its items: they lie in the list one behind the other with such a comma between each two,
and hold every character but the commas and the blanks around them. They are the only spans that do
(`partition_iff_eq_topLevelItems`).

The parentheses that count are those from the start of the list on, and more of them may be closed
than opened.
-/

namespace QueryGate

/-! ## Commas at depth zero -/

/-- How many more parentheses a text opens than it closes. -/
def parenDepth (t : Text) : Int := t.count '(' - t.count ')'

/-- A comma at depth zero, if parentheses are counted from `start` on. -/
structure TopComma (t : Text) (start n : Nat) : Prop where
  le : start ≤ n
  comma : t[n]? = some ','
  depth : parenDepth (Text.slice t start n) = 0

theorem parenDepth_cons (c : Char) (t : Text) :
    parenDepth (c :: t) = parenDepth [c] + parenDepth t := by
  simp only [parenDepth, ← List.singleton_append (l := t), List.count_append]
  omega

theorem mem_topLevelCommas_iff {depth : Int} {offset n : Nat} {t : Text} :
    n ∈ topLevelCommas depth offset t ↔
      ∃ i, n = offset + i ∧ t[i]? = some ',' ∧ depth + parenDepth (t.take i) = 0 := by
  induction t generalizing depth offset with
  | nil => simp [topLevelCommas]
  | cons c t ih =>
    have hlater (d : Int) (hd : d = depth + parenDepth [c]) :
        n ∈ topLevelCommas d (offset + 1) t ↔ ∃ i, n = offset + (i + 1) ∧
          (c :: t)[i + 1]? = some ',' ∧ depth + parenDepth ((c :: t).take (i + 1)) = 0 := by
      rw [ih, hd]
      refine exists_congr fun i => ?_
      rw [List.getElem?_cons_succ, List.take_succ_cons, parenDepth_cons c (t.take i),
        Nat.add_assoc, Nat.add_comm 1, Int.add_assoc]
    have hhere : (n = offset + 0 ∧ (c :: t)[0]? = some ',' ∧
        depth + parenDepth ((c :: t).take 0) = 0) ↔ n = offset ∧ c = ',' ∧ depth = 0 := by
      simp [parenDepth]
    rw [← Nat.or_exists_add_one, hhere]
    unfold topLevelCommas
    split
    · rename_i hc
      obtain rfl := eq_of_beq hc
      rw [hlater (depth + 1) rfl]
      exact (or_iff_right fun h => absurd h.2.1 (by decide)).symm
    split
    · rename_i hc
      obtain rfl := eq_of_beq hc
      rw [hlater (depth - 1) rfl]
      exact (or_iff_right fun h => absurd h.2.1 (by decide)).symm
    rename_i hopen hclose
    have hdepth : depth = depth + parenDepth [c] := by
      have hopen : c ≠ '(' := by simpa using hopen
      have hclose : c ≠ ')' := by simpa using hclose
      simp [parenDepth, hopen, hclose]
    rw [← hlater depth hdepth]
    split
    · rename_i hc
      rw [Bool.and_eq_true, beq_iff_eq, beq_iff_eq] at hc
      simp [hc]
    · rename_i hc
      rw [Bool.and_eq_true, beq_iff_eq, beq_iff_eq] at hc
      exact (or_iff_right fun h => hc h.2).symm

theorem exists_of_mem_topLevelCommas {depth : Int} {offset n : Nat} {t : Text}
    (h : n ∈ topLevelCommas depth offset t) :
    ∃ a b, t = a ++ ',' :: b ∧ n = offset + a.length := by
  obtain ⟨i, rfl, hcomma, -⟩ := mem_topLevelCommas_iff.1 h
  obtain ⟨hi, hget⟩ := List.getElem?_eq_some_iff.1 hcomma
  refine ⟨t.take i, t.drop (i + 1), ?_, by rw [List.length_take_of_le hi.le]⟩
  rw [← hget, List.getElem_cons_drop, List.take_append_drop]

theorem topLevelCommas_bounds {depth : Int} {offset n : Nat} {t : Text}
    (h : n ∈ topLevelCommas depth offset t) : offset ≤ n ∧ n < offset + t.length := by
  obtain ⟨a, b, rfl, rfl⟩ := exists_of_mem_topLevelCommas h
  simp only [List.length_append, List.length_cons]
  omega

theorem pairwise_topLevelCommas (depth : Int) (offset : Nat) (t : Text) :
    (topLevelCommas depth offset t).Pairwise (· < ·) := by
  induction t generalizing depth offset with
  | nil => exact .nil
  | cons c t ih =>
    unfold topLevelCommas
    split
    · exact ih _ _
    split
    · exact ih _ _
    split
    · exact List.pairwise_cons.2 ⟨fun n hn => (topLevelCommas_bounds hn).1, ih _ _⟩
    · exact ih _ _

theorem Text.getElem?_slice (t : Text) (start stop i : Nat) :
    (slice t start stop)[i]? = if start + i < stop then t[start + i]? else none := by
  rw [slice, List.getElem?_drop, List.getElem?_take]

theorem Text.take_slice {start stop i : Nat} (t : Text) (h : start + i ≤ stop) :
    (slice t start stop).take i = slice t start (start + i) := by
  rw [slice, slice, List.take_drop, List.take_take, Nat.min_eq_left h]

/-- The list between two offsets is cut at its commas at depth zero. -/
theorem mem_topLevelCommas_slice {t : Text} {start stop n : Nat} :
    n ∈ topLevelCommas 0 start (Text.slice t start stop) ↔ TopComma t start n ∧ n < stop := by
  rw [mem_topLevelCommas_iff]
  constructor
  · rintro ⟨i, rfl, hcomma, hdepth⟩
    rw [Text.getElem?_slice] at hcomma
    split at hcomma
    · rename_i hlt
      rw [Text.take_slice t hlt.le, Int.zero_add] at hdepth
      exact ⟨⟨Nat.le_add_right _ _, hcomma, hdepth⟩, hlt⟩
    · cases hcomma
  · rintro ⟨⟨hle, hcomma, hdepth⟩, hlt⟩
    obtain ⟨i, rfl⟩ := Nat.exists_eq_add_of_le hle
    refine ⟨i, rfl, ?_, ?_⟩
    · rw [Text.getElem?_slice, if_pos hlt, hcomma]
    · rw [Text.take_slice t hlt.le, Int.zero_add, hdepth]

/-! ## Spans between cuts -/

/-- A span ends where the next begins, or before. -/
def Span.Before (s r : Span) : Prop := s.stop ≤ r.start

instance : DecidableRel Span.Before := fun s r => inferInstanceAs (Decidable (s.stop ≤ r.start))

def Span.Apart (s r : Span) : Prop := s.Before r ∨ r.Before s

/-- A span that is not empty lies between two offsets. -/
structure Span.Within (s : Span) (start stop : Nat) : Prop where
  start_le : start ≤ s.start
  lt : s.start < s.stop
  le_stop : s.stop ≤ stop

/-- The character at an offset is in the span. -/
structure Span.Holds (s : Span) (n : Nat) : Prop where
  start_le : s.start ≤ n
  lt_stop : n < s.stop

section Cuts

variable {start stop n : Nat} {cuts : List Nat} {s : Span}

theorem stop_of_mem_spansBetween (h : s ∈ spansBetween start cuts stop) :
    s.stop ∈ cuts ∨ s.stop = stop := by
  induction cuts generalizing start with
  | nil =>
    rw [List.mem_singleton.1 h]
    exact .inr rfl
  | cons cut cuts ih =>
    rcases List.mem_cons.1 h with rfl | h
    · exact .inl List.mem_cons_self
    · exact (ih h).imp (List.mem_cons_of_mem cut) id

theorem start_of_mem_spansBetween (h : s ∈ spansBetween start cuts stop) :
    s.start = start ∨ ∃ cut ∈ cuts, s.start = cut + 1 := by
  induction cuts generalizing start with
  | nil =>
    rw [List.mem_singleton.1 h]
    exact .inl rfl
  | cons cut cuts ih =>
    rcases List.mem_cons.1 h with rfl | h
    · exact .inl rfl
    · rcases ih h with hcut | ⟨later, hlater, hcut⟩
      · exact .inr ⟨cut, List.mem_cons_self, hcut⟩
      · exact .inr ⟨later, List.mem_cons_of_mem cut hlater, hcut⟩

/-- A character that is no cut lies between two. -/
theorem exists_holds_of_not_mem_cuts (hstart : start ≤ n) (hstop : n < stop) (hn : n ∉ cuts) :
    ∃ s ∈ spansBetween start cuts stop, s.Holds n := by
  induction cuts generalizing start with
  | nil => exact ⟨_, List.mem_singleton_self _, hstart, hstop⟩
  | cons cut cuts ih =>
    obtain ⟨hne, hn⟩ := List.ne_and_not_mem_of_not_mem_cons hn
    rcases Nat.lt_or_gt_of_ne hne with hlt | hgt
    · exact ⟨_, List.mem_cons_self, hstart, hlt⟩
    · obtain ⟨s, hs, hholds⟩ := ih hgt hn
      exact ⟨s, List.mem_cons_of_mem _ hs, hholds⟩

variable (hcuts : cuts.Pairwise (· < ·)) (hstart : ∀ cut ∈ cuts, start ≤ cut)
  (hstop : ∀ cut ∈ cuts, cut < stop)

include hcuts hstart hstop

/-- The spans between cuts lie between the ends, one behind the other, each behind the cut that ends
the one before. -/
theorem pairwise_spansBetween :
    (spansBetween start cuts stop).Pairwise (fun s r => s.stop ∈ cuts ∧ s.stop < r.start) ∧
      ∀ s ∈ spansBetween start cuts stop, start ≤ s.start ∧ s.stop ≤ stop := by
  induction cuts generalizing start with
  | nil =>
    refine ⟨List.pairwise_singleton _ _, fun s hs => ?_⟩
    rw [List.mem_singleton.1 hs]
    exact ⟨Nat.le_refl _, Nat.le_refl _⟩
  | cons cut cuts ih =>
    obtain ⟨hcut, hcuts⟩ := List.pairwise_cons.1 hcuts
    obtain ⟨hpairs, hbounds⟩ := ih hcuts (fun later hlater => hcut later hlater)
      fun later hlater => hstop later (List.mem_cons_of_mem cut hlater)
    have hle := hstart cut List.mem_cons_self
    have hlt := hstop cut List.mem_cons_self
    refine ⟨List.pairwise_cons.2 ⟨fun s hs => ?_, ?_⟩, fun s hs => ?_⟩
    · exact ⟨List.mem_cons_self, (hbounds s hs).1⟩
    · exact hpairs.imp fun h => ⟨List.mem_cons_of_mem cut h.1, h.2⟩
    · rcases List.mem_cons.1 hs with rfl | hs
      · exact ⟨Nat.le_refl _, hlt.le⟩
      · have := hbounds s hs
        exact ⟨by omega, this.2⟩

theorem not_holds_cut (hs : s ∈ spansBetween start cuts stop) (hn : n ∈ cuts) : ¬ s.Holds n := by
  rintro ⟨hle, hlt⟩
  induction cuts generalizing start with
  | nil => cases hn
  | cons cut cuts ih =>
    obtain ⟨hcut, hcuts⟩ := List.pairwise_cons.1 hcuts
    rcases List.mem_cons.1 hs with rfl | hs
    · rcases List.mem_cons.1 hn with rfl | hn
      · exact Nat.lt_irrefl _ hlt
      · exact Nat.lt_asymm hlt (hcut n hn)
    · have hlater : ∀ later ∈ cuts, later < stop := fun later hlater =>
        hstop later (List.mem_cons_of_mem cut hlater)
      have hbehind := ((pairwise_spansBetween hcuts hcut hlater).2 s hs).1
      rcases List.mem_cons.1 hn with rfl | hn
      · omega
      · exact ih hcuts hcut hlater hs hn

end Cuts

/-! ## Blanks at the ends -/

/-- An item is written without blanks at its ends. -/
structure Trimmed (t : Text) : Prop where
  ne_nil : t ≠ []
  head : t.head?.any isBlank = false
  last : t.getLast?.any isBlank = false

/-- A slice that is not empty stands where it was taken. -/
theorem Text.exists_slice {t : Text} {start stop : Nat} (h : slice t start stop ≠ []) :
    ∃ q, t = t.take start ++ (slice t start stop ++ q) ∧ (t.take start).length = start ∧
      (start + (slice t start stop).length = stop ∨ q = []) := by
  have hpos := List.length_pos_iff.2 h
  have hlen : (slice t start stop).length = min stop t.length - start := by
    simp [slice]
  refine ⟨t.drop stop, (take_append_slice_append t (by omega)).symm, ?_, ?_⟩
  · rw [List.length_take]
    omega
  · by_cases hstop : stop ≤ t.length
    · left
      omega
    · right
      exact List.drop_eq_nil_of_le (by omega)

theorem trimmed_trim {t : Text} (h : trim t ≠ []) : Trimmed (trim t) :=
  ⟨h, head?_trim t, getLast?_trimEnd _⟩

/-- What is left of a span has blanks on both sides. -/
theorem trimSpan?_eq_some {t : Text} {s r : Span} (h : trimSpan? t s = some r) :
    ∃ g body g', Text.slice t s.start s.stop = (g ++ body) ++ g' ∧ Trimmed body ∧
      allBlank g = true ∧ allBlank g' = true ∧
      r.start = s.start + g.length ∧ r.stop = s.start + (g ++ body).length := by
  unfold trimSpan? at h
  simp only at h
  split at h
  · cases h
  rename_i hsize
  obtain rfl := Option.some.inj h
  obtain ⟨g, hg, hbody⟩ := exists_blanks_append_skipBlanks (Text.slice t s.start s.stop)
  obtain ⟨g', hg', htrim⟩ := exists_trimEnd_append_blanks (skipBlanks (Text.slice t s.start s.stop))
  have hlen : (Text.slice t s.start s.stop).length -
      (skipBlanks (Text.slice t s.start s.stop)).length = g.length := by
    have := congrArg List.length hbody
    rw [List.length_append] at this
    omega
  refine ⟨g, trim (Text.slice t s.start s.stop), g', ?_, trimmed_trim ?_, hg, hg', by rw [hlen], ?_⟩
  · rw [List.append_assoc, trim, ← htrim]
    exact hbody
  · intro hnil
    rw [hnil] at hsize
    exact hsize rfl
  · rw [hlen, List.length_append, Nat.add_assoc]

theorem allBlank_of_trimSpan?_eq_none {t : Text} {s : Span} (h : trimSpan? t s = none) :
    allBlank (Text.slice t s.start s.stop) = true := by
  unfold trimSpan? at h
  simp only at h
  split at h
  · rename_i hsize
    rw [List.length_eq_zero_iff, trim] at hsize
    obtain ⟨g, hg, htrim⟩ := exists_trimEnd_append_blanks (skipBlanks (Text.slice t s.start s.stop))
    rw [hsize, List.nil_append] at htrim
    rw [← skipBlanks_eq_nil_iff, ← skipBlanks_eq_self (head?_skipBlanks _), skipBlanks_eq_nil_iff,
      htrim]
    exact hg
  · cases h

/-- What is left of a span without the blanks at its ends is not empty. -/
theorem within_of_trimSpan? {t : Text} {s r : Span} (h : trimSpan? t s = some r) :
    r.Within s.start (min s.stop t.length) := by
  obtain ⟨g, body, g', hslice, hbody, -, -, hstart, hstop⟩ := trimSpan?_eq_some h
  have hlen := congrArg List.length hslice
  have hbody := List.length_pos_iff.2 hbody.ne_nil
  simp only [Text.slice, List.length_drop, List.length_take, List.length_append] at hlen
  rw [List.length_append] at hstop
  exact ⟨by omega, by omega, by omega⟩

theorem trimmed_slice {t : Text} {s r : Span} (h : trimSpan? t s = some r) :
    Trimmed (Text.slice t r.start r.stop) := by
  obtain ⟨g, body, g', hslice, hbody, -, -, hstart, hstop⟩ := trimSpan?_eq_some h
  obtain ⟨q, ht, hfront, -⟩ := @Text.exists_slice t s.start s.stop (by simp [hslice, hbody.ne_nil])
  have hsplit : t = (t.take s.start ++ g) ++ (body ++ (g' ++ q)) := by
    rw [hslice] at ht
    simpa using ht
  have hbegin : (t.take s.start ++ g).length = r.start := by
    rw [List.length_append, hfront, hstart]
  have hend : r.stop = (t.take s.start ++ g).length + body.length := by
    rw [hbegin, hstart, hstop, List.length_append, Nat.add_assoc]
  have hmiddle := Text.slice_middle (t.take s.start ++ g) body (g' ++ q)
  rw [← hsplit, ← hend, hbegin] at hmiddle
  rwa [hmiddle]

/-- The characters at the ends of a slice without blanks there. -/
theorem Trimmed.exists_not_blank {t : Text} {start stop n : Nat}
    (h : Trimmed (Text.slice t start stop)) (hlt : start < stop) (hstop : stop ≤ t.length)
    (hn : n = start ∨ n + 1 = stop) : ∃ c, t[n]? = some c ∧ isBlank c = false := by
  have hc : t[n]? = some t[n] := List.getElem?_eq_getElem (by omega)
  refine ⟨t[n], hc, ?_⟩
  rcases hn with rfl | hn
  · have hhead := h.head
    rwa [List.head?_eq_getElem?, Text.getElem?_slice, Nat.add_zero, if_pos hlt, hc] at hhead
  · have hlast := h.last
    have hlength : (Text.slice t start stop).length = stop - start := by
      rw [Text.slice, List.length_drop, List.length_take_of_le hstop]
    have hindex : start + (stop - start - 1) = n := by omega
    rwa [List.getLast?_eq_getElem?, hlength, Text.getElem?_slice, hindex, if_pos (by omega),
      hc] at hlast

/-- Only blanks are taken off a span. -/
theorem exists_trimSpan?_of_holds {t : Text} {s : Span} {n : Nat} {c : Char} (hs : s.Holds n)
    (hn : t[n]? = some c) (hc : isBlank c = false) :
    ∃ r, trimSpan? t s = some r ∧ r.Holds n := by
  obtain ⟨i, rfl⟩ := Nat.exists_eq_add_of_le hs.start_le
  have hmem : (Text.slice t s.start s.stop)[i]? = some c := by
    rw [Text.getElem?_slice, if_pos hs.lt_stop, hn]
  cases h : trimSpan? t s with
  | none =>
    have hblank := List.all_eq_true.1 (allBlank_of_trimSpan?_eq_none h) c
      (List.mem_of_getElem? hmem)
    rw [hc] at hblank
    cases hblank
  | some r =>
    obtain ⟨g, body, g', hslice, -, hg, hg', hstart, hstop⟩ := trimSpan?_eq_some h
    have hout {u : Text} (hu : allBlank u = true) {j : Nat} (hj : u[j]? = some c) : False := by
      have hblank := List.all_eq_true.1 hu c (List.mem_of_getElem? hj)
      rw [hc] at hblank
      cases hblank
    rw [hslice] at hmem
    refine ⟨r, rfl, ?_, ?_⟩
    · by_contra hlt
      rw [List.append_assoc, List.getElem?_append_left (by omega)] at hmem
      exact hout hg hmem
    · by_contra hge
      rw [List.getElem?_append_right (by omega)] at hmem
      exact hout hg' hmem

/-! ## The items -/

/-- A comma at depth zero stands between two spans. -/
def CommaBetween (t : Text) (start : Nat) (s r : Span) : Prop :=
  ∃ n, s.stop ≤ n ∧ n < r.start ∧ TopComma t start n

/-- Two members of an ordered list are related in one direction or the other. -/
theorem rel_or_rel_of_pairwise {α : Type} {R : α → α → Prop} {l : List α} (h : l.Pairwise R)
    {a b : α} (ha : a ∈ l) (hb : b ∈ l) (hne : a ≠ b) : R a b ∨ R b a := by
  have hsymm : Std.Symm fun a b => R a b ∨ R b a := ⟨fun _ _ => Or.symm⟩
  have heither : l.Pairwise fun a b => R a b ∨ R b a := h.imp Or.inl
  exact heither.forall ha hb hne

/-- Only one of several spans that stand one behind the other holds a character. -/
theorem eq_of_holds {items : List Span} (h : items.Pairwise Span.Before) {s r : Span}
    (hs : s ∈ items) (hr : r ∈ items) {n : Nat} (hsn : s.Holds n) (hrn : r.Holds n) : s = r := by
  by_contra hne
  rcases rel_or_rel_of_pairwise h hs hr hne with hbefore | hbefore
  · exact Nat.not_lt.2 (hbefore.trans hrn.start_le) hsn.lt_stop
  · exact Nat.not_lt.2 (hbefore.trans hsn.start_le) hrn.lt_stop

section Items

variable {t : Text} {start stop : Nat} {s : Span}

/-- An item is what is left of a part between two cuts. -/
theorem exists_of_mem_topLevelItems (hs : s ∈ topLevelItems t start stop) :
    ∃ r ∈ spansBetween start (topLevelCommas 0 start (Text.slice t start stop)) stop,
      trimSpan? t r = some s ∧ s.Within r.start (min r.stop t.length) := by
  obtain ⟨r, hr, hsome⟩ := List.mem_filterMap.1 hs
  exact ⟨r, hr, hsome, within_of_trimSpan? hsome⟩

theorem start_le_of_mem_cuts :
    ∀ cut ∈ topLevelCommas 0 start (Text.slice t start stop), start ≤ cut :=
  fun _ hcut => (mem_topLevelCommas_slice.1 hcut).1.le

theorem lt_stop_of_mem_cuts :
    ∀ cut ∈ topLevelCommas 0 start (Text.slice t start stop), cut < stop :=
  fun _ hcut => (mem_topLevelCommas_slice.1 hcut).2

theorem separated_topLevelItems :
    (topLevelItems t start stop).Pairwise (CommaBetween t start) := by
  have hpairs := (pairwise_spansBetween (pairwise_topLevelCommas 0 start (Text.slice t start stop))
    start_le_of_mem_cuts lt_stop_of_mem_cuts).1
  refine List.pairwise_filterMap.2 (hpairs.imp fun {s r} ⟨hcut, hlt⟩ s' hs' r' hr' => ?_)
  have hs := (within_of_trimSpan? hs').le_stop
  have hr := (within_of_trimSpan? hr').start_le
  exact ⟨s.stop, by omega, by omega, (mem_topLevelCommas_slice.1 hcut).1⟩

/-- The items of a list lie in it, one behind the other. -/
theorem pairwise_topLevelItems :
    (topLevelItems t start stop).Pairwise Span.Before ∧
      ∀ s ∈ topLevelItems t start stop, s.Within start (min stop t.length) := by
  refine ⟨separated_topLevelItems.imp fun ⟨n, hs, hr, _⟩ => hs.trans hr.le, fun s hs => ?_⟩
  obtain ⟨r, hr, -, hwithin⟩ := exists_of_mem_topLevelItems hs
  have hbounds := (pairwise_spansBetween
    (pairwise_topLevelCommas 0 start (Text.slice t start stop)) start_le_of_mem_cuts
    lt_stop_of_mem_cuts).2 r hr
  have := hwithin.start_le
  have := hwithin.le_stop
  exact ⟨by omega, hwithin.lt, by omega⟩

/-- No item goes on over a comma at depth zero. -/
theorem not_topComma_of_mem_topLevelItems (hs : s ∈ topLevelItems t start stop) {n : Nat}
    (hn : s.Holds n) : ¬ TopComma t start n := by
  intro hcomma
  obtain ⟨r, hr, -, hwithin⟩ := exists_of_mem_topLevelItems hs
  have hstop := ((pairwise_topLevelItems (t := t)).2 s hs).le_stop
  have hle := hwithin.le_stop
  have hlt := hn.lt_stop
  have hcut : n ∈ topLevelCommas 0 start (Text.slice t start stop) :=
    mem_topLevelCommas_slice.2 ⟨hcomma, by omega⟩
  exact not_holds_cut (pairwise_topLevelCommas _ _ _) start_le_of_mem_cuts lt_stop_of_mem_cuts hr
    hcut ⟨hwithin.start_le.trans hn.start_le, by omega⟩

/-- A character that is neither blank nor a comma at depth zero is in an item. -/
theorem exists_mem_topLevelItems_holds {n : Nat} {c : Char} (hstart : start ≤ n) (hstop : n < stop)
    (hn : t[n]? = some c) (hc : isBlank c = false) (hcomma : ¬ TopComma t start n) :
    ∃ s ∈ topLevelItems t start stop, s.Holds n := by
  have hcut : n ∉ topLevelCommas 0 start (Text.slice t start stop) := fun h =>
    hcomma (mem_topLevelCommas_slice.1 h).1
  obtain ⟨r, hr, hholds⟩ := exists_holds_of_not_mem_cuts hstart hstop hcut
  obtain ⟨s, hsome, hs⟩ := exists_trimSpan?_of_holds hholds hn hc
  exact ⟨s, List.mem_filterMap.2 ⟨r, hr, hsome⟩, hs⟩

end Items

/-! ## The partition -/

/-- Spans that cut the list between two offsets into its items. -/
structure Partition (t : Text) (start stop : Nat) (items : List Span) : Prop where
  within : ∀ s ∈ items, s.Within start stop
  before : items.Pairwise Span.Before
  trimmed : ∀ s ∈ items, Trimmed (Text.slice t s.start s.stop)
  not_topComma : ∀ s ∈ items, ∀ n, s.Holds n → ¬ TopComma t start n
  separated : items.Pairwise (CommaBetween t start)
  covered : ∀ n c, start ≤ n → n < stop → t[n]? = some c → isBlank c = false →
    ¬ TopComma t start n → ∃! s, s ∈ items ∧ s.Holds n

theorem partition_topLevelItems (t : Text) (start stop : Nat) :
    Partition t start stop (topLevelItems t start stop) where
  within s hs := by
    have hwithin := (pairwise_topLevelItems (t := t)).2 s hs
    exact ⟨hwithin.start_le, hwithin.lt, hwithin.le_stop.trans (Nat.min_le_left _ _)⟩
  before := pairwise_topLevelItems.1
  trimmed s hs := by
    obtain ⟨r, -, hsome, -⟩ := exists_of_mem_topLevelItems hs
    exact trimmed_slice hsome
  not_topComma s hs n hn := not_topComma_of_mem_topLevelItems hs hn
  separated := separated_topLevelItems
  covered n c hstart hstop hn hc hcomma := by
    obtain ⟨s, hs, hholds⟩ := exists_mem_topLevelItems_holds hstart hstop hn hc hcomma
    exact ⟨s, ⟨hs, hholds⟩, fun r hr => eq_of_holds pairwise_topLevelItems.1 hr.1 hs hr.2 hholds⟩

namespace Partition

variable {t : Text} {start stop : Nat} {items other : List Span} {s r : Span} {n : Nat}

/-- An item begins and ends with characters that every partition has in an item. -/
theorem exists_holds (h : Partition t start stop items) (ho : Partition t start stop other)
    (hstop : stop ≤ t.length) (hr : r ∈ other) (hn : n = r.start ∨ n + 1 = r.stop) :
    ∃ s ∈ items, s.Holds n := by
  obtain ⟨hle, hlt, hge⟩ := ho.within r hr
  have hholds : r.Holds n := by
    constructor <;> omega
  obtain ⟨c, hc, hblank⟩ := (ho.trimmed r hr).exists_not_blank hlt (hge.trans hstop) hn
  obtain ⟨s, ⟨hs, hsn⟩, -⟩ := h.covered n c (hle.trans hholds.start_le)
    (hholds.lt_stop.trans_le hge) hc hblank (ho.not_topComma r hr n hholds)
  exact ⟨s, hs, hsn⟩

/-- An item that shares a character with one of another partition reaches as far on both sides. -/
theorem le_of_holds (h : Partition t start stop items) (ho : Partition t start stop other)
    (hstop : stop ≤ t.length) (hs : s ∈ items) (hr : r ∈ other) (hsn : s.Holds n)
    (hrn : r.Holds n) : s.start ≤ r.start ∧ r.stop ≤ s.stop := by
  obtain ⟨hs₁, hs₂⟩ := hsn
  obtain ⟨hr₁, hr₂⟩ := hrn
  -- A comma between two items of the one partition is in no item of the other.
  have hcomma {x : Span} (hx : x ∈ items) (hne : s ≠ x)
      (hbefore : r.start < x.stop) (hafter : x.start < r.stop) : False := by
    rcases rel_or_rel_of_pairwise h.separated hs hx hne with ⟨m, hm₁, hm₂, hm⟩ | ⟨m, hm₁, hm₂, hm⟩
    · exact ho.not_topComma r hr m ⟨by omega, by omega⟩ hm
    · exact ho.not_topComma r hr m ⟨by omega, by omega⟩ hm
  constructor
  · by_contra hlt
    obtain ⟨x, hx, hx₁, hx₂⟩ := h.exists_holds ho hstop hr (.inl rfl)
    refine hcomma hx ?_ hx₂ (by omega)
    rintro rfl
    omega
  · by_contra hlt
    obtain ⟨x, hx, hx₁, hx₂⟩ := h.exists_holds ho hstop hr (n := r.stop - 1) (.inr (by omega))
    refine hcomma hx ?_ (by omega) (by omega)
    rintro rfl
    omega

theorem subset (h : Partition t start stop items) (ho : Partition t start stop other)
    (hstop : stop ≤ t.length) : other ⊆ items := by
  intro r hr
  obtain ⟨s, hs, hsn⟩ := h.exists_holds ho hstop hr (.inl rfl)
  have hrn : r.Holds r.start := ⟨Nat.le_refl _, (ho.within r hr).lt⟩
  have hsr := h.le_of_holds ho hstop hs hr hsn hrn
  have hrs := ho.le_of_holds h hstop hr hs hrn hsn
  have heq : r = s := by
    obtain ⟨start, stop⟩ := r
    obtain ⟨start', stop'⟩ := s
    simp only [Span.mk.injEq]
    simp only at hsr hrs
    omega
  rwa [heq]

theorem pairwise_lt (h : Partition t start stop items) :
    items.Pairwise fun s r => s.start < r.start :=
  h.before.imp_of_mem fun {s _} hs _ hbefore => (h.within s hs).lt.trans_le hbefore

/-- There is one partition of a list. -/
theorem eq (h : Partition t start stop items) (ho : Partition t start stop other)
    (hstop : stop ≤ t.length) : items = other := by
  have hirrefl : Std.Irrefl fun s r : Span => s.start < r.start := ⟨fun _ => Nat.lt_irrefl _⟩
  have hantisymm : Std.Antisymm fun s r : Span => s.start < r.start :=
    ⟨fun _ _ hsr hrs => absurd hrs (Nat.lt_asymm hsr)⟩
  exact h.pairwise_lt.eq_of_mem_iff ho.pairwise_lt fun s =>
    ⟨fun hs => ho.subset h hstop hs, fun hs => h.subset ho hstop hs⟩

end Partition

/-- The items of a list are its one partition. -/
theorem partition_iff_eq_topLevelItems {t : Text} {start stop : Nat} {items : List Span}
    (hstop : stop ≤ t.length) :
    Partition t start stop items ↔ items = topLevelItems t start stop := by
  refine ⟨fun h => h.eq (partition_topLevelItems t start stop) hstop, ?_⟩
  rintro rfl
  exact partition_topLevelItems t start stop

/-- An item of blanks only is none, and a comma behind a parenthesis that was not opened in the list
separates nothing. -/
theorem partition_iff_eq_topLevelItems_unbalanced :
    let t : Text := "IN (a , ,f(b, c),) d, e"
    23 ≤ t.length ∧ Partition t 4 23 [⟨4, 5⟩, ⟨9, 16⟩, ⟨17, 23⟩] := by
  intro t
  have hstop : 23 ≤ t.length := by decide
  have hitems : [⟨4, 5⟩, ⟨9, 16⟩, ⟨17, 23⟩] = topLevelItems t 4 23 := by decide
  exact ⟨hstop, (partition_iff_eq_topLevelItems hstop).2 hitems⟩

end QueryGate
