import QueryGate.Proofs.Text.Parts
import QueryGate.Text.Reading

/-!
# Hits of a reading

The hits of a reading in a text, told without the scan. The first hit is the leftmost place where
the reading succeeds (`firstHit?_eq_some_iff`), and there is none exactly if it succeeds nowhere
(`firstHit?_eq_none_iff`). A text is scanned part by part: past what one hit reads
(`hitsFrom_of_read`), and past a part that no hit leaves (`hitsFrom_append_of_inside`).
-/

namespace QueryGate

variable {α : Type} {read : Reading α} {before t : Text}

/-! ## Steps of the scan -/

theorem hitsFrom_cons_of_none {c : Char} (h : read before (c :: t) = none) :
    hitsFrom read before 0 (c :: t) = hitsFrom read (c :: before) 0 t := by
  rw [hitsFrom, h]

/-- What an earlier hit covers is passed over. -/
theorem hitsFrom_covered (read : Reading α) (before u t : Text) :
    hitsFrom read before u.length (u ++ t) = hitsFrom read (u.reverse ++ before) 0 t := by
  induction u generalizing before with
  | nil => rfl
  | cons c u ih =>
    rw [List.length_cons, List.cons_append, hitsFrom, ih, List.reverse_cons, List.append_assoc]
    rfl

theorem hitsFrom_of_read {u rest : Text} {v : α} (hu : u ≠ [])
    (h : read before (u ++ rest) = some (v, rest)) :
    hitsFrom read before 0 (u ++ rest) =
      ⟨before.length, before.length + u.length, v⟩ ::
        hitsFrom read (u.reverse ++ before) 0 rest := by
  cases u with
  | nil => exact absurd rfl hu
  | cons c u =>
    have hstop : offsetOf before (c :: (u ++ rest)) rest = before.length + (c :: u).length := by
      simp only [offsetOf, List.length_cons, List.length_append]
      omega
    have hcovered : before.length + (c :: u).length - before.length - 1 = u.length := by
      simp only [List.length_cons]
      omega
    rw [List.cons_append] at h ⊢
    rw [hitsFrom, h]
    simp only [hstop, hcovered]
    rw [hitsFrom_covered, List.reverse_cons, List.append_assoc]
    rfl

/-! ## The first hit -/

/-- The scan finds nothing exactly if the reading succeeds at no place. -/
theorem hitsFrom_eq_nil_iff :
    hitsFrom read before 0 t = [] ↔
      ∀ a b, t = a ++ b → b ≠ [] → read (a.reverse ++ before) b = none := by
  induction t generalizing before with
  | nil =>
    refine ⟨fun _ a b h hb => absurd (List.append_eq_nil_iff.1 h.symm).2 hb, fun _ => rfl⟩
  | cons c t ih =>
    constructor
    · intro h a b hab hb
      cases hr : read before (c :: t) with
      | some r =>
        rw [hitsFrom, hr] at h
        cases h
      | none =>
        rw [hitsFrom_cons_of_none hr, ih] at h
        cases a with
        | nil =>
          rw [List.nil_append] at hab
          rw [← hab]
          exact hr
        | cons d a =>
          obtain ⟨rfl, rfl⟩ := List.cons.inj hab
          have := h a b rfl hb
          rwa [List.reverse_cons, List.append_assoc]
    · intro h
      have hr : read before (c :: t) = none := h [] (c :: t) rfl (List.cons_ne_nil _ _)
      rw [hitsFrom_cons_of_none hr, ih]
      intro a b hab hb
      have := h (c :: a) b (by rw [hab]; rfl) hb
      rwa [List.reverse_cons, List.append_assoc] at this

theorem head?_hitsFrom_eq_some {h : Hit α} (hh : (hitsFrom read before 0 t).head? = some h) :
    ∃ a b rest, t = a ++ b ∧ b ≠ [] ∧ read (a.reverse ++ before) b = some (h.value, rest) ∧
      h.start = before.length + a.length ∧
      ∀ a' b', t = a' ++ b' → a'.length < a.length → read (a'.reverse ++ before) b' = none := by
  induction t generalizing before with
  | nil => cases hh
  | cons c t ih =>
    cases hr : read before (c :: t) with
    | some r =>
      rw [hitsFrom, hr] at hh
      obtain rfl := Option.some.inj hh
      exact ⟨[], c :: t, r.2, rfl, List.cons_ne_nil _ _, hr, rfl,
        fun a' b' _ hlt => absurd hlt (Nat.not_lt_zero _)⟩
    | none =>
      rw [hitsFrom_cons_of_none hr] at hh
      obtain ⟨a, b, rest, rfl, hb, hread, hstart, hfirst⟩ := ih hh
      refine ⟨c :: a, b, rest, rfl, hb, ?_, ?_, ?_⟩
      · rwa [List.reverse_cons, List.append_assoc]
      · rw [hstart, List.length_cons, List.length_cons]
        omega
      · intro a' b' hab hlt
        cases a' with
        | nil =>
          rw [List.nil_append] at hab
          rw [← hab]
          exact hr
        | cons d a' =>
          obtain ⟨rfl, hab'⟩ := List.cons.inj hab
          have := hfirst a' b' hab' (by simpa using hlt)
          rwa [List.reverse_cons, List.append_assoc]

theorem firstHit?_eq_none_iff :
    firstHit? read t = none ↔ ∀ a b, t = a ++ b → b ≠ [] → read a.reverse b = none := by
  rw [firstHit?, List.head?_eq_none_iff, hits, hitsFrom_eq_nil_iff]
  simp only [List.append_nil]

/-- The first hit is where the reading succeeds and nowhere before. -/
theorem firstHit?_eq_some {h : Hit α} (hh : firstHit? read t = some h) :
    ∃ a b rest, t = a ++ b ∧ b ≠ [] ∧ read a.reverse b = some (h.value, rest) ∧
      h.start = a.length ∧
      ∀ a' b', t = a' ++ b' → a'.length < a.length → read a'.reverse b' = none := by
  obtain ⟨a, b, rest, ht, hb, hread, hstart, hfirst⟩ := head?_hitsFrom_eq_some hh
  simp only [List.append_nil] at hread hfirst
  exact ⟨a, b, rest, ht, hb, hread, by simpa using hstart, hfirst⟩

theorem firstHit?_of_read {a b rest : Text} {v : α} (hb : b ≠ [])
    (h : read a.reverse b = some (v, rest))
    (hfirst : ∀ a' b', a ++ b = a' ++ b' → a'.length < a.length → read a'.reverse b' = none) :
    ∃ k, firstHit? read (a ++ b) = some k ∧ k.value = v ∧ k.start = a.length := by
  cases hf : firstHit? read (a ++ b) with
  | none =>
    rw [firstHit?_eq_none_iff.1 hf a b rfl hb] at h
    cases h
  | some k =>
    obtain ⟨a', b', rest', hab, hb', hread, hstart, hleft⟩ := firstHit?_eq_some hf
    rcases Nat.lt_trichotomy a'.length a.length with hlt | heq | hgt
    · rw [hfirst a' b' hab hlt] at hread
      cases hread
    · obtain ⟨rfl, rfl⟩ := List.append_inj hab heq.symm
      rw [h] at hread
      obtain ⟨hv, -⟩ := Prod.mk.inj (Option.some.inj hread)
      exact ⟨k, rfl, hv.symm, hstart⟩
    · rw [hleft a b rfl hgt] at h
      cases h

theorem occurs_eq_false_iff :
    occurs read t = false ↔ ∀ a b, t = a ++ b → b ≠ [] → read a.reverse b = none := by
  rw [occurs, Bool.not_eq_false', List.isEmpty_iff, hits, hitsFrom_eq_nil_iff]
  simp only [List.append_nil]

theorem occurs_eq_true_iff :
    occurs read t = true ↔ ∃ a b, t = a ++ b ∧ b ≠ [] ∧ (read a.reverse b).isSome = true := by
  rw [← Bool.not_eq_false, occurs_eq_false_iff]
  constructor
  · intro h
    by_contra hno
    apply h
    intro a b hab hb
    cases hread : read a.reverse b with
    | none => rfl
    | some r => exact absurd ⟨a, b, hab, hb, by rw [hread]; rfl⟩ hno
  · rintro ⟨a, b, hab, hb, hread⟩ h
    rw [h a b hab hb] at hread
    cases hread

/-! ## What is read and is a hit -/

theorem exists_mem_hitsFrom {a b rest : Text} {v : α} {n : Nat} (hb : b ≠ [])
    (hread : read (a.reverse ++ before) b = some (v, rest)) (hn : n ≤ a.length)
    (hfree : ∀ x y v' rest', a = x ++ y → y ≠ [] →
      read (x.reverse ++ before) (y ++ b) = some (v', rest') → b.length ≤ rest'.length) :
    ∃ k ∈ hitsFrom read before n (a ++ b), k.value = v := by
  induction a generalizing before n with
  | nil =>
    obtain rfl : n = 0 := Nat.le_zero.1 hn
    cases b with
    | nil => exact absurd rfl hb
    | cons c b =>
      rw [List.reverse_nil, List.nil_append] at hread
      rw [List.nil_append, hitsFrom, hread]
      exact ⟨_, List.mem_cons_self, rfl⟩
  | cons c a ih =>
    have hread' : read (a.reverse ++ c :: before) b = some (v, rest) := by simpa using hread
    -- Wherever the scan goes on in front of the place, it comes to it.
    have hlater : ∀ n, n ≤ a.length → ∃ k ∈ hitsFrom read (c :: before) n (a ++ b), k.value = v :=
      fun n hn => ih hread' hn fun x y v' rest' hxy hy h =>
        hfree (c :: x) y v' rest' (by rw [hxy]; rfl) hy (by simpa using h)
    rw [List.cons_append]
    cases n with
    | succ n => exact hlater n (Nat.le_of_succ_le_succ hn)
    | zero =>
      cases hfirst : read before (c :: (a ++ b)) with
      | none =>
        rw [hitsFrom_cons_of_none hfirst]
        exact hlater 0 (Nat.zero_le _)
      | some r =>
        obtain ⟨v', rest'⟩ := r
        have hle := hfree [] (c :: a) v' rest' rfl (List.cons_ne_nil _ _) (by simpa using hfirst)
        obtain ⟨k, hk, hv⟩ := hlater (offsetOf before (c :: (a ++ b)) rest' - before.length - 1) (by
          simp only [offsetOf, List.length_cons, List.length_append]
          omega)
        rw [hitsFrom, hfirst]
        exact ⟨k, List.mem_cons_of_mem _ hk, hv⟩

/-- What is read anywhere is a hit if nothing that is read in front of it goes on behind its
beginning. -/
theorem exists_mem_hits_of_free {a b rest : Text} {v : α} (hb : b ≠ [])
    (hread : read a.reverse b = some (v, rest))
    (hfree : ∀ x y v' rest', a = x ++ y → y ≠ [] →
      read x.reverse (y ++ b) = some (v', rest') → b.length ≤ rest'.length) :
    ∃ k ∈ hits read (a ++ b), k.value = v :=
  exists_mem_hitsFrom hb (by simpa using hread) (Nat.zero_le _) (by simpa using hfree)

/-- A reading that reads nothing inside of what it has read. -/
def NeverOverlaps (read : Reading α) : Prop :=
  ∀ before u b v rest, u ≠ [] → read before (u ++ b) = some (v, rest) → rest.length < b.length →
    read (u.reverse ++ before) b = none

/-- What such a reading reads anywhere is a hit. -/
theorem exists_mem_hits (hread : NeverOverlaps read) {a b rest : Text} {v : α} (hb : b ≠ [])
    (h : read a.reverse b = some (v, rest)) : ∃ k ∈ hits read (a ++ b), k.value = v := by
  refine exists_mem_hits_of_free hb h fun x y v' rest' hxy hy hread' => ?_
  by_contra hlt
  have hnone := hread x.reverse y b v' rest' hy hread' (not_le.1 hlt)
  rw [← List.reverse_append, ← hxy, h] at hnone
  cases hnone

/-! ## Part by part -/

theorem mem_hitsFrom {n : Nat} {h : Hit α} (hh : h ∈ hitsFrom read before n t) :
    ∃ a b rest, t = a ++ b ∧ b ≠ [] ∧ read (a.reverse ++ before) b = some (h.value, rest) := by
  induction t generalizing before n with
  | nil => cases hh
  | cons c t ih =>
    have hlater : ∀ m, h ∈ hitsFrom read (c :: before) m t →
        ∃ a b rest, c :: t = a ++ b ∧ b ≠ [] ∧
          read (a.reverse ++ before) b = some (h.value, rest) := by
      intro m hm
      obtain ⟨a, b, rest, rfl, hb, hread⟩ := ih hm
      exact ⟨c :: a, b, rest, rfl, hb, by rwa [List.reverse_cons, List.append_assoc]⟩
    cases n with
    | succ n => exact hlater n hh
    | zero =>
      cases hr : read before (c :: t) with
      | none =>
        rw [hitsFrom_cons_of_none hr] at hh
        exact hlater 0 hh
      | some r =>
        rw [hitsFrom, hr] at hh
        rcases List.mem_cons.1 hh with rfl | hh
        · exact ⟨[], c :: t, r.2, rfl, List.cons_ne_nil _ _, hr⟩
        · exact hlater _ hh

/-- Where a hit starts and stops. -/
theorem span_of_mem_hitsFrom {n : Nat} {h : Hit α} (hh : h ∈ hitsFrom read before n t) :
    ∃ a b rest, t = a ++ b ∧ read (a.reverse ++ before) b = some (h.value, rest) ∧
      h.start = before.length + a.length ∧ h.stop = h.start + (b.length - rest.length) ∧
      n ≤ a.length := by
  induction t generalizing before n with
  | nil => cases hh
  | cons c t ih =>
    have hlater : ∀ m, h ∈ hitsFrom read (c :: before) m t → n ≤ m + 1 →
        ∃ a b rest, c :: t = a ++ b ∧ read (a.reverse ++ before) b = some (h.value, rest) ∧
          h.start = before.length + a.length ∧ h.stop = h.start + (b.length - rest.length) ∧
          n ≤ a.length := by
      intro m hm hle
      obtain ⟨a, b, rest, rfl, hread, hstart, hstop, hcovered⟩ := ih hm
      refine ⟨c :: a, b, rest, rfl, ?_, ?_, hstop, ?_⟩
      · rwa [List.reverse_cons, List.append_assoc]
      · rw [hstart, List.length_cons, List.length_cons]
        omega
      · rw [List.length_cons]
        omega
    cases n with
    | succ n => exact hlater n hh (Nat.le_refl _)
    | zero =>
      cases hr : read before (c :: t) with
      | none =>
        rw [hitsFrom_cons_of_none hr] at hh
        exact hlater 0 hh (Nat.zero_le _)
      | some r =>
        rw [hitsFrom, hr] at hh
        rcases List.mem_cons.1 hh with rfl | hh
        · exact ⟨[], c :: t, r.2, rfl, hr, rfl, rfl, Nat.zero_le _⟩
        · exact hlater _ hh (Nat.zero_le _)

/-- Hits come in the order of their places, and no two overlap. -/
theorem pairwise_hitsFrom {n : Nat} :
    (hitsFrom read before n t).Pairwise fun h k => h.start < k.start ∧ h.stop ≤ k.start := by
  induction t generalizing before n with
  | nil => exact .nil
  | cons c t ih =>
    cases n with
    | succ n => exact ih
    | zero =>
      cases hr : read before (c :: t) with
      | none =>
        rw [hitsFrom_cons_of_none hr]
        exact ih
      | some r =>
        rw [hitsFrom, hr]
        refine List.pairwise_cons.2 ⟨fun k hk => ?_, ih⟩
        obtain ⟨a, b, rest, -, -, hstart, -, hcovered⟩ := span_of_mem_hitsFrom hk
        rw [List.length_cons] at hstart
        simp only
        omega

/-- A part where nothing is read is passed over. -/
theorem hitsFrom_append_of_none {p next : Text}
    (h : ∀ a b, p = a ++ b → b ≠ [] → read (a.reverse ++ before) (b ++ next) = none) :
    hitsFrom read before 0 (p ++ next) = hitsFrom read (p.reverse ++ before) 0 next := by
  induction p generalizing before with
  | nil => rfl
  | cons c p ih =>
    have hc := h [] (c :: p) rfl (List.cons_ne_nil _ _)
    rw [List.cons_append, List.reverse_nil, List.nil_append] at hc
    rw [List.cons_append, hitsFrom_cons_of_none hc, ih, List.reverse_cons, List.append_assoc]
    · rfl
    · intro a b hab hb
      have := h (c :: a) b (by rw [hab]; rfl) hb
      rwa [List.reverse_cons, List.append_assoc] at this

/-- In the part `p` of a text, between `before` and `next`, what is read ends inside the part. -/
def ReadsInside (read : Reading α) (before p next : Text) : Prop :=
  ∀ a b v rest, p = a ++ b → b ≠ [] → read (a.reverse ++ before) (b ++ next) = some (v, rest) →
    ∃ r, rest = r ++ next ∧ r.length < b.length

theorem ReadsInside.tail {c : Char} {p next : Text} (h : ReadsInside read before (c :: p) next) :
    ReadsInside read (c :: before) p next := by
  intro a b v rest hp hb hread
  refine h (c :: a) b v rest (by rw [hp]; rfl) hb ?_
  rwa [List.reverse_cons, List.append_assoc]

theorem hitsFrom_append_of_inside_aux {p next : Text} (h : ReadsInside read before p next) {n : Nat}
    (hn : n ≤ p.length) :
    ∃ hs, hitsFrom read before n (p ++ next) = hs ++ hitsFrom read (p.reverse ++ before) 0 next ∧
      ∀ k ∈ hs, ∃ a b rest, p = a ++ b ∧ b ≠ [] ∧
        read (a.reverse ++ before) (b ++ next) = some (k.value, rest) := by
  induction p generalizing before n with
  | nil =>
    obtain rfl : n = 0 := Nat.le_zero.1 hn
    exact ⟨[], rfl, fun k hk => nomatch hk⟩
  | cons c p ih =>
    -- Hits that start later are hits of the rest of the part.
    have hlater : ∀ m, m ≤ p.length → ∃ hs, hitsFrom read (c :: before) m (p ++ next) =
        hs ++ hitsFrom read ((c :: p).reverse ++ before) 0 next ∧
        ∀ k ∈ hs, ∃ a b rest, c :: p = a ++ b ∧ b ≠ [] ∧
          read (a.reverse ++ before) (b ++ next) = some (k.value, rest) := by
      intro m hm
      obtain ⟨hs, heq, hmem⟩ := ih h.tail hm
      refine ⟨hs, by rw [heq, List.reverse_cons, List.append_assoc]; rfl, fun k hk => ?_⟩
      obtain ⟨a, b, rest, rfl, hb, hread⟩ := hmem k hk
      exact ⟨c :: a, b, rest, rfl, hb, by rwa [List.reverse_cons, List.append_assoc]⟩
    cases n with
    | succ n => exact hlater n (Nat.le_of_succ_le_succ hn)
    | zero =>
      cases hr : read before (c :: p ++ next) with
      | none =>
        rw [List.cons_append] at hr ⊢
        rw [hitsFrom_cons_of_none hr]
        exact hlater 0 (Nat.zero_le _)
      | some r =>
        obtain ⟨v, rest⟩ := r
        obtain ⟨r, rfl, hlt⟩ := h [] (c :: p) v rest rfl (List.cons_ne_nil _ _) hr
        have hcovered : offsetOf before (c :: (p ++ next)) (r ++ next) - before.length - 1 ≤
            p.length := by
          simp only [offsetOf, List.length_cons, List.length_append] at hlt ⊢
          omega
        obtain ⟨hs, heq, hmem⟩ := hlater _ hcovered
        refine ⟨⟨before.length, offsetOf before (c :: (p ++ next)) (r ++ next), v⟩ :: hs, ?_, ?_⟩
        · rw [List.cons_append] at hr ⊢
          rw [hitsFrom, hr]
          simp only [heq, List.cons_append]
        · intro k hk
          rcases List.mem_cons.1 hk with rfl | hk
          · exact ⟨[], c :: p, r ++ next, rfl, List.cons_ne_nil _ _, hr⟩
          · exact hmem k hk

/-- A part that no hit leaves is scanned on its own: the scan goes on behind it, and the hits found
so far start in it. -/
theorem hitsFrom_append_of_inside {p next : Text} (h : ReadsInside read before p next) :
    ∃ hs, hitsFrom read before 0 (p ++ next) = hs ++ hitsFrom read (p.reverse ++ before) 0 next ∧
      ∀ k ∈ hs, ∃ a b rest, p = a ++ b ∧ b ≠ [] ∧
        read (a.reverse ++ before) (b ++ next) = some (k.value, rest) :=
  hitsFrom_append_of_inside_aux h (Nat.zero_le _)

end QueryGate
