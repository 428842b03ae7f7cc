import Mathlib.Data.List.TakeWhile
import QueryGate.Sql.Literal

/-!
# The mask of string literals

The mask is made with a look ahead to the end of each literal. Here it is told by what lies before
and behind a place: a text is masked from the outside (`maskLiterals`) or from inside a literal
(`maskOpen`), and which of the two holds at a place depends only on whether the apostrophes before
it are even in number (`endsOutside_iff`, `drop_maskLiterals_append`). So masking can be cut at a
place outside literals (`maskLiterals_append_of_even`), and what follows the last apostrophe is
never masked (`maskLiterals_append_of_not_mem`).
-/

namespace QueryGate

/-- The mask of a text that begins inside a literal. -/
def maskOpen (t : Text) : Text := maskFrom '\'' literalTail? ((literalTail? t).getD 0) t

/-! ## Where an opened literal ends -/

theorem literalTail?_cons {c : Char} (hc : c ≠ '\'') (t : Text) :
    literalTail? (c :: t) = (literalTail? t).map (· + 1) := by
  rw [literalTail?, if_neg (by simpa using hc)]
  exact fun _ h => absurd h hc

theorem literalTail?_apostrophe {t : Text} (ht : t.head? ≠ some '\'') :
    literalTail? ('\'' :: t) = some 1 := by
  rw [literalTail?, if_pos (by decide)]
  rintro t' - rfl
  exact ht rfl

/-- A literal that is opened is closed if any apostrophe follows. -/
theorem literalTail?_eq_none_iff {t : Text} : literalTail? t = none ↔ '\'' ∉ t := by
  fun_induction literalTail? t with
  | case1 => simp
  | case2 t n h ih => simp
  | case3 t h ih => simp
  | case4 c t hne hc =>
    obtain rfl := beq_iff_eq.1 hc
    simp
  | case5 c t hne hc ih =>
    have hc' : c ≠ '\'' := by simpa using hc
    simp [ih, hc'.symm]

theorem literalTail?_ne_zero (t : Text) : literalTail? t ≠ some 0 := by
  fun_induction literalTail? t with
  | case1 => simp
  | case2 t n h ih => simp
  | case3 t h ih => simp
  | case4 c t hne hc => simp
  | case5 c t hne hc ih => simp

/-! ## The mask, character by character -/

theorem maskLiterals_cons {c : Char} (hc : c ≠ '\'') (t : Text) :
    maskLiterals (c :: t) = c :: maskLiterals t := by
  rw [maskLiterals, maskFrom, if_neg (by simpa using hc)]
  rfl

theorem maskLiterals_apostrophe (t : Text) : maskLiterals ('\'' :: t) = '\'' :: maskOpen t := by
  rw [maskLiterals, maskFrom, if_pos (by decide)]
  rfl

theorem maskLiterals_eq_self {t : Text} (ht : '\'' ∉ t) : maskLiterals t = t := by
  induction t with
  | nil => rfl
  | cons c t ih =>
    obtain ⟨hc, ht⟩ := List.ne_and_not_mem_of_not_mem_cons ht
    rw [maskLiterals_cons hc.symm, ih ht]

theorem maskOpen_eq_self {t : Text} (ht : '\'' ∉ t) : maskOpen t = t := by
  rw [maskOpen, literalTail?_eq_none_iff.2 ht]
  exact maskLiterals_eq_self ht

theorem apostrophe_mem_of_literalTail? {t : Text} {n : Nat} (h : literalTail? t = some n) :
    '\'' ∈ t := by
  by_contra hno
  rw [literalTail?_eq_none_iff.2 hno] at h
  cases h

/-- An apostrophe closes the literal, and it is behind its beginning. -/
theorem exists_literalTail? {t : Text} (ht : '\'' ∈ t) : ∃ n, literalTail? t = some (n + 1) := by
  cases hn : literalTail? t with
  | none => exact absurd ht (literalTail?_eq_none_iff.1 hn)
  | some n =>
    cases n with
    | zero => exact absurd hn (literalTail?_ne_zero t)
    | succ n => exact ⟨n, rfl⟩

theorem maskOpen_cons {c : Char} {t : Text} (hc : c ≠ '\'') (ht : '\'' ∈ t) :
    maskOpen (c :: t) = maskChar :: maskOpen t := by
  obtain ⟨n, hn⟩ := exists_literalTail? ht
  rw [maskOpen, literalTail?_cons hc, hn]
  simp only [Option.map_some, Option.getD_some]
  rw [maskFrom, if_neg (Nat.succ_ne_zero n), maskOpen, hn]
  rfl

/-- An apostrophe that no other follows closes the literal. -/
theorem maskOpen_apostrophe {t : Text} (ht : t.head? ≠ some '\'') :
    maskOpen ('\'' :: t) = '\'' :: maskLiterals t := by
  rw [maskOpen, literalTail?_apostrophe ht]
  simp only [Option.getD_some]
  rw [maskFrom, if_pos rfl]
  rfl

/-- Two apostrophes inside a literal that another one closes are an escape. -/
theorem maskOpen_escape {t : Text} (ht : '\'' ∈ t) :
    maskOpen ('\'' :: '\'' :: t) = maskChar :: maskChar :: maskOpen t := by
  obtain ⟨n, hn⟩ := exists_literalTail? ht
  rw [maskOpen, literalTail?, hn]
  simp only [Option.getD_some]
  rw [maskFrom, maskFrom, if_neg (Nat.succ_ne_zero _), if_neg (Nat.succ_ne_zero n), maskOpen, hn]
  rfl

/-- The last two apostrophes of a text close a literal and stand for themselves. -/
theorem maskOpen_last_two {t : Text} (ht : '\'' ∉ t) :
    maskOpen ('\'' :: '\'' :: t) = '\'' :: '\'' :: t := by
  rw [maskOpen, literalTail?, literalTail?_eq_none_iff.2 ht]
  simp only [Option.getD_some]
  rw [maskFrom, if_pos rfl]
  have : maskFrom '\'' literalTail? 0 ('\'' :: t) = '\'' :: maskOpen t := maskLiterals_apostrophe t
  rw [this, maskOpen_eq_self ht]

theorem getLast?_maskFrom {d : Char} {tail? : Text → Option Nat}
    (htail : ∀ t n, tail? t = some n → n ≤ t.length) {n : Nat} {t : Text} (hn : n ≤ t.length) :
    (maskFrom d tail? n t).getLast? = t.getLast? := by
  have hkeep : ∀ (c e : Char) (m t : Text), (t = [] → c = e) → (m = [] ↔ t = []) →
      m.getLast? = t.getLast? → (c :: m).getLast? = (e :: t).getLast? := by
    intro c e m t hce hmt h
    rw [List.getLast?_cons, List.getLast?_cons, h]
    cases t with
    | nil => simp [hce rfl]
    | cons a t => simp [List.getLast?_cons]
  induction t generalizing n with
  | nil => rw [maskFrom]
  | cons c t ih =>
    have hnil : ∀ m, maskFrom d tail? m t = [] ↔ t = [] := by
      intro m
      rw [← List.length_eq_zero_iff, ← List.length_eq_zero_iff, length_maskFrom]
    cases n with
    | succ n =>
      have hn' : n ≤ t.length := Nat.le_of_succ_le_succ hn
      rw [maskFrom]
      refine hkeep _ _ _ _ (fun ht => ?_) (hnil n) (ih hn')
      subst ht
      rw [if_pos (Nat.le_zero.1 hn')]
    | zero =>
      rw [maskFrom]
      refine hkeep _ _ _ _ (fun _ => rfl) (hnil _) (ih ?_)
      split
      · cases hk : tail? t with
        | none => exact Nat.zero_le _
        | some k => exact htail t k hk
      · exact Nat.zero_le _

theorem literalTail?_le_length {t : Text} {n : Nat} (h : literalTail? t = some n) :
    n ≤ t.length := by
  fun_induction literalTail? t generalizing n with
  | case1 => cases h
  | case2 t m hm ih =>
    obtain rfl := Option.some.inj h
    have := ih hm
    simp only [List.length_cons]
    omega
  | case3 t hm ih =>
    obtain rfl := Option.some.inj h
    simp
  | case4 c t hne hc =>
    obtain rfl := Option.some.inj h
    simp
  | case5 c t hne hc ih =>
    obtain ⟨m, hm, rfl⟩ := Option.map_eq_some_iff.1 h
    have := ih hm
    simp only [List.length_cons]
    omega

@[simp] theorem getLast?_maskLiterals (t : Text) : (maskLiterals t).getLast? = t.getLast? :=
  getLast?_maskFrom (fun _ _ => literalTail?_le_length) (Nat.zero_le _)

/-! ## Cutting a mask -/

/-- The mask of a text that begins inside or outside a literal. -/
def maskAs : (inside : Bool) → Text → Text
  | false, t => maskLiterals t
  | true, t => maskOpen t

/-- Induction along a text from a place inside or outside a literal: an apostrophe opens or closes
the literal, or stands in it as one of two. -/
theorem maskAs_induction {motive : Bool → Text → Prop} (nil : ∀ inside, motive inside [])
    (opening : ∀ a, motive true a → motive false ('\'' :: a))
    (plain : ∀ c a, c ≠ '\'' → motive false a → motive false (c :: a))
    (closing : ∀ a, a.head? ≠ some '\'' → motive false a → motive true ('\'' :: a))
    (escape : ∀ a, motive true a → motive true ('\'' :: '\'' :: a))
    (masked : ∀ c a, c ≠ '\'' → motive true a → motive true (c :: a)) (inside : Bool) (a : Text) :
    motive inside a := by
  induction h : a.length using Nat.strongRecOn generalizing inside a with
  | ind n ih =>
    subst h
    cases a with
    | nil => exact nil inside
    | cons c a =>
      have iha (inside : Bool) : motive inside a := ih a.length (by simp) inside a rfl
      by_cases hc : c = '\''
      · subst hc
        cases inside with
        | false => exact opening a (iha true)
        | true =>
          by_cases hhead : a.head? = some '\''
          · obtain ⟨u, rfl⟩ := List.head?_eq_some_iff.1 hhead
            exact escape u (ih u.length (by simp only [List.length_cons]; omega) true u rfl)
          · exact closing a hhead (iha false)
      · cases inside with
        | false => exact plain c a hc (iha false)
        | true => exact masked c a hc (iha true)

theorem head?_append_ne_of_ne {c : Char} {a b : Text} (ha : a.head? ≠ some c)
    (hb : b.head? ≠ some c) : (a ++ b).head? ≠ some c := by
  cases a with
  | nil => exact hb
  | cons d a => exact ha

theorem maskAs_append_of_not_mem {b : Text} (hb : '\'' ∉ b) (inside : Bool) (a : Text) :
    maskAs inside (a ++ b) = maskAs inside a ++ b := by
  have hhead : b.head? ≠ some '\'' := fun h => hb (List.mem_of_mem_head? h)
  induction inside, a using maskAs_induction with
  | nil inside =>
    cases inside with
    | false => exact maskLiterals_eq_self hb
    | true => exact maskOpen_eq_self hb
  | opening a ih =>
    change maskLiterals ('\'' :: (a ++ b)) = maskLiterals ('\'' :: a) ++ b
    rw [maskLiterals_apostrophe, maskLiterals_apostrophe]
    exact congrArg _ ih
  | plain c a hc ih =>
    change maskLiterals (c :: (a ++ b)) = maskLiterals (c :: a) ++ b
    rw [maskLiterals_cons hc, maskLiterals_cons hc]
    exact congrArg _ ih
  | closing a ha ih =>
    change maskOpen ('\'' :: (a ++ b)) = maskOpen ('\'' :: a) ++ b
    rw [maskOpen_apostrophe (head?_append_ne_of_ne ha hhead), maskOpen_apostrophe ha]
    exact congrArg _ ih
  | escape a ih =>
    change maskOpen ('\'' :: '\'' :: (a ++ b)) = maskOpen ('\'' :: '\'' :: a) ++ b
    by_cases ha : '\'' ∈ a
    · rw [maskOpen_escape ha, maskOpen_escape (List.mem_append_left b ha)]
      exact congrArg _ (congrArg _ ih)
    · have hab : '\'' ∉ a ++ b := fun h => (List.mem_append.1 h).elim ha hb
      rw [maskOpen_last_two ha, maskOpen_last_two hab]
      rfl
  | masked c a hc ih =>
    change maskOpen (c :: (a ++ b)) = maskOpen (c :: a) ++ b
    by_cases ha : '\'' ∈ a
    · rw [maskOpen_cons hc ha, maskOpen_cons hc (List.mem_append_left b ha)]
      exact congrArg _ ih
    · have ha' : '\'' ∉ c :: a := List.not_mem_cons_of_ne_of_not_mem (Ne.symm hc) ha
      have hab : '\'' ∉ c :: a ++ b := fun h => (List.mem_append.1 h).elim ha' hb
      exact (maskOpen_eq_self hab).trans (by rw [maskOpen_eq_self ha'])

/-- What follows the last apostrophe is not masked, and has no part in the mask of the rest. -/
theorem maskLiterals_append_of_not_mem (a : Text) {b : Text} (hb : '\'' ∉ b) :
    maskLiterals (a ++ b) = maskLiterals a ++ b := maskAs_append_of_not_mem hb false a

theorem exists_last_of_mem {c : Char} {t : Text} (h : c ∈ t) :
    ∃ a b, t = a ++ c :: b ∧ c ∉ b := by
  induction t with
  | nil => cases h
  | cons d t ih =>
    by_cases ht : c ∈ t
    · obtain ⟨a, b, rfl, hb⟩ := ih ht
      exact ⟨d :: a, b, rfl, hb⟩
    · obtain rfl := (List.mem_cons.1 h).resolve_right ht
      exact ⟨[], t, rfl, ht⟩

/-- The last apostrophe of a text is not masked. -/
theorem apostrophe_mem_drop_maskLiterals (a : Text) {b : Text} (hb : '\'' ∈ b) :
    '\'' ∈ (maskLiterals (a ++ b)).drop a.length := by
  obtain ⟨u, v, rfl, hv⟩ := exists_last_of_mem hb
  have hsplit : a ++ (u ++ '\'' :: v) = (a ++ u ++ ['\'']) ++ v := by
    rw [List.append_assoc, List.append_assoc, List.singleton_append, ← List.append_assoc a]
  have hlast : (maskLiterals (a ++ u ++ ['\''])).getLast? = some '\'' := by
    rw [getLast?_maskLiterals, List.getLast?_append]
    rfl
  rw [hsplit, maskLiterals_append_of_not_mem _ hv]
  have hlen : a.length < (maskLiterals (a ++ u ++ ['\''])).length := by
    simp only [length_maskLiterals, List.length_append, List.length_cons, List.length_nil]
    omega
  rw [List.drop_append_of_le_length (Nat.le_of_lt hlen)]
  refine List.mem_append_left _ (List.mem_of_getLast? ?_)
  rw [List.getLast?_drop, if_neg (Nat.not_le_of_lt hlen), hlast]

/-- An end of a mask without apostrophes is the end of the text as it stands, and what stands
before it is masked on its own. -/
theorem maskLiterals_append_of_not_mem_drop {a b : Text}
    (h : '\'' ∉ (maskLiterals (a ++ b)).drop a.length) :
    '\'' ∉ b ∧ maskLiterals (a ++ b) = maskLiterals a ++ b := by
  have hb : '\'' ∉ b := fun hb => h (apostrophe_mem_drop_maskLiterals a hb)
  exact ⟨hb, maskLiterals_append_of_not_mem a hb⟩

/-- Read from inside or from outside a literal, a text ends outside literals. -/
inductive EndsOutside : (inside : Bool) → Text → Prop
  | nil : EndsOutside false []
  | opening {a : Text} (h : EndsOutside true a) : EndsOutside false ('\'' :: a)
  | plain {c : Char} {a : Text} (hc : c ≠ '\'') (h : EndsOutside false a) :
      EndsOutside false (c :: a)
  | closing {a : Text} (ha : a.head? ≠ some '\'') (h : EndsOutside false a) :
      EndsOutside true ('\'' :: a)
  | escape {a : Text} (h : EndsOutside true a) : EndsOutside true ('\'' :: '\'' :: a)
  | masked {c : Char} {a : Text} (hc : c ≠ '\'') (h : EndsOutside true a) :
      EndsOutside true (c :: a)

/-- Each apostrophe changes sides, those of an escape twice. -/
theorem endsOutside_iff {inside : Bool} {a : Text} :
    EndsOutside inside a ↔ a.count '\'' % 2 = inside.toNat := by
  constructor
  · intro h
    induction h with
    | nil => rfl
    | opening _ ih | closing _ _ ih =>
      rw [List.count_cons_self]
      simp only [Bool.toNat_true, Bool.toNat_false] at *
      omega
    | plain hc _ ih | masked hc _ ih => rwa [List.count_cons_of_ne hc]
    | escape _ ih =>
      rw [List.count_cons_self, List.count_cons_self, ← ih]
      omega
  · intro hcount
    induction inside, a using maskAs_induction with
    | nil inside =>
      cases inside with
      | false => exact .nil
      | true => exact absurd hcount (by decide)
    | opening a ih =>
      rw [List.count_cons_self] at hcount
      refine .opening (ih ?_)
      simp only [Bool.toNat_true, Bool.toNat_false] at *
      omega
    | plain c a hc ih => exact .plain hc (ih (by rwa [List.count_cons_of_ne hc] at hcount))
    | closing a ha ih =>
      rw [List.count_cons_self] at hcount
      refine .closing ha (ih ?_)
      simp only [Bool.toNat_true, Bool.toNat_false] at *
      omega
    | escape a ih =>
      rw [List.count_cons_self, List.count_cons_self] at hcount
      refine .escape (ih ?_)
      rw [← hcount]
      omega
    | masked c a hc ih => exact .masked hc (ih (by rwa [List.count_cons_of_ne hc] at hcount))

/-- Inside a literal that is closed, an apostrophe is still to come. -/
theorem EndsOutside.apostrophe_mem {a : Text} (h : EndsOutside true a) : '\'' ∈ a := by
  have hcount := endsOutside_iff.1 h
  rw [Bool.toNat_true] at hcount
  exact List.count_pos_iff.1 (by omega)

theorem EndsOutside.maskAs_append {inside : Bool} {a b : Text} (h : EndsOutside inside a)
    (hab : a.getLast? ≠ some '\'' ∨ b.head? ≠ some '\'') :
    maskAs inside (a ++ b) = maskAs inside a ++ maskLiterals b := by
  have htail {c : Char} {a : Text} (h : (c :: a).getLast? ≠ some '\'' ∨ b.head? ≠ some '\'') :
      a.getLast? ≠ some '\'' ∨ b.head? ≠ some '\'' := by
    cases a with
    | nil => exact .inl (by simp)
    | cons d a => rwa [List.getLast?_cons_of_ne_nil (List.cons_ne_nil _ _)] at h
  induction h with
  | nil => rfl
  | @opening a h ih =>
    change maskLiterals ('\'' :: (a ++ b)) = maskLiterals ('\'' :: a) ++ maskLiterals b
    rw [maskLiterals_apostrophe, maskLiterals_apostrophe]
    exact congrArg _ (ih (htail hab))
  | @plain c a hc h ih =>
    change maskLiterals (c :: (a ++ b)) = maskLiterals (c :: a) ++ maskLiterals b
    rw [maskLiterals_cons hc, maskLiterals_cons hc]
    exact congrArg _ (ih (htail hab))
  | @closing a ha h ih =>
    have hhead : (a ++ b).head? ≠ some '\'' := by
      cases a with
      | nil => exact hab.resolve_left fun h => h rfl
      | cons d a => exact ha
    change maskOpen ('\'' :: (a ++ b)) = maskOpen ('\'' :: a) ++ maskLiterals b
    rw [maskOpen_apostrophe hhead, maskOpen_apostrophe ha]
    exact congrArg _ (ih (htail hab))
  | @escape a h ih =>
    have ha := h.apostrophe_mem
    change maskOpen ('\'' :: '\'' :: (a ++ b)) = maskOpen ('\'' :: '\'' :: a) ++ maskLiterals b
    rw [maskOpen_escape ha, maskOpen_escape (List.mem_append_left b ha)]
    exact congrArg _ (congrArg _ (ih (htail (htail hab))))
  | @masked c a hc h ih =>
    have ha := h.apostrophe_mem
    change maskOpen (c :: (a ++ b)) = maskOpen (c :: a) ++ maskLiterals b
    rw [maskOpen_cons hc ha, maskOpen_cons hc (List.mem_append_left b ha)]
    exact congrArg _ (ih (htail hab))

/-- A text is masked in two parts if it is cut outside literals, and not within two adjacent
apostrophes. -/
theorem maskLiterals_append_of_even {a b : Text} (ha : a.count '\'' % 2 = 0)
    (hab : a.getLast? ≠ some '\'' ∨ b.head? ≠ some '\'') :
    maskLiterals (a ++ b) = maskLiterals a ++ maskLiterals b :=
  (endsOutside_iff.2 ha : EndsOutside false a).maskAs_append hab

/-- At a place that no apostrophe follows directly, the mask goes on from inside or from outside a
literal: each apostrophe before the place changes sides. -/
theorem drop_maskAs_append {b : Text} (hb : b.head? ≠ some '\'') (inside : Bool) (a : Text) :
    (maskAs inside (a ++ b)).drop a.length = maskAs (inside ^^ (a.count '\'' % 2 == 1)) b := by
  have hflip (n : Nat) : ((n + 1) % 2 == 1) = !(n % 2 == 1) := by
    rw [Bool.eq_iff_iff, Bool.not_eq_true', beq_iff_eq, beq_eq_false_iff_ne]
    omega
  induction inside, a using maskAs_induction with
  | nil inside => simp
  | opening a ih =>
    change (maskLiterals ('\'' :: (a ++ b))).drop (a.length + 1) = _
    rw [maskLiterals_apostrophe, List.drop_succ_cons, List.count_cons_self, hflip, Bool.false_xor]
    rw [Bool.true_xor] at ih
    exact ih
  | plain c a hc ih =>
    change (maskLiterals (c :: (a ++ b))).drop (a.length + 1) = _
    rw [maskLiterals_cons hc, List.drop_succ_cons, List.count_cons_of_ne hc]
    exact ih
  | closing a ha ih =>
    change (maskOpen ('\'' :: (a ++ b))).drop (a.length + 1) = _
    rw [maskOpen_apostrophe (head?_append_ne_of_ne ha hb), List.drop_succ_cons,
      List.count_cons_self, hflip, Bool.true_xor, Bool.not_not]
    rw [Bool.false_xor] at ih
    exact ih
  | escape a ih =>
    change (maskOpen ('\'' :: '\'' :: (a ++ b))).drop (a.length + 2) = _
    rw [List.count_cons_self, List.count_cons_self, hflip, hflip, Bool.not_not]
    by_cases hab : '\'' ∈ a ++ b
    · rw [maskOpen_escape hab]
      exact ih
    · have ha : '\'' ∉ a := fun h => hab (List.mem_append_left b h)
      have hb' : '\'' ∉ b := fun h => hab (List.mem_append_right a h)
      rw [maskOpen_last_two hab, List.count_eq_zero_of_not_mem ha]
      exact List.drop_left.trans (maskOpen_eq_self hb').symm
  | masked c a hc ih =>
    change (maskOpen (c :: a ++ b)).drop (c :: a).length = _
    rw [List.count_cons_of_ne hc]
    by_cases hab : '\'' ∈ a ++ b
    · rw [List.cons_append, maskOpen_cons hc hab]
      exact ih
    · have ha : '\'' ∉ a := fun h => hab (List.mem_append_left b h)
      have hb' : '\'' ∉ b := fun h => hab (List.mem_append_right a h)
      have hcab : '\'' ∉ c :: a ++ b := List.not_mem_cons_of_ne_of_not_mem (Ne.symm hc) hab
      rw [maskOpen_eq_self hcab, List.count_eq_zero_of_not_mem ha]
      exact List.drop_left.trans (maskOpen_eq_self hb').symm

/-- At a place that no apostrophe follows directly, the mask goes on from outside or from inside a
literal, as the apostrophes before the place are even or odd in number. -/
theorem drop_maskLiterals_append (a : Text) {b : Text} (hb : b.head? ≠ some '\'') :
    (maskLiterals (a ++ b)).drop a.length =
      if a.count '\'' % 2 = 0 then maskLiterals b else maskOpen b := by
  have h := drop_maskAs_append hb false a
  rw [Bool.false_xor] at h
  by_cases heven : a.count '\'' % 2 = 0
  · rw [heven] at h
    rw [if_pos heven]
    exact h
  · have hodd : a.count '\'' % 2 = 1 := by omega
    rw [hodd] at h
    rw [if_neg heven]
    exact h

/-! ## Masked and unmasked characters -/

theorem maskLiterals_prepend {w : Text} (hw : '\'' ∉ w) (t : Text) :
    maskLiterals (w ++ t) = w ++ maskLiterals t := by
  induction w with
  | nil => rfl
  | cons c w ih =>
    obtain ⟨hc, hw⟩ := List.ne_and_not_mem_of_not_mem_cons hw
    rw [List.cons_append, maskLiterals_cons hc.symm, ih hw]
    rfl

theorem maskOpen_prepend {w t : Text} (hw : '\'' ∉ w) (ht : '\'' ∈ t) :
    maskOpen (w ++ t) = List.replicate w.length maskChar ++ maskOpen t := by
  induction w with
  | nil => rfl
  | cons c w ih =>
    obtain ⟨hc, hw⟩ := List.ne_and_not_mem_of_not_mem_cons hw
    rw [List.cons_append, maskOpen_cons hc.symm (List.mem_append_right w ht), ih hw]
    rfl

theorem head?_maskLiterals (t : Text) : (maskLiterals t).head? = t.head? := by
  cases t with
  | nil => rfl
  | cons c t =>
    by_cases hc : c = '\''
    · subst hc
      rw [maskLiterals_apostrophe]
      rfl
    · rw [maskLiterals_cons hc]
      rfl

theorem getElem?_maskFrom {n : Nat} {t : Text} {i : Nat} {c : Char}
    (h : (maskFrom '\'' literalTail? n t)[i]? = some c) (hc : c ≠ maskChar) : t[i]? = some c := by
  induction t generalizing n i with
  | nil =>
    rw [maskFrom] at h
    exact h
  | cons d t ih =>
    cases i with
    | succ i =>
      cases n with
      | zero => exact ih h
      | succ n => exact ih h
    | zero =>
      cases n with
      | zero => exact h
      | succ n =>
        have h0 : (if n = 0 then d else maskChar) = c := Option.some.inj h
        split at h0
        · rw [← h0]
          rfl
        · exact absurd h0.symm hc

/-- A mask differs from the text in masked characters only. -/
theorem getElem?_maskLiterals {t : Text} {i : Nat} {c : Char} (h : (maskLiterals t)[i]? = some c)
    (hc : c ≠ maskChar) : t[i]? = some c := getElem?_maskFrom h hc

end QueryGate
