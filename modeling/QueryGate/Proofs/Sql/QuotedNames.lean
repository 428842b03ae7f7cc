import Mathlib.Data.List.Basic
import Mathlib.Data.List.Induction
import QueryGate.Proofs.Sql.Lexing
import QueryGate.Proofs.Sql.LiteralMask
import QueryGate.Proofs.Text.Parts
import QueryGate.Sql.Identifier

/-!
# Quoted names in a text and in its mask

The mask knows apostrophes only, and a lexer knows quoted names. If every quoted name holds an even
number of apostrophes (`PairedApostrophes`) the two agree on where the quotes are: the mask keeps
those of quoted names and blots out those in literals. So an offset is inside a quoted name exactly
if the quotes before it, as the mask shows them, are odd in number (`count_quotes`).
-/

namespace QueryGate

/-- Behind `before` a lexer finds a name in quotes. -/
structure IsQuotedName (sql before name : Text) : Prop where
  stands : before ++ inQuotes name <+: sql
  outside : (lexState before).isOutside = true
  no_quote : '"' ∉ name

/-- No quoted name holds an odd number of apostrophes. -/
def PairedApostrophes (sql : Text) : Prop :=
  ∀ before name, IsQuotedName sql before name → name.count '\'' % 2 = 0

/-- Whether an offset is behind the opening quote of a name, and not behind its closing quote. -/
def InQuotes (sql : Text) (k : Nat) : Prop := lexState (sql.take k) = .quotedName

instance (sql : Text) (k : Nat) : Decidable (InQuotes sql k) :=
  inferInstanceAs (Decidable (lexState (sql.take k) = .quotedName))

/-! ## The lexer, character by character -/

theorem lexState_concat (a : Text) (c : Char) : lexState (a ++ [c]) = (lexState a).next c := by
  rw [lexState, List.foldl_append]
  rfl

theorem foldl_next_quotedName {n : Text} (hn : '"' ∉ n) :
    n.foldl LexState.next .quotedName = .quotedName := by
  induction n with
  | nil => rfl
  | cons c n ih =>
    obtain ⟨hc, hn⟩ := not_or.1 (mt List.mem_cons.2 hn)
    rw [List.foldl_cons, LexState.next, if_neg (Ne.symm hc)]
    exact ih hn

theorem foldl_next_literal {b : Text} (hb : '\'' ∉ b) :
    b.foldl LexState.next .literal = .literal := by
  induction b with
  | nil => rfl
  | cons c b ih =>
    obtain ⟨hc, hb⟩ := not_or.1 (mt List.mem_cons.2 hb)
    rw [List.foldl_cons, LexState.next, if_neg (Ne.symm hc)]
    exact ih hb

theorem LexState.ne_of_isOutside {s : LexState} (h : s.isOutside = true) :
    s ≠ .literal ∧ s ≠ .quotedName := by
  cases s <;> first | decide | cases h

theorem LexState.next_quote {s : LexState} (h : s.isOutside = true) : s.next '"' = .quotedName := by
  cases s <;> first | rfl | cases h

theorem LexState.of_next_eq_quotedName {s : LexState} {c : Char} (h : s.next c = .quotedName)
    (hs : s ≠ .quotedName) : s.isOutside = true ∧ c = '"' := by
  have hrest : ofRest c = .quotedName → c = '"' := by
    unfold ofRest
    split
    · nofun
    · split
      · exact fun _ => by assumption
      · nofun
  cases s with
  | rest => exact ⟨rfl, hrest h⟩
  | literal =>
    rw [next] at h
    split at h <;> cases h
  | apostrophe =>
    rw [next] at h
    split at h
    · cases h
    · exact ⟨rfl, hrest h⟩
  | quotedName => exact absurd rfl hs

theorem LexState.next_eq_quotedName_iff {s : LexState} {c : Char} (hc : c ≠ '"') :
    s.next c = .quotedName ↔ s = .quotedName := by
  constructor
  · intro h
    by_contra hs
    exact hc (of_next_eq_quotedName h hs).2
  · rintro rfl
    rw [next, if_neg hc]

/-- Outside literals a quote opens a name, or closes the one at hand. -/
theorem LexState.next_quote_eq_quotedName_iff {s : LexState} (hs : s ≠ .literal) :
    s.next '"' = .quotedName ↔ s ≠ .quotedName := by
  cases s with
  | literal => exact absurd rfl hs
  | rest | apostrophe | quotedName => decide

/-- Behind an opening quote the lexer is in a name. -/
theorem lexState_opened {before n : Text} (h : (lexState before).isOutside = true) (hn : '"' ∉ n) :
    lexState (before ++ '"' :: n) = .quotedName := by
  rw [lexState, List.foldl_append, List.foldl_cons, ← lexState, LexState.next_quote h]
  exact foldl_next_quotedName hn

/-- Where the lexer is in a name, the name has been opened. -/
theorem exists_opened {a : Text} (h : lexState a = .quotedName) :
    ∃ before n, a = before ++ '"' :: n ∧ (lexState before).isOutside = true ∧ '"' ∉ n := by
  induction a using List.reverseRecOn with
  | nil => cases h
  | append_singleton a c ih =>
    rw [lexState_concat] at h
    by_cases hname : lexState a = .quotedName
    · obtain ⟨before, n, rfl, hbefore, hn⟩ := ih hname
      refine ⟨before, n ++ [c], by simp, hbefore, ?_⟩
      rw [hname, LexState.next] at h
      split at h
      · cases h
      · rename_i hc
        simpa using ⟨hn, Ne.symm hc⟩
    · have hopen : (lexState a).isOutside = true ∧ c = '"' :=
        LexState.of_next_eq_quotedName h hname
      exact ⟨a, [], by rw [hopen.2], hopen.1, List.not_mem_nil⟩

namespace IsQuotedName

variable {sql before name : Text}

theorem exists_after (h : IsQuotedName sql before name) :
    ∃ after, sql = before ++ '"' :: (name ++ '"' :: after) := by
  obtain ⟨after, hafter⟩ := h.stands
  exact ⟨after, by rw [← hafter]; simp [inQuotes]⟩

/-- A name runs up to the next quote. -/
theorem of_split {rest : Text} (hsql : sql = before ++ '"' :: rest)
    (hbefore : (lexState before).isOutside = true) (hclosed : '"' ∈ rest) :
    IsQuotedName sql before (rest.takeWhile (· != '"')) := by
  obtain ⟨name, after, rfl, hname⟩ := List.eq_append_cons_of_mem hclosed
  rw [takeWhile_append_of_all (bne_of_not_mem hname) (by simp)]
  exact ⟨⟨after, by rw [hsql]; simp [inQuotes]⟩, hbefore, hname⟩

/-- A place behind the opening quote of a name, and not behind its closing quote, is in quotes. -/
theorem inQuotes {k : Nat} (h : IsQuotedName sql before name) (hlt : before.length < k)
    (hle : k ≤ before.length + 1 + name.length) : InQuotes sql k := by
  obtain ⟨after, rfl⟩ := h.exists_after
  have htake : (before ++ '"' :: (name ++ '"' :: after)).take k =
      before ++ '"' :: name.take (k - before.length - 1) := by
    rw [List.take_append, List.take_of_length_le (Nat.le_of_lt hlt),
      show k - before.length = k - before.length - 1 + 1 by omega, List.take_succ_cons,
      List.take_append_of_le_length (by omega)]
    simp
  rw [InQuotes, htake]
  exact lexState_opened h.outside fun hmem => h.no_quote (List.mem_of_mem_take hmem)

/-- Between its quotes a name has none. -/
theorem not_quote {k : Nat} (h : IsQuotedName sql before name) (hlt : before.length < k)
    (hlt' : k < before.length + 1 + name.length) : sql[k]? ≠ some '"' := by
  obtain ⟨after, rfl⟩ := h.exists_after
  rw [List.getElem?_append_right (by omega), show k - before.length = k - before.length - 1 + 1 by
    omega, List.getElem?_cons_succ, List.getElem?_append_left (by omega)]
  exact fun hquote => h.no_quote (List.mem_of_getElem? hquote)

end IsQuotedName

/-- A place in quotes is in a name, if the text does not end in one. -/
theorem InQuotes.exists_name {sql : Text} {k : Nat} (h : InQuotes sql k)
    (hlexed : (lexState sql).isOutside = true) :
    ∃ before name, IsQuotedName sql before name ∧ before.length < k ∧
      k ≤ before.length + 1 + name.length := by
  obtain ⟨before, n, htake, hbefore, hn⟩ := exists_opened h
  have hsql : sql = before ++ '"' :: (n ++ sql.drop k) := by
    conv =>
      lhs
      rw [← List.take_append_drop k sql, htake]
    simp
  have hclosed : '"' ∈ n ++ sql.drop k := by
    by_contra hopen
    rw [hsql, lexState_opened hbefore hopen] at hlexed
    cases hlexed
  have hk : k ≤ sql.length := by
    by_contra hgt
    rw [InQuotes, List.take_of_length_le (by omega)] at h
    rw [h] at hlexed
    cases hlexed
  have hlen := congrArg List.length htake
  rw [List.length_take_of_le hk, List.length_append, List.length_cons] at hlen
  refine ⟨before, _, .of_split hsql hbefore hclosed, by omega, ?_⟩
  rw [List.takeWhile_append_of_pos (bne_of_not_mem hn), List.length_append]
  omega

/-- A text can be searched for a name with an odd number of apostrophes. -/
theorem pairedApostrophes_iff {sql : Text} :
    PairedApostrophes sql ↔ ∀ i < sql.length, (lexState (sql.take i)).isOutside = true →
      sql[i]? = some '"' → '"' ∈ sql.drop (i + 1) →
        ((sql.drop (i + 1)).takeWhile (· != '"')).count '\'' % 2 = 0 := by
  constructor
  · intro h i hi houtside hquote hclosed
    have hsplit : sql = sql.take i ++ '"' :: sql.drop (i + 1) := by
      have hget : sql[i] = '"' := (List.getElem?_eq_some_iff.1 hquote).2
      rw [← hget, ← List.drop_eq_getElem_cons hi, List.take_append_drop]
    exact h _ _ (.of_split hsplit houtside hclosed)
  · intro h before name hname
    obtain ⟨after, rfl⟩ := hname.exists_after
    have hdrop : (before ++ '"' :: (name ++ '"' :: after)).drop (before.length + 1) =
        name ++ '"' :: after := by
      simp [List.drop_append]
    have heven := h before.length (by simp) (by simpa using hname.outside) (by simp)
      (by simp [hdrop])
    rwa [hdrop, takeWhile_append_of_all (bne_of_not_mem hname.no_quote) (by simp)] at heven

instance (sql : Text) : Decidable (PairedApostrophes sql) :=
  decidable_of_iff _ pairedApostrophes_iff.symm

/-! ## The apostrophes in quoted names -/

theorem quotedApostrophesFrom_quotedName {n : Text} (hn : '"' ∉ n) :
    quotedApostrophesFrom .quotedName n = n.count '\'' := by
  induction n with
  | nil => rfl
  | cons c n ih =>
    obtain ⟨hc, hn⟩ := not_or.1 (mt List.mem_cons.2 hn)
    rw [quotedApostrophesFrom, LexState.next, if_neg (Ne.symm hc), ih hn, List.count_cons]
    simp [Nat.add_comm]

section Paired

variable {sql : Text} (hpaired : PairedApostrophes sql)
include hpaired

/-- Outside quoted names as many apostrophes of such names have passed as stand in whole names. -/
theorem even_quotedApostrophes {a : Text} (ha : a <+: sql) (h : lexState a ≠ .quotedName) :
    quotedApostrophes a % 2 = 0 := by
  obtain ⟨n, hlen⟩ : ∃ n, a.length = n := ⟨_, rfl⟩
  induction n using Nat.strong_induction_on generalizing a with
  | _ n ih =>
  rcases List.eq_nil_or_concat' a with rfl | ⟨a, c, rfl⟩
  · rfl
  have ha' : a <+: sql := (List.prefix_append a [c]).trans ha
  have hlt : a.length < n := by
    rw [← hlen, List.length_append, List.length_singleton]
    exact Nat.lt_succ_self _
  rw [quotedApostrophes, quotedApostrophesFrom_append, ← quotedApostrophes]
  change (_ + quotedApostrophesFrom (lexState a) [c]) % 2 = 0
  by_cases hname : lexState a = .quotedName
  · -- The character closes a name, which holds an even number of them.
    obtain rfl : c = '"' := by
      by_contra hc
      rw [lexState_concat, hname, LexState.next, if_neg hc] at h
      exact h rfl
    obtain ⟨before, n', rfl, hbefore, hn'⟩ := exists_opened hname
    have hfirst := ih before.length (by simp at hlt; omega)
      ((List.prefix_append before _).trans ha') (LexState.ne_of_isOutside hbefore).2 rfl
    have hclosed := hpaired before n' ⟨by simpa [inQuotes] using ha, hbefore, hn'⟩
    rw [quotedApostrophes, quotedApostrophesFrom_append, ← quotedApostrophes, hname]
    change (quotedApostrophes before + quotedApostrophesFrom (lexState before) ('"' :: n') + 0) % 2 = 0
    have hopen : quotedApostrophesFrom (lexState before) ('"' :: n') = n'.count '\'' := by
      rw [quotedApostrophesFrom, LexState.next_quote hbefore, quotedApostrophesFrom_quotedName hn']
      simp
    omega
  · have hlast : quotedApostrophesFrom (lexState a) [c] = 0 := by
      simp [quotedApostrophesFrom, hname]
    rw [hlast, Nat.add_zero]
    exact ih a.length hlt ha' hname rfl

/-- The apostrophes before a double quote are odd in number exactly if it is inside a literal. -/
theorem count_apostrophe_quote {a : Text} (ha : a ++ ['"'] <+: sql) :
    a.count '\'' % 2 = if lexState a = .literal then 1 else 0 := by
  have ha' : a <+: sql := (List.prefix_append a _).trans ha
  have hcount := count_apostrophe_from .rest a
  have hstate : a.foldl LexState.next .rest = lexState a := rfl
  rw [hstate, ← quotedApostrophes] at hcount
  by_cases hname : lexState a = .quotedName
  · obtain ⟨before, n, rfl, hbefore, hn⟩ := exists_opened hname
    have hclosed := hpaired before n ⟨by simpa [inQuotes] using ha, hbefore, hn⟩
    have hfirst := even_quotedApostrophes hpaired ((List.prefix_append before _).trans ha')
      (LexState.ne_of_isOutside hbefore).2
    have hcount' := count_apostrophe hbefore
    rw [hname, if_neg nofun, List.count_append, List.count_cons_of_ne (by decide)]
    omega
  · have heven := even_quotedApostrophes hpaired ha' hname
    cases hs : lexState a <;> rw [hs] at hcount hname <;>
      simp only [LexState.opened, reduceCtorEq, ite_true, ite_false] at hcount hname ⊢ <;> omega

/-! ## The quotes in the mask -/

/-- A double quote outside literals shows in the mask. -/
theorem quote_shown {a b : Text} (hsql : sql = a ++ '"' :: b) (h : lexState a ≠ .literal) :
    (maskLiterals sql)[a.length]? = some '"' := by
  have heven := count_apostrophe_quote hpaired (a := a) ⟨b, by rw [hsql]; simp⟩
  rw [if_neg h] at heven
  rw [← List.head?_drop, hsql, drop_maskLiterals_append a (by simp), if_pos heven,
    maskLiterals_cons (by decide)]
  rfl

/-- A quoted name is masked by itself. -/
theorem IsQuotedName.maskLiterals_eq {before name : Text} (h : IsQuotedName sql before name) :
    ∃ after, maskLiterals sql =
      maskLiterals before ++ '"' :: (maskLiterals name ++ '"' :: maskLiterals after) := by
  obtain ⟨after, hafter⟩ := h.exists_after
  have hbefore : before.count '\'' % 2 = 0 := by
    have hcount := count_apostrophe_quote hpaired (a := before) ⟨name ++ '"' :: after, by
      rw [hafter]
      simp⟩
    rwa [if_neg (LexState.ne_of_isOutside h.outside).1] at hcount
  refine ⟨after, ?_⟩
  rw [hafter, maskLiterals_append_of_even hbefore (.inr (by simp)), maskLiterals_cons (by decide),
    maskLiterals_append_of_even (hpaired before name h) (.inr (by simp)),
    maskLiterals_cons (by decide)]

theorem IsQuotedName.closing_shown {before name : Text} (h : IsQuotedName sql before name) :
    (maskLiterals sql)[before.length + 1 + name.length]? = some '"' := by
  obtain ⟨after, hmask⟩ := h.maskLiterals_eq hpaired
  rw [hmask, List.getElem?_append_right (by rw [length_maskLiterals]; omega), length_maskLiterals,
    show before.length + 1 + name.length - before.length = name.length + 1 by omega,
    List.getElem?_cons_succ, List.getElem?_append_right (by rw [length_maskLiterals]),
    length_maskLiterals, Nat.sub_self, List.getElem?_cons_zero]

/-- A double quote in a literal that is closed is masked. -/
theorem quote_masked {a b : Text} (hsql : sql = a ++ '"' :: b) (h : lexState a = .literal)
    (hb : '\'' ∈ b) : (maskLiterals sql)[a.length]? = some maskChar := by
  have hodd := count_apostrophe_quote hpaired (a := a) ⟨b, by rw [hsql]; simp⟩
  rw [if_pos h] at hodd
  rw [← List.head?_drop, hsql, drop_maskLiterals_append a (by simp), hodd, if_neg (by decide),
    maskOpen_cons (by decide) hb]
  rfl

/-- The quotes that the mask shows before a place are odd in number exactly if the place is in a
quoted name. -/
theorem count_quotes (hlexed : (lexState sql).isOutside = true) {a b : Text} (hsql : sql = a ++ b) :
    ((maskLiterals sql).take a.length).count '"' % 2 =
      if lexState a = .quotedName then 1 else 0 := by
  induction a using List.reverseRecOn generalizing b with
  | nil => simp [lexState]
  | append_singleton a c ih =>
    have hsql' : sql = a ++ c :: b := by rw [hsql]; simp
    have hih := ih hsql'
    have hlt : a.length < (maskLiterals sql).length := by
      rw [length_maskLiterals, hsql']
      simp
    rw [List.length_append, List.length_singleton, List.take_add_one, List.count_append,
      lexState_concat]
    by_cases hc : c = '"'
    · subst hc
      by_cases hliteral : lexState a = .literal
      · have hb : '\'' ∈ b := by
          by_contra hb
          rw [hsql, lexState, List.foldl_append, ← lexState, lexState_concat, hliteral] at hlexed
          change (b.foldl LexState.next .literal).isOutside = true at hlexed
          rw [foldl_next_literal hb] at hlexed
          cases hlexed
        rw [quote_masked hpaired hsql' hliteral hb, hliteral]
        rw [hliteral] at hih
        simpa [LexState.next, maskChar] using hih
      · rw [quote_shown hpaired hsql' hliteral, Option.toList_some, List.count_singleton_self]
        rw [if_congr (LexState.next_quote_eq_quotedName_iff hliteral) rfl rfl]
        split at hih <;> rename_i hname
        · rw [if_neg (not_not_intro hname)]
          omega
        · rw [if_pos hname]
          omega
    · have hshown : ((maskLiterals sql)[a.length]?.toList).count '"' = 0 := by
        rw [List.count_eq_zero, Option.mem_toList]
        intro hquote
        have := getElem?_maskLiterals hquote (by decide)
        rw [hsql', List.getElem?_append_right (Nat.le_refl _), Nat.sub_self,
          List.getElem?_cons_zero] at this
        exact hc (Option.some.inj this)
      rw [hshown, Nat.add_zero, hih, if_congr (LexState.next_eq_quotedName_iff hc) rfl rfl]

/-- The quotes that the mask shows before an offset are odd in number exactly if it is in a quoted
name. -/
theorem count_quotes_take (hlexed : (lexState sql).isOutside = true) {k : Nat}
    (hk : k ≤ sql.length) :
    ((maskLiterals sql).take k).count '"' % 2 = 1 ↔ InQuotes sql k := by
  have h := count_quotes hpaired hlexed (List.take_append_drop k sql).symm
  rw [List.length_take_of_le hk] at h
  rw [h, InQuotes]
  split <;> simp_all

end Paired

/-- A text is masked in two parts if it is cut before a character that shows in the mask. -/
theorem maskLiterals_append_of_shown {a b : Text} {c : Char} (hc : c ≠ '\'') (hmask : c ≠ maskChar)
    (h : (maskLiterals (a ++ c :: b))[a.length]? = some c) :
    maskLiterals (a ++ c :: b) = maskLiterals a ++ maskLiterals (c :: b) := by
  have hhead : (c :: b).head? ≠ some '\'' := by simpa using hc
  by_cases heven : a.count '\'' % 2 = 0
  · exact maskLiterals_append_of_even heven (.inr hhead)
  · by_cases hb : '\'' ∈ b
    · rw [← List.head?_drop, drop_maskLiterals_append a hhead, if_neg heven, maskOpen_cons hc hb,
        List.head?_cons] at h
      exact absurd (Option.some.inj h).symm hmask
    · have hcb : '\'' ∉ c :: b := List.not_mem_cons_of_ne_of_not_mem (Ne.symm hc) hb
      rw [maskLiterals_append_of_not_mem a hcb, maskLiterals_eq_self hcb]

end QueryGate
