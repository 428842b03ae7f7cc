import QueryGate.Proofs.Text.Parts
import QueryGate.Text.Case

/-!
# Texts in ASCII

In ASCII the three ways to disregard case come to one: `lower` maps `Char.toLower` over a text
(`Ascii.lower_eq`), a keyword is spelled by what has its small letters (`Ascii.spells_iff`), and two
characters that are one letter have one small letter (`toLower_of_sameLetter`).
-/

namespace QueryGate

/-- No character lies beyond ASCII. -/
def Ascii (t : Text) : Prop := ∀ c ∈ t, c.toNat < 128

instance (t : Text) : Decidable (Ascii t) := decidableForallMemText t _

theorem foldLetter_of_ascii {c : Char} (hc : c.toNat < 128) : foldLetter c = c.toLower := by
  have := @forall_ascii (fun c => foldLetter c == c.toLower) (by decide) c hc
  exact eq_of_beq this

theorem isWordChar_toLower {c : Char} (hc : c.toNat < 128) :
    isWordChar c.toLower = isWordChar c := by
  have := @forall_ascii (fun c => isWordChar c.toLower == isWordChar c) (by decide) c hc
  exact eq_of_beq this

theorem toLower_of_sameLetter {a b : Char} (ha : a.toNat < 128) (hb : b.toNat < 128)
    (h : sameLetter a b = true) : a.toLower = b.toLower := by
  have hsmall {c : Char} (hc : c.toNat < 128) : c.toLower.toNat < 128 := by
    have := @forall_ascii (fun c => c.toLower.toNat < 128) (by decide) c hc
    simpa using this
  -- No class has two members in ASCII.
  have hclass : ∀ cls ∈ letterClasses, ∀ m ∈ cls, ∀ n ∈ cls, m < 128 → n < 128 → m = n := by decide
  unfold sameLetter smallLetter at h
  rw [if_pos ha, if_pos hb] at h
  rcases Bool.or_eq_true_iff.1 h with h | h
  · exact eq_of_beq h
  · obtain ⟨cls, hcls, hboth⟩ := List.any_eq_true.1 h
    obtain ⟨hm, hn⟩ := Bool.and_eq_true_iff.1 hboth
    have := hclass cls hcls _ (List.contains_iff_mem.1 hm) _ (List.contains_iff_mem.1 hn)
      (hsmall ha) (hsmall hb)
    exact Char.toNat_inj.1 this

namespace Ascii

variable {t u : Text}

theorem of_append (h : Ascii (t ++ u)) : Ascii t ∧ Ascii u :=
  ⟨fun c hc => h c (List.mem_append_left u hc), fun c hc => h c (List.mem_append_right t hc)⟩

theorem append (ht : Ascii t) (hu : Ascii u) : Ascii (t ++ u) := by
  intro c hc
  exact (List.mem_append.1 hc).elim (ht c) (hu c)

/-- ASCII letters have small letters that do not depend on what stands around them. -/
theorem lowerFrom_append (h : Ascii t) (before : Text) :
    lowerFrom before (t ++ u) = t.map Char.toLower ++ lowerFrom (t.reverse ++ before) u := by
  induction t generalizing before with
  | nil => rfl
  | cons c t ih =>
    have hc : c.toNat < 128 := h c List.mem_cons_self
    have hsigma : c ≠ 'Σ' := by
      rintro rfl
      exact absurd hc (by decide)
    have hdot : c ≠ 'İ' := by
      rintro rfl
      exact absurd hc (by decide)
    rw [List.cons_append, lowerFrom, ih fun d hd => h d (List.mem_cons_of_mem c hd)]
    simp [lowerAt, hsigma, hdot, smallLetter, hc]

theorem lower_eq (h : Ascii t) : lower t = t.map Char.toLower := by
  rw [lower, ← List.append_nil t, h.lowerFrom_append, lowerFrom, List.append_nil, List.append_nil]

theorem spells_iff {word : Text} (hword : Ascii word) (h : Ascii t) :
    Spells word t ↔ lower t = lower word := by
  have hfold {t : Text} (h : Ascii t) : t.map foldLetter = t.map Char.toLower :=
    List.map_congr_left fun c hc => foldLetter_of_ascii (h c hc)
  rw [Spells, hfold h, hfold hword, h.lower_eq, hword.lower_eq]

end Ascii

end QueryGate
