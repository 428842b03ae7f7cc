import QueryGate.Proofs.Gate.RenamedWording
import QueryGate.Proofs.Text.SmallLetters

/-!
# Ordinary names

An ordinary name is a word of ASCII letters, digits and underscores that has no meaning of its own to
any stage: no reserved word, no word that the first tier forbids, and no name of a system catalogue.
No rule of the first tier is broken by it (`OrdinaryName.harmless`).
-/

namespace QueryGate

open Wording

/-- The words that may not be the name of a table or a column though the dialect reserves none of
them: those that control a transaction, and catalogues that are suspicious with a dot behind. -/
def specialWords : List Text :=
  Text.ofStrings ["begin", "commit", "rollback", "sys", "master"]

/-- What the names of procedures and catalogues of a system begin with. -/
def systemBeginnings : List Text := Text.ofStrings ["pg_", "sp_", "xp_"]

/-- A word of letters, digits and underscores without a meaning of its own. -/
structure OrdinaryName (n : Text) : Prop where
  start : n.head?.any isNameStart = true
  chars : ∀ c ∈ n, isNameStart c = true ∨ c.isDigit = true
  notReserved : isReserved n = false
  notForbidden : lower n ∉ forbiddenWords.map lower
  notSpecial : lower n ∉ specialWords
  notSystem : ∀ b ∈ systemBeginnings, ¬ b <+: lower n
  notCatalogue : ¬ "information_schema".toList <:+: lower n

instance (n : Text) : Decidable (OrdinaryName n) :=
  decidable_of_iff
    ((n.head?.any isNameStart = true ∧ ∀ c ∈ n, isNameStart c = true ∨ c.isDigit = true) ∧
      isReserved n = false ∧ lower n ∉ forbiddenWords.map lower ∧ lower n ∉ specialWords ∧
      (∀ b ∈ systemBeginnings, ¬ b <+: lower n) ∧ ¬ "information_schema".toList <:+: lower n)
    ⟨fun ⟨⟨hstart, hchars⟩, hreserved, hforbidden, hspecial, hsystem, hcatalogue⟩ =>
      ⟨hstart, hchars, hreserved, hforbidden, hspecial, hsystem, hcatalogue⟩,
    fun h => ⟨⟨h.start, h.chars⟩, h.notReserved, h.notForbidden, h.notSpecial, h.notSystem,
      h.notCatalogue⟩⟩

namespace OrdinaryName

variable {n : Text} (h : OrdinaryName n)

include h

theorem ascii : Ascii n := by
  intro c hc
  exact (h.chars c hc).elim ascii_of_isNameStart ascii_of_isDigit

theorem isWord : IsWord n := by
  constructor
  · rintro rfl
    cases h.start
  · intro c hc
    have := forall_ascii (p := fun c => !(isNameStart c || c.isDigit) || isWordChar c)
      (by decide) (h.ascii c hc)
    rcases h.chars c hc with hstart | hdigit
    · simpa [hstart] using this
    · simpa [hdigit] using this

theorem not_spells {w : Text} (hw : Ascii w) (hreserved : isReserved w = true) : ¬ Spells w n := by
  intro hs
  have hno := h.notReserved
  rw [isReserved, (hw.spells_iff h.ascii).1 hs] at hno
  rw [isReserved, hno] at hreserved
  cases hreserved

theorem not_denied : ∀ w ∈ deniedWords, ¬ Spells w n := by
  intro w hw hs
  have hascii : ∀ w ∈ deniedWords, Ascii w := by decide
  have hlower := ((hascii w hw).spells_iff h.ascii).1 hs
  rcases List.mem_append.1 hw with hw | hw
  · exact h.notForbidden (hlower ▸ List.mem_map_of_mem hw)
  · have hspecial : ∀ w ∈ transactionWords, lower w ∈ specialWords := by decide
    exact h.notSpecial (hlower ▸ hspecial w hw)

/-! ## The name with a dot behind it -/

theorem of_mem_dotted {c : Char} (hc : c ∈ n ++ ['.']) : isWordChar c = true ∨ c = '.' := by
  rcases List.mem_append.1 hc with hc | hc
  · exact .inl (h.isWord.2 c hc)
  · exact .inr (List.mem_singleton.1 hc)

/-- A part that spells a word in small letters is that word in the small letters of the name. -/
theorem lower_dotted {a x b w : Text} (hw : Ascii w) (hsmall : lower w = w)
    (hsplit : n ++ ['.'] = a ++ (x ++ b)) (hx : Spells w x) :
    lower n ++ ['.'] = lower a ++ (w ++ lower b) := by
  have hascii : Ascii (n ++ ['.']) := h.ascii.append (by decide)
  have hlower : lower (n ++ ['.']) = lower n ++ ['.'] := by
    rw [hascii.lower_eq, h.ascii.lower_eq, List.map_append]
    rfl
  rw [hsplit] at hascii
  obtain ⟨ha, hxb⟩ := Ascii.of_append hascii
  obtain ⟨hxa, hb⟩ := Ascii.of_append hxb
  rw [← hlower, hsplit, hascii.lower_eq, ha.lower_eq, hb.lower_eq, List.map_append,
    List.map_append, ← hxa.lower_eq, (hw.spells_iff hxa).1 hx, hsmall]

/-- A word begins at the beginning of the name only. -/
theorem eq_nil_of_wordStart {a b : Text} (hsplit : n ++ ['.'] = a ++ b) (hb : b ≠ [])
    (ha : a.getLast?.any isWordChar = false) : a = [] := by
  by_contra hne
  have hbeginning : a <+: n := by
    rcases List.prefix_concat_iff.1 (⟨b, hsplit.symm⟩ : a <+: n ++ ['.']) with heq | hle
    · rw [heq] at hsplit
      exact absurd (List.append_right_eq_self.1 hsplit.symm) hb
    · exact hle
  rw [List.getLast?_eq_some_getLast hne, Option.any_some,
    h.isWord.2 _ (hbeginning.subset (List.getLast_mem hne))] at ha
  cases ha

theorem dot_not_mem_lower : '.' ∉ lower n := by
  intro hdot
  rw [h.ascii.lower_eq] at hdot
  obtain ⟨c, hc, heq⟩ := List.mem_map.1 hdot
  have hword := h.isWord.2 c hc
  rw [← isWordChar_toLower (h.ascii c hc), heq] at hword
  exact absurd hword (by decide)

theorem not_prefix_dotted {w : Text} (hw : w ∈ catalogueBeginnings) : ¬ w <+: lower n ++ ['.'] := by
  have hcases : ∀ w ∈ catalogueBeginnings, w ∈ systemBeginnings ∨
      ∃ u ∈ specialWords, w = u ++ ['.'] := by decide
  intro hbegins
  rcases List.prefix_concat_iff.1 hbegins with heq | hle
  · rcases hcases w hw with hsystem | ⟨u, hu, rfl⟩
    · have hlast : ∀ w ∈ systemBeginnings, w.getLast? ≠ some '.' := by decide
      exact hlast w hsystem (by rw [heq, List.getLast?_concat])
    · exact h.notSpecial ((List.append_inj_left' heq rfl) ▸ hu)
  · rcases hcases w hw with hsystem | ⟨u, hu, rfl⟩
    · exact h.notSystem w hsystem hle
    · exact h.dot_not_mem_lower (hle.subset (by simp))

theorem not_catalogueBeginning {w : Text} (hw : w ∈ catalogueBeginnings) :
    occurs (wordBeginning w) (n ++ ['.']) = false := by
  have hwords : ∀ w ∈ catalogueBeginnings, w ≠ [] ∧ Ascii w ∧ lower w = w := by decide
  obtain ⟨hne, hascii, hsmall⟩ := hwords w hw
  rw [Bool.eq_false_iff]
  intro hyes
  obtain ⟨a, x, b, hsplit, hx, ha⟩ := (occurs_wordBeginning_iff hne).1 hyes
  have hxb : x ++ b ≠ [] := by
    intro hnil
    rw [(List.append_eq_nil_iff.1 hnil).1] at hx
    exact hne (List.length_eq_zero_iff.1 hx.length_eq.symm)
  obtain rfl := h.eq_nil_of_wordStart hsplit hxb ha
  exact h.not_prefix_dotted hw ⟨lower b, (h.lower_dotted hascii hsmall hsplit hx).symm⟩

theorem not_standardCatalogue : occurs standardCatalogue (n ++ ['.']) = false := by
  rw [Bool.eq_false_iff]
  intro hyes
  obtain ⟨a, x, b, hsplit, hx⟩ := occurs_standardCatalogue_iff.1 hyes
  have hinfix : "information_schema".toList <:+: lower n ++ ['.'] :=
    ⟨lower a, lower b, by
      rw [h.lower_dotted (by decide) (by decide) hsplit hx, List.append_assoc]⟩
  rcases List.infix_concat_iff.1 hinfix with hsuffix | hle
  · rcases List.suffix_concat_iff.1 hsuffix with hnil | ⟨u, hu, -⟩
    · cases hnil
    · have hlast := congrArg List.getLast? hu
      rw [List.getLast?_concat] at hlast
      exact absurd hlast (by decide)
  · exact h.notCatalogue hle

/-- With a dot behind it the name is a beginning of nothing that is suspicious. -/
theorem not_suspicious : isSuspicious (n ++ ['.']) = false := by
  refine isSuspicious_eq_false_iff.2
    ⟨?_, fun z hz => ?_, fun _ => h.not_catalogueBeginning, h.not_standardCatalogue⟩ <;>
    rw [Bool.eq_false_iff] <;> intro hyes
  · obtain ⟨a, g, x, b, hsplit, -⟩ := occurs_chainedWord_iff.1 hyes
    have hsemicolon := h.of_mem_dotted (c := ';') (by rw [hsplit]; simp)
    exact absurd hsemicolon (by decide)
  · have hmarks : ∀ z ∈ commentMarks, ∃ c ∈ z, ¬ (isWordChar c = true ∨ c = '.') := by decide
    obtain ⟨c, hc, hno⟩ := hmarks z hz
    exact hno (h.of_mem_dotted ((Text.hasPart_eq_true_iff.1 hyes).subset hc))

theorem harmless : HarmlessName n where
  word := h.isWord
  ascii := h.ascii
  start := h.start
  notKeyword := isKeyword_eq_false_of_isReserved h.notReserved
  notDenied := h.not_denied
  notSuspicious := h.not_suspicious

end OrdinaryName

end QueryGate
