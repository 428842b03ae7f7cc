import Mathlib.Algebra.Group.Nat.Defs
import Mathlib.Data.List.Basic
import Mathlib.Data.List.TakeWhile
import QueryGate.Fault
import QueryGate.Proofs.Text.Character
import QueryGate.Text.Numeral

/-!
# Numbers written and read back

A number that is written with decimal digits is read back from them (`readDigits_of_writeDigits`).
A text of digits is read unless it is too long, and nothing else without underscores is
(`readDigits_isOk_iff`).
-/

namespace QueryGate

theorem bind_eq_ok_iff {ε α β : Type} {x : Except ε α} {f : α → Except ε β} {b : β} :
    (x >>= f) = .ok b ↔ ∃ a, x = .ok a ∧ f a = .ok b := by
  cases x with
  | error e => exact ⟨fun h => (nomatch h), fun ⟨_, h, _⟩ => (nomatch h)⟩
  | ok a => exact ⟨fun h => ⟨a, rfl, h⟩, fun ⟨_, h, hf⟩ => Except.ok.inj h ▸ hf⟩

theorem exists_bind_eq_ok_iff {ε α β : Type} {x : Except ε α} {f : α → Except ε β} :
    (∃ b, (x >>= f) = .ok b) ↔ ∃ a, x = .ok a ∧ ∃ b, f a = .ok b := by
  simp only [bind_eq_ok_iff]
  exact ⟨fun ⟨b, a, ha, hb⟩ => ⟨a, ha, b, hb⟩, fun ⟨a, ha, b, hb⟩ => ⟨b, a, ha, hb⟩⟩

theorem digitValue?_of_isDigit {c : Char} (h : c.isDigit = true) :
    digitValue? c = some (c.toNat - '0'.toNat) := by
  rw [digitValue?, if_pos (ascii_of_isDigit h), if_pos h]

theorem isDecimalDigit_of_isDigit {c : Char} (h : c.isDigit = true) : isDecimalDigit c = true := by
  rw [isDecimalDigit, digitValue?_of_isDigit h]
  rfl

namespace Numeral

theorem digitRun_of_decimal {t : Text} (ht : ∀ c ∈ t, isDecimalDigit c = true) (afterDigit : Bool)
    (hne : afterDigit = true ∨ t ≠ []) :
    digitRun afterDigit t = some (t.filterMap digitValue?, []) := by
  induction t generalizing afterDigit with
  | nil =>
    have : afterDigit = true := hne.resolve_right (fun h => h rfl)
    rw [digitRun, if_pos this]
    rfl
  | cons c t ih =>
    obtain ⟨d, hd⟩ := Option.isSome_iff_exists.1 (ht c List.mem_cons_self)
    have hrest := ih (fun x hx => ht x (List.mem_cons_of_mem c hx)) true (.inl rfl)
    rw [digitRun, hd]
    simp only [hrest, Option.map_some, List.filterMap_cons_some hd]

theorem digitRun_of_isDigit {t : Text} (ht : ∀ c ∈ t, c.isDigit = true) (afterDigit : Bool)
    (hne : afterDigit = true ∨ t ≠ []) :
    digitRun afterDigit t = some (t.map fun c => c.toNat - '0'.toNat, []) := by
  rw [digitRun_of_decimal (fun c hc => isDecimalDigit_of_isDigit (ht c hc)) _ hne,
    List.filterMap_eq_map_iff_forall_eq_some.2 fun c hc => digitValue?_of_isDigit (ht c hc)]

/-- Without underscores only digits are read to the end. -/
theorem decimal_of_digitRun {t : Text} {ds : List Nat} {afterDigit : Bool} (hu : '_' ∉ t)
    (h : digitRun afterDigit t = some (ds, [])) : ∀ c ∈ t, isDecimalDigit c = true := by
  induction t generalizing afterDigit ds with
  | nil => exact fun c hc => nomatch hc
  | cons c t ih =>
    obtain ⟨hc, ht⟩ : ¬ '_' = c ∧ '_' ∉ t := by simpa using hu
    rw [digitRun] at h
    split at h
    · rename_i d hd
      obtain ⟨⟨ds', rest⟩, hrest, heq⟩ := Option.map_eq_some_iff.1 h
      obtain rfl : rest = [] := (Prod.mk.inj heq).2
      intro x hx
      rcases List.mem_cons.1 hx with rfl | hx
      · rw [isDecimalDigit, hd]
        rfl
      · exact ih ht hrest x hx
    · split at h
      · rw [if_neg (by simpa using Ne.symm hc)] at h
        cases h
      · cases h

/-- One or more decimal digits, no more of them than are converted. -/
structure Readable (t : Text) : Prop where
  ne_nil : t ≠ []
  decimal : ∀ c ∈ t, isDecimalDigit c = true
  length_le : t.length ≤ maxDigits

theorem ofDigits_map (t : Text) (n : Nat) :
    (t.map fun c => c.toNat - '0'.toNat).foldl (fun n d => n * 10 + d) n =
      Nat.ofDigitChars 10 t n := by
  induction t generalizing n with
  | nil => rfl
  | cons c t ih =>
    rw [List.map_cons, List.foldl_cons, ih, Nat.ofDigitChars_cons, Nat.mul_comm]

end Numeral

theorem length_filterMap_digitValue? {t : Text} (ht : ∀ c ∈ t, isDecimalDigit c = true) :
    (t.filterMap digitValue?).length = t.length := by
  rw [List.length_filterMap_eq_countP, List.countP_eq_length]
  exact ht

theorem readDigits_of_decimal {t : Text} (hne : t ≠ []) (ht : ∀ c ∈ t, isDecimalDigit c = true) :
    readDigits t =
      if Numeral.maxDigits < t.length then .error (.numeral (.tooLong t.length))
      else .ok (Numeral.ofDigits (t.filterMap digitValue?)) := by
  rw [readDigits, Numeral.toNat, Numeral.magnitude, Numeral.digitRun_of_decimal ht _ (.inr hne)]
  simp only [length_filterMap_digitValue? ht, List.isEmpty_nil, ite_true]
  split <;> rfl

/-- A text without underscores gives a number exactly if it is a run of digits that is not too
long. -/
theorem readDigits_isOk_iff {t : Text} (hne : t ≠ []) (hu : '_' ∉ t) :
    (∃ n, readDigits t = .ok n) ↔ Numeral.Readable t := by
  constructor
  · rintro ⟨n, hn⟩
    have ht : ∀ c ∈ t, isDecimalDigit c = true := by
      rw [readDigits, Numeral.toNat, Numeral.magnitude] at hn
      split at hn
      · cases hn
      · rename_i ds rest hrun
        split at hn
        · cases hn
        · split at hn
          · rename_i hrest
            rw [List.isEmpty_iff.1 hrest] at hrun
            exact Numeral.decimal_of_digitRun hu hrun
          · cases hn
    rw [readDigits_of_decimal hne ht] at hn
    split at hn
    · cases hn
    · rename_i hlen
      exact ⟨hne, ht, Nat.le_of_not_lt hlen⟩
  · rintro ⟨-, ht, hlen⟩
    rw [readDigits_of_decimal hne ht, if_neg (Nat.not_lt.2 hlen)]
    exact ⟨_, rfl⟩

theorem Text.isDigit_of_mem_ofNat {n : Nat} {c : Char} (h : c ∈ Text.ofNat n) : c.isDigit = true :=
  Nat.isDigit_of_mem_toDigits (by decide) (by decide) h

theorem Text.ofNat_ne_nil (n : Nat) : Text.ofNat n ≠ [] := Nat.toDigits_ne_nil

theorem writeDigits_eq_ok {n : Nat} {ds : Text} (h : writeDigits n = .ok ds) :
    ds = Text.ofNat n ∧ ds.length ≤ Numeral.maxDigits := by
  unfold writeDigits Numeral.ofNat at h
  split at h
  · cases h
  · rename_i hlen
    obtain rfl : Text.ofNat n = ds := Except.ok.inj h
    exact ⟨rfl, Nat.le_of_not_lt hlen⟩

theorem writeDigits_isOk_iff {n : Nat} :
    (∃ ds, writeDigits n = .ok ds) ↔ (Text.ofNat n).length ≤ Numeral.maxDigits := by
  constructor
  · rintro ⟨ds, h⟩
    obtain ⟨rfl, hlen⟩ := writeDigits_eq_ok h
    exact hlen
  · intro hlen
    unfold writeDigits Numeral.ofNat
    rw [if_neg (Nat.not_lt.2 hlen)]
    exact ⟨_, rfl⟩

/-- An integer is written unless it has more digits than are converted. -/
theorem writeInt_eq_ok_iff {n : Int} {t : Text} :
    writeInt n = .ok t ↔ t = Text.ofInt n ∧ n.natAbs < 10 ^ Numeral.maxDigits := by
  have hlen : (Text.ofNat n.natAbs).length ≤ Numeral.maxDigits ↔
      n.natAbs < 10 ^ Numeral.maxDigits :=
    Nat.length_toDigits_le_iff (by decide) (by decide)
  rw [← hlen, ← writeDigits_isOk_iff, writeInt]
  cases hn : writeDigits n.natAbs with
  | error f => exact ⟨nofun, fun ⟨_, _, hds⟩ => nomatch hds⟩
  | ok ds =>
    exact ⟨fun h => ⟨(Except.ok.inj h).symm, ds, rfl⟩, fun ⟨ht, _⟩ => congrArg Except.ok ht.symm⟩

theorem readDigits_of_writeDigits {n : Nat} {ds : Text} (h : writeDigits n = .ok ds) :
    readDigits ds = .ok n := by
  obtain ⟨rfl, hlen⟩ := writeDigits_eq_ok h
  have hrun := Numeral.digitRun_of_isDigit (t := Text.ofNat n)
    (fun _ => Text.isDigit_of_mem_ofNat) false (.inr (Text.ofNat_ne_nil n))
  have hvalue : Numeral.ofDigits ((Text.ofNat n).map fun c => c.toNat - '0'.toNat) = n := by
    rw [Numeral.ofDigits, Numeral.ofDigits_map]
    exact Nat.ofDigitChars_ten_toDigits
  rw [readDigits, Numeral.toNat, Numeral.magnitude, hrun]
  simp only [List.length_map, Nat.not_lt.2 hlen, ite_false, List.isEmpty_nil, ite_true, hvalue]
  rfl

end QueryGate
