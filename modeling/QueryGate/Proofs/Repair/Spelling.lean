import QueryGate.Proofs.Repair.Renames
import QueryGate.Proofs.Sql.Tokenizer

/-!
# What repair writes

Repair is no rewriting of a query: where a name stood one name stands, and nothing else is changed
(`repair_spelled`). A known name is written as it has to be, in quotes if it needs them or if the
name in its place had them.

The passes look at the text that the one before left, so a name may be corrected twice, and the
second correction cannot tell whose quotes it sees. For most names this does not matter: a table
that was put in quotes is none of the columns in quotes, which have no dot beside them and are no
tables. Only a table that has a dot beside it is looked up again, as part of a qualified name.
-/

namespace QueryGate

/-! ## Replacements in turn -/

/-- A name that is written where an identifier stood and is replaced once more is as if it were
replaced once, unless it was the known name that needed the quotes. -/
theorem Put.of_rendered {names : Text → Prop} {i : Identifier} {n : Text} {v : Token}
    (hkeyword : i.quoted = false → isKeyword i.name = false) (hn : names n)
    (h : Put names (.rendered n i.quoted) v) :
    Put names i.token v ∨ i.quoted = false ∧ needsQuotes n = true ∧
      ∃ m, v = .quoted m ∧ names m ∧ needsQuotes m = false := by
  obtain ⟨w, quoted⟩ := i
  cases quoted with
  | true =>
    left
    rw [Token.rendered_true] at h
    cases h with
    | same => exact .quoted hn
    | quoted hm => exact .quoted hm
  | false =>
    have hput : Put names (.word w) (.rendered n false) := .word (hkeyword rfl) hn
    cases hneeds : needsQuotes n with
    | false =>
      left
      rw [Token.rendered_of_not_needsQuotes hneeds] at h hput
      cases h with
      | same => exact hput
      | word _ hm => exact .word (hkeyword rfl) hm
    | true =>
      rw [Token.rendered_of_needsQuotes hneeds] at h hput
      cases h with
      | same => exact .inl hput
      | @quoted _ m hm =>
        cases hneeds' : needsQuotes m with
        | true =>
          have hput' : Put names (.word w) (.rendered m false) := .word (hkeyword rfl) hm
          rw [Token.rendered_of_needsQuotes hneeds'] at hput'
          exact .inl hput'
        | false => exact .inr ⟨rfl, rfl, m, rfl, hm, hneeds'⟩

theorem Put.text_of_word {names : Text → Prop} {w : Text} {u : Token} (h : Put names (.word w) u) :
    u.text = w ∨ ∃ n, names n ∧ u.text = renderName n false := by
  cases h with
  | same => exact .inl rfl
  | word _ hn => exact .inr ⟨_, hn, Token.text_rendered _ false⟩

/-- A name is known, as that of a table or of a column. -/
def KnownNames.Knows (k : KnownNames) (n : Text) : Prop :=
  n ∈ k.tables ∨ ∃ e ∈ k.columns, n ∈ e.2

theorem KnownNames.forall_knows_iff {k : KnownNames} {P : Text → Prop} :
    (∀ n, k.Knows n → P n) ↔ ∀ n ∈ k.tables ++ k.columns.flatMap (·.2), P n := by
  simp only [KnownNames.Knows, List.mem_append, List.mem_flatMap]

theorem KnownNames.within_knows (k : KnownNames) : k.Within k.Knows :=
  ⟨fun _ => .inl, fun e he _ hn => .inr ⟨e, he, hn⟩⟩

/-- What repair makes of a token. It is left or replaced, or it is a table of the query that is
put in quotes beside a dot and then replaced once more by a name that needs no quotes. -/
inductive Spelled (k : KnownNames) (sql : Text) : Token → Token → Prop
  | put {t u : Token} : Put k.Knows t u → Spelled k sql t u
  | again {r : TableRef} {n : Text} : r ∈ tableRefs sql → r.PutInQuotes k sql →
      isKeyword r.name = false → k.Knows n → needsQuotes n = false →
      Spelled k sql (.word r.name) (.quoted n)

section Steps

variable {k : KnownNames} {sql : Text} {names : Text → Prop} {d : Bool} {t u v : Token}

/-- A token that is replaced twice is as if it were replaced once, unless the first replacement put
a bare name in quotes. -/
theorem PutWhere.put_again {P : Bool → Identifier → Text → Prop} (h : PutWhere names P d t u)
    (h' : Put (fun n => names n ∧ n ≠ []) u v) :
    Put (fun n => names n ∧ n ≠ []) t v ∨ ∃ w n m, t = .word w ∧ isKeyword w = false ∧
      P d ⟨w, false⟩ n ∧ needsQuotes n = true ∧ u = .quoted n ∧ v = .quoted m ∧ names m ∧
      needsQuotes m = false := by
  obtain ⟨⟨w, quoted⟩, n, rfl, rfl, hkeyword, hn, hP⟩ := h
  obtain hput | ⟨hbare, hneeds, m, rfl, hm, hplain⟩ := Put.of_rendered hkeyword hn h'
  · exact .inl hput
  · obtain rfl : quoted = false := hbare
    exact .inr ⟨w, n, m, rfl, hkeyword rfl, hP, hneeds, Token.rendered_of_needsQuotes hneeds _, rfl,
      hm.1, hplain⟩

theorem not_selected_of_quoted {w : Text} :
    ¬ PutWhere names Repair.OfSelected d (.quoted w) u := by
  rintro ⟨⟨x, quoted⟩, n, hx, -, -, -, hbare⟩
  obtain rfl : quoted = false := hbare
  cases hx

theorem PutWhere.eq_quoted_of_quoted (h : PutWhere names (Repair.OfQuoted k) d t u) :
    (∃ w, t = .quoted w ∧ ∀ x ∈ k.tables, lower x ≠ lower w) ∧ (∃ n, u = .quoted n) ∧
      d = false := by
  obtain ⟨⟨w, quoted⟩, n, rfl, rfl, -, -, hquoted, hdot, hno⟩ := h
  obtain rfl : quoted = true := hquoted
  exact ⟨⟨w, rfl, hno⟩, ⟨n, rfl⟩, hdot⟩

/-- The last two passes do not touch the same token: one replaces names in quotes, the other bare
ones. -/
theorem one_of_last (h : t = u ∨ PutWhere names (Repair.OfQuoted k) d t u)
    (h' : u = v ∨ PutWhere names Repair.OfSelected d u v) :
    t = v ∨ PutWhere names (Repair.OfQuoted k) d t v ∨ PutWhere names Repair.OfSelected d t v := by
  obtain rfl | h := h
  · exact h'.imp_right .inr
  obtain rfl | h' := h'
  · exact .inr (.inl h)
  obtain ⟨-, ⟨n, rfl⟩, -⟩ := h.eq_quoted_of_quoted
  exact absurd h' not_selected_of_quoted

/-- What the pass over qualified names replaced has a dot beside it, so that only the last pass
replaces it once more. -/
theorem one_of_columns (h : t = u ∨ PutWhere names Repair.OfQualified d t u)
    (h' : u = v ∨ PutWhere names (Repair.OfQuoted k) d u v ∨
      PutWhere names Repair.OfSelected d u v) :
    t = v ∨ d = true ∧ Put (fun n => names n ∧ n ≠ []) t v ∨
      PutWhere names (Repair.OfQuoted k) d t v ∨ PutWhere names Repair.OfSelected d t v := by
  obtain rfl | h := h
  · exact h'.imp_right .inr
  have hdot : d = true := by
    obtain ⟨i, n, -, -, -, -, hdot⟩ := h
    exact hdot
  obtain rfl | h' | h' := h'
  · exact .inr (.inl ⟨hdot, h.put⟩)
  · exact absurd (hdot.symm.trans h'.eq_quoted_of_quoted.2.2) (by decide)
  · refine .inr (.inl ⟨hdot, (h.put_again h'.put).resolve_right ?_⟩)
    rintro ⟨w, n, m, -, -, -, -, rfl, -⟩
    exact not_selected_of_quoted h'

/-- What becomes of a token in all passes. -/
theorem spelled_of_steps
    (h : t = u ∨ PutWhere k.Knows (Repair.OfTable k sql (tableRefs sql)) d t u)
    (h' : u = v ∨ d = true ∧ Put (fun n => k.Knows n ∧ n ≠ []) u v ∨
      PutWhere k.Knows (Repair.OfQuoted k) d u v ∨ PutWhere k.Knows Repair.OfSelected d u v) :
    Spelled k sql t v := by
  have hput {t u : Token} (h : Put (fun n => k.Knows n ∧ n ≠ []) t u) : Spelled k sql t u :=
    .put (h.mono fun _ hn => hn.1)
  have hlater : Put (fun n => k.Knows n ∧ n ≠ []) u v := by
    obtain rfl | ⟨-, h'⟩ | h' | h' := h'
    · exact .same u
    · exact h'
    · exact h'.put
    · exact h'.put
  obtain rfl | h := h
  · exact hput hlater
  obtain hone | ⟨w, n, m, rfl, hkeyword, ⟨htable, hrefs⟩, hneeds, rfl, rfl, hm, hplain⟩ :=
    h.put_again hlater
  · exact hput hone
  obtain heq | ⟨hdot, -⟩ | hquoted | hselected := h'
  · -- The known name that is left needs its quotes.
    cases heq
    rw [hneeds] at hplain
    cases hplain
  · obtain ⟨r, hr, hi, hin⟩ := hrefs hdot rfl hneeds
    obtain rfl : r.name = w := congrArg Identifier.name hi
    exact .again hr hin hkeyword hm hplain
  · obtain ⟨⟨x, hx, hno⟩, -, -⟩ := hquoted.eq_quoted_of_quoted
    cases hx
    exact absurd rfl (hno n htable)
  · exact absurd hselected not_selected_of_quoted

end Steps

/-! ## The repair as a whole -/

/-- No quote is left over and no dollar sign stands there. -/
def Token.IsUnmarked : Token → Prop
  | .other _ m => m ≠ '"' ∧ m ≠ '$'
  | _ => True

instance : DecidablePred Token.IsUnmarked
  | .word _ => inferInstanceAs (Decidable True)
  | .quoted _ => inferInstanceAs (Decidable True)
  | .other _ m => inferInstanceAs (Decidable (m ≠ '"' ∧ m ≠ '$'))

theorem tokensOf_of_unmarked {sql : Text} (h : ∀ t ∈ tokens sql, t.IsUnmarked) :
    TokensOf sql (tokens sql) := tokensOf_tokens fun c m hm => h (.other c m) hm

theorem spelled_of_repairSteps {k : KnownNames} {sql : Text} {ts a b c d : List Token}
    (hts : Lexed ts) (hfit : ∀ n, k.Knows n → n ≠ [] → (Token.quoted n).Fit)
    (h : RepairSteps k.Knows k sql ts a b c d) : List.Forall₂ (Spelled k sql) ts d := by
  have hK : KeepsTokens (Put fun n => k.Knows n ∧ n ≠ []) :=
    Put.keepsTokens fun n hn => hfit n hn.1 hn.2
  have ha : Lexed a := hK.lexed h.tables.put hts
  have hb : Lexed b := hK.lexed h.qualified.put ha
  have hlast := h.quoted.trans hK .same (fun _ _ _ => PutWhere.put) rfl hb.fit h.selected
  have hcolumns := h.qualified.trans hK .same (fun _ _ _ => PutWhere.put) rfl ha.fit hlast
  have hall := h.tables.trans hK .same (fun _ _ _ => PutWhere.put) rfl hts.fit hcolumns
  refine hall.forall₂ (fun t => .put (.same t)) ?_
  rintro e t v ⟨u, htu, huv⟩
  refine spelled_of_steps htu ?_
  obtain rfl | ⟨x, hux, hxv⟩ := huv
  · exact .inl rfl
  refine one_of_columns hux ?_
  obtain rfl | ⟨y, hxy, hyv⟩ := hxv
  · exact .inl rfl
  · exact one_of_last hxy hyv

/-- Repair replaces names of a query, each as a whole, by known ones and leaves the rest: literals,
keywords and every other character. A known name stands in quotes if it needs them or if the name in
its place had them, unless the name in its place was a table with a dot beside it that the repair
put in quotes. -/
theorem repair_spelled {k : KnownNames} {sql : Text} (h : ∀ t ∈ tokens sql, t.IsUnmarked)
    (hk : ∀ n, k.Knows n → '"' ∉ n ∧ '\'' ∉ n ∧ '.' ∉ n) :
    LexedAs sql (tokens sql) ∧ ∃ us, LexedAs (repair k sql).sql us ∧
      List.Forall₂ (Spelled k sql) (tokens sql) us ∧
      ((∀ r ∈ tableRefs sql, ¬ r.PutInQuotes k sql) →
        List.Forall₂ (Put k.Knows) (tokens sql) us) := by
  have hts := tokensOf_of_unmarked h
  have hnames : ∀ n, k.Knows n → n ≠ [] → (Token.quoted n).Fit ∧ '.' ∉ n := by
    intro n hn hne
    obtain ⟨hquote, happostrophe, hdot⟩ := hk n hn
    refine ⟨⟨hne, fun c hc => ⟨?_, ?_⟩⟩, hdot⟩
    · rintro rfl
      exact hquote hc
    · rintro rfl
      exact happostrophe hc
  obtain ⟨a, b, c, us, hsteps⟩ := exists_repairSteps hts k.within_knows hnames
  have hspelled := spelled_of_repairSteps hts.lexed (fun n hn hne => (hnames n hn hne).1) hsteps
  refine ⟨hts.lexedAs, us, hsteps.lexed, hspelled, fun hno => hspelled.imp fun t u htu => ?_⟩
  cases htu with
  | put htu => exact htu
  | again hr hin => exact absurd hin (hno _ hr)

/-- A column in quotes, a bare one and their table are corrected, and the literal is left. -/
theorem repair_spelled_table_and_columns :
    let k : KnownNames := ⟨["cities"], [("cities", ["City", "state"])]⟩
    let sql : Text := "SELECT \"city\", stat FROM citys WHERE stat = '\"x'"
    (repair k sql).sql = "SELECT \"City\", state FROM cities WHERE stat = '\"x'" ∧
      ∃ us, LexedAs (repair k sql).sql us ∧ List.Forall₂ (Put k.Knows) (tokens sql) us := by
  intro k sql
  have hmarks : ∀ t ∈ tokens sql, t.IsUnmarked := by decide +kernel
  have hknown : ∀ n, k.Knows n → '"' ∉ n ∧ '\'' ∉ n ∧ '.' ∉ n :=
    KnownNames.forall_knows_iff.2 (by decide)
  obtain ⟨-, us, hus, -, hput⟩ := repair_spelled hmarks hknown
  refine ⟨by decide +kernel, us, hus, hput ?_⟩
  have hdots : ∀ r ∈ tableRefs sql, dotBeside (maskLiterals sql) r.start r.stop = false := by
    decide +kernel
  rintro r hr ⟨-, hdot, -⟩
  rw [hdots r hr] at hdot
  cases hdot

/-- The table is put in quotes, and what stands behind the dot is then taken for a column that needs
none. -/
theorem repair_respelled_table :
    let k : KnownNames := ⟨["orders", "Cities"], [("orders", ["city", "x"]), ("cities", ["nm"])]⟩
    let sql : Text := "SELECT x FROM orders shop, shop.citys"
    (∀ t ∈ tokens sql, t.IsUnmarked) ∧ (∀ n, k.Knows n → '"' ∉ n ∧ '\'' ∉ n ∧ '.' ∉ n) ∧
      (repair k sql).sql = "SELECT x FROM orders shop, shop.\"city\"" ∧
      ¬ ∃ us, textOf us = (repair k sql).sql ∧ List.Forall₂ (Put k.Knows) (tokens sql) us := by
  intro k sql
  have hsql : (repair k sql).sql = "SELECT x FROM orders shop, shop.\"city\"" := by decide +kernel
  refine ⟨by decide +kernel, KnownNames.forall_knows_iff.2 (by decide), hsql, ?_⟩
  rintro ⟨us, htext, hput⟩
  rw [hsql] at htext
  -- What stands for the last token ends the text.
  have hlast : (tokens sql).reverse.head? = some (.word "citys") := rfl
  obtain ⟨ts, hts⟩ := List.head?_eq_some_iff.1 hlast
  rw [← List.forall₂_reverse_iff, hts] at hput
  obtain ⟨u, vs, hu, -, hus⟩ := List.forall₂_cons_left_iff.1 hput
  obtain rfl : us = vs.reverse ++ [u] := by simpa using congrArg List.reverse hus
  have hends : u.text <:+ "SELECT x FROM orders shop, shop.\"city\"" :=
    ⟨textOf vs.reverse, by rw [← htext]; simp⟩
  obtain hsame | ⟨n, hn, hrender⟩ := hu.text_of_word
  · rw [hsame] at hends
    exact absurd hends (by decide)
  · rw [hrender] at hends
    have hall : ∀ n, k.Knows n →
        ¬ renderName n false <:+ "SELECT x FROM orders shop, shop.\"city\"" :=
      KnownNames.forall_knows_iff.2 (by decide)
    exact hall n hn hends

end QueryGate
