import QueryGate.Proofs.Sql.FromClause

/-!
# Names read back

A name, a qualified name and an alias are read back as they were written, if no name runs on into
what follows them (`Apart`).
-/

namespace QueryGate

/-- What can follow a name in a list of tables: no name runs on into it, and neither a dot nor a
parenthesis continues it. -/
structure Apart (t : Text) : Prop where
  head : t.head?.any isNamePart = false
  ends : (skipBlanks t).head?.any (fun c => c == '.' || c == '(') = false

namespace Apart

variable {t : Text}

theorem dot?_eq_none (h : Apart t) : dot? t = none := by
  rw [Option.eq_none_iff_forall_ne_some]
  intro r hr
  obtain ⟨w, hw, -⟩ := QueryGate.dot?_eq_some hr
  have := h.ends
  rw [hw] at this
  cases this

theorem opensCall_eq_false (h : Apart t) : opensCall t = false := by
  rw [opensCall, Bool.eq_false_iff]
  intro hcall
  have := h.ends
  rw [eq_of_beq hcall] at this
  cases this

theorem of_blanks {g r : Text} (hg : allBlank g = true) (hne : g ≠ [])
    (hr : r.head?.any (fun c => isBlank c || c == '.' || c == '(') = false) : Apart (g ++ r) := by
  have hblank : r.head?.any isBlank = false := by
    cases r with
    | nil => rfl
    | cons c r =>
      simp only [List.head?_cons, Option.any_some, Bool.or_eq_false_iff] at hr ⊢
      exact hr.1.1
  constructor
  · cases g with
    | nil => exact absurd rfl hne
    | cons c g => exact isNamePart_eq_false_of_isBlank (List.all_eq_true.1 hg c List.mem_cons_self)
  · rw [skipBlanks_append hg hblank]
    cases r with
    | nil => rfl
    | cons c r =>
      simp only [List.head?_cons, Option.any_some, Bool.or_eq_false_iff] at hr ⊢
      exact ⟨hr.1.2, hr.2⟩

end Apart

/-- A plain word is read back. -/
theorem PlainWord.read? {isStart : Char → Bool}
    (hstart : ∀ c, isNameStart c = true → isStart c = true) {w next : Text} (hw : PlainWord w)
    (hnext : next.head?.any isNamePart = false) :
    Identifier.read? isStart (w ++ next) = some (⟨w, false⟩, next) := by
  obtain ⟨c, u, rfl, hc⟩ := hw.starts
  have hne : c ≠ '"' := by
    rintro rfl
    exact absurd hc (by decide)
  have hall : ∀ d ∈ u, isNamePart d = true := fun d hd =>
    isNamePart_of_isWordChar (hw.chars d (List.mem_cons_of_mem c hd))
  rw [List.cons_append, Identifier.read?, if_neg (by simpa using hne), if_pos (hstart c hc),
    takeWhile_append_of_all hall hnext, dropWhile_append_of_all hall hnext]

namespace PlainName

theorem exists_text_eq_cons (n : PlainName) :
    ∃ c u, n.text = c :: u ∧ (c = '"' ∨ isNameStart c = true) := by
  rcases n.bare_or_quoted with ⟨-, htext, hw⟩ | ⟨-, htext, -⟩
  · obtain ⟨c, u, hcu, hc⟩ := hw.starts
    exact ⟨c, u, by rw [htext, hcu], .inr hc⟩
  · exact ⟨_, _, htext, .inl rfl⟩

theorem head?_text_any {p : Char → Bool} (n : PlainName) (hquote : p '"' = false)
    (hp : ∀ c, isWordChar c = true → p c = false) (r : Text) :
    (n.text ++ r).head?.any p = false := by
  obtain ⟨c, u, htext, rfl | hc⟩ := n.exists_text_eq_cons
  · rw [htext]
    exact hquote
  · rw [htext]
    exact hp c (isWordChar_of_isFoldedNameStart (isFoldedNameStart_of_isNameStart hc))

theorem not_blank (n : PlainName) (r : Text) : (n.text ++ r).head?.any isBlank = false :=
  n.head?_text_any (by decide) (fun _ => isBlank_eq_false_of_isWordChar) r

/-- A name is read back. -/
theorem read? {isStart : Char → Bool} (hstart : ∀ c, isNameStart c = true → isStart c = true)
    (n : PlainName) {next : Text} (hnext : next.head?.any isNamePart = false) :
    Identifier.read? isStart (n.text ++ next) = some (n.identifier, next) := by
  rcases n.bare_or_quoted with ⟨hq, htext, hw⟩ | ⟨hq, htext, hname⟩
  · rw [htext, hw.read? hstart hnext, ← hq]
  · rw [htext, Identifier.read?_inQuotes isStart hname.ne_nil hname.no_quote, ← hq]

end PlainName

/-- A qualified name as it is read where it was written in front of `next`. -/
def TableName.readBack (t : TableName) (next : Text) : QualifiedName :=
  ⟨t.qualifier?.map (·.1.identifier), t.name.identifier, t.name.text ++ next, next⟩

theorem dot?_append {g g' u : Text} (hg : allBlank g = true) (hg' : allBlank g' = true)
    (hu : u.head?.any isBlank = false) : dot? (g ++ '.' :: (g' ++ u)) = some u := by
  rw [dot?, skipBlanks_append hg rfl]
  simp only [skipBlanks_append hg' hu]

theorem QualifiedName.read?_alone {isStart : Char → Bool} {t rest : Text} {i : Identifier}
    (h : Identifier.read? isStart t = some (i, rest)) (hdot : dot? rest = none) :
    QualifiedName.read? isStart t = some ⟨none, i, t, rest⟩ := by
  rw [QualifiedName.read?]
  simp only [h, Option.bind_eq_bind, Option.bind_some, hdot]
  rfl

theorem QualifiedName.read?_qualified {isStart : Char → Bool} {t r u rest : Text}
    {qualifier i : Identifier} (h : Identifier.read? isStart t = some (qualifier, r))
    (hdot : dot? r = some u) (hname : Identifier.read? isStart u = some (i, rest)) :
    QualifiedName.read? isStart t = some ⟨some qualifier, i, u, rest⟩ := by
  rw [QualifiedName.read?]
  simp only [h, Option.bind_eq_bind, Option.bind_some, hdot, hname]
  rfl

/-- Blanks and a dot end a name. -/
theorem head?_append_dot_any {g : Text} (hg : allBlank g = true) (u : Text) :
    (g ++ '.' :: u).head?.any isNamePart = false := by
  cases g with
  | nil => rfl
  | cons c g => exact isNamePart_eq_false_of_isBlank (List.all_eq_true.1 hg c List.mem_cons_self)

theorem TableName.read? {isStart : Char → Bool}
    (hstart : ∀ c, isNameStart c = true → isStart c = true) (t : TableName) {next : Text}
    (hnext : Apart next) :
    QualifiedName.read? isStart (t.text ++ next) = some (t.readBack next) := by
  have hname := t.name.read? hstart hnext.head
  rw [TableName.text, TableName.lead, TableName.readBack]
  cases hq : t.qualifier? with
  | none =>
    rw [List.nil_append]
    exact QualifiedName.read?_alone hname hnext.dot?_eq_none
  | some q =>
    obtain ⟨q, before, after⟩ := q
    have htext : q.text ++ (before.text ++ '.' :: after.text) ++ t.name.text ++ next =
        q.text ++ (before.text ++ '.' :: (after.text ++ (t.name.text ++ next))) := by
      simp
    simp only [htext]
    exact QualifiedName.read?_qualified (q.read? hstart (head?_append_dot_any before.blank _))
      (dot?_append before.blank after.blank (t.name.not_blank next)) hname

/-- A word that is read as a name is read whole. -/
theorem Identifier.read?_word {isStart : Char → Bool} {w next rest : Text} {i : Identifier}
    (hw : ∀ c ∈ w, isWordChar c = true) (hne : w ≠ []) (hnext : next.head?.any isNamePart = false)
    (h : Identifier.read? isStart (w ++ next) = some (i, rest)) : i = ⟨w, false⟩ := by
  cases w with
  | nil => exact absurd rfl hne
  | cons c u =>
    have hall : ∀ d ∈ u, isNamePart d = true := fun d hd =>
      isNamePart_of_isWordChar (hw d (List.mem_cons_of_mem c hd))
    have hquote : (c == '"') = false := by
      rw [beq_eq_false_iff_ne]
      rintro rfl
      exact absurd (hw _ List.mem_cons_self) (by decide)
    rw [List.cons_append, Identifier.read?, hquote, if_neg (by decide)] at h
    split at h
    · rw [takeWhile_append_of_all hall hnext] at h
      exact (Prod.mk.inj (Option.some.inj h)).1.symm
    · cases h

/-! ## Words that are no keyword -/

/-- At the beginning of another word a keyword and blanks behind it are not read. -/
theorem keyword?_bind_spaced?_of_word {w word next : Text}
    (hword : ∀ c ∈ word.map foldLetter, c.isLower = true) (hw : ∀ c ∈ w, isWordChar c = true)
    (hne : ¬ Spells word w) (hnext : next.head?.any isWordChar = false) :
    (keyword? word (w ++ next)).bind spaced? = none := by
  rw [Option.eq_none_iff_forall_ne_some]
  intro t ht
  obtain ⟨r, hr, hspaced⟩ := Option.bind_eq_some_iff.1 ht
  obtain ⟨x, heq, hx⟩ := keyword?_eq_some_iff.1 hr
  obtain ⟨z, rfl, rfl⟩ | ⟨z, rfl, rfl⟩ := List.append_eq_append_iff.1 heq
  · cases z with
    | nil => exact hne (by rwa [List.append_nil] at hx)
    | cons c z =>
      have hc := isWordChar_of_isLower_foldLetter (hword _ (hx.mem (c := c) (by simp)))
      rw [List.cons_append, List.head?_cons, Option.any_some, hc] at hnext
      cases hnext
  · cases z with
    | nil => exact hne (by rwa [List.append_nil])
    | cons c z =>
      have hc := isBlank_eq_false_of_isWordChar (hw c (by simp))
      rw [List.cons_append, spaced?, if_neg (by simp [hc])] at hspaced
      cases hspaced

theorem head?_any_isWordChar {t : Text} (h : t.head?.any isNamePart = false) :
    t.head?.any isWordChar = false := by
  cases t with
  | nil => rfl
  | cons c t =>
    cases hc : isWordChar c with
    | false => exact hc
    | true =>
      rw [List.head?_cons, Option.any_some, isNamePart_of_isWordChar hc] at h
      cases h

theorem PlainWord.keyword?_bind_spaced? {w k word next : Text} (hw : PlainWord w)
    (hk : k ∈ sqlKeywords) (hword : word.map foldLetter = k.map foldLetter)
    (hletters : ∀ c ∈ word.map foldLetter, c.isLower = true)
    (hnext : next.head?.any isNamePart = false) :
    (keyword? word (w ++ next)).bind spaced? = none :=
  keyword?_bind_spaced?_of_word hletters hw.chars (fun hs => hw.not_spelling k hk (hs.trans hword))
    (head?_any_isWordChar hnext)

theorem keyword?_bind_spaced?_inQuotes {word : Text}
    (hletters : ∀ c ∈ word.map foldLetter, c.isLower = true) (name next : Text) :
    (keyword? word (inQuotes name ++ next)).bind spaced? = none := by
  rw [Option.eq_none_iff_forall_ne_some]
  intro t ht
  obtain ⟨r, hr, hspaced⟩ := Option.bind_eq_some_iff.1 ht
  obtain ⟨x, heq, hx⟩ := keyword?_eq_some_iff.1 hr
  cases x with
  | nil =>
    rw [List.nil_append] at heq
    rw [← heq] at hspaced
    cases hspaced
  | cons c x =>
    have hquote : '"' ∈ c :: x := by
      obtain ⟨rfl, -⟩ := List.cons.inj heq
      exact List.mem_cons_self
    exact absurd (hletters _ (hx.mem hquote)) (by decide)

theorem PlainName.keyword?_bind_spaced? (n : PlainName) {k word next : Text} (hk : k ∈ sqlKeywords)
    (hword : word.map foldLetter = k.map foldLetter)
    (hletters : ∀ c ∈ word.map foldLetter, c.isLower = true)
    (hnext : next.head?.any isNamePart = false) :
    (keyword? word (n.text ++ next)).bind spaced? = none := by
  rcases n.bare_or_quoted with ⟨-, htext, hw⟩ | ⟨-, htext, -⟩
  · rw [htext]
    exact hw.keyword?_bind_spaced? hk hword hletters hnext
  · rw [htext]
    exact keyword?_bind_spaced?_inQuotes hletters _ next

theorem Spelling.text_ne_nil {word : Text} (w : Spelling word) (hne : word ≠ []) : w.text ≠ [] :=
  fun hnil => hne (List.length_eq_zero_iff.1 (by rw [← w.spells.length_eq, hnil, List.length_nil]))

theorem Spelling.head?_text_any {word : Text} {p : Char → Bool} (w : Spelling word)
    (hletters : ∀ c ∈ word.map foldLetter, c.isLower = true) (hne : word ≠ [])
    (hp : ∀ c, isWordChar c = true → p c = false) (r : Text) :
    (w.text ++ r).head?.any p = false := by
  cases hw : w.text with
  | nil => exact absurd hw (w.text_ne_nil hne)
  | cons c x =>
    have hmem : c ∈ w.text := hw ▸ List.mem_cons_self
    exact hp c (isWordChar_of_isLower_foldLetter (hletters _ (w.spells.mem hmem)))

/-! ## Aliases -/

theorem Alias.head?_text_any {p : Char → Bool} (a : Alias) (hquote : p '"' = false)
    (hp : ∀ c, isWordChar c = true → p c = false) (r : Text) :
    (a.text ++ r).head?.any p = false := by
  rw [Alias.text]
  cases a.as? with
  | none => exact a.name.head?_text_any hquote hp r
  | some q =>
    obtain ⟨word, gap⟩ := q
    rw [List.append_assoc]
    exact word.head?_text_any (by decide) (by decide) hp _

theorem Alias.not_blank (a : Alias) (r : Text) : (a.text ++ r).head?.any isBlank = false :=
  a.head?_text_any (by decide) (fun _ => isBlank_eq_false_of_isWordChar) r

theorem not_end_of_isWordChar {c : Char} (hc : isWordChar c = true) :
    (isBlank c || c == '.' || c == '(') = false := by
  have hne : ∀ d, isWordChar d = false → c ≠ d := by
    rintro d hd rfl
    rw [hc] at hd
    cases hd
  simp [isBlank_eq_false_of_isWordChar hc, hne '.' (by decide), hne '(' (by decide)]

/-- An alias behind blanks keeps what is in front of it apart. -/
theorem Alias.apart (a : Alias) (gap : Gap) (r : Text) : Apart (gap.text ++ (a.text ++ r)) :=
  .of_blanks gap.blank gap.ne_nil (a.head?_text_any (by decide) (fun _ => not_end_of_isWordChar) r)

theorem Alias.aliasAfter? (a : Alias) {gap next : Text} (hgap : allBlank gap = true)
    (hne : gap ≠ []) (hnext : next.head?.any isNamePart = false) :
    aliasAfter? (gap ++ (a.text ++ next)) = some (a.name.identifier, next) := by
  have hname := a.name.read? (fun _ => isFoldedNameStart_of_isNameStart) hnext
  rw [QueryGate.aliasAfter?, aliasReadings, spaced?_append hne hgap (a.not_blank next)]
  cases has : a.as? with
  | none =>
    have htext : a.text = a.name.text := by rw [Alias.text, has]
    have hno : (keyword? "AS" (a.name.text ++ next)).bind spaced? = none :=
      a.name.keyword?_bind_spaced? (k := "as") (by decide) (by decide) (by decide) hnext
    simp only [htext, hno, hname]
    rfl
  | some p =>
    obtain ⟨word, gap'⟩ := p
    have htext : a.text ++ next = word.text ++ (gap'.text ++ (a.name.text ++ next)) := by
      rw [Alias.text, has, List.append_assoc, List.append_assoc]
    have hspaced : spaced? (gap'.text ++ (a.name.text ++ next)) = some (a.name.text ++ next) :=
      spaced?_append gap'.ne_nil gap'.blank (a.name.not_blank next)
    simp only [htext, keyword?_append word.spells, Option.bind_some, hspaced, hname]
    rfl

end QueryGate
