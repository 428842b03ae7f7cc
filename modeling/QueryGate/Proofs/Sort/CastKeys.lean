import QueryGate.Proofs.Repair.Lookups
import QueryGate.Proofs.Sort.SortItems
import QueryGate.Proofs.Sql.TablePlaces

/-!
# Casts of sort keys

Casting replaces each sort key that it finds by a cast of its column (`exists_of_mem_casts`). If no
two of them overlap, the text is left as it is but for the casts (`castIn_applyEdits`), and it
shows how many there are (`CastIn.length_eq`).
-/

namespace QueryGate

/-! ## Sort keys -/

/-- A column put in a cast. -/
def castOf (target : Text) : Text := "CAST(" ++ target ++ " AS DOUBLE PRECISION)"

theorem length_castOf (target : Text) : (castOf target).length = target.length + 26 := by
  have hopen : ("CAST(" : Text).length = 5 := rfl
  have hclose : (" AS DOUBLE PRECISION)" : Text).length = 21 := rfl
  simp only [castOf, List.length_append, hopen, hclose]
  omega

/-- A sort key is read as a column, perhaps with a qualifier, and what follows it. -/
theorem exists_read_of_sortKey? {item target suffix : Text}
    (h : sortKey? item = some (target, suffix)) :
    ∃ n u, QualifiedName.read? isFoldedNameStart item = some n ∧ item = u ++ n.onward ∧
      target = u ++ n.name.written ∧ suffix = n.rest := by
  obtain ⟨n, hn, h⟩ := Option.bind_eq_some_iff.1 h
  obtain ⟨⟨u, hu, -⟩, honward, -⟩ :=
    QualifiedName.read?_eq_some (fun _ => isNamePart_of_isFoldedNameStart) hn
  split at h
  · obtain ⟨rfl, rfl⟩ := Prod.mk.inj (Option.some.inj h)
    refine ⟨n, u, hn, hu, ?_, rfl⟩
    have hitem : item = (u ++ n.name.written) ++ n.rest := by
      rw [hu, honward, List.append_assoc]
    rw [hitem, List.length_append, Nat.add_sub_cancel, List.take_left]
  · cases h

theorem sortKey?_eq_some {item target suffix : Text} (h : sortKey? item = some (target, suffix)) :
    item = target ++ suffix ∧ target ≠ [] := by
  obtain ⟨n, u, hn, rfl, rfl, rfl⟩ := exists_read_of_sortKey? h
  obtain ⟨-, honward, -, hne⟩ :=
    QualifiedName.read?_eq_some (fun _ => isNamePart_of_isFoldedNameStart) hn
  refine ⟨by rw [honward, List.append_assoc], fun hnil => ?_⟩
  exact Identifier.written_ne_nil hne (List.append_eq_nil_iff.1 hnil).2

/-- An edit puts the sort key that it replaces in a cast. -/
structure CastsKey (t : Text) (e : Edit) : Prop where
  stop_le : e.stop ≤ t.length
  key : ∃ target suffix, sortKey? (Text.slice t e.start e.stop) = some (target, suffix) ∧
    e.text = castOf target ++ suffix

namespace CastsKey

variable {t : Text} {e : Edit}

theorem length_slice (h : e.stop ≤ t.length) :
    (Text.slice t e.start e.stop).length = e.stop - e.start := by
  rw [Text.slice, List.length_drop, List.length_take_of_le h]

theorem lt (h : CastsKey t e) : e.start < e.stop := by
  obtain ⟨target, suffix, hkey, -⟩ := h.key
  obtain ⟨hitem, hne⟩ := sortKey?_eq_some hkey
  have hlen := length_slice h.stop_le
  rw [hitem, List.length_append] at hlen
  have := List.length_pos_iff.2 hne
  omega

theorem length_text (h : CastsKey t e) : e.text.length = e.stop - e.start + 26 := by
  obtain ⟨target, suffix, hkey, htext⟩ := h.key
  have hlen := length_slice h.stop_le
  rw [(sortKey?_eq_some hkey).1, List.length_append] at hlen
  rw [htext, List.length_append, length_castOf]
  omega

/-- The key stands in any beginning of the text that it ends in. -/
theorem take (h : CastsKey t e) {n : Nat} (hn : e.stop ≤ n) : CastsKey (t.take n) e where
  stop_le := by
    rw [List.length_take]
    exact Nat.le_min.2 ⟨hn, h.stop_le⟩
  key := by
    rw [Text.slice, List.take_take, Nat.min_eq_left hn]
    exact h.key

end CastsKey

/-! ## The casts that are found -/

/-- The cast of the item at a span, if it is a key to cast. -/
def castAt? (columns : List Column) (sql : Text) (s : Span) : Option Cast :=
  match sortKey? (Text.slice sql s.start s.stop) with
  | none => none
  | some (target, suffix) =>
    let declared := (declaredAliases (maskLiterals sql)).map lower
    let isColumn := columns.any fun c => sameName c.name (keyName target)
    if (declared.contains (lower (keyName target)) && !isColumn) ||
        !isNumericKey columns (keyName target) then none
    else some ⟨target, ⟨s.start, s.stop, castOf target ++ suffix⟩⟩

/-- The items that are looked at: those of the lists without a cast. -/
def uncastItems (masked : Text) : List Span :=
  ((sortLists masked).filter fun s =>
    !occurs castMark (Text.slice masked s.start s.stop)).flatMap fun s =>
      topLevelItems masked s.start s.stop

theorem casts_eq (columns : List Column) (sql : Text) :
    casts columns sql = (uncastItems (maskLiterals sql)).filterMap (castAt? columns sql) := rfl

/-- A key that is cast is a number by its column or its name. -/
structure CastOfKey (columns : List Column) (sql : Text) (s : Span) (c : Cast) : Prop where
  span : c.edit.span = s
  key : ∃ suffix, sortKey? (Text.slice sql c.edit.start c.edit.stop) = some (c.target, suffix) ∧
    c.edit.text = castOf c.target ++ suffix
  numeric : isNumericKey columns (keyName c.target) = true

theorem castAt?_eq_some {columns : List Column} {sql : Text} {s : Span} {c : Cast}
    (h : castAt? columns sql s = some c) : CastOfKey columns sql s c := by
  unfold castAt? at h
  split at h
  · cases h
  rename_i target suffix hkey
  simp only at h
  split at h
  · cases h
  rename_i hnumeric
  obtain rfl := Option.some.inj h
  refine ⟨rfl, ⟨suffix, hkey, rfl⟩, ?_⟩
  simp only [Bool.or_eq_true, not_or, Bool.not_eq_true', Bool.not_eq_false] at hnumeric
  exact hnumeric.2

theorem exists_of_mem_casts {columns : List Column} {sql : Text} {c : Cast}
    (hc : c ∈ casts columns sql) : ∃ list ∈ sortLists (maskLiterals sql),
      ∃ s ∈ topLevelItems (maskLiterals sql) list.start list.stop, CastOfKey columns sql s c := by
  obtain ⟨s, hs, hc⟩ := List.mem_filterMap.1 (casts_eq columns sql ▸ hc)
  obtain ⟨list, hlist, hs⟩ := List.mem_flatMap.1 hs
  exact ⟨list, (List.mem_filter.1 hlist).1, s, hs, castAt?_eq_some hc⟩

theorem castsKey_of_mem_casts {columns : List Column} {sql : Text} {c : Cast}
    (hc : c ∈ casts columns sql) : CastsKey sql c.edit := by
  obtain ⟨list, hlist, s, hs, hcast⟩ := exists_of_mem_casts hc
  obtain ⟨suffix, hkey, htext⟩ := hcast.key
  have hle := (pairwise_topLevelItems.2 s hs).le_stop
  rw [length_maskLiterals, ← hcast.span] at hle
  exact ⟨(Nat.le_min.1 hle).2, c.target, suffix, hkey, htext⟩

theorem castsKey_of_mem_edits {columns : List Column} {sql : Text} :
    ∀ e ∈ (casts columns sql).map (·.edit), CastsKey sql e := by
  intro e he
  obtain ⟨c, hc, rfl⟩ := List.mem_map.1 he
  exact castsKey_of_mem_casts hc

/-! ## The text with casts -/

/-- Some sort keys of a text, the last first, are put in a cast each, and nothing else changes. -/
inductive CastIn : (keys : List Span) → (t cast : Text) → Prop
  | nil (t : Text) : CastIn [] t t
  | cons {keys : List Span} {a u : Text} (target suffix b : Text) (before : CastIn keys a u)
      (key : sortKey? (target ++ suffix) = some (target, suffix)) :
      CastIn (⟨a.length, (a ++ (target ++ suffix)).length⟩ :: keys)
        (a ++ (target ++ suffix) ++ b) (u ++ (castOf target ++ suffix) ++ b)

namespace CastIn

variable {keys : List Span} {t u : Text}

theorem stop_le (h : CastIn keys t u) : ∀ s ∈ keys, s.start < s.stop ∧ s.stop ≤ t.length := by
  induction h with
  | nil t => exact fun s hs => nomatch hs
  | @cons keys a u target suffix b _ key ih =>
    have hne := List.length_pos_iff.2 (sortKey?_eq_some key).2
    intro s hs
    simp only [List.length_append]
    rcases List.mem_cons.1 hs with rfl | hs
    · simp only [List.length_append]
      omega
    · have := ih s hs
      omega

/-- Each key ends before the one that was cast earlier. -/
theorem pairwise (h : CastIn keys t u) : keys.Pairwise fun s r => r.Before s := by
  induction h with
  | nil t => exact .nil
  | cons target suffix b before key ih =>
    exact List.pairwise_cons.2 ⟨fun s hs => (before.stop_le s hs).2, ih⟩

theorem nodup (h : CastIn keys t u) : keys.Nodup := by
  refine h.pairwise.imp_of_mem fun {s r} hs _ hbefore heq => ?_
  have := (h.stop_le s hs).1
  simp only [heq, Span.Before] at hbefore this
  omega

theorem length_eq (h : CastIn keys t u) : u.length = t.length + 26 * keys.length := by
  induction h with
  | nil t => rfl
  | cons target suffix b _ _ ih =>
    simp only [List.length_append, List.length_cons, length_castOf, ih]
    omega

end CastIn

/-- Edits from the last to the first, none of which overlap, leave a text with casts. -/
theorem castIn_foldl {t : Text} {edits : List Edit} (hcasts : ∀ e ∈ edits, CastsKey t e)
    (hbefore : edits.Pairwise fun d e => e.stop ≤ d.start) :
    CastIn (edits.map (·.span)) t (edits.foldl Edit.splice t) := by
  induction edits generalizing t with
  | nil => exact .nil t
  | cons e edits ih =>
    obtain ⟨he, hrest⟩ := List.pairwise_cons.1 hbefore
    have hcast := hcasts e List.mem_cons_self
    obtain ⟨target, suffix, hkey, htext⟩ := hcast.key
    have hitem := (sortKey?_eq_some hkey).1
    have hstart : (t.take e.start).length = e.start :=
      List.length_take_of_le (hcast.lt.le.trans hcast.stop_le)
    -- The other keys stand in front of this one.
    have hfront : ∀ d ∈ edits, CastsKey (t.take e.start) d := fun d hd =>
      (hcasts d (List.mem_cons_of_mem e hd)).take (he d hd)
    have hsplit : t = t.take e.start ++ (target ++ suffix) ++ t.drop e.stop := by
      rw [← hitem, Text.take_append_slice t hcast.lt.le, List.take_append_drop]
    have hfold : (e :: edits).foldl Edit.splice t =
        edits.foldl Edit.splice (t.take e.start) ++ (castOf target ++ suffix) ++
          t.drop e.stop := by
      rw [List.foldl_cons, Edit.splice, htext, List.append_assoc (t.take e.start),
        Edit.foldl_splice_append (fun d hd => (hfront d hd).stop_le) (fun d hd => (hfront d hd).lt)
          hrest, ← List.append_assoc]
    have hspan : e.span = ⟨(t.take e.start).length,
        (t.take e.start ++ (target ++ suffix)).length⟩ := by
      have hlen := CastsKey.length_slice hcast.stop_le
      have := hcast.lt
      rw [List.length_append, ← hitem, hlen, hstart, Edit.span]
      congr 1
      omega
    rw [hfold, List.map_cons, hspan]
    nth_rewrite 3 [hsplit]
    exact .cons target suffix _ (ih hfront hrest) (hitem ▸ hkey)

/-- Edits of keys that do not overlap put each of them in a cast. -/
theorem castIn_applyEdits {t : Text} {edits : List Edit} (hcasts : ∀ e ∈ edits, CastsKey t e)
    (hapart : edits.Pairwise fun d e => d.stop ≤ e.start ∨ e.stop ≤ d.start) :
    ∃ keys, keys.Perm (edits.map (·.span)) ∧ CastIn keys t (applyEdits t edits) := by
  have hperm := Edit.perm_fromLast edits
  have hdisjoint : Edit.Disjoint edits := ⟨fun e he => (hcasts e he).lt, hapart⟩
  exact ⟨_, hperm.map _, castIn_foldl (fun e he => hcasts e (hperm.mem_iff.1 he))
    hdisjoint.pairwise_fromLast⟩

/-- Each edit makes the text longer by what a cast adds, even if edits overlap. -/
theorem length_applyEdits {t : Text} {edits : List Edit} (hcasts : ∀ e ∈ edits, CastsKey t e) :
    (applyEdits t edits).length = t.length + 26 * edits.length := by
  have hperm := Edit.perm_fromLast edits
  have hfold : ∀ (l : List Edit) (u : Text), (∀ e ∈ l, CastsKey t e) → t.length ≤ u.length →
      (l.foldl Edit.splice u).length = u.length + 26 * l.length := by
    intro l
    induction l with
    | nil => exact fun u _ _ => rfl
    | cons e l ih =>
      intro u hl hu
      have hcast := hl e List.mem_cons_self
      have hlt := hcast.lt
      have hle := hcast.stop_le
      have hsplice : (Edit.splice u e).length = u.length + 26 := by
        simp only [Edit.splice, List.length_append, List.length_take, List.length_drop,
          hcast.length_text]
        omega
      rw [List.foldl_cons, ih _ (fun d hd => hl d (List.mem_cons_of_mem e hd)) (by omega), hsplice,
        List.length_cons]
      omega
  rw [applyEdits, hfold _ t (fun e he => hcasts e (hperm.mem_iff.1 he)) (Nat.le_refl _),
    hperm.length_eq]

end QueryGate
