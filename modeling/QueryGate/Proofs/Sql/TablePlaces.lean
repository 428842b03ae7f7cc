import QueryGate.Proofs.Sql.FromClause
import QueryGate.Proofs.Sql.TableTokens

/-!
# Where table references stand

Every reference of a text is an identifier of it, as it is written there, and from the `FROM` or
`JOIN` that introduces it to the identifier the reader passes over whole names in quotes only: over
an even number of double quotes (`standsIn_of_mem_refs`).
-/

namespace QueryGate

/-! ## What readers pass over -/

namespace ReachesTo

variable {s t u rest : Text}

theorem refl (t : Text) : ReachesTo t t := ⟨[], rfl, rfl⟩

theorem trans (h : ReachesTo s t) (h' : ReachesTo t u) : ReachesTo s u := by
  obtain ⟨x, rfl, hx⟩ := h
  obtain ⟨y, rfl, hy⟩ := h'
  exact ⟨y ++ x, by simp, by rw [List.count_append]; omega⟩

theorem of_not_mem {x : Text} (hx : '"' ∉ x) (t : Text) : ReachesTo t (x ++ t) :=
  ⟨x, rfl, by rw [List.count_eq_zero.2 hx]⟩

theorem of_skipBlanks (t : Text) : ReachesTo (QueryGate.skipBlanks t) t := by
  obtain ⟨g, hg, ht⟩ := exists_blanks_append_skipBlanks t
  have h := of_not_mem (not_mem_of_allBlank (by decide) hg) (QueryGate.skipBlanks t)
  rwa [← ht] at h

theorem of_spaced (h : QueryGate.spaced? t = some rest) : ReachesTo rest t := by
  obtain ⟨g, -, hg, -, rfl⟩ := spaced?_eq_some_iff.1 h
  exact of_not_mem (not_mem_of_allBlank (by decide) hg) rest

theorem of_keyword {word : Text} (hword : ∀ c ∈ word.map foldLetter, c.isLower = true)
    (h : QueryGate.keyword? word t = some rest) : ReachesTo rest t := by
  obtain ⟨w, rfl, hw⟩ := keyword?_eq_some_iff.1 h
  refine of_not_mem (fun hquote => ?_) rest
  exact absurd (hword _ (hw.mem hquote)) (by decide)

theorem of_dot (h : QueryGate.dot? t = some rest) : ReachesTo rest t := by
  obtain ⟨r, hr, rfl⟩ := dot?_eq_some h
  have hskip := of_skipBlanks t
  rw [hr] at hskip
  exact ((of_skipBlanks r).trans (of_not_mem (x := ['.']) (by decide) r)).trans hskip

theorem of_comma (h : QueryGate.comma? t = some rest) : ReachesTo rest t := by
  obtain ⟨r, hr, rfl⟩ := comma?_eq_some h
  have hskip := of_skipBlanks t
  rw [hr] at hskip
  exact ((of_skipBlanks r).trans (of_not_mem (x := [',']) (by decide) r)).trans hskip

end ReachesTo

/-- An identifier in quotes holds none, and a bare one holds characters of names only. -/
def Identifier.IsWellFormed (i : Identifier) : Prop :=
  if i.quoted then '"' ∉ i.name else ∀ c ∈ i.name, isNamePart c = true

namespace Identifier

variable {isStart : Char → Bool} {i : Identifier} {t rest : Text}

theorem IsWellFormed.count_written (h : i.IsWellFormed) : i.written.count '"' % 2 = 0 := by
  rw [IsWellFormed] at h
  rw [written]
  cases hq : i.quoted with
  | true =>
    rw [hq, if_pos rfl] at h
    rw [if_pos rfl, inQuotes, List.count_append, List.count_cons_self, List.count_eq_zero.2 h]
    rfl
  | false =>
    rw [hq, if_neg Bool.false_ne_true] at h
    rw [if_neg Bool.false_ne_true, List.count_eq_zero.2 fun hquote => absurd (h _ hquote) (by decide)]

theorem written_ne_nil (h : i.name ≠ []) : i.written ≠ [] := by
  rw [written]
  split
  · exact List.cons_ne_nil _ _
  · exact h

/-- An identifier that is read is what the text begins with. -/
theorem read?_eq_some (hstart : ∀ c, isStart c = true → isNamePart c = true)
    (h : read? isStart t = some (i, rest)) :
    t = i.written ++ rest ∧ i.IsWellFormed ∧ i.name ≠ [] := by
  cases t with
  | nil => cases h
  | cons c t =>
    rw [read?] at h
    split at h
    · rename_i hquote
      obtain rfl := eq_of_beq hquote
      simp only at h
      split at h
      · cases h
      · rename_i d r hdrop
        split at h
        · cases h
        · rename_i hne
          obtain ⟨rfl, rfl⟩ := Prod.mk.inj (Option.some.inj h)
          have hd : d = '"' := by
            have hhead := head?_dropWhile_any (· != '"') t
            rw [hdrop] at hhead
            simpa using hhead
          refine ⟨?_, ?_, by simpa using hne⟩
          · change '"' :: t = inQuotes (t.takeWhile (· != '"')) ++ r
            conv =>
              lhs
              rw [← List.takeWhile_append_dropWhile (p := (· != '"')) (l := t), hdrop, hd]
            simp [inQuotes]
          · change '"' ∉ t.takeWhile (· != '"')
            exact fun hmem => absurd (List.mem_takeWhile_imp hmem) (by decide)
    · split at h
      · rename_i hs
        obtain ⟨rfl, rfl⟩ := Prod.mk.inj (Option.some.inj h)
        refine ⟨by simp [written], ?_, List.cons_ne_nil _ _⟩
        change ∀ x ∈ c :: t.takeWhile isNamePart, isNamePart x = true
        exact List.forall_mem_cons.2 ⟨hstart c hs, fun x hx => List.mem_takeWhile_imp hx⟩
      · cases h

end Identifier

variable {t rest : Text}

theorem ReachesTo.of_read {isStart : Char → Bool} {i : Identifier}
    (hstart : ∀ c, isStart c = true → isNamePart c = true)
    (h : Identifier.read? isStart t = some (i, rest)) : ReachesTo rest t := by
  obtain ⟨rfl, hi, -⟩ := Identifier.read?_eq_some hstart h
  exact ⟨i.written, rfl, hi.count_written⟩

/-- The last part of a qualified name stands where the name goes on behind the dot. -/
theorem QualifiedName.read?_eq_some {isStart : Char → Bool} {n : QualifiedName}
    (hstart : ∀ c, isStart c = true → isNamePart c = true)
    (h : QualifiedName.read? isStart t = some n) :
    ReachesTo n.onward t ∧ n.onward = n.name.written ++ n.rest ∧ n.name.IsWellFormed ∧
      n.name.name ≠ [] := by
  obtain ⟨⟨first, r⟩, hfirst, h⟩ := Option.bind_eq_some_iff.1 h
  have halone := Identifier.read?_eq_some hstart hfirst
  simp only at h
  split at h
  · obtain rfl := Option.some.inj h
    exact ⟨.refl t, halone⟩
  · rename_i r' hdot
    split at h
    · obtain rfl := Option.some.inj h
      exact ⟨.refl t, halone⟩
    · rename_i second rest hsecond
      obtain rfl := Option.some.inj h
      exact ⟨(ReachesTo.of_dot hdot).trans (.of_read hstart hfirst),
        Identifier.read?_eq_some hstart hsecond⟩

theorem ReachesTo.of_aliasAfter {i : Identifier} (h : QueryGate.aliasAfter? t = some (i, rest)) :
    ReachesTo rest t := by
  obtain ⟨u, hu, v, hv, hread⟩ := aliasAfter?_eq_some h
  have hlast : ReachesTo rest v := .of_read (fun _ => isNamePart_of_isFoldedNameStart) hread
  rcases hv with rfl | hv
  · exact hlast.trans (.of_spaced hu)
  · obtain ⟨w, hw, hspaced⟩ := Option.bind_eq_some_iff.1 hv
    exact ((hlast.trans (.of_spaced hspaced)).trans (.of_keyword (by decide) hw)).trans
      (.of_spaced hu)

/-! ## References -/

/-- A reference is an identifier in `t`, an end of a text of `size` characters, with an even number
of double quotes before it. -/
def TableRef.StandsIn (size : Nat) (t : Text) (r : TableRef) : Prop :=
  ∃ rest, ReachesTo (r.identifier.written ++ rest) t ∧ r.identifier.IsWellFormed ∧ r.name ≠ [] ∧
    r.start = size - (r.identifier.written ++ rest).length ∧ r.stop = size - rest.length

namespace TableRef.StandsIn

variable {size : Nat} {r : TableRef}

theorem of_reachesTo (h : r.StandsIn size rest) (ht : ReachesTo rest t) : r.StandsIn size t := by
  obtain ⟨u, hu, hr⟩ := h
  exact ⟨u, hu.trans ht, hr⟩

theorem of_name {isStart : Char → Bool} {n : QualifiedName} {keyword : Text}
    (hstart : ∀ c, isStart c = true → isNamePart c = true)
    (hn : QualifiedName.read? isStart t = some n)
    (h : tableRef? size keyword n = some (r, rest)) :
    r.StandsIn size t ∧ ReachesTo rest t := by
  obtain ⟨hreach, honward, hname, hne⟩ := QualifiedName.read?_eq_some hstart hn
  obtain ⟨hr, hrstart, hrstop, -, hrest⟩ := tableRef?_identifier h
  rw [honward] at hreach hrstart
  refine ⟨⟨n.rest, ?_⟩, ?_⟩
  · have hrname : r.name = n.name.name := congrArg Identifier.name hr
    rw [hr, hrname]
    exact ⟨hreach, hname, hne, hrstart, hrstop⟩
  · have hend : ReachesTo n.rest t :=
      ReachesTo.trans ⟨n.name.written, rfl, hname.count_written⟩ hreach
    rcases hrest with rfl | ⟨i, hi, -⟩
    · exact hend
    · exact (ReachesTo.of_aliasAfter hi).trans hend

theorem of_mem_listedRefs {steps : Nat} {keyword : Text}
    (h : r ∈ listedRefs size keyword steps t) : r.StandsIn size t := by
  induction steps generalizing t with
  | zero => cases h
  | succ steps ih =>
    obtain ⟨u, n, r', rest, hu, hn, href, h⟩ := mem_listedRefs_succ h
    obtain ⟨hr', hrest⟩ := of_name (fun _ => isNamePart_of_isNameStart) hn href
    rcases h with rfl | h
    · exact hr'.of_reachesTo (.of_comma hu)
    · exact (ih h).of_reachesTo (hrest.trans (.of_comma hu))

/-- What a `FROM` or `JOIN` introduces stands behind it. -/
theorem of_mem_refs {before after : Text} {v : TableSource}
    (h : tableSource before after = some (v, rest)) (hr : r ∈ v.refs size) :
    r.StandsIn size after := by
  obtain ⟨-, word, hword, x, u, rfl, hx, ⟨y, hy, hn⟩, -⟩ := tableSource_eq_some h
  obtain ⟨-, r', rest', href, hr⟩ := mem_refs hr
  obtain ⟨hr', hrest⟩ := of_name (fun _ => isNamePart_of_isFoldedNameStart) hn href
  have hname : ReachesTo y (x ++ u) := by
    refine (ReachesTo.of_spaced hy).trans (.of_not_mem (fun hquote => ?_) u)
    exact absurd (spells_sourceWord_letters hword hx _ hquote) (by decide)
  rcases hr with rfl | ⟨steps, hr⟩
  · exact hr'.of_reachesTo hname
  · exact (of_mem_listedRefs hr).of_reachesTo (hrest.trans hname)

end TableRef.StandsIn

end QueryGate
