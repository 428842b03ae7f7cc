import Mathlib.Data.List.Nodup
import QueryGate.Schema.Registry

/-!
# Registries that came about

Whatever is registered and removed, a registry keeps its tables by their names in small letters, no
two of them under the same (`Registry.Reached.keyed`). So a table of its snapshot is found by every
spelling of its name, however many others there are (`Registry.Reached.findTable?`).
-/

namespace QueryGate

/-! ## Entries -/

namespace Dictionary

variable {α : Type}

theorem mem_put {key : Text} {a : α} {e : Text × α} {d : Dictionary α} (h : e ∈ put key a d) :
    e = (key, a) ∨ e ∈ d := by
  induction d with
  | nil => exact .inl (List.mem_singleton.1 h)
  | cons f d ih =>
    unfold put at h
    split at h
    · exact (List.mem_cons.1 h).imp id (List.mem_cons_of_mem f)
    · rcases List.mem_cons.1 h with rfl | h
      · exact .inr List.mem_cons_self
      · exact (ih h).imp id (List.mem_cons_of_mem f)

theorem mem_ofEntries {entries : List (Text × α)} : ∀ e ∈ ofEntries entries, e ∈ entries := by
  apply List.foldlRecOn (motive := fun d => ∀ e ∈ d, e ∈ entries)
  · intro e he
    cases he
  · intro d hd f hf e he
    rcases mem_put he with rfl | he
    · exact hf
    · exact hd e he

theorem nodup_keys_put (key : Text) (a : α) {d : Dictionary α} (h : (keys d).Nodup) :
    (keys (put key a d)).Nodup := by
  rw [keys_put]
  split
  · exact h
  · rename_i hmem
    rw [List.nodup_append]
    refine ⟨h, List.nodup_singleton key, fun k hk l hl heq => hmem ?_⟩
    rw [← List.mem_singleton.1 hl, ← heq]
    exact hk

theorem nodup_keys_erase (key : Text) {d : Dictionary α} (h : (keys d).Nodup) :
    (keys (erase key d)).Nodup :=
  h.sublist (List.filter_sublist.map _)

end Dictionary

namespace Registry

/-- What registering and removing tables, in any order, makes of the empty registry. -/
inductive Reached : Registry → Prop
  | empty : Reached empty
  | register {r : Registry} (t : Table) (h : Reached r) : Reached (r.register t)
  | unregister {r : Registry} (name : Text) (h : Reached r) : Reached (r.unregister name).1

theorem reached_ofTables (tables : List Table) : Reached (ofTables tables) :=
  List.foldlRecOn tables register .empty fun _ h t _ => h.register t

/-- Each table is kept once, by its name in small letters. -/
structure Keyed (r : Registry) : Prop where
  nodup : (Dictionary.keys r.entries).Nodup
  key_eq : ∀ e ∈ r.entries, e.1 = lower e.2.name

namespace Keyed

variable {r : Registry}

theorem empty : Keyed Registry.empty := ⟨List.nodup_nil, nofun⟩

theorem register (h : Keyed r) (t : Table) : Keyed (r.register t) where
  nodup := Dictionary.nodup_keys_put _ t h.nodup
  key_eq := by
    intro e he
    rcases Dictionary.mem_put he with rfl | he
    · rfl
    · exact h.key_eq e he

theorem unregister (h : Keyed r) (name : Text) : Keyed (r.unregister name).1 where
  nodup := Dictionary.nodup_keys_erase _ h.nodup
  key_eq := fun e he => h.key_eq e ((List.mem_filter.1 he).1)

/-- Tables of one name are one table. -/
theorem eq_of_sameName (h : Keyed r) {t u : Table} (ht : t ∈ r.tables) (hu : u ∈ r.tables)
    (hname : lower t.name = lower u.name) : t = u := by
  obtain ⟨e, he, rfl⟩ := List.mem_map.1 ht
  obtain ⟨f, hf, rfl⟩ := List.mem_map.1 hu
  have hkey : e.1 = f.1 := by rw [h.key_eq e he, h.key_eq f hf, hname]
  rw [List.inj_on_of_nodup_map h.nodup he hf hkey]

end Keyed

namespace Reached

variable {r : Registry}

theorem keyed (h : Reached r) : Keyed r := by
  induction h with
  | empty => exact .empty
  | register t _ ih => exact ih.register t
  | unregister name _ ih => exact ih.unregister name

/-- A table is found by every spelling of its name. -/
theorem findTable? (h : Reached r) {t : Table} (ht : t ∈ r.tables) {name : Text}
    (hname : lower name = lower t.name) : findTable? r.tables name = some t := by
  have hsome : (QueryGate.findTable? r.tables name).isSome = true :=
    List.find?_isSome.2 ⟨t, List.mem_reverse.2 ht, by simp [sameName, hname]⟩
  obtain ⟨u, hu⟩ := Option.isSome_iff_exists.1 hsome
  have hsame : lower u.name = lower name := by
    simpa [sameName] using List.find?_some hu
  have hmem : u ∈ r.tables := List.mem_reverse.1 (List.mem_of_find?_eq_some hu)
  rw [hu, h.keyed.eq_of_sameName hmem ht (hsame.trans hname)]

end Reached

end Registry

end QueryGate
