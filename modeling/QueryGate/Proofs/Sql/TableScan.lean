import QueryGate.Proofs.Sql.Names
import QueryGate.Proofs.Text.Hits

/-!
# The scan for tables

The references of a text are gathered part by part (`Scanned`). A part in which `FROM` and `JOIN`
stand only in parentheses that close in it, or as `IS DISTINCT FROM` with the operand
(`isClosed`), adds references that start in it and nothing else, whatever stands around it
(`Scanned.of_isClosed`): no reading that begins in the part leaves it.
-/

namespace QueryGate

/-! ## One reading -/

/-- The words that are read as introducing a table. -/
def sourceWords : List Text := ["FROM", "JOIN"]

theorem tableSource_eq_some {before after rest : Text} {v : TableSource}
    (h : tableSource before after = some (v, rest)) :
    atWordStart before = true ∧ ∃ word ∈ sourceWords, ∃ x r, after = x ++ r ∧ Spells word x ∧
      (∃ t, spaced? r = some t ∧ QualifiedName.read? isFoldedNameStart t = some v.name) ∧
      rest = v.name.rest ∧ v.keyword = capitals x ∧
      v.introduces = (capitals x ≠ "FROM" || introducesTable before) := by
  unfold tableSource at h
  simp only at h
  split at h
  · rename_i hb
    refine ⟨hb, ?_⟩
    rw [Option.orElse_eq_orElse, Option.orElse_eq_or, Option.or_eq_some_iff] at h
    obtain ⟨word, hword, h⟩ : ∃ word ∈ sourceWords,
        (do
          let rest ← (keyword? word after).bind spaced?
          let name ← QualifiedName.read? isFoldedNameStart rest
          let keyword := capitals (after.take word.length)
          return (⟨keyword, keyword ≠ "FROM" || introducesTable before, name⟩, name.rest)) =
            some (v, rest) := by
      rcases h with h | ⟨-, h⟩
      · exact ⟨"FROM", by decide, h⟩
      · exact ⟨"JOIN", by decide, h⟩
    refine ⟨word, hword, ?_⟩
    obtain ⟨t, ht, h⟩ := Option.bind_eq_some_iff.1 h
    obtain ⟨n, hn, h⟩ := Option.bind_eq_some_iff.1 h
    obtain ⟨r, hr, hspaced⟩ := Option.bind_eq_some_iff.1 ht
    obtain ⟨x, rfl, hx⟩ := keyword?_eq_some_iff.1 hr
    obtain ⟨rfl, rfl⟩ := Prod.mk.inj (Option.some.inj h)
    have htake : (x ++ r).take word.length = x := by rw [← hx.length_eq, List.take_left]
    rw [htake]
    exact ⟨x, r, rfl, hx, ⟨t, hspaced, hn⟩, rfl, rfl, rfl⟩
  · cases h

theorem length_of_tableSource {before after rest : Text} {v : TableSource}
    (h : tableSource before after = some (v, rest)) : rest.length < after.length := by
  obtain ⟨-, word, -, x, r, rfl, -, ⟨t, ht, hn⟩, rfl, -⟩ := tableSource_eq_some h
  have := length_of_spaced? ht
  have := QualifiedName.length_of_read? hn
  rw [List.length_append]
  omega

theorem mem_refs {size : Nat} {v : TableSource} {r : TableRef} (h : r ∈ v.refs size) :
    v.introduces = true ∧ ∃ r' rest, tableRef? size v.keyword v.name = some (r', rest) ∧
      (r = r' ∨ ∃ steps, r ∈ listedRefs size v.keyword steps rest) := by
  unfold TableSource.refs at h
  split at h
  · cases h
  rename_i hi
  refine ⟨by simpa using hi, ?_⟩
  split at h
  · cases h
  rename_i r' rest href
  refine ⟨r', rest, href, ?_⟩
  rcases List.mem_cons.1 h with rfl | h
  · exact .inl rfl
  · split at h
    · exact .inr ⟨_, h⟩
    · cases h

/-- What a reading refers to starts where the reading does or later. -/
theorem le_start_of_mem_refs {size : Nat} {before after rest : Text} {v : TableSource}
    {r : TableRef} (h : tableSource before after = some (v, rest)) (hr : r ∈ v.refs size) :
    size ≤ r.start + after.length := by
  obtain ⟨-, word, -, x, u, rfl, -, ⟨t, ht, hn⟩, -⟩ := tableSource_eq_some h
  have ht := length_of_spaced? ht
  obtain ⟨hlt, hle⟩ := QualifiedName.length_of_read? hn
  obtain ⟨-, r', rest', href, hr⟩ := mem_refs hr
  obtain ⟨hstart, hrest⟩ := tableRef?_eq_some href
  rw [List.length_append]
  rcases hr with rfl | ⟨steps, hr⟩
  · omega
  · have := le_start_of_mem_listedRefs hr
    rcases hrest with rfl | ⟨i, hi⟩
    · omega
    · have := length_of_aliasAfter? hi
      omega

/-- What a reading before a barrier refers to starts before the barrier, and so does what the
reading leaves. -/
theorem ReachesTo.tableSource (size : Nat) {before after rest s : Text} {v : TableSource}
    (hs : s.head? = some ')') (h : ReachesTo s after)
    (hread : tableSource before after = some (v, rest)) :
    ReachesTo s rest ∧ (after.length ≤ size → ∀ r ∈ v.refs size, r.start + s.length < size) := by
  obtain ⟨-, word, hword, x, u, rfl, hx, ⟨t, ht, hn⟩, rfl, -⟩ := tableSource_eq_some hread
  have hkeyword : QueryGate.keyword? word (x ++ u) = some u := keyword?_append hx u
  have hlower : ∀ word ∈ sourceWords, ∀ c ∈ word.map foldLetter, c.isLower = true := by decide
  have hu := h.keyword? hs (hlower word hword) hkeyword
  obtain ⟨hrest, honward⟩ := (hu.spaced? hs ht).readQualified? hs
    (fun _ => isNamePart_of_isFoldedNameStart) hn
  refine ⟨hrest, fun hsize r hr => ?_⟩
  have ht := length_of_spaced? ht
  obtain ⟨hlt, hle⟩ := QualifiedName.length_of_read? hn
  rw [List.length_append] at hsize
  obtain ⟨-, r', rest', href, hr⟩ := mem_refs hr
  obtain ⟨hstart, hrest'⟩ := tableRef?_eq_some href
  rcases hr with rfl | ⟨steps, hr⟩
  · omega
  · refine (hrest.tableRef? hs href).start_lt_of_mem_listedRefs hs ?_ hr
    rcases hrest' with rfl | ⟨i, hi⟩
    · omega
    · have := length_of_aliasAfter? hi
      omega

/-! ## Parts that no reading leaves -/

/-- Whether `FROM` or `JOIN` begins at a place, with a blank or the end of the part behind it. -/
def opensSource (before after : Text) : Bool :=
  atWordStart before && sourceWords.any fun word =>
    match keyword? word after with
    | some r => r.isEmpty || r.head?.any isBlank
    | none => false

/-- Whether a closing parenthesis stands in a text outside quoted names. -/
def hasClosing (quoted : Bool) : Text → Bool
  | [] => false
  | c :: t =>
    if c == '"' then hasClosing (!quoted) t else (c == ')' && !quoted) || hasClosing quoted t

/-- Whether `DISTINCT` and blanks lead up to a place of a part. -/
def followsDistinct (before : Text) : Bool :=
  (spaced? before).any fun r =>
    (keyword? ("DISTINCT" : Text).reverse r).any fun rest => rest.head?.any (!isWordChar ·)

/-- Whether a place has the `FROM` of `IS DISTINCT FROM` and all of the operand behind it. -/
def opensOperand (before after : Text) : Bool :=
  followsDistinct before && (keyword? "FROM" after).any (!allBlank ·) &&
    after.count '"' % 2 == 0 && (trim after).getLast? != some '.'

/-- Reads `FROM` or `JOIN` where it may introduce a table: in no parentheses that are closed, and
not behind `DISTINCT`. -/
def openSource : Reading Unit := fun before after =>
  if opensSource before after && !hasClosing false after && !opensOperand before after then
    some ((), [])
  else none

/-- Whether a part of a text introduces no table but in parentheses. -/
def isClosed (p : Text) : Bool := !occurs openSource p

theorem exists_closing {quoted : Bool} {t : Text} (h : hasClosing quoted t = true) :
    ∃ u w, t = u ++ ')' :: w ∧ u.count '"' % 2 = if quoted then 1 else 0 := by
  induction t generalizing quoted with
  | nil => cases h
  | cons c t ih =>
    rw [hasClosing] at h
    split at h
    · rename_i hc
      obtain rfl := eq_of_beq hc
      obtain ⟨u, w, rfl, hu⟩ := ih h
      refine ⟨'"' :: u, w, rfl, ?_⟩
      rw [List.count_cons_self]
      cases quoted <;> simp at hu ⊢ <;> omega
    · rename_i hc
      have hne : c ≠ '"' := by simpa using hc
      rcases (Bool.or_eq_true ..).mp h with h | h
      · obtain ⟨hp, hq⟩ := (Bool.and_eq_true ..).mp h
        obtain rfl := eq_of_beq hp
        refine ⟨[], t, rfl, ?_⟩
        cases quoted
        · rfl
        · cases hq
      · obtain ⟨u, w, rfl, hu⟩ := ih h
        exact ⟨c :: u, w, rfl, by rwa [List.count_cons_of_ne hne]⟩

theorem spells_sourceWord_letters {word x : Text} (hword : word ∈ sourceWords)
    (hx : Spells word x) : ∀ c ∈ x, (foldLetter c).isLower = true := by
  have hlower : ∀ word ∈ sourceWords, ∀ c ∈ word.map foldLetter, c.isLower = true := by decide
  exact fun c hc => hlower word hword _ (hx.mem hc)

/-- A keyword that begins in a part of a text ends in it. -/
theorem Cut.exists_keyword {u s x r word : Text} (h : Cut u s) (hword : word ∈ sourceWords)
    (hx : Spells word x) (hu : u ≠ []) (heq : u ++ s = x ++ r) :
    ∃ v, u = x ++ v ∧ r = v ++ s := by
  have hpart : ∀ c ∈ x, isNamePart c = true := fun c hc =>
    isNamePart_of_isWordChar (isWordChar_of_isLower_foldLetter
      (spells_sourceWord_letters hword hx c hc))
  obtain ⟨z, rfl, rfl⟩ | ⟨z, rfl, rfl⟩ := List.append_eq_append_iff.1 heq
  · cases z with
    | nil => exact ⟨[], by simp, rfl⟩
    | cons c z =>
      rcases h with h | ⟨-, h⟩
      · rw [List.cons_append, List.head?_cons, Option.any_some, hpart c (by simp)] at h
        cases h
      · rw [List.getLast?_eq_some_getLast hu, Option.any_some,
          hpart _ (List.mem_append_left _ (List.getLast_mem hu))] at h
        cases h
  · exact ⟨z, rfl, rfl⟩

theorem introducesTable_of_followsDistinct {u before : Text} (h : followsDistinct u = true) :
    introducesTable (u ++ before) = false := by
  rw [followsDistinct, Option.any_eq_true] at h
  obtain ⟨r, hr, h⟩ := h
  obtain ⟨rest, hrest, hword⟩ := (Option.any_eq_true ..).1 h
  obtain ⟨g, hne, hg, hhead, rfl⟩ := spaced?_eq_some_iff.1 hr
  obtain ⟨w, rfl, hw⟩ := keyword?_eq_some_iff.1 hrest
  have hspaced : spaced? ((g ++ (w ++ rest)) ++ before) = some (w ++ (rest ++ before)) := by
    rw [List.append_assoc, List.append_assoc]
    refine spaced?_append hne hg ?_
    cases w with
    | nil => cases hw
    | cons c w => exact hhead
  have hstart : atWordStart (rest ++ before) = true := by
    cases rest with
    | nil => cases hword
    | cons c rest => exact hword
  have hfollows : followsWord ["DISTINCT"] ((g ++ (w ++ rest)) ++ before) = true := by
    rw [followsWord, hspaced, Option.any_some, endsWithWord, List.any_cons, keyword?_append hw]
    simp only [hstart, Bool.true_or]
  rw [introducesTable, hfollows]
  rfl

theorem capitals_of_spells_from {x : Text} (h : Spells "FROM" x) : capitals x = "FROM" := by
  have hcap : ∀ c ∈ x, capitalLetter c = capitalLetter (foldLetter c) := fun c hc => by
    have hmem : foldLetter c ∈ "from".toList := h.mem hc
    have hall : ∀ x ∈ "from".toList, x.toNat < 128 ∧ x ∉ ['s', 'k', 'i'] := by decide
    exact capitalLetter_of_foldLetter rfl (hall _ hmem).1 (hall _ hmem).2
  have hmap : capitals x = (x.map foldLetter).map capitalLetter := by
    rw [capitals, List.map_map]
    exact List.map_congr_left hcap
  rw [hmap, h]
  decide

section ClosedPart

variable {p a b before next rest : Text} {v : TableSource}

/-- Where a closed part is read from, a parenthesis closes behind the place, or `DISTINCT` stands in
front of it. -/
theorem closing_or_operand_of_isClosed (hp : isClosed p = true) (hab : p = a ++ b) (hb : b ≠ [])
    (hopen : opensSource a.reverse b = true) :
    hasClosing false b = true ∨ opensOperand a.reverse b = true := by
  have hnone := (occurs_eq_false_iff.1 (Bool.not_eq_true' _ ▸ hp)) a b hab hb
  by_contra hno
  rw [not_or, Bool.not_eq_true, Bool.not_eq_true] at hno
  rw [openSource, hopen, hno.1, hno.2] at hnone
  cases hnone

theorem opensSource_of_read {word x y t : Text} (hword : word ∈ sourceWords) (hx : Spells word x)
    (hstart : atWordStart (a.reverse ++ before) = true) (ht : spaced? (y ++ next) = some t) :
    opensSource a.reverse (x ++ y) = true := by
  have hstart' : atWordStart a.reverse = true := by
    cases ha : a.reverse with
    | nil => rfl
    | cons c z =>
      rw [ha] at hstart
      exact hstart
  have hbehind : (y.isEmpty || y.head?.any isBlank) = true := by
    cases y with
    | nil => rfl
    | cons c y =>
      rw [List.cons_append, spaced?] at ht
      split at ht
      · assumption
      · cases ht
  rw [opensSource, hstart', Bool.true_and, List.any_eq_true]
  refine ⟨word, hword, ?_⟩
  rw [keyword?_append hx]
  exact hbehind

/-- The operand of `IS DISTINCT FROM` is read in the part and introduces no table. -/
theorem read_operand (before : Text) {word x y t : Text} {n : QualifiedName}
    (hword : word ∈ sourceWords)
    (hx : Spells word x) (hopen : opensOperand a.reverse (x ++ y) = true) (hcut : Cut (x ++ y) next)
    (hdot : (skipBlanks next).head? ≠ some '.') (ht : spaced? (y ++ next) = some t)
    (hn : QualifiedName.read? isFoldedNameStart t = some n) :
    Spells "FROM" x ∧ introducesTable (a.reverse ++ before) = false ∧ ∃ r, n.rest = r ++ next := by
  simp only [opensOperand, Bool.and_eq_true, beq_iff_eq, bne_iff_ne] at hopen
  obtain ⟨⟨⟨hdistinct, hoperand⟩, heven⟩, hlast⟩ := hopen
  obtain ⟨r, hr, hblank⟩ := (Option.any_eq_true ..).1 hoperand
  rw [Bool.not_eq_true'] at hblank
  obtain ⟨w, hw, hfrom⟩ := keyword?_eq_some_iff.1 hr
  have hlen : x.length = w.length := by
    have hfour : ∀ word ∈ sourceWords, word.length = 4 := by decide
    rw [hx.length_eq, hfour word hword, hfrom.length_eq]
    rfl
  obtain ⟨rfl, rfl⟩ := List.append_inj hw hlen
  refine ⟨hfrom, introducesTable_of_followsDistinct hdistinct, ?_⟩
  rw [spaced?_eq_skipBlanks ht, skipBlanks_append_of_not_allBlank hblank] at hn
  have hne : skipBlanks y ≠ [] := fun hnil => by
    rw [skipBlanks_eq_nil_iff.1 hnil] at hblank
    cases hblank
  obtain ⟨g, hg, hyg⟩ := exists_blanks_append_skipBlanks y
  refine QualifiedName.read?_part (fun _ => isNamePart_of_isFoldedNameStart) hn hne ?_ ?_ hdot ?_
  · have hquotes : x.count '"' = 0 := List.count_eq_zero.2 fun hmem =>
      absurd (spells_sourceWord_letters hword hx _ hmem) (by decide)
    rwa [List.count_append, hquotes, Nat.zero_add, ← count_skipBlanks (by decide)] at heven
  · refine hcut.of_suffix ⟨x ++ g, ?_⟩ hne
    rw [List.append_assoc, ← hyg]
  · intro hdot
    obtain ⟨z, after, hz, hafter⟩ := (getLast?_trim_eq_some_iff (by decide)).1 hdot
    refine hlast ((getLast?_trim_eq_some_iff (by decide)).2 ⟨x ++ (g ++ z), after, ?_, hafter⟩)
    rw [hyg, hz]
    simp

/-- What is read in a closed part ends in the part and refers to tables in the part. -/
theorem read_of_isClosed (size : Nat) (hp : isClosed p = true) (hcut : Cut p next)
    (hdot : (skipBlanks next).head? ≠ some '.') (hab : p = a ++ b) (hb : b ≠ [])
    (h : tableSource (a.reverse ++ before) (b ++ next) = some (v, rest)) :
    (∃ r, rest = r ++ next) ∧
      ((b ++ next).length ≤ size → ∀ r ∈ v.refs size, r.start + next.length < size) := by
  obtain ⟨hstart, word, hword, x, u, heq, hx, ⟨t, ht, hn⟩, hrest, hkeyword, hi⟩ :=
    tableSource_eq_some h
  have hcutb : Cut b next := hcut.of_suffix ⟨a, hab.symm⟩ hb
  obtain ⟨y, rfl, rfl⟩ := hcutb.exists_keyword hword hx hb heq
  have hopen := opensSource_of_read hword hx hstart ht
  rcases closing_or_operand_of_isClosed hp hab hb hopen with hclosing | hoperand
  · obtain ⟨z, w, hz, heven⟩ := exists_closing hclosing
    have hreach : ReachesTo (')' :: (w ++ next)) (x ++ y ++ next) :=
      ⟨z, by rw [hz, List.append_assoc]; rfl, heven⟩
    obtain ⟨⟨r, hr, -⟩, hrefs⟩ := hreach.tableSource size rfl h
    refine ⟨⟨r ++ ')' :: w, by rw [hr, List.append_assoc]; rfl⟩, fun hsize k hk => ?_⟩
    have := hrefs hsize k hk
    simp only [List.length_cons, List.length_append] at this
    omega
  · obtain ⟨hfrom, hno, hr⟩ := read_operand before hword hx hoperand hcutb hdot ht hn
    refine ⟨hrest ▸ hr, fun _ k hk => ?_⟩
    have hyes := (mem_refs hk).1
    rw [hi, capitals_of_spells_from hfrom, hno] at hyes
    cases hyes

end ClosedPart

/-! ## The scan, part by part -/

/-- The references from a place in a text on. -/
def refsFrom (before t : Text) : List TableRef :=
  (hitsFrom tableSource before 0 t).flatMap fun h => h.value.refs (before.length + t.length)

/-- Behind a part of a text the text is as long as before. -/
theorem length_behind (before p next : Text) :
    (p.reverse ++ before).length + next.length = before.length + (p ++ next).length := by
  simp only [List.length_append, List.length_reverse]
  omega

theorem tableRefsIn_eq (masked : Text) : tableRefsIn masked = refsFrom [] masked := by
  rw [tableRefsIn, refsFrom, hits, List.length_nil, Nat.zero_add]

theorem le_start_of_mem_refsFrom {before t : Text} {r : TableRef} (h : r ∈ refsFrom before t) :
    before.length ≤ r.start := by
  obtain ⟨k, hk, hr⟩ := List.mem_flatMap.1 h
  obtain ⟨a, b, rest, rfl, -, hread⟩ := mem_hitsFrom hk
  have := le_start_of_mem_refs hread hr
  rw [List.length_append] at this
  omega

/-- Behind what a reading has read the scan goes on. -/
theorem refsFrom_of_read {before u next : Text} {v : TableSource} (hu : u ≠ [])
    (h : tableSource before (u ++ next) = some (v, next)) :
    refsFrom before (u ++ next) =
      v.refs (before.length + (u ++ next).length) ++ refsFrom (u.reverse ++ before) next := by
  rw [refsFrom, hitsFrom_of_read hu h, List.flatMap_cons, refsFrom, length_behind]

/-- A part of a text adds certain references to the scan, all of which start in it. -/
structure Scanned (before p next : Text) (refs : List TableRef) : Prop where
  eq : refsFrom before (p ++ next) = refs ++ refsFrom (p.reverse ++ before) next
  inside : ∀ r ∈ refs, before.length ≤ r.start ∧ r.start < before.length + p.length

namespace Scanned

variable {before p q next : Text} {rs ss : List TableRef}

theorem append (hp : Scanned before p (q ++ next) rs)
    (hq : Scanned (p.reverse ++ before) q next ss) : Scanned before (p ++ q) next (rs ++ ss) := by
  constructor
  · rw [List.append_assoc, hp.eq, hq.eq, List.append_assoc, List.reverse_append, List.append_assoc]
  · intro r hr
    rcases List.mem_append.1 hr with hr | hr
    · have := hp.inside r hr
      rw [List.length_append]
      omega
    · have := hq.inside r hr
      simp only [List.length_append, List.length_reverse] at this ⊢
      omega

theorem of_none (h : ∀ a b, p = a ++ b → b ≠ [] →
    tableSource (a.reverse ++ before) (b ++ next) = none) : Scanned before p next [] := by
  have hinside : ReadsInside tableSource before p next := fun a b v rest hab hb hread => by
    rw [h a b hab hb] at hread
    cases hread
  obtain ⟨hs, heq, hmem⟩ := hitsFrom_append_of_inside hinside
  have hnil : hs = [] := List.eq_nil_iff_forall_not_mem.2 fun k hk => by
    obtain ⟨a, b, rest, hab, hb, hread⟩ := hmem k hk
    rw [h a b hab hb] at hread
    cases hread
  refine ⟨?_, fun r hr => nomatch hr⟩
  rw [refsFrom, heq, hnil, refsFrom, length_behind]
  rfl

/-- A closed part adds references that start in it. -/
theorem of_isClosed (before : Text) (hp : isClosed p = true) (hcut : Cut p next)
    (hdot : (skipBlanks next).head? ≠ some '.') : ∃ rs, Scanned before p next rs := by
  have hinside : ReadsInside tableSource before p next := fun a b v rest hab hb h => by
    obtain ⟨⟨r, rfl⟩, -⟩ := read_of_isClosed 0 hp hcut hdot hab hb h
    have hlt := length_of_tableSource h
    simp only [List.length_append] at hlt
    exact ⟨r, rfl, by omega⟩
  obtain ⟨hs, heq, hmem⟩ := hitsFrom_append_of_inside hinside
  refine ⟨hs.flatMap fun k => k.value.refs (before.length + (p ++ next).length), ?_, ?_⟩
  · rw [refsFrom, heq, List.flatMap_append, refsFrom, length_behind]
  · intro r hr
    obtain ⟨k, hk, hr⟩ := List.mem_flatMap.1 hr
    obtain ⟨a, b, rest, hab, hb, h⟩ := hmem k hk
    have hlow := le_start_of_mem_refs h hr
    have hsize : (b ++ next).length ≤ before.length + (p ++ next).length := by
      rw [hab]
      simp only [List.length_append]
      omega
    have hhigh := (read_of_isClosed _ hp hcut hdot hab hb h).2 hsize r hr
    subst hab
    simp only [List.length_append] at hlow hhigh ⊢
    omega

end Scanned

end QueryGate
