import Hazkey.PacketReading
import Mathlib.Algebra.BigOperators.Group.List.Basic

/-! How the two runs are placed: on each side each stands as often as the other
up to one case, in each category and in the whole corpus. -/

namespace Hazkey.BlindReview

open ConversionQuality

/-! ## Counting by keys -/

section

variable {α κ : Type} [DecidableEq κ]

theorem sum_indicator {K : List κ} (hK : K.Nodup) {k : κ} (hk : k ∈ K) (n : Nat) :
    (K.map fun k' => if k = k' then n else 0).sum = n := by
  induction K with
  | nil => exact absurd hk List.not_mem_nil
  | cons k' K ih =>
    obtain ⟨hnew, hK⟩ := List.nodup_cons.mp hK
    by_cases hkk : k = k'
    · have hzero : ∀ m ∈ K.map fun k' => if k = k' then n else 0, m = 0 := by
        intro m hm
        obtain ⟨k'', hk'', rfl⟩ := List.mem_map.mp hm
        rw [if_neg]
        rintro rfl
        exact hnew (hkk ▸ hk'')
      rw [List.map_cons, List.sum_cons, if_pos hkk, List.sum_eq_zero hzero, Nat.add_zero]
    · rw [List.map_cons, List.sum_cons, if_neg hkk, Nat.zero_add,
        ih hK ((List.mem_cons.mp hk).resolve_left hkk)]

theorem countP_eq_sum {K : List κ} (hK : K.Nodup) (key : α → κ) {l : List α}
    (hl : ∀ x ∈ l, key x ∈ K) (p : α → Bool) :
    l.countP p = (K.map fun k => (l.filter fun x => key x = k).countP p).sum := by
  induction l with
  | nil => simp
  | cons x l ih =>
    have hx := hl x List.mem_cons_self
    have htail := ih fun y hy => hl y (List.mem_cons_of_mem _ hy)
    have hstep : ∀ k, ((x :: l).filter fun x => key x = k).countP p =
        (l.filter fun x => key x = k).countP p +
          if key x = k then (if p x then 1 else 0) else 0 := by
      intro k
      by_cases hk : key x = k
      · simp [hk, List.countP_cons]
      · simp [hk]
    rw [List.countP_cons, htail, List.map_congr_left fun k _ => hstep k, List.sum_map_add,
      sum_indicator hK hx]

theorem sum_map_ite (l : List α) (p : α → Bool) :
    (l.map fun x => if p x = true then 1 else 0).sum = l.countP p := by
  induction l with
  | nil => rfl
  | cons x l ih => rw [List.map_cons, List.sum_cons, List.countP_cons, ih, Nat.add_comm]

theorem countP_mem {l E : List κ} (hl : l.Nodup) (hE : E.Nodup) (hsub : ∀ k ∈ E, k ∈ l) :
    l.countP (fun k => decide (k ∈ E)) = E.length := by
  rw [List.countP_eq_length_filter]
  apply List.Perm.length_eq
  apply (List.perm_ext_iff_of_nodup (hl.filter _) hE).mpr
  intro k
  simp only [List.mem_filter, decide_eq_true_eq]
  exact ⟨fun h => h.2, fun h => ⟨hsub k h, h⟩⟩

end

/-! ## The categories -/

section

variable {d : Draw} {corpus : List Row}

def idsOf (corpus : List Row) (category : Text) : List Text :=
  (corpus.filter fun row => row.category = category).map (·.id)

theorem mem_idsByCategory {category : Text} {ids : List Text} :
    (category, ids) ∈ idsByCategory corpus ↔ ids ≠ [] ∧ idsOf corpus category = ids := by
  have hvalues : Grouping.values category (corpus.map fun row => (row.category, row.id)) =
      idsOf corpus category := by
    rw [Grouping.values, List.filter_map, List.map_map]
    rfl
  rw [idsByCategory, Grouping.mem_group, hvalues]

def categoryNames (corpus : List Row) : List Text := (idsByCategory corpus).map (·.1)

theorem nodup_categoryNames : (categoryNames corpus).Nodup := (Grouping.group_proper _).keys

theorem mem_categoryNames {row : Row} (h : row ∈ corpus) :
    row.category ∈ categoryNames corpus := by
  have hid : row.id ∈ idsOf corpus row.category :=
    List.mem_map_of_mem (List.mem_filter.mpr ⟨h, by simp⟩)
  have hmem := mem_idsByCategory.mpr ⟨List.ne_nil_of_mem hid, rfl⟩
  exact List.mem_map.mpr ⟨_, hmem, rfl⟩

variable (corpus) in
/-- A sum over the dictionary is one over its names. -/
theorem map_idsByCategory {α : Type} (f : Text → List Text → α) :
    (idsByCategory corpus).map (fun c => f c.1 c.2) =
      (categoryNames corpus).map fun category => f category (idsOf corpus category) := by
  rw [categoryNames, List.map_map]
  apply List.map_congr_left
  rintro ⟨category, ids⟩ h
  rw [Function.comp_apply, (mem_idsByCategory.mp h).2]

theorem nodup_idsOf (hids : (corpus.map (·.id)).Nodup) (category : Text) :
    (idsOf corpus category).Nodup := hids.sublist (List.filter_sublist.map _)

theorem byDigest_perm {α : Type} (f : α → Digest) (l : List α) : (byDigest f l).Perm l :=
  WeakOrders.sortedBy_perm _ l

variable (corpus) in
theorem sum_sizes :
    ((categoryNames corpus).map fun category => (idsOf corpus category).length).sum =
      corpus.length := by
  have hcount := countP_eq_sum nodup_categoryNames Row.category (l := corpus)
    (fun row h => mem_categoryNames h) fun _ => true
  rw [List.countP_true] at hcount
  rw [hcount]
  congr 1
  apply List.map_congr_left
  intro category _
  rw [idsOf, List.length_map]

theorem mem_oddCategories {category : Text} : category ∈ oddCategories d (idsByCategory corpus) ↔
    category ∈ categoryNames corpus ∧ (idsOf corpus category).length % 2 = 1 := by
  rw [oddCategories, (byDigest_perm _ _).mem_iff, List.mem_map]
  constructor
  · rintro ⟨⟨_, ids⟩, h, rfl⟩
    obtain ⟨hmem, hodd⟩ := List.mem_filter.mp h
    rw [(mem_idsByCategory.mp hmem).2]
    exact ⟨List.mem_map.mpr ⟨_, hmem, rfl⟩, by simpa using hodd⟩
  · rintro ⟨hname, hodd⟩
    obtain ⟨⟨_, ids⟩, hmem, rfl⟩ := List.mem_map.mp hname
    rw [(mem_idsByCategory.mp hmem).2] at hodd
    exact ⟨_, List.mem_filter.mpr ⟨hmem, by simpa using hodd⟩, rfl⟩

variable (d corpus) in
theorem nodup_oddCategories : (oddCategories d (idsByCategory corpus)).Nodup := by
  rw [oddCategories, (byDigest_perm _ _).nodup_iff]
  exact (Grouping.group_proper _).keys.sublist (List.filter_sublist.map _)

theorem length_oddCategories : (oddCategories d (idsByCategory corpus)).length =
    ((categoryNames corpus).map fun category => (idsOf corpus category).length % 2).sum := by
  have hcount := countP_mem nodup_categoryNames (nodup_oddCategories d corpus)
    fun category h => (mem_oddCategories.mp h).1
  rw [← hcount, ← sum_map_ite]
  congr 1
  apply List.map_congr_left
  intro category hname
  simp only [mem_oddCategories, hname, true_and, decide_eq_true_eq]
  by_cases hodd : (idsOf corpus category).length % 2 = 1
  · rw [if_pos hodd, hodd]
  · rw [if_neg hodd]
    omega

variable (d corpus) in
/-- Half of each category, and the odd ones, are the corpus. -/
theorem halves_and_odd : 2 * ((idsByCategory corpus).map fun c => c.2.length / 2).sum +
    (oddCategories d (idsByCategory corpus)).length = corpus.length := by
  have hhalves := map_idsByCategory corpus fun _ ids => ids.length / 2
  rw [hhalves, length_oddCategories, ← sum_sizes corpus, Nat.two_mul,
    ← List.sum_map_add, ← List.sum_map_add]
  congr 1
  apply List.map_congr_left
  intro category _
  omega

variable (d corpus) in
/-- The number of odd categories with one more placement lies between none and all of them. -/
theorem extrasNeeded_bounds : 0 ≤ extrasNeeded (targetFirstXCount d corpus.length)
      (idsByCategory corpus) ∧
    extrasNeeded (targetFirstXCount d corpus.length) (idsByCategory corpus) ≤
      (oddCategories d (idsByCategory corpus)).length := by
  have hsum := halves_and_odd d corpus
  rw [extrasNeeded, targetFirstXCount]
  by_cases hodd : corpus.length % 2 = 1 ∧ oddOwner d = true
  · rw [if_pos hodd]
    have := hodd.1
    omega
  · rw [if_neg hodd]
    omega

variable (d corpus) in
theorem extraCategories_eq : ∃ n, extraCategories d corpus =
      (oddCategories d (idsByCategory corpus)).take n ∧
    n ≤ (oddCategories d (idsByCategory corpus)).length ∧
    ((idsByCategory corpus).map fun c => c.2.length / 2).sum + n =
      targetFirstXCount d corpus.length := by
  obtain ⟨hlow, hhigh⟩ := extrasNeeded_bounds d corpus
  refine ⟨(extrasNeeded (targetFirstXCount d corpus.length) (idsByCategory corpus)).toNat,
    by rw [extraCategories, sliceTo, if_pos hlow], by omega, ?_⟩
  rw [extrasNeeded] at hlow ⊢
  omega

variable (d corpus) in
theorem nodup_extraCategories : (extraCategories d corpus).Nodup := by
  obtain ⟨n, hn, -, -⟩ := extraCategories_eq d corpus
  rw [hn]
  exact (nodup_oddCategories d corpus).sublist (List.take_sublist _ _)

theorem odd_of_extra {category : Text} (h : category ∈ extraCategories d corpus) :
    category ∈ categoryNames corpus ∧ (idsOf corpus category).length % 2 = 1 := by
  obtain ⟨n, hn, -, -⟩ := extraCategories_eq d corpus
  rw [hn] at h
  exact mem_oddCategories.mp (List.mem_of_mem_take h)

/-- How many cases of a category have the first run on side x. -/
def firstCount (d : Draw) (corpus : List Row) (category : Text) : Nat :=
  firstXCount d corpus (category, idsOf corpus category)

variable (d corpus) in
theorem firstCount_eq (category : Text) : firstCount d corpus category =
    (idsOf corpus category).length / 2 +
      if category ∈ extraCategories d corpus then 1 else 0 := rfl

variable (d corpus) in
theorem firstCount_le (category : Text) :
    firstCount d corpus category ≤ (idsOf corpus category).length := by
  rw [firstCount_eq]
  by_cases hextra : category ∈ extraCategories d corpus
  · have := (odd_of_extra hextra).2
    rw [if_pos hextra]
    omega
  · rw [if_neg hextra]
    omega

theorem sum_firstCount : ((categoryNames corpus).map (firstCount d corpus)).sum =
    targetFirstXCount d corpus.length := by
  obtain ⟨n, hn, hle, hsum⟩ := extraCategories_eq d corpus
  have hhalves := map_idsByCategory corpus fun _ ids => ids.length / 2
  have hextras := countP_mem nodup_categoryNames (nodup_extraCategories d corpus)
    fun category h => (odd_of_extra h).1
  have hlength : (extraCategories d corpus).length = n := by
    rw [hn, List.length_take]
    omega
  rw [← hsum, hhalves, ← hlength, ← hextras, ← sum_map_ite, ← List.sum_map_add]
  congr 1
  apply List.map_congr_left
  intro category _
  rw [firstCount_eq]
  simp

end

/-! ## The cases -/

section

variable {d : Draw} {corpus : List Row}

def placedIn (d : Draw) (corpus : List Row) (category : Text) : List Text :=
  (byDigest (fun id => d.digest "placement-v1".toList [category, id])
    (idsOf corpus category)).take (firstCount d corpus category)

theorem mem_firstOnX {id : Text} : id ∈ firstOnX d corpus ↔
    ∃ category ∈ categoryNames corpus, id ∈ placedIn d corpus category := by
  rw [firstOnX, List.mem_flatMap]
  constructor
  · rintro ⟨⟨category, ids⟩, hmem, hid⟩
    obtain ⟨-, rfl⟩ := mem_idsByCategory.mp hmem
    exact ⟨category, List.mem_map.mpr ⟨_, hmem, rfl⟩, hid⟩
  · rintro ⟨category, hname, hid⟩
    obtain ⟨⟨_, ids⟩, hmem, rfl⟩ := List.mem_map.mp hname
    obtain ⟨-, hids⟩ := mem_idsByCategory.mp hmem
    exact ⟨_, hmem, by rw [placedIn, hids] at hid; exact hids ▸ hid⟩

theorem mem_idsOf_of_placedIn {category id : Text} (h : id ∈ placedIn d corpus category) :
    id ∈ idsOf corpus category :=
  (byDigest_perm _ _).mem_iff.mp (List.mem_of_mem_take h)

theorem eq_of_id (hids : (corpus.map (·.id)).Nodup) {row row' : Row} (h : row ∈ corpus)
    (h' : row' ∈ corpus) (he : row.id = row'.id) : row = row' :=
  List.inj_on_of_nodup_map hids h h' he

theorem mem_firstOnX_iff (hids : (corpus.map (·.id)).Nodup) {row : Row} (h : row ∈ corpus) :
    row.id ∈ firstOnX d corpus ↔ row.id ∈ placedIn d corpus row.category := by
  rw [mem_firstOnX]
  constructor
  · rintro ⟨category, -, hid⟩
    obtain ⟨row', hrow', he⟩ := List.mem_map.mp (mem_idsOf_of_placedIn hid)
    obtain ⟨hmem, hcategory⟩ := List.mem_filter.mp hrow'
    obtain rfl := eq_of_id hids hmem h he
    rw [of_decide_eq_true hcategory]
    exact hid
  · intro hid
    exact ⟨row.category, mem_categoryNames h, hid⟩

/-- Of each category so many cases have the first run on side x. -/
theorem countP_category (hids : (corpus.map (·.id)).Nodup) (category : Text) :
    (corpus.filter fun row => row.category = category).countP
      (fun row => decide (row.id ∈ firstOnX d corpus)) = firstCount d corpus category := by
  have hplaced : ∀ row ∈ corpus.filter fun row => row.category = category,
      decide (row.id ∈ firstOnX d corpus) = decide (row.id ∈ placedIn d corpus category) := by
    intro row hrow
    obtain ⟨hmem, hcategory⟩ := List.mem_filter.mp hrow
    rw [decide_eq_decide, mem_firstOnX_iff hids hmem, of_decide_eq_true hcategory]
  have hnodup := nodup_idsOf hids category
  have hsorted : (byDigest (fun id => d.digest "placement-v1".toList [category, id])
      (idsOf corpus category)).Nodup := (byDigest_perm _ _).nodup_iff.mpr hnodup
  have hcount := countP_mem hnodup (hsorted.sublist (List.take_sublist _ _))
    (E := placedIn d corpus category) fun id h => mem_idsOf_of_placedIn h
  have hlength : (placedIn d corpus category).length = firstCount d corpus category := by
    have := firstCount_le d corpus category
    rw [placedIn, List.length_take, (byDigest_perm _ _).length_eq]
    omega
  rw [List.countP_congr fun row hrow => by rw [hplaced row hrow], ← hlength, ← hcount, idsOf,
    List.countP_map]
  exact List.countP_congr fun row _ => by simp

theorem countP_corpus (hids : (corpus.map (·.id)).Nodup) :
    corpus.countP (fun row => decide (row.id ∈ firstOnX d corpus)) =
      targetFirstXCount d corpus.length := by
  rw [countP_eq_sum nodup_categoryNames Row.category fun row h => mem_categoryNames h,
    ← sum_firstCount]
  congr 1
  apply List.map_congr_left
  intro category _
  exact countP_category hids category

end

/-! ## Both sides -/

section

open KeyedCoding

variable {d : Draw} {corpus : List Row} {first second : Run}

theorem rowOf_eq (hids : (corpus.map (·.id)).Nodup) {row : Row} (h : row ∈ corpus) :
    rowOf corpus row.id = row := by
  have hfound : (corpus.find? fun row' => row'.id = row.id).isSome := by
    rw [List.find?_isSome]
    exact ⟨row, h, by simp⟩
  obtain ⟨row', hrow'⟩ := Option.isSome_iff_exists.mp hfound
  have hid : row'.id = row.id := by simpa using List.find?_some hrow'
  rw [rowOf, hrow', Option.getD_some]
  exact eq_of_id hids (List.mem_of_find?_eq_some hrow') h hid

/-- The cases come out as they are placed, where no two handles are the same. -/
theorem blindCases_eq_ok {opaqueIds ids : List Text} {blinded : List Blinded} :
    blindCases d corpus first second opaqueIds ids = .ok blinded ↔
      ((∀ id ∈ ids, opaqueId d id ∉ opaqueIds) ∧ (ids.map (opaqueId d)).Nodup) ∧
        blinded = ids.map (placedCase d corpus first second) := by
  induction ids generalizing opaqueIds blinded with
  | nil => simp [blindCases, eq_comm]
  | cons id ids ih =>
    simp only [blindCases, bind_eq_ok, require_eq_ok, exists_unit, ih, pure_eq_ok,
      List.mem_cons, forall_eq_or_imp, not_or, List.map_cons, List.nodup_cons]
    constructor
    · rintro ⟨hnew, _, ⟨⟨hseen, hnodup⟩, rfl⟩, rfl⟩
      refine ⟨⟨⟨hnew, fun id' h => (hseen id' h).2⟩, ?_, hnodup⟩, rfl⟩
      intro hmem
      obtain ⟨id', hid', he⟩ := List.mem_map.mp hmem
      exact (hseen id' hid').1 he
    · rintro ⟨⟨⟨hnew, hseen⟩, hhandle, hnodup⟩, rfl⟩
      refine ⟨hnew, _, ⟨⟨fun id' h => ⟨?_, hseen id' h⟩, hnodup⟩, rfl⟩, rfl⟩
      intro he
      exact hhandle (List.mem_map.mpr ⟨id', h, he⟩)

def placedKey (d : Draw) (corpus : List Row) (first second : Run) (row : Row) : KeyCase :=
  (placedCase d corpus first second row.id).key

variable (d corpus first second) in
theorem placedKey_sides (row : Row) :
    (row.id ∈ firstOnX d corpus ∧ (placedKey d corpus first second row).xBackend = first.label ∧
      (placedKey d corpus first second row).yBackend = second.label) ∨
    (row.id ∉ firstOnX d corpus ∧ (placedKey d corpus first second row).xBackend = second.label ∧
      (placedKey d corpus first second row).yBackend = first.label) := by
  by_cases hfirst : row.id ∈ firstOnX d corpus
  · exact .inl ⟨hfirst, by simp [placedKey, placedCase, hfirst, blindedCase],
      by simp [placedKey, placedCase, hfirst, blindedCase]⟩
  · exact .inr ⟨hfirst, by simp [placedKey, placedCase, hfirst, blindedCase],
      by simp [placedKey, placedCase, hfirst, blindedCase]⟩

variable (d first second) in
theorem placedKey_row (hids : (corpus.map (·.id)).Nodup) {row : Row} (h : row ∈ corpus) :
    (placedKey d corpus first second row).case = opaqueId d row.id ∧
    (placedKey d corpus first second row).originalId = row.id ∧
    (placedKey d corpus first second row).reading = row.reading ∧
    (placedKey d corpus first second row).category = row.category ∧
    (placedKey d corpus first second row).expected = row.alternatives := by
  have hrow := rowOf_eq hids h
  by_cases hfirst : row.id ∈ firstOnX d corpus
  · simp [placedKey, placedCase, hfirst, blindedCase, hrow]
  · simp [placedKey, placedCase, hfirst, blindedCase, hrow]

variable (d first second) in
theorem keys_perm (ids : List Text) (h : ids.Perm (corpus.map (·.id))) :
    ((ids.map (placedCase d corpus first second)).map (·.key)).Perm
      (corpus.map (placedKey d corpus first second)) := by
  have hkeys : corpus.map (placedKey d corpus first second) =
      ((corpus.map (·.id)).map (placedCase d corpus first second)).map (·.key) := by
    rw [List.map_map, List.map_map]
    rfl
  rw [hkeys]
  exact (h.map _).map _

variable (d corpus) in
/-- So many of some rows have the first run on side x, and all others the second. -/
theorem countP_xBackend (hlabels : first.label ≠ second.label) (rows : List Row) :
    (rows.map (placedKey d corpus first second)).countP (fun c => c.xBackend = first.label) =
      rows.countP (fun row => decide (row.id ∈ firstOnX d corpus)) ∧
    (rows.map (placedKey d corpus first second)).countP (fun c => c.xBackend = second.label) +
      rows.countP (fun row => decide (row.id ∈ firstOnX d corpus)) = rows.length := by
  induction rows with
  | nil => simp
  | cons row rows ih =>
    simp only [List.map_cons, List.countP_cons, List.length_cons]
    rcases placedKey_sides d corpus first second row with
      ⟨hmem, hx, -⟩ | ⟨hmem, hx, -⟩
    · simp only [hx, hmem, hlabels, decide_true, decide_false, if_true, Bool.false_eq_true,
        if_false]
      omega
    · simp only [hx, hmem, hlabels.symm, decide_true, decide_false, if_true, Bool.false_eq_true,
        if_false]
      omega

variable (d corpus) in
theorem balanced_of_counts (hlabels : first.label ≠ second.label) (rows : List Row)
    (hhalf : rows.length ≤ 2 * rows.countP (fun row => decide (row.id ∈ firstOnX d corpus)) + 1)
    (hhalf' : 2 * rows.countP (fun row => decide (row.id ∈ firstOnX d corpus)) ≤
      rows.length + 1) {cases : List KeyCase}
    (hcases : cases.Perm (rows.map (placedKey d corpus first second))) :
    balanced [first.label, second.label] cases := by
  obtain ⟨hfirst, hsecond⟩ := countP_xBackend d corpus hlabels rows
  intro a ha b hb
  rw [hcases.countP_eq, hcases.countP_eq]
  simp only [List.mem_cons, List.not_mem_nil, or_false] at ha hb
  rcases ha with rfl | rfl <;> rcases hb with rfl | rfl <;> omega

variable (d first second) in
theorem filter_placedKey (hids : (corpus.map (·.id)).Nodup) (category : Text) :
    (corpus.map (placedKey d corpus first second)).filter (fun c => c.category = category) =
      (corpus.filter fun row => row.category = category).map
        (placedKey d corpus first second) := by
  rw [List.filter_map]
  congr 1
  apply List.filter_congr
  intro row hrow
  rw [Function.comp_apply, (placedKey_row d first second hids hrow).2.2.2.1]

theorem balanced_category (hlabels : first.label ≠ second.label)
    (hids : (corpus.map (·.id)).Nodup) (category : Text) {cases : List KeyCase}
    (hcases : cases.Perm (corpus.map (placedKey d corpus first second))) :
    balanced [first.label, second.label] (cases.filter fun c => c.category = category) := by
  have hfilter := filter_placedKey d first second hids category
  have hcount := countP_category (d := d) hids category
  have hcount' := firstCount_eq d corpus category
  have hlength : (corpus.filter fun row => row.category = category).length =
      (idsOf corpus category).length := by rw [idsOf, List.length_map]
  apply balanced_of_counts d corpus hlabels (corpus.filter fun row => row.category = category)
  · rw [hcount, hcount', hlength]
    omega
  · rw [hcount, hcount', hlength]
    by_cases hextra : category ∈ extraCategories d corpus
    · have := (odd_of_extra hextra).2
      rw [if_pos hextra]
      omega
    · rw [if_neg hextra]
      omega
  · rw [← hfilter]
    exact hcases.filter _

theorem balanced_corpus (hlabels : first.label ≠ second.label)
    (hids : (corpus.map (·.id)).Nodup) {cases : List KeyCase}
    (hcases : cases.Perm (corpus.map (placedKey d corpus first second))) :
    balanced [first.label, second.label] cases := by
  have hcount := countP_corpus (d := d) hids
  apply balanced_of_counts d corpus hlabels corpus _ _ hcases
  · rw [hcount, targetFirstXCount]
    omega
  · rw [hcount, targetFirstXCount]
    by_cases hodd : corpus.length % 2 = 1 ∧ oddOwner d = true
    · have := hodd.1
      rw [if_pos hodd]
      omega
    · rw [if_neg hodd]
      omega

theorem orderedIds_perm (ids : List Text) : (orderedIds d ids).Perm ids := byDigest_perm _ _

/-- Blind placement is balanced: whatever the digests are, as long as no two handles are the
same. -/
theorem placement_balanced (d : Draw) {corpus : List Row} {first second : Run}
    (hids : (corpus.map (·.id)).Nodup)
    (hlabels : first.label ≠ second.label)
    (hhandles : ((corpus.map (·.id)).map (opaqueId d)).Nodup) :
    ∃ blinded, blindCases d corpus first second [] (orderedIds d (corpus.map (·.id))) =
        .ok blinded ∧
      blinded.length = corpus.length ∧
      balanced [first.label, second.label] (blinded.map (·.key)) ∧
      (∀ category ∈ corpus.map (·.category), balanced [first.label, second.label]
        ((blinded.map (·.key)).filter fun c => c.category = category)) ∧
      (∀ c ∈ blinded.map (·.key), (c.xBackend = first.label ∧ c.yBackend = second.label) ∨
        (c.xBackend = second.label ∧ c.yBackend = first.label)) ∧
      0 ≤ extrasNeeded (targetFirstXCount d corpus.length) (idsByCategory corpus) ∧
      extrasNeeded (targetFirstXCount d corpus.length) (idsByCategory corpus) ≤
        (oddCategories d (idsByCategory corpus)).length ∧
      ((extraCategories d corpus).length : Int) =
        extrasNeeded (targetFirstXCount d corpus.length) (idsByCategory corpus) := by
  have hperm := orderedIds_perm (d := d) (corpus.map (·.id))
  have hkeys := keys_perm d first second _ hperm
  obtain ⟨hlow, hhigh⟩ := extrasNeeded_bounds d corpus
  obtain ⟨n, hextra, hn, hsum⟩ := extraCategories_eq d corpus
  refine ⟨_, blindCases_eq_ok.mpr ⟨⟨fun _ _ => List.not_mem_nil,
    (hperm.map _).nodup_iff.mpr hhandles⟩, rfl⟩, ?_, balanced_corpus hlabels hids hkeys,
    fun category _ => balanced_category hlabels hids category hkeys, ?_, hlow, hhigh, ?_⟩
  · rw [List.length_map, hperm.length_eq, List.length_map]
  · intro c hc
    obtain ⟨row, -, rfl⟩ := List.mem_map.mp (hkeys.mem_iff.mp hc)
    rcases placedKey_sides d corpus first second row with
      h | h
    · exact .inl h.2
    · exact .inr h.2
  · rw [hextra, List.length_take, extrasNeeded]
    omega

end

/-! A corpus of three cases, under digests that tell texts of different lengths apart. -/

def lengthHashes : Hashes where
  sha256 bytes := BitVec.ofNat 256 (bytes.length <<< 240)
  hmac _ message := BitVec.ofNat 256 (message.length <<< 240)

def sampleCorpus : List Row :=
  [⟨"a".toList, "き".toList, "木|気".toList, "noun".toList⟩,
   ⟨"bb".toList, "か".toList, "課".toList, "noun".toList⟩,
   ⟨"ccc".toList, "み".toList, "見".toList, "verb".toList⟩]

def sampleSha256 : Text := digestText (lengthHashes.sha256 [1])

def sampleDraw : Draw := ⟨lengthHashes, fromHex (List.replicate 64 '0'), sampleSha256⟩

def sampleResult (label kind id reading category : String) (candidates : List String) :
    ProbeResult where
  provenance := {
    schema := inputSchemaV3
    backend := "probe".toList
    backendVersion := "1".toList
    sourceRef := "main".toList
    converterBackend := label.toList
    warmups := 0
    iterations := 1
    topK := 2
    corpus := ⟨sampleSha256, 3⟩
    resource := ⟨kind.toList, "path".toList, "print".toList⟩ }
  id := id.toList
  reading := reading.toList
  category := category.toList
  candidates := candidates.map String.toList

def hazkeyResults : List ProbeResult :=
  [sampleResult "hazkey" "hazkey_dictionary" "a" "き" "noun" ["木"],
   sampleResult "hazkey" "hazkey_dictionary" "bb" "か" "noun" ["可", "課"],
   sampleResult "hazkey" "hazkey_dictionary" "ccc" "み" "verb" []]

def mozcResults : List ProbeResult :=
  [sampleResult "mozc" "mozc_runtime_inputs" "a" "き" "noun" ["気", "木"],
   sampleResult "mozc" "mozc_runtime_inputs" "bb" "か" "noun" ["課"],
   sampleResult "mozc" "mozc_runtime_inputs" "ccc" "み" "verb" ["見"]]

def runOf (results : List ProbeResult) : Run where
  provenance := ((results.map (·.provenance)).head?).getD
    (sampleResult "hazkey" "hazkey_dictionary" "" "" "" []).provenance
  cases := results.map fun result => (result.id, result)

theorem sample_balanced : ∃ blinded,
    blindCases sampleDraw sampleCorpus (runOf mozcResults) (runOf hazkeyResults) []
      (orderedIds sampleDraw (sampleCorpus.map (·.id))) = .ok blinded ∧
    balanced [mozc, hazkey] (blinded.map (·.key)) := by
  obtain ⟨blinded, hblinded, -, hbalanced, -⟩ :=
    @placement_balanced sampleDraw sampleCorpus (runOf mozcResults) (runOf hazkeyResults)
      (by decide) (by decide) (by decide +kernel)
  exact ⟨blinded, hblinded, hbalanced⟩

end Hazkey.BlindReview
