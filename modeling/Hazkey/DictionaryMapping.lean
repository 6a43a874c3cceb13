import Hazkey.ProjectDictionary

/-! What the mapping of a project's entries depends on: their order does not matter, unless two
spellings of one ruby stand around another ruby. -/

namespace Hazkey

/-- Precomposition leaves nothing to compose. -/
class NormalRuby extends RubyText where
  precomposed_precomposed : ∀ t, precomposed (precomposed t) = precomposed t

open BestPerKey WeakOrders

namespace GrimodexDictionaryMapper

theorem lexicographicallyPrecedes_self (l : Data) : lexicographicallyPrecedes l l = false := by
  induction l with
  | nil => rfl
  | cons x l ih => simp [lexicographicallyPrecedes, ih]

theorem lexicographicallyPrecedes_trans {l m n : Data} (h : lexicographicallyPrecedes l m = true)
    (h' : lexicographicallyPrecedes m n = true) : lexicographicallyPrecedes l n = true := by
  induction l generalizing m n with
  | nil =>
    cases n with
    | nil => cases m <;> exact absurd h' Bool.false_ne_true
    | cons z n => rfl
  | cons x l ih =>
    cases m with
    | nil => exact absurd h Bool.false_ne_true
    | cons y m =>
      cases n with
      | nil => exact absurd h' Bool.false_ne_true
      | cons z n =>
        simp only [lexicographicallyPrecedes, Bool.or_eq_true, Bool.and_eq_true,
          decide_eq_true_eq] at h h' ⊢
        rcases h with h | ⟨h, hl⟩
        · omega
        · rcases h' with h' | ⟨h', hm⟩
          · omega
          · exact Or.inr ⟨h.trans h', ih hl hm⟩

theorem lexicographicallyPrecedes_total {l m : Data} (h : l ≠ m) :
    lexicographicallyPrecedes l m = true ∨ lexicographicallyPrecedes m l = true := by
  induction l generalizing m with
  | nil =>
    cases m with
    | nil => exact absurd rfl h
    | cons y m => exact Or.inl rfl
  | cons x l ih =>
    cases m with
    | nil => exact Or.inr rfl
    | cons y m =>
      simp only [lexicographicallyPrecedes, Bool.or_eq_true, Bool.and_eq_true, decide_eq_true_eq]
      by_cases hxy : x.toNat = y.toNat
      · have hlm : l ≠ m := by
          rintro rfl
          exact h (by rw [UInt8.toNat_inj.mp hxy])
        exact (ih hlm).imp (fun h => Or.inr ⟨hxy, h⟩) (fun h => Or.inr ⟨hxy.symm, h⟩)
      · omega

theorem utf8Less_self (t : Text) : utf8Less t t = false := lexicographicallyPrecedes_self _

theorem utf8Less_trans {t u v : Text} (h : utf8Less t u = true) (h' : utf8Less u v = true) :
    utf8Less t v = true := lexicographicallyPrecedes_trans h h'

theorem utf8Less_total {t u : Text} (h : t ≠ u) : utf8Less t u = true ∨ utf8Less u t = true :=
  lexicographicallyPrecedes_total fun he => h (utf8_injective he)

theorem utf8Less_asymm {t u : Text} (h : utf8Less t u = true) : utf8Less u t = false := by
  by_contra h'
  have := utf8Less_trans h (Bool.of_not_eq_false h')
  rw [utf8Less_self] at this
  exact Bool.false_ne_true this

theorem eq_of_not_utf8Less {t u : Text} (h : utf8Less t u = false) (h' : utf8Less u t = false) :
    t = u := by
  by_contra hne
  rcases utf8Less_total hne with hlt | hlt
  · exact Bool.false_ne_true (h.symm.trans hlt)
  · exact Bool.false_ne_true (h'.symm.trans hlt)

theorem replaces_iff {x y : Candidate} : replaces x y = true ↔
    y.priority < x.priority ∨
      y.priority = x.priority ∧ utf8Less x.mapped.entryID y.mapped.entryID = true := by
  simp only [replaces, Bool.not_eq_true', Bool.or_eq_false_iff, decide_eq_false_iff_not,
    Bool.and_eq_false_iff, Bool.not_eq_false']
  constructor
  · rintro ⟨hle, hne | hless⟩
    · omega
    · by_cases he : y.priority = x.priority
      · exact Or.inr ⟨he, hless⟩
      · omega
  · rintro (hlt | ⟨he, hless⟩)
    · exact ⟨by omega, Or.inl (by omega)⟩
    · exact ⟨by omega, Or.inr hless⟩

theorem replaces_self (x : Candidate) : replaces x x = false := by
  by_contra h
  rcases replaces_iff.mp (Bool.of_not_eq_false h) with hlt | ⟨-, hless⟩
  · omega
  · rw [utf8Less_self] at hless
    exact Bool.false_ne_true hless

theorem replaces_trans (x y z : Candidate) (h : replaces x y = true) (h' : replaces y z = true) :
    replaces x z = true := by
  rw [replaces_iff] at h h' ⊢
  rcases h with h | ⟨h, hless⟩
  · rcases h' with h' | ⟨h', -⟩
    · omega
    · omega
  · rcases h' with h' | ⟨h', hless'⟩
    · omega
    · exact Or.inr ⟨h'.trans h, utf8Less_trans hless hless'⟩

/-- A process that takes the values as they were put in. -/
def inOrder : Process where
  values l := l
  sorted := sortedBy
  values_perm l := List.Perm.refl l
  sorted_perm := sortedBy_perm
  sorted_ordered _ _ := sortedBy_ordered

/-- Words that are composed are compared by their bytes alone. -/
def byWord : Candidate → Candidate → Bool :=
  thenBy (fun x y => utf8Less x.mapped.word y.mapped.word)
    (thenBy (fun x y => decide (x.mapped.cid < y.mapped.cid))
      fun x y => utf8Less x.mapped.entryID y.mapped.entryID)

theorem weak_utf8Less (p : Candidate → Prop) (f : Candidate → Text) :
    Weak p fun x y => utf8Less (f x) (f y) where
  asymm _ _ _ _ := utf8Less_asymm
  notBehind x y z _ _ _ hyx hzy := by
    by_contra hzx
    have hzx := Bool.of_not_eq_false hzx
    by_cases hxy : f x = f y
    · rw [← hxy, hzx] at hzy
      exact Bool.false_ne_true hzy.symm
    · rcases utf8Less_total hxy with hlt | hlt
      · rw [utf8Less_trans hzx hlt] at hzy
        exact Bool.false_ne_true hzy.symm
      · exact Bool.false_ne_true (hyx.symm.trans hlt)

theorem weak_byWord (p : Candidate → Prop) : Weak p byWord :=
  (weak_utf8Less p _).thenBy ((weak_of_rank p _).thenBy (weak_utf8Less p _))

theorem eq_of_byWord_tie {x y : Candidate} (h : byWord x y = false) (h' : byWord y x = false) :
    x.mapped.word = y.mapped.word ∧ x.mapped.cid = y.mapped.cid := by
  obtain ⟨hword, hrest⟩ := thenBy_eq_false.mp h
  obtain ⟨hword', hrest'⟩ := thenBy_eq_false.mp h'
  have hcid := (thenBy_eq_false.mp (hrest hword')).1
  have hcid' := (thenBy_eq_false.mp (hrest' hword)).1
  rw [decide_eq_false_iff_not] at hcid hcid'
  exact ⟨eq_of_not_utf8Less hword hword', by omega⟩

section

variable [RubyText]

theorem ne_of_sameKey_eq_false {t u : Text} (h : sameKey t u = false) : t ≠ u := by
  rintro rfl
  rw [sameKey_iff.mpr rfl] at h
  exact Bool.false_ne_true h.symm

/-- The order by its first difference. -/
theorem precedes_of_priority {x y : Candidate} (h : x.priority ≠ y.priority) :
    precedes x y = decide (x.priority > y.priority) := if_pos h

theorem precedes_of_ruby {x y : Candidate} (h : x.priority = y.priority)
    (hruby : sameKey x.mapped.ruby y.mapped.ruby = false) :
    precedes x y = utf8Less x.mapped.ruby y.mapped.ruby := by
  unfold precedes
  rw [if_neg (not_not.mpr h), if_pos hruby]

theorem precedes_of_same {x y : Candidate} (hx : CanonicalText.precomposed x.mapped.word =
      x.mapped.word) (hy : CanonicalText.precomposed y.mapped.word = y.mapped.word)
    (h : x.priority = y.priority) (hruby : sameKey x.mapped.ruby y.mapped.ruby = true) :
    precedes x y = byWord x y := by
  unfold precedes byWord thenBy
  rw [if_neg (not_not.mpr h), if_neg (by simp [hruby])]
  cases hword : sameKey x.mapped.word y.mapped.word with
  | false =>
    rcases utf8Less_total (ne_of_sameKey_eq_false hword) with hlt | hlt
    · simp [hlt]
    · simp [hlt, utf8Less_asymm hlt]
  | true =>
    have he : x.mapped.word = y.mapped.word := by
      rw [← hx, ← hy]
      exact sameKey_iff.mp hword
    by_cases hcid : x.mapped.cid = y.mapped.cid
    · simp [he, hcid, utf8Less_self]
    · by_cases hlt : x.mapped.cid < y.mapped.cid
      · simp [he, hcid, hlt, utf8Less_self]
      · have hlt' : y.mapped.cid < x.mapped.cid := by omega
        simp [he, hcid, hlt, hlt', utf8Less_self]

/-- Nothing of its key is better than it. -/
def Top (l : List Candidate) (x : Candidate) : Prop :=
  x ∈ l ∧ ∀ y ∈ l, key y = key x → replaces y x = false

/-- Two spellings of one ruby are around another ruby, and what is compared after the rubies
does not put them in the order of their bytes. -/
def Straddled (l : List Candidate) : Prop :=
  ∃ a b c, Top l a ∧ Top l b ∧ Top l c ∧ a.priority = c.priority ∧ b.priority = c.priority ∧
    sameKey a.mapped.ruby b.mapped.ruby = true ∧ sameKey a.mapped.ruby c.mapped.ruby = false ∧
    utf8Less a.mapped.ruby c.mapped.ruby = true ∧ utf8Less c.mapped.ruby b.mapped.ruby = true ∧
    precedes a b = false

def Composed (l : List Candidate) : Prop :=
  ∀ x ∈ l, CanonicalText.precomposed x.mapped.word = x.mapped.word

variable {l : List Candidate} {x y z : Candidate}

theorem priority_le (h : precedes y x = false) : y.priority ≤ x.priority := by
  by_contra hlt
  have hne : y.priority ≠ x.priority := by omega
  rw [precedes_of_priority hne, decide_eq_false_iff_not] at h
  omega

theorem precedes_asymm (hl : Composed l) (hx : x ∈ l) (hy : y ∈ l) (h : precedes x y = true) :
    precedes y x = false := by
  by_cases hp : x.priority = y.priority
  · cases hruby : sameKey x.mapped.ruby y.mapped.ruby with
    | false =>
      rw [precedes_of_ruby hp hruby] at h
      rw [precedes_of_ruby hp.symm ((sameKey_comm _ _).trans hruby)]
      exact utf8Less_asymm h
    | true =>
      rw [precedes_of_same (hl x hx) (hl y hy) hp hruby] at h
      rw [precedes_of_same (hl y hy) (hl x hx) hp.symm ((sameKey_comm _ _).trans hruby)]
      exact (weak_byWord (· ∈ l)).asymm x y hx hy h
  · rw [precedes_of_priority hp, decide_eq_true_eq] at h
    rw [precedes_of_priority (Ne.symm hp)]
    exact decide_eq_false (by omega)

/-- What neither precedes is of one key. -/
theorem key_eq_of_tie (hl : Composed l) (hx : x ∈ l) (hy : y ∈ l) (h : precedes x y = false)
    (h' : precedes y x = false) : key x = key y := by
  have hp : x.priority = y.priority := Int.le_antisymm (priority_le h) (priority_le h')
  cases hruby : sameKey x.mapped.ruby y.mapped.ruby with
  | false =>
    rw [precedes_of_ruby hp hruby] at h
    rw [precedes_of_ruby hp.symm ((sameKey_comm _ _).trans hruby)] at h'
    exact absurd (eq_of_not_utf8Less h h') (ne_of_sameKey_eq_false hruby)
  | true =>
    rw [precedes_of_same (hl x hx) (hl y hy) hp hruby] at h
    rw [precedes_of_same (hl y hy) (hl x hx) hp.symm ((sameKey_comm _ _).trans hruby)] at h'
    obtain ⟨hword, hcid⟩ := eq_of_byWord_tie h h'
    unfold key
    rw [sameKey_iff.mp hruby, hword, hcid]

/-- Of the best of one key neither precedes the other. -/
theorem precedes_of_key_eq (hx : Top l x) (hy : Top l y) (h : key x = key y) :
    x.priority = y.priority ∧ x.mapped.entryID = y.mapped.entryID ∧ precedes x y = false := by
  have hnot := mt replaces_iff.mpr (Bool.eq_false_iff.mp (hx.2 y hy.1 h.symm))
  have hnot' := mt replaces_iff.mpr (Bool.eq_false_iff.mp (hy.2 x hx.1 h))
  have hp : x.priority = y.priority := by omega
  have hid : x.mapped.entryID = y.mapped.entryID := by
    apply eq_of_not_utf8Less
    · exact Bool.eq_false_iff.mpr fun hlt => hnot' (Or.inr ⟨hp.symm, hlt⟩)
    · exact Bool.eq_false_iff.mpr fun hlt => hnot (Or.inr ⟨hp, hlt⟩)
  obtain ⟨hruby, hword, hcid⟩ := Key.mk.inj h
  refine ⟨hp, hid, ?_⟩
  unfold precedes
  rw [if_neg (not_not.mpr hp), if_neg (by simp [sameKey, hruby]),
    if_neg (by simp [sameKey, hword]), if_neg (not_not.mpr hcid), hid]
  exact utf8Less_self _

/-- Five cases of which rubies are the same; in those with two spellings of one, the third
would be between them. -/
theorem notBehind_of_not_straddled (hl : Composed l) (hs : ¬Straddled l) (hx : Top l x)
    (hy : Top l y) (hz : Top l z) (hyx : precedes y x = false) (hzy : precedes z y = false) :
    precedes z x = false := by
  have hle := priority_le hyx
  have hle' := priority_le hzy
  by_cases hp : z.priority = x.priority
  · have hxy : x.priority = y.priority := by omega
    have hyz : y.priority = z.priority := by omega
    cases sxy : sameKey x.mapped.ruby y.mapped.ruby with
    | false =>
      have syx := (sameKey_comm y.mapped.ruby x.mapped.ruby).trans sxy
      rw [precedes_of_ruby hxy.symm syx] at hyx
      have bxy := (utf8Less_total (ne_of_sameKey_eq_false sxy)).resolve_right
        (Bool.eq_false_iff.mp hyx)
      cases syz : sameKey y.mapped.ruby z.mapped.ruby with
      | false =>
        have szy := (sameKey_comm z.mapped.ruby y.mapped.ruby).trans syz
        rw [precedes_of_ruby hyz.symm szy] at hzy
        have byz := (utf8Less_total (ne_of_sameKey_eq_false syz)).resolve_right
          (Bool.eq_false_iff.mp hzy)
        cases sxz : sameKey x.mapped.ruby z.mapped.ruby with
        | false =>
          rw [precedes_of_ruby hp ((sameKey_comm _ _).trans sxz)]
          exact utf8Less_asymm (utf8Less_trans bxy byz)
        | true =>
          by_contra hzx
          have hxz := precedes_asymm hl hz.1 hx.1 (Bool.of_not_eq_false hzx)
          exact hs ⟨x, z, y, hx, hz, hy, hxy, hyz.symm, sxz, sxy, bxy, byz, hxz⟩
      | true =>
        have szy := (sameKey_comm z.mapped.ruby y.mapped.ruby).trans syz
        have szx : sameKey z.mapped.ruby x.mapped.ruby = false := by
          rw [← syx]
          simp [sameKey, sameKey_iff.mp syz]
        rw [precedes_of_ruby hp szx]
        by_contra bzx
        exact hs ⟨z, y, x, hz, hy, hx, hp, hxy.symm, szy, szx, Bool.of_not_eq_false bzx, bxy,
          hzy⟩
    | true =>
      have syx := (sameKey_comm y.mapped.ruby x.mapped.ruby).trans sxy
      cases syz : sameKey y.mapped.ruby z.mapped.ruby with
      | false =>
        have szy := (sameKey_comm z.mapped.ruby y.mapped.ruby).trans syz
        rw [precedes_of_ruby hyz.symm szy] at hzy
        have byz := (utf8Less_total (ne_of_sameKey_eq_false syz)).resolve_right
          (Bool.eq_false_iff.mp hzy)
        have szx : sameKey z.mapped.ruby x.mapped.ruby = false := by
          rw [← szy]
          simp [sameKey, sameKey_iff.mp sxy]
        rw [precedes_of_ruby hp szx]
        by_contra bzx
        exact hs ⟨y, x, z, hy, hx, hz, hyz, hp.symm, syx, syz, byz, Bool.of_not_eq_false bzx,
          hyx⟩
      | true =>
        have szy := (sameKey_comm z.mapped.ruby y.mapped.ruby).trans syz
        have cx := hl x hx.1
        have cy := hl y hy.1
        have cz := hl z hz.1
        rw [precedes_of_same cy cx hxy.symm syx] at hyx
        rw [precedes_of_same cz cy hyz.symm szy] at hzy
        rw [precedes_of_same cz cx hp (sameKey_trans szy syx)]
        exact (weak_byWord (· ∈ l)).notBehind x y z hx.1 hy.1 hz.1 hyx hzy
  · rw [precedes_of_priority hp]
    exact decide_eq_false (by omega)

theorem weak_precedes (hl : Composed l) (hs : ¬Straddled l) : Weak (Top l) precedes where
  asymm _ _ hx hy := precedes_asymm hl hx.1 hy.1
  notBehind _ _ _ hx hy hz := notBehind_of_not_straddled hl hs hx hy hz

/-- Entries of the result as those of the snapshot are compared. -/
def ofMapped (entry : GrimodexMappedDictionaryEntry) : Candidate where
  mapped := entry
  priority := entry.priority

structure MappedFrom (entries : List GrimodexWireEntry)
    (result : List GrimodexMappedDictionaryEntry) : Prop where
  distinct : (result.map fun m => key (ofMapped m)).Nodup
  best : ∀ m ∈ result, ∃ entry ∈ entries, (candidate entry).mapped = m ∧
    ∀ other ∈ entries, key (candidate other) = key (candidate entry) →
      other.priority < entry.priority ∨
        other.priority = entry.priority ∧ utf8Less other.entryID entry.entryID = false
  covers : ∀ entry ∈ entries, ∃ m ∈ result, key (ofMapped m) = key (candidate entry)
  sorted : Ordered precedes (result.map ofMapped)

/-- In every order of the entries, and in every process, the result is the same. -/
def Canonical (entries : List GrimodexWireEntry) : Prop :=
  ∀ (process : Process) (shuffled : List GrimodexWireEntry), shuffled.Perm entries →
    MappedFrom entries (map process shuffled) ∧
      ∀ other : Process, (map other entries).map (·.spelled) = (map process shuffled).map (·.spelled)

end

/-- Two members of a list can be put in front of the others. -/
theorem exists_perm_cons_cons {l : List GrimodexWireEntry} {a b : GrimodexWireEntry}
    (ha : a ∈ l) (hb : b ∈ l) (hab : a ≠ b) : ∃ rest, (a :: b :: rest).Perm l := by
  have hb' : b ∈ l.erase a := (List.mem_erase_of_ne (Ne.symm hab)).mpr hb
  refine ⟨(l.erase a).erase b, ?_⟩
  exact ((List.perm_cons_erase hb').symm.cons a).trans (List.perm_cons_erase ha).symm

theorem exists_perm_cons_cons_cons {l : List GrimodexWireEntry} {a b c : GrimodexWireEntry}
    (ha : a ∈ l) (hb : b ∈ l) (hc : c ∈ l) (hab : a ≠ b) (hac : a ≠ c) (hbc : b ≠ c) :
    ∃ rest, (a :: b :: c :: rest).Perm l := by
  have hb' : b ∈ l.erase a := (List.mem_erase_of_ne (Ne.symm hab)).mpr hb
  have hc' : c ∈ l.erase a := (List.mem_erase_of_ne (Ne.symm hac)).mpr hc
  obtain ⟨rest, hrest⟩ := exists_perm_cons_cons hb' hc' hbc
  exact ⟨rest, (hrest.cons a).trans (List.perm_cons_erase ha).symm⟩

section

variable [NormalRuby] {entries shuffled : List GrimodexWireEntry} {x y : Candidate}

theorem composed_candidates : Composed (entries.map candidate) := by
  intro x hx
  obtain ⟨entry, -, rfl⟩ := List.mem_map.mp hx
  exact NormalRuby.precomposed_precomposed entry.surface

theorem unique_chosen (entries : List GrimodexWireEntry) :
    BestPerKey.Chosen key replaces (entries.map candidate) (unique entries) :=
  best_chosen replaces_self replaces_trans _

theorem top_unique (hx : x ∈ unique entries) : Top (entries.map candidate) x :=
  ⟨(unique_chosen entries).mem x hx, (unique_chosen entries).top x hx⟩

theorem top_perm (h : shuffled.Perm entries) :
    Top (shuffled.map candidate) x ↔ Top (entries.map candidate) x := by
  have hmem : ∀ y, y ∈ shuffled.map candidate ↔ y ∈ entries.map candidate := fun y =>
    (h.map candidate).mem_iff
  simp only [Top, hmem]

/-- The values of the hash map, in the order of the result. -/
def ranked (process : Process) (entries : List GrimodexWireEntry) : List Candidate :=
  process.sorted precedes (process.values (unique entries))

theorem ranked_perm (process : Process) (entries : List GrimodexWireEntry) : (ranked process entries).Perm (unique entries) :=
  (process.sorted_perm _ _).trans (process.values_perm _)

theorem mem_ranked {process : Process} : x ∈ ranked process entries ↔ x ∈ unique entries :=
  (ranked_perm process entries).mem_iff

theorem ofMapped_mapped (hx : x ∈ entries.map candidate) : ofMapped x.mapped = x := by
  obtain ⟨entry, -, rfl⟩ := List.mem_map.mp hx
  rfl

theorem map_ofMapped (process : Process) :
    (map process entries).map ofMapped = ranked process entries := by
  show ((ranked process entries).map (·.mapped)).map ofMapped = ranked process entries
  rw [List.map_map]
  have hid : ∀ x ∈ ranked process entries, (ofMapped ∘ (·.mapped)) x = id x := fun x hx =>
    ofMapped_mapped (top_unique (mem_ranked.mp hx)).1
  rw [List.map_congr_left hid, List.map_id]

theorem ordered_ranked (process : Process) (hs : ¬Straddled (entries.map candidate))
    (h : shuffled.Perm entries) : Ordered precedes (ranked process shuffled) := by
  apply process.sorted_ordered
  apply Weak.strictWeak
  apply (weak_precedes composed_candidates hs).mono
  intro x hx
  exact (top_perm h).mp (top_unique ((process.values_perm _).mem_iff.mp hx))

theorem mappedFrom_of_ordered {process : Process} (h : shuffled.Perm entries)
    (hsorted : Ordered precedes (ranked process shuffled)) :
    MappedFrom entries (map process shuffled) where
  distinct := by
    have hmap : (map process shuffled).map (fun m => key (ofMapped m)) =
        (ranked process shuffled).map key := by
      rw [← map_ofMapped, List.map_map]
      rfl
    rw [hmap]
    exact ((ranked_perm process shuffled).map key).nodup_iff.mpr (unique_chosen shuffled).keys
  best m hm := by
    obtain ⟨x, hx, rfl⟩ := List.mem_map.mp hm
    have htop := (top_perm h).mp (top_unique (mem_ranked.mp hx))
    obtain ⟨entry, hentry, rfl⟩ := List.mem_map.mp htop.1
    refine ⟨entry, hentry, rfl, fun other hother hkey => ?_⟩
    have hnot := htop.2 (candidate other) (List.mem_map_of_mem hother) hkey
    have hnot := mt replaces_iff.mpr (Bool.eq_false_iff.mp hnot)
    change ¬(entry.priority < other.priority ∨ entry.priority = other.priority ∧
      utf8Less other.entryID entry.entryID = true) at hnot
    by_cases hp : other.priority = entry.priority
    · exact Or.inr ⟨hp, Bool.eq_false_iff.mpr fun hless => hnot (Or.inr ⟨hp.symm, hless⟩)⟩
    · exact Or.inl (by omega)
  covers entry hentry := by
    have hmem : candidate entry ∈ shuffled.map candidate :=
      List.mem_map_of_mem (h.mem_iff.mpr hentry)
    obtain ⟨x, hx, hkey⟩ := (unique_chosen shuffled).covers _ hmem
    refine ⟨x.mapped, List.mem_map_of_mem (mem_ranked.mpr hx), ?_⟩
    rw [ofMapped_mapped (top_unique hx).1]
    exact hkey
  sorted := by
    rw [map_ofMapped]
    exact hsorted

/-- The best entries of one key differ in their spelling only. -/
theorem spelled_eq_of_key_eq (hx : Top (entries.map candidate) x)
    (hy : Top (entries.map candidate) y) (h : key x = key y) :
    x.mapped.spelled = y.mapped.spelled := by
  obtain ⟨hp, hid, -⟩ := precedes_of_key_eq hx hy h
  obtain ⟨entry, -, rfl⟩ := List.mem_map.mp hx.1
  obtain ⟨other, -, rfl⟩ := List.mem_map.mp hy.1
  obtain ⟨hruby, hword, hcid⟩ := Key.mk.inj h
  have hcategory : entry.category = other.category := by
    change cid entry.category = cid other.category at hcid
    revert hcid
    cases entry.category <;> cases other.category <;> decide
  change entry.priority = other.priority at hp
  change entry.entryID = other.entryID at hid
  simp only [GrimodexMappedDictionaryEntry.spelled, hruby, hword]
  simp only [candidate, hcategory, hp, hid]

theorem key_eq_of_spelled_eq (h : x.mapped.spelled = y.mapped.spelled) : key x = key y := by
  have hruby := congrArg GrimodexMappedDictionaryEntry.ruby h
  have hword := congrArg GrimodexMappedDictionaryEntry.word h
  have hcid := congrArg GrimodexMappedDictionaryEntry.cid h
  change CanonicalText.precomposed x.mapped.ruby = CanonicalText.precomposed y.mapped.ruby at hruby
  change CanonicalText.precomposed x.mapped.word = CanonicalText.precomposed y.mapped.word at hword
  change x.mapped.cid = y.mapped.cid at hcid
  unfold key
  rw [hruby, hword, hcid]

theorem nodup_spelled {l : List Candidate} (h : (l.map key).Nodup) :
    (l.map fun x => x.mapped.spelled).Nodup := by
  apply List.pairwise_map.mpr
  apply (List.pairwise_map.mp h).imp
  intro x y hne he
  exact hne (key_eq_of_spelled_eq he)

theorem spelled_perm (h : shuffled.Perm entries) :
    ((unique entries).map fun x => x.mapped.spelled).Perm
      ((unique shuffled).map fun x => x.mapped.spelled) := by
  have hsub : ∀ {one two : List GrimodexWireEntry}, one.Perm two →
      ∀ m ∈ (unique one).map (fun x => x.mapped.spelled),
        m ∈ (unique two).map (fun x => x.mapped.spelled) := by
    intro one two hperm m hm
    obtain ⟨x, hx, rfl⟩ := List.mem_map.mp hm
    have htop := (top_perm hperm).mp (top_unique hx)
    obtain ⟨y, hy, hkey⟩ := (unique_chosen two).covers x htop.1
    exact List.mem_map.mpr ⟨y, hy, spelled_eq_of_key_eq (top_unique hy) htop hkey⟩
  apply (List.perm_ext_iff_of_nodup (nodup_spelled (unique_chosen entries).keys)
    (nodup_spelled (unique_chosen shuffled).keys)).mpr
  exact fun m => ⟨hsub h.symm m, hsub h m⟩

theorem map_spelled (process : Process) : (map process entries).map (·.spelled) =
    (ranked process entries).map fun x => x.mapped.spelled := List.map_map

theorem canonical_of_not_straddled (hs : ¬Straddled (entries.map candidate)) :
    Canonical entries := by
  intro process shuffled h
  refine ⟨mappedFrom_of_ordered h (ordered_ranked process hs h), fun other => ?_⟩
  rw [map_spelled, map_spelled]
  apply map_eq_of_ordered (weak_precedes composed_candidates hs)
  · exact fun x hx => top_unique (mem_ranked.mp hx)
  · exact fun x hx => (top_perm h).mp (top_unique (mem_ranked.mp hx))
  · intro x y hx hy hxy hyx
    exact spelled_eq_of_key_eq hx hy (key_eq_of_tie composed_candidates hx.1 hy.1 hxy hyx)
  · intro x y hx hy he
    exact (precedes_of_key_eq hx hy (key_eq_of_spelled_eq he)).2.2
  · exact ordered_ranked other hs (List.Perm.refl _)
  · exact ordered_ranked process hs h
  · exact ((ranked_perm other entries).map _).trans
      ((spelled_perm h).trans ((ranked_perm process shuffled).map _).symm)

theorem precedes_self (x : Candidate) : precedes x x = false := by
  simp [precedes, sameKey, utf8Less_self]

/-- The first of its key that nothing is better than is the one of the result. -/
theorem mem_unique_first (front : List GrimodexWireEntry) {rest : List GrimodexWireEntry}
    {a : GrimodexWireEntry} (hperm : (front ++ a :: rest).Perm entries) (htop : Top (entries.map candidate) (candidate a))
    (hfirst : ∀ b ∈ front, key (candidate b) ≠ key (candidate a)) :
    candidate a ∈ unique (front ++ a :: rest) := by
  unfold unique
  rw [List.map_append, List.map_cons]
  apply mem_best_first
  · intro y hy
    obtain ⟨b, hb, rfl⟩ := List.mem_map.mp hy
    exact hfirst b hb
  · intro y hy hkey
    obtain ⟨b, hb, rfl⟩ := List.mem_map.mp hy
    exact htop.2 _ (List.mem_map_of_mem (hperm.mem_iff.mp (by simp [hb]))) hkey

theorem not_canonical_of_straddled (hs : Straddled (entries.map candidate)) :
    ¬Canonical entries := by
  intro hcanonical
  obtain ⟨x, y, z, hx, hy, hz, hxz, hyz, sxy, sxz, bxz, bzy, hxy⟩ := hs
  obtain ⟨a, ha, rfl⟩ := List.mem_map.mp hx.1
  obtain ⟨b, hb, rfl⟩ := List.mem_map.mp hy.1
  obtain ⟨c, hc, rfl⟩ := List.mem_map.mp hz.1
  have syz : sameKey (candidate b).mapped.ruby (candidate c).mapped.ruby = false := by
    rw [← sxz]
    simp [sameKey, sameKey_iff.mp sxy]
  have hac : key (candidate a) ≠ key (candidate c) := fun h => by
    rw [sameKey_iff.mpr (Key.mk.inj h).1] at sxz
    exact Bool.false_ne_true sxz.symm
  have hbc : key (candidate b) ≠ key (candidate c) := fun h => by
    rw [sameKey_iff.mpr (Key.mk.inj h).1] at syz
    exact Bool.false_ne_true syz.symm
  have pac : precedes (candidate a) (candidate c) = true := (precedes_of_ruby hxz sxz).trans bxz
  have pcb : precedes (candidate c) (candidate b) = true :=
    (precedes_of_ruby hyz.symm ((sameKey_comm _ _).trans syz)).trans bzy
  have hordered : ∀ {shuffled : List GrimodexWireEntry}, shuffled.Perm entries →
      Ordered precedes (ranked inOrder shuffled) := fun h => by
    rw [← map_ofMapped]
    exact (hcanonical inOrder _ h).1.sorted
  by_cases hab : key (candidate a) = key (candidate b)
  · -- each of the two spellings can be the one that is kept, on its side of the third
    obtain ⟨rest, hrest⟩ := exists_perm_cons_cons ha hc fun h => hac (h ▸ rfl)
    obtain ⟨rest', hrest'⟩ := exists_perm_cons_cons hb hc fun h => hbc (h ▸ rfl)
    have hsame := ((hcanonical inOrder _ hrest).2 inOrder).symm.trans
      ((hcanonical inOrder _ hrest').2 inOrder)
    rw [map_spelled, map_spelled] at hsame
    have hnodup := nodup_spelled (((ranked_perm inOrder (a :: c :: rest)).map
      key).nodup_iff.mpr (unique_chosen _).keys)
    have hbz := Ordered.no_exchange (hordered hrest) (hordered hrest') precedes_self hsame hnodup
      (mem_ranked.mpr (mem_unique_first [] hrest hx (by simp)))
      (mem_ranked.mpr (mem_unique_first [a] hrest hz (by simpa using hac)))
      (mem_ranked.mpr (mem_unique_first [] hrest' hy (by simp)))
      (mem_ranked.mpr (mem_unique_first [b] hrest' hz (by simpa using hbc)))
      (spelled_eq_of_key_eq hx hy hab) rfl pac
    rw [pcb] at hbz
    exact Bool.false_ne_true hbz.symm
  · -- the three precede each other in a circle
    have pba : precedes (candidate b) (candidate a) = true := by
      by_contra hba
      exact hab (key_eq_of_tie composed_candidates hx.1 hy.1 hxy (Bool.eq_false_iff.mpr hba))
    obtain ⟨rest, hrest⟩ := exists_perm_cons_cons_cons ha hb hc (fun h => hab (h ▸ rfl))
      (fun h => hac (h ▸ rfl)) (fun h => hbc (h ▸ rfl))
    have hba := (hordered hrest).no_cycle precedes_self
      (mem_ranked.mpr (mem_unique_first [] hrest hx (by simp)))
      (mem_ranked.mpr (mem_unique_first [a, b] hrest hz
        (by simpa using ⟨hac, hbc⟩)))
      (mem_ranked.mpr (mem_unique_first [a] hrest hy (by simpa using hab))) pac pcb
    rw [pba] at hba
    exact Bool.false_ne_true hba.symm

/-- The mapping does not depend on the order of the entries, unless two spellings of a ruby
are around another. -/
theorem canonical_iff (entries : List GrimodexWireEntry) :
    Canonical entries ↔ ¬Straddled (entries.map candidate) :=
  ⟨fun h hs => not_canonical_of_straddled hs h, canonical_of_not_straddled⟩

end

/-! Two spellings of one katakana, and the syllable between them. -/

section

def wa : Char := Char.ofNat 0x30EF

def voiced : Char := Char.ofNat 0x3099

def voicedWa : Char := Char.ofNat 0x30F7

/-- Before a text that is composed. -/
def compose (c : Char) : Text → Text
  | [] => [c]
  | d :: t => if c = wa ∧ d = voiced then voicedWa :: t else c :: d :: t

def composed (t : Text) : Text := t.foldr compose []

def Uncomposable (t : Text) : Prop := t.IsChain fun c d => ¬(c = wa ∧ d = voiced)

theorem uncomposable_compose {c : Char} {t : Text} (h : Uncomposable t) :
    Uncomposable (compose c t) := by
  cases t with
  | nil => exact List.IsChain.singleton c
  | cons d t =>
    by_cases hcd : c = wa ∧ d = voiced
    · rw [compose, if_pos hcd]
      cases t with
      | nil => exact List.IsChain.singleton voicedWa
      | cons e t =>
        refine List.isChain_cons_cons.mpr ⟨fun he => ?_, (List.isChain_cons_cons.mp h).2⟩
        exact absurd he.1 (by decide)
    · rw [compose, if_neg hcd]
      exact List.isChain_cons_cons.mpr ⟨hcd, h⟩

theorem composed_of_uncomposable {t : Text} (h : Uncomposable t) : composed t = t := by
  induction t with
  | nil => rfl
  | cons c t ih =>
    cases t with
    | nil => rfl
    | cons d t =>
      obtain ⟨hcd, ht⟩ := List.isChain_cons_cons.mp h
      show compose c (composed (d :: t)) = c :: d :: t
      rw [ih ht]
      exact if_neg hcd

theorem uncomposable_composed (t : Text) : Uncomposable (composed t) := by
  induction t with
  | nil => exact List.IsChain.nil
  | cons c t ih => exact uncomposable_compose ih

@[reducible] def composedRuby : NormalRuby where
  precomposed := composed
  compatibility := composed
  toKatakana t := t.map Hazkey.toKatakana
  precomposed_precomposed t := composed_of_uncomposable (uncomposable_composed t)

attribute [local instance] composedRuby

def wireEntry (yomi surface : Text) (entryID : Text) : GrimodexWireEntry where
  yomi := yomi
  surface := surface
  category := .noun
  priority := 1
  entryID := entryID

def aroundSyllable : List GrimodexWireEntry :=
  [wireEntry [Char.ofNat 0x308F, voiced] ['b'] ['1'], wireEntry [Char.ofNat 0x30F3] ['c'] ['2'],
    wireEntry [voicedWa] ['a'] ['3']]

theorem aroundSyllable_not_canonical :
    (∀ entry ∈ aroundSyllable, GrimodexProtocolValidator.validEntry entry = true) ∧
      ¬Canonical aroundSyllable := by
  refine ⟨by decide +kernel, not_canonical_of_straddled ?_⟩
  refine ⟨_, _, _, ⟨List.mem_cons_self, ?_⟩,
    ⟨List.mem_cons_of_mem _ (List.mem_cons_of_mem _ List.mem_cons_self), ?_⟩,
    ⟨List.mem_cons_of_mem _ List.mem_cons_self, ?_⟩, ?_⟩
  all_goals decide +kernel

end

end GrimodexDictionaryMapper

end Hazkey
