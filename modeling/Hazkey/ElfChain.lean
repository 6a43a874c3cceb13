import Hazkey.ElfLayout

/-! The chain of version requirements as it stands in the table, and the walk that
inspects every structure of it once. -/

namespace Hazkey.BundleVerification

open TracedRuns Traced

/-! ## The chain -/

/-- So many auxiliary entries from a cursor on, each with its offset and its version. -/
inductive Auxiliaries (l : Layout) : ℕ → ℕ → List (ℕ × Text) → Prop
  | done (cursor : ℕ) : Auxiliaries l cursor 0 []
  | entry {cursor left : ℕ} {version : Text} {rest : List (ℕ × Text)}
      (hbounds : cursor + structureSize ≤ l.requirements.length)
      (hversion : IsString l.strings (field 4 l.requirements (cursor + 8)) version)
      (hnext : left = 0 ∧ field 4 l.requirements (cursor + 12) = 0 ∨
        left ≠ 0 ∧ structureSize ≤ field 4 l.requirements (cursor + 12))
      (hrest : Auxiliaries l (cursor + field 4 l.requirements (cursor + 12)) left rest) :
      Auxiliaries l cursor (left + 1) ((cursor, version) :: rest)

structure Requirement where
  offset : ℕ
  auxiliaries : List (ℕ × Text)

/-- So many requirements from a cursor on, each with all its auxiliary entries. -/
inductive Requirements (l : Layout) : ℕ → ℕ → List Requirement → Prop
  | done (cursor : ℕ) : Requirements l cursor 0 []
  | entry {cursor left : ℕ} {auxiliaries : List (ℕ × Text)} {rest : List Requirement}
      (hbounds : cursor + structureSize ≤ l.requirements.length)
      (hversion : field 2 l.requirements cursor = elfVersionRequirement)
      (hcount : field 2 l.requirements (cursor + 2) ≠ 0)
      (hoffset : structureSize ≤ field 4 l.requirements (cursor + 8))
      (hauxiliaries : Auxiliaries l (cursor + field 4 l.requirements (cursor + 8))
        (field 2 l.requirements (cursor + 2)) auxiliaries)
      (hnext : left = 0 ∧ field 4 l.requirements (cursor + 12) = 0 ∨
        left ≠ 0 ∧ structureSize ≤ field 4 l.requirements (cursor + 12) ∧
          cursor + field 4 l.requirements (cursor + 12) < l.requirements.length)
      (hrest : Requirements l (cursor + field 4 l.requirements (cursor + 12)) left rest) :
      Requirements l cursor (left + 1) (⟨cursor, auxiliaries⟩ :: rest)

def offsets (chain : List Requirement) : List ℕ :=
  chain.flatMap fun r => r.offset :: r.auxiliaries.map (·.1)

def versions (chain : List Requirement) : List Text :=
  chain.flatMap fun r => r.auxiliaries.map (·.2)

theorem Auxiliaries.length {l : Layout} {cursor count : ℕ} {entries : List (ℕ × Text)}
    (h : Auxiliaries l cursor count entries) : entries.length = count := by
  induction h with
  | done => rfl
  | entry _ _ _ _ ih => rw [List.length_cons, ih]

/-! ## What may still be visited -/

structure Fresh (w : Walked) (found : List ℕ) : Prop where
  nodup : found.Nodup
  unseen : ∀ offset ∈ found, offset ∉ w.visited
  budget : found.length ≤ w.remaining

def Walked.extend (w : Walked) (found : List ℕ) (versions : List Text) : Walked :=
  ⟨w.visited ++ found, w.remaining - found.length, w.versions ++ versions⟩

theorem fresh_nil (w : Walked) : Fresh w [] :=
  ⟨List.nodup_nil, by simp, Nat.zero_le _⟩

theorem fresh_cons {w : Walked} {cursor : ℕ} {found : List ℕ} : Fresh w (cursor :: found) ↔
    (cursor ∉ w.visited ∧ w.remaining ≠ 0) ∧ Fresh (w.visit cursor) found := by
  constructor
  · rintro ⟨hnodup, hunseen, hbudget⟩
    obtain ⟨hcursor, hnodup⟩ := List.nodup_cons.mp hnodup
    obtain ⟨hnew, hunseen⟩ := List.forall_mem_cons.mp hunseen
    rw [List.length_cons] at hbudget
    refine ⟨⟨hnew, by omega⟩, hnodup, fun offset hoffset hmem => ?_, ?_⟩
    · rcases List.mem_append.mp hmem with hmem | hmem
      · exact hunseen offset hoffset hmem
      · exact ne_of_mem_of_not_mem hoffset hcursor (List.mem_singleton.mp hmem)
    · change found.length ≤ w.remaining - 1
      omega
  · rintro ⟨⟨hnew, hremaining⟩, hnodup, hunseen, hbudget⟩
    change found.length ≤ w.remaining - 1 at hbudget
    refine ⟨List.nodup_cons.mpr ⟨fun hmem => ?_, hnodup⟩, ?_, ?_⟩
    · exact hunseen cursor hmem (List.mem_append_right _ (List.mem_singleton_self _))
    · rw [List.forall_mem_cons]
      exact ⟨hnew, fun offset hoffset hmem => hunseen offset hoffset (List.mem_append_left _ hmem)⟩
    · rw [List.length_cons]
      omega

theorem fresh_append {w : Walked} {first second : List ℕ} {found : List Text} :
    Fresh w (first ++ second) ↔ Fresh w first ∧ Fresh (w.extend first found) second := by
  constructor
  · rintro ⟨hnodup, hunseen, hbudget⟩
    obtain ⟨hfirst, hsecond, hdisjoint⟩ := List.nodup_append.mp hnodup
    rw [List.forall_mem_append] at hunseen
    rw [List.length_append] at hbudget
    refine ⟨⟨hfirst, hunseen.1, by omega⟩, hsecond, fun offset hoffset hmem => ?_, ?_⟩
    · rcases List.mem_append.mp hmem with hmem | hmem
      · exact hunseen.2 offset hoffset hmem
      · exact hdisjoint offset hmem offset hoffset rfl
    · change second.length ≤ w.remaining - first.length
      omega
  · rintro ⟨⟨hfirst, hnew, hbudget⟩, hsecond, hunseen, hrest⟩
    change second.length ≤ w.remaining - first.length at hrest
    refine ⟨List.nodup_append.mpr ⟨hfirst, hsecond, fun a ha b hb hab => ?_⟩, ?_, ?_⟩
    · exact hunseen b hb (List.mem_append_right _ (hab ▸ ha))
    · rw [List.forall_mem_append]
      exact ⟨hnew, fun offset hoffset hmem => hunseen offset hoffset (List.mem_append_left _ hmem)⟩
    · rw [List.length_append]
      omega

theorem Fresh.of_same {w w' : Walked} {found : List ℕ} (h : Fresh w found)
    (hvisited : w'.visited = w.visited) (hremaining : w'.remaining = w.remaining) :
    Fresh w' found :=
  ⟨h.nodup, hvisited ▸ h.unseen, hremaining ▸ h.budget⟩

theorem fresh_add {w : Walked} {version : Text} {found : List ℕ} :
    Fresh (w.add version) found ↔ Fresh w found :=
  ⟨fun h => h.of_same rfl rfl, fun h => h.of_same rfl rfl⟩

theorem Walked.extend_extend (w : Walked) (first second : List ℕ) (found later : List Text) :
    (w.extend first found).extend second later = w.extend (first ++ second) (found ++ later) := by
  simp [Walked.extend, Nat.sub_sub]

theorem Walked.visit_eq_extend (w : Walked) (cursor : ℕ) : w.visit cursor = w.extend [cursor] [] := by
  simp [Walked.visit, Walked.extend]

theorem Walked.add_eq_extend (w : Walked) (version : Text) : w.add version = w.extend [] [version] := by
  simp [Walked.add, Walked.extend]

/-! ## The walk -/

variable {l : Layout} {name message : String}

theorem enterStructure_eq_ok {w w' : Walked} {cursor : ℕ} :
    (enterStructure w cursor message).result = .ok w' ↔
      (cursor ∉ w.visited ∧ w.remaining ≠ 0) ∧ w' = w.visit cursor := by
  simp only [enterStructure, bind_eq_ok, expect_eq_ok, note_eq_ok, pure_eq_ok, exists_const,
    true_and]

theorem unpack_entry_eq_ok {cursor width k value : ℕ}
    (hbounds : cursor + structureSize ≤ l.requirements.length) (hk : k + width ≤ structureSize) :
    (unpack width (slice l.requirements cursor structureSize) k).result = .ok value ↔
      value = field width l.requirements (cursor + k) := unpack_slice_eq_ok hbounds hk

/-- What ends the step of an auxiliary entry. -/
theorem nextAuxiliary_eq_ok {left cursor next : ℕ} {w w' : Walked} {message' : String} :
    (if left ≠ 0 then do
        expect (structureSize ≤ next) message
        walkAuxiliaries l name left (cursor + next) w
      else do
        expect (next = 0) message'
        return w : Run Walked).result = .ok w' ↔
      (left = 0 ∧ next = 0 ∨ left ≠ 0 ∧ structureSize ≤ next) ∧
        (walkAuxiliaries l name left (cursor + next) w).result = .ok w' := by
  by_cases hleft : left = 0
  · subst hleft
    simp [walkAuxiliaries, bind_eq_ok]
  · simp [hleft, bind_eq_ok]

/-- What ends the step of a requirement. -/
theorem nextRequirement_eq_ok {left cursor next : ℕ} {w w' : Walked} {message' message'' : String} :
    (if left ≠ 0 then do
        expect (structureSize ≤ next) message
        expect (cursor + next < l.requirements.length) message'
        walkRequirements l name left (cursor + next) w
      else do
        expect (next = 0) message''
        return w : Run Walked).result = .ok w' ↔
      (left = 0 ∧ next = 0 ∨
          left ≠ 0 ∧ structureSize ≤ next ∧ cursor + next < l.requirements.length) ∧
        (walkRequirements l name left (cursor + next) w).result = .ok w' := by
  by_cases hleft : left = 0
  · subst hleft
    simp [walkRequirements, bind_eq_ok]
  · simp [hleft, bind_eq_ok, and_assoc]

/-- The walk finds the auxiliary entries that are there, when none was seen before. -/
theorem walkAuxiliaries_eq_ok {left cursor : ℕ} {w w' : Walked} :
    (walkAuxiliaries l name left cursor w).result = .ok w' ↔
      ∃ entries, Auxiliaries l cursor left entries ∧ Fresh w (entries.map (·.1)) ∧
        w' = w.extend (entries.map (·.1)) (entries.map (·.2)) := by
  induction left generalizing cursor w with
  | zero =>
    rw [walkAuxiliaries, pure_eq_ok]
    constructor
    · rintro rfl
      exact ⟨[], .done cursor, fresh_nil w', by simp [Walked.extend]⟩
    · rintro ⟨entries, h, -, rfl⟩
      cases h
      simp [Walked.extend]
  | succ left ih =>
    simp only [walkAuxiliaries, bind_eq_ok, enterStructure_eq_ok, sliceElf_eq_ok, elfString_eq_ok,
      nextAuxiliary_eq_ok, ih, fresh_add]
    constructor
    · rintro ⟨_, ⟨hnew, rfl⟩, _, ⟨hbounds, rfl⟩, nameOffset, hname, next, hnext, version, hversion,
        hlast, entries, hentries, hfresh, rfl⟩
      rw [unpack_entry_eq_ok hbounds (by decide)] at hname hnext
      rw [hname] at hversion
      rw [hnext] at hlast hentries
      refine ⟨(cursor, version) :: entries, .entry hbounds hversion hlast hentries,
        fresh_cons.mpr ⟨hnew, hfresh⟩, ?_⟩
      rw [Walked.add_eq_extend, Walked.visit_eq_extend, Walked.extend_extend, Walked.extend_extend]
      rfl
    · rintro ⟨entries, hentries, hfresh, rfl⟩
      cases hentries with
      | @entry _ _ version rest hbounds hversion hnext hrest =>
        obtain ⟨hnew, hfresh⟩ := fresh_cons.mp hfresh
        refine ⟨_, ⟨hnew, rfl⟩, _, ⟨hbounds, rfl⟩, _,
          (unpack_entry_eq_ok hbounds (by decide)).mpr rfl, _,
          (unpack_entry_eq_ok hbounds (by decide)).mpr rfl, version, hversion, hnext, rest, hrest,
          hfresh, ?_⟩
        rw [Walked.add_eq_extend, Walked.visit_eq_extend, Walked.extend_extend,
          Walked.extend_extend]
        rfl

/-- The walk finds the whole chain, when no structure is met twice and the budget is kept. -/
theorem walkRequirements_eq_ok {left cursor : ℕ} {w w' : Walked} :
    (walkRequirements l name left cursor w).result = .ok w' ↔
      ∃ chain, Requirements l cursor left chain ∧ Fresh w (offsets chain) ∧
        w' = w.extend (offsets chain) (versions chain) := by
  induction left generalizing cursor w with
  | zero =>
    rw [walkRequirements, pure_eq_ok]
    constructor
    · rintro rfl
      exact ⟨[], .done cursor, fresh_nil w', by simp [Walked.extend, offsets, versions]⟩
    · rintro ⟨chain, h, -, rfl⟩
      cases h
      simp [Walked.extend, offsets, versions]
  | succ left ih =>
    simp only [walkRequirements, bind_eq_ok, enterStructure_eq_ok, sliceElf_eq_ok, expect_eq_ok,
      walkAuxiliaries_eq_ok, nextRequirement_eq_ok, ih, exists_const]
    constructor
    · rintro ⟨_, ⟨hnew, rfl⟩, _, ⟨hbounds, rfl⟩, version, hversion, count, hcount, auxiliaryOffset,
        hoffset, next, hnext, ⟨hversion', hcount'⟩, hoffset', -, _, ⟨entries, hentries, hauxiliaries,
        rfl⟩, hlast, chain, hchain, hfresh, rfl⟩
      rw [unpack_entry_eq_ok hbounds (by decide)] at hversion hcount hoffset hnext
      rw [hversion] at hversion'
      rw [hcount] at hcount' hentries
      rw [hoffset] at hoffset' hentries
      rw [hnext] at hlast hchain
      refine ⟨⟨cursor, entries⟩ :: chain,
        .entry hbounds hversion' hcount' hoffset' hentries hlast hchain, ?_, ?_⟩
      · exact fresh_cons.mpr ⟨hnew, fresh_append.mpr ⟨hauxiliaries, hfresh⟩⟩
      · rw [Walked.visit_eq_extend, Walked.extend_extend, Walked.extend_extend]
        rfl
    · rintro ⟨chain, hchain, hfresh, rfl⟩
      cases hchain with
      | @entry _ _ auxiliaries rest hbounds hversion hcount hoffset hauxiliaries hnext hrest =>
        obtain ⟨hnew, hfresh⟩ := fresh_cons.mp hfresh
        obtain ⟨hentries, hfresh⟩ := fresh_append.mp hfresh
        have hbudget := hentries.budget
        rw [List.length_map, hauxiliaries.length] at hbudget
        refine ⟨_, ⟨hnew, rfl⟩, _, ⟨hbounds, rfl⟩, _,
          (unpack_entry_eq_ok hbounds (by decide)).mpr rfl, _,
          (unpack_entry_eq_ok hbounds (by decide)).mpr rfl, _,
          (unpack_entry_eq_ok hbounds (by decide)).mpr rfl, _,
          (unpack_entry_eq_ok hbounds (by decide)).mpr rfl, ⟨hversion, hcount⟩, hoffset, hbudget, _,
          ⟨auxiliaries, hauxiliaries, hentries, rfl⟩, hnext, rest, hrest, hfresh, ?_⟩
        rw [Walked.visit_eq_extend, Walked.extend_extend, Walked.extend_extend]
        rfl

/-! ## Reads of the walk -/

abbrev Stays {α : Type} (x : Run α) : Prop := Traced.Sound Event.InBounds Failure.IsBundle x

theorem stays_of_reads {α : Type} {x : Run α} (h : Reads x) : Stays x :=
  h.mono (fun _ h => h.1) fun _ h => h

theorem enterStructure_stays {w : Walked} {cursor : ℕ} : Stays (enterStructure w cursor message) :=
  (stays_of_reads expect_reads).bind fun _ _ => (Traced.Sound.note trivial).bind fun _ _ => .pure _

theorem unpack_entry_reads {cursor width k : ℕ}
    (hbounds : cursor + structureSize ≤ l.requirements.length) (hk : k + width ≤ structureSize) :
    Reads (unpack width (slice l.requirements cursor structureSize) k) :=
  unpack_slice_reads hbounds hk

theorem walkAuxiliaries_stays {left cursor : ℕ} {w : Walked} :
    Stays (walkAuxiliaries l name left cursor w) := by
  induction left generalizing cursor w with
  | zero => exact .pure w
  | succ left ih =>
    refine enterStructure_stays.bind fun w _ => (stays_of_reads sliceElf_reads).bind fun entry h => ?_
    obtain ⟨hbounds, rfl⟩ := sliceElf_eq_ok.mp h
    refine (stays_of_reads (unpack_entry_reads hbounds (by decide))).bind fun _ _ => ?_
    refine (stays_of_reads (unpack_entry_reads hbounds (by decide))).bind fun _ _ => ?_
    refine (stays_of_reads elfString_reads).bind fun _ _ => ?_
    by_cases hleft : left = 0
    · rw [if_neg (not_not_intro hleft)]
      exact (stays_of_reads expect_reads).bind fun _ _ => .pure _
    · rw [if_pos hleft]
      exact (stays_of_reads expect_reads).bind fun _ _ => ih

theorem walkRequirements_stays {left cursor : ℕ} {w : Walked} :
    Stays (walkRequirements l name left cursor w) := by
  induction left generalizing cursor w with
  | zero => exact .pure w
  | succ left ih =>
    refine enterStructure_stays.bind fun w _ => (stays_of_reads sliceElf_reads).bind fun entry h => ?_
    obtain ⟨hbounds, rfl⟩ := sliceElf_eq_ok.mp h
    refine (stays_of_reads (unpack_entry_reads hbounds (by decide))).bind fun _ _ => ?_
    refine (stays_of_reads (unpack_entry_reads hbounds (by decide))).bind fun _ _ => ?_
    refine (stays_of_reads (unpack_entry_reads hbounds (by decide))).bind fun _ _ => ?_
    refine (stays_of_reads (unpack_entry_reads hbounds (by decide))).bind fun _ _ => ?_
    refine (stays_of_reads expect_reads).bind fun _ _ => ?_
    refine (stays_of_reads expect_reads).bind fun _ _ => ?_
    refine (stays_of_reads expect_reads).bind fun _ _ => walkAuxiliaries_stays.bind fun _ _ => ?_
    by_cases hleft : left = 0
    · rw [if_neg (not_not_intro hleft)]
      exact (stays_of_reads expect_reads).bind fun _ _ => .pure _
    · rw [if_pos hleft]
      refine (stays_of_reads expect_reads).bind fun _ _ => ?_
      exact (stays_of_reads expect_reads).bind fun _ _ => ih

/-! ## Offsets of the walk -/

/-- A run that goes on from a walk inspects only fresh offsets, and keeps account of them. -/
structure Visits (w : Walked) (x : Run Walked) : Prop where
  fresh : Fresh w (seen Event.inspected x)
  kept : ∀ w', x.result = .ok w' → w'.visited = w.visited ++ seen Event.inspected x ∧
    w'.remaining = w.remaining - (seen Event.inspected x).length

theorem Visits.pure {w w' : Walked} (hvisited : w'.visited = w.visited)
    (hremaining : w'.remaining = w.remaining) : Visits w (pure w') := by
  refine ⟨fresh_nil w, fun found h => ?_⟩
  obtain rfl := pure_eq_ok.mp h
  exact ⟨hvisited.trans (List.append_nil _).symm, hremaining⟩

theorem Visits.fail {w : Walked} {x : Run Walked} {e : Failure} (hx : x.result = .error e)
    (hseen : seen Event.inspected x = []) : Visits w x := by
  refine ⟨hseen ▸ fresh_nil w, fun w' h => ?_⟩
  rw [hx] at h
  cases h

/-- Reads inspect nothing. -/
theorem Visits.after_reads {α : Type} {w : Walked} {x : Run α} {f : α → Run Walked} (hx : Reads x)
    (hf : ∀ a, x.result = .ok a → Visits w (f a)) : Visits w (x >>= f) := by
  have hseen : seen Event.inspected x = [] := hx.seen_eq_nil fun _ h => h.2
  cases h : x.result with
  | error e =>
    exact .fail (by rw [bind_of_error h]) (by rw [seen_bind_of_error h, hseen])
  | ok a =>
    have hbind : seen Event.inspected (x >>= f) = seen Event.inspected (f a) := by
      rw [seen_bind_of_ok h, hseen, List.nil_append]
    obtain ⟨hfresh, hkept⟩ := hf a h
    refine ⟨hbind ▸ hfresh, fun w' hw' => ?_⟩
    rw [hbind]
    rw [bind_of_ok h] at hw'
    exact hkept w' hw'

/-- What a walk inspects is behind the walk that goes on from it. -/
theorem Visits.bind {w : Walked} {x : Run Walked} {f : Walked → Run Walked} (hx : Visits w x)
    (hf : ∀ w', x.result = .ok w' → Visits w' (f w')) : Visits w (x >>= f) := by
  cases h : x.result with
  | error e =>
    refine ⟨by rw [seen_bind_of_error h]; exact hx.fresh, fun w' hw' => ?_⟩
    rw [bind_of_error h] at hw'
    cases hw'
  | ok w₁ =>
    obtain ⟨hvisited, hremaining⟩ := hx.kept w₁ h
    obtain ⟨hfresh, hkept⟩ := hf w₁ h
    have hbind : seen Event.inspected (x >>= f) =
        seen Event.inspected x ++ seen Event.inspected (f w₁) := seen_bind_of_ok h
    refine ⟨?_, fun w' hw' => ?_⟩
    · rw [hbind]
      have hrest : Fresh (w.extend (seen Event.inspected x) []) (seen Event.inspected (f w₁)) :=
        hfresh.of_same hvisited.symm hremaining.symm
      exact fresh_append.mpr ⟨hx.fresh, hrest⟩
    · rw [bind_of_ok h] at hw'
      obtain ⟨hvisited', hremaining'⟩ := hkept w' hw'
      rw [hbind, hvisited', hvisited, hremaining', hremaining, List.length_append, Nat.sub_sub,
        List.append_assoc]
      exact ⟨rfl, rfl⟩

theorem enterStructure_visits {w : Walked} {cursor : ℕ} :
    Visits w (enterStructure w cursor message) := by
  refine Visits.after_reads expect_reads fun _ h => ?_
  refine ⟨fresh_cons.mpr ⟨expect_eq_ok.mp h, fresh_nil _⟩, fun w' hw' => ?_⟩
  obtain ⟨_, -, hw'⟩ := bind_eq_ok.mp hw'
  obtain rfl := pure_eq_ok.mp hw'
  exact ⟨rfl, rfl⟩

theorem Visits.of_add {w : Walked} {version : Text} {x : Run Walked} (h : Visits (w.add version) x) :
    Visits w x :=
  ⟨h.fresh.of_same rfl rfl, h.kept⟩

theorem walkAuxiliaries_visits {left cursor : ℕ} {w : Walked} :
    Visits w (walkAuxiliaries l name left cursor w) := by
  induction left generalizing cursor w with
  | zero => exact .pure rfl rfl
  | succ left ih =>
    refine enterStructure_visits.bind fun w _ => Visits.after_reads sliceElf_reads fun entry h => ?_
    obtain ⟨hbounds, rfl⟩ := sliceElf_eq_ok.mp h
    refine Visits.after_reads (unpack_entry_reads hbounds (by decide)) fun _ _ => ?_
    refine Visits.after_reads (unpack_entry_reads hbounds (by decide)) fun _ _ => ?_
    refine Visits.after_reads elfString_reads fun _ _ => ?_
    by_cases hleft : left = 0
    · rw [if_neg (not_not_intro hleft)]
      exact Visits.after_reads expect_reads fun _ _ => .pure rfl rfl
    · rw [if_pos hleft]
      exact Visits.after_reads expect_reads fun _ _ => ih.of_add

theorem walkRequirements_visits {left cursor : ℕ} {w : Walked} :
    Visits w (walkRequirements l name left cursor w) := by
  induction left generalizing cursor w with
  | zero => exact .pure rfl rfl
  | succ left ih =>
    refine enterStructure_visits.bind fun w _ => Visits.after_reads sliceElf_reads fun entry h => ?_
    obtain ⟨hbounds, rfl⟩ := sliceElf_eq_ok.mp h
    refine Visits.after_reads (unpack_entry_reads hbounds (by decide)) fun _ _ => ?_
    refine Visits.after_reads (unpack_entry_reads hbounds (by decide)) fun _ _ => ?_
    refine Visits.after_reads (unpack_entry_reads hbounds (by decide)) fun _ _ => ?_
    refine Visits.after_reads (unpack_entry_reads hbounds (by decide)) fun _ _ => ?_
    refine Visits.after_reads expect_reads fun _ _ => ?_
    refine Visits.after_reads expect_reads fun _ _ => ?_
    refine Visits.after_reads expect_reads fun _ _ => ?_
    refine walkAuxiliaries_visits.bind fun w _ => ?_
    by_cases hleft : left = 0
    · rw [if_neg (not_not_intro hleft)]
      exact Visits.after_reads expect_reads fun _ _ => .pure rfl rfl
    · rw [if_pos hleft]
      refine Visits.after_reads expect_reads fun _ _ => ?_
      exact Visits.after_reads expect_reads fun _ _ => ih

end Hazkey.BundleVerification
