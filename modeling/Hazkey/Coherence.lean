import Hazkey.ConversionRules

/-! What holds of the session between requests. Each group of conditions is
stated over the fields it constrains, so an update of other fields keeps it as
it stands. -/

namespace Hazkey

open ServiceProgram

variable [SwiftText]

/-- What does not depend on the phase and its candidates. -/
structure SoundParts (policy : PinnedCompositionPolicy) (checkpoint : Option RecoveryCheckpoint)
    (context : SessionContext) (pending : List PendingLearningTransaction)
    (live : Option MaterializedLivePrefix) (buffer : Text) (elements : List CompositionElement)
    (replacement : Option ReconversionReplacement) : Prop where
  secure : policy.secureInput = true →
    checkpoint = none ∧ (context.leftContext = [] ∧ context.rightContext = []) ∧ pending = [] ∧
      live = none
  project : context.projectRevision = policy.projectRevision
  buffer : buffer.length ≤ 8 ∧ buffer.all lowercaseHexDigit = true
  elements : policy.wellFormed = true → elements.all CompositionElement.wellFormed = true
  replacement : ∀ r, replacement = some r → 0 ≤ r.before ∧ 0 ≤ r.after

def Sound (s : CompositionSession) : Prop :=
  SoundParts s.policy s.recoveryCheckpoint s.context s.pendingLearningTransactions
    s.livePresentation.materializedPrefix s.unicodeInputBuffer s.composingText.elements
    s.reconversionReplacement

section

omit [SwiftText]

/-- What each phase says of the data. -/
structure PhasedParts (phase : ImePhase) (elements : List CompositionElement)
    (candidates : Option CandidateSet) (segments : List CompositionSegment)
    (phaseBefore : Option ImePhase) (live : LivePresentationState)
    (pending : List PendingLearningTransaction) (secure : Bool) : Prop where
  idle : phase = .idle → elements = [] ∧ candidates = none ∧ segments = []
  editing : phase ≠ .idle → phase ≠ .unicodeInput → elements ≠ []
  unicode : phase = .unicodeInput → candidates = none ∧ segments = [] ∧ live = .empty ∧
    (phaseBefore = some .idle ∨ phaseBefore = some .composing)
  selecting : phase = .selecting →
    ∃ c i, candidates = some c ∧ c.selectedIndex = some i ∧ i < c.items.length
  pending : pending ≠ [] → phase = .idle
  live : secure = true → ∀ c, candidates = some c → c.liveCandidate = none

def Phased (s : CompositionSession) : Prop :=
  PhasedParts s.phase s.composingText.elements s.candidates s.segments s.phaseBeforeUnicodeInput
    s.livePresentation s.pendingLearningTransactions s.policy.secureInput

/-- The segments cover the composition, and the active one is the one on show. -/
structure PartitionedParts (elements : List CompositionElement)
    (segments : List CompositionSegment) (activeIndex : Option Nat)
    (candidates : Option CandidateSet) (activeBoundary : Option Nat) : Prop where
  inactive : segments = [] → activeIndex = none
  total : segments ≠ [] → segmentsTotal segments = elements.length
  wellFormed : ∀ g ∈ segments, g.WellFormed
  active : segments ≠ [] → ∃ i g, activeIndex = some i ∧ segments[i]? = some g ∧
    candidates = some g.candidates ∧ activeBoundary = some g.inputCount

def Partitioned (s : CompositionSession) : Prop :=
  PartitionedParts s.composingText.elements s.segments s.activeSegmentIndex s.candidates
    s.activeBoundary

end

/-- The invariant of a session between requests. -/
structure Coherent (s : CompositionSession) : Prop where
  sound : Sound s
  phased : Phased s
  partitioned : Partitioned s

/-- The checkpoint, where there is one, is that of the session as it is, but for
what recovery does not promise to keep. -/
structure Synced (s : CompositionSession) : Prop where
  frame : ∀ c, s.recoveryCheckpoint = some c → c =
    { s.checkpoint with
      phase := c.phase
      policy := c.policy
      nextCandidateGeneration := c.nextCandidateGeneration }
  unicode : ∀ c, s.recoveryCheckpoint = some c →
    (c.phase = .unicodeInput ↔ s.phase = .unicodeInput)
  secure : ∀ c, s.recoveryCheckpoint = some c → c.policy.secureInput = false
  elements : ∀ c, s.recoveryCheckpoint = some c → c.policy.wellFormed = true →
    s.composingText.elements.all CompositionElement.wellFormed = true

/-- Unicode input leaves nothing behind. -/
def Tidy (s : CompositionSession) : Prop :=
  s.phase ≠ .unicodeInput → s.unicodeInputBuffer = [] ∧ s.phaseBeforeUnicodeInput = none

/-! Soundness under the updates of its parts. -/

section

variable {p : PinnedCompositionPolicy} {c : Option RecoveryCheckpoint} {x : SessionContext}
  {l : List PendingLearningTransaction} {m : Option MaterializedLivePrefix} {b : Text}
  {es : List CompositionElement} {r : Option ReconversionReplacement}

theorem SoundParts.resolved (h : SoundParts p c x l m b es r) : SoundParts p c x [] m b es r :=
  ⟨fun hs => ⟨(h.secure hs).1, (h.secure hs).2.1, rfl, (h.secure hs).2.2.2⟩,
    h.project, h.buffer, h.elements, h.replacement⟩

theorem SoundParts.learnt (h : SoundParts p c x l m b es r)
    {l' : List PendingLearningTransaction} (hl : p.secureInput = true → l' = l) :
    SoundParts p c x l' m b es r :=
  ⟨fun hs => ⟨(h.secure hs).1, (h.secure hs).2.1, (hl hs).trans (h.secure hs).2.2.1,
    (h.secure hs).2.2.2⟩, h.project, h.buffer, h.elements, h.replacement⟩

theorem SoundParts.withLive (h : SoundParts p c x l m b es r)
    {q : Option MaterializedLivePrefix} (hm : p.secureInput = true → q = none) :
    SoundParts p c x l q b es r :=
  ⟨fun hs => ⟨(h.secure hs).1, (h.secure hs).2.1, (h.secure hs).2.2.1, hm hs⟩,
    h.project, h.buffer, h.elements, h.replacement⟩

theorem SoundParts.withElements (h : SoundParts p c x l m b es r)
    {q : List CompositionElement}
    (he : p.wellFormed = true → es.all CompositionElement.wellFormed = true →
      q.all CompositionElement.wellFormed = true) :
    SoundParts p c x l m b q r :=
  ⟨h.secure, h.project, h.buffer, fun hp => he hp (h.elements hp), h.replacement⟩

theorem SoundParts.withReplacement (h : SoundParts p c x l m b es r)
    {r' : Option ReconversionReplacement}
    (hr : ∀ q, r' = some q → 0 ≤ q.before ∧ 0 ≤ q.after) :
    SoundParts p c x l m b es r' :=
  ⟨h.secure, h.project, h.buffer, h.elements, hr⟩

theorem SoundParts.unreplaced (h : SoundParts p c x l m b es r) :
    SoundParts p c x l m b es none := h.withReplacement fun q hq => by cases hq

theorem SoundParts.withBuffer (h : SoundParts p c x l m b es r) {b' : Text}
    (hb : b'.length ≤ 8 ∧ b'.all lowercaseHexDigit = true) :
    SoundParts p c x l m b' es r := ⟨h.secure, h.project, hb, h.elements, h.replacement⟩

theorem SoundParts.withContext (h : SoundParts p c x l m b es r) {q : SessionContext}
    (hp : q.projectRevision = x.projectRevision)
    (hx : p.secureInput = true → q.leftContext = [] ∧ q.rightContext = []) :
    SoundParts p c q l m b es r :=
  ⟨fun hs => ⟨(h.secure hs).1, hx hs, (h.secure hs).2.2⟩, hp.trans h.project, h.buffer,
    h.elements, h.replacement⟩

/-- Committed text reaches the left context outside secure sessions only. -/
theorem SoundParts.committed (h : SoundParts p c x l m b es r) (text : Text) :
    SoundParts p c (if p.secureInput = true then x
      else { x with leftContext := x.leftContext ++ text }) l m b es r := by
  split
  · exact h
  · rename_i hs
    exact h.withContext rfl fun ht => absurd ht hs

theorem SoundParts.erased (h : SoundParts p c x l m b es r) : SoundParts p c x l m b [] r :=
  h.withElements fun _ _ => rfl

theorem SoundParts.advanced (h : SoundParts p c x l m b es r) (q : RecoveryCheckpoint) :
    SoundParts p (if p.secureInput = true then none else some q) x l m b es r :=
  ⟨fun hs => ⟨if_pos hs, (h.secure hs).2⟩, h.project, h.buffer, h.elements, h.replacement⟩

/-- What is pending was staged outside secure sessions. -/
theorem SoundParts.unsecure (h : SoundParts p c x l m b es r) (hl : l ≠ []) :
    p.secureInput = false := by
  by_contra hs
  exact hl (h.secure (by simpa using hs)).2.2.1

theorem Sound.unsecure {s : CompositionSession} (h : Sound s)
    (hp : s.pendingLearningTransactions ≠ []) : s.policy.secureInput = false :=
  SoundParts.unsecure h hp

theorem Sound.advanceRevision {s : CompositionSession} (h : Sound s) : Sound s.advanceRevision :=
  SoundParts.advanced h _

/-- A session whose security domain was erased is sound under any policy. -/
theorem sound_cleared (p : PinnedCompositionPolicy) {x : SessionContext}
    (hx : x.projectRevision = p.projectRevision) :
    SoundParts p none { x with leftContext := [], rightContext := [] } [] none [] [] none :=
  ⟨fun _ => ⟨rfl, ⟨rfl, rfl⟩, rfl, rfl⟩, hx, ⟨Nat.zero_le _, rfl⟩, fun _ => rfl,
    fun q hq => by cases hq⟩

end

/-! Well-formed elements. -/

omit [SwiftText] in
theorem mem_of_lookup {α β : Type} [BEq α] {l : List (α × β)} {k : α} {rule : β}
    (h : l.lookup k = some rule) : ∃ key, (key, rule) ∈ l := by
  induction l with
  | nil => cases h
  | cons entry l ih =>
    obtain ⟨key, r⟩ := entry
    rw [List.lookup_cons] at h
    split at h
    · cases h
      exact ⟨key, List.mem_cons_self ..⟩
    · obtain ⟨key', hm⟩ := ih h
      exact ⟨key', List.mem_cons_of_mem _ hm⟩

theorem wellFormed_newElements {policy : PinnedCompositionPolicy} (h : policy.wellFormed = true)
    (text : Text) :
    (CompositionBuffer.newElements text .mapped policy.keymap).all
      CompositionElement.wellFormed = true := by
  rw [List.all_eq_true]
  intro e he
  obtain ⟨source, hs, rfl⟩ := List.mem_map.mp he
  have hc : characterCount source = 1 := characterCount_character hs
  simp only [if_true]
  cases hl : policy.keymap.lookup source with
  | none => simp [CompositionElement.make, CompositionElement.wellFormed, hc]
  | some rule =>
    simp only [PinnedCompositionPolicy.wellFormed, Bool.and_eq_true] at h
    obtain ⟨key, hm⟩ := mem_of_lookup hl
    have hr := List.all_eq_true.mp h.2 _ hm
    simp only [Bool.and_eq_true, decide_eq_true_eq] at hr
    simp [CompositionElement.make, CompositionElement.wellFormed, hc, hr.1.2, hr.2]

theorem wellFormed_directElements (text : Text) :
    (CompositionBuffer.newElements text .direct []).all CompositionElement.wellFormed = true := by
  rw [List.all_eq_true]
  intro e he
  obtain ⟨source, hs, rfl⟩ := List.mem_map.mp he
  have hc : characterCount source = 1 := characterCount_character hs
  simp [CompositionElement.make, CompositionElement.wellFormed, hc]

theorem wellFormed_insert {b : CompositionBuffer} {text : Text} {style : ImeInputStyle}
    {keymap : Keymap} (hb : b.elements.all CompositionElement.wellFormed = true)
    (hn : (CompositionBuffer.newElements text style keymap).all
      CompositionElement.wellFormed = true) :
    (b.insert text style keymap).elements.all CompositionElement.wellFormed = true := by
  rw [List.all_eq_true] at *
  intro e he
  simp only [CompositionBuffer.insert, List.mem_append] at he
  rcases he with (he | he) | he
  · exact hb e (List.mem_of_mem_take he)
  · exact hn e he
  · exact hb e (List.mem_of_mem_drop he)

theorem wellFormed_of_subset {es es' : List CompositionElement} (h : es' ⊆ es)
    (he : es.all CompositionElement.wellFormed = true) :
    es'.all CompositionElement.wellFormed = true := by
  rw [List.all_eq_true] at *
  exact fun e hm => he e (h hm)

/-! Phases. -/

section

omit [SwiftText]

variable {ph : ImePhase} {es : List CompositionElement} {c : Option CandidateSet}
  {g : List CompositionSegment} {pb : Option ImePhase} {l : LivePresentationState}
  {q : List PendingLearningTransaction} {b : Bool}

theorem phased_idle : PhasedParts .idle [] none [] pb l q b where
  idle _ := ⟨rfl, rfl, rfl⟩
  editing h := absurd rfl h
  unicode h := by cases h
  selecting h := by cases h
  pending _ := rfl
  live _ c hc := by cases hc

/-- A phase of editing or conversion in which nothing need be selected. -/
theorem phased_editing (hph : ph = .composing ∨ ph = .reconverting ∨ ph = .previewing)
    (hes : es ≠ []) (hc : b = true → ∀ w, c = some w → w.liveCandidate = none) :
    PhasedParts ph es c g pb l [] b where
  idle h := by rcases hph with rfl | rfl | rfl <;> cases h
  editing _ _ := hes
  unicode h := by rcases hph with rfl | rfl | rfl <;> cases h
  selecting h := by rcases hph with rfl | rfl | rfl <;> cases h
  pending h := absurd rfl h
  live := hc

theorem phased_selecting (hes : es ≠ []) {w : CandidateSet} {i : Nat}
    (hw : w.selectedIndex = some i) (hi : i < w.items.length)
    (hl : b = true → w.liveCandidate = none) : PhasedParts .selecting es (some w) g pb l [] b where
  idle h := by cases h
  editing _ _ := hes
  unicode h := by cases h
  selecting _ := ⟨w, i, rfl, hw, hi⟩
  pending h := absurd rfl h
  live h v hv := by cases hv; exact hl h

theorem phased_unicode (hpb : pb = some .idle ∨ pb = some .composing) :
    PhasedParts .unicodeInput es none [] pb .empty [] b where
  idle h := by cases h
  editing _ h := absurd rfl h
  unicode _ := ⟨rfl, rfl, rfl, hpb⟩
  selecting h := by cases h
  pending h := absurd rfl h
  live _ c hc := by cases hc

/-- The phase of an unconverted composition. -/
theorem phased_released {t : CompositionBuffer} (hq : q ≠ [] → t.elements = []) :
    PhasedParts (if t.isEmpty = true then .idle else .composing) t.elements none [] pb l q b := by
  split
  · rename_i h
    rw [CompositionBuffer.isEmpty_iff.mp h]
    exact phased_idle
  · rename_i h
    have hne : t.elements ≠ [] := fun he => h (CompositionBuffer.isEmpty_iff.mpr he)
    obtain rfl : q = [] := by
      by_contra hn
      exact hne (hq hn)
    refine phased_editing (.inl rfl) hne ?_
    intro _ w hw
    cases hw

theorem phased_rest {t : CompositionBuffer} :
    PhasedParts (if t.isEmpty = true then .idle else .composing) t.elements none [] pb l [] b :=
  phased_released fun h => absurd rfl h

theorem Phased.pending_nil {s : CompositionSession} (h : Phased s) (hp : s.phase ≠ .idle) :
    s.pendingLearningTransactions = [] := by
  by_contra hne
  exact hp (h.pending hne)

theorem Phased.isEmpty_iff {s : CompositionSession} (h : Phased s)
    (hu : s.phase ≠ .unicodeInput) : s.phase = .idle ↔ s.composingText.elements = [] := by
  constructor
  · intro hi
    exact (h.idle hi).1
  · intro he
    by_contra hi
    exact h.editing hi hu he

/-! Partitions. -/

variable {a : Option Nat} {d : Option Nat}

theorem partitioned_nil : PartitionedParts es [] none c d where
  inactive _ := rfl
  total h := absurd rfl h
  wellFormed := by simp
  active h := absurd rfl h

/-- The active segment can be any. -/
theorem partitioned_activate {l : List CompositionSegment} {i : Nat}
    (ht : segmentsTotal l = es.length) (hw : ∀ g ∈ l, g.WellFormed)
    (hi : i < l.length) :
    PartitionedParts es l (some i) (l[i]?.map (·.candidates))
      (l[i]?.map (·.inputCount)) where
  inactive h := by simp [h] at hi
  total _ := ht
  wellFormed := hw
  active _ := ⟨i, l[i], rfl, List.getElem?_eq_getElem hi, by
    simp [List.getElem?_eq_getElem hi], by simp [List.getElem?_eq_getElem hi]⟩

theorem segmentsTotal_set {segments : List CompositionSegment} {i : Nat}
    {g k : CompositionSegment} (hi : segments[i]? = some g) (hc : k.inputCount = g.inputCount) :
    segmentsTotal (segments.set i k) = segmentsTotal segments := by
  induction segments generalizing i with
  | nil => rfl
  | cons x xs ih =>
    cases i with
    | zero =>
      obtain rfl : x = g := by simpa using hi
      simp [segmentsTotal, hc]
    | succ i =>
      have := ih (i := i) (by simpa using hi)
      simp only [segmentsTotal, List.set_cons_succ, List.map_cons, List.sum_cons] at *
      omega

theorem syncActiveSegment_none {s : CompositionSession} (h : s.activeSegmentIndex = none)
    (w : CandidateSet) : s.syncActiveSegment w = s := by
  simp [CompositionSession.syncActiveSegment, h]

theorem syncActiveSegment_some {s : CompositionSession} {i : Nat} {g : CompositionSegment}
    (h : s.activeSegmentIndex = some i) (hg : s.segments[i]? = some g) (w : CandidateSet) :
    s.syncActiveSegment w =
      { s with
        segments := s.segments.set i { g with candidates := w }
        activeBoundary := some g.inputCount } := by
  simp [CompositionSession.syncActiveSegment, h, hg]

/-- Putting a changed candidate set on show into its segment keeps the partition. -/
theorem Partitioned.sync {s : CompositionSession} (h : Partitioned s) {w v : CandidateSet}
    (hw : s.candidates = some w) (hsel : ∃ i < v.items.length, v.selectedIndex = some i)
    (hcount : ∀ n, (∀ c ∈ w.items, c.consumingCount = n) → ∀ c ∈ v.items, c.consumingCount = n)
    (hlive : v.liveCandidate = w.liveCandidate) :
    ∃ segments boundary,
      { s with candidates := some v }.syncActiveSegment v =
        { s with candidates := some v, segments := segments, activeBoundary := boundary } ∧
      Partitioned
        { s with candidates := some v, segments := segments, activeBoundary := boundary } ∧
      (s.segments = [] → segments = []) ∧
      ∀ g ∈ segments, g ∈ s.segments ∨ g.candidates = v := by
  by_cases hs : s.segments = []
  · have ha := h.inactive hs
    refine ⟨s.segments, s.activeBoundary,
      syncActiveSegment_none (s := { s with candidates := some v }) ha v, ?_, id, fun g => .inl⟩
    exact ⟨h.inactive, h.total, h.wellFormed, fun hn => absurd hs hn⟩
  · obtain ⟨i, g, ha, hg, hc, hb⟩ := h.active hs
    have hgw : w = g.candidates := by simpa [hw] using hc
    have hlt : i < s.segments.length := (List.getElem?_eq_some_iff.mp hg).1
    have hgm : g ∈ s.segments := List.mem_of_getElem? hg
    refine ⟨_, _, syncActiveSegment_some (s := { s with candidates := some v }) ha hg v, ?_,
      fun hn => absurd hn hs, fun x hx => ?_⟩
    · refine ⟨fun hn => absurd hn (by simpa using hs), fun _ => ?_, fun x hx => ?_, fun _ => ?_⟩
      · exact (segmentsTotal_set (k := { g with candidates := v }) hg rfl).trans (h.total hs)
      · rcases List.mem_or_eq_of_mem_set hx with hx | rfl
        · exact h.wellFormed x hx
        · obtain ⟨hp, -, hcs, hl⟩ := h.wellFormed g hgm
          exact ⟨hp, hsel, hcount _ (hgw ▸ hcs), hlive.trans (hgw ▸ hl)⟩
      · exact ⟨i, { g with candidates := v }, ha, by simp [hlt], rfl, rfl⟩
    · rcases List.mem_or_eq_of_mem_set hx with hx | rfl
      · exact .inl hx
      · exact .inr rfl

end

/-! The checkpoint after an advance. -/

theorem synced_uncut {s : CompositionSession} (h : s.recoveryCheckpoint = none) : Synced s where
  frame c hc := by simp [h] at hc
  unicode c hc := by simp [h] at hc
  secure c hc := by simp [h] at hc
  elements c hc := by simp [h] at hc

theorem Sound.synced_advanceRevision {s : CompositionSession} (h : Sound s) :
    Synced s.advanceRevision := by
  constructor
  · intro c hc
    unfold CompositionSession.advanceRevision at hc
    dsimp only at hc
    split at hc
    · cases hc
    · cases hc
      rfl
  · intro c hc
    unfold CompositionSession.advanceRevision at hc
    dsimp only at hc
    split at hc
    · cases hc
    · cases hc
      rfl
  · intro c hc
    unfold CompositionSession.advanceRevision at hc
    dsimp only at hc
    split at hc
    · cases hc
    · rename_i hs
      cases hc
      exact eq_false_of_ne_true hs
  · intro c hc hw
    unfold CompositionSession.advanceRevision at hc
    dsimp only at hc
    split at hc
    · cases hc
    · cases hc
      exact h.elements hw

end Hazkey
