import Hazkey.HybridEvaluation
import Hazkey.MozcAdapter

/-! What the adapter of the Mozc core answers: one segment, before it the dictionaries. -/

namespace Hazkey

open FirstOccurrences CompositionSurface ComposingRuntime

section

variable [RubyText] {overlay : MozcDictionaryCandidateOverlay} {reading : Text} {n : Int}
  {candidates : List ConverterCandidate} {x : ConverterCandidate}

theorem distinctTexts_nodup :
    ((distinctTexts candidates).map fun x => CanonicalText.precomposed x.text).Nodup :=
  firsts_keys_nodup

theorem mem_of_mem_distinctTexts (h : x ∈ distinctTexts candidates) : x ∈ candidates :=
  mem_firsts h

/-- What is distinct already stays at the head. -/
theorem distinctTexts_append (candidates others : List ConverterCandidate) :
    ∃ rest, distinctTexts (distinctTexts candidates ++ others) =
      distinctTexts candidates ++ rest ∧ ∀ x ∈ rest, x ∈ others := by
  have hsame : distinctTexts (distinctTexts candidates) = distinctTexts candidates :=
    firsts_eq_self.mpr distinctTexts_nodup
  refine ⟨firsts (fun x => CanonicalText.precomposed x.text)
    ((distinctTexts candidates).map (fun x => CanonicalText.precomposed x.text) ++ []) others, ?_,
    fun x hx => mem_firsts hx⟩
  show firsts (fun x => CanonicalText.precomposed x.text) [] (distinctTexts candidates ++ others) = _
  rw [firsts_append]
  exact congrArg (· ++ _) hsame

def CandidateProvenance.ofDictionary : CandidateProvenance → Bool
  | .projectDictionary | .personalDictionary | .temporaryDictionary => true
  | _ => false

/-- Nothing of a layer that the converter has itself. -/
theorem overlay_provenance (h : x ∈ overlay.candidates reading n) :
    x.provenance.ofDictionary = true := by
  rcases List.mem_append.mp (mem_of_mem_distinctTexts h) with hproject | huser
  · obtain ⟨indexed, -, rfl⟩ := List.mem_map.mp hproject
    rfl
  · obtain ⟨entry, hentry, rfl⟩ := List.mem_map.mp huser
    obtain ⟨⟨ruby, entry⟩, hmem, rfl⟩ := List.mem_map.mp hentry
    have hlayer : entry.layer = .personal ∨ entry.layer = .temporary :=
      overlay.userIndex.layers _ (List.mem_of_mem_filter hmem)
    show (MozcDictionaryCandidateOverlay.provenance entry.layer).ofDictionary = true
    rcases hlayer with hlayer | hlayer
    · rw [hlayer]
      rfl
    · rw [hlayer]
      rfl

theorem overlay_consuming (h : x ∈ overlay.candidates reading n) :
    x.consumingCount = max 1 n := by
  rcases List.mem_append.mp (mem_of_mem_distinctTexts h) with hproject | huser
  · obtain ⟨indexed, -, rfl⟩ := List.mem_map.mp hproject
    rfl
  · obtain ⟨entry, -, rfl⟩ := List.mem_map.mp huser
    rfl

/-- The entries of the project, by descending priority. -/
theorem projectEntries_sorted (overlay : MozcDictionaryCandidateOverlay) (reading : Text) :
    (overlay.projectEntries reading).Pairwise fun left right =>
      right.entry.priority ≤ left.entry.priority := by
  unfold MozcDictionaryCandidateOverlay.projectEntries
  have : Std.Total fun left right : IndexedEntry => left.entry.priority > right.entry.priority ∨
      left.entry.priority = right.entry.priority ∧ left.order ≤ right.order :=
    ⟨fun left right => by omega⟩
  have : IsTrans IndexedEntry fun left right => left.entry.priority > right.entry.priority ∨
      left.entry.priority = right.entry.priority ∧ left.order ≤ right.order :=
    ⟨fun left middle right => by omega⟩
  refine (List.pairwise_insertionSort _ _).imp fun {left right} h => ?_
  omega

theorem guard_provenance (h : x ∈ GrimodexBuiltInGuardDictionary.candidates reading n) :
    x.provenance = .builtInGuard ∧ x.consumingCount = max 1 n := by
  obtain ⟨entry, -, rfl⟩ := List.mem_map.mp h
  exact ⟨rfl, rfl⟩

/-- Without entries no dictionary has one for a reading. -/
theorem hasEntries_of_isEmpty (h : overlay.isEmpty = true) : overlay.hasEntries reading = false := by
  simp only [MozcDictionaryCandidateOverlay.isEmpty, Bool.and_eq_true, decide_eq_true_eq] at h
  simp [MozcDictionaryCandidateOverlay.hasEntries,
    GrimodexProjectDictionaryIndex.entriesForRuby, UserDictionaryCandidateIndex.entriesForRuby,
    h.1, h.2]

end

namespace MozcKanaKanjiConverterAdapter

variable {E : Type} [RubyText] [SwiftText] [ComposingRuntime]

/-- The dictionary entries of the reading come first, each text once and those of the project
by descending priority. -/
def DictionariesFirst (overlay : MozcDictionaryCandidateOverlay) (reading : Text) (c : Int)
    (limit : Nat) (output : List ConverterCandidate) : Prop :=
  ∃ (project : List IndexedEntry) (rest : List ConverterCandidate),
    project.Perm (overlay.projectIndex.entriesForRuby (canonicalRuby reading)) ∧
      (project.Pairwise fun left right => right.entry.priority ≤ left.entry.priority) ∧
      output = (distinctTexts
        (project.map (MozcDictionaryCandidateOverlay.projectCandidate c) ++
          (overlay.userIndex.entriesForRuby (canonicalRuby reading)).map
            (MozcDictionaryCandidateOverlay.userCandidate c))).take limit ++ rest ∧
      ∀ x ∈ rest, x.provenance.ofDictionary = false

/-- An answer for one segment of a composition. -/
structure Respects (adapter : MozcKanaKanjiConverterAdapter E) (composition : CompositionInput)
    (target : Option Int) (limit c : Int) (result : MozcCoreConversion)
    (output : List ConverterCandidate) : Prop where
  answered : adapter.core (convertTarget (adapter.composing composition)) target limit = .ok result
  targeted : ∀ size, target = some size → size = result.segmentKeySize
  bounded : (output.length : Int) ≤ limit
  distinct : (output.map fun x => CanonicalText.precomposed x.text).Nodup
  consuming : ∀ x ∈ output, x.consumingCount = c
  positive : 1 ≤ c
  within : c ≤ ComposingRuntime.inputCount (adapter.composing composition)
  stable : ⟨c, result.segmentKeySize⟩ ∈ stableKeySizeBoundaries (adapter.composing composition)
  last : ∀ m, ⟨m, result.segmentKeySize⟩ ∈
    stableKeySizeBoundaries (adapter.composing composition) → m ≤ c
  dictionaries : DictionariesFirst adapter.overlay
    ((convertTarget (adapter.composing composition)).take result.segmentKeySize.toNat) c
    limit.toNat output
  protects : ∀ x ∈ output, x.provenance = .standard →
    ProtectedSurfacePolicy.changesProtectedSurface x.text
      ((convertTarget (adapter.composing composition)).take result.segmentKeySize.toNat) = false

variable {adapter : MozcKanaKanjiConverterAdapter E} {composition : CompositionInput}
  {options : ConversionOptions} {output : ConversionOutput} {target : Option Int}

omit [RubyText] [SwiftText] [ComposingRuntime] in
theorem mappedCandidate_ok {size n : Int} {item : MozcCoreCandidate} {x : ConverterCandidate}
    (h : mappedCandidate (E := E) size n item = .ok x) :
    x.provenance = .standard ∧ x.consumingCount = max 1 n := by
  unfold mappedCandidate at h
  split at h
  · obtain rfl := Except.ok.inj h
    exact ⟨rfl, rfl⟩
  · cases h

omit [RubyText] [SwiftText] [ComposingRuntime] in
theorem mapped_of_core {size n : Int} {items : List MozcCoreCandidate}
    {mapped : List ConverterCandidate}
    (h : (items.mapM (mappedCandidate (E := E) size n)) = .ok mapped) :
    ∀ x ∈ mapped, x.provenance = .standard ∧ x.consumingCount = max 1 n := by
  induction items generalizing mapped with
  | nil =>
    obtain rfl := Except.ok.inj h
    simp
  | cons item items ih =>
    rw [List.mapM_cons] at h
    cases hitem : mappedCandidate (E := E) size n item with
    | error e =>
      rw [hitem] at h
      cases h
    | ok x =>
      cases hrest : items.mapM (mappedCandidate (E := E) size n) with
      | error e =>
        rw [hitem, hrest] at h
        cases h
      | ok rest =>
        rw [hitem, hrest] at h
        obtain rfl := Except.ok.inj h
        exact List.forall_mem_cons.mpr ⟨mappedCandidate_ok hitem, ih hrest⟩

omit [SwiftText] [ComposingRuntime] in
/-- The four sources of candidates, in their order. -/
theorem merged_cases (overlay : MozcDictionaryCandidateOverlay) (reading : Text) (n : Int)
    (mapped : List ConverterCandidate) :
    ∃ rest, mergedCandidates overlay reading n mapped = overlay.candidates reading n ++ rest ∧
      ∀ x ∈ rest, x ∈ GrimodexBuiltInGuardDictionary.candidates reading n ∨
        x ∈ mapped ∧ ProtectedSurfacePolicy.allows x reading = true := by
  unfold mergedCandidates
  rw [List.append_assoc]
  obtain ⟨rest, heq, hmem⟩ := distinctTexts_append (overlay.offered reading n)
    (GrimodexBuiltInGuardDictionary.candidates reading n ++
      mapped.filter fun x => ProtectedSurfacePolicy.allows x reading)
  refine ⟨rest, heq, fun x hx => ?_⟩
  rcases List.mem_append.mp (hmem x hx) with hguard | hmapped
  · exact .inl hguard
  · exact .inr (List.mem_filter.mp hmapped)

omit [SwiftText] [ComposingRuntime] in
theorem merged_respects (overlay : MozcDictionaryCandidateOverlay) {reading : Text}
    {n limit : Int} {mapped output : List ConverterCandidate} (hn : 1 ≤ n) (hlimit : 1 ≤ limit)
    (hmapped : ∀ x ∈ mapped, x.provenance = .standard ∧ x.consumingCount = max 1 n)
    (h : output = (mergedCandidates overlay reading n mapped).take limit.toNat) :
    (output.length : Int) ≤ limit ∧
      (output.map fun x => CanonicalText.precomposed x.text).Nodup ∧
      (∀ x ∈ output, x.consumingCount = n) ∧
      DictionariesFirst overlay reading n limit.toNat output ∧
      ∀ x ∈ output, x.provenance = .standard →
        ProtectedSurfacePolicy.changesProtectedSurface x.text reading = false := by
  obtain ⟨rest, hmerged, hrest⟩ := merged_cases overlay reading n mapped
  have hcount : max 1 n = n := by omega
  have hmem (x : ConverterCandidate) (hx : x ∈ output) :
      x ∈ overlay.candidates reading n ∨ x ∈ rest := by
    rw [h, hmerged] at hx
    exact List.mem_append.mp (List.mem_of_mem_take hx)
  refine ⟨?_, ?_, fun x hx => ?_, ?_, fun x hx hstandard => ?_⟩
  · rw [h, List.length_take]
    omega
  · rw [h, List.map_take]
    exact (List.take_sublist _ _).nodup distinctTexts_nodup
  · rcases hmem x hx with hoverlay | hx
    · exact (overlay_consuming hoverlay).trans hcount
    rcases hrest x hx with hguard | ⟨hx, -⟩
    · exact (guard_provenance hguard).2.trans hcount
    · exact (hmapped x hx).2.trans hcount
  · refine ⟨overlay.projectEntries reading, rest.take (limit.toNat -
      (overlay.candidates reading n).length), List.perm_insertionSort _ _,
      projectEntries_sorted overlay reading, ?_, fun x hx => ?_⟩
    · rw [h, hmerged, List.take_append]
      rfl
    · rcases hrest x (List.mem_of_mem_take hx) with hguard | ⟨hx, -⟩
      · rw [(guard_provenance hguard).1]
        rfl
      · rw [(hmapped x hx).1]
        rfl
  · rcases hmem x hx with hoverlay | hx
    · have hdictionary := overlay_provenance hoverlay
      rw [hstandard] at hdictionary
      cases hdictionary
    rcases hrest x hx with hguard | ⟨-, hallows⟩
    · rw [(guard_provenance hguard).1] at hstandard
      cases hstandard
    · unfold ProtectedSurfacePolicy.allows at hallows
      rw [hstandard] at hallows
      simpa using hallows

/-- What is asked of the core is answered for one segment. -/
theorem conversionOutput_respects
    (h : adapter.conversionOutput composition (convertTarget (adapter.composing composition))
      target options = .ok output) :
    ∃ c result, adapter.Respects composition target
      (clampSuggestionListLimit options.suggestionListLimit) c result output.candidates := by
  unfold conversionOutput at h
  dsimp only at h
  cases hcore : adapter.core (convertTarget (adapter.composing composition)) target
      (clampSuggestionListLimit options.suggestionListLimit) with
  | error e =>
    rw [hcore] at h
    cases h
  | ok result =>
    rw [hcore] at h
    dsimp only at h
    split at h
    · cases h
    rename_i n hcount
    split at h
    · cases h
    rename_i htarget
    cases hmapped : result.candidates.mapM (mappedCandidate (E := E) result.segmentKeySize n) with
    | error e =>
      rw [hmapped] at h
      cases h
    | ok mapped =>
      rw [hmapped] at h
      obtain rfl := Except.ok.inj h
      split at hcount
      case isFalse => cases hcount
      rename_i hsize
      obtain ⟨hstable, hlast⟩ := inputCount_greatest hcount
      have hpos : 1 ≤ n := boundary_pos hstable hsize
      have hlimit : 1 ≤ clampSuggestionListLimit options.suggestionListLimit := by
        unfold clampSuggestionListLimit
        omega
      obtain ⟨hbounded, hdistinct, hconsuming, hfirst, hprotects⟩ :=
        merged_respects adapter.overlay hpos hlimit (mapped_of_core hmapped) rfl
      refine ⟨n, result, hcore, fun size hsize => ?_, hbounded, hdistinct, hconsuming, hpos,
        (boundary_bounds hstable).2, hstable, hlast, hfirst, hprotects⟩
      rw [hsize] at htarget
      simpa using htarget

/-- The longest prefix that ends at a boundary and has an entry is the segment. -/
def LongestEntry (adapter : MozcKanaKanjiConverterAdapter E) (composition : CompositionInput)
    (reading : Text) (size : Int) : Prop :=
  ∀ b ∈ stableKeySizeBoundaries (adapter.composing composition), 0 < b.keySize →
    adapter.overlay.hasEntries (reading.take b.keySize.toNat) = true →
      adapter.overlay.hasEntries (reading.take size.toNat) = true ∧ b.keySize ≤ size

theorem preferred_longest {reading : Text} {size : Int}
    (h : ∀ n, adapter.preferredOverlayTargetKeySize composition reading = some n → n = size)
    (helements : composition.elements ≠ []) : adapter.LongestEntry composition reading size := by
  intro b hb hsize hentries
  have hmem : b.keySize ∈ adapter.entrySizes composition reading := by
    refine List.mem_map.mpr ⟨b, List.mem_filter.mpr ⟨hb, ?_⟩, rfl⟩
    simp [hsize, hentries]
  have hoverlay : adapter.overlay.isEmpty ≠ true := by
    intro hempty
    rw [hasEntries_of_isEmpty hempty] at hentries
    cases hentries
  obtain ⟨n, hn⟩ : ∃ n, (adapter.entrySizes composition reading).max? = some n := by
    cases hmax : (adapter.entrySizes composition reading).max? with
    | none =>
      rw [List.max?_eq_none_iff.mp hmax] at hmem
      cases hmem
    | some n => exact ⟨n, rfl⟩
  have hpreferred : adapter.preferredOverlayTargetKeySize composition reading = some n := by
    unfold preferredOverlayTargetKeySize
    rw [if_neg (by simp [helements, hoverlay]), hn]
  obtain rfl := h n hpreferred
  obtain ⟨hlongest, hmax⟩ := List.max?_eq_some_iff.mp hn
  obtain ⟨b', hb', heq⟩ := List.mem_map.mp hlongest
  have hchecked := (List.mem_filter.mp hb').2
  rw [heq, Bool.and_eq_true] at hchecked
  exact ⟨hchecked.2, hmax _ hmem⟩

omit [RubyText] [SwiftText] [ComposingRuntime] in
theorem requestedInputCount_bounds (h : composition.elements ≠ []) :
    min (max (requestedInputCount composition) 0) composition.elements.length =
      requestedInputCount composition := by
  have hlength : 0 < composition.elements.length := List.length_pos_iff.mpr h
  unfold requestedInputCount
  omega

/-- What the adapter answers is for one segment: of the requested size, or the longest that a
dictionary has. -/
theorem adapter_respects (adapter : MozcKanaKanjiConverterAdapter E)
    (composition : CompositionInput) (options : ConversionOptions) :
    (∀ output, adapter.candidates composition options = .ok output → output.candidates ≠ [] →
      ∃ c target result, adapter.Respects composition target
        (clampSuggestionListLimit options.suggestionListLimit) c result output.candidates ∧
        ⟨requestedInputCount composition, result.segmentKeySize⟩ ∈
          stableKeySizeBoundaries (adapter.composing composition) ∧
        (c = requestedInputCount composition ↔ ∀ m, ⟨m, result.segmentKeySize⟩ ∈
          stableKeySizeBoundaries (adapter.composing composition) →
            m ≤ requestedInputCount composition)) ∧
    (∀ output, adapter.segmentCandidates composition options = .ok output →
      output.candidates ≠ [] →
      ∃ c target result, adapter.Respects composition target
        (clampSuggestionListLimit options.suggestionListLimit) c result output.candidates ∧
        adapter.LongestEntry composition (convertTarget (adapter.composing composition))
          result.segmentKeySize) ∧
    ((∀ element ∈ composition.elements, CompositionElement.single element) →
      ComposingRuntime.inputCount (adapter.composing composition) =
        composition.elements.length) := by
  refine ⟨fun output h hne => ?_, fun output h hne => ?_, inputCount_composingText⟩
  · unfold candidates at h
    split at h
    · obtain rfl := Except.ok.inj h
      exact absurd rfl hne
    rename_i hguard
    have helements : composition.elements ≠ [] := fun hnil => hguard (.inr (.inl hnil))
    split at h
    · cases h
    rename_i size hsize
    split at h
    case isFalse => cases h
    obtain ⟨c, result, hrespects⟩ := conversionOutput_respects h
    have hstable := keySize_mem hsize
    rw [requestedInputCount_bounds helements, hrespects.targeted size rfl] at hstable
    refine ⟨c, some size, result, hrespects, hstable, ?_, fun hlast => ?_⟩
    · intro heq m hm
      exact heq ▸ hrespects.last m hm
    · exact le_antisymm (hlast c hrespects.stable) (hrespects.last _ hstable)
  · unfold segmentCandidates at h
    split at h
    · obtain rfl := Except.ok.inj h
      exact absurd rfl hne
    rename_i hguard
    have helements : composition.elements ≠ [] := fun hnil => hguard (.inr (.inl hnil))
    obtain ⟨c, result, hrespects⟩ := conversionOutput_respects h
    exact ⟨c, _, result, hrespects, preferred_longest hrespects.targeted helements⟩

end MozcKanaKanjiConverterAdapter

/-! Inputs of which one renders nothing, and an element of two inputs. -/

section

attribute [local instance] scalarText

/-- The runtime of texts that are their own normal forms, in katakana. -/
@[reducible] def plainRuby : RubyText where
  precomposed t := t
  compatibility t := t
  toKatakana t := t

/-- Of an input that is a q nothing is seen. -/
def renderedInput (input : Text) : Text := if input = ['q'] then [] else input

def renderedInputs (inputs : List Text) : Text := (inputs.map renderedInput).flatten

def surfaceAfter (inputs : List Text) (n : Nat) : Sigma fun _ : Int => Int :=
  ⟨n, characterCount (renderedInputs (inputs.take n))⟩

theorem length_noInputs : ([] : List Text).length = 0 := rfl

theorem length_insertedText : ∀ (inputs : List Text) (text : Text) (_ : InputStyle),
    (inputs ++ SwiftText.characters text).length = inputs.length + characterCount text :=
  fun _ _ _ => List.length_append

theorem length_insertedKey : ∀ (inputs : List Text) (intention _input : Text) (_ : InputStyle),
    (inputs ++ [intention]).length = inputs.length + 1 := fun _ _ _ _ => List.length_append

@[reducible] def plainRuntime : ComposingRuntime where
  ComposingText := List Text
  empty := []
  insertText inputs text _ := inputs ++ SwiftText.characters text
  insertKey inputs intention _ _ := inputs ++ [intention]
  inputCount := List.length
  convertTarget := renderedInputs
  inputIndexToSurfaceIndexMap inputs :=
    ((List.range (inputs.length + 1)).map (surfaceAfter inputs)).toAList
  inputCount_empty := length_noInputs
  inputCount_insertText := length_insertedText
  inputCount_insertKey := length_insertedKey
  convertTarget_empty inputs h := by
    rw [List.length_eq_zero_iff.mp h]
    rfl
  surface_zero inputs n h := by
    have hmem : (⟨0, n⟩ : Sigma fun _ : Int => Int) ∈
        (List.range (inputs.length + 1)).map (surfaceAfter inputs) := by
      refine List.of_mem_dlookup ?_
      rw [← List.dlookup_dedupKeys]
      exact h
    obtain ⟨i, -, hi⟩ := List.mem_map.mp hmem
    simp only [surfaceAfter, Sigma.mk.injEq, heq_eq_eq] at hi
    obtain ⟨hzero, rfl⟩ := hi
    obtain rfl : i = 0 := by omega
    rfl

attribute [local instance] plainRuby plainRuntime

open MozcKanaKanjiConverterAdapter

/-- A core that converts the whole reading, or what is asked for, to one candidate. -/
def echoingCore : MozcKanaKanjiConverterAdapter Unit where
  core reading target _ :=
    .ok ⟨[⟨"蚊".toList, none, target.getD reading.length⟩], target.getD reading.length⟩

def directElement (text : String) : CompositionElement :=
  .make text.toList 1 .direct none none

def directComposition (texts : List String) (targetCount : Option Nat) : CompositionInput where
  elements := texts.map directElement
  cursor := texts.length
  leftContext := []
  targetCount := targetCount

def plainOptions : ConversionOptions := ⟨false, false, false, [], [], .disabled, 9⟩

theorem adapter_respects_kana :
    ∃ output, echoingCore.segmentCandidates (directComposition ["か", "き"] none) plainOptions =
        .ok output ∧ output.candidates ≠ [] ∧
      ∃ c target result, echoingCore.Respects (directComposition ["か", "き"] none) target 9 c result
        output.candidates := by
  have hanswer : ((echoingCore.segmentCandidates (directComposition ["か", "き"] none)
      plainOptions).toOption.any fun output => output.candidates ≠ []) = true := by
    decide +kernel
  obtain ⟨output, houtput, hne⟩ := (Option.any_eq_true ..).mp hanswer
  cases hok : echoingCore.segmentCandidates (directComposition ["か", "き"] none) plainOptions with
  | error e =>
    rw [hok] at houtput
    cases houtput
  | ok answer =>
    rw [hok] at houtput
    obtain rfl := Option.some.inj houtput
    have hne : answer.candidates ≠ [] := by simpa using hne
    obtain ⟨c, target, result, hrespects, -⟩ := (adapter_respects echoingCore
      (directComposition ["か", "き"] none) plainOptions).2.1 answer hok hne
    exact ⟨answer, rfl, hne, c, target, result, hrespects⟩

/-- One input is asked for, and two are consumed; and one element, and two inputs are
consumed. -/
theorem requested_and_consumed :
    stableKeySizeBoundaries (echoingCore.composing (directComposition ["か", "q"] (some 1))) =
        [⟨0, 0⟩, ⟨1, 1⟩, ⟨2, 1⟩] ∧
      ((echoingCore.candidates (directComposition ["か", "q"] (some 1)) plainOptions).toOption.map
        fun output => output.candidates.map (·.consumingCount)) = some [2] ∧
      requestedInputCount (directComposition ["か", "q"] (some 1)) = 1 ∧
      ((echoingCore.segmentCandidates (directComposition ["かき"] none) plainOptions).toOption.map
        fun output => output.candidates.map (·.consumingCount)) = some [2] ∧
      (directComposition ["かき"] none).elements.length = 1 := by
  refine ⟨by decide +kernel, by decide +kernel, by decide +kernel, by decide +kernel, rfl⟩

end

end Hazkey
