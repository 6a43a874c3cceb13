import Hazkey.Framing

/-! The actions meet every relation that the small steps meet, those that may
commit if what a commit teaches the converter meets it. -/

namespace Hazkey

open ServiceProgram

set_option synthInstance.maxSize 800

variable [SwiftText] {R : ReducerRelation}

section

variable [Settles R]

instance : Prog.Frames R takeReconversionReplacementEffect := by
  unfold takeReconversionReplacementEffect
  refine .bind inferInstance fun s => ?_
  cases s.reconversionReplacement <;> infer_instance

instance (text : Text) :
    Prog.Frames R (appendCommittedText text) := by
  unfold appendCommittedText
  infer_instance

instance : Prog.Frames R clearPendingRevision := by
  unfold clearPendingRevision
  infer_instance

instance : Prog.Frames R refreshAfterEdit := by
  unfold refreshAfterEdit
  infer_instance

instance : Prog.Frames R preserveMaterializedLivePrefixForEditing := by
  unfold preserveMaterializedLivePrefixForEditing
  repeat' first | infer_instance | refine .bind inferInstance fun _ => ?_ | split

instance : Prog.Frames R normalizeAfterEditing := by
  unfold normalizeAfterEditing
  repeat' first | infer_instance | refine .bind inferInstance fun _ => ?_

instance : Prog.Frames R finishUnicodeInput := by
  unfold finishUnicodeInput
  infer_instance

instance (revision : UInt64) : Prog.Frames R (applyLiveConversion revision) := by
  unfold applyLiveConversion
  infer_instance

/-! Selection. -/

instance : Prog.Frames R startConversion := by
  unfold startConversion
  infer_instance

instance (c : CandidateSet) : Prog.Frames R (selectNavigated c) := by
  unfold selectNavigated
  infer_instance

instance (step : CandidateSet → Int) (message : String) :
    Prog.Frames R (navigateFrom step message) := by
  unfold navigateFrom
  repeat' first | infer_instance | refine .bind inferInstance fun _ => ?_ | split

instance (delta : Int) : Prog.Frames R (navigateCandidate delta) := by
  unfold navigateCandidate
  repeat' first | infer_instance | refine .bind inferInstance fun _ => ?_

instance (delta : Int) : Prog.Frames R (navigateCandidatePage delta) := by
  unfold navigateCandidatePage
  infer_instance

instance (id : Text) (generation : UInt64) :
    Prog.Frames R (selectCandidate id generation) := by
  unfold selectCandidate
  repeat' first | infer_instance | refine .bind inferInstance fun _ => ?_ | split

instance (id : Text) (generation : UInt64) :
    Prog.Frames R (forgetCandidate id generation) := by
  unfold forgetCandidate
  repeat' first | infer_instance | refine .bind inferInstance fun _ => ?_ | split

instance (delta : Int) : Prog.Frames R (moveActiveSegment delta) := by
  unfold moveActiveSegment
  repeat' first | infer_instance | refine .bind inferInstance fun _ => ?_ | split

instance (delta : Int) : Prog.Frames R (resizeLegacySegment delta) := by
  unfold resizeLegacySegment
  dsimp only
  repeat' first | infer_instance | refine .bind inferInstance fun _ => ?_ | split

instance (kept : List CompositionSegment) (suffix : List CompositionElement) (count : Nat)
    (left : Text) : Prog.Frames R (rebuildSegments kept suffix count left) := by
  unfold rebuildSegments
  repeat' first | infer_instance | refine .bind inferInstance fun _ => ?_ | split

instance (delta : Int) : Prog.Frames R (resizeSegment delta) := by
  unfold resizeSegment
  dsimp only
  infer_instance

instance : Prog.Frames R cancel := by
  unfold cancel
  repeat' first | infer_instance | refine .bind inferInstance fun _ => ?_ | split

/-! Transforms and Unicode input. -/

instance (transform : ImeTextTransform) (resolvedLearning : Bool) :
    Prog.Frames R (transformComposition transform resolvedLearning) := by
  unfold transformComposition
  dsimp only
  repeat' first | infer_instance | refine .bind inferInstance fun _ => ?_ | split

instance (transform : ImeTextTransform) (resolvedLearning : Bool) :
    Prog.Frames R (transformSelection transform resolvedLearning) := by
  unfold transformSelection
  dsimp only
  repeat' first | infer_instance | refine .bind inferInstance fun _ => ?_ | split

instance (transform : ImeTextTransform) :
    Prog.Frames R (transformActiveSegment transform) := by
  unfold transformActiveSegment
  infer_instance

instance (digit : Text) : Prog.Frames R (appendUnicodeDigit digit) := by
  unfold appendUnicodeDigit
  infer_instance

instance : Prog.Frames R commitUnicodeInput := by
  unfold commitUnicodeInput
  repeat' first | infer_instance | refine .bind inferInstance fun _ => ?_ | split

/-! Context and recovery. -/

instance (leftContext rightContext : Text) :
    Prog.Frames R (updateContext leftContext rightContext) := by
  unfold updateContext
  infer_instance

instance [RecoveryCodec] [Revives R] (data : Data) : Prog.Frames R (restoreCheckpoint data) := by
  unfold restoreCheckpoint
  repeat' first | infer_instance | refine .bind inferInstance fun _ => ?_ | split

instance : Prog.Frames R releasePresentation := by
  unfold releasePresentation
  infer_instance

end

section

variable [h : Admits R]

/-! The actions that may change the policy. -/

instance (provider : Option PinnedCompositionPolicy) :
    Prog.Frames R (pinCompositionPolicyIfNeeded provider) := by
  unfold pinCompositionPolicyIfNeeded
  cases provider <;> infer_instance

instance [Replaces R] (text leftContext rightContext : Text) (deleteBefore deleteAfter : Int)
    (provider : Option PinnedCompositionPolicy) : Prog.Frames R
      (reconvert text leftContext rightContext deleteBefore deleteAfter provider) := by
  unfold reconvert
  dsimp only
  repeat' first | infer_instance | refine .bind inferInstance fun _ => ?_ | split

instance (provider : Option PinnedCompositionPolicy) :
    Prog.Frames R (beginUnicodeInput provider) := by
  unfold beginUnicodeInput
  repeat' first | infer_instance | refine .bind inferInstance fun _ => ?_ | split

instance (event : ImeLifecycleEvent) : Prog.Frames R (lifecycle event) := by
  unfold lifecycle
  refine .bind inferInstance fun s => ?_
  cases event with
  | secureInputChanged flag =>
    dsimp only
    split
    · exact .bind inferInstance fun _ => .bind inferInstance fun _ =>
        h.transition flag _ inferInstance
    · infer_instance
  | deactivate =>
    dsimp only
    infer_instance
  | focusChanged =>
    dsimp only
    infer_instance
  | capabilityChanged flag =>
    dsimp only
    infer_instance
  | serverRestarted =>
    dsimp only
    infer_instance

end

section

variable [h : Teaches R]

/-! Commits and the edits that may end in one. -/

instance (candidates : List CandidateSnapshot) (origin : LearningOrigin) (reading : Text) :
    Prog.Frames R (learn candidates origin reading) := h.learn candidates origin reading

instance (origin : LearningOrigin) : Prog.Frames R (commitAll origin) := by
  unfold commitAll
  repeat' first | infer_instance | refine .bind inferInstance fun _ => ?_ | split

instance : Prog.Frames R finishInteractiveEdit := by
  unfold finishInteractiveEdit
  infer_instance

instance [Admits R] (text : Text) (provider : Option PinnedCompositionPolicy) :
    Prog.Frames R (insertText text provider) := by
  unfold insertText
  repeat' first | infer_instance | refine .bind inferInstance fun _ => ?_ | split

instance : Prog.Frames R deleteBackward := by
  unfold deleteBackward
  repeat' first | infer_instance | refine .bind inferInstance fun _ => ?_

instance : Prog.Frames R deleteForward := by
  unfold deleteForward
  infer_instance

instance : Prog.Frames R finishCursorMovement := by
  unfold finishCursorMovement
  infer_instance

instance (offset : Int) : Prog.Frames R (moveCursor offset) := by
  unfold moveCursor
  infer_instance

instance (move : CompositionBuffer → CompositionBuffer) :
    Prog.Frames R (moveCursorToEdge move) := by
  unfold moveCursorToEdge
  infer_instance

instance (count : Nat) (text : Text) (candidates : List CandidateSnapshot) (reading : Text) :
    Prog.Frames R (deliver count text candidates reading) := by
  unfold deliver
  repeat' first | infer_instance | refine .bind inferInstance fun _ => ?_

instance (committed : List CompositionSegment) (reading : Text) :
    Prog.Frames R (commitSegments committed reading) := by
  unfold commitSegments
  dsimp only
  repeat' first | infer_instance | refine .bind inferInstance fun _ => ?_ | split

instance (candidate : CandidateSnapshot) (reading : Text) :
    Prog.Frames R (commitCandidate candidate reading) := by
  unfold commitCandidate
  dsimp only
  repeat' first | infer_instance | refine .bind inferInstance fun _ => ?_ | split

instance : Prog.Frames R commitSelectedCandidate := by
  unfold commitSelectedCandidate
  repeat' first | infer_instance | refine .bind inferInstance fun _ => ?_ | split

instance [RecoveryCodec] [Admits R] [Replaces R] [Revives R] (action : ImeAction)
    (provider : Option PinnedCompositionPolicy) : Prog.Frames R (perform action provider) := by
  cases action <;> (dsimp only [perform]; infer_instance)

end

end Hazkey
