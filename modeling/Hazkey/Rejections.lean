import Hazkey.Evaluation

/-! A rejected request changes nothing, but for the exits that drop the live
presentation before their guard. -/

namespace Hazkey

open ServiceProgram

attribute [local instance] scalarText byteCodec

section

variable [SwiftText] [RecoveryCodec] {r r' : ImeReducer} {t : List ConverterEvent}
  {action : ImeAction} {requestID : Text} {expectedRevision : Option UInt64}
  {provider : Option PinnedCompositionPolicy} {result : ImeReductionResult}

omit [SwiftText] [RecoveryCodec] in
/-- A step that allocates no identifier has no effect. -/
theorem Counted.effects_nil {s u : CompositionSession} {effects : List ClientEffect}
    (h : Counted s effects u) (he : u.nextEffectID = s.nextEffectID) : effects = [] := by
  have hn := h.numbered.next_eq
  have hle := h.length_le
  have hz : UInt64.ofNat effects.length = 0 := by
    have hcancel : s.nextEffectID + UInt64.ofNat effects.length = s.nextEffectID + 0 := by
      rw [← hn, he, UInt64.add_zero]
    exact (UInt64.add_right_inj _).mp hcancel
  have hlen : effects.length = 0 := by
    have hnat := congrArg UInt64.toNat hz
    rw [UInt64.toNat_ofNat_of_lt' (lt_of_le_of_lt hle (by decide))] at hnat
    exact hnat
  exact List.length_eq_zero_iff.mp hlen

/-- The actions that drop the live presentation before their guard. -/
def ImeAction.dropsPresentation : ImeAction → Prop
  | .forgetCandidate _ _ | .navigateCandidate _ | .navigateCandidatePage _ => True
  | _ => False

omit [SwiftText] [RecoveryCodec] in
theorem clearLivePresentation_eq {s : CompositionSession} (h : s.livePresentation = .empty) :
    s.clearLivePresentation = s := by
  rw [CompositionSession.clearLivePresentation, ← h]

theorem Moved.rejected {P : Promise} {s u : CompositionSession} {status : ImeReductionStatus}
    (h : Moved P s action status u) (hs : status.Rejects)
    (hl : action.dropsPresentation → s.livePresentation = .empty) : u = s := by
  cases h with
  | kept h => exact h
  | advanced hn => exact absurd hs hn
  | restored hn => exact absurd hs hn
  | rested hn => exact absurd hs hn
  | undone h =>
    cases h with
    | forgetSecure => exact hs.elim
    | forgetStale => exact clearLivePresentation_eq (hl trivial)
    | page => exact clearLivePresentation_eq (hl trivial)
    | navigate => exact clearLivePresentation_eq (hl trivial)
    | convert => exact hs.elim
    | transform => exact hs.elim
    | resize => exact hs.elim
    | live => exact hs.elim

/-- A rejection that is not repeated from the cache leaves the session as it was
and shows it as it was. -/
theorem rejection_atomic (h : Reachable r)
    (hY : (reduce action requestID expectedRevision provider).Yields r t result r')
    (hs : result.status.Rejects)
    (hn : ¬ Replayed r action requestID expectedRevision result)
    (hl : action.dropsPresentation → r.session.livePresentation = .empty) :
    r'.session = r.session ∧
      (∃ shown, result.snapshot = r.session.snapshotShowing shown []) ∧
      ∀ d, DisplaysAs (Seen t) d → result.snapshot = r.session.snapshotUnder d [] := by
  have hheld := h.held
  obtain ⟨-, ⟨-, hr⟩ | ⟨ho, -⟩⟩ := reduce_outcome hheld.coherent hheld.synced hY
  · exact absurd hr hn
  obtain ⟨hstep, ⟨shown, hshown⟩, hdisplay⟩ := ho
  have hu : r'.session = r.session := hstep.moved.rejected hs hl
  have he : result.snapshot.effects = [] := by
    rcases hstep.counted with hc | ⟨he, -⟩
    · exact hc.effects_nil (congrArg (·.nextEffectID) hu)
    · exact he
  rw [he, hu] at hshown
  refine ⟨hu, ⟨shown, hshown⟩, fun d hd => ?_⟩
  have hsnap := hdisplay d hd
  rwa [he, hu] at hsnap

end

/-- A rejected request, and another one in between. -/
def replayedRejectionCalls : List ReducerCall :=
  [request (.insertText []) "1", request (.insertText ['a']) "2"]

/-- The policy of live conversion after a delay. -/
def livePolicy : PinnedCompositionPolicy :=
  { PinnedCompositionPolicy.standard with autoConvertMode := .always }

/-- A repeated rejection shows the session as it was when it was first rejected,
and paging drops the live presentation before it is rejected. -/
theorem rejections_not_atomic :
    (let r := (evaluate .standard replayedRejectionCalls).2.2
      ∃ t result r', Reachable r ∧
        (reduce (.insertText []) "1".toList none none).Yields r t result r' ∧
        result.status = .invalidAction ∧ ∀ shown, result.snapshot ≠
          r.session.snapshotShowing shown []) ∧
    (let r := (evaluate livePolicy [request (.insertText ['a']) "1"]).2.2
      ∃ t result r', Reachable r ∧
        (reduce (.navigateCandidatePage 1) "2".toList none none).Yields r t result r' ∧
        result.status = .invalidAction ∧ r'.session ≠ r.session) := by
  have hrevision : ((reduce (.insertText []) "1".toList none none).exec stagingConverter 0
      (evaluate .standard replayedRejectionCalls).2.2).1.snapshot.revision ≠
        (evaluate .standard replayedRejectionCalls).2.2.session.revision := by decide +kernel
  exact ⟨⟨_, _, _, evaluate_reachable _ _, Prog.exec_yields stagingConverter _ 0 _,
      by decide +kernel, fun shown h => hrevision (congrArg (·.revision) h)⟩,
    ⟨_, _, _, evaluate_reachable _ _, Prog.exec_yields stagingConverter _ 0 _, by decide +kernel,
      by decide +kernel⟩⟩

/-- A forward deletion in Unicode input. -/
theorem rejection_atomic_deletion :
    let r := (evaluate .standard [request .beginUnicodeInput "1"]).2.2
    ∃ t result r', (reduce .deleteForward "2".toList none none).Yields r t result r' ∧
      result.status = .invalidAction ∧ r'.session = r.session := by
  have hY := Prog.exec_yields stagingConverter (reduce .deleteForward "2".toList none none) 0
    (evaluate .standard [request .beginUnicodeInput "1"]).2.2
  refine ⟨_, _, _, hY, by decide +kernel, (rejection_atomic (evaluate_reachable _ _) hY ?_ ?_ ?_).1⟩
  · have hs : ((reduce .deleteForward "2".toList none none).exec stagingConverter 0
        (evaluate .standard [request .beginUnicodeInput "1"]).2.2).1.status = .invalidAction := by
      decide +kernel
    rw [hs]
    trivial
  · rintro ⟨entry, hl, -⟩
    have hnone : (evaluate .standard [request .beginUnicodeInput "1"]).2.2.requestCache.lookup
        "2".toList = none := by decide +kernel
    rw [hnone] at hl
    cases hl
  · exact fun h => h.elim

end Hazkey
