import Hazkey.ClientEvaluation
import Hazkey.KeyEvents

/-! The candidates a key selects, and the page of the list that is on show. -/

namespace Hazkey.SessionClient

open ServiceProgram

/-- The page the cursor is on; none if the cursor is before the list. -/
def CandidateList.page (l : CandidateList) : List CandidateSnapshot :=
  if l.globalCursorIndex.getD 0 < 0 then []
  else
    (l.items.drop (l.globalCursorIndex.getD 0 / l.pageSize * l.pageSize).toNat).take
      l.pageSize.toNat

/-- The page that is on show. -/
def shownPage (snapshot : ShownSnapshot) : List CandidateSnapshot :=
  ((candidateList snapshot).map (·.page)).getD []

def Action.selects : Action → Bool
  | .other field _ => field = 22
  | _ => false

def FrontendRequest.selects : FrontendRequest → Bool
  | .transacts action => action.selects
  | _ => false

instance : Notable FrontendRequest.selects where
  client _ := rfl
  quiet c hc := by
    cases c with
    | transacts => cases hc
    | _ => rfl

def FrontendRequest.selection : FrontendRequest → Option Action
  | .transacts action => if action.selects = true then some action else none
  | _ => none

/-- The selections that were handed to the session client. -/
def selections (t : List FrontEvent) : List Action := t.filterMap fun e => e.call.selection

@[simp] theorem selections_append (t t' : List FrontEvent) :
    selections (t ++ t') = selections t ++ selections t' := List.filterMap_append

variable {s s' : HazkeyState} {t : List FrontEvent}

theorem Without.selections (h : Without FrontendRequest.selects s t s') : selections t = [] := by
  refine List.filterMap_eq_nil_iff.mpr fun e he => ?_
  have hno := h e he
  cases hc : e.call with
  | transacts action =>
    rw [hc] at hno
    simp [FrontendRequest.selection, show action.selects = false from hno]
  | _ => rfl

theorem selections_of_frames {α : Type} {p : FrontM α} {a : α}
    [hp : Prog.Frames (Without FrontendRequest.selects) p] (h : p.Yields s t a s') :
    selections t = [] := (hp.frame _ _ _ _ h).selections

theorem performs_unselecting [WireCodec] {action : Action} (ha : action.selects = false) :
    Performs (Without FrontendRequest.selects) action := performs_without ha

/-- No key but a selection key selects. -/
theorem dispatchedAction_selects {action : HazkeySemanticAction} {insertedText : Text}
    {dispatched : Action} (h : dispatchedAction action insertedText = some dispatched) :
    dispatched.selects = false := by
  unfold dispatchedAction at h
  split at h
  all_goals first
    | (obtain rfl := Option.some.inj h; rfl)
    | cases h

theorem reconversion_selects {surrounding : SurroundingText} {action : Action}
    (h : reconversion surrounding = some action) : action.selects = false := by
  unfold reconversion at h
  split at h
  · cases h
  · split at h
    · cases h
    · obtain rfl := Option.some.inj h
      rfl

section

variable [WireCodec] [EffectCodec]

instance (action : HazkeySemanticAction) (insertedText : Text) :
    Prog.Frames (Without FrontendRequest.selects) (dispatchV2 action insertedText) :=
  frames_dispatchV2 fun _ hd => performs_unselecting (dispatchedAction_selects hd)

instance : Prog.Frames (Without FrontendRequest.selects) updateSurroundingTextV2 :=
  frames_updateSurroundingTextV2 fun _ => performs_unselecting rfl

instance (index : Int) : Prog.Frames (Without FrontendRequest.selects) (forgetV2Candidate index) :=
  frames_transactCandidate fun _ _ => performs_unselecting rfl

instance : Prog.Frames (Without FrontendRequest.selects) reconvertV2Selection :=
  frames_reconvertV2Selection fun _ _ h => performs_unselecting (reconversion_selects h)

instance (before : ShownSnapshot) :
    Prog.Frames (Without FrontendRequest.selects) (passThrough before) := by
  have hfilter : Prog.Frames (Without FrontendRequest.selects) (request .filter) :=
    without_request rfl
  unfold passThrough
  infer_instance

instance (action : HazkeySemanticAction) (before : ShownSnapshot) (succeeded : Bool) :
    Prog.Frames (Without FrontendRequest.selects) (concludeKey action before succeeded) := by
  have hfilter : Prog.Frames (Without FrontendRequest.selects) (request .filter) :=
    without_request rfl
  have haccept : Prog.Frames (Without FrontendRequest.selects) (request .filterAndAccept) :=
    without_request rfl
  have habandon : Prog.Frames (Without FrontendRequest.selects)
      (ofClient abandonUnconfirmedInput) := without_client _
  unfold concludeKey
  infer_instance

/-- What is handed over for an index: the candidate there, if there is one. -/
theorem selectV2Candidate_selections {index : Int}
    (h : (selectV2Candidate index).Yields s t () s') :
    selections t = ((s.snapshot.candidateWindow.candidateAt index).map
      (selectCandidate s.snapshot.candidateWindow.generation)).toList := by
  obtain ⟨t₁, t₂, x, u, rfl, ⟨rfl, rfl, rfl⟩, hrest⟩ := Prog.yields_bind.mp h
  cases hitem : u.snapshot.candidateWindow.candidateAt index with
  | none =>
    rw [hitem] at hrest
    obtain ⟨rfl, -, -⟩ := hrest
    rfl
  | some item =>
    rw [hitem] at hrest
    obtain ⟨t₃, t₄, b, v, rfl, htransact, rfl, -, -⟩ := Prog.yields_bind.mp hrest
    obtain ⟨t₅, t₆, _, w, rfl, hnoted, hclient⟩ := Prog.yields_bind.mp htransact
    obtain ⟨rfl, rfl⟩ := Prog.yields_ask.mp hnoted
    have hbody : Prog.Frames (Without FrontendRequest.selects) (do
        let response ← ofClient (transactV2 ⟨[], 0, some (selectCandidate
          w.snapshot.candidateWindow.generation item)⟩ true)
        applyV2Response response : FrontM Bool) :=
      .bind (without_client _) fun _ => inferInstance
    simp only [selections_append, (hbody.frame _ _ _ _ hclient).selections]
    rfl

theorem performKey_selections [Keyboard] {event : KeyEvent} {action : HazkeySemanticAction}
    {before : ShownSnapshot} (hk : action.kind ≠ .selectCandidate)
    (h : (performKey event action before).Yields s t () s') : selections t = [] := by
  unfold performKey at h
  split at h
  · rename_i hselect
    exact absurd hselect hk
  · exact selections_of_frames h
  · exact selections_of_frames h
  · unfold insertKey at h
    exact selections_of_frames h
  · exact selections_of_frames h
  · exact selections_of_frames h

end

/-! The rows of the page. -/

/-- What is to be handed over for a row of the page on show. -/
def labelled (snapshot : ShownSnapshot) (row : Nat) : List Action :=
  (((shownPage snapshot)[row]?).map
    (selectCandidate snapshot.candidateWindow.generation)).toList

theorem boundedPageSize_pos (window : CandidateWindowSnapshot) : 1 ≤ window.boundedPageSize :=
  le_max_left _ _

theorem shownPage_of_items {snapshot : ShownSnapshot} (h : snapshot.candidateWindow.items ≠ []) :
    shownPage snapshot =
      if snapshot.candidateWindow.selected < 0 then []
      else (snapshot.candidateWindow.items.drop (snapshot.candidateWindow.rowIndex 0).toNat).take
        snapshot.candidateWindow.boundedPageSize.toNat := by
  have hselected : ((snapshot.candidateWindow.selectedIndex.map asInt).getD 0) =
      snapshot.candidateWindow.selected := rfl
  unfold shownPage candidateList CandidateList.page
  rw [if_neg h, Option.map_some, Option.getD_some, hselected]
  split
  · rfl
  · rename_i hle
    unfold CandidateWindowSnapshot.rowIndex
    rw [Int.tdiv_eq_ediv_of_nonneg (not_lt.mp hle)]
    simp

theorem shownPage_of_empty {snapshot : ShownSnapshot} (h : snapshot.candidateWindow.items = []) :
    shownPage snapshot = [] := by
  simp [shownPage, candidateList, h]

/-- The row of the page is at the index the key computes, and past the page there is the
next one. -/
theorem page_row {snapshot : ShownSnapshot} (h : snapshot.candidateWindow.items ≠ [])
    (hcursor : 0 ≤ snapshot.candidateWindow.selected) (row : Nat) :
    (shownPage snapshot)[row]? =
      if row < snapshot.candidateWindow.boundedPageSize.toNat then
        snapshot.candidateWindow.candidateAt (snapshot.candidateWindow.rowIndex row)
      else none := by
  have hbase : 0 ≤ snapshot.candidateWindow.rowIndex 0 := by
    unfold CandidateWindowSnapshot.rowIndex
    have hsize := boundedPageSize_pos snapshot.candidateWindow
    have hquotient := Int.tdiv_nonneg hcursor (by omega :
      0 ≤ snapshot.candidateWindow.boundedPageSize)
    have hproduct := Int.mul_nonneg hquotient
      (by omega : 0 ≤ snapshot.candidateWindow.boundedPageSize)
    simpa using hproduct
  have hindex : snapshot.candidateWindow.rowIndex row =
      snapshot.candidateWindow.rowIndex 0 + row := by
    simp [CandidateWindowSnapshot.rowIndex]
  rw [shownPage_of_items h, if_neg (not_lt.mpr hcursor), List.getElem?_take]
  split
  · rw [List.getElem?_drop, hindex, CandidateWindowSnapshot.candidateAt, if_neg (by omega)]
    congr 1
    omega
  · rfl

/-- The key hands over what its row stands for unless its index is on the next page. -/
theorem handed_eq_labelled_iff {snapshot : ShownSnapshot} {row : Nat} :
    ((snapshot.candidateWindow.candidateAt (snapshot.candidateWindow.rowIndex row)).map
        (selectCandidate snapshot.candidateWindow.generation)).toList = labelled snapshot row ↔
      row < (shownPage snapshot).length ∨
        snapshot.candidateWindow.candidateAt (snapshot.candidateWindow.rowIndex row) = none := by
  by_cases hempty : snapshot.candidateWindow.items = []
  · have hnone : snapshot.candidateWindow.candidateAt
        (snapshot.candidateWindow.rowIndex row) = none := by
      simp [CandidateWindowSnapshot.candidateAt, hempty]
    simp [labelled, shownPage_of_empty hempty, hnone]
  by_cases hcursor : snapshot.candidateWindow.selected < 0
  · have hpage : shownPage snapshot = [] := by
      rw [shownPage_of_items hempty, if_pos hcursor]
    simp [labelled, hpage]
  have hrow := page_row hempty (not_lt.mp hcursor) row
  constructor
  · intro heq
    by_cases hlt : row < (shownPage snapshot).length
    · exact .inl hlt
    · rw [labelled, List.getElem?_eq_none (not_lt.mp hlt)] at heq
      exact .inr (by simpa using heq)
  · rintro (hlt | hnone)
    · rw [labelled, hrow]
      split
      · rfl
      · rename_i hpast
        rw [List.getElem?_eq_getElem hlt, if_neg hpast] at hrow
        cases hrow
    · rw [labelled, hrow, hnone]
      split <;> rfl

section

variable [WireCodec] [EffectCodec] [Keyboard] {event : KeyEvent} {row : Nat}

omit [WireCodec] [EffectCodec] in
theorem keyAction_of_row {snapshot : ShownSnapshot} {fullwidth : Bool}
    (hrow : selectionRow event = some row) (hitems : snapshot.candidateWindow.items ≠ []) :
    keyAction event snapshot fullwidth =
      some { kind := .selectCandidate, value := snapshot.candidateWindow.rowIndex row } := by
  simp [keyAction, hitems, hrow]

omit [WireCodec] [EffectCodec] in
theorem keyAction_of_empty {snapshot : ShownSnapshot} {fullwidth : Bool}
    {action : HazkeySemanticAction} (hitems : snapshot.candidateWindow.items = [])
    (h : keyAction event snapshot fullwidth = some action) : action.kind ≠ .selectCandidate := by
  simp only [keyAction, hitems, if_true] at h
  rcases Option.or_eq_some_iff.mp h with hmap | ⟨-, hinput⟩
  · rcases mapHazkeyKey_cases hmap with hplain | ⟨-, -, rfl⟩
    · simp only [HazkeySemanticAction.plain, Bool.and_eq_true, decide_eq_true_eq] at hplain
      exact hplain.1
    · simp
  · split at hinput
    · obtain rfl := Option.some.inj hinput
      simp
    · cases hinput

/-- Once a selection key is interpreted it hands over the candidate at its index. -/
theorem interprets_selections {u : HazkeyState} (hrow : selectionRow event = some row)
    (h : Interprets event u t s') :
    selections t = ((u.snapshot.candidateWindow.candidateAt
      (u.snapshot.candidateWindow.rowIndex row)).map
        (selectCandidate u.snapshot.candidateWindow.generation)).toList := by
  have hempty (hitems : u.snapshot.candidateWindow.items = []) :
      u.snapshot.candidateWindow.candidateAt (u.snapshot.candidateWindow.rowIndex row) = none := by
    simp [CandidateWindowSnapshot.candidateAt, hitems]
  cases h with
  | cancelled hc hr =>
    have hdigit := selectionRow_sym hrow
    rw [not_cancellation_of_digit hdigit.1 hdigit.2] at hc
    cases hc
  | @passed c t _ ha hp =>
    by_cases hitems : u.snapshot.candidateWindow.items = []
    · rw [hempty hitems]
      have hpassed := selections_of_frames hp
      exact hpassed
    · have hselect := ha _ (keyAction_of_row hrow hitems)
      cases hselect
  | @consumed c action _ ha hk hu =>
    by_cases hitems : u.snapshot.candidateWindow.items = []
    · rw [hempty hitems]
      rfl
    · rw [keyAction_of_row hrow hitems] at ha
      obtain rfl := Option.some.inj ha
      cases hk
  | @performed c action t _ ha hk hp =>
    by_cases hitems : u.snapshot.candidateWindow.items = []
    · rw [hempty hitems]
      have hperformed := performKey_selections (keyAction_of_empty hitems ha) hp
      exact hperformed
    · rw [keyAction_of_row hrow hitems] at ha
      obtain rfl := Option.some.inj ha
      obtain ⟨t₁, t₂, _, v, rfl, hselect, hconclude⟩ := Prog.yields_bind.mp hp
      have hselected := selectV2Candidate_selections hselect
      have hconcluded := selections_of_frames hconclude
      show selections (t₁ ++ t₂) = _
      rw [selections_append, hselected, hconcluded, List.append_nil]

/-- A selection key hands over the candidate of its row, or none where the page has no such
row, just if the page has it or the index of the row is past the list. -/
theorem keyEventV2_selection_iff (hpress : event.isRelease = false)
    (hrow : selectionRow event = some row) (h : (keyEventV2 event).Yields s t () s') :
    ∃ t₁ t₂ recovered u, t = t₁ ++ t₂ ∧ recoverFirst.Yields s t₁ recovered u ∧
      (recovered = false → selections t = []) ∧
      (recovered = true → (selections t = labelled u.snapshot row ↔
        row < (shownPage u.snapshot).length ∨ u.snapshot.candidateWindow.candidateAt
          (u.snapshot.candidateWindow.rowIndex row) = none)) := by
  rcases keyEventV2_cases h with ⟨hrelease, -, -⟩ | ⟨-, t₁, t₂, recovered, u, rfl, hr, hrest⟩
  · rw [hpress] at hrelease
    cases hrelease
  have hbefore := selections_of_frames hr
  refine ⟨t₁, t₂, recovered, u, rfl, hr, ?_, ?_⟩
  · rintro rfl
    rcases hrest with ⟨-, rfl, -⟩ | ⟨hrecovered, -⟩
    · rw [selections_append, hbefore]
      rfl
    · cases hrecovered
  · rintro rfl
    rcases hrest with ⟨hfailed, -⟩ | ⟨-, hinterprets⟩
    · cases hfailed
    · rw [selections_append, hbefore, List.nil_append, interprets_selections hrow hinterprets]
      exact handed_eq_labelled_iff

end

/-! A window of seven candidates in pages of five. -/

attribute [local instance] wireFormats

@[reducible] def deadEffects : EffectCodec := ⟨fun _ => .unspecified⟩

/-- Printable keys without a modifier. -/
@[reducible] def asciiKeyboard : Keyboard where
  keySymToUTF8 sym := if 0x20 ≤ sym ∧ sym ≤ 0x7e then [Char.ofNat sym] else []
  isSimple key := key.states = {} && (0x20 ≤ key.sym && key.sym ≤ 0x7e)
  check key other := key = other
  check_sym _ _ h := congrArg Key.sym (of_decide_eq_true h)

attribute [local instance] deadEffects asciiKeyboard

/-- No frame is answered. -/
def silentAnswer : (c : FrontendRequest) → Unit → c.Answer × Unit
  | .client (.transport ..), _ => (none, ())
  | .client .othersDraw, _ => (0, ())
  | .client .recoveryHandler, _ => ((), ())
  | .rest snapshot, _ =>
    (⟨{ candidateWindow := { items := List.replicate snapshot.candidateItems ⟨[], []⟩ } },
      List.length_replicate⟩, ())
  | .config, _ => ({}, ())
  | .surroundingText, _ => (none, ())
  | .transacts _, _ | .render _ _, _ | .resetPanel, _ | .auxDown _, _ | .commitString _, _
  | .deleteSurroundingText _ _, _ | .filter, _ | .filterAndAccept, _ => ((), ())

/-- What a key leads to when no frame is answered. -/
def silentTrace (event : KeyEvent) (s : HazkeyState) : List FrontEvent :=
  (keyEventV2 event).execTrace silentAnswer () s

theorem silentTrace_yields (event : KeyEvent) (s : HazkeyState) :
    (keyEventV2 event).Yields s (silentTrace event s) ()
      ((keyEventV2 event).exec silentAnswer () s).2.2 :=
  Prog.exec_yields (I := frontendPort) (W := Unit) silentAnswer (keyEventV2 event) () s

def sevenCandidates : HazkeyState where
  server := { session := { context := plainContext, id := "S".toList } }
  snapshot :=
    { phase := .selecting
      candidateWindow :=
        { generation := 1
          items := (List.range 7).map fun n => ⟨decimal n, decimal n⟩
          selectedIndex := some 0
          pageSize := 5 } }

/-- The key of the sixth row. -/
def sixthRow : KeyEvent := { key := { sym := 0x36 } }

/-- The key of the second row. -/
def secondRow : KeyEvent := { key := { sym := 0x32 } }

theorem keyEventV2_selection_iff_second :
    selectionRow secondRow = some 1 ∧
      ∃ t₁ t₂ recovered u, silentTrace secondRow sevenCandidates = t₁ ++ t₂ ∧
        recoverFirst.Yields sevenCandidates t₁ recovered u ∧
        (recovered = false → selections (silentTrace secondRow sevenCandidates) = []) ∧
        (recovered = true → (selections (silentTrace secondRow sevenCandidates) =
            labelled u.snapshot 1 ↔
          1 < (shownPage u.snapshot).length ∨ u.snapshot.candidateWindow.candidateAt
            (u.snapshot.candidateWindow.rowIndex 1) = none)) :=
  ⟨by decide +kernel, keyEventV2_selection_iff rfl (by decide +kernel)
    (silentTrace_yields secondRow sevenCandidates)⟩

/-- The page shows five candidates, and the key of a sixth row selects one of the next page. -/
theorem selectionKey_past_page :
    ∃ (event : KeyEvent) (row : Nat) (s s' : HazkeyState) (t : List FrontEvent),
      event.isRelease = false ∧ selectionRow event = some row ∧
        s.server.session.hasDeferredWork = false ∧ (keyEventV2 event).Yields s t () s' ∧
        (shownPage s.snapshot)[row]? = none ∧
        ∃ item ∈ s.snapshot.candidateWindow.items, item ∉ shownPage s.snapshot ∧
          selections t = [selectCandidate s.snapshot.candidateWindow.generation item] := by
  refine ⟨sixthRow, 5, sevenCandidates, _, _, rfl, by decide +kernel, by decide +kernel,
    silentTrace_yields sixthRow sevenCandidates, by decide +kernel, ⟨decimal 5, decimal 5⟩,
    by decide +kernel, by decide +kernel, by decide +kernel⟩

end Hazkey.SessionClient
