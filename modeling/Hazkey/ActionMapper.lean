import Hazkey.Text

/-! The meaning of keys: which semantic action a key stands for in each phase of the input. -/

namespace Hazkey.SessionClient

/-- The states of a key that are looked at, and all others as one number. -/
structure KeyStates where
  shift : Bool := false
  ctrl : Bool := false
  alt : Bool := false
  super : Bool := false
  super2 : Bool := false
  metaKey : Bool := false
  others : Nat := 0
  deriving DecidableEq

structure Key where
  sym : Nat
  states : KeyStates := {}
  deriving DecidableEq

structure KeyEvent where
  key : Key
  isRelease : Bool := false
  deriving DecidableEq

/-- The keyboard of the framework, where keys are told apart by their symbols first. -/
class Keyboard where
  keySymToUTF8 : Nat → Text
  isSimple : Key → Bool
  check : Key → Key → Bool
  check_sym : ∀ k k', check k k' = true → k.sym = k'.sym

namespace FcitxKey

def space : Nat := 0x20
def digit0 : Nat := 0x30
def digit1 : Nat := 0x31
def digit9 : Nat := 0x39
def BackSpace : Nat := 0xff08
def Tab : Nat := 0xff09
def Return : Nat := 0xff0d
def Escape : Nat := 0xff1b
def Muhenkan : Nat := 0xff22
def Henkan : Nat := 0xff23
def Hiragana : Nat := 0xff25
def Katakana : Nat := 0xff26
def HiraganaKatakana : Nat := 0xff27
def Zenkaku : Nat := 0xff28
def Hankaku : Nat := 0xff29
def ZenkakuHankaku : Nat := 0xff2a
def EisuShift : Nat := 0xff2f
def EisuToggle : Nat := 0xff30
def Home : Nat := 0xff50
def Left : Nat := 0xff51
def Up : Nat := 0xff52
def Right : Nat := 0xff53
def Down : Nat := 0xff54
def PageUp : Nat := 0xff55
def PageDown : Nat := 0xff56
def End : Nat := 0xff57
def F6 : Nat := 0xffc3
def F7 : Nat := 0xffc4
def F8 : Nat := 0xffc5
def F9 : Nat := 0xffc6
def F10 : Nat := 0xffc7
def Delete : Nat := 0xffff

/-- The keys of a letter, without and with shift. -/
def letter (c : Char) : List Nat := [c.toNat, c.toUpper.toNat]

end FcitxKey

inductive HazkeySemanticActionKind
  | insertText
  | deleteBackward
  | deleteForward
  | moveCursor
  | moveCursorToStart
  | moveCursorToEnd
  | startConversion
  | navigateCandidate
  | navigateCandidatePage
  | resizeSegment
  | moveActiveSegment
  | commitSelected
  | commitAll
  | cancel
  | selectCandidate
  | transformHiragana
  | transformKatakanaFullwidth
  | transformKatakanaHalfwidth
  | transformAlphabetFullwidth
  | transformAlphabetHalfwidth
  | forgetCandidate
  | reconvert
  | beginUnicodeInput
  | appendUnicodeDigit
  | commitUnicodeInput
  | consume
  | passThrough
  deriving DecidableEq

inductive HazkeyInputPhase
  | idle
  | composing
  | previewing
  | selecting
  | reconverting
  | unicodeInput
  deriving DecidableEq

structure HazkeySemanticAction where
  kind : HazkeySemanticActionKind
  value : Int := 0
  fullwidth : Bool := false
  deriving DecidableEq

/-- The labels of a switch with what they lead to. -/
abbrev KeySwitch := List (List Nat × HazkeySemanticAction)

/-- None is the default. -/
def KeySwitch.on (cases : KeySwitch) (sym : Nat) : Option HazkeySemanticAction :=
  (cases.find? fun x => sym ∈ x.1).map Prod.snd

section

open FcitxKey

def unicodeDigit (text : Text) : Bool :=
  utf8Count text = 1 && text.all fun c =>
    ('0' ≤ c && c ≤ '9') || ('a' ≤ c && c ≤ 'f') || ('A' ≤ c && c ≤ 'F')

def unicodeKey [Keyboard] (key : Key) : HazkeySemanticAction :=
  if key.sym = Escape then { kind := .cancel }
  else if key.sym = BackSpace then { kind := .deleteBackward }
  else if key.sym = Return ∨ key.sym = space then { kind := .commitUnicodeInput }
  else if key.states.ctrl = false ∧ unicodeDigit (Keyboard.keySymToUTF8 key.sym) = true then
    { kind := .appendUnicodeDigit }
  else { kind := .consume }

def transformKeys : KeySwitch :=
  [([Muhenkan, F6, Hiragana], { kind := .transformHiragana }),
    ([F7, Katakana, HiraganaKatakana], { kind := .transformKatakanaFullwidth }),
    ([F8, Hankaku], { kind := .transformKatakanaHalfwidth }),
    ([F9, Zenkaku], { kind := .transformAlphabetFullwidth }),
    ([F10, EisuShift, EisuToggle, ZenkakuHankaku], { kind := .transformAlphabetHalfwidth })]

/-- Selecting, previewing and reconverting differ by what a tab does. -/
def candidateKeys (tab : HazkeySemanticAction) (shifted : Bool) : KeySwitch :=
  [([Up], { kind := .navigateCandidate, value := -1 }),
    ([Down], { kind := .navigateCandidate, value := 1 }),
    ([PageUp], { kind := .navigateCandidatePage, value := -1 }),
    ([PageDown], { kind := .navigateCandidatePage, value := 1 }),
    ([space], { kind := .navigateCandidate, value := if shifted = true then -1 else 1 }),
    ([Henkan], { kind := .navigateCandidate, value := 1 }),
    ([Return], { kind := .commitAll }),
    ([Tab], tab),
    ([Right], { kind := if shifted = true then .resizeSegment else .moveActiveSegment, value := 1 }),
    ([BackSpace], { kind := .deleteBackward }),
    ([Escape], { kind := .cancel }),
    ([Left],
      { kind := if shifted = true then .resizeSegment else .moveActiveSegment, value := -1 })] ++
    transformKeys

/-- They would change the mode of another input method. -/
def idleModeKeys : KeySwitch :=
  [([Muhenkan, Hiragana, Katakana, HiraganaKatakana, Hankaku, Zenkaku, ZenkakuHankaku, EisuShift,
    EisuToggle], { kind := .passThrough })]

def controlKeys : KeySwitch :=
  [(letter 'a', { kind := .moveCursorToStart }),
    (letter 'e', { kind := .moveCursorToEnd }),
    (letter 'b', { kind := .moveCursor, value := -1 }),
    (letter 'f', { kind := .moveCursor, value := 1 }),
    (letter 'h', { kind := .deleteBackward }),
    (letter 'd', { kind := .deleteForward })]

def composingKeys (shifted : Bool) : KeySwitch :=
  [([Left], { kind := if shifted = true then .resizeSegment else .moveCursor, value := -1 }),
    ([Right], { kind := if shifted = true then .resizeSegment else .moveCursor, value := 1 }),
    ([Home], { kind := .moveCursorToStart }),
    ([End], { kind := .moveCursorToEnd }),
    ([BackSpace], { kind := .deleteBackward }),
    ([Delete], { kind := .deleteForward }),
    ([space, Henkan], { kind := .startConversion }),
    ([Down, Tab], { kind := .navigateCandidate }),
    ([Return], { kind := .commitAll }),
    ([Escape], { kind := .cancel })] ++ transformKeys

def idleKey (key : Key) (normalSpaceFullwidth : Bool) : Option HazkeySemanticAction :=
  if key.sym = space then
    some
      { kind := .insertText
        fullwidth :=
          if key.states.shift = true then !normalSpaceFullwidth else normalSpaceFullwidth }
  else if key.sym = Henkan then some { kind := .reconvert }
  else idleModeKeys.on key.sym

def composingKey (key : Key) : Option HazkeySemanticAction :=
  if key.states.ctrl = true then
    (controlKeys.on key.sym).or ((composingKeys key.states.shift).on key.sym)
  else (composingKeys key.states.shift).on key.sym

def candidateKey (tab : HazkeySemanticAction) (key : Key) : Option HazkeySemanticAction :=
  if key.states.ctrl = true ∧ key.sym = Delete then some { kind := .forgetCandidate }
  else (candidateKeys tab key.states.shift).on key.sym

def mapHazkeyKey [Keyboard] (key : Key) (phase : HazkeyInputPhase) (normalSpaceFullwidth : Bool) :
    Option HazkeySemanticAction :=
  if phase = .unicodeInput then some (unicodeKey key)
  else if (phase = .idle ∨ phase = .composing) ∧ key.states.ctrl = true ∧
      key.states.shift = true ∧ key.sym ∈ letter 'u' then
    some { kind := .beginUnicodeInput }
  else
    match phase with
    | .selecting => candidateKey { kind := .commitSelected } key
    | .previewing | .reconverting => candidateKey { kind := .navigateCandidate } key
    | .idle => idleKey key normalSpaceFullwidth
    | _ => composingKey key

end

def shouldAcceptHazkeyDispatch (action : HazkeySemanticAction) (phase : HazkeyInputPhase)
    (dispatchSucceeded : Bool) : Bool :=
  if dispatchSucceeded = true ∨ phase ≠ .idle then true
  else action.kind ≠ .insertText && action.kind ≠ .beginUnicodeInput

def hasTextInputModifiers (key : Key) : Bool :=
  key.states.ctrl || key.states.alt || key.states.super || key.states.super2 || key.states.metaKey

def isPendingLearningCancellationKey (key : Key) : Bool :=
  key.sym ∈ [FcitxKey.Escape, FcitxKey.BackSpace, FcitxKey.Delete] ||
    (key.states.ctrl && key.sym ∈ FcitxKey.letter 'z')

def isInputableEvent [Keyboard] (event : KeyEvent) : Bool :=
  !hasTextInputModifiers event.key &&
    (Keyboard.check event.key { sym := FcitxKey.space } || Keyboard.isSimple event.key ||
      1 < utf8Count (Keyboard.keySymToUTF8 event.key.sym) ||
      (0x04a1 ≤ event.key.sym && event.key.sym ≤ 0x04df))

def isAltDigitKeyEvent (event : KeyEvent) : Bool :=
  (event.key.states = { alt := true }) &&
    (FcitxKey.digit1 ≤ event.key.sym && event.key.sym ≤ FcitxKey.digit9)

def defaultSelectionKeys : List Key :=
  ((List.range 9).map fun n => { sym := FcitxKey.digit1 + n }) ++ [{ sym := FcitxKey.digit0 }]

/-- None is -1. -/
def keyListIndex [Keyboard] (key : Key) (keys : List Key) : Option Nat :=
  keys.findIdx? fun other => Keyboard.check key other

/-- The row of the candidate list a key asks for, when there are candidates. -/
def selectionRow [Keyboard] (event : KeyEvent) : Option Nat :=
  if isAltDigitKeyEvent event = true then some (event.key.sym - FcitxKey.digit1)
  else keyListIndex event.key defaultSelectionKeys

theorem defaultSelectionKeys_sym {k : Key} (h : k ∈ defaultSelectionKeys) :
    FcitxKey.digit0 ≤ k.sym ∧ k.sym ≤ FcitxKey.digit9 := by
  rcases List.mem_append.mp h with h | h
  · obtain ⟨n, hn, rfl⟩ := List.mem_map.mp h
    have hn := List.mem_range.mp hn
    show 0x30 ≤ 0x31 + n ∧ 0x31 + n ≤ 0x39
    omega
  · rw [List.mem_singleton.mp h]
    decide

/-- The selection keys are digits. -/
theorem selectionRow_sym [Keyboard] {event : KeyEvent} {row : Nat}
    (h : selectionRow event = some row) :
    FcitxKey.digit0 ≤ event.key.sym ∧ event.key.sym ≤ FcitxKey.digit9 := by
  unfold selectionRow at h
  split at h
  · rename_i halt
    simp only [isAltDigitKeyEvent, Bool.and_eq_true, decide_eq_true_eq] at halt
    exact ⟨Nat.le_trans (by decide) halt.2.1, halt.2.2⟩
  · obtain ⟨hlt, hcheck, -⟩ := List.findIdx?_eq_some_iff_getElem.mp h
    rw [Keyboard.check_sym _ _ hcheck]
    exact defaultSelectionKeys_sym (List.getElem_mem hlt)

theorem not_cancellation_of_digit {key : Key} (h : FcitxKey.digit0 ≤ key.sym)
    (h' : key.sym ≤ FcitxKey.digit9) : isPendingLearningCancellationKey key = false := by
  have hlist (l : List Nat) (hl : ∀ n ∈ l, n < FcitxKey.digit0 ∨ FcitxKey.digit9 < n) :
      key.sym ∉ l := by
    intro hmem
    rcases hl _ hmem with hlt | hlt
    · omega
    · omega
  have hkeys : key.sym ∉ [FcitxKey.Escape, FcitxKey.BackSpace, FcitxKey.Delete] :=
    hlist _ (by decide)
  have hz : key.sym ∉ FcitxKey.letter 'z' := hlist _ (by decide)
  simp only [isPendingLearningCancellationKey, hkeys, hz, decide_false, Bool.and_false,
    Bool.or_false]

/-! What keys never ask for. -/

/-- Neither a candidate nor a reconversion. -/
def HazkeySemanticAction.plain (a : HazkeySemanticAction) : Bool :=
  a.kind ≠ .selectCandidate && a.kind ≠ .reconvert

section

variable {key : Key} {action : HazkeySemanticAction} {sym : Nat} {cases : KeySwitch}

/-- What a key does is an entry of the switch. -/
theorem KeySwitch.plain_of_on (hall : (cases.all fun x => x.2.plain) = true)
    (h : cases.on sym = some action) : action.plain = true := by
  obtain ⟨x, hx, rfl⟩ := Option.map_eq_some_iff.mp h
  exact List.all_eq_true.mp hall x (List.mem_of_find?_eq_some hx)

theorem candidateKey_plain {tab : HazkeySemanticAction} (htab : tab.plain = true)
    (h : candidateKey tab key = some action) : action.plain = true := by
  unfold candidateKey at h
  split at h
  · obtain rfl := Option.some.inj h
    rfl
  · refine KeySwitch.plain_of_on ?_ h
    cases key.states.shift with
    | false => simpa [candidateKeys, transformKeys, HazkeySemanticAction.plain] using htab
    | true => simpa [candidateKeys, transformKeys, HazkeySemanticAction.plain] using htab

theorem composingKey_plain (h : composingKey key = some action) : action.plain = true := by
  have hcomposing (shifted : Bool) : ((composingKeys shifted).all fun x => x.2.plain) = true := by
    cases shifted <;> rfl
  unfold composingKey at h
  split at h
  · rcases Option.or_eq_some_iff.mp h with hcontrol | ⟨-, hkey⟩
    · have hplain : (controlKeys.all fun x => x.2.plain) = true := rfl
      exact KeySwitch.plain_of_on hplain hcontrol
    · exact KeySwitch.plain_of_on (hcomposing _) hkey
  · exact KeySwitch.plain_of_on (hcomposing _) h

theorem unicodeKey_plain [Keyboard] (key : Key) : (unicodeKey key).plain = true := by
  unfold unicodeKey
  split
  · rfl
  split
  · rfl
  split
  · rfl
  split
  · rfl
  · rfl

theorem idleKey_cases {fullwidth : Bool} (h : idleKey key fullwidth = some action) :
    action.plain = true ∨ key.sym = FcitxKey.Henkan ∧ action = { kind := .reconvert } := by
  unfold idleKey at h
  split at h
  · obtain rfl := Option.some.inj h
    exact .inl rfl
  split at h
  · rename_i hhenkan
    exact .inr ⟨hhenkan, (Option.some.inj h).symm⟩
  · have hplain : (idleModeKeys.all fun x => x.2.plain) = true := rfl
    exact .inl (KeySwitch.plain_of_on hplain h)

/-- A key maps to no candidate; to a reconversion only the one key does, in the idle phase. -/
theorem mapHazkeyKey_cases [Keyboard] {phase : HazkeyInputPhase} {fullwidth : Bool}
    (h : mapHazkeyKey key phase fullwidth = some action) :
    action.plain = true ∨
      phase = .idle ∧ key.sym = FcitxKey.Henkan ∧ action = { kind := .reconvert } := by
  unfold mapHazkeyKey at h
  split at h
  · obtain rfl := Option.some.inj h
    exact .inl (unicodeKey_plain key)
  split at h
  · obtain rfl := Option.some.inj h
    exact .inl rfl
  cases phase with
  | idle =>
    rcases idleKey_cases h with hplain | hreconvert
    · exact .inl hplain
    · exact .inr ⟨rfl, hreconvert⟩
  | selecting => exact .inl (candidateKey_plain rfl h)
  | previewing => exact .inl (candidateKey_plain rfl h)
  | reconverting => exact .inl (candidateKey_plain rfl h)
  | composing => exact .inl (composingKey_plain h)
  | unicodeInput => exact .inl (composingKey_plain h)

end

end Hazkey.SessionClient
