import Hazkey.Session
import Hazkey.ByteFormat

/-! A lossless format of recovery checkpoints. -/

namespace Hazkey

open ByteFormat

def textFormat : Format Text := Format.char.list

def phaseFormat : Format ImePhase :=
  .enum [.idle, .composing, .previewing, .selecting, .reconverting, .unicodeInput]
    (by intro p; cases p <;> decide)

def inputStyleFormat : Format ImeInputStyle :=
  .enum [.mapped, .direct] (by intro s; cases s <;> decide)

def autoConvertModeFormat : Format ImeAutoConvertMode :=
  .enum [.disabled, .always, .forMultipleChars] (by intro m; cases m <;> decide)

def suggestionListModeFormat : Format ImeSuggestionListMode :=
  .enum [.disabled, .normal, .predictive] (by intro m; cases m <;> decide)

def auxTextModeFormat : Format ImeAuxTextMode :=
  .enum [.disabled, .always, .whenCursorNotAtEnd] (by intro m; cases m <;> decide)

/-- An element whose count is not positive is not one. -/
def elementFormat : Format CompositionElement :=
  (textFormat.pair (Format.nat.pair (inputStyleFormat.pair
    (textFormat.option.pair textFormat.option)))).refine
    (fun e => (e.text, e.composingCount, e.inputStyle, e.mappedIntention, e.mappedInputOverride))
    (fun (text, count, style, intention, override) =>
      if h : 1 ≤ count then some ⟨text, count, style, intention, override, h⟩ else none)
    (by intro e; simp [e.composingCount_pos])

def bufferFormat : Format CompositionBuffer :=
  (elementFormat.list.pair Format.nat).refine (fun b => (b.elements, b.cursor))
    (fun (elements, cursor) =>
      if h : cursor ≤ elements.length then some ⟨elements, cursor, h⟩ else none)
    (by intro b; simp [b.cursor_le])

def keymapFormat : Format Keymap :=
  (textFormat.pair ((textFormat.pair textFormat.option).refine
    (fun rule : PinnedKeymapRule => (rule.intention, rule.inputOverride))
    (fun (intention, override) => some ⟨intention, override⟩) fun _ => rfl)).list

def policyFormat : Format PinnedCompositionPolicy :=
  (Format.bool.pair (Format.bool.pair (Format.bool.pair (Format.uint64.pair
    (autoConvertModeFormat.pair (Format.uint32.pair (suggestionListModeFormat.pair
      (Format.int.pair (Format.bool.pair (auxTextModeFormat.pair (Format.uint32.pair
        (textFormat.option.pair keymapFormat)))))))))))).refine
    (fun p => (p.allowsLearning, p.secureInput, p.zenzaiEnabled, p.projectRevision,
      p.autoConvertMode, p.liveConversionDelayMilliseconds, p.suggestionListMode,
      p.suggestionListLimit, p.suggestionListLimitWasPresentInEncodedPolicy, p.auxTextMode,
      p.directCommitTargets.rawValue, p.inputTableName, p.keymap))
    (fun (learning, secure, zenzai, project, convert, delay, mode, limit, present, aux, targets,
        table, keymap) =>
      if h : clampSuggestionListLimit limit = limit then
        some ⟨learning, secure, zenzai, project, convert, delay, mode, limit, present, aux,
          ⟨targets⟩, table, keymap, h⟩
      else none)
    (by intro p; simp [p.suggestionListLimit_supported])

def replacementFormat : Format ReconversionReplacement :=
  (Format.int.pair Format.int).refine (fun r => (r.before, r.after))
    (fun (before, after) => some ⟨before, after⟩) fun _ => rfl

def checkpointFormat : Format RecoveryCheckpoint :=
  (Format.uint64.pair (phaseFormat.pair (bufferFormat.pair (Format.uint64.pair
    (Format.uint64.pair (textFormat.pair (textFormat.pair (policyFormat.pair
      (replacementFormat.option.pair (textFormat.option.pair phaseFormat.option)))))))))).refine
    (fun c => (c.revision, c.phase, c.composition, c.nextCandidateGeneration, c.nextEffectID,
      c.leftContext, c.rightContext, c.policy, c.reconversionReplacement, c.unicodeInputBuffer,
      c.phaseBeforeUnicodeInput))
    (fun (revision, phase, composition, generation, effectID, left, right, policy, replacement,
        buffer, before) =>
      some ⟨revision, phase, composition, generation, effectID, left, right, policy, replacement,
        buffer, before⟩)
    fun _ => rfl

/-- The codec of this format. A written policy always carries its limit. -/
@[reducible] def byteCodec : RecoveryCodec where
  encode c := checkpointFormat.write c.decoded
  decode := checkpointFormat.decode
  decode_encode c := checkpointFormat.decode_write c.decoded

end Hazkey
