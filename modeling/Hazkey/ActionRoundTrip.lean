import Hazkey.ActionCoding

/-! Encoder and decoder of the semantic actions agree with the table of fields:
a payload decodes exactly to the action it describes. -/

namespace Hazkey

open KeyedCoding CompositionSurface

namespace ImeLifecycleEvent

theorem field_eq_ok {α : Type} {c : Container} {C : Coding α} {key : CodingKeys} {a : α} :
    field c C key = .ok a ↔ ∃ v, c key.stringValue = some v ∧ C.decode v = .ok a :=
  Container.decode_eq_ok

/-- Decoding accepts a payload exactly for the event it describes. -/
theorem decode_eq_ok {payload : Coded} {event : ImeLifecycleEvent} :
    decode payload = .ok event ↔ event.Matches payload := by
  have hread : decode payload = .ok event ↔ ∃ fields, payload = .object fields ∧
      ∃ kind, fields CodingKeys.type.stringValue = some (.string (Kind.raws.rawValue kind)) ∧
        decodeAs fields kind = .ok event := by
    simp [decode, bind_eq_ok, field_eq_ok]
  rw [hread]
  apply exists_congr
  intro fields
  apply and_congr_right
  intro hpayload
  constructor
  · rintro ⟨kind, hkind, h⟩
    cases kind with
    | deactivate | focusChanged | serverRestarted =>
      cases h
      exact hkind
    | capabilityChanged | secureInputChanged =>
      obtain ⟨b, hb, h⟩ := bind_eq_ok.mp h
      cases h
      obtain ⟨v, hv, hvb⟩ := field_eq_ok.mp hb
      obtain rfl := boolean_decode.mp hvb
      exact ⟨hkind, hv⟩
  · intro h
    cases event with
    | deactivate => exact ⟨.deactivate, h, rfl⟩
    | focusChanged => exact ⟨.focusChanged, h, rfl⟩
    | serverRestarted => exact ⟨.serverRestarted, h, rfl⟩
    | capabilityChanged b =>
      exact ⟨.capabilityChanged, h.1,
        bind_eq_ok.mpr ⟨b, field_eq_ok.mpr ⟨_, h.2, boolean_decode.mpr rfl⟩, rfl⟩⟩
    | secureInputChanged b =>
      exact ⟨.secureInputChanged, h.1,
        bind_eq_ok.mpr ⟨b, field_eq_ok.mpr ⟨_, h.2, boolean_decode.mpr rfl⟩, rfl⟩⟩

theorem matches_encode (event : ImeLifecycleEvent) : event.Matches event.encode := by
  refine ⟨_, rfl, ?_⟩
  cases event <;>
    simp [tagged, put, Container.encode_apply, CodingKeys.stringValue, CodingKeys.raws, raw,
      Kind.raws, boolean]

end ImeLifecycleEvent

namespace ImeAction

theorem stringValue_inj {k k' : CodingKeys} : k.stringValue = k'.stringValue ↔ k = k' :=
  CodingKeys.raws.rawValue_inj

theorem field_eq_ok {α : Type} {c : Container} {C : Coding α} {key : CodingKeys} {a : α} :
    field c C key = .ok a ↔ ∃ v, c key.stringValue = some v ∧ C.decode v = .ok a :=
  Container.decode_eq_ok

section Parts

variable {c : Container} {key : CodingKeys}

theorem text_eq_ok {t : Text} : field c string key = .ok t ↔ (Part.text t).HeldBy c key := by
  simp [field_eq_ok, Part.HeldBy]

theorem int_eq_ok {n : Int} : field c int64 key = .ok n ↔ (Part.int n).HeldBy c key := by
  simp [field_eq_ok, Part.HeldBy, int64, integer_decode]

theorem uint_eq_ok {n : UInt64} :
    field c unsigned64 key = .ok n ↔ (Part.uint n).HeldBy c key := by
  simp [field_eq_ok, Part.HeldBy]

theorem bool_eq_ok {b : Bool} : field c boolean key = .ok b ↔ (Part.bool b).HeldBy c key := by
  simp [field_eq_ok, Part.HeldBy]

theorem transform_eq_ok {t : ImeTextTransform} :
    field c (raw ImeTextTransform.raws) key = .ok t ↔ (Part.transform t).HeldBy c key := by
  simp [field_eq_ok, Part.HeldBy]

theorem data_eq_ok {d : Data} : field c base64 key = .ok d ↔ (Part.data d).HeldBy c key := by
  simp only [field_eq_ok, Part.HeldBy, base64_decode]
  constructor
  · rintro ⟨v, hv, text, rfl, h⟩
    exact ⟨text, hv, h⟩
  · rintro ⟨text, hv, h⟩
    exact ⟨_, hv, text, rfl, h⟩

theorem event_eq_ok {e : ImeLifecycleEvent} :
    field c ImeLifecycleEvent.coding key = .ok e ↔ (Part.event e).HeldBy c key := by
  rw [field_eq_ok]
  exact exists_congr fun _ => and_congr_right fun _ => ImeLifecycleEvent.decode_eq_ok

theorem deletion_eq_ok {n : Int} : (∃ count, fieldIfPresent c int64 key = .ok count ∧
    count.getD 0 = n) ↔ (Part.deletion n).HeldBy c key := by
  have hnull : ∀ m, int64.decode .null ≠ .ok m := by
    intro m h
    exact absurd (integer_decode.mp h).1 (by simp)
  simp only [fieldIfPresent, Container.decodeIfPresent_eq_ok hnull, Part.HeldBy]
  constructor
  · rintro ⟨count, ⟨rfl, habsent⟩ | ⟨v, m, hv, hm, rfl⟩, hcount⟩
    · exact .inl ⟨hcount.symm, habsent⟩
    · obtain ⟨rfl, hrange⟩ := integer_decode.mp hm
      obtain rfl : m = n := hcount
      exact .inr ⟨hv, hrange⟩
  · rintro (⟨rfl, habsent⟩ | ⟨hv, hrange⟩)
    · exact ⟨none, .inl ⟨rfl, habsent⟩, rfl⟩
    · exact ⟨some n, .inr ⟨_, n, hv, integer_decode.mpr ⟨rfl, hrange⟩, rfl⟩, rfl⟩

end Parts

theorem parts_of_decodeAs {c : Container} {k : Kind} {action : ImeAction}
    (h : decodeAs c k = .ok action) :
    action.kind = k ∧ ∀ f ∈ action.parts, f.2.HeldBy c f.1 := by
  cases k with
  | deleteBackward | deleteForward | moveCursorToStart | moveCursorToEnd | startConversion
  | commitSelected | commitAll | cancel | beginUnicodeInput | commitUnicodeInput =>
    cases h
    simp [kind, parts]
  | insertText | appendUnicodeDigit =>
    obtain ⟨t, ht, h⟩ := bind_eq_ok.mp h
    cases h
    simpa [kind, parts] using text_eq_ok.mp ht
  | moveCursor | navigateCandidate | navigateCandidatePage | resizeSegment | moveActiveSegment =>
    obtain ⟨n, hn, h⟩ := bind_eq_ok.mp h
    cases h
    simpa [kind, parts] using int_eq_ok.mp hn
  | applyLiveConversion =>
    obtain ⟨n, hn, h⟩ := bind_eq_ok.mp h
    cases h
    simpa [kind, parts] using uint_eq_ok.mp hn
  | resolvePendingLearning =>
    obtain ⟨b, hb, h⟩ := bind_eq_ok.mp h
    cases h
    simpa [kind, parts] using bool_eq_ok.mp hb
  | selectCandidate | forgetCandidate =>
    obtain ⟨t, ht, h⟩ := bind_eq_ok.mp h
    obtain ⟨n, hn, h⟩ := bind_eq_ok.mp h
    cases h
    simpa [kind, parts] using And.intro (text_eq_ok.mp ht) (uint_eq_ok.mp hn)
  | transformActiveSegment =>
    obtain ⟨t, ht, h⟩ := bind_eq_ok.mp h
    cases h
    simpa [kind, parts] using transform_eq_ok.mp ht
  | reconvert =>
    obtain ⟨t, ht, h⟩ := bind_eq_ok.mp h
    obtain ⟨left, hleft, h⟩ := bind_eq_ok.mp h
    obtain ⟨right, hright, h⟩ := bind_eq_ok.mp h
    obtain ⟨before, hbefore, h⟩ := bind_eq_ok.mp h
    obtain ⟨after, hafter, h⟩ := bind_eq_ok.mp h
    cases h
    have hcounts := And.intro (deletion_eq_ok.mp ⟨before, hbefore, rfl⟩)
      (deletion_eq_ok.mp ⟨after, hafter, rfl⟩)
    simpa [kind, parts] using
      ⟨text_eq_ok.mp ht, text_eq_ok.mp hleft, text_eq_ok.mp hright, hcounts⟩
  | updateContext =>
    obtain ⟨left, hleft, h⟩ := bind_eq_ok.mp h
    obtain ⟨right, hright, h⟩ := bind_eq_ok.mp h
    cases h
    simpa [kind, parts] using And.intro (text_eq_ok.mp hleft) (text_eq_ok.mp hright)
  | restoreCheckpoint =>
    obtain ⟨d, hd, h⟩ := bind_eq_ok.mp h
    cases h
    simpa [kind, parts] using data_eq_ok.mp hd
  | lifecycle =>
    obtain ⟨e, he, h⟩ := bind_eq_ok.mp h
    cases h
    simpa [kind, parts] using event_eq_ok.mp he

theorem decodeAs_of_parts {c : Container} {action : ImeAction}
    (h : ∀ f ∈ action.parts, f.2.HeldBy c f.1) : decodeAs c action.kind = .ok action := by
  cases action with
  | deleteBackward | deleteForward | moveCursorToStart | moveCursorToEnd | startConversion
  | commitSelected | commitAll | cancel | beginUnicodeInput | commitUnicodeInput => rfl
  | insertText t | appendUnicodeDigit t =>
    have ht := h (.text, .text t) (by simp [parts])
    exact bind_eq_ok.mpr ⟨t, text_eq_ok.mpr ht, rfl⟩
  | moveCursor n | navigateCandidate n | navigateCandidatePage n | resizeSegment n
  | moveActiveSegment n =>
    have hn := h (.offset, .int n) (by simp [parts])
    exact bind_eq_ok.mpr ⟨n, int_eq_ok.mpr hn, rfl⟩
  | applyLiveConversion n =>
    have hn := h (.scheduledRevision, .uint n) (by simp [parts])
    exact bind_eq_ok.mpr ⟨n, uint_eq_ok.mpr hn, rfl⟩
  | resolvePendingLearning b =>
    have hb := h (.commit, .bool b) (by simp [parts])
    exact bind_eq_ok.mpr ⟨b, bool_eq_ok.mpr hb, rfl⟩
  | selectCandidate t n | forgetCandidate t n =>
    have ht := h (.id, .text t) (by simp [parts])
    have hn := h (.generation, .uint n) (by simp [parts])
    exact bind_eq_ok.mpr ⟨t, text_eq_ok.mpr ht, bind_eq_ok.mpr ⟨n, uint_eq_ok.mpr hn, rfl⟩⟩
  | transformActiveSegment t =>
    have ht := h (.transform, .transform t) (by simp [parts])
    exact bind_eq_ok.mpr ⟨t, transform_eq_ok.mpr ht, rfl⟩
  | reconvert t left right before after =>
    have ht := h (.text, .text t) (by simp [parts])
    have hleft := h (.leftContext, .text left) (by simp [parts])
    have hright := h (.rightContext, .text right) (by simp [parts])
    obtain ⟨m, hm, hbefore⟩ :=
      deletion_eq_ok.mpr (h (.deleteBefore, .deletion before) (by simp [parts]))
    obtain ⟨n, hn, hafter⟩ :=
      deletion_eq_ok.mpr (h (.deleteAfter, .deletion after) (by simp [parts]))
    rw [← hbefore, ← hafter]
    refine bind_eq_ok.mpr ⟨t, text_eq_ok.mpr ht, bind_eq_ok.mpr ⟨left, text_eq_ok.mpr hleft, ?_⟩⟩
    refine bind_eq_ok.mpr ⟨right, text_eq_ok.mpr hright, ?_⟩
    exact bind_eq_ok.mpr ⟨m, hm, bind_eq_ok.mpr ⟨n, hn, rfl⟩⟩
  | updateContext left right =>
    have hleft := h (.leftContext, .text left) (by simp [parts])
    have hright := h (.rightContext, .text right) (by simp [parts])
    exact bind_eq_ok.mpr
      ⟨left, text_eq_ok.mpr hleft, bind_eq_ok.mpr ⟨right, text_eq_ok.mpr hright, rfl⟩⟩
  | restoreCheckpoint d =>
    have hd := h (.data, .data d) (by simp [parts])
    exact bind_eq_ok.mpr ⟨d, data_eq_ok.mpr hd, rfl⟩
  | lifecycle e =>
    have he := h (.lifecycle, .event e) (by simp [parts])
    exact bind_eq_ok.mpr ⟨e, event_eq_ok.mpr he, rfl⟩

/-- Decoding accepts a payload exactly for the action it describes. -/
theorem decode_eq_ok {payload : Coded} {action : ImeAction} :
    decode payload = .ok action ↔ action.Matches payload := by
  constructor
  · intro h
    obtain ⟨fields, hfields, h⟩ := bind_eq_ok.mp h
    obtain ⟨k, hk, h⟩ := bind_eq_ok.mp h
    obtain ⟨v, hv, hname⟩ := field_eq_ok.mp hk
    obtain ⟨rfl, hparts⟩ := parts_of_decodeAs h
    rw [raw_decode.mp hname] at hv
    exact ⟨fields, Coded.container_eq_ok.mp hfields, hv, hparts⟩
  · rintro ⟨fields, hfields, hkind, hparts⟩
    have hk := field_eq_ok.mpr ⟨_, hkind, raw_decode.mpr rfl⟩
    have hdecode := bind_eq_ok.mpr ⟨action.kind, hk, decodeAs_of_parts hparts⟩
    exact bind_eq_ok.mpr ⟨fields, Coded.container_eq_ok.mpr hfields, hdecode⟩

theorem put_apply {α : Type} {C : Coding α} {a : α} {c : Container} (k k' : CodingKeys) :
    put C a k c k'.stringValue = if k' = k then some (C.encode a) else c k'.stringValue := by
  simp only [put, Container.encode_apply, stringValue_inj]

theorem put_self {α : Type} {C : Coding α} {a : α} {c : Container} (k : CodingKeys) :
    put C a k c k.stringValue = some (C.encode a) := by
  rw [put_apply, if_pos rfl]

/-- A field stays as it was when another is written after it. -/
theorem put_later {α : Type} {C : Coding α} {a : α} {c : Container} {k k' : CodingKeys}
    {v : Option Coded} (h : c k'.stringValue = v) (hne : k' ≠ k) :
    put C a k c k'.stringValue = v := by
  rw [put_apply, if_neg hne, h]

theorem matches_encode {action : ImeAction} (h : action.Bounded) :
    action.Matches action.encode := by
  refine ⟨_, rfl, ?_, ?_⟩
  · cases action <;> simp only [put_apply, tagged, kind, reduceCtorEq, if_false, if_true] <;> rfl
  · cases action with
    | deleteBackward | deleteForward | moveCursorToStart | moveCursorToEnd | startConversion
    | commitSelected | commitAll | cancel | beginUnicodeInput | commitUnicodeInput =>
      exact List.forall_mem_nil _
    | insertText t | appendUnicodeDigit t | applyLiveConversion n | resolvePendingLearning b
    | transformActiveSegment t =>
      exact List.forall_mem_singleton.mpr (put_self _)
    | moveCursor n | navigateCandidate n | navigateCandidatePage n | resizeSegment n
    | moveActiveSegment n =>
      exact List.forall_mem_singleton.mpr ⟨put_self _, h⟩
    | selectCandidate t n | forgetCandidate t n =>
      refine List.forall_mem_cons.mpr ⟨?_, List.forall_mem_singleton.mpr (put_self _)⟩
      exact put_later (put_self _) CodingKeys.noConfusion
    | updateContext left right =>
      refine List.forall_mem_cons.mpr ⟨?_, List.forall_mem_singleton.mpr (put_self _)⟩
      exact put_later (put_self _) CodingKeys.noConfusion
    | reconvert t left right before after =>
      refine List.forall_mem_cons.mpr ⟨?_, List.forall_mem_cons.mpr ⟨?_, List.forall_mem_cons.mpr
        ⟨?_, List.forall_mem_cons.mpr ⟨?_, List.forall_mem_singleton.mpr ?_⟩⟩⟩⟩
      · exact put_later (put_later (put_later (put_later (put_self _)
          CodingKeys.noConfusion) CodingKeys.noConfusion) CodingKeys.noConfusion)
          CodingKeys.noConfusion
      · exact put_later (put_later (put_later (put_self _)
          CodingKeys.noConfusion) CodingKeys.noConfusion) CodingKeys.noConfusion
      · exact put_later (put_later (put_self _) CodingKeys.noConfusion) CodingKeys.noConfusion
      · exact .inr ⟨put_later (put_self _) CodingKeys.noConfusion, h.1⟩
      · exact .inr ⟨put_self _, h.2⟩
    | restoreCheckpoint d =>
      exact List.forall_mem_singleton.mpr ⟨_, put_self _, base64Decoded_encoded d⟩
    | lifecycle e =>
      exact List.forall_mem_singleton.mpr
        ⟨_, put_self _, ImeLifecycleEvent.matches_encode e⟩

theorem rejected {payload : Coded} (h : ∀ action : ImeAction, ¬ action.Matches payload) :
    ∃ e, decode payload = .error e := by
  cases hd : decode payload with
  | error e => exact ⟨e, rfl⟩
  | ok action => exact absurd (decode_eq_ok.mp hd) (h action)

theorem matches_unique {payload : Coded} {action other : ImeAction}
    (h : action.Matches payload) (h' : other.Matches payload) : action = other := by
  have hd := decode_eq_ok.mpr h
  rw [decode_eq_ok.mpr h'] at hd
  exact (Except.ok.inj hd).symm

/-- What is decoded is a value of the source: its integers fit. -/
theorem Matches.bounded {payload : Coded} {action : ImeAction} (h : action.Matches payload) :
    action.Bounded := by
  obtain ⟨fields, -, -, hparts⟩ := h
  have hdeletion : ∀ {k n}, (Part.deletion n).HeldBy fields k → minInt ≤ n ∧ n ≤ maxInt := by
    rintro k n (⟨rfl, -⟩ | h)
    · decide
    · exact h.2
  cases action with
  | moveCursor | navigateCandidate | navigateCandidatePage | resizeSegment | moveActiveSegment =>
    exact (hparts _ (List.mem_singleton_self _)).2
  | reconvert t left right before after =>
    exact ⟨hdeletion (hparts (.deleteBefore, .deletion before) (by simp [parts])),
      hdeletion (hparts (.deleteAfter, .deletion after) (by simp [parts]))⟩
  | _ => exact trivial

/-- Actions and lifecycle events survive their Codable encoding, and a payload
is decoded only to the action or event whose kind and fields it has. -/
theorem survives_serialisation :
    (∀ action : ImeAction, action.Bounded → decode action.encode = .ok action) ∧
    (∀ event : ImeLifecycleEvent, ImeLifecycleEvent.decode event.encode = .ok event) ∧
    (∀ payload action, decode payload = .ok action →
      action.Bounded ∧ action.Matches payload ∧
        ∀ other : ImeAction, other.Matches payload → other = action) ∧
    (∀ payload, (∀ action : ImeAction, ¬ action.Matches payload) →
      ∃ e, decode payload = .error e) ∧
    (∀ payload event, ImeLifecycleEvent.decode payload = .ok event → event.Matches payload) ∧
    (∀ payload, (∀ event : ImeLifecycleEvent, ¬ event.Matches payload) →
      ∃ e, ImeLifecycleEvent.decode payload = .error e) := by
  refine ⟨?_, ?_, ?_, ?_, ?_, ?_⟩
  · intro action h
    exact decode_eq_ok.mpr (matches_encode h)
  · intro event
    exact ImeLifecycleEvent.decode_eq_ok.mpr (ImeLifecycleEvent.matches_encode event)
  · intro payload action h
    have hmatches := decode_eq_ok.mp h
    exact ⟨hmatches.bounded, hmatches, fun _ h' => matches_unique h' hmatches⟩
  · intro payload h
    exact rejected h
  · intro payload event h
    exact ImeLifecycleEvent.decode_eq_ok.mp h
  · intro payload h
    cases hd : ImeLifecycleEvent.decode payload with
    | error e => exact ⟨e, rfl⟩
    | ok event => exact absurd (ImeLifecycleEvent.decode_eq_ok.mp hd) (h event)

theorem reconversion_survives :
    decode (encode (.reconvert "かな".toList [] "。".toList 2 0)) =
      .ok (.reconvert "かな".toList [] "。".toList 2 0) :=
  survives_serialisation.1 _ ⟨by decide, by decide⟩

/-- A field of the wrong type is named by the error. -/
example : decode (.object (tagged .moveCursor |> put string "1".toList .offset)) =
    .error (.typeMismatch ["offset".toList]) := rfl

end ImeAction

end Hazkey
