import Hazkey.Utf8Sequences
import Mathlib.Data.List.Chain
import Mathlib.Logic.Relation

/-! The key under which candidates are told apart: the scan of the bytes with
its offsets, and what the key is of a text. -/

namespace Hazkey

namespace MozcSidecarB1

/-- How many bytes a first byte announces, and its part of the value. -/
def announced (first : Nat) : Option (Nat × Nat) :=
  if first < 0x80 then some (1, first)
  else if first &&& 0xe0 = 0xc0 then some (2, first &&& 0x1f)
  else if first &&& 0xf0 = 0xe0 then some (3, first &&& 0x0f)
  else if first &&& 0xf8 = 0xf0 then some (4, first &&& 0x07)
  else none

/-- The loop over so many continuation bytes. A read past the end is none. -/
def continuedAt (input : Data) : Nat → Nat → Nat → Option (Option Nat)
  | 0, _, value => some (some value)
  | count + 1, index, value => input[index]?.bind fun next =>
    if next.toNat &&& 0xc0 ≠ 0x80 then some none
    else continuedAt input count (index + 1) (value <<< 6 ||| next.toNat &&& 0x3f)

/-- `DecodeUtf8`, with the code point and the new offset. -/
def decodeUtf8At (input : Data) (offset : Nat) : Option (Option (Nat × Nat)) :=
  if input.length - offset = 0 then some none
  else input[offset]?.bind fun first =>
    match announced first.toNat with
    | none => some none
    | some (width, value) =>
      if input.length - offset < width then some none
      else (continuedAt input (width - 1) (offset + 1) value).map fun found =>
        found.map fun codePoint => (codePoint, offset + width)

/-- The loop of the scan. It is none when its rounds are used up. -/
def scanAt (input : Data) : Nat → List Nat → Nat → Option (Option (List Nat))
  | 0, _, _ => none
  | rounds + 1, codePoints, offset =>
    if offset < input.length then
      (decodeUtf8At input offset).bind fun decoded =>
        match decoded with
        | none => some none
        | some (codePoint, offset) => scanAt input rounds (pushCodePoint codePoints codePoint) offset
    else some (some codePoints)

def japaneseNfcDedupKey (input : Data) : Option Data :=
  (scanAt input (input.length + 1) [] 0).map fun scanned =>
    match scanned with
    | none => input
    | some codePoints => codePoints.flatMap appendUtf8

/-! ## Kana and their marks -/

/-- The kana that are canonically a kana and the voicing mark. -/
def voicedKana : List (Char × Char) :=
  [('が', 'か'), ('ぎ', 'き'), ('ぐ', 'く'), ('げ', 'け'), ('ご', 'こ'),
    ('ざ', 'さ'), ('じ', 'し'), ('ず', 'す'), ('ぜ', 'せ'), ('ぞ', 'そ'),
    ('だ', 'た'), ('ぢ', 'ち'), ('づ', 'つ'), ('で', 'て'), ('ど', 'と'),
    ('ば', 'は'), ('び', 'ひ'), ('ぶ', 'ふ'), ('べ', 'へ'), ('ぼ', 'ほ'),
    ('ゔ', 'う'), ('ゞ', 'ゝ'), ('ガ', 'カ'), ('ギ', 'キ'), ('グ', 'ク'),
    ('ゲ', 'ケ'), ('ゴ', 'コ'), ('ザ', 'サ'), ('ジ', 'シ'), ('ズ', 'ス'),
    ('ゼ', 'セ'), ('ゾ', 'ソ'), ('ダ', 'タ'), ('ヂ', 'チ'), ('ヅ', 'ツ'),
    ('デ', 'テ'), ('ド', 'ト'), ('バ', 'ハ'), ('ビ', 'ヒ'), ('ブ', 'フ'),
    ('ベ', 'ヘ'), ('ボ', 'ホ'), ('ヴ', 'ウ'), ('ヷ', 'ワ'), ('ヸ', 'ヰ'),
    ('ヹ', 'ヱ'), ('ヺ', 'ヲ'), ('ヾ', 'ヽ')]

/-- The kana that are canonically a kana and the semi-voicing mark. -/
def semiVoicedKana : List (Char × Char) :=
  [('ぱ', 'は'), ('ぴ', 'ひ'), ('ぷ', 'ふ'), ('ぺ', 'へ'), ('ぽ', 'ほ'),
    ('パ', 'ハ'), ('ピ', 'ヒ'), ('プ', 'フ'), ('ペ', 'ヘ'), ('ポ', 'ホ')]

def Spelled (kana base mark : Char) : Prop :=
  mark = '\u3099' ∧ (kana, base) ∈ voicedKana ∨ mark = '\u309a' ∧ (kana, base) ∈ semiVoicedKana

theorem composeJapaneseVoicing_of_not_mark {base mark : Nat} (h : mark ≠ 0x3099)
    (h' : mark ≠ 0x309a) : composeJapaneseVoicing base mark = 0 := by
  rw [composeJapaneseVoicing, if_pos ⟨h, h'⟩]

theorem mark_of_composed {base mark : Nat} (h : composeJapaneseVoicing base mark ≠ 0) :
    mark = 0x3099 ∨ mark = 0x309a := by
  by_contra hmark
  rw [not_or] at hmark
  exact h (composeJapaneseVoicing_of_not_mark hmark.1 hmark.2)

/-- The letters that take a mark, row by row. -/
theorem voiced_rows : (∀ b ∈ [0x304b, 0x3055, 0x30ab, 0x30b5], ∀ k < 5,
      ∃ p ∈ voicedKana, p.2.toNat = b + 2 * k) ∧
    (∀ b ∈ [0x306f, 0x30cf], ∀ k < 5, (∃ p ∈ voicedKana, p.2.toNat = b + 3 * k) ∧
      ∃ p ∈ semiVoicedKana, p.2.toNat = b + 3 * k) ∧
    (∀ k < 4, ∃ p ∈ voicedKana, p.2.toNat = 0x30ef + k) ∧
    ∀ b ∈ [0x3046, 0x305f, 0x3061, 0x3064, 0x3066, 0x3068, 0x309d, 0x30a6, 0x30bf, 0x30c1,
      0x30c4, 0x30c6, 0x30c8, 0x30fd], ∃ p ∈ voicedKana, p.2.toNat = b := by decide +kernel

/-- The letters of a pair are no marks, and the composed one takes no mark. -/
def Closed (p : Char × Char) (mark : Nat) : Prop :=
  composeJapaneseVoicing p.2.toNat mark = p.1.toNat ∧ p.1.toNat ≠ 0 ∧
    (p.2.toNat ≠ 0x3099 ∧ p.2.toNat ≠ 0x309a) ∧ (p.1.toNat ≠ 0x3099 ∧ p.1.toNat ≠ 0x309a) ∧
    p.1.toNat < 0x200000 ∧ composeJapaneseVoicing p.1.toNat 0x3099 = 0 ∧
    composeJapaneseVoicing p.1.toNat 0x309a = 0

instance (p : Char × Char) (mark : Nat) : Decidable (Closed p mark) :=
  inferInstanceAs (Decidable (_ ∧ _))

theorem kana_closed : (∀ p ∈ voicedKana, Closed p 0x3099) ∧
    ∀ p ∈ semiVoicedKana, Closed p 0x309a := by decide +kernel

theorem exists_voiceable {base : Nat} (h : isVoiceable base = true) :
    ∃ p ∈ voicedKana, p.2.toNat = base := by
  obtain ⟨hrows, -, -, hlone⟩ := voiced_rows
  have hrow : ∀ b ∈ [0x304b, 0x3055, 0x30ab, 0x30b5], inEveryOther base b (b + 8) = true →
      ∃ p ∈ voicedKana, p.2.toNat = base := by
    intro b hb hbase
    simp only [inEveryOther, Bool.and_eq_true, decide_eq_true_eq] at hbase
    obtain ⟨p, hp, heq⟩ := hrows b hb ((base - b) / 2) (by omega)
    exact ⟨p, hp, by omega⟩
  simp only [isVoiceable, Bool.or_eq_true, decide_eq_true_eq] at h
  rcases h with ((((((((((((h | h) | h) | h) | h) | h) | h) | h) | h) | h) | h) | h) | h) | h
  all_goals first
    | exact hrow _ (by decide) h
    | exact hlone base (by rw [h]; decide)

theorem exists_voiced {base : Nat} (h : composeJapaneseVoicing base 0x3099 ≠ 0) :
    ∃ p ∈ voicedKana, p.2.toNat = base := by
  obtain ⟨-, hbreaths, hwas, hlone⟩ := voiced_rows
  by_contra hnone
  have hother : ∀ b ∈ [0x3046, 0x305f, 0x3061, 0x3064, 0x3066, 0x3068, 0x309d, 0x30a6, 0x30bf,
      0x30c1, 0x30c4, 0x30c6, 0x30c8, 0x30fd], ¬((0x3099 : Nat) = 0x3099 ∧ base = b) :=
    fun b hb hbase => hnone (hbase.2 ▸ hlone b hb)
  have hbreath : ∀ b ∈ [0x306f, 0x30cf], ¬(b ≤ base ∧ base ≤ b + 12 ∧ (base - b) % 3 = 0) := by
    intro b hb hbase
    obtain ⟨p, hp, heq⟩ := (hbreaths b hb ((base - b) / 3) (by omega)).1
    exact hnone ⟨p, hp, by omega⟩
  have hwa : ¬((0x3099 : Nat) = 0x3099 ∧ 0x30ef ≤ base ∧ base ≤ 0x30f2) := by
    intro hbase
    obtain ⟨p, hp, heq⟩ := hwas (base - 0x30ef) (by omega)
    exact hnone ⟨p, hp, by omega⟩
  apply h
  rw [composeJapaneseVoicing, if_neg (by decide), if_neg (hother _ (by decide)),
    if_neg (hother _ (by decide)), if_neg (hother _ (by decide)), if_neg (hother _ (by decide)),
    if_neg fun hbase => hnone (exists_voiceable hbase.2), if_neg (hbreath 0x306f (by decide)),
    if_neg (hbreath 0x30cf (by decide)), if_neg hwa]

theorem exists_semiVoiced {base : Nat} (h : composeJapaneseVoicing base 0x309a ≠ 0) :
    ∃ p ∈ semiVoicedKana, p.2.toNat = base := by
  obtain ⟨-, hbreaths, -, -⟩ := voiced_rows
  by_contra hnone
  have hother : ∀ p : Prop, ¬((0x309a : Nat) = 0x3099 ∧ p) := fun p hp => by simp at hp
  have hbreath : ∀ b ∈ [0x306f, 0x30cf], ¬(b ≤ base ∧ base ≤ b + 12 ∧ (base - b) % 3 = 0) := by
    intro b hb hbase
    obtain ⟨p, hp, heq⟩ := (hbreaths b hb ((base - b) / 3) (by omega)).2
    exact hnone ⟨p, hp, by omega⟩
  apply h
  rw [composeJapaneseVoicing, if_neg (by decide), if_neg (hother _), if_neg (hother _),
    if_neg (hother _), if_neg (hother _), if_neg (hother _), if_neg (hbreath 0x306f (by decide)),
    if_neg (hbreath 0x30cf (by decide)), if_neg (hother _)]

/-- Neither the base nor what is composed is a mark, and what is composed takes no mark. -/
theorem compose_facts {base mark : Nat} (h : composeJapaneseVoicing base mark ≠ 0) :
    (mark = 0x3099 ∨ mark = 0x309a) ∧ (∀ n, composeJapaneseVoicing n base = 0) ∧
      (∀ n, composeJapaneseVoicing n (composeJapaneseVoicing base mark) = 0) ∧
      (∀ n, composeJapaneseVoicing (composeJapaneseVoicing base mark) n = 0) ∧
      composeJapaneseVoicing base mark < 0x200000 := by
  have hmark := mark_of_composed h
  have hentry : ∃ p, p.2.toNat = base ∧ Closed p mark := by
    rcases hmark with rfl | rfl
    · obtain ⟨p, hp, heq⟩ := exists_voiced h
      exact ⟨p, heq, kana_closed.1 p hp⟩
    · obtain ⟨p, hp, heq⟩ := exists_semiVoiced h
      exact ⟨p, heq, kana_closed.2 p hp⟩
  obtain ⟨p, rfl, hcomposed, -, hb, hc, hlt, hv, hs⟩ := hentry
  rw [hcomposed]
  refine ⟨hmark, fun n => composeJapaneseVoicing_of_not_mark hb.1 hb.2,
    fun n => composeJapaneseVoicing_of_not_mark hc.1 hc.2, fun n => ?_, hlt⟩
  by_contra hn
  rcases mark_of_composed hn with rfl | rfl
  · exact hn hv
  · exact hn hs

theorem exists_spelled {base mark : Char}
    (h : composeJapaneseVoicing base.toNat mark.toNat ≠ 0) : ∃ kana, Spelled kana base mark ∧
      kana.toNat = composeJapaneseVoicing base.toNat mark.toNat := by
  rcases mark_of_composed h with hmark | hmark
  · rw [hmark] at h ⊢
    obtain ⟨⟨k, b⟩, hp, hb⟩ := exists_voiced h
    obtain rfl : b = base := Char.toNat_inj.mp hb
    exact ⟨k, .inl ⟨Char.toNat_inj.mp hmark, hp⟩, (kana_closed.1 _ hp).1.symm⟩
  · rw [hmark] at h ⊢
    obtain ⟨⟨k, b⟩, hp, hb⟩ := exists_semiVoiced h
    obtain rfl : b = base := Char.toNat_inj.mp hb
    exact ⟨k, .inr ⟨Char.toNat_inj.mp hmark, hp⟩, (kana_closed.2 _ hp).1.symm⟩

theorem Spelled.composes {kana base mark : Char} (h : Spelled kana base mark) :
    composeJapaneseVoicing base.toNat mark.toNat ≠ 0 ∧
      composeJapaneseVoicing base.toNat mark.toNat = kana.toNat := by
  rcases h with ⟨rfl, h⟩ | ⟨rfl, h⟩
  · obtain ⟨hcomposed, hne, -⟩ := kana_closed.1 _ h
    exact ⟨by rw [show '\u3099'.toNat = 0x3099 from rfl, hcomposed]; exact hne, hcomposed⟩
  · obtain ⟨hcomposed, hne, -⟩ := kana_closed.2 _ h
    exact ⟨by rw [show '\u309a'.toNat = 0x309a from rfl, hcomposed]; exact hne, hcomposed⟩

/-! ## No read past the end -/

theorem continuedAt_eq (input : Data) (count index value : Nat)
    (h : index + count ≤ input.length) :
    continuedAt input count index value =
      some ((continuationBytes count value (input.drop index)).map Prod.fst) := by
  induction count generalizing index value with
  | zero => rfl
  | succ count ih =>
    have hlt : index < input.length := by omega
    have htail := ih (index + 1) (value <<< 6 ||| input[index].toNat &&& 0x3f) (by omega)
    rw [continuedAt, List.getElem?_eq_getElem hlt, Option.bind_some,
      List.drop_eq_getElem_cons hlt, continuationBytes]
    by_cases hmark : input[index].toNat &&& 0xc0 = 0x80
    · simp [hmark, htail]
    · simp [hmark]

theorem continuationBytes_rest {count value found : Nat} {input rest : Data}
    (h : continuationBytes count value input = some (found, rest)) :
    count ≤ input.length ∧ rest = input.drop count := by
  induction count generalizing value input with
  | zero =>
    have hrest : value = found ∧ input = rest := by simpa [continuationBytes] using h
    simp [hrest.2]
  | succ count ih =>
    cases input with
    | nil => simp [continuationBytes] at h
    | cons next input =>
      by_cases hmark : next.toNat &&& 0xc0 = 0x80
      · rw [continuationBytes, if_neg (not_not.mpr hmark)] at h
        obtain ⟨hcount, hrest⟩ := ih h
        exact ⟨Nat.succ_le_succ hcount, by simpa using hrest⟩
      · simp [continuationBytes, hmark] at h

theorem decodeUtf8_cons (first : UInt8) (rest : Data) :
    decodeUtf8 (first :: rest) =
      (announced first.toNat).bind fun x => continuationBytes (x.1 - 1) x.2 rest := by
  rw [decodeUtf8, announced]
  by_cases h1 : first.toNat < 0x80
  · simp [h1, continuationBytes]
  by_cases h2 : first.toNat &&& 0xe0 = 0xc0
  · simp [h1, h2]
  by_cases h3 : first.toNat &&& 0xf0 = 0xe0
  · simp [h1, h2, h3]
  by_cases h4 : first.toNat &&& 0xf8 = 0xf0
  · simp [h1, h2, h3, h4]
  · simp [h1, h2, h3, h4]

theorem announced_pos {first width value : Nat} (h : announced first = some (width, value)) :
    0 < width := by
  rw [announced] at h
  split_ifs at h <;>
  · obtain ⟨rfl, -⟩ := Prod.mk.inj (Option.some.inj h)
    decide

/-- The decoder with offsets is the one on what is left of the input. -/
theorem decodeUtf8At_eq (input : Data) (offset : Nat) :
    decodeUtf8At input offset = some ((decodeUtf8 (input.drop offset)).map fun x =>
      (x.1, input.length - x.2.length)) := by
  rw [decodeUtf8At]
  by_cases hend : input.length - offset = 0
  · have hdrop : input.drop offset = [] := List.drop_eq_nil_of_le (by omega)
    simp [hend, hdrop, decodeUtf8]
  · have hlt : offset < input.length := by omega
    rw [if_neg hend, List.getElem?_eq_getElem hlt, Option.bind_some,
      List.drop_eq_getElem_cons hlt, decodeUtf8_cons]
    cases hfirst : announced input[offset].toNat with
    | none => rfl
    | some x =>
      obtain ⟨width, value⟩ := x
      have hpos := announced_pos hfirst
      simp only [Option.bind_some]
      by_cases hshort : input.length - offset < width
      · cases hcontinued : continuationBytes (width - 1) value (input.drop (offset + 1)) with
        | none => simp [hshort]
        | some y =>
          have hcount := (continuationBytes_rest hcontinued).1
          rw [List.length_drop] at hcount
          omega
      · rw [if_neg hshort, continuedAt_eq input (width - 1) (offset + 1) value (by omega)]
        cases hcontinued : continuationBytes (width - 1) value (input.drop (offset + 1)) with
        | none => rfl
        | some y =>
          obtain ⟨found, rest⟩ := y
          obtain ⟨-, rfl⟩ := continuationBytes_rest hcontinued
          have hoffset : input.length - ((input.drop (offset + 1)).drop (width - 1)).length =
              offset + width := by
            rw [List.drop_drop, List.length_drop]
            omega
          simp only [Option.map_some, hoffset]

theorem decodeUtf8_rest {input rest : Data} {codePoint : Nat}
    (h : decodeUtf8 input = some (codePoint, rest)) :
    rest.length < input.length ∧ input.drop (input.length - rest.length) = rest := by
  obtain ⟨s, -, rfl⟩ := exists_of_decodeUtf8 h
  have hlength : (s.bytes ++ rest).length - rest.length = s.bytes.length := by
    rw [List.length_append]
    omega
  refine ⟨?_, by rw [hlength, List.drop_left]⟩
  simp only [Sequence.bytes, List.length_append, List.length_cons]
  omega

theorem composedCodePoints_cons (rounds : Nat) (codePoints : List Nat) (first : UInt8)
    (rest : Data) :
    composedCodePoints (rounds + 1) codePoints (first :: rest) =
      (decodeUtf8 (first :: rest)).bind fun x =>
        composedCodePoints rounds (pushCodePoint codePoints x.1) x.2 := by
  simp only [composedCodePoints]

theorem composedCodePoints_rounds {rounds rounds' : Nat} {input : Data} (codePoints : List Nat)
    (h : input.length ≤ rounds) (h' : input.length ≤ rounds') :
    composedCodePoints rounds codePoints input = composedCodePoints rounds' codePoints input := by
  induction rounds generalizing rounds' codePoints input with
  | zero =>
    obtain rfl : input = [] := List.eq_nil_of_length_eq_zero (by omega)
    cases rounds' <;> rfl
  | succ rounds ih =>
    cases input with
    | nil => cases rounds' <;> rfl
    | cons first input =>
      obtain ⟨rounds', rfl⟩ : ∃ n, rounds' = n + 1 := by
        cases rounds' with
        | zero => simp at h'
        | succ n => exact ⟨n, rfl⟩
      rw [composedCodePoints_cons, composedCodePoints_cons]
      cases hdecode : decodeUtf8 (first :: input) with
      | none => rfl
      | some x =>
        have hlt := (decodeUtf8_rest hdecode).1
        exact ih _ (by omega) (by omega)

theorem scanAt_eq {input : Data} {rounds : Nat} (codePoints : List Nat) {offset : Nat}
    (h : input.length - offset < rounds) :
    scanAt input rounds codePoints offset =
      some (composedCodePoints (input.length - offset) codePoints (input.drop offset)) := by
  induction rounds generalizing codePoints offset with
  | zero => omega
  | succ rounds ih =>
    rw [scanAt]
    by_cases hlt : offset < input.length
    · rw [if_pos hlt, decodeUtf8At_eq, Option.bind_some]
      obtain ⟨n, hn⟩ : ∃ n, input.length - offset = n + 1 := ⟨input.length - offset - 1, by omega⟩
      have hcons := List.drop_eq_getElem_cons hlt
      rw [hn, hcons, composedCodePoints_cons, ← hcons]
      cases hdecode : decodeUtf8 (input.drop offset) with
      | none => rfl
      | some x =>
        obtain ⟨codePoint, rest⟩ := x
        obtain ⟨hrest, hdrop⟩ := decodeUtf8_rest hdecode
        rw [List.length_drop] at hrest hdrop
        have hoffset : offset + (input.length - offset - rest.length) =
            input.length - rest.length := by omega
        rw [List.drop_drop, hoffset] at hdrop
        have hleft : input.length - (input.length - rest.length) < rounds := by omega
        have hscan := ih (pushCodePoint codePoints codePoint) hleft
        rw [hdrop] at hscan
        simp only [Option.map_some, Option.bind_some, hscan, Option.some.injEq]
        exact composedCodePoints_rounds _ (by omega) (by omega)
    · rw [if_neg hlt, List.drop_eq_nil_of_le (by omega)]
      cases input.length - offset <;> rfl

/-- The scan ends, reads nothing past the end, and is the one on lists. -/
theorem japaneseNfcDedupKey_eq (input : Data) :
    japaneseNfcDedupKey input = some (canonicalDedupKey input) := by
  rw [japaneseNfcDedupKey, scanAt_eq [] (by omega), Option.map_some, canonicalDedupKey,
    Nat.sub_zero, List.drop_zero]
  cases composedCodePoints input.length [] input <;> rfl

/-! ## What is composed -/

/-- From the front, each pair as one code point. -/
def composeAll : List Nat → List Nat
  | base :: mark :: rest =>
    if composeJapaneseVoicing base mark ≠ 0 then composeJapaneseVoicing base mark :: composeAll rest
    else base :: composeAll (mark :: rest)
  | codePoints => codePoints

/-- No two neighbours compose. -/
def Uncomposable (codePoints : List Nat) : Prop :=
  codePoints.IsChain fun base mark => composeJapaneseVoicing base mark = 0

theorem pushCodePoint_pair {base mark : Nat} (h : composeJapaneseVoicing base mark ≠ 0)
    (codePoints : List Nat) : pushCodePoint (codePoints ++ [base]) mark =
      codePoints ++ [composeJapaneseVoicing base mark] := by
  have hmark := (compose_facts h).1
  simp [pushCodePoint, h, hmark]

theorem pushCodePoint_apart {codePoints : List Nat} {codePoint : Nat}
    (h : ∀ base ∈ codePoints.getLast?, composeJapaneseVoicing base codePoint = 0) :
    pushCodePoint codePoints codePoint = codePoints ++ [codePoint] := by
  rw [pushCodePoint]
  cases hlast : codePoints.getLast? with
  | none => simp [List.getLast?_eq_none_iff.mp hlast]
  | some base => simp [h base hlast]

/-- The scan composes as if it looked ahead. -/
theorem foldl_pushCodePoint (codePoints before : List Nat)
    (h : ∀ base ∈ before.getLast?, ∀ mark ∈ codePoints.head?,
      composeJapaneseVoicing base mark = 0) :
    codePoints.foldl pushCodePoint before = before ++ composeAll codePoints := by
  induction codePoints using composeAll.induct generalizing before with
  | case1 base mark rest hcompose ih =>
    obtain ⟨-, -, -, hnext, -⟩ := compose_facts hcompose
    rw [List.foldl_cons, List.foldl_cons, pushCodePoint_apart fun b hb => h b hb base rfl,
      pushCodePoint_pair hcompose, ih, composeAll, if_pos hcompose, List.append_assoc]
    · rfl
    · intro b hb m _
      rw [List.getLast?_concat, Option.mem_some_iff] at hb
      exact hb ▸ hnext m
  | case2 base mark rest hcompose ih =>
    rw [List.foldl_cons, pushCodePoint_apart fun b hb => h b hb base rfl, ih, composeAll,
      if_neg hcompose, List.append_assoc]
    · rfl
    · intro b hb m hm
      rw [List.getLast?_concat, Option.mem_some_iff] at hb
      rw [List.head?_cons, Option.mem_some_iff] at hm
      rw [← hb, ← hm]
      exact not_not.mp hcompose
  | case3 rest hrest =>
    rcases rest with _ | ⟨c, _ | ⟨d, rest⟩⟩
    · simp [composeAll]
    · simp only [List.foldl_cons, List.foldl_nil, composeAll]
      exact pushCodePoint_apart fun b hb => h b hb c rfl
    · exact absurd rfl (hrest c d rest)

theorem head?_composeAll (base mark : Nat) (rest : List Nat)
    (h : composeJapaneseVoicing base mark = 0) :
    ∀ next ∈ (composeAll (mark :: rest)).head?, composeJapaneseVoicing base next = 0 := by
  intro next hnext
  cases rest with
  | nil =>
    obtain rfl : mark = next := by simpa [composeAll] using hnext
    exact h
  | cons d rest =>
    by_cases hcompose : composeJapaneseVoicing mark d = 0
    · obtain rfl : mark = next := by simpa [composeAll, hcompose] using hnext
      exact h
    · obtain rfl : composeJapaneseVoicing mark d = next := by
        simpa [composeAll, hcompose] using hnext
      exact (compose_facts hcompose).2.2.1 base

theorem uncomposable_composeAll (codePoints : List Nat) : Uncomposable (composeAll codePoints) := by
  induction codePoints using composeAll.induct with
  | case1 base mark rest hcompose ih =>
    rw [composeAll, if_pos hcompose, Uncomposable, List.isChain_cons]
    exact ⟨fun next _ => (compose_facts hcompose).2.2.2.1 next, ih⟩
  | case2 base mark rest hcompose ih =>
    rw [composeAll, if_neg hcompose, Uncomposable, List.isChain_cons]
    exact ⟨head?_composeAll base mark rest (not_not.mp hcompose), ih⟩
  | case3 rest hrest =>
    rcases rest with _ | ⟨c, _ | ⟨d, rest⟩⟩
    · exact .nil
    · exact .singleton c
    · exact absurd rfl (hrest c d rest)

theorem composeAll_eq_self {codePoints : List Nat} (h : Uncomposable codePoints) :
    composeAll codePoints = codePoints := by
  induction codePoints using composeAll.induct with
  | case1 base mark rest hcompose ih => exact absurd (List.isChain_cons_cons.mp h).1 hcompose
  | case2 base mark rest hcompose ih =>
    rw [composeAll, if_neg hcompose, ih (List.isChain_cons_cons.mp h).2]
  | case3 rest hrest =>
    rcases rest with _ | ⟨c, _ | ⟨d, rest⟩⟩
    · rfl
    · rfl
    · exact absurd rfl (hrest c d rest)

theorem composeAll_lt {codePoints : List Nat} (h : ∀ c ∈ codePoints, c < 0x200000) :
    ∀ c ∈ composeAll codePoints, c < 0x200000 := by
  induction codePoints using composeAll.induct with
  | case1 base mark rest hcompose ih =>
    rw [composeAll, if_pos hcompose, List.forall_mem_cons]
    obtain ⟨-, hrest⟩ := List.forall_mem_cons.mp (List.forall_mem_cons.mp h).2
    exact ⟨(compose_facts hcompose).2.2.2.2, ih hrest⟩
  | case2 base mark rest hcompose ih =>
    rw [composeAll, if_neg hcompose, List.forall_mem_cons]
    obtain ⟨hbase, hrest⟩ := List.forall_mem_cons.mp h
    exact ⟨hbase, ih hrest⟩
  | case3 rest hrest =>
    rcases rest with _ | ⟨c, _ | ⟨d, rest⟩⟩
    · exact h
    · exact h
    · exact absurd rfl (hrest c d rest)

/-! ## The key of the bytes -/

theorem composedCodePoints_bytes {rounds : Nat} (ss : List Sequence) (codePoints : List Nat)
    (h : (ss.flatMap Sequence.bytes).length ≤ rounds) :
    composedCodePoints rounds codePoints (ss.flatMap Sequence.bytes) =
      some ((ss.map Sequence.codePoint).foldl pushCodePoint codePoints) := by
  induction ss generalizing rounds codePoints with
  | nil => cases rounds <;> rfl
  | cons s ss ih =>
    have hdecode := decodeUtf8_bytes s (ss.flatMap Sequence.bytes)
    rw [List.flatMap_cons] at h ⊢
    have hbytes : ∃ first rest, s.bytes = first :: rest := ⟨_, _, rfl⟩
    obtain ⟨first, rest, hbytes⟩ := hbytes
    rw [hbytes, List.cons_append] at h hdecode ⊢
    cases rounds with
    | zero => simp at h
    | succ rounds =>
      rw [List.length_cons, List.length_append] at h
      rw [composedCodePoints_cons, hdecode, Option.bind_some, ih _ (by omega)]
      rfl

theorem exists_of_composedCodePoints {rounds : Nat} {codePoints found : List Nat} {input : Data}
    (h : composedCodePoints rounds codePoints input = some found) :
    ∃ ss : List Sequence, input = ss.flatMap Sequence.bytes := by
  induction rounds generalizing codePoints input with
  | zero =>
    cases input with
    | nil => exact ⟨[], rfl⟩
    | cons first rest => simp [composedCodePoints] at h
  | succ rounds ih =>
    cases input with
    | nil => exact ⟨[], rfl⟩
    | cons first rest =>
      rw [composedCodePoints_cons, Option.bind_eq_some_iff] at h
      obtain ⟨⟨codePoint, rest'⟩, hdecode, hrest⟩ := h
      obtain ⟨s, -, hinput⟩ := exists_of_decodeUtf8 hdecode
      obtain ⟨ss, rfl⟩ := ih hrest
      exact ⟨s :: ss, hinput⟩

theorem canonicalDedupKey_bytes (ss : List Sequence) :
    canonicalDedupKey (ss.flatMap Sequence.bytes) =
      (composeAll (ss.map Sequence.codePoint)).flatMap appendUtf8 := by
  rw [canonicalDedupKey, composedCodePoints_bytes ss [] (Nat.le_refl _),
    foldl_pushCodePoint _ [] (by simp), List.nil_append]
  rfl

theorem canonicalDedupKey_other {input : Data}
    (h : ∀ ss : List Sequence, input ≠ ss.flatMap Sequence.bytes) :
    canonicalDedupKey input = input := by
  rw [canonicalDedupKey]
  cases hfound : composedCodePoints input.length [] input with
  | none => rfl
  | some found =>
    obtain ⟨ss, hss⟩ := exists_of_composedCodePoints hfound
    exact absurd hss (h ss)

theorem exists_shortest_all {codePoints : List Nat} (h : ∀ c ∈ codePoints, c < 0x200000) :
    ∃ ss : List Sequence, (∀ s ∈ ss, s.Shortest) ∧ ss.map Sequence.codePoint = codePoints := by
  induction codePoints with
  | nil => exact ⟨[], by simp, rfl⟩
  | cons c codePoints ih =>
    obtain ⟨hc, hrest⟩ := List.forall_mem_cons.mp h
    obtain ⟨s, hs, hcode⟩ := exists_shortest hc
    obtain ⟨ss, hss, hcodes⟩ := ih hrest
    exact ⟨s :: ss, List.forall_mem_cons.mpr ⟨hs, hss⟩, by rw [List.map_cons, hcode, hcodes]⟩

/-- The key of sequences is made of the shortest sequences of what they compose to. -/
theorem exists_canonicalDedupKey (ss : List Sequence) : ∃ ts : List Sequence,
    (∀ t ∈ ts, t.Shortest) ∧ ts.map Sequence.codePoint = composeAll (ss.map Sequence.codePoint) ∧
      canonicalDedupKey (ss.flatMap Sequence.bytes) = ts.flatMap Sequence.bytes := by
  have hlt : ∀ c ∈ ss.map Sequence.codePoint, c < 0x200000 := by
    rw [List.forall_mem_map]
    exact fun s _ => s.codePoint_lt
  obtain ⟨ts, hts, hcodes⟩ := exists_shortest_all (composeAll_lt hlt)
  refine ⟨ts, hts, hcodes, ?_⟩
  rw [canonicalDedupKey_bytes, ← hcodes, flatMap_appendUtf8 hts]

theorem canonicalDedupKey_idempotent (input : Data) :
    canonicalDedupKey (canonicalDedupKey input) = canonicalDedupKey input := by
  by_cases h : ∃ ss : List Sequence, input = ss.flatMap Sequence.bytes
  · obtain ⟨ss, rfl⟩ := h
    obtain ⟨ts, hts, hcodes, hkey⟩ := exists_canonicalDedupKey ss
    rw [hkey, canonicalDedupKey_bytes, hcodes, composeAll_eq_self (uncomposable_composeAll _),
      ← hcodes, flatMap_appendUtf8 hts]
  · rw [not_exists] at h
    rw [canonicalDedupKey_other h, canonicalDedupKey_other h]

/-- Bytes are returned unchanged if and only if there is nothing to shorten or compose. -/
theorem canonicalDedupKey_eq_self {input : Data} :
    canonicalDedupKey input = input ↔
      ∀ ss : List Sequence, input = ss.flatMap Sequence.bytes →
        (∀ s ∈ ss, s.Shortest) ∧ Uncomposable (ss.map Sequence.codePoint) := by
  constructor
  · rintro h ss rfl
    obtain ⟨ts, hts, hcodes, hkey⟩ := exists_canonicalDedupKey ss
    obtain rfl : ts = ss := Sequence.flatMap_bytes_inj (hkey.symm.trans h)
    exact ⟨hts, hcodes ▸ uncomposable_composeAll _⟩
  · intro h
    by_cases hss : ∃ ss : List Sequence, input = ss.flatMap Sequence.bytes
    · obtain ⟨ss, rfl⟩ := hss
      obtain ⟨hshortest, hcodes⟩ := h ss rfl
      rw [canonicalDedupKey_bytes, composeAll_eq_self hcodes, flatMap_appendUtf8 hshortest]
    · exact canonicalDedupKey_other (not_exists.mp hss)

/-! ## The key of a text -/

/-- Every pair is composed, and every other scalar stays where it is. -/
inductive Composes : Text → Text → Prop
  | nil : Composes [] []
  | pair {kana base mark : Char} {rest rest' : Text} (h : Spelled kana base mark)
      (hrest : Composes rest rest') : Composes (base :: mark :: rest) (kana :: rest')
  | keep {c : Char} {rest rest' : Text} (h : ∀ mark ∈ rest.head?, ∀ kana, ¬Spelled kana c mark)
      (hrest : Composes rest rest') : Composes (c :: rest) (c :: rest')

/-- One kana of the first text is written as a base and a mark in the second. -/
def Respelled (text other : Text) : Prop :=
  ∃ before after kana base mark, Spelled kana base mark ∧
    text = before ++ kana :: after ∧ other = before ++ base :: mark :: after

theorem exists_composes (text : Text) : ∃ text', Composes text text' ∧
    composeAll (text.map Char.toNat) = text'.map Char.toNat := by
  induction h : text.length using Nat.strong_induction_on generalizing text with
  | _ n ih =>
    rcases text with _ | ⟨c, _ | ⟨d, rest⟩⟩
    · exact ⟨[], .nil, rfl⟩
    · exact ⟨[c], .keep (by simp) .nil, rfl⟩
    · by_cases hcompose : composeJapaneseVoicing c.toNat d.toNat = 0
      · obtain ⟨rest', hrest, heq⟩ := ih (d :: rest).length (by simp [← h]) (d :: rest) rfl
        refine ⟨c :: rest', .keep ?_ hrest, ?_⟩
        · intro mark hmark kana hspelled
          obtain rfl : d = mark := by simpa using hmark
          exact hspelled.composes.1 hcompose
        · rw [List.map_cons] at heq
          simp [composeAll, hcompose, heq]
      · obtain ⟨rest', hrest, heq⟩ := ih rest.length (by simp only [← h, List.length_cons]; omega) rest rfl
        obtain ⟨kana, hspelled, hkana⟩ := exists_spelled hcompose
        exact ⟨kana :: rest', .pair hspelled hrest, by simp [composeAll, hcompose, heq, hkana]⟩

theorem flatMap_appendUtf8_text (text : Text) :
    (text.map Char.toNat).flatMap appendUtf8 = utf8 text := by
  obtain ⟨ss, hss, hcodes, hbytes⟩ := exists_sequences text
  rw [← hcodes, hbytes, flatMap_appendUtf8 hss]

theorem canonicalDedupKey_utf8 (text : Text) : canonicalDedupKey (utf8 text) =
    (composeAll (text.map Char.toNat)).flatMap appendUtf8 := by
  obtain ⟨ss, -, hcodes, hbytes⟩ := exists_sequences text
  rw [hbytes, canonicalDedupKey_bytes, hcodes]

theorem exists_canonicalDedupKey_text (text : Text) :
    ∃ text', Composes text text' ∧ canonicalDedupKey (utf8 text) = utf8 text' := by
  obtain ⟨text', hcomposes, heq⟩ := exists_composes text
  refine ⟨text', hcomposes, ?_⟩
  rw [canonicalDedupKey_utf8, heq, flatMap_appendUtf8_text]

theorem Respelled.cons {text other : Text} (h : Respelled text other) (c : Char) :
    Respelled (c :: text) (c :: other) := by
  obtain ⟨before, after, kana, base, mark, hspelled, rfl, rfl⟩ := h
  exact ⟨c :: before, after, kana, base, mark, hspelled, rfl, rfl⟩

/-- A text is its composed form with kana written in two. -/
theorem Composes.respelled {text text' : Text} (h : Composes text text') :
    Relation.ReflTransGen Respelled text' text := by
  induction h with
  | nil => exact .refl
  | @pair kana base mark rest rest' hspelled _ ih =>
    have hrest := Relation.ReflTransGen.lift (kana :: ·) (fun _ _ h => Respelled.cons h kana) _ _ ih
    exact hrest.tail ⟨[], rest, kana, base, mark, hspelled, rfl, rfl⟩
  | @keep c rest rest' _ _ ih =>
    exact Relation.ReflTransGen.lift (c :: ·) (fun _ _ h => Respelled.cons h c) _ _ ih

theorem Respelled.foldl_eq {text other : Text} (h : Respelled text other) :
    (text.map Char.toNat).foldl pushCodePoint [] =
      (other.map Char.toNat).foldl pushCodePoint [] := by
  obtain ⟨before, after, kana, base, mark, hspelled, rfl, rfl⟩ := h
  obtain ⟨hne, hkana⟩ := hspelled.composes
  obtain ⟨-, hbase, hcomposed, -, -⟩ := compose_facts hne
  simp only [List.map_append, List.map_cons, List.foldl_append, List.foldl_cons]
  rw [pushCodePoint_apart fun b _ => hkana ▸ hcomposed b, pushCodePoint_apart fun b _ => hbase b,
    pushCodePoint_pair hne, hkana]

theorem Respelled.key_eq {text other : Text} (h : Respelled text other) :
    canonicalDedupKey (utf8 text) = canonicalDedupKey (utf8 other) := by
  have hfold := h.foldl_eq
  rw [foldl_pushCodePoint _ [] (by simp), foldl_pushCodePoint _ [] (by simp), List.nil_append,
    List.nil_append] at hfold
  rw [canonicalDedupKey_utf8, canonicalDedupKey_utf8, hfold]

/-- Texts have one key if and only if they differ only in how kana are written. -/
theorem canonicalDedupKey_eq_iff {text other : Text} :
    canonicalDedupKey (utf8 text) = canonicalDedupKey (utf8 other) ↔
      Relation.EqvGen Respelled text other := by
  constructor
  · intro h
    obtain ⟨text', hcomposes, hkey⟩ := exists_canonicalDedupKey_text text
    obtain ⟨other', hcomposes', hkey'⟩ := exists_canonicalDedupKey_text other
    obtain rfl : text' = other' := utf8_injective (hkey.symm.trans (h.trans hkey'))
    exact .trans _ _ _ (.symm _ _ (Relation.EqvGen.reflTransGen_le_eqvGen Respelled _ _ hcomposes.respelled))
      (Relation.EqvGen.reflTransGen_le_eqvGen Respelled _ _ hcomposes'.respelled)
  · intro h
    induction h with
    | rel _ _ h => exact h.key_eq
    | refl _ => rfl
    | symm _ _ _ ih => exact ih.symm
    | trans _ _ _ _ _ ih ih' => exact ih.trans ih'

structure NormalForm (input : Data) : Prop where
  total : ∃ key, japaneseNfcDedupKey input = some key ∧ japaneseNfcDedupKey key = some key
  composes : ∀ text, input = utf8 text →
    ∃ text', Composes text text' ∧ japaneseNfcDedupKey input = some (utf8 text')
  respelled : ∀ text other, input = utf8 text →
    (japaneseNfcDedupKey input = japaneseNfcDedupKey (utf8 other) ↔
      Relation.EqvGen Respelled text other)
  unchanged : (∀ text, input ≠ utf8 text) → japaneseNfcDedupKey input = some input

/-- Bytes that are no text are changed where a sequence is overlong or two code
points compose. -/
theorem normalForm_iff (input : Data) :
    NormalForm input ↔ (∃ text, input = utf8 text) ∨
      ∀ ss : List Sequence, input = ss.flatMap Sequence.bytes →
        (∀ s ∈ ss, s.Shortest) ∧ Uncomposable (ss.map Sequence.codePoint) := by
  rw [← canonicalDedupKey_eq_self]
  constructor
  · intro h
    by_cases htext : ∃ text, input = utf8 text
    · exact .inl htext
    · have hsame := h.unchanged (not_exists.mp htext)
      rw [japaneseNfcDedupKey_eq, Option.some.injEq] at hsame
      exact .inr hsame
  · intro h
    refine ⟨⟨canonicalDedupKey input, japaneseNfcDedupKey_eq input, ?_⟩, ?_, ?_, ?_⟩
    · rw [japaneseNfcDedupKey_eq, canonicalDedupKey_idempotent]
    · rintro text rfl
      obtain ⟨text', hcomposes, hkey⟩ := exists_canonicalDedupKey_text text
      exact ⟨text', hcomposes, by rw [japaneseNfcDedupKey_eq, hkey]⟩
    · rintro text other rfl
      rw [japaneseNfcDedupKey_eq, japaneseNfcDedupKey_eq, Option.some.injEq,
        canonicalDedupKey_eq_iff]
    · intro htext
      rw [japaneseNfcDedupKey_eq]
      rcases h with ⟨text, rfl⟩ | h
      · exact absurd rfl (htext text)
      · rw [h]

/-- NUL in two bytes. -/
def overlongNul : Sequence := ⟨0, [0], by decide, by decide, by decide⟩

theorem japaneseNfcDedupKey_overlong :
    (∀ text, overlongNul.bytes ≠ utf8 text) ∧ overlongNul.bytes = [0xc0, 0x80] ∧
      japaneseNfcDedupKey [0xc0, 0x80] = some [0] := by
  refine ⟨fun text h => ?_, by decide, by decide⟩
  obtain ⟨ss, hss, -, hbytes⟩ := exists_sequences text
  obtain rfl : [overlongNul] = ss := Sequence.flatMap_bytes_inj (by simpa [h] using hbytes)
  exact absurd (hss overlongNul (by simp)) (by decide)

end MozcSidecarB1

end Hazkey
