import Hazkey.JsonLines
import Hazkey.QualityReports

/-! The frozen corpus as a table of four columns: the bytes that are hashed, and
the rows on which everything is checked. -/

namespace Hazkey.FrozenCorpus

open ConversionQuality JsonText KeyedCoding

-- Of the characters of a list, not of all characters.
attribute [local instance (1100)] List.decidableBAll

/-- `bytes.decode("utf-8")`. -/
def decodeUtf8 (data : Data) : Option Text :=
  data.toByteArray.utf8Decode?.map Array.toList

/-- The characters of the category Cc. -/
def control (c : Char) : Bool := c.toNat < 0x20 || (0x7F ≤ c.toNat && c.toNat ≤ 0x9F)

def validateTextField (U : UnicodeData) (value : Text) (context : String) :
    Except String Unit := do
  requireString value context
  require (value = U.nfc value) s!"{context} must be NFC-normalized"
  require (∀ c ∈ ['\t', '\r', '\n'], c ∉ value)
    s!"{context} must not contain TSV control characters"
  require (∀ c ∈ value, control c = false) s!"{context} must not contain control characters"

def tsvHeader : Text := "id\treading\texpected\tcategory\n".toList

def columns (row : ConversionQuality.Row) : List Text :=
  [row.id, row.reading, row.expected, row.category]

def encodeRow (row : ConversionQuality.Row) : Text :=
  List.intercalate ['\t'] (columns row) ++ ['\n']

def encodeRows (rows : List ConversionQuality.Row) : Data :=
  utf8 (tsvHeader ++ rows.flatMap encodeRow)

/-- What is checked of a row once its columns are told apart. -/
def validateRow (U : UnicodeData) (context : String) (lineNumber : Nat)
    (row : ConversionQuality.Row) : Except String Unit := do
  validateTextField U row.id s!"{context}:{lineNumber}.id"
  validateTextField U row.reading s!"{context}:{lineNumber}.reading"
  validateTextField U row.expected s!"{context}:{lineNumber}.expected"
  validateTextField U row.category s!"{context}:{lineNumber}.category"
  require (∀ value ∈ row.alternatives, value ≠ [])
    s!"{context}:{lineNumber}.expected has an empty alternative"
  require row.alternatives.Nodup s!"{context}:{lineNumber}.expected has duplicate alternatives"
  require (katakanaToHiragana U row.reading = row.reading)
    s!"{context}:{lineNumber}.reading is not normalized by katakana-to-hiragana.v1"

def parseLine (U : UnicodeData) (context : String) (lineNumber : Nat) (line : Text) :
    Except String ConversionQuality.Row := do
  match line.splitOn '\t' with
  | [id, reading, expected, category] =>
    validateRow U context lineNumber ⟨id, reading, expected, category⟩
    return ⟨id, reading, expected, category⟩
  | _ => .error s!"{context}:{lineNumber} must contain exactly four columns"

def parseLines (U : UnicodeData) (context : String) :
    Nat → List Text → Except String (List ConversionQuality.Row)
  | _, [] => .ok []
  | lineNumber, line :: lines => do
    let row ← parseLine U context lineNumber line
    let rows ← parseLines U context (lineNumber + 1) lines
    return row :: rows

def parseText (U : UnicodeData) (context : String) (text : Text) :
    Except String (List ConversionQuality.Row) :=
  match splitlines text with
  | [] => .error s!"{context} must have the exact four-column TSV header"
  | header :: lines => do
    require (header ++ ['\n'] = tsvHeader)
      s!"{context} must have the exact four-column TSV header"
    parseLines U context 2 lines

def parseTsv (U : UnicodeData) (data : Data) (context : String) :
    Except String (List ConversionQuality.Row) := do
  require (0x0D ∉ data) s!"{context} must use LF line endings"
  require (data.getLast? = some 0x0A) s!"{context} must end with LF"
  match decodeUtf8 data with
  | none => .error s!"{context} is not valid UTF-8"
  | some text => parseText U context text

/-! ## Bytes and characters -/

theorem decodeUtf8_eq_some {data : Data} {text : Text} :
    decodeUtf8 data = some text ↔ data = utf8 text := by
  have hencode : ∀ t : Text, decodeUtf8 (utf8 t) = some t := by
    intro t
    have ht : (utf8 t).toByteArray = t.utf8Encode := rfl
    rw [decodeUtf8, ht, List.utf8Decode?_utf8Encode]
    rfl
  constructor
  · intro h
    have hsome : data.toByteArray.utf8Decode?.isSome := by
      cases hd : data.toByteArray.utf8Decode? with
      | none => simp [decodeUtf8, hd] at h
      | some cs => rfl
    obtain ⟨t, ht⟩ := ByteArray.isSome_utf8Decode?_iff.mp hsome
    have hdata : data = utf8 t := by
      have hbytes := congrArg (fun b : ByteArray => b.data.toList) ht
      simpa [List.utf8Encode, List.toList_data_toByteArray, utf8] using hbytes
    rw [hdata, hencode t, Option.some.injEq] at h
    rw [hdata, h]
  · rintro rfl
    exact hencode text

theorem utf8EncodeChar_low {c : Char} (hc : c.toNat < 0x80) :
    String.utf8EncodeChar c = [UInt8.ofNat c.toNat] := by
  have hv : c.val.toNat ≤ 0x7f := Nat.le_of_lt_succ hc
  unfold String.utf8EncodeChar
  dsimp only
  rw [if_pos hv]
  rfl

theorem utf8EncodeChar_high {c : Char} (hc : 0x80 ≤ c.toNat) :
    ∀ b ∈ String.utf8EncodeChar c, 0x80 ≤ b.toNat := by
  have hv : 0x80 ≤ c.val.toNat := hc
  have hhigh : ∀ n, 0x80 ≤ n → n < 0x100 → 0x80 ≤ (UInt8.ofNat n).toNat := by
    intro n hn hn'
    rw [UInt8.toNat_ofNat']
    omega
  unfold String.utf8EncodeChar
  dsimp only
  rw [if_neg (by omega)]
  by_cases h2 : c.val.toNat ≤ 0x7ff
  · simp only [if_pos h2, List.forall_mem_cons]
    exact ⟨hhigh _ (by omega) (by omega), hhigh _ (by omega) (by omega), by simp⟩
  · by_cases h3 : c.val.toNat ≤ 0xffff
    · simp only [if_neg h2, if_pos h3, List.forall_mem_cons]
      exact ⟨hhigh _ (by omega) (by omega), hhigh _ (by omega) (by omega),
        hhigh _ (by omega) (by omega), by simp⟩
    · simp only [if_neg h2, if_neg h3, List.forall_mem_cons]
      exact ⟨hhigh _ (by omega) (by omega), hhigh _ (by omega) (by omega),
        hhigh _ (by omega) (by omega), hhigh _ (by omega) (by omega), by simp⟩

theorem mem_utf8EncodeChar {c : Char} {b : UInt8} (hb : b.toNat < 0x80) :
    b ∈ String.utf8EncodeChar c ↔ c.toNat = b.toNat := by
  by_cases hc : c.toNat < 0x80
  · rw [utf8EncodeChar_low hc, List.mem_singleton, ← UInt8.toNat_inj, UInt8.toNat_ofNat']
    omega
  · have hout : b ∉ String.utf8EncodeChar c := fun h => by
      have := utf8EncodeChar_high (by omega) b h
      omega
    have hne : c.toNat ≠ b.toNat := by omega
    simp [hout, hne]

theorem mem_utf8 {text : Text} {c : Char} {b : UInt8} (hb : b.toNat < 0x80)
    (hc : c.toNat = b.toNat) : b ∈ utf8 text ↔ c ∈ text := by
  rw [utf8, List.mem_flatMap]
  constructor
  · rintro ⟨d, hd, h⟩
    have hcd : c = d := Char.toNat_inj.mp (hc.trans ((mem_utf8EncodeChar hb).mp h).symm)
    rwa [hcd]
  · intro h
    exact ⟨c, h, (mem_utf8EncodeChar hb).mpr hc⟩

theorem getLast?_utf8 {text : Text} {c : Char} {b : UInt8} (hb : b.toNat < 0x80)
    (hc : c.toNat = b.toNat) : (utf8 text).getLast? = some b ↔ text.getLast? = some c := by
  have hone : String.utf8EncodeChar c = [b] := by
    rw [utf8EncodeChar_low (hc ▸ hb), hc, UInt8.ofNat_toNat]
  induction text using List.reverseRecOn with
  | nil => simp [utf8]
  | append_singleton text d _ =>
    have hd : utf8 [d] = String.utf8EncodeChar d := by simp [utf8]
    rw [utf8_append, hd, List.getLast?_append_of_ne_nil _ String.utf8EncodeChar_ne_nil,
      List.getLast?_concat, Option.some.injEq]
    constructor
    · intro h
      have hmem := (mem_utf8EncodeChar hb).mp (List.mem_of_getLast? h)
      exact Char.toNat_inj.mp (hmem.trans hc.symm)
    · rintro rfl
      simp [hone]

/-! ## Lines and rows -/

/-- What is left of the text when every break is written in one way. -/
def rejoined (text : Text) : Text := text.map fun c => if lineBreak c then '\n' else c

theorem rejoined_eq_self {text : Text} :
    rejoined text = text ↔ ∀ c ∈ text, lineBreak c = true → c = '\n' := by
  have hid : text = text.map id := (List.map_id text).symm
  conv_lhs => rw [rejoined]; rhs; rw [hid]
  rw [List.map_inj_left]
  refine forall₂_congr fun c _ => ?_
  by_cases hc : lineBreak c = true
  · simp [hc, eq_comm]
  · simp [hc]

theorem joinLines_linesFrom {text : Text} (line : Text) (hreturn : '\r' ∉ text)
    (hend : ∀ c, text.getLast? = some c → c = '\n') (hline : text = [] → line = []) :
    joinLines (linesFrom line false text) = line ++ rejoined text := by
  induction text generalizing line with
  | nil => simp [linesFrom, hline rfl, joinLines, rejoined]
  | cons c text ih =>
    have hreturn' : '\r' ∉ text := fun h => hreturn (List.mem_cons_of_mem _ h)
    have hend' : ∀ d, text.getLast? = some d → d = '\n' := by
      intro d hd
      apply hend
      rw [List.getLast?_cons, hd]
      rfl
    have hc : c ≠ '\r' := fun h => hreturn (h ▸ List.mem_cons_self)
    by_cases hbreak : lineBreak c = true
    · have htail := ih [] hreturn' hend' fun _ => rfl
      simp only [linesFrom, Bool.false_and, Bool.false_eq_true, if_false, if_pos hbreak, hc,
        decide_false]
      simp only [joinLines, List.flatMap_cons] at htail ⊢
      simp [htail, rejoined, hbreak]
    · have hne : text ≠ [] := by
        rintro rfl
        have := hend c rfl
        rw [this] at hbreak
        exact hbreak (by decide)
      have htail := ih (line ++ [c]) hreturn' hend' fun h => absurd h hne
      simp only [linesFrom, Bool.false_and, Bool.false_eq_true, if_false, if_neg hbreak, htail]
      simp [rejoined, hbreak]

theorem joinLines_splitlines {text : Text} (hreturn : '\r' ∉ text)
    (hend : text.getLast? = some '\n') : joinLines (splitlines text) = rejoined text := by
  have hlast : ∀ c, text.getLast? = some c → c = '\n' := by
    intro c hc
    rw [hend] at hc
    exact (Option.some.inj hc).symm
  exact joinLines_linesFrom [] hreturn hlast fun _ => rfl

structure FieldValid (U : UnicodeData) (field : Text) : Prop where
  ne_nil : field ≠ []
  normal : field = U.nfc field
  controls : ∀ c ∈ field, control c = false

structure RowValid (U : UnicodeData) (row : ConversionQuality.Row) : Prop where
  fields : ∀ field ∈ columns row, FieldValid U field
  answered : ∀ value ∈ row.alternatives, value ≠ []
  nodup : row.alternatives.Nodup
  hiragana : katakanaToHiragana U row.reading = row.reading

variable {U : UnicodeData} {context : String}

theorem FieldValid.not_mem {field : Text} (h : FieldValid U field) {c : Char}
    (hc : control c = true) : c ∉ field := fun hmem =>
  absurd hc (by simp [h.controls c hmem])

theorem validateTextField_eq_ok {field : Text} {u : Unit} :
    validateTextField U field context = .ok u ↔ FieldValid U field := by
  simp only [validateTextField, bind_eq_ok, requireString_eq_ok, require_eq_ok, exists_unit]
  constructor
  · rintro ⟨hne, hnormal, -, hcontrols⟩
    exact ⟨hne, hnormal, hcontrols⟩
  · intro h
    refine ⟨h.ne_nil, h.normal, fun c hc => h.not_mem ?_, h.controls⟩
    revert c
    decide

theorem validateRow_eq_ok {row : ConversionQuality.Row} {lineNumber : Nat} {u : Unit} :
    validateRow U context lineNumber row = .ok u ↔ RowValid U row := by
  simp only [validateRow, bind_eq_ok, validateTextField_eq_ok, require_eq_ok, exists_unit]
  constructor
  · rintro ⟨hid, hreading, hexpected, hcategory, hanswered, hnodup, hhiragana⟩
    exact ⟨by simp [columns, hid, hreading, hexpected, hcategory], hanswered, hnodup, hhiragana⟩
  · intro h
    have hfields := h.fields
    simp only [columns, List.forall_mem_cons] at hfields
    exact ⟨hfields.1, hfields.2.1, hfields.2.2.1, hfields.2.2.2.1, h.answered, h.nodup, h.hiragana⟩

/-- A row without its line end. -/
def rowLine (row : ConversionQuality.Row) : Text := List.intercalate ['\t'] (columns row)

theorem splitOn_rowLine {row : ConversionQuality.Row} (h : RowValid U row) :
    (rowLine row).splitOn '\t' = columns row :=
  List.splitOn_intercalate '\t' (fun field hfield => (h.fields field hfield).not_mem (by decide))
    (by simp [columns])

theorem parseLine_eq_ok {line : Text} {lineNumber : Nat} {row : ConversionQuality.Row} :
    parseLine U context lineNumber line = .ok row ↔ line = rowLine row ∧ RowValid U row := by
  constructor
  · intro h
    have hjoin : List.intercalate ['\t'] (line.splitOn '\t') = line :=
      List.intercalate_splitOn '\t'
    rw [parseLine] at h
    split at h
    · next id reading expected category hsplit =>
      simp only [bind_eq_ok, validateRow_eq_ok, exists_unit, pure_eq_ok] at h
      obtain ⟨hvalid, rfl⟩ := h
      rw [hsplit] at hjoin
      exact ⟨hjoin.symm, hvalid⟩
    · cases h
  · rintro ⟨rfl, hvalid⟩
    rw [parseLine, splitOn_rowLine hvalid]
    simp only [columns, bind_eq_ok, validateRow_eq_ok, exists_unit, pure_eq_ok]
    exact ⟨hvalid, trivial⟩

theorem parseLines_eq_ok {lineNumber : Nat} {lines : List Text}
    {rows : List ConversionQuality.Row} :
    parseLines U context lineNumber lines = .ok rows ↔
      lines = rows.map rowLine ∧ ∀ row ∈ rows, RowValid U row := by
  induction lines generalizing lineNumber rows with
  | nil => cases rows <;> simp [parseLines]
  | cons line lines ih =>
    simp only [parseLines, bind_eq_ok, parseLine_eq_ok, ih, pure_eq_ok]
    constructor
    · rintro ⟨row, ⟨rfl, hrow⟩, rows, ⟨rfl, hrows⟩, rfl⟩
      exact ⟨rfl, List.forall_mem_cons.mpr ⟨hrow, hrows⟩⟩
    · rintro ⟨hlines, hvalid⟩
      cases rows with
      | nil => simp at hlines
      | cons row rows =>
        obtain ⟨rfl, rfl⟩ := List.cons.inj hlines
        rw [List.forall_mem_cons] at hvalid
        exact ⟨row, ⟨rfl, hvalid.1⟩, rows, ⟨rfl, hvalid.2⟩, rfl⟩

/-! ## The two round trips -/

def headerLine : Text := "id\treading\texpected\tcategory".toList

theorem encodeRows_eq (rows : List ConversionQuality.Row) :
    encodeRows rows = utf8 (joinLines (headerLine :: rows.map rowLine)) := by
  have hrows : rows.flatMap encodeRow = joinLines (rows.map rowLine) := by
    rw [joinLines, List.flatMap_map]
    rfl
  have hheader : tsvHeader = headerLine ++ ['\n'] := by decide
  rw [encodeRows, hrows, hheader]
  rfl

theorem parseText_eq_ok {text : Text} {rows : List ConversionQuality.Row} :
    parseText U context text = .ok rows ↔
      splitlines text = headerLine :: rows.map rowLine ∧ ∀ row ∈ rows, RowValid U row := by
  have hheader : tsvHeader = headerLine ++ ['\n'] := by decide
  rw [parseText]
  cases hlines : splitlines text with
  | nil => simp
  | cons header lines =>
    simp only [bind_eq_ok, require_eq_ok, exists_unit, parseLines_eq_ok, hheader,
      List.append_left_inj, List.cons.injEq, and_assoc]

theorem parseTsv_eq_ok {data : Data} {rows : List ConversionQuality.Row} :
    parseTsv U data context = .ok rows ↔
      ∃ text, data = utf8 text ∧ '\r' ∉ text ∧ text.getLast? = some '\n' ∧
        splitlines text = headerLine :: rows.map rowLine ∧ ∀ row ∈ rows, RowValid U row := by
  simp only [parseTsv, bind_eq_ok, require_eq_ok, exists_unit]
  constructor
  · rintro ⟨hreturn, hend, h⟩
    cases hdecode : decodeUtf8 data with
    | none => simp [hdecode] at h
    | some text =>
      rw [hdecode] at h
      obtain rfl := decodeUtf8_eq_some.mp hdecode
      rw [mem_utf8 (c := '\r') (by decide) (by decide)] at hreturn
      rw [getLast?_utf8 (c := '\n') (by decide) (by decide)] at hend
      exact ⟨text, rfl, hreturn, hend, parseText_eq_ok.mp h⟩
  · rintro ⟨text, rfl, hreturn, hend, h⟩
    rw [mem_utf8 (c := '\r') (by decide) (by decide),
      getLast?_utf8 (c := '\n') (by decide) (by decide), decodeUtf8_eq_some.mpr rfl]
    exact ⟨hreturn, hend, parseText_eq_ok.mpr h⟩

/-- The bytes come back where every line was ended by a line feed. -/
theorem encodeRows_parseTsv {data : Data} {rows : List ConversionQuality.Row}
    (h : parseTsv U data context = .ok rows) :
    encodeRows rows = data ↔
      ∀ text, decodeUtf8 data = some text → ∀ c ∈ text, lineBreak c = true → c = '\n' := by
  obtain ⟨text, rfl, hreturn, hend, hlines, -⟩ := parseTsv_eq_ok.mp h
  have hrejoined : encodeRows rows = utf8 (rejoined text) := by
    rw [encodeRows_eq, ← hlines, joinLines_splitlines hreturn hend]
  have hdecode : ∀ t, decodeUtf8 (utf8 text) = some t ↔ t = text := by
    intro t
    rw [decodeUtf8_eq_some]
    exact ⟨fun he => (utf8_injective he).symm, fun he => he ▸ rfl⟩
  simp only [hdecode, forall_eq]
  rw [hrejoined, ← rejoined_eq_self]
  exact ⟨fun he => utf8_injective he, fun he => congrArg utf8 he⟩

/-- The breaks that are no control characters. -/
def separator (c : Char) : Bool := c = '\u2028' || c = '\u2029'

theorem lineBreak_eq_separator {c : Char} (hc : control c = false) :
    lineBreak c = separator c := by
  by_cases hbreak : lineBreak c = true
  · have hall : ∀ d ∈ ['\n', '\r', '\x0b', '\x0c', '\x1c', '\x1d', '\x1e', '\u0085', '\u2028',
        '\u2029'], control d = true ∨ separator d = true := by decide
    rcases hall c (by simpa [lineBreak] using hbreak) with h | h
    · simp [h] at hc
    · rw [hbreak, h]
  · have hnot : separator c ≠ true := by
      intro h
      have hsep : c = '\u2028' ∨ c = '\u2029' := by simpa [separator] using h
      rcases hsep with rfl | rfl <;> exact hbreak (by decide)
    rw [Bool.of_not_eq_true hbreak, Bool.of_not_eq_true hnot]

theorem mem_rowLine {row : ConversionQuality.Row} {c : Char} :
    c ∈ rowLine row ↔ c = '\t' ∨ ∃ field ∈ columns row, c ∈ field := by
  simp only [rowLine, columns, List.intercalate, List.intersperse, List.flatten_cons,
    List.flatten_nil, List.mem_append, List.mem_cons, List.not_mem_nil, or_false,
    exists_eq_or_imp, exists_eq_left]
  tauto

theorem unbroken_rowLine {row : ConversionQuality.Row} (h : RowValid U row) :
    Unbroken (rowLine row) ↔ ∀ field ∈ columns row, ∀ c ∈ field, separator c = false := by
  constructor
  · intro hline field hfield c hc
    rw [← lineBreak_eq_separator ((h.fields field hfield).controls c hc)]
    exact hline c (mem_rowLine.mpr (.inr ⟨field, hfield, hc⟩))
  · intro hfields c hc
    rcases mem_rowLine.mp hc with rfl | ⟨field, hfield, hc⟩
    · decide
    · rw [lineBreak_eq_separator ((h.fields field hfield).controls c hc)]
      exact hfields field hfield c hc

theorem getLast?_joinLines (t : Text) (ts : List Text) :
    (joinLines (t :: ts)).getLast? = some '\n' := by
  induction ts generalizing t with
  | nil => simp [joinLines]
  | cons t' ts ih =>
    have htail := ih t'
    simp only [joinLines, List.flatMap_cons] at htail ⊢
    rw [List.getLast?_append, htail, Option.some_or]

/-- Valid rows come back where no field has a separator in it. -/
theorem parseTsv_encodeRows {rows : List ConversionQuality.Row}
    (hvalid : ∀ row ∈ rows, RowValid U row) :
    parseTsv U (encodeRows rows) context = .ok rows ↔
      ∀ row ∈ rows, ∀ field ∈ columns row, ∀ c ∈ field, separator c = false := by
  constructor
  · intro h row hrow field hfield c hc
    have hcontrol := ((hvalid row hrow).fields field hfield).controls c hc
    by_contra hsep
    have hbreak : lineBreak c = true := by
      rw [lineBreak_eq_separator hcontrol]
      exact Bool.of_not_eq_false hsep
    have hmem : c ∈ joinLines (headerLine :: rows.map rowLine) := by
      rw [joinLines, List.mem_flatMap]
      refine ⟨rowLine row, List.mem_cons_of_mem _ (List.mem_map_of_mem hrow), ?_⟩
      exact List.mem_append_left _ (mem_rowLine.mpr (.inr ⟨field, hfield, hc⟩))
    have hfeed := (encodeRows_parseTsv h).mp rfl _ (decodeUtf8_eq_some.mpr (encodeRows_eq rows))
      c hmem hbreak
    rw [hfeed] at hcontrol
    exact absurd hcontrol (by decide)
  · intro hfields
    have hline : ∀ line ∈ headerLine :: rows.map rowLine, Unbroken line := by
      rw [List.forall_mem_cons, List.forall_mem_map]
      refine ⟨?_, fun row hrow => (unbroken_rowLine (hvalid row hrow)).mpr (hfields row hrow)⟩
      rw [Unbroken]
      decide
    refine parseTsv_eq_ok.mpr ⟨_, encodeRows_eq rows, ?_, ?_, splitlines_joinLines hline, hvalid⟩
    · intro hmem
      rw [joinLines, List.mem_flatMap] at hmem
      obtain ⟨line, hmem, h⟩ := hmem
      rcases List.mem_append.mp h with h | h
      · exact absurd (hline line hmem '\r' h) (by decide)
      · exact absurd h (by decide)
    · exact getLast?_joinLines headerLine (rows.map rowLine)

theorem tsv_exact_iff (U : UnicodeData) (context : String) :
    (∀ data rows, parseTsv U data context = .ok rows →
      (encodeRows rows = data ↔
        ∀ text, decodeUtf8 data = some text → ∀ c ∈ text, lineBreak c = true → c = '\n')) ∧
    ∀ rows, (∀ row ∈ rows, ∃ lineNumber, validateRow U context lineNumber row = .ok ()) →
      (parseTsv U (encodeRows rows) context = .ok rows ↔
        ∀ row ∈ rows, ∀ field ∈ columns row, ∀ c ∈ field, separator c = false) := by
  refine ⟨fun data rows h => encodeRows_parseTsv h, fun rows hrows => ?_⟩
  apply parseTsv_encodeRows
  intro row hrow
  obtain ⟨lineNumber, h⟩ := hrows row hrow
  exact validateRow_eq_ok.mp h

/-- Nothing to compose and no katakana. -/
def composedAlready : UnicodeData := ⟨id, id, id, fun _ => 'L'⟩

def sampleRow : ConversionQuality.Row := ⟨['1'], ['あ'], ['亜'], ['k']⟩

theorem tsv_exact_sample :
    encodeRows [sampleRow] = utf8 (headerLine ++ '\n' :: rowLine sampleRow ++ ['\n']) ∧
      parseTsv composedAlready (encodeRows [sampleRow]) "corpus" = .ok [sampleRow] := by
  have hvalid : ∀ row ∈ [sampleRow], ∃ lineNumber,
      validateRow composedAlready "corpus" lineNumber row = .ok () := by
    have hrow : validateRow composedAlready "corpus" 2 sampleRow = .ok () := by decide +kernel
    simpa using ⟨2, hrow⟩
  have hread : parseTsv composedAlready
      (utf8 (headerLine ++ '\n' :: rowLine sampleRow ++ ['\n'])) "corpus" = .ok [sampleRow] := by
    decide +kernel
  obtain ⟨hbytes, hrows⟩ := tsv_exact_iff composedAlready "corpus"
  refine ⟨(hbytes _ _ hread).mpr ?_, (hrows _ hvalid).mpr (by decide)⟩
  intro text htext
  obtain rfl := utf8_injective (decodeUtf8_eq_some.mp htext)
  decide

/-- A header that ends in a separator, and a field that has one. -/
theorem tsv_separator :
    (parseTsv composedAlready (utf8 (headerLine ++ '\u2028' :: rowLine sampleRow ++ ['\n'])) "corpus"
        = .ok [sampleRow] ∧
      encodeRows [sampleRow] ≠ utf8 (headerLine ++ '\u2028' :: rowLine sampleRow ++ ['\n'])) ∧
    validateRow composedAlready "corpus" 2 { sampleRow with expected := ['亜', '\u2028'] } = .ok () ∧
      parseTsv composedAlready (encodeRows [{ sampleRow with expected := ['亜', '\u2028'] }])
        "corpus" ≠ .ok [{ sampleRow with expected := ['亜', '\u2028'] }] := by
  decide +kernel

end Hazkey.FrozenCorpus
