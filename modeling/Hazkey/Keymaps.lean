import Mathlib.Data.List.AList

/-! The keymaps of a profile: tables of the server, and files of the user with one rule on each
line, its columns separated by tabs. -/

namespace Hazkey.HazkeyServerConfig

variable {Character : Type} [DecidableEq Character]

/-- `[Character: (Character, Character?)]`. -/
abbrev Keymap (Character : Type) := AList fun _ : Character => Character × Option Character

structure EnabledKeymap where
  filename : String
  isBuiltIn : Bool

/-- What `loadKeymap` reads: the two separators, the tables of the server, and each file as the
Characters of its text, absent where it cannot be read. -/
structure KeymapSources (Character : Type) where
  newline : Character
  tab : Character
  JISKanaMap : Keymap Character
  japaneseSymbolMap : Keymap Character
  fullwidthPeriodMap : Keymap Character
  fullwidthCommaMap : Keymap Character
  fullwidthSymbolMap : Keymap Character
  fullwidthNumberMap : Keymap Character
  fullwidthSpaceMap : Keymap Character
  contentsOf : String → Option (List Character)

/-- `split(separator:)`, which drops the empty parts. -/
def split (separator : Character) (s : List Character) : List (List Character) :=
  (s.splitOn separator).filter fun part => !part.isEmpty

def KeymapSources.builtIn (sources : KeymapSources Character) (filename : String) :
    Option (Keymap Character) :=
  match filename with
  | "JIS Kana" => some sources.JISKanaMap
  | "Japanese Symbol" => some sources.japaneseSymbolMap
  | "Fullwidth Period" => some sources.fullwidthPeriodMap
  | "Fullwidth Comma" => some sources.fullwidthCommaMap
  | "Fullwidth Symbol" => some sources.fullwidthSymbolMap
  | "Fullwidth Number" => some sources.fullwidthNumberMap
  | "Fullwidth Space" => some sources.fullwidthSpaceMap
  | _ => none

/-- One line of a custom file; `none` is a trap. -/
def loadColumns (newKeymapRule : Keymap Character) (cols : List (List Character)) :
    Option (Keymap Character) :=
  match cols with
  | [] => none  -- `cols[0]` is out of range
  | first :: rest =>
    match first.head? with
    | none => some newKeymapRule
    | some key =>
      match rest with
      | [] => some (newKeymapRule.erase key)
      | [second] => do
        let output ← second.head?
        return newKeymapRule.insert key (output, none)
      | second :: third :: _ => do
        let output ← second.head?
        return newKeymapRule.insert key (output, third.head?)

def KeymapSources.lines (sources : KeymapSources Character) (content : List Character) :
    List (List (List Character)) :=
  (split sources.newline content).map (split sources.tab)

def KeymapSources.loadCustom (sources : KeymapSources Character) (content : List Character) :
    Option (Keymap Character) :=
  (sources.lines content).foldlM loadColumns ∅

/-- The rules of one enabled keymap, none where it is skipped. -/
def KeymapSources.newKeymapRule (sources : KeymapSources Character) (enabled : EnabledKeymap) :
    Option (Option (Keymap Character)) :=
  if enabled.isBuiltIn then some (sources.builtIn enabled.filename)
  else
    match sources.contentsOf enabled.filename with
    | none => some none
    | some content => (sources.loadCustom content).map some

/-- `merge(_:uniquingKeysWith:)` where the second value wins. -/
def merged (maps newKeymapRule : Keymap Character) : Keymap Character := newKeymapRule ∪ maps

def loadKeymap (sources : KeymapSources Character) (enabledKeymaps : List EnabledKeymap) :
    Option (Keymap Character) :=
  enabledKeymaps.reverse.foldlM (fun maps enabled => do
    match ← sources.newKeymapRule enabled with
    | none => return maps
    | some newKeymapRule => return merged maps newKeymapRule) ∅

theorem split_ne_nil {separator : Character} {s part : List Character}
    (h : part ∈ split separator s) : part ≠ [] := by
  rintro rfl
  simp [split] at h

theorem split_eq_nil {separator : Character} {s : List Character} :
    split separator s = [] ↔ ∀ c ∈ s, c = separator := by
  induction s with
  | nil => simp [split]
  | cons x s ih =>
    by_cases hx : x = separator
    · subst hx
      have hsplit : split x (x :: s) = split x s := by
        simp [split, List.splitOn_cons_eq_if_modifyHead]
      rw [hsplit, ih]
      simp
    · have hne : split separator (x :: s) ≠ [] := by
        obtain ⟨part, parts, hparts⟩ := List.exists_cons_of_ne_nil (List.splitOn_ne_nil separator s)
        simp [split, List.splitOn_cons_eq_if_modifyHead, hx, hparts]
      simp [hne, hx]

/-! What a file and a list of keymaps say of one character. -/

/-- The line is about the key. -/
def Mentions (key : Character) (cols : List (List Character)) : Bool :=
  cols.head?.bind List.head? == some key

/-- The rule on a line: nothing where the line has only the key. -/
def ruleOn : List (List Character) → Option (Character × Option Character)
  | _ :: second :: rest => second.head?.map fun output => (output, rest.head?.bind List.head?)
  | _ => none

/-- What the last of the lines about a key says. -/
def lastRule (lines : List (List (List Character))) (key : Character) :
    Option (Character × Option Character) :=
  (lines.reverse.find? (Mentions key)).bind ruleOn

/-- The rule of one keymap for a key. -/
def KeymapSources.defines (sources : KeymapSources Character) (key : Character)
    (enabled : EnabledKeymap) : Option (Character × Option Character) :=
  if enabled.isBuiltIn then (sources.builtIn enabled.filename).bind (·.lookup key)
  else (sources.contentsOf enabled.filename).bind fun content =>
    lastRule (sources.lines content) key

/-- Every line of the file has a character that is no tab. -/
def KeymapSources.Columned (sources : KeymapSources Character) (content : List Character) : Prop :=
  ∀ line ∈ split sources.newline content, ∃ c ∈ line, c ≠ sources.tab

instance (sources : KeymapSources Character) (content : List Character) :
    Decidable (sources.Columned content) :=
  inferInstanceAs (Decidable (∀ line ∈ split sources.newline content, ∃ c ∈ line, c ≠ sources.tab))

/-- A line with columns, none of them empty, is loaded. -/
theorem loadColumns_spec {cols : List (List Character)} (hcols : cols ≠ [])
    (hparts : ∀ part ∈ cols, part ≠ []) (m : Keymap Character) :
    ∃ m', loadColumns m cols = some m' ∧
      ∀ key, m'.lookup key = if Mentions key cols then ruleOn cols else m.lookup key := by
  obtain ⟨first, rest, rfl⟩ := List.exists_cons_of_ne_nil hcols
  obtain ⟨k, first', rfl⟩ := List.exists_cons_of_ne_nil (hparts first List.mem_cons_self)
  have hmentions : ∀ key, Mentions key ((k :: first') :: rest) = (k == key) := fun key => rfl
  cases rest with
  | nil =>
    refine ⟨m.erase k, rfl, fun key => ?_⟩
    rw [hmentions]
    by_cases hkey : k = key
    · subst hkey
      simp [ruleOn, AList.lookup_erase]
    · simp [hkey, AList.lookup_erase_ne (Ne.symm hkey)]
  | cons second rest =>
    obtain ⟨output, second', rfl⟩ := List.exists_cons_of_ne_nil (hparts second (by simp))
    have hload : loadColumns m ((k :: first') :: (output :: second') :: rest) =
        some (m.insert k (output, rest.head?.bind List.head?)) := by
      cases rest <;> rfl
    refine ⟨_, hload, fun key => ?_⟩
    rw [hmentions]
    by_cases hkey : k = key
    · subst hkey
      simp [ruleOn]
    · simp [hkey, AList.lookup_insert_ne (Ne.symm hkey)]

theorem foldlM_loadColumns {lines : List (List (List Character))} (hcols : [] ∉ lines)
    (hparts : ∀ cols ∈ lines, ∀ part ∈ cols, part ≠ []) (m : Keymap Character) :
    ∃ m', lines.foldlM loadColumns m = some m' ∧ ∀ key, m'.lookup key =
      (lines.reverse.find? (Mentions key)).elim (m.lookup key) ruleOn := by
  induction lines generalizing m with
  | nil => exact ⟨m, rfl, fun key => rfl⟩
  | cons cols lines ih =>
    have hne : cols ≠ [] := fun h => hcols (h ▸ List.mem_cons_self)
    obtain ⟨m₁, hm₁, hlookup₁⟩ := loadColumns_spec hne (hparts cols List.mem_cons_self) m
    obtain ⟨m', hm', hlookup⟩ := ih (fun h => hcols (List.mem_cons_of_mem _ h))
      (fun cols' h => hparts cols' (List.mem_cons_of_mem _ h)) m₁
    refine ⟨m', by simp [hm₁, hm'], fun key => ?_⟩
    rw [hlookup, hlookup₁, List.reverse_cons, List.find?_append]
    cases hfind : lines.reverse.find? (Mentions key) with
    | some cols' => rfl
    | none => by_cases hkey : Mentions key cols = true <;> simp [hkey]

theorem foldlM_loadColumns_trap {lines : List (List (List Character))} (hcols : [] ∈ lines)
    (m : Keymap Character) : lines.foldlM loadColumns m = none := by
  induction lines generalizing m with
  | nil => simp at hcols
  | cons cols lines ih =>
    rw [List.foldlM_cons]
    rcases List.mem_cons.mp hcols with rfl | hmem
    · rfl
    · cases loadColumns m cols with
      | none => rfl
      | some m₁ => exact ih hmem m₁

variable {sources : KeymapSources Character} {content : List Character}

theorem nil_mem_lines : [] ∈ sources.lines content ↔ ¬ sources.Columned content := by
  simp only [KeymapSources.lines, List.mem_map, split_eq_nil, KeymapSources.Columned]
  push Not
  rfl

theorem loadCustom_spec (h : sources.Columned content) :
    ∃ m, sources.loadCustom content = some m ∧
      ∀ key, m.lookup key = lastRule (sources.lines content) key := by
  have hparts : ∀ cols ∈ sources.lines content, ∀ part ∈ cols, part ≠ [] := by
    intro cols hcols part hpart
    obtain ⟨line, -, rfl⟩ := List.mem_map.mp hcols
    exact split_ne_nil hpart
  obtain ⟨m, hm, hlookup⟩ :=
    foldlM_loadColumns (fun hnil => nil_mem_lines.mp hnil h) hparts (∅ : Keymap Character)
  refine ⟨m, hm, fun key => ?_⟩
  rw [hlookup, lastRule]
  cases (sources.lines content).reverse.find? (Mentions key) <;> rfl

theorem loadCustom_eq_none : sources.loadCustom content = none ↔ ¬ sources.Columned content := by
  constructor
  · intro hnone hcolumned
    obtain ⟨m, hm, -⟩ := loadCustom_spec hcolumned
    rw [hnone] at hm
    cases hm
  · exact fun h => foldlM_loadColumns_trap (nil_mem_lines.mpr h) ∅

/-- The file of an enabled keymap, where it is read, has no line of tabs only. -/
def KeymapSources.Loadable (sources : KeymapSources Character) (enabled : EnabledKeymap) : Prop :=
  enabled.isBuiltIn = false → ∀ content, sources.contentsOf enabled.filename = some content →
    sources.Columned content

theorem newKeymapRule_spec {enabled : EnabledKeymap} (h : sources.Loadable enabled) :
    ∃ new, sources.newKeymapRule enabled = some new ∧
      ∀ key, sources.defines key enabled = new.bind (·.lookup key) := by
  unfold KeymapSources.newKeymapRule KeymapSources.defines
  by_cases hbuiltIn : enabled.isBuiltIn = true
  · exact ⟨_, if_pos hbuiltIn, fun key => if_pos hbuiltIn⟩
  · simp only [if_neg hbuiltIn]
    cases hcontent : sources.contentsOf enabled.filename with
    | none => exact ⟨none, rfl, fun key => rfl⟩
    | some content =>
      obtain ⟨m, hm, hlookup⟩ := loadCustom_spec (h (by simpa using hbuiltIn) content hcontent)
      exact ⟨some m, by simp [hm], fun key => (hlookup key).symm⟩

theorem newKeymapRule_eq_none {enabled : EnabledKeymap} :
    sources.newKeymapRule enabled = none ↔ ¬ sources.Loadable enabled := by
  constructor
  · intro hnone hloadable
    obtain ⟨new, hnew, -⟩ := newKeymapRule_spec hloadable
    rw [hnone] at hnew
    cases hnew
  · intro h
    unfold KeymapSources.Loadable at h
    push Not at h
    obtain ⟨hbuiltIn, content, hcontent, hcolumned⟩ := h
    simp [KeymapSources.newKeymapRule, hbuiltIn, hcontent, loadCustom_eq_none.mpr hcolumned]

theorem lookup_merged (maps new : Keymap Character) (key : Character) :
    (merged maps new).lookup key = (new.lookup key).or (maps.lookup key) := by
  by_cases hkey : key ∈ new
  · obtain ⟨value, hvalue⟩ := Option.isSome_iff_exists.mp (AList.lookup_isSome.mpr hkey)
    rw [merged, AList.lookup_union_left hkey, hvalue]
    rfl
  · rw [merged, AList.lookup_union_right hkey, AList.lookup_eq_none.mpr hkey]
    rfl

theorem loadKeymap_cons (enabled : EnabledKeymap) (rest : List EnabledKeymap) :
    loadKeymap sources (enabled :: rest) = (loadKeymap sources rest).bind fun maps =>
      (sources.newKeymapRule enabled).map fun new => new.elim maps (merged maps) := by
  unfold loadKeymap
  rw [List.reverse_cons, List.foldlM_append]
  congr 1
  funext maps
  cases hnew : sources.newKeymapRule enabled with
  | none => simp [hnew]
  | some new => cases new <;> simp [hnew]

theorem loadKeymap_spec {enabledKeymaps : List EnabledKeymap}
    (h : ∀ enabled ∈ enabledKeymaps, sources.Loadable enabled) :
    ∃ maps, loadKeymap sources enabledKeymaps = some maps ∧
      ∀ key, maps.lookup key = enabledKeymaps.findSome? (sources.defines key) := by
  induction enabledKeymaps with
  | nil => exact ⟨∅, rfl, fun key => rfl⟩
  | cons enabled rest ih =>
    obtain ⟨maps, hmaps, hlookup⟩ := ih fun e he => h e (List.mem_cons_of_mem _ he)
    obtain ⟨new, hnew, hdefines⟩ := newKeymapRule_spec (h enabled List.mem_cons_self)
    rw [loadKeymap_cons, hmaps, hnew]
    refine ⟨_, rfl, fun key => ?_⟩
    rw [List.findSome?_cons, hdefines, ← hlookup]
    cases new with
    | none => rfl
    | some new =>
      show (merged maps new).lookup key = _
      rw [lookup_merged, Option.bind_some]
      cases new.lookup key <;> rfl

/-- The keymap is loaded as the list and the files say exactly if no enabled file that can be
read has a line of tabs only. -/
theorem loadKeymap_iff (enabledKeymaps : List EnabledKeymap) :
    (∃ maps, loadKeymap sources enabledKeymaps = some maps ∧
      ∀ key, maps.lookup key = enabledKeymaps.findSome? (sources.defines key)) ↔
    ∀ enabled ∈ enabledKeymaps, sources.Loadable enabled := by
  refine ⟨?_, loadKeymap_spec⟩
  rintro ⟨maps, hmaps, -⟩
  induction enabledKeymaps generalizing maps with
  | nil => simp
  | cons enabled rest ih =>
    rw [loadKeymap_cons] at hmaps
    obtain ⟨maps', hmaps', hnew⟩ := Option.bind_eq_some_iff.mp hmaps
    obtain ⟨new, hnew, -⟩ := Option.map_eq_some_iff.mp hnew
    have hloadable : sources.Loadable enabled := by
      by_contra hnot
      rw [newKeymapRule_eq_none.mpr hnot] at hnew
      cases hnew
    exact List.forall_mem_cons.mpr ⟨hloadable, ih maps' hmaps'⟩

/-- No built-in tables, and a file with a rule, a removal and then a line of one tab. -/
def tabLine : KeymapSources Char where
  newline := '\n'
  tab := '\t'
  JISKanaMap := ∅
  japaneseSymbolMap := ∅
  fullwidthPeriodMap := ∅
  fullwidthCommaMap := ∅
  fullwidthSymbolMap := ∅
  fullwidthNumberMap := ∅
  fullwidthSpaceMap := ∅
  contentsOf _ := some ['a', '\t', 'b', '\n', 'c', '\n', '\t', '\n']

theorem loadKeymap_tabLine :
    ¬ ∃ maps, loadKeymap tabLine [⟨"custom.tsv", false⟩] = some maps ∧
      ∀ key, maps.lookup key =
        [(⟨"custom.tsv", false⟩ : EnabledKeymap)].findSome? (tabLine.defines key) := by
  have htrap : loadKeymap tabLine [⟨"custom.tsv", false⟩] = none := by decide
  rintro ⟨maps, hmaps, -⟩
  rw [htrap] at hmaps
  cases hmaps

end Hazkey.HazkeyServerConfig
