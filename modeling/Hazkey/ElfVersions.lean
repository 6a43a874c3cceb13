import Hazkey.ElfRuntime
import Hazkey.ElfReads

/-! Which version of a family is found to be required, whatever the order of the set. -/

namespace Hazkey.BundleVerification

open TracedRuns Traced WeakOrders

variable {family value : Text} {order : SetOrder} {names : List Text} {name : String}

/-- The number of a version, of any length. -/
def versionKey (family value : Text) : Option (List ℕ) :=
  (versionDigits family value).map (List.map numeral)

/-- A version of the family with a component that `int` refuses. -/
def TooLong (family value : Text) : Prop :=
  ∃ components, versionDigits family value = some components ∧
    ∃ component ∈ components, maxDigits < component.length

theorem parseInt_eq_ok {digits : Text} {n : ℕ} :
    (parseInt digits).result = .ok n ↔ digits.length ≤ maxDigits ∧ n = numeral digits := by
  by_cases h : digits.length ≤ maxDigits
  · simp [parseInt, h, pure_eq_ok]
  · simp [parseInt, h, fail_ne_ok]

theorem parseComponents_eq_ok {components : List Text} {key : List ℕ} :
    (collect parseComponent components).result = .ok key ↔
      (∀ component ∈ components, component.length ≤ maxDigits) ∧ key = components.map numeral := by
  have hone : ∀ component n, (parseComponent component).result = .ok n ↔
      component.length ≤ maxDigits ∧ n = some (numeral component) := fun component n => by
    simp only [parseComponent, bind_eq_ok, parseInt_eq_ok, pure_eq_ok]
    constructor
    · rintro ⟨_, ⟨hlength, rfl⟩, rfl⟩
      exact ⟨hlength, rfl⟩
    · rintro ⟨hlength, rfl⟩
      exact ⟨_, ⟨hlength, rfl⟩, rfl⟩
  rw [collect_eq_ok hone, ← List.filterMap_eq_map]
  rfl

/-- A version with its number, when it is one of the family. -/
def keyed (family value : Text) : Option (Text × List ℕ) :=
  (versionKey family value).map fun key => (value, key)

theorem matchingVersion_eq_ok {found : Option (Text × List ℕ)} :
    (matchingVersion family value).result = .ok found ↔
      ¬TooLong family value ∧ found = keyed family value := by
  rw [matchingVersion, symbolVersionKey, keyed, versionKey, TooLong]
  cases versionDigits family value with
  | none => simp [bind_eq_ok, pure_eq_ok]
  | some components =>
    simp only [bind_eq_ok, parseComponents_eq_ok, pure_eq_ok, Option.some.injEq,
      exists_eq_left', not_exists, not_and, not_lt, Option.map_some]
    constructor
    · rintro ⟨_, ⟨_, ⟨hlength, rfl⟩, rfl⟩, rfl⟩
      exact ⟨hlength, rfl⟩
    · rintro ⟨hlength, rfl⟩
      exact ⟨_, ⟨_, ⟨hlength, rfl⟩, rfl⟩, rfl⟩

theorem matchingVersion_eq_error {e : Failure}
    (h : (matchingVersion family value).result = .error e) : TooLong family value := by
  by_contra hlong
  rw [matchingVersion_eq_ok.mpr ⟨hlong, rfl⟩] at h
  cases h

theorem parseInt_error {digits : Text} {e : Failure} (h : (parseInt digits).result = .error e) :
    ¬e.IsBundle := by
  rintro ⟨message, rfl⟩
  rw [parseInt] at h
  by_cases hlength : digits.length ≤ maxDigits
  · rw [if_pos hlength] at h
    cases h
  · rw [if_neg hlength] at h
    cases h

theorem matchingVersion_error {e : Failure}
    (h : (matchingVersion family value).result = .error e) : ¬e.IsBundle := by
  rcases bind_eq_error.mp h with h | ⟨_, -, h⟩
  · rw [symbolVersionKey] at h
    cases hdigits : versionDigits family value with
    | none =>
      rw [hdigits] at h
      cases h
    | some components =>
      rw [hdigits] at h
      rcases bind_eq_error.mp h with h | ⟨_, -, h⟩
      · obtain ⟨component, -, h⟩ := exists_of_collect_eq_error h
        rcases bind_eq_error.mp h with h | ⟨_, -, h⟩
        · exact parseInt_error h
        · cases h
      · cases h
  · cases h

/-! ## The greatest of a list -/

theorem latest_mem (first : Text × List ℕ) (rest : List (Text × List ℕ)) :
    latest first rest ∈ first :: rest := by
  induction rest generalizing first with
  | nil => exact List.mem_singleton_self first
  | cons found rest ih =>
    rw [latest, List.foldl_cons]
    split_ifs
    · exact List.mem_cons_of_mem first (ih found)
    · rcases List.mem_cons.mp (ih first) with h | h
      · rw [latest] at h
        rw [h]
        exact List.mem_cons_self
      · exact List.mem_cons_of_mem first (List.mem_cons_of_mem found h)

/-- Nothing is greater than the result. -/
theorem latest_greatest (first : Text × List ℕ) (rest : List (Text × List ℕ)) :
    ∀ x ∈ first :: rest, lexLess id (latest first rest).2 x.2 = false := by
  induction rest generalizing first with
  | nil =>
    intro x hx
    rw [List.mem_singleton.mp hx]
    exact (weak_lexLess id fun _ => True).irrefl trivial
  | cons found rest ih =>
    rw [latest, List.foldl_cons, ← latest]
    by_cases hless : lexLess id first.2 found.2 = true
    · rw [if_pos hless, List.forall_mem_cons]
      refine ⟨?_, ih found⟩
      exact lexLess_notBehind (lexLess_asymm hless) (ih found found List.mem_cons_self)
    · rw [if_neg hless]
      have hkept := ih first
      rw [List.forall_mem_cons] at hkept ⊢
      refine ⟨hkept.1, ?_⟩
      rw [List.forall_mem_cons]
      rw [Bool.not_eq_true] at hless
      exact ⟨lexLess_notBehind hless hkept.1, hkept.2⟩

theorem latest_eq_first {first : Text × List ℕ} {rest : List (Text × List ℕ)}
    (h : ∀ x ∈ rest, lexLess id first.2 x.2 = false) : latest first rest = first := by
  induction rest with
  | nil => rfl
  | cons found rest ih =>
    rw [List.forall_mem_cons] at h
    rw [latest, List.foldl_cons, h.1, if_neg Bool.false_ne_true]
    exact ih h.2

/-! ## The required version -/

/-- A version of the family that no other one exceeds. -/
def Highest (family : Text) (names : List Text) (v : Text) : Prop :=
  v ∈ names ∧ ∃ key, versionKey family v = some key ∧
    ∀ other ∈ names, ∀ k, versionKey family other = some k → lexLess id key k = false

theorem keyed_eq_some {x : Text × List ℕ} :
    keyed family value = some x ↔ x.1 = value ∧ versionKey family value = some x.2 := by
  obtain ⟨v, key⟩ := x
  simp only [keyed, Option.map_eq_some_iff, Prod.mk.injEq]
  constructor
  · rintro ⟨_, hkey, rfl, rfl⟩
    exact ⟨rfl, hkey⟩
  · rintro ⟨rfl, hkey⟩
    exact ⟨_, hkey, rfl, rfl⟩

theorem mem_candidates {x : Text × List ℕ} : x ∈ (order.run names).filterMap (keyed family) ↔
    x.1 ∈ names ∧ versionKey family x.1 = some x.2 := by
  simp only [List.mem_filterMap, order.mem, keyed_eq_some]
  constructor
  · rintro ⟨value, hvalue, rfl, hkey⟩
    exact ⟨hvalue, hkey⟩
  · rintro ⟨hvalue, hkey⟩
    exact ⟨x.1, hvalue, rfl, hkey⟩

theorem collect_matching_eq_ok {found : List (Text × List ℕ)} :
    (collect (matchingVersion family) (order.run names)).result = .ok found ↔
      (∀ v ∈ names, ¬TooLong family v) ∧ found = (order.run names).filterMap (keyed family) := by
  rw [collect_eq_ok fun _ _ => matchingVersion_eq_ok]
  simp only [order.mem]

theorem requiredVersion_eq_ok {v : Text} :
    (requiredVersion order names name family).result = .ok v ↔
      (∀ value ∈ names, ¬TooLong family value) ∧ ∃ first rest,
        (order.run names).filterMap (keyed family) = first :: rest ∧ v = (latest first rest).1 := by
  simp only [requiredVersion, bind_eq_ok, collect_matching_eq_ok]
  constructor
  · rintro ⟨found, ⟨hshort, hfound⟩, h⟩
    rw [← hfound]
    cases found with
    | nil => exact absurd h fail_ne_ok
    | cons first rest => exact ⟨hshort, first, rest, rfl, pure_eq_ok.mp h⟩
  · rintro ⟨hshort, first, rest, hfound, rfl⟩
    exact ⟨first :: rest, ⟨hshort, hfound.symm⟩, rfl⟩

theorem highest_of_requiredVersion {v : Text}
    (h : (requiredVersion order names name family).result = .ok v) : Highest family names v := by
  obtain ⟨-, first, rest, hfound, rfl⟩ := requiredVersion_eq_ok.mp h
  have hmem := latest_mem first rest
  rw [← hfound, mem_candidates] at hmem
  refine ⟨hmem.1, _, hmem.2, fun other hother k hk => ?_⟩
  refine latest_greatest first rest (other, k) ?_
  rw [← hfound, mem_candidates]
  exact ⟨hother, hk⟩

/-- The only highest version is found in any order. -/
theorem requiredVersion_of_unique {v : Text} (hshort : ∀ value ∈ names, ¬TooLong family value)
    (hv : Highest family names v) (hunique : ∀ other, Highest family names other → other = v) :
    (requiredVersion order names name family).result = .ok v := by
  obtain ⟨hmem, key, hkey, -⟩ := hv
  have hcandidate : (v, key) ∈ (order.run names).filterMap (keyed family) :=
    mem_candidates.mpr ⟨hmem, hkey⟩
  obtain ⟨first, rest, hfound⟩ := List.exists_cons_of_ne_nil (List.ne_nil_of_mem hcandidate)
  have hok : (requiredVersion order names name family).result = .ok (latest first rest).1 :=
    requiredVersion_eq_ok.mpr ⟨hshort, first, rest, hfound, rfl⟩
  rw [hok, hunique _ (highest_of_requiredVersion hok)]

/-- A highest version is found when it comes first. -/
theorem requiredVersion_of_first {v : Text} {key : List ℕ} {rest : List (Text × List ℕ)}
    (hshort : ∀ value ∈ names, ¬TooLong family value) (hv : Highest family names v)
    (hfirst : (order.run names).filterMap (keyed family) = (v, key) :: rest) :
    (requiredVersion order names name family).result = .ok v := by
  refine requiredVersion_eq_ok.mpr ⟨hshort, (v, key), rest, hfirst, ?_⟩
  obtain ⟨-, key', hkey', hgreatest⟩ := hv
  have hmem : (v, key) ∈ (order.run names).filterMap (keyed family) :=
    hfirst ▸ List.mem_cons_self
  obtain rfl := Option.some.inj ((mem_candidates.mp hmem).2.symm.trans hkey')
  rw [latest_eq_first fun x hx => ?_]
  have hx : x ∈ (order.run names).filterMap (keyed family) :=
    hfirst ▸ List.mem_cons_of_mem _ hx
  obtain ⟨hxmem, hxkey⟩ := mem_candidates.mp hx
  exact hgreatest x.1 hxmem x.2 hxkey

/-- Only a component that is too long fails otherwise than a bundle does. -/
theorem requiredVersion_error {e : Failure}
    (h : (requiredVersion order names name family).result = .error e) :
    (¬e.IsBundle ∧ ∃ v ∈ names, TooLong family v) ∨
      (e.IsBundle ∧ ∀ v ∈ names, ¬TooLong family v ∧ versionKey family v = none) := by
  rcases bind_eq_error.mp h with h | ⟨found, hfound, h⟩
  · obtain ⟨v, hv, h⟩ := exists_of_collect_eq_error h
    exact .inl ⟨matchingVersion_error h, v, (order.mem names v).mp hv, matchingVersion_eq_error h⟩
  · obtain ⟨hshort, hfound⟩ := collect_matching_eq_ok.mp hfound
    cases found with
    | nil =>
      right
      refine ⟨⟨_, (Except.error.inj h).symm⟩, fun v hv => ⟨hshort v hv, ?_⟩⟩
      cases hkey : versionKey family v with
      | none => rfl
      | some key =>
        have hmem : (v, key) ∈ (order.run names).filterMap (keyed family) :=
          mem_candidates.mpr ⟨hv, hkey⟩
        rw [← hfound] at hmem
        exact absurd hmem List.not_mem_nil
    | cons first rest => cases h

theorem exists_requiredVersion (order : SetOrder) (name : String) (hshort : ∀ v ∈ names, ¬TooLong family v)
    (hmember : ∃ v ∈ names, versionKey family v ≠ none) :
    ∃ v, (requiredVersion order names name family).result = .ok v := by
  cases h : (requiredVersion order names name family).result with
  | ok v => exact ⟨v, rfl⟩
  | error e =>
    rcases requiredVersion_error h with ⟨-, v, hv, hlong⟩ | ⟨-, hnone⟩
    · exact absurd hlong (hshort v hv)
    · obtain ⟨v, hv, hkey⟩ := hmember
      exact absurd (hnone v hv).2 hkey

theorem exists_error_of_tooLong (order : SetOrder) (name : String) (hlong : ∃ v ∈ names, TooLong family v) :
    ∃ e, (requiredVersion order names name family).result = .error e ∧ ¬e.IsBundle := by
  obtain ⟨v, hv, hlong⟩ := hlong
  cases h : (requiredVersion order names name family).result with
  | ok found => exact absurd hlong ((requiredVersion_eq_ok.mp h).1 v hv)
  | error e =>
    rcases requiredVersion_error h with ⟨hbundle, -⟩ | ⟨-, hnone⟩
    · exact ⟨e, rfl, hbundle⟩
    · exact absurd hlong (hnone v hv).1

/-- Nothing is read any more. -/
abbrev Silent {α : Type} (x : Run α) : Prop := Traced.Sound (fun _ => False) (fun _ => True) x

theorem requiredVersion_silent : Silent (requiredVersion order names name family) := by
  have hparse : ∀ component, Silent (parseComponent component) := fun component => by
    refine Traced.Sound.bind ?_ fun _ _ => .pure _
    rw [parseInt]
    split_ifs
    · exact .pure _
    · exact .fail trivial
  refine Traced.Sound.bind (.collect fun value _ => Traced.Sound.bind ?_ fun _ _ => .pure _)
    fun found _ => ?_
  · rw [symbolVersionKey]
    cases versionDigits family value with
    | none => exact .pure none
    | some components => exact Traced.Sound.bind (.collect fun component _ => hparse component) fun _ _ => .pure _
  · cases found with
    | nil => exact .fail trivial
    | cons first rest => exact .pure _

/-! ## Orders of a set -/

/-- The elements of a list first, as far as the set has them. -/
def SetOrder.favouring (first : List Text) : SetOrder where
  run l := first.dedup.filter (· ∈ l) ++ l.dedup.filter (· ∉ first)
  nodup l := by
    refine List.nodup_append.mpr ⟨(List.nodup_dedup first).filter _,
      (List.nodup_dedup l).filter _, ?_⟩
    intro a ha b hb hab
    simp only [List.mem_filter, List.mem_dedup, decide_eq_true_eq] at ha hb
    exact hb.2 (hab ▸ ha.1)
  mem l v := by
    simp only [List.mem_append, List.mem_filter, List.mem_dedup, decide_eq_true_eq]
    tauto

theorem SetOrder.favouring_run {first : List Text} (hnodup : first.Nodup)
    (hfirst : ∀ v ∈ first, v ∈ names) :
    (SetOrder.favouring first).run names = first ++ names.dedup.filter (· ∉ first) := by
  change first.dedup.filter _ ++ _ = _
  rw [hnodup.dedup, List.filter_eq_self.mpr fun v hv => decide_eq_true (hfirst v hv)]

/-- A highest version that is favoured alone of its family is found. -/
theorem requiredVersion_favouring {first : List Text} {v : Text} {key : List ℕ}
    (hnodup : first.Nodup) (hfirst : ∀ v ∈ first, v ∈ names)
    (honly : first.filterMap (keyed family) = [(v, key)])
    (hshort : ∀ value ∈ names, ¬TooLong family value) (hv : Highest family names v) :
    (requiredVersion (.favouring first) names name family).result = .ok v := by
  have hrun : ((SetOrder.favouring first).run names).filterMap (keyed family) =
      (v, key) :: (names.dedup.filter (· ∉ first)).filterMap (keyed family) := by
    rw [SetOrder.favouring_run hnodup hfirst, List.filterMap_append, honly]
    rfl
  exact requiredVersion_of_first hshort hv hrun

end Hazkey.BundleVerification
