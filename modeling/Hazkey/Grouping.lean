import Mathlib.Data.List.Nodup
import Mathlib.Data.List.Induction
import Mathlib.Data.List.Basic

/-! Dictionaries of lists that are filled one value at a time: the values of a
key stand in the order in which they came. -/

namespace Grouping

variable {κ ι : Type} [DecidableEq κ]

/-- `d.setdefault(key, []).append(value)`. -/
def append : List (κ × List ι) → κ → ι → List (κ × List ι)
  | [], k, v => [(k, [v])]
  | (k', vs) :: rest, k, v =>
    if k' = k then (k', vs ++ [v]) :: rest else (k', vs) :: append rest k v

/-- `d.get(key, [])`. -/
def get : List (κ × List ι) → κ → List ι
  | [], _ => []
  | (k', vs) :: rest, k => if k' = k then vs else get rest k

def group (entries : List (κ × ι)) : List (κ × List ι) :=
  entries.foldl (fun d e => append d e.1 e.2) []

def values (k : κ) (entries : List (κ × ι)) : List ι :=
  (entries.filter fun e => e.1 = k).map (·.2)

variable {d : List (κ × List ι)} {k k' : κ} {v : ι} {vs : List ι}

theorem get_append : get (append d k v) k' = if k' = k then get d k ++ [v] else get d k' := by
  induction d with
  | nil =>
    by_cases hk : k' = k
    · simp [append, get, hk]
    · simp [append, get, hk, Ne.symm hk]
  | cons e d ih =>
    obtain ⟨key, vs⟩ := e
    by_cases hkey : key = k
    · by_cases hk : k' = k
      · simp [append, get, hkey, hk]
      · simp [append, get, hkey, hk, Ne.symm hk]
    · by_cases hk : key = k'
      · have hne : k' ≠ k := hk ▸ hkey
        simp [append, get, hk, hne]
      · simp [append, get, hkey, hk, ih]

/-- Each key stands once, with at least one value. -/
structure Proper (d : List (κ × List ι)) : Prop where
  keys : (d.map (·.1)).Nodup
  values : ∀ e ∈ d, e.2 ≠ []

theorem mem_keys_append {key : κ} :
    key ∈ (append d k v).map (·.1) ↔ key = k ∨ key ∈ d.map (·.1) := by
  induction d with
  | nil => simp [append]
  | cons e d ih =>
    obtain ⟨key', vs⟩ := e
    by_cases hkey : key' = k
    · simp [append, hkey]
    · rw [append, if_neg hkey, List.map_cons, List.map_cons, List.mem_cons, List.mem_cons, ih]
      exact or_left_comm

theorem Proper.append (h : Proper d) (k : κ) (v : ι) : Proper (append d k v) := by
  induction d with
  | nil => exact ⟨by simp [Grouping.append], by simp [Grouping.append]⟩
  | cons e d ih =>
    obtain ⟨key, vs⟩ := e
    obtain ⟨hkey, hkeys⟩ := List.nodup_cons.mp h.keys
    have htail := ih ⟨hkeys, fun e he => h.values e (List.mem_cons_of_mem _ he)⟩
    by_cases hk : key = k
    · rw [Grouping.append, if_pos hk]
      refine ⟨h.keys, fun e he => ?_⟩
      obtain rfl | he := List.mem_cons.mp he
      · simp
      · exact h.values e (List.mem_cons_of_mem _ he)
    · rw [Grouping.append, if_neg hk]
      refine ⟨List.nodup_cons.mpr ⟨fun hmem => ?_, htail.keys⟩, fun e he => ?_⟩
      · obtain rfl | hmem := mem_keys_append.mp hmem
        · exact hk rfl
        · exact hkey hmem
      · obtain rfl | he := List.mem_cons.mp he
        · exact h.values _ List.mem_cons_self
        · exact htail.values e he

theorem Proper.mem_iff (h : Proper d) : (k, vs) ∈ d ↔ vs ≠ [] ∧ get d k = vs := by
  induction d with
  | nil => simp [get, eq_comm]
  | cons e d ih =>
    obtain ⟨key, ws⟩ := e
    obtain ⟨hkey, hkeys⟩ := List.nodup_cons.mp h.keys
    have hws : ws ≠ [] := h.values _ List.mem_cons_self
    have htail := ih ⟨hkeys, fun e he => h.values e (List.mem_cons_of_mem _ he)⟩
    by_cases hk : key = k
    · subst hk
      have hmem : (key, vs) ∉ d := fun hmem => hkey (List.mem_map.mpr ⟨_, hmem, rfl⟩)
      rw [List.mem_cons, or_iff_left hmem, Prod.mk.injEq, get, if_pos rfl]
      constructor
      · rintro ⟨-, rfl⟩
        exact ⟨hws, rfl⟩
      · rintro ⟨-, rfl⟩
        exact ⟨rfl, rfl⟩
    · have hne : (k, vs) ≠ (key, ws) := fun he => hk (congrArg Prod.fst he).symm
      rw [List.mem_cons, or_iff_right hne, get, if_neg hk, htail]

theorem group_concat (entries : List (κ × ι)) (e : κ × ι) :
    group (entries ++ [e]) = append (group entries) e.1 e.2 := by
  simp [group]

theorem group_proper (entries : List (κ × ι)) : Proper (group entries) := by
  induction entries using List.reverseRecOn with
  | nil => exact ⟨by simp [group], by simp [group]⟩
  | append_singleton entries e ih =>
    rw [group_concat]
    exact ih.append e.1 e.2

theorem get_group (entries : List (κ × ι)) (k : κ) : get (group entries) k = values k entries := by
  induction entries using List.reverseRecOn with
  | nil => rfl
  | append_singleton entries e ih =>
    rw [group_concat, get_append]
    by_cases hk : k = e.1
    · subst hk
      simp [values, ih]
    · simp [values, hk, Ne.symm hk, ih]

theorem mem_group {entries : List (κ × ι)} :
    (k, vs) ∈ group entries ↔ vs ≠ [] ∧ values k entries = vs := by
  rw [(group_proper entries).mem_iff, get_group]

end Grouping
