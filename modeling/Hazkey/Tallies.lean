import Mathlib.Data.List.Nodup
import Mathlib.Data.List.Induction
import Mathlib.Data.List.Basic

/-! Dictionaries whose values are accumulated: what stands under a key is what
the events of that key make of the first value. -/

namespace Tallies

variable {κ ν ε : Type} [DecidableEq κ]

/-- `d.setdefault(key, init)`, and the value changed. -/
def update (k : κ) (init : ν) (f : ν → ν) : List (κ × ν) → List (κ × ν)
  | [] => [(k, f init)]
  | (k', v) :: d => if k' = k then (k', f v) :: d else (k', v) :: update k init f d

def tally (key : ε → κ) (init : ν) (f : ε → ν → ν) (es : List ε) : List (κ × ν) :=
  es.foldl (fun d e => update (key e) init (f e) d) []

variable {d d' : List (κ × ν)} {k k' : κ} {init : ν} {key : ε → κ} {f : ε → ν → ν}

theorem mem_keys_update {f : ν → ν} :
    k' ∈ (update k init f d).map (·.1) ↔ k' = k ∨ k' ∈ d.map (·.1) := by
  induction d with
  | nil => simp [update]
  | cons e d ih =>
    obtain ⟨key, v⟩ := e
    by_cases hkey : key = k
    · simp [update, hkey]
    · rw [update, if_neg hkey, List.map_cons, List.map_cons, List.mem_cons, List.mem_cons, ih]
      exact or_left_comm

theorem nodup_update {f : ν → ν} (h : (d.map (·.1)).Nodup) :
    ((update k init f d).map (·.1)).Nodup := by
  induction d with
  | nil => simp [update]
  | cons e d ih =>
    obtain ⟨key, v⟩ := e
    obtain ⟨hmem, hd⟩ := List.nodup_cons.mp h
    by_cases hkey : key = k
    · rw [update, if_pos hkey]
      exact h
    · rw [update, if_neg hkey]
      refine List.nodup_cons.mpr ⟨fun hm => ?_, ih hd⟩
      rcases mem_keys_update.mp hm with he | hm
      · exact hkey he
      · exact hmem hm

theorem tally_concat (es : List ε) (e : ε) :
    tally key init f (es ++ [e]) = update (key e) init (f e) (tally key init f es) := by
  simp [tally]

theorem nodup_tally (es : List ε) : ((tally key init f es).map (·.1)).Nodup := by
  induction es using List.reverseRecOn with
  | nil => simp [tally]
  | append_singleton es e ih =>
    rw [tally_concat]
    exact nodup_update ih

theorem mem_keys_tally (es : List ε) : k ∈ (tally key init f es).map (·.1) ↔ k ∈ es.map key := by
  induction es using List.reverseRecOn with
  | nil => simp [tally]
  | append_singleton es e ih =>
    rw [tally_concat, mem_keys_update, ih]
    simp [or_comm]

/-- What the events of a key make of the first value. -/
def accumulated (key : ε → κ) (init : ν) (f : ε → ν → ν) (es : List ε) (k : κ) : ν :=
  (es.filter fun e => key e = k).foldl (fun v e => f e v) init

section

omit [DecidableEq κ]

variable [BEq κ] [LawfulBEq κ]

theorem lookup_mapValues {μ : Type} (f : κ → ν → μ) (d : List (κ × ν)) :
    (d.map fun e => (e.1, f e.1 e.2)).lookup k = (d.lookup k).map (f k) := by
  induction d with
  | nil => simp
  | cons e d ih =>
    rw [List.map_cons, List.lookup_cons, List.lookup_cons, ih]
    by_cases hk : k = e.1
    · simp [hk]
    · have hne : (k == e.1) = false := by simpa using hk
      rw [hne]

theorem lookup_eq_some_of_mem {v : ν} (hd : (d.map (·.1)).Nodup) (h : (k, v) ∈ d) :
    d.lookup k = some v := by
  induction d with
  | nil => exact absurd h (List.not_mem_nil)
  | cons e d ih =>
    obtain ⟨key, w⟩ := e
    obtain ⟨hmem, hd⟩ := List.nodup_cons.mp hd
    rcases List.mem_cons.mp h with he | hmem'
    · obtain ⟨rfl, rfl⟩ := Prod.mk.inj he
      simp
    · have hne : k ≠ key := by
        rintro rfl
        exact hmem (List.mem_map.mpr ⟨_, hmem', rfl⟩)
      have hne : (k == key) = false := by simpa using hne
      rw [List.lookup_cons, hne]
      exact ih hd hmem'

theorem mem_of_lookup {v : ν} (h : d.lookup k = some v) : (k, v) ∈ d := by
  obtain ⟨l, r, rfl, -⟩ := List.lookup_eq_some_iff.mp h
  simp

/-- A dictionary in another order is the same dictionary. -/
theorem lookup_perm (h : d.Perm d') (hd : (d.map (·.1)).Nodup) : d'.lookup k = d.lookup k := by
  have hd' : (d'.map (·.1)).Nodup := (h.map (·.1)).nodup_iff.mp hd
  cases hk : d.lookup k with
  | some v => exact lookup_eq_some_of_mem hd' (h.mem_iff.mp (mem_of_lookup hk))
  | none =>
    cases hk' : d'.lookup k with
    | none => rfl
    | some v =>
      rw [lookup_eq_some_of_mem hd (h.mem_iff.mpr (mem_of_lookup hk'))] at hk
      exact absurd hk (by simp)

end

variable [BEq κ] [LawfulBEq κ]

theorem lookup_update {f : ν → ν} : (update k init f d).lookup k' =
    if k' = k then some (f ((d.lookup k).getD init)) else d.lookup k' := by
  induction d with
  | nil =>
    by_cases hk : k' = k
    · simp [update, hk]
    · simp [update, hk]
  | cons e d ih =>
    obtain ⟨key, v⟩ := e
    by_cases hkey : key = k
    · by_cases hk : k' = k
      · simp [update, hkey, hk]
      · have hk' : (k' == k) = false := by simpa using hk
        simp [update, List.lookup_cons, hkey, hk, hk']
    · by_cases hk : k' = key
      · have hne : k' ≠ k := fun h => hkey (hk ▸ h)
        simp [update, hk, hkey]
      · have hk' : (k' == key) = false := by simpa using hk
        have hkey' : (k == key) = false := by simpa using Ne.symm hkey
        simp [update, List.lookup_cons, hkey, hk', hkey', ih]

theorem getD_lookup_tally (es : List ε) :
    ((tally key init f es).lookup k).getD init = accumulated key init f es k := by
  induction es using List.reverseRecOn generalizing k with
  | nil => simp [tally, accumulated]
  | append_singleton es e ih =>
    rw [tally_concat, lookup_update]
    by_cases hk : k = key e
    · simp [hk, accumulated, ih]
    · simp [hk, Ne.symm hk, accumulated, ih]

theorem lookup_tally {es : List ε} (h : k ∈ es.map key) :
    (tally key init f es).lookup k = some (accumulated key init f es k) := by
  have hsome : ((tally key init f es).lookup k).isSome := by
    have hkey : k ∈ (tally key init f es).map (·.1) := (mem_keys_tally es).mpr h
    obtain ⟨⟨k', v⟩, hmem, rfl⟩ := List.mem_map.mp hkey
    rw [List.lookup_isSome_iff]
    exact ⟨_, hmem, by simp⟩
  obtain ⟨v, hv⟩ := Option.isSome_iff_exists.mp hsome
  rw [← getD_lookup_tally, hv, Option.getD_some]

end Tallies
