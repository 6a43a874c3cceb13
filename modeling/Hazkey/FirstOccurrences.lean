import Mathlib.Data.List.Basic
import Mathlib.Data.List.Nodup

/-! The first element of a list with each key, in the order of the list, and the loops that
compute it with a set of the keys seen. -/

namespace FirstOccurrences

variable {α β κ κ' : Type} [DecidableEq κ] [DecidableEq κ']

/-- The elements whose key is not among those seen, nor that of an earlier element. -/
def firsts (key : α → κ) (seen : List κ) : List α → List α
  | [] => []
  | x :: xs =>
    if key x ∈ seen then firsts key seen xs else x :: firsts key (key x :: seen) xs

variable {key : α → κ} {seen seen' : List κ} {xs ys : List α}

@[simp] theorem firsts_nil : firsts key seen [] = [] := rfl

theorem firsts_cons (x : α) : firsts key seen (x :: xs) =
    if key x ∈ seen then firsts key seen xs else x :: firsts key (key x :: seen) xs := rfl

theorem firsts_sublist : (firsts key seen xs).Sublist xs := by
  induction xs generalizing seen with
  | nil => exact .slnil
  | cons x xs ih =>
    rw [firsts_cons]
    by_cases hx : key x ∈ seen
    · rw [if_pos hx]
      exact ih.cons x
    · rw [if_neg hx]
      exact ih.cons_cons x

theorem mem_firsts {x : α} (h : x ∈ firsts key seen xs) : x ∈ xs := firsts_sublist.mem h

/-- Exactly the keys that were not seen before are found. -/
theorem mem_firsts_keys {k : κ} :
    k ∈ (firsts key seen xs).map key ↔ k ∈ xs.map key ∧ k ∉ seen := by
  induction xs generalizing seen with
  | nil => simp
  | cons x xs ih =>
    rw [firsts_cons]
    by_cases hx : key x ∈ seen
    · rw [if_pos hx, ih, List.map_cons, List.mem_cons]
      constructor
      · rintro ⟨hmem, hk⟩
        exact ⟨.inr hmem, hk⟩
      · rintro ⟨rfl | hmem, hk⟩
        · exact absurd hx hk
        · exact ⟨hmem, hk⟩
    · rw [if_neg hx, List.map_cons, List.map_cons, List.mem_cons, List.mem_cons, ih,
        List.mem_cons]
      by_cases hk : k = key x
      · subst hk
        simp [hx]
      · simp [hk]

theorem not_mem_seen {x : α} (h : x ∈ firsts key seen xs) : key x ∉ seen :=
  (mem_firsts_keys.mp (List.mem_map_of_mem h)).2

/-- No key is found twice. -/
theorem firsts_keys_nodup : ((firsts key seen xs).map key).Nodup := by
  induction xs generalizing seen with
  | nil => simp
  | cons x xs ih =>
    rw [firsts_cons]
    by_cases hx : key x ∈ seen
    · rw [if_pos hx]
      exact ih
    · rw [if_neg hx, List.map_cons, List.nodup_cons]
      exact ⟨fun h => (mem_firsts_keys.mp h).2 List.mem_cons_self, ih⟩

/-- Only which keys were seen matters. -/
theorem firsts_congr (h : ∀ k, k ∈ seen ↔ k ∈ seen') : firsts key seen xs = firsts key seen' xs := by
  induction xs generalizing seen seen' with
  | nil => rfl
  | cons x xs ih =>
    rw [firsts_cons, firsts_cons]
    have hcons : ∀ k, k ∈ key x :: seen ↔ k ∈ key x :: seen' := by
      intro k
      rw [List.mem_cons, List.mem_cons, h]
    rw [ih h, ih hcons]
    simp only [h]

theorem firsts_append : firsts key seen (xs ++ ys) =
    firsts key seen xs ++ firsts key (xs.map key ++ seen) ys := by
  induction xs generalizing seen with
  | nil => rfl
  | cons x xs ih =>
    rw [List.cons_append, firsts_cons, firsts_cons]
    by_cases hx : key x ∈ seen
    · rw [if_pos hx, if_pos hx, ih]
      congr 1
      apply firsts_congr
      intro k
      simp only [List.map_cons, List.cons_append, List.mem_cons, List.mem_append]
      constructor
      · exact .inr
      · rintro (rfl | hk)
        · exact .inr hx
        · exact hk
    · rw [if_neg hx, if_neg hx, ih, List.cons_append]
      congr 2
      apply firsts_congr
      intro k
      simp only [List.map_cons, List.cons_append, List.mem_cons, List.mem_append]
      tauto

/-- The key of an element is that of a found one, unless it was seen before. -/
theorem firsts_covers {x : α} (hx : x ∈ xs) (hseen : key x ∉ seen) :
    ∃ y ∈ firsts key seen xs, key y = key x :=
  List.mem_map.mp (mem_firsts_keys.mpr ⟨List.mem_map_of_mem hx, hseen⟩)

/-- An element found at the end of a list has no key of what comes before it. -/
theorem firsts_append_mem {x : α} (hx : x ∈ firsts key seen (xs ++ ys))
    (hkey : key x ∈ xs.map key) : x ∈ firsts key seen xs := by
  rw [firsts_append, List.mem_append] at hx
  rcases hx with hx | hx
  · exact hx
  · exact absurd (List.mem_append_left _ hkey) (not_mem_seen hx)

theorem firsts_eq_self : firsts key [] xs = xs ↔ (xs.map key).Nodup := by
  constructor
  · intro h
    have hnodup : ((firsts key [] xs).map key).Nodup := firsts_keys_nodup
    rwa [h] at hnodup
  · suffices h : ∀ seen : List κ, (xs.map key).Nodup → (∀ x ∈ xs, key x ∉ seen) →
        firsts key seen xs = xs from fun hnodup => h [] hnodup (by simp)
    induction xs with
    | nil => exact fun _ _ _ => rfl
    | cons x xs ih =>
      intro seen hnodup hseen
      rw [List.map_cons, List.nodup_cons] at hnodup
      rw [firsts_cons, if_neg (hseen x List.mem_cons_self), ih _ hnodup.2]
      intro y hy hmem
      rcases List.mem_cons.mp hmem with heq | hmem
      · exact hnodup.1 (heq ▸ List.mem_map_of_mem hy)
      · exact hseen y (List.mem_cons_of_mem _ hy) hmem

theorem firsts_map (f : β → α) (zs : List β) :
    firsts key seen (zs.map f) = (firsts (fun z => key (f z)) seen zs).map f := by
  induction zs generalizing seen with
  | nil => rfl
  | cons z zs ih =>
    rw [List.map_cons, firsts_cons, firsts_cons]
    by_cases hz : key (f z) ∈ seen
    · rw [if_pos hz, if_pos hz, ih]
    · rw [if_neg hz, if_neg hz, ih, List.map_cons]

/-- Two keys that tell the same elements apart find the same ones. -/
theorem firsts_key_congr {key' : α → κ'} {seen' : List κ'}
    (hkeys : ∀ x ∈ xs, ∀ y ∈ xs, key x = key y ↔ key' x = key' y)
    (hseen : ∀ x ∈ xs, key x ∈ seen ↔ key' x ∈ seen') :
    firsts key seen xs = firsts key' seen' xs := by
  induction xs generalizing seen seen' with
  | nil => rfl
  | cons x xs ih =>
    have htail : ∀ y ∈ xs, ∀ z ∈ xs, key y = key z ↔ key' y = key' z := fun y hy z hz =>
      hkeys y (List.mem_cons_of_mem _ hy) z (List.mem_cons_of_mem _ hz)
    rw [firsts_cons, firsts_cons]
    by_cases hx : key x ∈ seen
    · rw [if_pos hx, if_pos ((hseen x List.mem_cons_self).mp hx)]
      exact ih htail fun y hy => hseen y (List.mem_cons_of_mem _ hy)
    · rw [if_neg hx, if_neg fun h => hx ((hseen x List.mem_cons_self).mpr h)]
      congr 1
      apply ih htail
      intro y hy
      rw [List.mem_cons, List.mem_cons, hseen y (List.mem_cons_of_mem _ hy),
        hkeys y (List.mem_cons_of_mem _ hy) x List.mem_cons_self]

end FirstOccurrences
