import Mathlib.Data.List.Perm.Basic
import Mathlib.Data.List.Nodup

/-! The best element of each key of a list, in one pass over it. -/

namespace BestPerKey

variable {α κ : Type} [DecidableEq κ] (key : α → κ) (better : α → α → Bool)

/-- It takes the place of the one of its key that it is better than. -/
def offer (x : α) : List α → List α
  | [] => [x]
  | y :: ys => if key y = key x then (if better x y then x else y) :: ys else y :: offer x ys

def best (kept : List α) : List α → List α
  | [] => kept
  | x :: xs => best (offer key better x kept) xs

/-- One of each key of the list, with none better than it. -/
structure Chosen (l kept : List α) : Prop where
  keys : (kept.map key).Nodup
  mem : ∀ x ∈ kept, x ∈ l
  top : ∀ x ∈ kept, ∀ y ∈ l, key y = key x → better y x = false
  covers : ∀ y ∈ l, ∃ x ∈ kept, key x = key y

variable {key better} {l kept : List α} {x y : α}

theorem offer_cons_of_eq (h : key y = key x) :
    offer key better x (y :: l) = (if better x y then x else y) :: l := if_pos h

theorem offer_cons_of_ne (h : key y ≠ key x) :
    offer key better x (y :: l) = y :: offer key better x l := if_neg h

theorem mem_offer (h : y ∈ offer key better x l) : y = x ∨ y ∈ l := by
  induction l with
  | nil => exact Or.inl (List.mem_singleton.mp h)
  | cons z l ih =>
    by_cases he : key z = key x
    · rw [offer_cons_of_eq he] at h
      rcases List.mem_cons.mp h with hy | hy
      · by_cases hb : better x z = true
        · rw [if_pos hb] at hy
          exact Or.inl hy
        · rw [if_neg hb] at hy
          exact Or.inr (hy ▸ List.mem_cons_self)
      · exact Or.inr (List.mem_cons_of_mem z hy)
    · rw [offer_cons_of_ne he] at h
      rcases List.mem_cons.mp h with rfl | hy
      · exact Or.inr List.mem_cons_self
      · exact (ih hy).imp_right (List.mem_cons_of_mem z)

/-- One of another key stays. -/
theorem mem_offer_of_ne (h : y ∈ l) (hkey : key y ≠ key x) : y ∈ offer key better x l := by
  induction l with
  | nil => exact absurd h (List.not_mem_nil)
  | cons z l ih =>
    by_cases he : key z = key x
    · rw [offer_cons_of_eq he]
      rcases List.mem_cons.mp h with rfl | h
      · exact absurd he hkey
      · exact List.mem_cons_of_mem _ h
    · rw [offer_cons_of_ne he]
      rcases List.mem_cons.mp h with rfl | h
      · exact List.mem_cons_self
      · exact List.mem_cons_of_mem z (ih h)

/-- So does one that is not worse. -/
theorem mem_offer_of_not_better (h : y ∈ l) (hb : better x y = false) :
    y ∈ offer key better x l := by
  induction l with
  | nil => exact absurd h (List.not_mem_nil)
  | cons z l ih =>
    by_cases he : key z = key x
    · rw [offer_cons_of_eq he]
      rcases List.mem_cons.mp h with rfl | h
      · simp [hb]
      · exact List.mem_cons_of_mem _ h
    · rw [offer_cons_of_ne he]
      rcases List.mem_cons.mp h with rfl | h
      · exact List.mem_cons_self
      · exact List.mem_cons_of_mem z (ih h)

theorem key_mem_offer (key : α → κ) (better : α → α → Bool) (x : α) (l : List α) :
    ∃ z ∈ offer key better x l, key z = key x := by
  induction l with
  | nil => exact ⟨x, List.mem_singleton_self x, rfl⟩
  | cons y l ih =>
    by_cases he : key y = key x
    · rw [offer_cons_of_eq he]
      refine ⟨_, List.mem_cons_self, ?_⟩
      split
      · rfl
      · exact he
    · rw [offer_cons_of_ne he]
      obtain ⟨z, hz, hkey⟩ := ih
      exact ⟨z, List.mem_cons_of_mem y hz, hkey⟩

theorem keys_offer (h : (l.map key).Nodup) : ((offer key better x l).map key).Nodup := by
  induction l with
  | nil => exact List.nodup_singleton _
  | cons y l ih =>
    obtain ⟨hy, hl⟩ := List.nodup_cons.mp h
    by_cases he : key y = key x
    · rw [offer_cons_of_eq he]
      have hkey : key (if better x y then x else y) = key y := by
        split
        · exact he.symm
        · rfl
      rw [List.map_cons, hkey]
      exact h
    · rw [offer_cons_of_ne he, List.map_cons]
      refine List.nodup_cons.mpr ⟨fun hmem => ?_, ih hl⟩
      obtain ⟨z, hz, hkey⟩ := List.mem_map.mp hmem
      rcases mem_offer hz with rfl | hz
      · exact he hkey.symm
      · exact hy (List.mem_map.mpr ⟨z, hz, hkey⟩)

/-- The one of the offered key is the offered one, if it beats what was there, or was there. -/
theorem offered_or_kept (h : (l.map key).Nodup) (hy : y ∈ offer key better x l)
    (hkey : key y = key x) :
    (y = x ∧ ∀ z ∈ l, key z = key x → better x z = true) ∨ (y ∈ l ∧ better x y = false) := by
  induction l with
  | nil =>
    obtain rfl := List.mem_singleton.mp hy
    exact Or.inl ⟨rfl, fun z hz => absurd hz (List.not_mem_nil)⟩
  | cons z l ih =>
    obtain ⟨hz, hl⟩ := List.nodup_cons.mp h
    by_cases he : key z = key x
    · rw [offer_cons_of_eq he] at hy
      have hother : ∀ w ∈ l, key w ≠ key x := fun w hw hwx =>
        hz (List.mem_map.mpr ⟨w, hw, hwx.trans he.symm⟩)
      rcases List.mem_cons.mp hy with hy | hy
      · by_cases hb : better x z = true
        · rw [if_pos hb] at hy
          refine Or.inl ⟨hy, fun w hw hwx => ?_⟩
          rcases List.mem_cons.mp hw with rfl | hw
          · exact hb
          · exact absurd hwx (hother w hw)
        · rw [if_neg hb] at hy
          subst hy
          exact Or.inr ⟨List.mem_cons_self, Bool.eq_false_iff.mpr hb⟩
      · exact absurd hkey (hother y hy)
    · rw [offer_cons_of_ne he] at hy
      rcases List.mem_cons.mp hy with rfl | hy
      · exact absurd hkey he
      · rcases ih hl hy with ⟨hyx, hbeats⟩ | ⟨hmem, hb⟩
        · refine Or.inl ⟨hyx, fun w hw hwx => ?_⟩
          rcases List.mem_cons.mp hw with rfl | hw
          · exact absurd hwx he
          · exact hbeats w hw hwx
        · exact Or.inr ⟨List.mem_cons_of_mem z hmem, hb⟩

variable (hirrefl : ∀ x, better x x = false)
  (htrans : ∀ x y z, better x y = true → better y z = true → better x z = true)

omit [DecidableEq κ] in
theorem chosen_nil : Chosen key better [] [] :=
  ⟨List.nodup_nil, fun _ h => h, fun _ h => absurd h (List.not_mem_nil),
    fun _ h => absurd h (List.not_mem_nil)⟩

include hirrefl htrans

theorem Chosen.offer (h : Chosen key better l kept) :
    Chosen key better (l ++ [x]) (offer key better x kept) where
  keys := keys_offer h.keys
  mem y hy := by
    rcases mem_offer hy with rfl | hy
    · simp
    · exact List.mem_append_left _ (h.mem y hy)
  top y hy z hz hzy := by
    by_cases hyx : key y = key x
    · rcases offered_or_kept h.keys hy hyx with ⟨rfl, hbeats⟩ | ⟨hy, hb⟩
      · rcases List.mem_append.mp hz with hz | hz
        · obtain ⟨w, hw, hwz⟩ := h.covers z hz
          apply Bool.eq_false_iff.mpr
          intro hbz
          have hbw := htrans z y w hbz (hbeats w hw (hwz.trans hzy))
          rw [h.top w hw z hz hwz.symm] at hbw
          exact Bool.false_ne_true hbw
        · obtain rfl := List.mem_singleton.mp hz
          exact hirrefl z
      · rcases List.mem_append.mp hz with hz | hz
        · exact h.top y hy z hz hzy
        · obtain rfl := List.mem_singleton.mp hz
          exact hb
    · rcases mem_offer hy with rfl | hy
      · exact absurd rfl hyx
      · rcases List.mem_append.mp hz with hz | hz
        · exact h.top y hy z hz hzy
        · obtain rfl := List.mem_singleton.mp hz
          exact absurd hzy.symm hyx
  covers y hy := by
    rcases List.mem_append.mp hy with hy | hy
    · obtain ⟨z, hz, hzy⟩ := h.covers y hy
      by_cases hyx : key y = key x
      · obtain ⟨w, hw, hwx⟩ := key_mem_offer key better x kept
        exact ⟨w, hw, hwx.trans hyx.symm⟩
      · exact ⟨z, mem_offer_of_ne hz (hzy ▸ hyx), hzy⟩
    · obtain rfl := List.mem_singleton.mp hy
      exact key_mem_offer key better y kept

theorem Chosen.best {rest : List α} (h : Chosen key better l kept) :
    Chosen key better (l ++ rest) (best key better kept rest) := by
  induction rest generalizing l kept with
  | nil =>
    rw [List.append_nil]
    exact h
  | cons x rest ih =>
    have := ih (h.offer hirrefl htrans (x := x))
    rw [List.append_assoc] at this
    exact this

theorem best_chosen (l : List α) : Chosen key better l (best key better [] l) :=
  chosen_nil.best hirrefl htrans

omit hirrefl htrans

theorem mem_offer_self (h : ∀ y ∈ l, key y ≠ key x) : x ∈ offer key better x l := by
  induction l with
  | nil => exact List.mem_singleton_self x
  | cons y l ih =>
    rw [offer_cons_of_ne (h y List.mem_cons_self)]
    exact List.mem_cons_of_mem y (ih fun z hz => h z (List.mem_cons_of_mem y hz))

theorem best_append (kept l rest : List α) :
    best key better kept (l ++ rest) = best key better (best key better kept l) rest := by
  induction l generalizing kept with
  | nil => rfl
  | cons x l ih => exact ih (offer key better x kept)

theorem mem_of_mem_best {rest : List α} (h : x ∈ best key better kept rest) :
    x ∈ kept ∨ x ∈ rest := by
  induction rest generalizing kept with
  | nil => exact Or.inl h
  | cons y rest ih =>
    rcases ih h with h | h
    · rcases mem_offer h with rfl | h
      · exact Or.inr List.mem_cons_self
      · exact Or.inl h
    · exact Or.inr (List.mem_cons_of_mem y h)

/-- What nothing is better than is never replaced. -/
theorem mem_best {rest : List α} (h : x ∈ kept)
    (htop : ∀ y ∈ rest, key y = key x → better y x = false) : x ∈ best key better kept rest := by
  induction rest generalizing kept with
  | nil => exact h
  | cons y rest ih =>
    apply ih
    · by_cases hkey : key x = key y
      · exact mem_offer_of_not_better h (htop y List.mem_cons_self hkey.symm)
      · exact mem_offer_of_ne h hkey
    · exact fun z hz => htop z (List.mem_cons_of_mem y hz)

/-- The first of its key is chosen, if none is better. -/
theorem mem_best_first {rest : List α} (hfirst : ∀ y ∈ l, key y ≠ key x)
    (htop : ∀ y ∈ rest, key y = key x → better y x = false) :
    x ∈ best key better [] (l ++ x :: rest) := by
  rw [best_append]
  apply mem_best _ htop
  apply mem_offer_self
  intro y hy
  rcases mem_of_mem_best hy with hy | hy
  · exact absurd hy (List.not_mem_nil)
  · exact hfirst y hy

end BestPerKey
