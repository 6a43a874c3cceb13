import Mathlib.Data.List.Basic

/-! Lists that grow by what clashes with nothing in them. -/

namespace Admission

variable {α : Type} (clash : α → α → Bool)

/-- One after the other, what clashes with nothing kept so far is kept. -/
def accept (kept : List α) : List α → List α
  | [] => kept
  | x :: xs => if (kept.any fun y => clash y x) = true then accept kept xs
    else accept (kept ++ [x]) xs

/-- Nothing clashes with what comes before it. -/
def Apart (l : List α) : Prop := l.Pairwise fun a b => clash a b = false

variable {clash} {kept l l' : List α} {x : α}

theorem apart_nil : Apart clash [] := List.Pairwise.nil

theorem any_clash_eq_false : (l.any fun y => clash y x) = false ↔ ∀ y ∈ l, clash y x = false := by
  simp

theorem Apart.concat (h : Apart clash l) (hx : (l.any fun y => clash y x) = false) :
    Apart clash (l ++ [x]) := by
  apply List.pairwise_append.mpr
  refine ⟨h, List.pairwise_singleton _ _, fun y hy z hz => ?_⟩
  obtain rfl := List.mem_singleton.mp hz
  exact any_clash_eq_false.mp hx y hy

theorem apart_append_cons (h : Apart clash (l ++ x :: l')) :
    (l.any fun y => clash y x) = false := by
  apply any_clash_eq_false.mpr
  intro y hy
  exact (List.pairwise_append.mp h).2.2 y hy x (by simp)

theorem Apart.sublist (h : Apart clash l) (hl : List.Sublist l' l) : Apart clash l' :=
  List.Pairwise.sublist hl h

/-- In the place of one another is put that clashes with none of the others. -/
theorem Apart.replace {y : α} (hcomm : ∀ a b, clash a b = clash b a)
    (h : Apart clash (l ++ y :: l')) (hx : ((l ++ l').any fun z => clash z x) = false) :
    Apart clash (l ++ x :: l') := by
  have hfree := any_clash_eq_false.mp hx
  obtain ⟨hl, hrest, hacross⟩ := List.pairwise_append.mp h
  apply List.pairwise_append.mpr
  refine ⟨hl, List.pairwise_cons.mpr ⟨fun z hz => ?_, (List.pairwise_cons.mp hrest).2⟩,
    fun a ha b hb => ?_⟩
  · rw [hcomm]
    exact hfree z (List.mem_append_right _ hz)
  · rcases List.mem_cons.mp hb with rfl | hb
    · exact hfree a (List.mem_append_left _ ha)
    · exact hacross a ha b (List.mem_cons_of_mem y hb)

theorem accept_apart (h : Apart clash kept) : Apart clash (accept clash kept l) := by
  induction l generalizing kept with
  | nil => exact h
  | cons x l ih =>
    unfold accept
    by_cases hx : (kept.any fun y => clash y x) = true
    · rw [if_pos hx]
      exact ih h
    · rw [if_neg hx]
      exact ih (h.concat (by simpa using hx))

theorem subset_accept : kept ⊆ accept clash kept l := by
  induction l generalizing kept with
  | nil => exact List.Subset.refl _
  | cons x l ih =>
    unfold accept
    split
    · exact ih
    · exact fun y hy => ih (List.mem_append_left _ hy)

theorem mem_accept (h : x ∈ accept clash kept l) : x ∈ kept ∨ x ∈ l := by
  induction l generalizing kept with
  | nil => exact .inl h
  | cons y l ih =>
    unfold accept at h
    split at h
    · exact (ih h).imp_right (List.mem_cons_of_mem y)
    · rcases ih h with hkept | hl
      · rcases List.mem_append.mp hkept with hkept | hy
        · exact .inl hkept
        · exact .inr (List.mem_cons.mpr (.inl (List.mem_singleton.mp hy)))
      · exact .inr (List.mem_cons_of_mem y hl)

/-- What is apart is kept as it is. -/
theorem accept_of_apart (h : Apart clash (kept ++ l)) : accept clash kept l = kept ++ l := by
  induction l generalizing kept with
  | nil => exact (List.append_nil kept).symm
  | cons x l ih =>
    unfold accept
    have hx := apart_append_cons h
    rw [if_neg (by simp [hx])]
    have hstep : kept ++ x :: l = (kept ++ [x]) ++ l := by simp
    rw [hstep] at h ⊢
    exact ih h

/-- What clashes with something kept leaves no trace. -/
theorem accept_of_clashing (h : ∀ x ∈ l, (kept.any fun y => clash y x) = true) :
    accept clash kept l = kept := by
  induction l with
  | nil => rfl
  | cons x l ih =>
    unfold accept
    rw [if_pos (h x (by simp))]
    exact ih fun y hy => h y (List.mem_cons_of_mem x hy)

/-- Whatever was offered clashes with something kept, be it with itself. -/
theorem any_accept (hrefl : ∀ x, clash x x = true) (hx : x ∈ l) :
    ((accept clash kept l).any fun y => clash y x) = true := by
  have hkept {y : α} {kept l : List α} (hy : y ∈ kept) (hc : clash y x = true) :
      ((accept clash kept l).any fun z => clash z x) = true :=
    List.any_eq_true.mpr ⟨y, subset_accept hy, hc⟩
  induction l generalizing kept with
  | nil => cases hx
  | cons y l ih =>
    unfold accept
    by_cases hy : (kept.any fun z => clash z y) = true
    · rw [if_pos hy]
      rcases List.mem_cons.mp hx with rfl | hx
      · obtain ⟨z, hz, hc⟩ := List.any_eq_true.mp hy
        exact hkept hz hc
      · exact ih hx
    · rw [if_neg hy]
      rcases List.mem_cons.mp hx with rfl | hx
      · exact hkept (List.mem_append_right _ (by simp)) (hrefl x)
      · exact ih hx

/-- To offer the same once more changes nothing. -/
theorem accept_accept (hrefl : ∀ x, clash x x = true) :
    accept clash (accept clash kept l) l = accept clash kept l :=
  accept_of_clashing fun _ hx => any_accept hrefl hx

end Admission
