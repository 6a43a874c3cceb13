import Mathlib.Order.Lattice.Nat
import Mathlib.Data.List.Basic
import Mathlib.Order.Basic

/-! Edit distance: the least number of single insertions, deletions and
replacements between two lists, the recurrence at their ends, and the common
infixes that few edits leave. -/

namespace EditDistance

variable {α : Type}

/-- One edit, at the front or further on. -/
inductive EditStep : List α → List α → Prop
  | insert (y : α) (r : List α) : EditStep r (y :: r)
  | delete (x : α) (r : List α) : EditStep (x :: r) r
  | replace (x y : α) (r : List α) : EditStep (x :: r) (y :: r)
  | later {l r : List α} (x : α) : EditStep l r → EditStep (x :: l) (x :: r)

inductive Edits : ℕ → List α → List α → Prop
  | none (xs : List α) : Edits 0 xs xs
  | edit {n : ℕ} {xs ys zs : List α} : Edits n xs ys → EditStep ys zs → Edits (n + 1) xs zs

/-- Which elements of one list become which of the other, and at what cost. -/
inductive Alignment : List α → List α → ℕ → Prop
  | nil : Alignment [] [] 0
  | keep {xs ys : List α} {n : ℕ} (x : α) : Alignment xs ys n → Alignment (x :: xs) (x :: ys) n
  | replace {xs ys : List α} {n : ℕ} (x y : α) : Alignment xs ys n → Alignment (x :: xs) (y :: ys) (n + 1)
  | delete {xs ys : List α} {n : ℕ} (x : α) : Alignment xs ys n → Alignment (x :: xs) ys (n + 1)
  | insert {xs ys : List α} {n : ℕ} (y : α) : Alignment xs ys n → Alignment xs (y :: ys) (n + 1)

variable {xs ys zs : List α} {m n : ℕ}

theorem Edits.cons (h : Edits n xs ys) (x : α) : Edits n (x :: xs) (x :: ys) := by
  induction h with
  | none xs => exact .none _
  | edit _ hstep ih => exact .edit ih (.later x hstep)

namespace Alignment

theorem refl (xs : List α) : Alignment xs xs 0 := by
  induction xs with
  | nil => exact .nil
  | cons x xs ih => exact .keep x ih

theorem symm (h : Alignment xs ys n) : Alignment ys xs n := by
  induction h with
  | nil => exact .nil
  | keep x _ ih => exact .keep x ih
  | replace x y _ ih => exact .replace y x ih
  | delete x _ ih => exact .insert x ih
  | insert y _ ih => exact .delete y ih

theorem append {xs' ys' : List α} (h : Alignment xs ys n) (h' : Alignment xs' ys' m) :
    Alignment (xs ++ xs') (ys ++ ys') (m + n) := by
  induction h with
  | nil => exact h'
  | keep x _ ih => exact .keep x ih
  | replace x y _ ih => exact .replace x y ih
  | delete x _ ih => exact .delete x ih
  | insert y _ ih => exact .insert y ih

theorem inserted (ys : List α) : Alignment [] ys ys.length := by
  induction ys with
  | nil => exact .nil
  | cons y ys ih => exact .insert y ih

theorem deleted (xs : List α) : Alignment xs [] xs.length := (inserted xs).symm

theorem reverse (h : Alignment xs ys n) : Alignment xs.reverse ys.reverse n := by
  induction h with
  | nil => exact .nil
  | keep x _ ih =>
    rw [List.reverse_cons, List.reverse_cons]
    simpa using ih.append (.keep x .nil)
  | replace x y _ ih =>
    rw [List.reverse_cons, List.reverse_cons, Nat.add_comm]
    exact ih.append (.replace x y .nil)
  | delete x _ ih =>
    rw [List.reverse_cons, Nat.add_comm]
    simpa using ih.append (.delete x .nil)
  | insert y _ ih =>
    rw [List.reverse_cons, Nat.add_comm]
    simpa using ih.append (.insert y .nil)

theorem length_le (h : Alignment xs ys n) : xs.length ≤ ys.length + n := by
  induction h with
  | nil => exact Nat.le_refl _
  | keep | replace | delete | insert =>
    simp only [List.length_cons]
    omega

theorem edits (h : Alignment xs ys n) : Edits n xs ys := by
  induction h with
  | nil => exact .none _
  | keep x _ ih => exact ih.cons x
  | replace x y _ ih => exact .edit (ih.cons x) (.replace x y _)
  | delete x _ ih => exact .edit (ih.cons x) (.delete x _)
  | insert y _ ih => exact .edit ih (.insert y _)

/-- A further edit costs at most one more. -/
theorem step (h : Alignment xs ys n) (hstep : EditStep ys zs) :
    ∃ m, m ≤ n + 1 ∧ Alignment xs zs m := by
  induction h generalizing zs with
  | nil =>
    cases hstep with
    | insert y => exact ⟨1, Nat.le_refl _, .insert y .nil⟩
  | @keep xs ys n x h ih =>
    cases hstep with
    | insert y => exact ⟨n + 1, Nat.le_refl _, .insert y (.keep x h)⟩
    | delete => exact ⟨n + 1, Nat.le_refl _, .delete x h⟩
    | replace _ y => exact ⟨n + 1, Nat.le_refl _, .replace x y h⟩
    | later _ hstep =>
      obtain ⟨m, hm, h⟩ := ih hstep
      exact ⟨m, hm, .keep x h⟩
  | @replace xs ys n x y h ih =>
    cases hstep with
    | insert z => exact ⟨n + 2, Nat.le_refl _, .insert z (.replace x y h)⟩
    | delete => exact ⟨n + 1, Nat.le_succ _, .delete x h⟩
    | replace _ z => exact ⟨n + 1, Nat.le_succ _, .replace x z h⟩
    | later _ hstep =>
      obtain ⟨m, hm, h⟩ := ih hstep
      exact ⟨m + 1, Nat.succ_le_succ hm, .replace x y h⟩
  | @delete xs ys n x h ih =>
    obtain ⟨m, hm, h⟩ := ih hstep
    exact ⟨m + 1, Nat.succ_le_succ hm, .delete x h⟩
  | @insert xs ys n y h ih =>
    cases hstep with
    | insert z => exact ⟨n + 2, Nat.le_refl _, .insert z (.insert y h)⟩
    | delete => exact ⟨n, by omega, h⟩
    | replace _ z => exact ⟨n + 1, Nat.le_succ _, .insert z h⟩
    | later _ hstep =>
      obtain ⟨m, hm, h⟩ := ih hstep
      exact ⟨m + 1, Nat.succ_le_succ hm, .insert y h⟩

end Alignment

/-- Edits one after the other are no better than an alignment. -/
theorem Edits.alignment (h : Edits n xs ys) : ∃ m, m ≤ n ∧ Alignment xs ys m := by
  induction h with
  | none xs => exact ⟨0, Nat.le_refl _, .refl xs⟩
  | edit _ hstep ih =>
    obtain ⟨m, hm, h⟩ := ih
    obtain ⟨k, hk, h⟩ := h.step hstep
    exact ⟨k, by omega, h⟩

/-- The least number of edits. -/
noncomputable def editDistance (xs ys : List α) : ℕ := sInf {n | Edits n xs ys}

theorem exists_edits (xs ys : List α) : {n | Edits n xs ys}.Nonempty := by
  have h := (Alignment.deleted xs).append (Alignment.inserted ys)
  rw [List.append_nil, List.nil_append] at h
  exact ⟨_, h.edits⟩

theorem editDistance_edits (xs ys : List α) : Edits (editDistance xs ys) xs ys :=
  Nat.sInf_mem (exists_edits xs ys)

theorem editDistance_le (h : Alignment xs ys n) : editDistance xs ys ≤ n := Nat.sInf_le h.edits

theorem editDistance_alignment (xs ys : List α) : Alignment xs ys (editDistance xs ys) := by
  obtain ⟨m, hm, h⟩ := (editDistance_edits xs ys).alignment
  have he : m = editDistance xs ys := Nat.le_antisymm hm (editDistance_le h)
  rwa [he] at h

theorem editDistance_comm (xs ys : List α) : editDistance xs ys = editDistance ys xs :=
  Nat.le_antisymm (editDistance_le (editDistance_alignment ys xs).symm)
    (editDistance_le (editDistance_alignment xs ys).symm)

theorem editDistance_nil_left (ys : List α) : editDistance [] ys = ys.length := by
  have hle := editDistance_le (Alignment.inserted ys)
  have hge := (editDistance_alignment [] ys).symm.length_le
  simp only [List.length_nil] at hge
  omega

theorem editDistance_nil_right (xs : List α) : editDistance xs [] = xs.length := by
  rw [editDistance_comm, editDistance_nil_left]

theorem editDistance_pos (h : xs ≠ ys) : 0 < editDistance xs ys := by
  refine Nat.pos_of_ne_zero fun h0 => h ?_
  have halign := editDistance_alignment xs ys
  rw [h0] at halign
  generalize hz : 0 = k at halign
  clear h h0
  induction halign with
  | nil => rfl
  | keep x _ ih => rw [ih hz]
  | replace | delete | insert => cases hz

theorem length_le_editDistance (xs ys : List α) :
    xs.length ≤ ys.length + editDistance xs ys := (editDistance_alignment xs ys).length_le

theorem editDistance_le_max (xs ys : List α) :
    editDistance xs ys ≤ max xs.length ys.length := by
  have h : ∀ {xs ys : List α}, ∃ n, n ≤ max xs.length ys.length ∧ Alignment xs ys n := by
    intro xs
    induction xs with
    | nil => exact fun {ys} => ⟨_, Nat.le_max_right _ _, .inserted ys⟩
    | cons x xs ih =>
      intro ys
      cases ys with
      | nil => exact ⟨_, Nat.le_max_left _ _, .deleted _⟩
      | cons y ys =>
        obtain ⟨n, hn, h⟩ := @ih ys
        refine ⟨n + 1, ?_, .replace x y h⟩
        simp only [List.length_cons]
        omega
  obtain ⟨n, hn, h⟩ := @h xs ys
  exact Nat.le_trans (editDistance_le h) hn

/-- The recurrence at the ends of the lists. -/
theorem editDistance_concat [DecidableEq α] (xs ys : List α) (x y : α) :
    editDistance (xs ++ [x]) (ys ++ [y]) =
      min (min (editDistance (xs ++ [x]) ys + 1) (editDistance xs (ys ++ [y]) + 1))
        (editDistance xs ys + if x ≠ y then 1 else 0) := by
  apply Nat.le_antisymm
  · refine Nat.le_min.mpr ⟨Nat.le_min.mpr ⟨?_, ?_⟩, ?_⟩
    · have h := (editDistance_alignment (xs ++ [x]) ys).append (Alignment.insert y .nil)
      rw [List.append_nil, Nat.add_comm] at h
      exact editDistance_le h
    · have h := (editDistance_alignment xs (ys ++ [y])).append (Alignment.delete x .nil)
      rw [List.append_nil, Nat.add_comm] at h
      exact editDistance_le h
    · by_cases hxy : x = y
      · subst hxy
        have h := (editDistance_alignment xs ys).append (Alignment.keep x .nil)
        simpa using editDistance_le h
      · have h := (editDistance_alignment xs ys).append (Alignment.replace x y .nil)
        rw [if_pos hxy, Nat.add_comm]
        exact editDistance_le h
  · have h := (editDistance_alignment (xs ++ [x]) (ys ++ [y])).reverse
    rw [List.reverse_concat, List.reverse_concat] at h
    generalize editDistance (xs ++ [x]) (ys ++ [y]) = d at h
    cases h with
    | keep _ h =>
      have := editDistance_le h.reverse
      simp only [List.reverse_reverse] at this
      simp
      omega
    | replace _ _ h =>
      have := editDistance_le h.reverse
      simp only [List.reverse_reverse] at this
      have hite : (if x ≠ y then 1 else 0) ≤ 1 := by split <;> omega
      omega
    | delete _ h =>
      have := editDistance_le h.reverse
      simp only [List.reverse_reverse, List.reverse_cons] at this
      omega
    | insert _ h =>
      have := editDistance_le h.reverse
      simp only [List.reverse_reverse, List.reverse_cons] at this
      omega

/-! ## Common infixes -/

/-- No infix of the given length is common to both lists. -/
def Disparate (q : ℕ) (xs ys : List α) : Prop :=
  ∀ w : List α, w.length = q → w <:+: xs → ¬ w <:+: ys

theorem Disparate.suffix {q : ℕ} {xs' ys' : List α} (h : Disparate q xs ys) (hx : xs' <:+ xs)
    (hy : ys' <:+ ys) : Disparate q xs' ys' :=
  fun w hw hwx hwy => h w hw (hwx.trans hx.isInfix) (hwy.trans hy.isInfix)

/-- A common prefix of lists that share no infix of length `q` is shorter. -/
theorem Disparate.run_lt {q : ℕ} {r : List α} (h : Disparate q (r ++ xs) (r ++ ys)) :
    r.length < q := by
  by_contra hlt
  have hlen : (r.take q).length = q := by
    rw [List.length_take]
    omega
  have hr := List.take_prefix q r
  exact h _ hlen (hr.isInfix.trans (List.prefix_append r xs).isInfix)
    (hr.isInfix.trans (List.prefix_append r ys).isInfix)

/-- Few edits leave long runs of kept elements: `r` is the run that leads to
what is still to be aligned. -/
theorem Alignment.length_lt {q : ℕ} (halign : Alignment xs ys n) (r : List α)
    (h : Disparate q (r ++ xs) (r ++ ys)) : r.length + xs.length < q * (n + 1) := by
  induction halign generalizing r with
  | nil => simpa using h.run_lt
  | @keep xs ys n x _ ih =>
    have hnext := ih (r ++ [x]) (by simpa using h)
    simp only [List.length_append, List.length_cons, List.length_nil] at hnext ⊢
    omega
  | @replace xs ys n x y _ ih =>
    have hrun := h.run_lt
    have hnext := ih [] (h.suffix ⟨r ++ [x], by simp⟩ ⟨r ++ [y], by simp⟩)
    simp only [List.length_cons, List.length_nil, Nat.mul_add, Nat.mul_one] at hnext ⊢
    omega
  | @delete xs ys n x _ ih =>
    have hrun := h.run_lt
    have hnext := ih [] (h.suffix ⟨r ++ [x], by simp⟩ ⟨r, rfl⟩)
    simp only [List.length_cons, List.length_nil, Nat.mul_add, Nat.mul_one] at hnext ⊢
    omega
  | @insert xs ys n y _ ih =>
    have hrun := h.run_lt
    have hnext := ih [] (h.suffix ⟨r, rfl⟩ ⟨r ++ [y], by simp⟩)
    simp only [List.length_nil, Nat.mul_add, Nat.mul_one] at hnext ⊢
    omega

/-- Lists at a small distance for their length share an infix of length `q`. -/
theorem common_infix {q : ℕ} (h : q * (editDistance xs ys + 1) ≤ max xs.length ys.length) :
    ∃ w : List α, w.length = q ∧ w <:+: xs ∧ w <:+: ys := by
  by_contra hnone
  have hdisparate : Disparate q xs ys := fun w hw hx hy => hnone ⟨w, hw, hx, hy⟩
  have hleft := (editDistance_alignment xs ys).length_lt [] hdisparate
  have hright := (editDistance_alignment xs ys).symm.length_lt []
    fun w hw hy hx => hdisparate w hw hx hy
  simp only [List.length_nil, Nat.zero_add] at hleft hright
  exact absurd h (Nat.not_le.mpr (Nat.max_lt.mpr ⟨hleft, hright⟩))

end EditDistance
