import Hazkey.WeakOrders

/-! Lists in the order of their first difference, by a rank of their elements. -/

namespace WeakOrders

variable {α β : Type}

def lexLess (rank : α → Nat) : List α → List α → Bool
  | [], [] => false
  | [], _ :: _ => true
  | _ :: _, [] => false
  | a :: s, b :: t => if rank a = rank b then lexLess rank s t else rank a < rank b

theorem lexLess_cons_false {rank : α → Nat} {a b : α} {s t : List α} :
    lexLess rank (a :: s) (b :: t) = false ↔
      rank b ≤ rank a ∧ (rank a = rank b → lexLess rank s t = false) := by
  by_cases hab : rank a = rank b
  · simp [lexLess, hab]
  · simp [lexLess, hab]

theorem lexLess_cons {rank : α → Nat} {a b : α} {s t : List α} :
    lexLess rank (a :: s) (b :: t) = true ↔
      rank a < rank b ∨ rank a = rank b ∧ lexLess rank s t = true := by
  by_cases hab : rank a = rank b
  · simp [lexLess, hab]
  · simp [lexLess, hab]

theorem lexLess_asymm {rank : α → Nat} {s t : List α} (h : lexLess rank s t = true) :
    lexLess rank t s = false := by
  induction s generalizing t with
  | nil =>
    cases t with
    | nil => exact absurd h Bool.false_ne_true
    | cons b t => rfl
  | cons a s ih =>
    cases t with
    | nil => exact absurd h Bool.false_ne_true
    | cons b t =>
      rw [lexLess_cons_false]
      rcases lexLess_cons.mp h with hlt | ⟨hab, hst⟩
      · exact ⟨Nat.le_of_lt hlt, fun hba => absurd hlt (by omega)⟩
      · exact ⟨Nat.le_of_eq hab, fun _ => ih hst⟩

theorem lexLess_notBehind {rank : α → Nat} {s t u : List α} (hts : lexLess rank t s = false)
    (hut : lexLess rank u t = false) : lexLess rank u s = false := by
  induction s generalizing t u with
  | nil => cases u <;> rfl
  | cons a s ih =>
    cases t with
    | nil => exact absurd hts.symm Bool.false_ne_true
    | cons b t =>
      cases u with
      | nil => exact absurd hut.symm Bool.false_ne_true
      | cons c u =>
        obtain ⟨hab, hst⟩ := lexLess_cons_false.mp hts
        obtain ⟨hbc, htu⟩ := lexLess_cons_false.mp hut
        refine lexLess_cons_false.mpr ⟨Nat.le_trans hab hbc, fun hca => ?_⟩
        exact ih (hst (by omega)) (htu (by omega))

theorem weak_lexLess (rank : α → Nat) (p : List α → Prop) : Weak p (lexLess rank) where
  asymm _ _ _ _ h := lexLess_asymm h
  notBehind _ _ _ _ _ _ h h' := lexLess_notBehind h h'

/-- Where the rank tells elements apart, the order tells lists apart. -/
theorem eq_of_lexLess {rank : α → Nat} (hrank : Function.Injective rank) {s t : List α}
    (hst : lexLess rank s t = false) (hts : lexLess rank t s = false) : s = t := by
  induction s generalizing t with
  | nil =>
    cases t with
    | nil => rfl
    | cons b t => exact absurd hst.symm Bool.false_ne_true
  | cons a s ih =>
    cases t with
    | nil => exact absurd hts.symm Bool.false_ne_true
    | cons b t =>
      obtain ⟨hba, hst⟩ := lexLess_cons_false.mp hst
      obtain ⟨hab, hts⟩ := lexLess_cons_false.mp hts
      obtain rfl : a = b := hrank (Nat.le_antisymm hab hba)
      rw [ih (hst rfl) (hts rfl)]

theorem weak_lexLess_on (rank : α → Nat) (name : β → List α) (p : β → Prop) :
    Weak p fun x y => lexLess rank (name x) (name y) where
  asymm _ _ _ _ h := lexLess_asymm h
  notBehind _ _ _ _ _ _ h h' := lexLess_notBehind h h'

/-- What is sorted by different names has one order. -/
theorem sortedBy_lexLess_perm {rank : α → Nat} (hrank : Function.Injective rank)
    (name : β → List α) {l l' : List β} (h : l.Perm l') (hl : (l.map name).Nodup) :
    sortedBy (fun x y => lexLess rank (name x) (name y)) l =
      sortedBy (fun x y => lexLess rank (name x) (name y)) l' := by
  have hweak := weak_lexLess_on rank name
  have hperm := ((sortedBy_perm (fun x y => lexLess rank (name x) (name y)) l).trans h).trans
    (sortedBy_perm (fun x y => lexLess rank (name x) (name y)) l').symm
  apply hperm.eq_of_pairwise _ (sortedBy_ordered (hweak _).strictWeak)
    (sortedBy_ordered (hweak _).strictWeak)
  intro x y hx hy hxy hyx
  have hx := (sortedBy_perm _ l).mem_iff.mp hx
  have hy := h.mem_iff.mpr ((sortedBy_perm _ l').mem_iff.mp hy)
  exact List.inj_on_of_nodup_map hl hx hy (eq_of_lexLess hrank hyx hxy)

end WeakOrders
