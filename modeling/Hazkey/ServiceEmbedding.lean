import Hazkey.ServiceRuns

/-! Programs inside the programs of a host. The host keeps the state of the guest in its
own, and serves each call of the guest by a program of its own. -/

namespace ServiceProgram

structure Host (I J : Interface) (S T : Type) where
  get : T → S
  put : S → T → T
  get_put : ∀ s t, get (put s t) = s
  serve : (c : I.Call) → Prog J T (I.Answer c)
  /-- The calls of the guest, among those of the host. -/
  guest : Event J T → Option (Event I S)
  /-- A service makes the call of the guest, no other, and leaves the guest's state alone. -/
  serves : ∀ c s t a s', (serve c).Yields s t a s' →
    t.filterMap guest = [⟨get s, c, a⟩] ∧ get s' = get s

variable {I J : Interface} {S T α : Type}

namespace Host

def embed (H : Host I J S T) : Prog I S α → Prog J T α
  | .pure a => .pure a
  | .get k => .get fun s => H.embed (k (H.get s))
  | .set u k => .get fun s => .set (H.put u s) (H.embed k)
  | .call c k => H.serve c >>= fun a => H.embed (k a)

def guests (H : Host I J S T) (t : List (Event J T)) : List (Event I S) := t.filterMap H.guest

variable (H : Host I J S T)

@[simp] theorem guests_nil : H.guests [] = [] := rfl

@[simp] theorem guests_append (t t' : List (Event J T)) :
    H.guests (t ++ t') = H.guests t ++ H.guests t' := List.filterMap_append

/-- A run inside the host is a run of the guest. -/
theorem embed_yields {p : Prog I S α} {s s' : T} {t : List (Event J T)} {a : α}
    (h : (H.embed p).Yields s t a s') : p.Yields (H.get s) (H.guests t) a (H.get s') := by
  induction p generalizing s t with
  | pure b =>
    obtain ⟨rfl, rfl, rfl⟩ := h
    exact ⟨rfl, rfl, rfl⟩
  | get k ih => exact ih _ h
  | set u k ih =>
    have hset := ih h
    rw [H.get_put] at hset
    exact hset
  | call c k ih =>
    obtain ⟨t₁, t₂, b, u, rfl, hserve, hrest⟩ := Prog.yields_bind.mp h
    obtain ⟨hcall, hstate⟩ := H.serves c _ _ _ _ hserve
    have hlast := ih b hrest
    rw [hstate] at hlast
    refine ⟨b, H.guests t₂, ?_, hlast⟩
    rw [guests_append, guests, hcall]
    rfl

/-- What a relation of the guest's runs says of the host's. -/
def Lifts (R : S → List (Event I S) → S → Prop) (s : T) (t : List (Event J T)) (s' : T) : Prop :=
  R (H.get s) (H.guests t) (H.get s')

variable {R : S → List (Event I S) → S → Prop}

instance [hR : Prog.Composes R] : Prog.Composes (H.Lifts R) where
  refl s := hR.refl (H.get s)
  trans s t u t' s' h h' := by
    show R _ (H.guests (t ++ t')) _
    rw [guests_append]
    exact hR.trans _ _ _ _ _ h h'

instance {p : Prog I S α} [hp : Prog.Frames R p] : Prog.Frames (H.Lifts R) (H.embed p) where
  frame _ _ _ _ h := hp.frame _ _ _ _ (H.embed_yields h)

/-- What the guest cannot reach: the services keep it, and so does every guest. -/
theorem embed_frames {R : T → List (Event J T) → T → Prop} [hR : Prog.Composes R]
    (hput : ∀ u s, R s [] (H.put u s)) (hserve : ∀ c, Prog.Frames R (H.serve c))
    (p : Prog I S α) : Prog.Frames R (H.embed p) where
  frame s t a s' h := by
    induction p generalizing s t with
    | pure b =>
      obtain ⟨rfl, rfl, rfl⟩ := h
      exact hR.refl _
    | get k ih => exact ih _ _ _ h
    | set u k ih => exact hR.trans _ [] _ _ _ (hput u s) (ih _ _ h)
    | call c k ih =>
      obtain ⟨t₁, t₂, b, u, rfl, hcall, hrest⟩ := Prog.yields_bind.mp h
      exact hR.trans _ _ _ _ _ ((hserve c).frame _ _ _ _ hcall) (ih b _ _ hrest)

end Host

end ServiceProgram
