import Mathlib.Data.List.Basic

/-! Payloads behind four bytes of length, in a stream that is known only up to some place. -/

namespace LengthFrames

/-- The length, its highest byte first. -/
def header (n : Nat) : List UInt8 :=
  [(n / 16777216).toUInt8, (n / 65536).toUInt8, (n / 256).toUInt8, n.toUInt8]

def frame (payload : List UInt8) : List UInt8 := header payload.length ++ payload

def announced : List UInt8 → Option Nat
  | a :: b :: c :: d :: _ =>
    some (a.toNat * 16777216 + b.toNat * 65536 + c.toNat * 256 + d.toNat)
  | _ => none

/-- What a reader finds at the front. -/
inductive Front
  | incomplete
  | oversize (length : Nat)
  | complete (payload rest : List UInt8)
  deriving DecidableEq

def front (limit : Nat) (bytes : List UInt8) : Front :=
  match announced bytes with
  | none => .incomplete
  | some n =>
    if limit < n then .oversize n
    else if bytes.length < 4 + n then .incomplete
    else .complete ((bytes.drop 4).take n) (bytes.drop (4 + n))

variable {limit n : Nat} {bytes payload rest more : List UInt8}
  {payloads payloads' : List (List UInt8)} {rest' : List UInt8}

theorem announced_header (h : n < 4294967296) : announced (header n ++ rest) = some n := by
  simp only [header, List.cons_append, List.nil_append, announced, Option.some.injEq,
    UInt8.toNat_ofNat', Nat.toUInt8]
  omega

theorem announced_eq_some (h : announced bytes = some n) : ∃ a b c d rest,
    bytes = a :: b :: c :: d :: rest ∧
      n = a.toNat * 16777216 + b.toNat * 65536 + c.toNat * 256 + d.toNat := by
  rcases bytes with _ | ⟨a, _ | ⟨b, _ | ⟨c, _ | ⟨d, rest⟩⟩⟩⟩
  · cases h
  · cases h
  · cases h
  · cases h
  · exact ⟨a, b, c, d, rest, rfl, (Option.some.inj h).symm⟩

theorem header_of_announced (h : announced bytes = some n) :
    header n = bytes.take 4 ∧ n < 4294967296 ∧ 4 ≤ bytes.length := by
  obtain ⟨a, b, c, d, rest, rfl, rfl⟩ := announced_eq_some h
  have ha := a.toNat_lt
  have hb := b.toNat_lt
  have hc := c.toNat_lt
  have hd := d.toNat_lt
  refine ⟨?_, by omega, by simp⟩
  simp only [header, List.take_succ_cons, List.take_zero, List.cons.injEq, and_true,
    Nat.toUInt8]
  refine ⟨?_, ?_, ?_, ?_⟩ <;> apply UInt8.toNat_inj.mp <;> rw [UInt8.toNat_ofNat'] <;> omega

theorem announced_append (h : announced bytes = some n) :
    announced (bytes ++ more) = some n := by
  obtain ⟨a, b, c, d, rest, rfl, rfl⟩ := announced_eq_some h
  rfl

theorem front_frame (hlimit : limit < 4294967296) (h : payload.length ≤ limit) :
    front limit (frame payload ++ rest) = .complete payload rest := by
  have hlen : (header payload.length).length = 4 := rfl
  have hdrop : (frame payload ++ rest).drop 4 = payload ++ rest := by
    rw [frame, List.append_assoc]
    exact List.drop_left' hlen
  have hann : announced (frame payload ++ rest) = some payload.length := by
    rw [frame, List.append_assoc]
    exact announced_header (by omega)
  have hlong : ¬ (frame payload ++ rest).length < 4 + payload.length := by
    simp only [frame, List.length_append, hlen]
    omega
  rw [front, hann]
  dsimp only
  rw [if_neg (by omega), if_neg hlong, ← List.drop_drop, hdrop, List.take_left, List.drop_left]

theorem front_complete (h : front limit bytes = .complete payload rest) :
    bytes = frame payload ++ rest ∧ payload.length ≤ limit := by
  unfold front at h
  cases hann : announced bytes with
  | none =>
    rw [hann] at h
    cases h
  | some n =>
    rw [hann] at h
    dsimp only at h
    by_cases hover : limit < n
    · rw [if_pos hover] at h
      cases h
    · rw [if_neg hover] at h
      by_cases hshort : bytes.length < 4 + n
      · rw [if_pos hshort] at h
        cases h
      · rw [if_neg hshort] at h
        obtain ⟨rfl, rfl⟩ := Front.complete.inj h
        obtain ⟨hheader, -, -⟩ := header_of_announced hann
        have hlen : ((bytes.drop 4).take n).length = n := by
          rw [List.length_take, List.length_drop]
          omega
        refine ⟨?_, by omega⟩
        rw [frame, hlen, hheader, List.append_assoc, ← List.drop_drop, List.take_append_drop,
          List.take_append_drop]

/-- What is found does not change when more arrives. -/
theorem front_append_complete (h : front limit bytes = .complete payload rest)
    (hlimit : limit < 4294967296) :
    front limit (bytes ++ more) = .complete payload (rest ++ more) := by
  obtain ⟨rfl, hsmall⟩ := front_complete h
  rw [List.append_assoc]
  exact front_frame hlimit hsmall

theorem front_append_oversize (h : front limit bytes = .oversize n) :
    front limit (bytes ++ more) = .oversize n := by
  unfold front at h ⊢
  cases hann : announced bytes with
  | none =>
    rw [hann] at h
    cases h
  | some k =>
    rw [hann] at h
    rw [announced_append hann]
    dsimp only at h ⊢
    by_cases hover : limit < k
    · rw [if_pos hover] at h ⊢
      exact h
    · rw [if_neg hover] at h
      by_cases hshort : bytes.length < 4 + k
      · rw [if_pos hshort] at h
        cases h
      · rw [if_neg hshort] at h
        cases h

/-- Nothing can be taken from the front. -/
def Stuck (limit : Nat) (bytes : List UInt8) : Prop :=
  ∀ payload rest, front limit bytes ≠ .complete payload rest

/-- The stream is cut into all of its complete frames, and what is left. -/
structure Cut (limit : Nat) (bytes : List UInt8) (payloads : List (List UInt8))
    (rest : List UInt8) : Prop where
  bytes_eq : bytes = payloads.flatMap frame ++ rest
  small : ∀ payload ∈ payloads, payload.length ≤ limit
  stuck : Stuck limit rest

theorem Stuck.cut (h : Stuck limit bytes) : Cut limit bytes [] bytes where
  bytes_eq := rfl
  small := by simp
  stuck := h

theorem Cut.unique (hlimit : limit < 4294967296) (h : Cut limit bytes payloads rest)
    (h' : Cut limit bytes payloads' rest') : payloads = payloads' ∧ rest = rest' := by
  induction payloads generalizing bytes payloads' with
  | nil =>
    have hrest : bytes = rest := h.bytes_eq
    cases payloads' with
    | nil => exact ⟨rfl, hrest.symm.trans h'.bytes_eq⟩
    | cons p payloads' =>
      have hfront : front limit rest = .complete p (payloads'.flatMap frame ++ rest') := by
        rw [← hrest, h'.bytes_eq, List.flatMap_cons, List.append_assoc]
        exact front_frame hlimit (h'.small p List.mem_cons_self)
      exact absurd hfront (h.stuck _ _)
  | cons p payloads ih =>
    have hfront : front limit bytes = .complete p (payloads.flatMap frame ++ rest) := by
      rw [h.bytes_eq, List.flatMap_cons, List.append_assoc]
      exact front_frame hlimit (h.small p List.mem_cons_self)
    cases payloads' with
    | nil =>
      have hrest : bytes = rest' := h'.bytes_eq
      rw [hrest] at hfront
      exact absurd hfront (h'.stuck _ _)
    | cons p' payloads' =>
      have hfront' : front limit bytes = .complete p' (payloads'.flatMap frame ++ rest') := by
        rw [h'.bytes_eq, List.flatMap_cons, List.append_assoc]
        exact front_frame hlimit (h'.small p' List.mem_cons_self)
      rw [hfront] at hfront'
      obtain ⟨rfl, htail⟩ := Front.complete.inj hfront'
      have hcut : Cut limit (payloads.flatMap frame ++ rest) payloads rest :=
        ⟨rfl, fun q hq => h.small q (List.mem_cons_of_mem _ hq), h.stuck⟩
      have hcut' : Cut limit (payloads.flatMap frame ++ rest) payloads' rest' :=
        ⟨htail, fun q hq => h'.small q (List.mem_cons_of_mem _ hq), h'.stuck⟩
      obtain ⟨rfl, hrest⟩ := ih hcut hcut'
      exact ⟨rfl, hrest⟩

/-- The payloads of the complete frames. A frame takes four bytes at least, so as many rounds
as there are bytes are enough. -/
def payloadsWithin (limit : Nat) : Nat → List UInt8 → List (List UInt8)
  | 0, _ => []
  | rounds + 1, bytes =>
    match front limit bytes with
    | .complete payload rest => payload :: payloadsWithin limit rounds rest
    | _ => []

def payloadsOf (limit : Nat) (bytes : List UInt8) : List (List UInt8) :=
  payloadsWithin limit bytes.length bytes

theorem payloadsWithin_cut {rounds : Nat} (h : bytes.length ≤ rounds) :
    ∃ rest, Cut limit bytes (payloadsWithin limit rounds bytes) rest := by
  induction rounds generalizing bytes with
  | zero =>
    have hnil : bytes = [] := List.eq_nil_of_length_eq_zero (by omega)
    refine ⟨[], hnil, by simp [payloadsWithin], fun payload rest h => ?_⟩
    simp [front, announced] at h
  | succ rounds ih =>
    rw [payloadsWithin]
    cases hfront : front limit bytes with
    | incomplete => exact ⟨bytes, Stuck.cut fun p r hp => by rw [hfront] at hp; cases hp⟩
    | oversize n => exact ⟨bytes, Stuck.cut fun p r hp => by rw [hfront] at hp; cases hp⟩
    | complete p r =>
      obtain ⟨hbytes, hsmall⟩ := front_complete hfront
      have hlen : r.length ≤ rounds := by
        rw [hbytes, frame, header] at h
        simp only [List.length_append, List.length_cons, List.length_nil] at h
        omega
      obtain ⟨rest, hcut⟩ := ih hlen
      refine ⟨rest, ?_, ?_, hcut.stuck⟩
      · rw [List.flatMap_cons, List.append_assoc, ← hcut.bytes_eq]
        exact hbytes
      · intro q hq
        rcases List.mem_cons.mp hq with rfl | hq
        · exact hsmall
        · exact hcut.small q hq

theorem payloadsOf_cut (limit : Nat) (bytes : List UInt8) :
    ∃ rest, Cut limit bytes (payloadsOf limit bytes) rest :=
  payloadsWithin_cut (Nat.le_refl _)

theorem Cut.payloads_eq (hlimit : limit < 4294967296) (h : Cut limit bytes payloads rest) :
    payloads = payloadsOf limit bytes := by
  obtain ⟨rest', hcut⟩ := payloadsOf_cut limit bytes
  exact (h.unique hlimit hcut).1

theorem Cut.append_left (h : Cut limit bytes payloads rest)
    (hsmall : ∀ payload ∈ payloads', payload.length ≤ limit) :
    Cut limit (payloads'.flatMap frame ++ bytes) (payloads' ++ payloads) rest where
  bytes_eq := by rw [h.bytes_eq, List.flatMap_append, List.append_assoc]
  small payload hmem := by
    rcases List.mem_append.mp hmem with hmem | hmem
    · exact hsmall payload hmem
    · exact h.small payload hmem
  stuck := h.stuck

theorem Stuck.of_incomplete (h : front limit bytes = .incomplete) : Stuck limit bytes :=
  fun _ _ hcomplete => by rw [h] at hcomplete; cases hcomplete

theorem Stuck.of_oversize (h : front limit bytes = .oversize n) : Stuck limit (bytes ++ more) :=
  fun _ _ hcomplete => by rw [front_append_oversize h] at hcomplete; cases hcomplete

end LengthFrames
