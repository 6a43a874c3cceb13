import Hazkey.BeamSearch
import Hazkey.FirstOccurrences

/-! The forced candidates come first, and sentences fill the room that is left. -/

namespace Hazkey

namespace MozcSidecarB1

open FirstOccurrences

variable {forced : List SegmentCandidate} {result : List Data} {m : Nat}

/-- The loop appends new values up to the limit, and where there is room left it has seen the
key of each. -/
theorem appendNew_spec (seen values : List Data) (h : result.length ≤ m) :
    (appendNew m result seen values).1 =
        result ++ (firsts canonicalDedupKey seen values).take (m - result.length) ∧
      ((appendNew m result seen values).1.length < m → ∀ key,
        key ∈ (appendNew m result seen values).2 ↔
          key ∈ values.map canonicalDedupKey ∨ key ∈ seen) := by
  induction values generalizing result seen with
  | nil => simp [appendNew]
  | cons value values ih =>
    rw [appendNew, firsts_cons]
    by_cases hroom : result.length < m
    · rw [if_pos hroom]
      by_cases hseen : canonicalDedupKey value ∈ seen
      · rw [if_pos hseen, if_pos hseen]
        obtain ⟨happend, hkeys⟩ := ih seen h
        refine ⟨happend, fun hlt key => ?_⟩
        rw [hkeys hlt, List.map_cons, List.mem_cons]
        constructor
        · rintro (hkey | hkey)
          · exact .inl (.inr hkey)
          · exact .inr hkey
        · rintro ((rfl | hkey) | hkey)
          · exact .inr hseen
          · exact .inl hkey
          · exact .inr hkey
      · rw [if_neg hseen, if_neg hseen]
        have hlen : (result ++ [value]).length ≤ m := by
          rw [List.length_append, List.length_singleton]
          omega
        obtain ⟨happend, hkeys⟩ := ih (canonicalDedupKey value :: seen) hlen
        constructor
        · have hrest : m - result.length = m - (result ++ [value]).length + 1 := by
            rw [List.length_append, List.length_singleton]
            omega
          rw [happend, hrest, List.take_succ_cons, List.append_assoc, List.singleton_append]
        · intro hlt key
          rw [hkeys hlt, List.map_cons, List.mem_cons, List.mem_cons]
          tauto
    · have hfull : m - result.length = 0 := by omega
      rw [if_neg hroom, hfull, List.take_zero, List.append_nil]
      exact ⟨rfl, fun hlt => absurd hlt hroom⟩

/-- Everything that may become a candidate, in the order of preference. -/
def offered (forced : List SegmentCandidate) (segments : List Segment) (m : Nat) : List Data :=
  forced.map (·.value) ++ buildNaturalSentenceAlternatives segments (searchWidth m)

theorem buildB1Candidates_eq (segments : List Segment) (hforced : forced ≠ []) (hm : 1 ≤ m) :
    buildB1Candidates forced segments m =
      (firsts canonicalDedupKey [] (offered forced segments m)).take m := by
  obtain ⟨first, others, rfl⟩ := List.exists_cons_of_ne_nil hforced
  have hone : firsts canonicalDedupKey [] (offered (first :: others) segments m) =
      first.value :: firsts canonicalDedupKey [canonicalDedupKey first.value]
        (others.map (·.value) ++ buildNaturalSentenceAlternatives segments (searchWidth m)) := by
    rw [offered, List.map_cons, List.cons_append, firsts_cons, if_neg (by simp)]
  rw [hone, buildB1Candidates, if_neg (by omega)]
  by_cases hsingle : m = 1
  · rw [if_pos hsingle, hsingle]
    simp
  · rw [if_neg hsingle]
    obtain ⟨hforced, hkeys⟩ := appendNew_spec [canonicalDedupKey first.value]
      (others.map (·.value)) (show [first.value].length ≤ m from hm)
    dsimp only
    set kept := firsts canonicalDedupKey [canonicalDedupKey first.value] (others.map (·.value))
      with hkept
    have hlen : (first.value :: kept.take (m - 1)).length ≤ m := by
      rw [List.length_cons, List.length_take]
      omega
    rw [List.length_singleton, List.singleton_append] at hforced
    rw [firsts_append, ← hkept, ← List.cons_append, List.take_append]
    by_cases hfull : (first.value :: kept.take (m - 1)).length = m
    · have hcut : (first.value :: kept).take m = first.value :: kept.take (m - 1) := by
        rw [← List.take_succ_cons, Nat.sub_add_cancel hm]
      have hno : m - (first.value :: kept).length = 0 := by
        rw [List.length_cons, List.length_take] at hfull
        rw [List.length_cons]
        omega
      rw [hforced, if_pos hfull, hcut, hno, List.take_zero, List.append_nil]
    · have hall : kept.take (m - 1) = kept := by
        rw [List.length_cons, List.length_take] at hfull
        exact List.take_of_length_le (by omega)
      rw [hall] at hforced hlen hfull
      have hlt : (first.value :: kept).length < m := by omega
      rw [hforced] at hkeys
      rw [hforced, if_neg hfull, (appendNew_spec _ _ hlen).1,
        List.take_of_length_le (show (first.value :: kept).length ≤ m from hlen)]
      congr 2
      refine firsts_congr fun key => ?_
      rw [hkeys hlt, List.mem_append]

end MozcSidecarB1

end Hazkey
