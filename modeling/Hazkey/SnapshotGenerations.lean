import Hazkey.HybridEvaluation
import Hazkey.SnapshotManager

/-! The generation of a published snapshot is the number of its payload, up to the width of the
counter. -/

namespace Hazkey

theorem GrimodexLoadResult.payload_eq_none {result : GrimodexLoadResult}
    (h : result.diagnostic ≠ .loaded) : result.payload = none := by
  by_contra hne
  exact h (result.loaded.mp hne)

theorem GrimodexLoadResult.not_retryable {result : GrimodexLoadResult}
    {payload : GrimodexIntegrationPayload} (h : result.payload = some payload) :
    result.diagnostic.isRetryable = false := by
  have hloaded := result.loaded.mp (by rw [h]; exact Option.some_ne_none payload)
  rw [hloaded]
  rfl

namespace GrimodexSnapshotManager

section

variable [CanonicalText] {manager : GrimodexSnapshotManager} {result : GrimodexLoadResult}
  {results earlier later : List GrimodexLoadResult}

theorem samePayload_iff {payload other : Option GrimodexIntegrationPayload} :
    samePayload payload other = true ↔ payload.map (·.spelled) = other.map (·.spelled) :=
  decide_eq_true_iff

theorem samePayload_self (payload : Option GrimodexIntegrationPayload) :
    samePayload payload payload = true := samePayload_iff.mpr rfl

theorem samePayload_trans {one two three : Option GrimodexIntegrationPayload}
    (h : samePayload one two = true) (h' : samePayload two three = true) :
    samePayload one three = true :=
  samePayload_iff.mpr ((samePayload_iff.mp h).trans (samePayload_iff.mp h'))

/-! What one reload does. -/

theorem reload_of_single (h : result.diagnostic.isRetryable = true)
    (hfirst : manager.consecutiveRetryableFailures = 0) : manager.reload result =
      { consecutiveRetryableFailures := 1
        published := { manager.published with diagnostic := result.diagnostic } } := by
  unfold reload
  rw [if_pos h, hfirst, if_pos rfl]

theorem reload_of_repeated (h : result.diagnostic.isRetryable = true)
    (hfirst : manager.consecutiveRetryableFailures ≠ 0) : manager.reload result =
      { consecutiveRetryableFailures := manager.consecutiveRetryableFailures + 1
        published := publish manager.published result } := by
  unfold reload
  rw [if_pos h, if_neg (by omega)]

theorem reload_of_final (h : result.diagnostic.isRetryable = false) : manager.reload result =
      { consecutiveRetryableFailures := 0, published := publish manager.published result } := by
  unfold reload
  rw [if_neg (by simp [h])]

/-- A reload either leaves what is published, but for its diagnostic, or publishes the result. -/
theorem reload_cases (manager : GrimodexSnapshotManager) (result : GrimodexLoadResult) :
    (manager.reload result).published = { manager.published with diagnostic := result.diagnostic } ∨
      (manager.reload result).published = publish manager.published result := by
  cases h : result.diagnostic.isRetryable with
  | false => exact Or.inr (by rw [reload_of_final h])
  | true =>
    by_cases hfirst : manager.consecutiveRetryableFailures = 0
    · exact Or.inl (by rw [reload_of_single h hfirst])
    · exact Or.inr (by rw [reload_of_repeated h hfirst])

def changed (manager : GrimodexSnapshotManager) (result : GrimodexLoadResult) : Nat :=
  if samePayload manager.published.payload (manager.reload result).published.payload then 0 else 1

theorem generation_reload (h : manager.published.generation < 18446744073709551616) :
    (manager.reload result).published.generation =
      (manager.published.generation + changed manager result) % 18446744073709551616 := by
  unfold changed
  rcases reload_cases manager result with hr | hr
  · rw [hr, if_pos (samePayload_self _)]
    exact (Nat.mod_eq_of_lt h).symm
  · rw [hr]
    show (if samePayload manager.published.payload result.payload then manager.published.generation
        else (manager.published.generation + 1) % 18446744073709551616) = _
    by_cases hsame : samePayload manager.published.payload result.payload = true
    · rw [if_pos hsame]
      show _ = (_ + if samePayload manager.published.payload result.payload then 0 else 1) % _
      rw [if_pos hsame]
      exact (Nat.mod_eq_of_lt h).symm
    · rw [if_neg hsame]
      show _ = (_ + if samePayload manager.published.payload result.payload then 0 else 1) % _
      rw [if_neg hsame]

/-! What a run of reloads does. -/

/-- How often the published payload has changed. -/
def changes (manager : GrimodexSnapshotManager) : List GrimodexLoadResult → Nat
  | [] => 0
  | result :: results => changed manager result + changes (manager.reload result) results

theorem reloads_append (manager : GrimodexSnapshotManager) (earlier later : List GrimodexLoadResult) :
    manager.reloads (earlier ++ later) = (manager.reloads earlier).reloads later :=
  List.foldl_append

theorem changes_append : changes manager (earlier ++ later) =
    changes manager earlier + changes (manager.reloads earlier) later := by
  induction earlier generalizing manager with
  | nil => exact (Nat.zero_add _).symm
  | cons result earlier ih =>
    show changed manager result + changes (manager.reload result) (earlier ++ later) = _
    rw [ih, ← Nat.add_assoc]
    rfl

theorem generation_reloads (h : manager.published.generation < 18446744073709551616) :
    (manager.reloads results).published.generation =
      (manager.published.generation + changes manager results) % 18446744073709551616 := by
  induction results generalizing manager with
  | nil => exact (Nat.mod_eq_of_lt h).symm
  | cons result results ih =>
    have hstep : (manager.reload result).published.generation =
        (manager.published.generation + changed manager result) % 18446744073709551616 :=
      generation_reload h
    show ((manager.reload result).reloads results).published.generation =
      (manager.published.generation + (changed manager result +
        changes (manager.reload result) results)) % 18446744073709551616
    rw [ih (by omega), hstep]
    omega

theorem generation_lt (results : List GrimodexLoadResult) :
    (initial.reloads results).published.generation < 18446744073709551616 := by
  rw [generation_reloads (by decide)]
  exact Nat.mod_lt _ (by decide)

theorem samePayload_reloads (h : changes manager results = 0) :
    samePayload manager.published.payload (manager.reloads results).published.payload = true := by
  induction results generalizing manager with
  | nil => exact samePayload_self _
  | cons result results ih =>
    have hsplit : changed manager result + changes (manager.reload result) results = 0 := h
    have hsame : samePayload manager.published.payload
        (manager.reload result).published.payload = true := by
      by_contra hne
      have hone : changed manager result = 1 := if_neg hne
      omega
    exact samePayload_trans hsame (ih (by omega))

/-- The last of the reloads was a failure that is to be retried. -/
def EndsRetryable (results : List GrimodexLoadResult) : Prop :=
  ∃ result ∈ results.getLast?, result.diagnostic.isRetryable = true

theorem failures_eq_zero_iff (results : List GrimodexLoadResult) :
    (initial.reloads results).consecutiveRetryableFailures = 0 ↔ ¬EndsRetryable results := by
  rcases List.eq_nil_or_concat results with rfl | ⟨front, result, rfl⟩
  · exact iff_of_true rfl fun ⟨_, h, _⟩ => absurd h (by simp)
  · have hends : EndsRetryable (front.concat result) ↔ result.diagnostic.isRetryable = true := by
      simp [EndsRetryable]
    rw [hends, List.concat_eq_append, reloads_append]
    show ((initial.reloads front).reload result).consecutiveRetryableFailures = 0 ↔ _
    cases h : result.diagnostic.isRetryable with
    | false => exact iff_of_true (by rw [reload_of_final h]) Bool.false_ne_true
    | true =>
      refine iff_of_false ?_ (not_not.mpr rfl)
      by_cases hfirst : (initial.reloads front).consecutiveRetryableFailures = 0
      · rw [reload_of_single h hfirst]
        exact Nat.one_ne_zero
      · rw [reload_of_repeated h hfirst]
        exact Nat.succ_ne_zero _

/-- What a reload publishes after others. -/
structure Publishes (results : List GrimodexLoadResult) (result : GrimodexLoadResult) : Prop where
  single : result.diagnostic.isRetryable = true → ¬EndsRetryable results →
    ((initial.reloads results).reload result).published.payload =
        (initial.reloads results).published.payload ∧
      ((initial.reloads results).reload result).published.generation =
        (initial.reloads results).published.generation
  repeated : result.diagnostic.isRetryable = true → EndsRetryable results →
    ((initial.reloads results).reload result).published.payload = none
  permanent : result.diagnostic.isRetryable = false → result.diagnostic ≠ .loaded →
    ((initial.reloads results).reload result).published.payload = none
  success : ∀ payload, result.payload = some payload →
    ((initial.reloads results).reload result).published.payload = some payload

theorem reload_publishes (results : List GrimodexLoadResult) (result : GrimodexLoadResult) :
    Publishes results result where
  single h hends := by
    rw [reload_of_single h ((failures_eq_zero_iff results).mpr hends)]
    exact ⟨rfl, rfl⟩
  repeated h hends := by
    rw [reload_of_repeated h (fun he => (failures_eq_zero_iff results).mp he hends)]
    exact result.payload_eq_none fun he => by rw [he] at h; exact Bool.false_ne_true h
  permanent h hfailed := by
    rw [reload_of_final h]
    exact result.payload_eq_none hfailed
  success payload h := by
    rw [reload_of_final (GrimodexLoadResult.not_retryable h)]
    exact h

/-- Generations number the payloads that are published one after the other. -/
theorem published_generations (results : List GrimodexLoadResult) :
    (changes initial results < 18446744073709551616 → ∀ earlier later, results = earlier ++ later →
      (initial.reloads earlier).published.generation ≤
        (initial.reloads results).published.generation) ∧
    (∀ earlier later, results = earlier ++ later →
      changes (initial.reloads earlier) later < 18446744073709551616 →
      (initial.reloads earlier).published.generation =
        (initial.reloads results).published.generation →
      samePayload (initial.reloads earlier).published.payload
        (initial.reloads results).published.payload = true) ∧
    ∀ result, Publishes results result := by
  refine ⟨?_, ?_, reload_publishes results⟩
  · rintro hchanges earlier later rfl
    rw [changes_append] at hchanges
    have hstart : initial.published.generation = 0 := rfl
    rw [generation_reloads (by decide), generation_reloads (by decide), changes_append, hstart]
    omega
  · rintro earlier later rfl hchanges heq
    have hlt := generation_lt earlier
    rw [reloads_append] at heq ⊢
    rw [generation_reloads hlt] at heq
    exact samePayload_reloads (by omega)

end

/-! Two projects in turn. -/

section

attribute [local instance] composedText

def namedPayload (projectName : Text) : GrimodexIntegrationPayload where
  projectID := ['p']
  projectName := projectName
  dictionaryEntries := []
  conditions := .empty

def loadedAs (projectName : Text) : GrimodexLoadResult where
  payload := some (namedPayload projectName)
  diagnostic := .loaded
  loaded := iff_of_true (Option.some_ne_none _) rfl

def nameAt (n : Nat) : Text := if n % 2 = 0 then ['a'] else ['b']

def alternating : Nat → List GrimodexLoadResult
  | 0 => []
  | n + 1 => alternating n ++ [loadedAs (nameAt n)]

theorem reloads_alternating (n : Nat) :
    (initial.reloads (alternating n)).published.generation = n % 18446744073709551616 ∧
      samePayload (initial.reloads (alternating n)).published.payload
        (some (namedPayload (nameAt n))) = false := by
  induction n with
  | zero => exact ⟨rfl, by decide⟩
  | succ n ih =>
    obtain ⟨hgeneration, hpayload⟩ := ih
    rw [alternating, reloads_append]
    show ((initial.reloads (alternating n)).reload (loadedAs (nameAt n))).published.generation = _ ∧
      samePayload ((initial.reloads (alternating n)).reload (loadedAs (nameAt n))).published.payload
        _ = false
    rw [reload_of_final rfl]
    constructor
    · show (if samePayload (initial.reloads (alternating n)).published.payload
          (some (namedPayload (nameAt n))) then _ else _) = _
      rw [hpayload, if_neg Bool.false_ne_true, hgeneration]
      omega
    · show samePayload (some (namedPayload (nameAt n))) (some (namedPayload (nameAt (n + 1)))) = false
      unfold nameAt
      by_cases hn : n % 2 = 0
      · rw [if_pos hn, if_neg (by omega)]
        decide
      · rw [if_neg hn, if_pos (by omega)]
        decide

theorem generation_of_last {n : Nat} (h : n % 18446744073709551616 = 18446744073709551615) :
    ((initial.reloads (alternating n)).reload (loadedAs (nameAt n))).published.generation <
      (initial.reloads (alternating n)).published.generation := by
  have hbefore := (reloads_alternating n).1
  have hafter := (reloads_alternating (n + 1)).1
  rw [alternating, reloads_append] at hafter
  change ((initial.reloads (alternating n)).reload
    (loadedAs (nameAt n))).published.generation = _ at hafter
  omega

/-- The generation after the last is the first again. -/
theorem alternating_wraps :
    ((initial.reloads (alternating 18446744073709551615)).reload
        (loadedAs (nameAt 18446744073709551615))).published.generation <
      (initial.reloads (alternating 18446744073709551615)).published.generation :=
  generation_of_last (by decide)

end

end GrimodexSnapshotManager

end Hazkey
