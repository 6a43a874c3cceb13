import Mathlib.Data.List.Basic

/-! A list cut at every change of a predicate, and the runs where it fails replaced by one
marker each. -/

namespace AlternatingRuns

variable {α : Type}

/-- Gaps and spans in turn, and a last gap. Every gap between two spans is populated, so no
span can be extended. -/
structure Alternates (p : α → Bool) (s : List α) (blocks : List (List α × List α))
    (last : List α) : Prop where
  text : s = blocks.flatMap (fun b => b.1 ++ b.2) ++ last
  gaps : ∀ b ∈ blocks, ∀ a ∈ b.1, p a = false
  lastGap : ∀ a ∈ last, p a = false
  spans : ∀ b ∈ blocks, b.2 ≠ [] ∧ ∀ a ∈ b.2, p a = true
  inner : ∀ b ∈ blocks.tail, b.1 ≠ []

/-- Each run without `p` becomes one marker. -/
def markRuns (p : α → Bool) (marker : α) : Bool → List α → List α
  | _, [] => []
  | inRun, a :: s =>
    if p a = true then a :: markRuns p marker false s
    else if inRun = true then markRuns p marker true s
    else marker :: markRuns p marker true s

def mark (marker : α) (gap : List α) : List α := if gap = [] then [] else [marker]

/-- A map of texts that works on each side of a marker by itself. -/
structure Separates (f : List α → List α) (marker : α) : Prop where
  nil : f [] = []
  split : ∀ s t, f (s ++ marker :: t) = f s ++ marker :: f t

variable {p : α → Bool} {marker a : α} {s t gap span last last' : List α}
  {blocks blocks' : List (List α × List α)} {f : List α → List α}

@[simp] theorem mark_nil : mark marker [] = [] := if_pos rfl

theorem mark_of_ne_nil (h : gap ≠ []) : mark marker gap = [marker] := if_neg h

@[simp] theorem mark_eq_nil : mark marker gap = [] ↔ gap = [] := by
  by_cases h : gap = []
  · simp [h]
  · simp [mark_of_ne_nil h, h]

theorem mem_mark (h : a ∈ mark marker gap) : a = marker := by
  by_cases hgap : gap = []
  · simp [hgap] at h
  · simpa [mark_of_ne_nil hgap] using h

theorem Alternates.tail {b : List α × List α} (h : Alternates p s (b :: blocks) last) :
    Alternates p (blocks.flatMap (fun b => b.1 ++ b.2) ++ last) blocks last where
  text := rfl
  gaps b hb := h.gaps b (List.mem_cons_of_mem _ hb)
  lastGap := h.lastGap
  spans b hb := h.spans b (List.mem_cons_of_mem _ hb)
  inner b hb := h.inner b (List.mem_of_mem_tail hb)

theorem Alternates.cons_text {b : List α × List α} (h : Alternates p s (b :: blocks) last) :
    s = b.1 ++ (b.2 ++ (blocks.flatMap (fun b => b.1 ++ b.2) ++ last)) := by
  rw [h.text]
  simp only [List.flatMap_cons, List.append_assoc]

/-- What follows a span begins outside of it. -/
theorem Alternates.head_after {b : List α × List α} (h : Alternates p s (b :: blocks) last) :
    ∀ x ∈ (blocks.flatMap (fun b => b.1 ++ b.2) ++ last).head?, p x = false := by
  intro x hx
  cases blocks with
  | nil => exact h.lastGap x (List.mem_of_mem_head? hx)
  | cons next blocks =>
    have hgap : next.1 ≠ [] := h.inner next (by simp)
    obtain ⟨y, ys, hy⟩ := List.exists_cons_of_ne_nil hgap
    rw [List.flatMap_cons, hy] at hx
    obtain rfl : y = x := by simpa using hx
    exact h.gaps next (by simp) y (by simp [hy])

theorem takeWhile_append_head {q : α → Bool} (hs : ∀ x ∈ s, q x = true)
    (ht : ∀ x ∈ t.head?, q x = false) : (s ++ t).takeWhile q = s := by
  have hrest : t.takeWhile q = [] := by
    cases t with
    | nil => rfl
    | cons x t => exact List.takeWhile_cons_of_neg (by simp [ht x rfl])
  rw [List.takeWhile_append_of_pos hs, hrest, List.append_nil]

theorem Alternates.nil_unique (h : Alternates p s [] last)
    (h' : Alternates p s blocks' last') : blocks' = [] ∧ last = last' := by
  have hs : s = last := h.text
  cases blocks' with
  | nil => exact ⟨rfl, hs.symm.trans h'.text⟩
  | cons b blocks' =>
    obtain ⟨hne, hspan⟩ := h'.spans b (by simp)
    obtain ⟨x, xs, hx⟩ := List.exists_cons_of_ne_nil hne
    have hmem : x ∈ last := by
      rw [← hs, h'.cons_text, hx]
      simp
    have hfalse := h.lastGap x hmem
    rw [hspan x (by simp [hx])] at hfalse
    cases hfalse

theorem Alternates.takeWhile_gap {b : List α × List α} (h : Alternates p s (b :: blocks) last) :
    s.takeWhile (fun x => !p x) = b.1 := by
  rw [h.cons_text]
  refine takeWhile_append_head (fun x hx => by simp [h.gaps b (by simp) x hx]) ?_
  obtain ⟨hne, hspan⟩ := h.spans b (by simp)
  obtain ⟨y, ys, hy⟩ := List.exists_cons_of_ne_nil hne
  rw [hy]
  simpa using hspan y (by simp [hy])

theorem Alternates.takeWhile_span {b : List α × List α} (h : Alternates p s (b :: blocks) last) :
    (b.2 ++ (blocks.flatMap (fun b => b.1 ++ b.2) ++ last)).takeWhile p = b.2 :=
  takeWhile_append_head (h.spans b (by simp)).2 h.head_after

/-- There is one way to cut a list. -/
theorem Alternates.unique (h : Alternates p s blocks last) (h' : Alternates p s blocks' last') :
    blocks = blocks' ∧ last = last' := by
  induction blocks generalizing s blocks' with
  | nil =>
    obtain ⟨rfl, hlast⟩ := h.nil_unique h'
    exact ⟨rfl, hlast⟩
  | cons b blocks ih =>
    cases blocks' with
    | nil =>
      obtain ⟨hnil, -⟩ := h'.nil_unique h
      cases hnil
    | cons b' blocks' =>
      have hfst : b.1 = b'.1 := h.takeWhile_gap.symm.trans h'.takeWhile_gap
      have hrest := h.cons_text.symm.trans h'.cons_text
      rw [hfst, List.append_cancel_left_eq] at hrest
      have hsnd : b.2 = b'.2 := by rw [← h.takeWhile_span, hrest, h'.takeWhile_span]
      rw [hsnd, List.append_cancel_left_eq] at hrest
      obtain ⟨rfl, rfl⟩ := ih (hrest ▸ h.tail) h'.tail
      exact ⟨by rw [Prod.ext hfst hsnd], rfl⟩

theorem markRuns_append_span (inRun : Bool) (hne : span ≠ []) (hspan : ∀ a ∈ span, p a = true) :
    markRuns p marker inRun (span ++ s) = span ++ markRuns p marker false s := by
  induction span generalizing inRun with
  | nil => exact absurd rfl hne
  | cons a span ih =>
    rw [List.cons_append, markRuns, if_pos (hspan a (by simp)), List.cons_append]
    by_cases hnil : span = []
    · rw [hnil, List.nil_append, List.nil_append]
    · rw [ih false hnil fun x hx => hspan x (by simp [hx])]

theorem markRuns_true_append_gap (hgap : ∀ a ∈ gap, p a = false) :
    markRuns p marker true (gap ++ s) = markRuns p marker true s := by
  induction gap with
  | nil => rfl
  | cons a gap ih =>
    rw [List.cons_append, markRuns, if_neg (by simp [hgap a (by simp)]), if_pos rfl]
    exact ih fun x hx => hgap x (by simp [hx])

theorem markRuns_append_gap (hgap : ∀ a ∈ gap, p a = false) :
    markRuns p marker false (gap ++ s) =
      mark marker gap ++ markRuns p marker (decide (gap ≠ [])) s := by
  cases gap with
  | nil => rfl
  | cons a gap =>
    rw [List.cons_append, markRuns, if_neg (by simp [hgap a (by simp)]), if_neg (by simp),
      markRuns_true_append_gap fun x hx => hgap x (by simp [hx]),
      mark_of_ne_nil (List.cons_ne_nil a gap)]
    simp

theorem Alternates.markRuns_eq (h : Alternates p s blocks last) :
    markRuns p marker false s =
      blocks.flatMap (fun b => mark marker b.1 ++ b.2) ++ mark marker last := by
  induction blocks generalizing s with
  | nil =>
    have hs : s = last ++ [] := by simpa using h.text
    rw [hs, markRuns_append_gap h.lastGap]
    simp [markRuns]
  | cons b blocks ih =>
    obtain ⟨hne, hspan⟩ := h.spans b (by simp)
    rw [h.cons_text, markRuns_append_gap (h.gaps b (by simp)), markRuns_append_span _ hne hspan,
      ih h.tail]
    simp only [List.flatMap_cons, List.append_assoc]

/-- Between two populated gaps a map of texts sees each span by itself. -/
theorem Separates.append (hf : Separates f marker)
    (ht : ∀ x ∈ t.head?, x = marker) : f (s ++ t) = f s ++ f t := by
  cases t with
  | nil => rw [List.append_nil, hf.nil, List.append_nil]
  | cons x t =>
    obtain rfl : x = marker := ht x rfl
    have hcons : f (x :: t) = x :: f t := by simpa [hf.nil] using hf.split [] t
    rw [hf.split, hcons]

theorem Separates.mark_append (hf : Separates f marker) (gap s : List α) :
    f (mark marker gap ++ s) = mark marker gap ++ f s := by
  by_cases h : gap = []
  · simp [h]
  · simpa [mark_of_ne_nil h, hf.nil] using hf.split [] s

theorem Separates.map_marked (hf : Separates f marker) (hinner : ∀ b ∈ blocks.tail, b.1 ≠ []) :
    f (blocks.flatMap (fun b => mark marker b.1 ++ b.2) ++ mark marker last) =
      blocks.flatMap (fun b => mark marker b.1 ++ f b.2) ++ mark marker last := by
  induction blocks with
  | nil => simpa [hf.nil] using hf.mark_append last []
  | cons b blocks ih =>
    have hhead : ∀ x ∈ (blocks.flatMap (fun b => mark marker b.1 ++ b.2) ++
        mark marker last).head?, x = marker := by
      intro x hx
      cases blocks with
      | nil => exact mem_mark (List.mem_of_mem_head? (by simpa using hx))
      | cons next blocks =>
        rw [List.flatMap_cons, mark_of_ne_nil (hinner next (by simp))] at hx
        simpa using hx.symm
    have hrest := ih fun x hx => hinner x (List.mem_of_mem_tail hx)
    rw [List.flatMap_cons, List.append_assoc, List.append_assoc, hf.mark_append,
      hf.append hhead, hrest]
    simp only [List.flatMap_cons, List.append_assoc]

/-- The marked text is cut as the text is, whatever is done to its spans. -/
theorem Alternates.marked [DecidableEq α] (h : Alternates p s blocks last)
    (hf : Separates f marker)
    (hspans : ∀ t, t ≠ [] → (∀ a ∈ t, p a = true) → f t ≠ [] ∧ marker ∉ f t) :
    Alternates (fun a => decide (a ≠ marker)) (f (markRuns p marker false s))
      (blocks.map fun b => (mark marker b.1, f b.2)) (mark marker last) where
  text := by rw [h.markRuns_eq, hf.map_marked h.inner, List.flatMap_map]
  gaps b hb a ha := by
    obtain ⟨b, -, rfl⟩ := List.mem_map.mp hb
    simpa using mem_mark ha
  lastGap a ha := by simpa using mem_mark ha
  spans b hb := by
    obtain ⟨b, hmem, rfl⟩ := List.mem_map.mp hb
    obtain ⟨hne, hspan⟩ := h.spans b hmem
    obtain ⟨hne', hmarker⟩ := hspans b.2 hne hspan
    refine ⟨hne', fun a ha => ?_⟩
    have hne : a ≠ marker := fun heq => hmarker (heq ▸ ha)
    simpa using hne
  inner b hb := by
    rw [← List.map_tail] at hb
    obtain ⟨b, hmem, rfl⟩ := List.mem_map.mp hb
    simpa using h.inner b hmem

/-- Texts are equal after marking just where their spans are, and the same gaps are
populated. -/
theorem markRuns_eq_iff [DecidableEq α] (h : Alternates p s blocks last)
    (h' : Alternates p t blocks' last') (hf : Separates f marker)
    (hspans : ∀ t, t ≠ [] → (∀ a ∈ t, p a = true) → f t ≠ [] ∧ marker ∉ f t) :
    f (markRuns p marker false s) = f (markRuns p marker false t) ↔
      blocks.map (fun b => f b.2) = blocks'.map (fun b => f b.2) ∧
        blocks.map (fun b => decide (b.1 ≠ [])) ++ [decide (last ≠ [])] =
          blocks'.map (fun b => decide (b.1 ≠ [])) ++ [decide (last' ≠ [])] := by
  have hmark : ∀ gap gap' : List α, mark marker gap = mark marker gap' ↔
      decide (gap ≠ []) = decide (gap' ≠ []) := by
    intro gap gap'
    by_cases hg : gap = [] <;> by_cases hg' : gap' = [] <;>
      simp [hg, hg', mark_of_ne_nil]
  constructor
  · intro heq
    obtain ⟨hblocks, hlast⟩ := (heq ▸ h.marked hf hspans).unique (h'.marked hf hspans)
    have hfst := congrArg (List.map fun b : List α × List α => decide (b.1 ≠ [])) hblocks
    have hsnd := congrArg (List.map Prod.snd) hblocks
    simp only [List.map_map, Function.comp_def, ne_eq, mark_eq_nil] at hfst hsnd
    exact ⟨hsnd, by rw [(hmark _ _).mp hlast]; simpa using hfst⟩
  · rintro ⟨hspan, hgap⟩
    have hlen : blocks.length = blocks'.length := by simpa using congrArg List.length hspan
    obtain ⟨hgaps, hlast⟩ := List.append_inj' hgap rfl
    have hmarks : blocks.map (fun b => mark marker b.1) = blocks'.map (fun b => mark marker b.1) := by
      refine List.ext_getElem (by simpa using hlen) fun i hi hi' => ?_
      have hget := congrArg (·[i]?) hgaps
      simp only [List.length_map] at hi hi'
      simp only [List.getElem?_map, List.getElem?_eq_getElem hi, List.getElem?_eq_getElem hi',
        Option.map_some, Option.some.injEq] at hget
      simpa using (hmark _ _).mpr hget
    have hzip : ∀ blocks : List (List α × List α),
        blocks.flatMap (fun b => mark marker b.1 ++ f b.2) =
          (List.zipWith (· ++ ·) (blocks.map fun b => mark marker b.1)
            (blocks.map fun b => f b.2)).flatten := by
      intro blocks
      induction blocks with
      | nil => rfl
      | cons b blocks ih => simp [ih]
    rw [h.markRuns_eq, h'.markRuns_eq, hf.map_marked h.inner, hf.map_marked h'.inner, hzip, hzip,
      hmarks, hspan, (hmark last last').mpr (by simpa using hlast)]

end AlternatingRuns
