import Hazkey.ElfChain
import Hazkey.ElfVersions

/-! What the inspection says of every file, and on which files it says too much or fails
as it should not. -/

namespace Hazkey.BundleVerification

open TracedRuns Traced WeakOrders

/-- The families of versions in their order, with the greatest that the contract allows. -/
def contract : List (Text × Text) :=
  [("GLIBC_".toList, targetRuntime.glibc), ("GLIBCXX_".toList, targetRuntime.glibcxx),
    ("CXXABI_".toList, targetRuntime.cxxabi)]

/-- A layout with its whole chain of requirements, no structure of it twice. -/
structure Declares (data : Data) (l : Layout) (chain : List Requirement) : Prop where
  layout : HasLayout data l
  requirements : Requirements l 0 l.requirementCount chain
  nodup : (offsets chain).Nodup
  budget : (offsets chain).length ≤ l.requirements.length / structureSize

/-- A version that is too long, in a family that is reached: every family before is there. -/
def Oversized (names : List Text) : List (Text × Text) → Prop
  | [] => False
  | c :: rest => (∃ v ∈ names, TooLong c.1 v) ∨
    (∃ v ∈ names, versionKey c.1 v ≠ none) ∧ Oversized names rest

/-- The contract is met in every family, and in one by another spelling as well. -/
def Ambiguous (l : Layout) (names : List Text) : Prop :=
  l.interpreter = targetRuntime.interpreter ∧ (∀ c ∈ contract, Highest c.1 names c.2) ∧
    ∃ c ∈ contract, ∃ other, other ≠ c.2 ∧ Highest c.1 names other

variable {order : SetOrder} {data : Data} {name : String} {names : List Text} {interpreter : Text}

/-! ## The decision -/

theorem requiredRuntime_eq_ok {runtime : Runtime} :
    (requiredRuntime order interpreter names name).result = .ok runtime ↔
      runtime = targetRuntime ∧ interpreter = targetRuntime.interpreter ∧
        ∀ c ∈ contract, (requiredVersion order names name c.1).result = .ok c.2 := by
  simp only [requiredRuntime, bind_eq_ok, expect_eq_ok, pure_eq_ok, contract, List.forall_mem_cons,
    List.not_mem_nil, false_implies, implies_true, and_true, exists_const]
  constructor
  · rintro ⟨glibc, hglibc, glibcxx, hglibcxx, cxxabi, hcxxabi, htarget, rfl⟩
    obtain ⟨rfl, rfl, rfl, rfl⟩ := Runtime.mk.inj htarget
    exact ⟨rfl, rfl, hglibc, hglibcxx, hcxxabi⟩
  · rintro ⟨rfl, rfl, hglibc, hglibcxx, hcxxabi⟩
    exact ⟨_, hglibc, _, hglibcxx, _, hcxxabi, rfl, rfl⟩

theorem Oversized.of_error {c : Text × Text} {rest : List (Text × Text)} {e : Failure}
    (h : (requiredVersion order names name c.1).result = .error e) (he : ¬e.IsBundle) :
    Oversized names (c :: rest) := by
  rcases requiredVersion_error h with ⟨-, hlong⟩ | ⟨hbundle, -⟩
  · exact .inl hlong
  · exact absurd hbundle he

theorem Oversized.of_rest {c : Text × Text} {rest : List (Text × Text)} {v : Text}
    (h : (requiredVersion order names name c.1).result = .ok v) (hrest : Oversized names rest) :
    Oversized names (c :: rest) := by
  obtain ⟨hv, key, hkey, -⟩ := highest_of_requiredVersion h
  exact .inr ⟨⟨v, hv, by simp [hkey]⟩, hrest⟩

/-- A failure that is none of a bundle comes from a version that is too long. -/
theorem oversized_of_error {e : Failure}
    (h : (requiredRuntime order interpreter names name).result = .error e) (he : ¬e.IsBundle) :
    Oversized names contract := by
  rcases bind_eq_error.mp h with h | ⟨glibc, hglibc, h⟩
  · exact .of_error h he
  · refine .of_rest hglibc ?_
    rcases bind_eq_error.mp h with h | ⟨glibcxx, hglibcxx, h⟩
    · exact .of_error h he
    · refine .of_rest hglibcxx ?_
      rcases bind_eq_error.mp h with h | ⟨cxxabi, -, h⟩
      · exact .of_error h he
      · rcases bind_eq_error.mp h with h | ⟨_, -, h⟩
        · exact absurd (expect_reads.failure e h) he
        · cases h

/-- The first family is refused, or it is found and the rest is. -/
theorem Oversized.cases (order : SetOrder) (name : String) {c : Text × Text}
    {rest : List (Text × Text)} (h : Oversized names (c :: rest)) :
    (∃ e, (requiredVersion order names name c.1).result = .error e ∧ ¬e.IsBundle) ∨
      ∃ v, (requiredVersion order names name c.1).result = .ok v ∧ Oversized names rest := by
  by_cases hlong : ∃ v ∈ names, TooLong c.1 v
  · exact .inl (exists_error_of_tooLong order name hlong)
  · obtain ⟨hmember, hrest⟩ := h.resolve_left hlong
    obtain ⟨v, hv⟩ := exists_requiredVersion order name
      (fun v hv htoo => hlong ⟨v, hv, htoo⟩) hmember
    exact .inr ⟨v, hv, hrest⟩

theorem error_of_oversized (order : SetOrder) (name : String) (interpreter : Text)
    (h : Oversized names contract) :
    ∃ e, (requiredRuntime order interpreter names name).result = .error e ∧ ¬e.IsBundle := by
  rcases h.cases order name with ⟨e, hglibc, he⟩ | ⟨glibc, hglibc, h⟩
  · exact ⟨e, by rw [requiredRuntime, bind_of_error hglibc], he⟩
  · rw [requiredRuntime, bind_of_ok hglibc]
    rcases h.cases order name with ⟨e, hglibcxx, he⟩ | ⟨glibcxx, hglibcxx, h⟩
    · exact ⟨e, by rw [bind_of_error hglibcxx], he⟩
    · rw [bind_of_ok hglibcxx]
      rcases h.cases order name with ⟨e, hcxxabi, he⟩ | ⟨_, _, h⟩
      · exact ⟨e, by rw [bind_of_error hcxxabi], he⟩
      · exact absurd h id

theorem requiredRuntime_silent : Silent (requiredRuntime order interpreter names name) := by
  refine requiredVersion_silent.bind fun _ _ => requiredVersion_silent.bind fun _ _ => ?_
  refine requiredVersion_silent.bind fun _ _ => Traced.Sound.bind ?_ fun _ _ => .pure _
  rw [expect]
  split_ifs
  · exact .pure ()
  · exact .fail trivial

/-! ## The whole run -/

def Layout.walked (l : Layout) : Walked := ⟨[], l.requirements.length / structureSize, []⟩

/-- The walk of a layout ends with the versions of its chain. -/
theorem walk_eq_ok {l : Layout} {w : Walked} :
    (walkRequirements l name l.requirementCount 0 l.walked).result = .ok w ↔
      ∃ chain, Requirements l 0 l.requirementCount chain ∧
        ((offsets chain).Nodup ∧ (offsets chain).length ≤ l.requirements.length / structureSize) ∧
        w = l.walked.extend (offsets chain) (versions chain) := by
  rw [walkRequirements_eq_ok]
  refine exists_congr fun chain => and_congr_right fun _ => and_congr_left fun _ => ?_
  constructor
  · intro h
    exact ⟨h.nodup, h.budget⟩
  · rintro ⟨hnodup, hbudget⟩
    exact ⟨hnodup, fun _ _ => List.not_mem_nil, hbudget⟩

theorem inspect_eq (order : SetOrder) (data : Data) (name : String) :
    inspectElfRuntimeContract order data name = readLayout data name >>= fun l =>
      walkRequirements l name l.requirementCount 0 l.walked >>= fun w =>
        requiredRuntime order l.interpreter w.versions name := rfl

/-- Where a chain is declared, only its versions decide. -/
theorem inspect_of_declares {l : Layout} {chain : List Requirement} (h : Declares data l chain) :
    (inspectElfRuntimeContract order data name).result =
      (requiredRuntime order l.interpreter (versions chain) name).result := by
  have hlayout : (readLayout data name).result = .ok l := readLayout_eq_ok.mpr h.layout
  have hwalk : (walkRequirements l name l.requirementCount 0 l.walked).result =
      .ok (l.walked.extend (offsets chain) (versions chain)) :=
    walk_eq_ok.mpr ⟨chain, h.requirements, ⟨h.nodup, h.budget⟩, rfl⟩
  rw [inspect_eq, bind_of_ok hlayout, bind_of_ok hwalk]
  rfl

/-- A run fails on a bundle, or it comes to the versions of a declared chain. -/
theorem inspect_result (order : SetOrder) (data : Data) (name : String) :
    (∃ e, (inspectElfRuntimeContract order data name).result = .error e ∧ e.IsBundle) ∨
      ∃ l chain, Declares data l chain ∧
        seen Event.inspected (inspectElfRuntimeContract order data name) = offsets chain := by
  cases hlayout : (readLayout data name).result with
  | error e =>
    refine .inl ⟨e, ?_, readLayout_reads.failure e hlayout⟩
    rw [inspect_eq, bind_of_error hlayout]
  | ok l =>
    cases hwalk : (walkRequirements l name l.requirementCount 0 l.walked).result with
    | error e =>
      refine .inl ⟨e, ?_, walkRequirements_stays.failure e hwalk⟩
      rw [inspect_eq, bind_of_ok hlayout, bind_of_error hwalk]
    | ok w =>
      obtain ⟨chain, hchain, ⟨hnodup, hbudget⟩, rfl⟩ := walk_eq_ok.mp hwalk
      refine .inr ⟨l, chain, ⟨readLayout_eq_ok.mp hlayout, hchain, hnodup, hbudget⟩, ?_⟩
      have hvisited := (walkRequirements_visits.kept _ hwalk).1
      rw [inspect_eq, seen_bind_of_ok hlayout, readLayout_reads.seen_eq_nil fun _ h => h.2,
        List.nil_append, seen_bind_of_rest fun w =>
          requiredRuntime_silent.seen_eq_nil fun _ h => h.elim]
      exact hvisited.symm

theorem inspect_stays (order : SetOrder) (data : Data) (name : String) :
    ∀ event ∈ (inspectElfRuntimeContract order data name).events, event.InBounds := by
  have h : Traced.Sound Event.InBounds (fun _ => True) (inspectElfRuntimeContract order data name) := by
    refine (readLayout_reads.mono (fun _ h => h.1) fun _ _ => trivial).bind fun l _ => ?_
    refine (walkRequirements_stays.mono (fun _ h => h) fun _ _ => trivial).bind fun w _ => ?_
    exact requiredRuntime_silent.mono (fun _ h => h.elim) fun _ h => h
  exact h.events

theorem inspect_visits (order : SetOrder) (data : Data) (name : String) :
    (seen Event.inspected (inspectElfRuntimeContract order data name)).Nodup ∧
      (seen Event.inspected (inspectElfRuntimeContract order data name) = [] ∨
        ∃ l, HasLayout data l ∧
          (seen Event.inspected (inspectElfRuntimeContract order data name)).length ≤
            l.requirements.length / structureSize) := by
  have hreads : Reads (readLayout data name) := readLayout_reads
  rw [inspect_eq]
  rcases seen_bind_of_nil (hreads.seen_eq_nil fun _ h => h.2) with h | ⟨l, hl, h⟩
  · rw [h]
    exact ⟨List.nodup_nil, .inl rfl⟩
  · have hvisits : Visits l.walked (walkRequirements l name l.requirementCount 0 l.walked) :=
      walkRequirements_visits
    have hfresh := hvisits.fresh
    rw [h, seen_bind_of_rest fun w => requiredRuntime_silent.seen_eq_nil fun _ h => h.elim]
    exact ⟨hfresh.nodup, .inr ⟨l, readLayout_eq_ok.mp hl, hfresh.budget⟩⟩

/-! ## The audit -/

def IsInterpreter (data : Data) (i : ℕ) : Prop :=
  i < (headerOf data).programCount ∧ field 4 data ((headerOf data).programAt i) = ptInterp

theorem HasLayout.existsUnique_interpreter {l : Layout} (h : HasLayout data l) :
    ∃! i, IsInterpreter data i := by
  obtain ⟨header, version, table, hl⟩ := h
  obtain ⟨i, hi, ⟨-, htype, -⟩, hothers⟩ := hl.interpreter
  rw [hl.header.2] at hi htype hothers
  refine ⟨i, ⟨hi, htype⟩, fun j hj => ?_⟩
  by_contra hne
  exact (hothers j hj.1 hne).2 hj.2

/-- No version of a family of the contract is greater than the one of the contract. -/
def WithinContract (names : List Text) : Prop :=
  ∀ c ∈ contract, ∀ v ∈ names, ∀ key, versionKey c.1 v = some key →
    ∀ bound, versionKey c.1 c.2 = some bound → lexLess id bound key = false

/-- What an inspection owes for every order of the set of versions. -/
structure RuntimeAudited (data : Data) (name : String) : Prop where
  total : ∀ order e, (inspectElfRuntimeContract order data name).result = .error e → e.IsBundle
  reads : ∀ order, ∀ event ∈ (inspectElfRuntimeContract order data name).events, event.InBounds
  visits : ∀ order, (seen Event.inspected (inspectElfRuntimeContract order data name)).Nodup ∧
    (seen Event.inspected (inspectElfRuntimeContract order data name) = [] ∨
      ∃ l, HasLayout data l ∧
        (seen Event.inspected (inspectElfRuntimeContract order data name)).length ≤
          l.requirements.length / structureSize)
  sound : ∀ order runtime, (inspectElfRuntimeContract order data name).result = .ok runtime →
    (∃! i, IsInterpreter data i) ∧
      (∃ l chain, HasLayout data l ∧ Requirements l 0 l.requirementCount chain ∧
        seen Event.inspected (inspectElfRuntimeContract order data name) = offsets chain ∧
        WithinContract (versions chain)) ∧
      ∀ order', (inspectElfRuntimeContract order' data name).result = .ok runtime

theorem withinContract_of_highest (h : ∀ c ∈ contract, Highest c.1 names c.2) :
    WithinContract names := by
  intro c hc v hv key hkey bound hbound
  obtain ⟨-, key', hkey', hgreatest⟩ := h c hc
  obtain rfl := Option.some.inj (hbound.symm.trans hkey')
  exact hgreatest v hv key hkey

theorem highest_of_ok {runtime : Runtime}
    (h : (requiredRuntime order interpreter names name).result = .ok runtime) :
    ∀ c ∈ contract, Highest c.1 names c.2 := fun c hc =>
  highest_of_requiredVersion ((requiredRuntime_eq_ok.mp h).2.2 c hc)

/-- Without a second spelling every order finds the contract. -/
theorem requiredRuntime_of_ok {l : Layout} {runtime : Runtime} {order' : SetOrder}
    (hambiguous : ¬Ambiguous l names)
    (h : (requiredRuntime order l.interpreter names name).result = .ok runtime) :
    (requiredRuntime order' l.interpreter names name).result = .ok runtime := by
  have hhighest := highest_of_ok h
  obtain ⟨rfl, hinterpreter, hversions⟩ := requiredRuntime_eq_ok.mp h
  refine requiredRuntime_eq_ok.mpr ⟨rfl, hinterpreter, fun c hc => ?_⟩
  refine requiredVersion_of_unique (requiredVersion_eq_ok.mp (hversions c hc)).1 (hhighest c hc) ?_
  intro other hother
  by_contra hne
  exact hambiguous ⟨hinterpreter, hhighest, c, hc, other, hne, hother⟩

theorem not_tooLong_of_not_oversized {cs : List (Text × Text)} (h : ¬Oversized names cs)
    (hhighest : ∀ c ∈ cs, Highest c.1 names c.2) : ∀ c ∈ cs, ∀ v ∈ names, ¬TooLong c.1 v := by
  induction cs with
  | nil => simp
  | cons c rest ih =>
    rw [List.forall_mem_cons] at hhighest ⊢
    obtain ⟨hmem, key, hkey, -⟩ := hhighest.1
    refine ⟨fun v hv hlong => h (.inl ⟨v, hv, hlong⟩), ih (fun hrest => ?_) hhighest.2⟩
    exact h (.inr ⟨⟨c.2, hmem, by simp [hkey]⟩, hrest⟩)

theorem contract_alone : ∀ c ∈ contract,
    ((contract.map (·.2)).filterMap (keyed c.1)).map (·.1) = [c.2] := by
  decide +kernel

/-- A second spelling makes the verdict a matter of the order. -/
theorem exists_orders_of_ambiguous (name : String) {l : Layout} (hoversized : ¬Oversized names contract)
    (h : Ambiguous l names) :
    ∃ first second, (requiredRuntime first l.interpreter names name).result = .ok targetRuntime ∧
      (requiredRuntime second l.interpreter names name).result ≠ .ok targetRuntime := by
  obtain ⟨hinterpreter, hhighest, c, hc, other, hne, hother⟩ := h
  have hshort := not_tooLong_of_not_oversized hoversized hhighest
  refine ⟨.favouring (contract.map (·.2)), .favouring [other], ?_, fun hok => ?_⟩
  · refine requiredRuntime_eq_ok.mpr ⟨rfl, hinterpreter, fun c hc => ?_⟩
    obtain ⟨⟨v, key⟩, hsingle, hv⟩ := List.map_eq_singleton_iff.mp (contract_alone c hc)
    obtain rfl : v = c.2 := hv
    refine requiredVersion_favouring (by decide +kernel) ?_ hsingle (hshort c hc) (hhighest c hc)
    exact List.forall_mem_map.mpr fun c hc => (hhighest c hc).1
  · have hhighest := hother
    obtain ⟨hmem, key, hkey, -⟩ := hhighest
    have hfound : (requiredVersion (.favouring [other]) names name c.1).result = .ok other := by
      have halone : [other].filterMap (keyed c.1) = [(other, key)] := by simp [keyed, hkey]
      exact requiredVersion_favouring (List.nodup_singleton other) (by simpa using hmem) halone
        (hshort c hc) hother
    have hcontract := (requiredRuntime_eq_ok.mp hok).2.2 c hc
    rw [hfound] at hcontract
    exact hne (Except.ok.inj hcontract)

/-- The audit is total and sound on a file if and only if no version that is reached is too long
for `int` and none has the number of the contract in another spelling. -/
theorem runtimeAudited_iff (data : Data) (name : String) : RuntimeAudited data name ↔
    ∀ l chain, Declares data l chain →
      ¬Oversized (versions chain) contract ∧ ¬Ambiguous l (versions chain) := by
  constructor
  · intro h l chain hdeclares
    have hoversized : ¬Oversized (versions chain) contract := fun hover => by
      obtain ⟨e, he, hbundle⟩ := error_of_oversized (.favouring []) name l.interpreter hover
      exact hbundle (h.total _ e ((inspect_of_declares hdeclares).trans he))
    refine ⟨hoversized, fun hambiguous => ?_⟩
    obtain ⟨first, second, hfirst, hsecond⟩ := exists_orders_of_ambiguous name hoversized hambiguous
    rw [← inspect_of_declares hdeclares] at hfirst hsecond
    exact hsecond ((h.sound first _ hfirst).2.2 second)
  · intro h
    refine ⟨fun order e he => ?_, fun order => inspect_stays order data name,
      fun order => inspect_visits order data name, fun order runtime hok => ?_⟩
    · rcases inspect_result order data name with ⟨e', he', hbundle⟩ | ⟨l, chain, hdeclares, -⟩
      · obtain rfl := Except.error.inj (he.symm.trans he')
        exact hbundle
      · by_contra hbundle
        rw [inspect_of_declares hdeclares] at he
        exact (h l chain hdeclares).1 (oversized_of_error he hbundle)
    · rcases inspect_result order data name with ⟨e, he, -⟩ | ⟨l, chain, hdeclares, hseen⟩
      · rw [hok] at he
        cases he
      · have hruntime := hok
        rw [inspect_of_declares hdeclares] at hruntime
        refine ⟨hdeclares.layout.existsUnique_interpreter, ⟨l, chain, hdeclares.layout,
          hdeclares.requirements, hseen, withinContract_of_highest (highest_of_ok hruntime)⟩,
          fun order' => ?_⟩
        rw [inspect_of_declares hdeclares]
        exact requiredRuntime_of_ok (h l chain hdeclares).2 hruntime

/-! A file of 409 bytes that asks for `GLIBC_2.38` and for `GLIBC_2.038`. -/

def littleEndian (width n : ℕ) : Data :=
  (List.range width).map fun i => UInt8.ofNat (n / 256 ^ i)

def zeroTerminated (s : String) : Data := (s.toList.map fun c => UInt8.ofNat c.toNat) ++ [0]

def sampleHeader : Data :=
  elfMagic ++ [2, 1, 1] ++ List.replicate 11 0 ++ littleEndian 2 emX86_64 ++
    List.replicate 12 0 ++ littleEndian 8 64 ++ littleEndian 8 281 ++ List.replicate 6 0 ++
    littleEndian 2 56 ++ littleEndian 2 1 ++ littleEndian 2 64 ++ littleEndian 2 2 ++ [0, 0]

def sampleProgram : Data :=
  littleEndian 8 ptInterp ++ littleEndian 8 120 ++ List.replicate 16 0 ++ littleEndian 8 28 ++
    List.replicate 16 0

def sampleStrings : Data :=
  [0] ++ zeroTerminated "GLIBC_2.38" ++ zeroTerminated "GLIBC_2.038" ++
    zeroTerminated "GLIBCXX_3.4.32" ++ zeroTerminated "CXXABI_1.3.15"

def sampleAuxiliary (nameOffset next : ℕ) : Data :=
  List.replicate 8 0 ++ littleEndian 4 nameOffset ++ littleEndian 4 next

def sampleRequirements : Data :=
  littleEndian 2 1 ++ littleEndian 6 4 ++ littleEndian 4 16 ++ littleEndian 4 0 ++
    sampleAuxiliary 1 16 ++ sampleAuxiliary 12 16 ++ sampleAuxiliary 24 16 ++ sampleAuxiliary 39 0

def sampleSection (type offset size info : ℕ) : Data :=
  littleEndian 4 0 ++ littleEndian 20 type ++ littleEndian 8 offset ++ littleEndian 8 size ++
    littleEndian 4 0 ++ littleEndian 20 info

def sampleElf : Data :=
  sampleHeader ++ sampleProgram ++ zeroTerminated "/lib64/ld-linux-x86-64.so.2" ++
    sampleStrings ++ sampleRequirements ++ sampleSection shtStrtab 148 53 0 ++
    sampleSection shtGnuVerneed 201 80 1

/-- One order of the set returns the contract and another one fails. -/
theorem audit_depends_on_order : ¬RuntimeAudited sampleElf "helper" := by
  intro h
  have hok : (inspectElfRuntimeContract (.favouring ["GLIBC_2.38".toList]) sampleElf
      "helper").result.toOption = some targetRuntime := by decide +kernel
  have hfail : (inspectElfRuntimeContract (.favouring ["GLIBC_2.038".toList]) sampleElf
      "helper").result.toOption = none := by decide +kernel
  cases hresult : (inspectElfRuntimeContract (.favouring ["GLIBC_2.38".toList]) sampleElf
      "helper").result with
  | error e =>
    rw [hresult] at hok
    cases hok
  | ok runtime =>
    rw [(h.sound _ runtime hresult).2.2 (.favouring ["GLIBC_2.038".toList])] at hfail
    cases hfail

end Hazkey.BundleVerification
