import Hazkey.JsonText

/-! Files that hold an object on each line. The beginning of an object is no
value, so a line that was broken is not read. -/

namespace JsonText

-- Of the characters of a list, not of all characters.
attribute [local instance (1100)] List.decidableBAll

/-! ## Beginnings of texts -/

/-- What the first takes, the second takes where more follows. -/
def Extends {α : Type} (R R' : Reader α) : Prop :=
  ∀ p q x r, R p = some (x, r) → R' (p ++ q) = some (x, r ++ q)

/-- As `Extends`, where something was left. -/
def ExtendsInside {α : Type} (R R' : Reader α) : Prop :=
  ∀ p q x r, R p = some (x, r) → r ≠ [] → R' (p ++ q) = some (x, r ++ q)

theorem skip_append {p cs : List Char} {c : Char} (h : skip p = c :: cs) (q : List Char) :
    skip (p ++ q) = c :: (cs ++ q) := by
  induction p with
  | nil => simp [skip] at h
  | cons d p ih =>
    by_cases hd : blank d = true
    · have hp : skip p = c :: cs := by simpa [skip, hd] using h
      simpa [skip, hd] using ih hp
    · obtain ⟨rfl, rfl⟩ : d = c ∧ p = cs := by simpa [skip, hd] using h
      simp [skip, hd]

theorem readCodeUnit_extends : Extends readCodeUnit readCodeUnit := by
  intro p q x r h
  match p with
  | a :: b :: c :: d :: p =>
    simp only [readCodeUnit, Option.bind_eq_bind, Option.bind_eq_some_iff, Option.pure_def,
      Option.some.injEq, Prod.mk.injEq] at h
    obtain ⟨a', ha, b', hb, c', hc, d', hd, x', hx, rfl, rfl⟩ := h
    simp [readCodeUnit, ha, hb, hc, hd, hx]
  | [] | [_] | [_, _] | [_, _, _] => simp [readCodeUnit] at h

theorem readChar_extends : Extends readChar readChar := by
  intro p q x r h
  cases p with
  | nil => simp [readChar] at h
  | cons c p =>
    by_cases hslash : c = '\\'
    · rw [readChar, if_pos hslash] at h
      rw [List.cons_append, readChar, if_pos hslash]
      cases p with
      | nil => simp [readEscape] at h
      | cons e p =>
        by_cases hu : e = 'u'
        · rw [readEscape, if_pos hu] at h
          rw [List.cons_append, readEscape, if_pos hu]
          exact readCodeUnit_extends p q x r h
        · rw [readEscape, if_neg hu, Option.map_eq_some_iff] at h
          obtain ⟨y, hy, he⟩ := h
          obtain ⟨rfl, rfl⟩ := Prod.mk.inj he
          rw [List.cons_append, readEscape, if_neg hu, hy, Option.map_some]
    · by_cases hcontrol : c.toNat < 0x20
      · simp [readChar, hslash, hcontrol] at h
      · have hp : c = x ∧ p = r := by simpa [readChar, hslash, hcontrol] using h
        simp [readChar, hp.1 ▸ hslash, hp.1 ▸ hcontrol, hp.1, hp.2]

theorem readString_extends {n m : Nat} (hnm : n ≤ m) : Extends (readString n) (readString m) := by
  induction n generalizing m with
  | zero =>
    intro p q x r h
    simp [readString] at h
  | succ n ih =>
    intro p q x r h
    obtain ⟨m, rfl⟩ : ∃ k, m = k + 1 := ⟨m - 1, by omega⟩
    cases p with
    | nil => simp [readString] at h
    | cons c p =>
      by_cases hquote : c = '"'
      · have hp : [] = x ∧ p = r := by simpa [readString, hquote] using h
        simp [readString, hquote, ← hp.1, hp.2]
      · rw [readString, if_neg hquote, Option.bind_eq_bind, Option.bind_eq_some_iff] at h
        obtain ⟨⟨y, cs⟩, hchar, h⟩ := h
        simp only [Option.bind_eq_bind, Option.bind_eq_some_iff, Option.pure_def,
          Option.some.injEq, Prod.mk.injEq] at h
        obtain ⟨⟨ys, r'⟩, htail, rfl, rfl⟩ := h
        have hchar' := readChar_extends (c :: p) q y cs hchar
        have htail' := ih (Nat.le_of_succ_le_succ hnm) cs q ys r' htail
        rw [List.cons_append] at hchar' ⊢
        simp [readString, hquote, hchar', htail']

section

variable {α : Type} {item item' : Reader α} {close : Char}

variable (close) in
theorem readFollowing_extends (hitem : ExtendsInside item item') {n m : Nat} (hnm : n ≤ m) :
    Extends (readFollowing item close n) (readFollowing item' close m) := by
  induction n generalizing m with
  | zero =>
    intro p q x r h
    simp [readFollowing] at h
  | succ n ih =>
    intro p q x r h
    obtain ⟨m, rfl⟩ : ∃ k, m = k + 1 := ⟨m - 1, by omega⟩
    cases hskip : skip p with
    | nil => simp [readFollowing, hskip] at h
    | cons c cs =>
      have hskip' := skip_append hskip q
      by_cases hclose : c = close
      · have hp : [] = x ∧ cs = r := by simpa [readFollowing, hskip, hclose] using h
        simp [readFollowing, hskip', hclose, ← hp.1, hp.2]
      · by_cases hcomma : c = ','
        · simp only [readFollowing, hskip, if_neg hclose, if_pos hcomma, Option.bind_eq_bind,
            Option.bind_eq_some_iff, Option.pure_def, Option.some.injEq, Prod.mk.injEq] at h
          obtain ⟨⟨y, cs'⟩, hy, ⟨ys, r'⟩, hys, rfl, rfl⟩ := h
          have hne : cs' ≠ [] := by
            rintro rfl
            cases n <;> simp [readFollowing, skip] at hys
          have hy' := hitem cs q y cs' hy hne
          have hys' := ih (Nat.le_of_succ_le_succ hnm) cs' q ys r' hys
          rw [readFollowing, hskip']
          simp only [if_neg hclose, if_pos hcomma, hy', hys', Option.bind_eq_bind,
            Option.bind_some, Option.pure_def]
        · simp [readFollowing, hskip, hclose, hcomma] at h

variable (close) in
theorem readSequence_extends (hitem : ExtendsInside item item') {n m : Nat} (hnm : n ≤ m) :
    Extends (readSequence item close n) (readSequence item' close m) := by
  intro p q x r h
  cases hskip : skip p with
  | nil => simp [readSequence, hskip] at h
  | cons c cs =>
    have hskip' := skip_append hskip q
    by_cases hclose : c = close
    · have hp : [] = x ∧ cs = r := by simpa [readSequence, hskip, hclose] using h
      simp [readSequence, hskip', hclose, ← hp.1, hp.2]
    · simp only [readSequence, hskip, if_neg hclose, Option.bind_eq_bind, Option.bind_eq_some_iff,
        Option.pure_def, Option.some.injEq, Prod.mk.injEq] at h
      obtain ⟨⟨y, cs'⟩, hy, ⟨ys, r'⟩, hys, rfl, rfl⟩ := h
      have hne : cs' ≠ [] := by
        rintro rfl
        cases n <;> simp [readFollowing, skip] at hys
      have hy' := hitem p q y cs' hy hne
      have hys' := readFollowing_extends close hitem hnm cs' q ys r' hys
      simp [readSequence, hskip', hclose, hy', hys']

theorem readField_extends (hitem : ExtendsInside item item') {n m : Nat} (hnm : n ≤ m) :
    ExtendsInside (readField item n) (readField item' m) := by
  intro p q x r h hr
  cases hskip : skip p with
  | nil => simp [readField, hskip] at h
  | cons c cs =>
    have hskip' := skip_append hskip q
    by_cases hquote : c = '"'
    · simp only [readField, hskip, if_pos hquote, Option.bind_eq_bind,
        Option.bind_eq_some_iff] at h
      obtain ⟨⟨name, cs'⟩, hname, h⟩ := h
      have hname' := readString_extends hnm cs q name cs' hname
      cases hcolon : skip cs' with
      | nil => simp [hcolon] at h
      | cons d ds =>
        have hcolon' := skip_append hcolon q
        by_cases hd : d = ':'
        · simp only [hcolon, if_pos hd, Option.bind_eq_some_iff, Option.pure_def,
            Option.some.injEq, Prod.mk.injEq] at h
          obtain ⟨⟨y, r'⟩, hy, rfl, rfl⟩ := h
          have hy' := hitem ds q y r' hy hr
          simp [readField, hskip', hquote, hname', hcolon', hd, hy']
        · simp [hcolon, hd] at h
    · simp [readField, hskip, hquote] at h

end

theorem readNumber_extends {c : Char} {cs r : List Char} {n : Nat} (h : readNumber c cs = (n, r))
    (hr : r ≠ []) (q : List Char) : readNumber c (cs ++ q) = (n, r ++ q) := by
  by_cases hzero : c = '0'
  · have hp : 0 = n ∧ cs = r := by simpa [readNumber, hzero] using h
    simp [readNumber, hzero, ← hp.1, hp.2]
  · simp only [readNumber, if_neg hzero, Prod.mk.injEq] at h
    obtain ⟨hn, hdrop⟩ := h
    obtain ⟨d, ds, rfl⟩ := List.exists_cons_of_ne_nil hr
    have hd : d.isDigit = false := by
      have := List.head_dropWhile_not Char.isDigit (l := c :: cs) (by simp [hdrop])
      simpa [hdrop] using this
    have hdigits : ∀ x ∈ (c :: cs).takeWhile Char.isDigit, x.isDigit = true :=
      fun x hx => List.all_eq_true.mp List.all_takeWhile x hx
    have hspan := span_digits hdigits (r := d :: ds ++ q) (closed_cons.mpr hd)
    have htext : c :: (cs ++ q) = (c :: cs).takeWhile Char.isDigit ++ (d :: ds ++ q) := by
      rw [← hdrop, ← List.append_assoc, List.takeWhile_append_dropWhile, List.cons_append]
    rw [readNumber, if_neg hzero, htext, hspan.1, hspan.2, hn]

theorem readValue_extends {n m : Nat} (hnm : n ≤ m) {p q r : List Char} {v : Json}
    (h : readValue n p = some (v, r)) (hv : r = [] → ∀ k, v ≠ .number k) :
    readValue m (p ++ q) = some (v, r ++ q) := by
  induction n generalizing m p q r v with
  | zero => simp [readValue] at h
  | succ n ih =>
    obtain ⟨m, rfl⟩ : ∃ k, m = k + 1 := ⟨m - 1, by omega⟩
    have hnm := Nat.le_of_succ_le_succ hnm
    have hvalue : ExtendsInside (readValue n) (readValue m) :=
      fun p q x r h hr => ih hnm h fun h => absurd h hr
    cases hskip : skip p with
    | nil => simp [readValue, hskip] at h
    | cons c cs =>
      have hskip' := skip_append hskip q
      by_cases hquote : c = '"'
      · simp only [readValue, hskip, if_pos hquote, Option.map_eq_some_iff, Prod.mk.injEq] at h
        obtain ⟨⟨s, r'⟩, hs, rfl, rfl⟩ := h
        simp [readValue, hskip', hquote, readString_extends hnm cs q s r' hs]
      by_cases hbracket : c = '['
      · simp only [readValue, hskip, if_neg hquote, if_pos hbracket, Option.map_eq_some_iff,
          Prod.mk.injEq] at h
        obtain ⟨⟨s, r'⟩, hs, rfl, rfl⟩ := h
        simp [readValue, hskip', hbracket, readSequence_extends ']' hvalue hnm cs q s r' hs]
      by_cases hbrace : c = '{'
      · simp only [readValue, hskip, if_neg hquote, if_neg hbracket, if_pos hbrace,
          Option.map_eq_some_iff, Prod.mk.injEq] at h
        obtain ⟨⟨s, r'⟩, hs, rfl, rfl⟩ := h
        have hfields := readSequence_extends '}' (readField_extends hvalue hnm) hnm
          cs q s r' hs
        simp [readValue, hskip', hbrace, hfields]
      by_cases hdigit : c.isDigit = true
      · simp only [readValue, hskip, if_neg hquote, if_neg hbracket, if_neg hbrace, if_pos hdigit,
          Option.some.injEq, Prod.mk.injEq] at h
        obtain ⟨rfl, rfl⟩ := h
        have hnumber : readNumber c (cs ++ q) =
            ((readNumber c cs).1, (readNumber c cs).2 ++ q) :=
          readNumber_extends rfl (fun hr => hv hr _ rfl) q
        simp only [readValue, hskip', if_neg hquote, if_neg hbracket, if_neg hbrace,
          if_pos hdigit, hnumber]
      · simp [readValue, hskip, hquote, hbracket, hbrace, hdigit] at h

/-- An object is closed by its last character only. -/
theorem loads_beginning {L : Layout} {fields : List (List Char × Json)} {p q : List Char}
    (h : dumps L (.object fields) = p ++ q) (hq : q ≠ []) : loads p = none := by
  cases hread : readValue (p.length + 1) p with
  | none => simp [loads, hread]
  | some found =>
    obtain ⟨v, r⟩ := found
    exfalso
    cases p with
    | nil => simp [readValue, skip] at hread
    | cons c cs =>
      have hc : c = '{' := by
        have hhead := congrArg List.head? h
        simpa [dumps, write, eq_comm] using hhead
      have hv : ∀ k, v ≠ .number k := by
        rintro k rfl
        simp [readValue, skip, hc, blank] at hread
      have hwhole := readValue_extends (q := q) (m := (dumps L (.object fields)).length + 1)
        (by rw [h, List.length_append]; omega) hread fun _ => hv
      have hwritten := takes_write L 0 ((dumps L (.object fields)).length + 1) (.object fields)
        (Nat.lt_succ_self _) [] [] (by simp) (by simp [Closed])
      rw [List.nil_append, List.append_nil, ← dumps, h] at hwritten
      rw [h, hwritten, Option.some.injEq, Prod.mk.injEq] at hwhole
      exact hq (List.append_eq_nil_iff.mp hwhole.2.symm).2

/-! ## A value on each line -/

/-- Where `str.splitlines` breaks. -/
def lineBreak (c : Char) : Bool :=
  ['\n', '\r', '\x0b', '\x0c', '\x1c', '\x1d', '\x1e', '\u0085', '\u2028', '\u2029'].contains c

/-- The lines from here on, the first of which has begun. -/
def linesFrom (line : List Char) (afterReturn : Bool) : List Char → List (List Char)
  | [] => if line = [] then [] else [line]
  | c :: cs =>
    if afterReturn && c = '\n' then linesFrom line false cs
    else if lineBreak c then line :: linesFrom [] (c = '\r') cs
    else linesFrom (line ++ [c]) false cs

def splitlines (cs : List Char) : List (List Char) := linesFrom [] false cs

/-- On one line. -/
def Unbroken (t : List Char) : Prop := ∀ c ∈ t, lineBreak c = false

def joinLines (ts : List (List Char)) : List Char := ts.flatMap fun t => t ++ ['\n']

theorem unbroken_append {s t : List Char} : Unbroken (s ++ t) ↔ Unbroken s ∧ Unbroken t := by
  simp only [Unbroken, List.mem_append]
  exact ⟨fun h => ⟨fun c hc => h c (.inl hc), fun c hc => h c (.inr hc)⟩,
    fun h c hc => hc.elim (h.1 c) (h.2 c)⟩

theorem unbroken_cons {c : Char} {t : List Char} :
    Unbroken (c :: t) ↔ lineBreak c = false ∧ Unbroken t := by
  simp [Unbroken]

theorem unbroken_nil : Unbroken [] := by simp [Unbroken]

theorem linesFrom_break {t : List Char} (ht : Unbroken t) {c : Char}
    (hc : lineBreak c = true) (line cs : List Char) :
    linesFrom line false (t ++ c :: cs) = (line ++ t) :: linesFrom [] (c = '\r') cs := by
  induction t generalizing line with
  | nil => simp [linesFrom, hc]
  | cons d t ih =>
    have hd := ht d List.mem_cons_self
    have := ih (fun c h => ht c (List.mem_cons_of_mem _ h)) (line ++ [d])
    simpa [linesFrom, hd] using this

theorem splitlines_joinLines {ts : List (List Char)}
    (h : ∀ t ∈ ts, Unbroken t) : splitlines (joinLines ts) = ts := by
  induction ts with
  | nil => rfl
  | cons t ts ih =>
    have htail := ih fun t' ht' => h t' (List.mem_cons_of_mem _ ht')
    have hline := linesFrom_break (h t List.mem_cons_self) (c := '\n') (by decide) []
      (joinLines ts)
    have hreturn : decide ('\n' = '\r') = false := by decide
    rw [splitlines] at htail ⊢
    rw [hreturn, htail] at hline
    simpa [joinLines] using hline

theorem splitlines_broken {t : List Char} (h : ∃ c ∈ t, lineBreak c = true) (cs : List Char) :
    ∃ p q, t = p ++ q ∧ q ≠ [] ∧ p ∈ splitlines (t ++ cs) := by
  have hsplit : ∃ p c q, t = p ++ c :: q ∧ lineBreak c = true ∧ Unbroken p := by
    induction t with
    | nil => simp at h
    | cons d t ih =>
      by_cases hd : lineBreak d = true
      · exact ⟨[], d, t, rfl, hd, unbroken_nil⟩
      · obtain ⟨c, hc, hbreak⟩ := h
        have hct : c ∈ t := by
          rcases List.mem_cons.mp hc with rfl | hct
          · exact absurd hbreak hd
          · exact hct
        obtain ⟨p, c, q, rfl, hbreak, hp⟩ := ih ⟨c, hct, hbreak⟩
        refine ⟨d :: p, c, q, rfl, hbreak, fun e he => ?_⟩
        rcases List.mem_cons.mp he with rfl | he
        · exact Bool.of_not_eq_true hd
        · exact hp e he
  obtain ⟨p, c, q, rfl, hbreak, hp⟩ := hsplit
  refine ⟨p, c :: q, rfl, by simp, ?_⟩
  rw [splitlines, List.append_assoc, List.cons_append, linesFrom_break hp hbreak]
  simp

/-- A file of objects whose lines are all read has no break in them. -/
theorem unbroken_of_loads {ts : List (List Char)}
    (hts : ∀ t ∈ ts, ∃ L fields, t = dumps L (.object fields))
    (hread : ∀ line ∈ splitlines (joinLines ts), loads line ≠ none) :
    ∀ t ∈ ts, Unbroken t := by
  induction ts with
  | nil => simp
  | cons t ts ih =>
    have hjoin : joinLines (t :: ts) = t ++ '\n' :: joinLines ts := by simp [joinLines]
    have ht : Unbroken t := by
      intro c hc
      by_contra hbreak
      obtain ⟨p, q, hpq, hq, hmem⟩ := splitlines_broken ⟨c, hc, Bool.of_not_eq_false hbreak⟩
        ('\n' :: joinLines ts)
      obtain ⟨L, fields, hdumps⟩ := hts t List.mem_cons_self
      exact hread p (hjoin ▸ hmem) (loads_beginning (hdumps ▸ hpq) hq)
    have hline := linesFrom_break ht (c := '\n') (by decide) [] (joinLines ts)
    have htail := ih (fun t' ht' => hts t' (List.mem_cons_of_mem _ ht')) fun line hmem => by
      apply hread line
      rw [splitlines, hjoin, hline]
      exact List.mem_cons_of_mem _ hmem
    intro t' ht'
    rcases List.mem_cons.mp ht' with rfl | ht'
    · exact ht
    · exact htail t' ht'

/-- The breaks that a writer does not escape. -/
def openBreak (c : Char) : Bool := c = '\u0085' || c = '\u2028' || c = '\u2029'

theorem lineBreak_escape {c d : Char} (hd : d ∈ escape c) (hbreak : lineBreak d = true) :
    openBreak c = true := by
  cases hlookup : shortEscapes.lookup c with
  | some e =>
    have hall : ∀ p ∈ shortEscapes, lineBreak p.2 = false := by decide
    obtain ⟨l, r, hl, -⟩ := List.lookup_eq_some_iff.mp hlookup
    have he := hall (c, e) (by simp [hl])
    have hd : d = '\\' ∨ d = e := by simpa [escape, hlookup] using hd
    rcases hd with rfl | rfl
    · exact absurd hbreak (by decide)
    · rw [he] at hbreak
      exact absurd hbreak Bool.false_ne_true
  | none =>
    by_cases hcontrol : c.toNat < 0x20
    · have hall : ∀ n < 16, lineBreak (Nat.digitChar n) = false := by decide
      have hhigh := hall (c.toNat / 16) (by omega)
      have hlow := hall (c.toNat % 16) (by omega)
      have hd : d = '\\' ∨ d = 'u' ∨ d = '0' ∨ d = Nat.digitChar (c.toNat / 16) ∨
          d = Nat.digitChar (c.toNat % 16) := by
        simpa [escape, hlookup, hcontrol] using hd
      rcases hd with rfl | rfl | rfl | rfl | rfl
      · exact absurd hbreak (by decide)
      · exact absurd hbreak (by decide)
      · exact absurd hbreak (by decide)
      · rw [hhigh] at hbreak
        exact absurd hbreak Bool.false_ne_true
      · rw [hlow] at hbreak
        exact absurd hbreak Bool.false_ne_true
    · obtain rfl : d = c := by simpa [escape, hlookup, hcontrol] using hd
      have hopen : ∀ e ∈ ['\n', '\r', '\x0b', '\x0c', '\x1c', '\x1d', '\x1e', '\u0085',
          '\u2028', '\u2029'], openBreak e = true ∨ e.toNat < 0x20 := by decide
      rcases hopen d (by simpa [lineBreak] using hbreak) with h | h
      · exact h
      · exact absurd h hcontrol

theorem mem_escape_of_openBreak {c : Char} (h : openBreak c = true) :
    c ∈ escape c ∧ lineBreak c = true := by
  have hc : c = '\u0085' ∨ c = '\u2028' ∨ c = '\u2029' := by
    simpa [openBreak, or_assoc] using h
  rcases hc with rfl | rfl | rfl <;> decide

mutual

/-- All strings of a value, the names of fields among them. -/
def Json.texts : Json → List (List Char)
  | .number _ => []
  | .string s => [s]
  | .array items => textsOfItems items
  | .object fields => textsOfFields fields

def textsOfItems : List Json → List (List Char)
  | [] => []
  | v :: vs => v.texts ++ textsOfItems vs

def textsOfFields : List (List Char × Json) → List (List Char)
  | [] => []
  | (name, v) :: fields => name :: (v.texts ++ textsOfFields fields)

end

theorem unbroken_quote {s : List Char} :
    Unbroken (quote s) ↔ ∀ c ∈ s, openBreak c = false := by
  have hquote : lineBreak '"' = false := by decide
  rw [quote, unbroken_cons, unbroken_append, unbroken_cons]
  simp only [hquote, true_and, unbroken_nil, and_true]
  constructor
  · intro h c hc
    by_contra hopen
    obtain ⟨hmem, hbreak⟩ := mem_escape_of_openBreak (Bool.of_not_eq_false hopen)
    rw [h c (List.mem_flatMap.mpr ⟨c, hc, hmem⟩)] at hbreak
    exact Bool.false_ne_true hbreak
  · intro h d hd
    obtain ⟨c, hc, hdc⟩ := List.mem_flatMap.mp hd
    by_contra hbreak
    have hopen := lineBreak_escape hdc (Bool.of_not_eq_false hbreak)
    rw [h c hc] at hopen
    exact Bool.false_ne_true hopen

theorem unbroken_digits (n : Nat) : Unbroken (Nat.toDigits 10 n) := by
  intro c hc
  have hdigit := toDigits_isDigit hc
  by_contra hbreak
  have hall : ∀ e ∈ ['\n', '\r', '\x0b', '\x0c', '\x1c', '\x1d', '\x1e', '\u0085',
      '\u2028', '\u2029'], e.isDigit = false := by decide
  have hmem := Bool.of_not_eq_false hbreak
  rw [hall c (by simpa [lineBreak] using hmem)] at hdigit
  exact Bool.false_ne_true hdigit

theorem unbroken_sequence {depth : Nat} {close : Char} (hclose : lineBreak close = false)
    {ts : List (List Char)} :
    Unbroken (sequence .compact depth close ts) ↔ ∀ t ∈ ts, Unbroken t := by
  have hgap : ∀ depth, Layout.compact.gap depth = [] := fun _ => rfl
  have hcomma : lineBreak ',' = false := by decide
  have hfollowing : ∀ ts, Unbroken (following .compact depth close ts) ↔
      ∀ t ∈ ts, Unbroken t := by
    intro ts
    induction ts with
    | nil => simp [following, hgap, unbroken_cons, hclose, unbroken_nil]
    | cons t ts ih =>
      simp only [following, hgap, List.nil_append, unbroken_cons, hcomma, true_and,
        unbroken_append, ih, List.forall_mem_cons]
  cases ts with
  | nil => simp [sequence, unbroken_cons, hclose, unbroken_nil]
  | cons t ts =>
    simp only [sequence, hgap, List.nil_append, unbroken_append, hfollowing, List.forall_mem_cons]

mutual

/-- A value stands on one line where none of its strings has an open break. -/
theorem unbroken_write (depth : Nat) (v : Json) :
    Unbroken (write .compact depth v) ↔ ∀ t ∈ v.texts, ∀ c ∈ t, openBreak c = false := by
  match v with
  | .number n =>
    have := unbroken_digits n
    simpa [write, Json.texts] using this
  | .string s => simp [write, Json.texts, unbroken_quote]
  | .array items =>
    have hopen : lineBreak '[' = false := by decide
    rw [write, unbroken_cons, unbroken_sequence (by decide), Json.texts]
    simp only [hopen, true_and]
    exact unbroken_writeItems (depth + 1) items
  | .object fields =>
    have hopen : lineBreak '{' = false := by decide
    rw [write, unbroken_cons, unbroken_sequence (by decide), Json.texts]
    simp only [hopen, true_and]
    exact unbroken_writeFields (depth + 1) fields

theorem unbroken_writeItems (depth : Nat) (items : List Json) :
    (∀ t ∈ writeItems .compact depth items, Unbroken t) ↔
      ∀ t ∈ textsOfItems items, ∀ c ∈ t, openBreak c = false := by
  match items with
  | [] => simp [writeItems, textsOfItems]
  | v :: vs =>
    rw [writeItems, textsOfItems, List.forall_mem_cons, List.forall_mem_append,
      unbroken_write depth v, unbroken_writeItems depth vs]

theorem unbroken_writeFields (depth : Nat) (fields : List (List Char × Json)) :
    (∀ t ∈ writeFields .compact depth fields, Unbroken t) ↔
      ∀ t ∈ textsOfFields fields, ∀ c ∈ t, openBreak c = false := by
  match fields with
  | [] => simp [writeFields, textsOfFields]
  | (name, v) :: fields =>
    have hcolon : lineBreak ':' = false := by decide
    have hspace : Layout.compact.space = [] := rfl
    rw [writeFields, textsOfFields, List.forall_mem_cons, List.forall_mem_cons,
      List.forall_mem_append, field, unbroken_append, unbroken_cons, unbroken_quote, hspace,
      List.nil_append, unbroken_write depth v, unbroken_writeFields depth fields]
    simp only [hcolon, true_and, and_assoc]

end

end JsonText
