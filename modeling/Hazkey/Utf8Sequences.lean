import Hazkey.SentenceAlternatives

/-! What the decoder of the helper takes for a code point: a leading byte and as
many continuation bytes as it announces, whether or not fewer would do. -/

namespace Hazkey

namespace MozcSidecarB1

/-- The leading byte of a sequence with so many continuations, and how much it holds. -/
def leadMark : Nat → Nat
  | 0 => 0
  | 1 => 0xc0
  | 2 => 0xe0
  | _ => 0xf0

def leadRoom : Nat → Nat
  | 0 => 0x80
  | 1 => 0x20
  | 2 => 0x10
  | _ => 0x08

/-- The least code point that needs so many continuations. -/
def leastOf : Nat → Nat
  | 0 => 0
  | 1 => 0x80
  | 2 => 0x800
  | _ => 0x10000

structure Sequence where
  lead : Nat
  tail : List Nat
  lead_lt : lead < leadRoom tail.length
  tail_le : tail.length ≤ 3
  digits : ∀ d ∈ tail, d < 0x40

namespace Sequence

def bytes (s : Sequence) : Data :=
  UInt8.ofNat (leadMark s.tail.length + s.lead) :: s.tail.map fun d => UInt8.ofNat (0x80 + d)

def codePoint (s : Sequence) : Nat := s.tail.foldl (fun value d => value * 0x40 + d) s.lead

/-- Not overlong. -/
def Shortest (s : Sequence) : Prop := leastOf s.tail.length ≤ s.codePoint

instance (s : Sequence) : Decidable s.Shortest := inferInstanceAs (Decidable (_ ≤ _))

/-- The forms of a sequence. -/
theorem forms (s : Sequence) :
    (∃ a, s.lead = a ∧ s.tail = [] ∧ a < 0x80) ∨
    (∃ a b, s.lead = a ∧ s.tail = [b] ∧ a < 0x20 ∧ b < 0x40) ∨
    (∃ a b c, s.lead = a ∧ s.tail = [b, c] ∧ a < 0x10 ∧ b < 0x40 ∧ c < 0x40) ∨
    ∃ a b c d, s.lead = a ∧ s.tail = [b, c, d] ∧ a < 0x08 ∧ b < 0x40 ∧ c < 0x40 ∧ d < 0x40 := by
  obtain ⟨lead, tail, hlead, hlength, hdigits⟩ := s
  match tail with
  | [] => exact .inl ⟨lead, rfl, rfl, hlead⟩
  | [b] => exact .inr (.inl ⟨lead, b, rfl, rfl, hlead, hdigits b (by simp)⟩)
  | [b, c] =>
    exact .inr (.inr (.inl ⟨lead, b, c, rfl, rfl, hlead, hdigits b (by simp), hdigits c (by simp)⟩))
  | [b, c, d] =>
    exact .inr (.inr (.inr ⟨lead, b, c, d, rfl, rfl, hlead, hdigits b (by simp),
      hdigits c (by simp), hdigits d (by simp)⟩))
  | _ :: _ :: _ :: _ :: _ =>
    simp only [List.length_cons] at hlength
    omega

theorem codePoint_lt (s : Sequence) : s.codePoint < 0x200000 := by
  rcases s.forms with ⟨a, hlead, htail, ha⟩ | ⟨a, b, hlead, htail, ha, hb⟩ |
    ⟨a, b, c, hlead, htail, ha, hb, hc⟩ | ⟨a, b, c, d, hlead, htail, ha, hb, hc, hd⟩ <;>
  · simp only [codePoint, hlead, htail, List.foldl_cons, List.foldl_nil]
    omega

end Sequence

/-! ## Decoding -/

theorem continuation_digit : ∀ d < 0x40, (0x80 + d) &&& 0xc0 = 0x80 ∧ (0x80 + d) &&& 0x3f = d := by
  decide

theorem continuation_byte : ∀ n < 0x100, n &&& 0xc0 = 0x80 → n = 0x80 + (n &&& 0x3f) := by
  decide +kernel

theorem shift_or (value : Nat) {d : Nat} (hd : d < 0x40) :
    value <<< 6 ||| d = value * 0x40 + d := by
  rw [← Nat.shiftLeft_add_eq_or_of_lt (i := 6) hd, Nat.shiftLeft_eq]

theorem toNat_byte {n : Nat} (hn : n < 0x100) : (UInt8.ofNat n).toNat = n := by
  rw [UInt8.toNat_ofNat']
  omega

theorem continuationBytes_append {tail : List Nat} (hdigits : ∀ d ∈ tail, d < 0x40) (value : Nat)
    (rest : Data) :
    continuationBytes tail.length value ((tail.map fun d => UInt8.ofNat (0x80 + d)) ++ rest) =
      some (tail.foldl (fun value d => value * 0x40 + d) value, rest) := by
  induction tail generalizing value with
  | nil => rfl
  | cons d tail ih =>
    have hd := hdigits d List.mem_cons_self
    have hbyte := toNat_byte (n := 0x80 + d) (by omega)
    obtain ⟨hmark, hdigit⟩ := continuation_digit d hd
    simp only [List.length_cons, List.map_cons, List.cons_append, continuationBytes, hbyte, hmark,
      hdigit, ne_eq, not_true_eq_false, if_false, shift_or value hd, List.foldl_cons]
    exact ih (fun d hd => hdigits d (List.mem_cons_of_mem _ hd)) _

theorem exists_of_continuationBytes {n value found : Nat} {input rest : Data}
    (h : continuationBytes n value input = some (found, rest)) :
    ∃ tail : List Nat, tail.length = n ∧ (∀ d ∈ tail, d < 0x40) ∧
      input = (tail.map fun d => UInt8.ofNat (0x80 + d)) ++ rest := by
  induction n generalizing value input with
  | zero =>
    obtain ⟨-, rfl⟩ : value = found ∧ input = rest := by simpa [continuationBytes] using h
    exact ⟨[], rfl, by simp, rfl⟩
  | succ n ih =>
    cases input with
    | nil => simp [continuationBytes] at h
    | cons next input =>
      by_cases hmark : next.toNat &&& 0xc0 = 0x80
      · rw [continuationBytes, if_neg (not_not.mpr hmark)] at h
        obtain ⟨tail, hlength, hdigits, rfl⟩ := ih h
        have hnext := continuation_byte next.toNat next.toNat_lt hmark
        have hlt : next.toNat &&& 0x3f < 0x40 := by
          rw [Nat.and_two_pow_sub_one_eq_mod _ 6]
          omega
        refine ⟨(next.toNat &&& 0x3f) :: tail, by rw [List.length_cons, hlength],
          List.forall_mem_cons.mpr ⟨hlt, hdigits⟩, ?_⟩
        rw [List.map_cons, ← hnext, UInt8.ofNat_toNat]
        rfl
      · simp [continuationBytes, hmark] at h

theorem lead_marks : ∀ n < 0x100,
    (n &&& 0xe0 = 0xc0 ↔ 0xc0 ≤ n ∧ n < 0xe0) ∧ (n &&& 0xf0 = 0xe0 ↔ 0xe0 ≤ n ∧ n < 0xf0) ∧
      (n &&& 0xf8 = 0xf0 ↔ 0xf0 ≤ n ∧ n < 0xf8) := by decide +kernel

theorem lead_values (n : Nat) :
    n &&& 0x1f = n % 0x20 ∧ n &&& 0x0f = n % 0x10 ∧ n &&& 0x07 = n % 0x08 :=
  ⟨Nat.and_two_pow_sub_one_eq_mod n 5, Nat.and_two_pow_sub_one_eq_mod n 4,
    Nat.and_two_pow_sub_one_eq_mod n 3⟩

theorem lead_byte_lt {k lead : Nat} (hk : k ≤ 3) (hlead : lead < leadRoom k) :
    leadMark k + lead < 0x100 := by
  have hcases : k = 0 ∨ k = 1 ∨ k = 2 ∨ k = 3 := by omega
  rcases hcases with rfl | rfl | rfl | rfl <;>
  · simp only [leadRoom, leadMark] at hlead ⊢
    omega

theorem decodeUtf8_lead {k lead : Nat} (hk : k ≤ 3) (hlead : lead < leadRoom k) (rest : Data) :
    decodeUtf8 (UInt8.ofNat (leadMark k + lead) :: rest) = continuationBytes k lead rest := by
  have hbyte := toNat_byte (lead_byte_lt hk hlead)
  obtain ⟨htwo, hthree, hfour⟩ := lead_marks (leadMark k + lead) (hbyte ▸ UInt8.toNat_lt _)
  obtain ⟨h5, h4, h3⟩ := lead_values (leadMark k + lead)
  simp only [decodeUtf8, hbyte, htwo, hthree, hfour, h5, h4, h3]
  have hcases : k = 0 ∨ k = 1 ∨ k = 2 ∨ k = 3 := by omega
  rcases hcases with rfl | rfl | rfl | rfl <;> simp only [leadRoom, leadMark] at hlead ⊢
  · rw [if_pos (by omega), continuationBytes, Nat.zero_add]
  · rw [if_neg (by omega), if_pos (by omega), show (0xc0 + lead) % 0x20 = lead by omega]
  · rw [if_neg (by omega), if_neg (by omega), if_pos (by omega),
      show (0xe0 + lead) % 0x10 = lead by omega]
  · rw [if_neg (by omega), if_neg (by omega), if_neg (by omega), if_pos (by omega),
      show (0xf0 + lead) % 0x08 = lead by omega]

theorem lead_of_decodeUtf8 {first : UInt8} {rest : Data} (h : decodeUtf8 (first :: rest) ≠ none) :
    ∃ k lead, k ≤ 3 ∧ lead < leadRoom k ∧ first = UInt8.ofNat (leadMark k + lead) := by
  have hlt := first.toNat_lt
  have hfirst : ∀ n, first.toNat = n → first = UInt8.ofNat n := by
    rintro n rfl
    exact UInt8.ofNat_toNat.symm
  obtain ⟨htwo, hthree, hfour⟩ := lead_marks first.toNat hlt
  by_cases h1 : first.toNat < 0x80
  · exact ⟨0, first.toNat, by omega, h1, hfirst _ (Nat.zero_add _).symm⟩
  by_cases h2 : first.toNat &&& 0xe0 = 0xc0
  · exact ⟨1, first.toNat - 0xc0, by omega, by simp only [leadRoom]; omega,
      hfirst _ (by simp only [leadMark]; omega)⟩
  by_cases h3 : first.toNat &&& 0xf0 = 0xe0
  · exact ⟨2, first.toNat - 0xe0, by omega, by simp only [leadRoom]; omega,
      hfirst _ (by simp only [leadMark]; omega)⟩
  by_cases h4 : first.toNat &&& 0xf8 = 0xf0
  · exact ⟨3, first.toNat - 0xf0, by omega, by simp only [leadRoom]; omega,
      hfirst _ (by simp only [leadMark]; omega)⟩
  · simp [decodeUtf8, h1, h2, h3, h4] at h

/-- The code point of a sequence is decoded from its bytes. -/
theorem decodeUtf8_bytes (s : Sequence) (rest : Data) :
    decodeUtf8 (s.bytes ++ rest) = some (s.codePoint, rest) := by
  rw [Sequence.bytes, List.cons_append, decodeUtf8_lead s.tail_le s.lead_lt,
    continuationBytes_append s.digits, Sequence.codePoint]

/-- And what is decoded is the code point of a sequence. -/
theorem exists_of_decodeUtf8 {input rest : Data} {codePoint : Nat}
    (h : decodeUtf8 input = some (codePoint, rest)) :
    ∃ s : Sequence, s.codePoint = codePoint ∧ input = s.bytes ++ rest := by
  cases input with
  | nil => simp [decodeUtf8] at h
  | cons first input =>
    obtain ⟨k, lead, hk, hlead, rfl⟩ := lead_of_decodeUtf8 (by rw [h]; simp)
    have hcontinued := h
    rw [decodeUtf8_lead hk hlead] at hcontinued
    obtain ⟨tail, rfl, hdigits, rfl⟩ := exists_of_continuationBytes hcontinued
    have hbytes := decodeUtf8_bytes ⟨lead, tail, hlead, hk, hdigits⟩ rest
    refine ⟨⟨lead, tail, hlead, hk, hdigits⟩, ?_, rfl⟩
    rw [Sequence.bytes, List.cons_append, h, Option.some.injEq, Prod.mk.injEq] at hbytes
    exact hbytes.1.symm

/-- A sequence is known from its bytes, whatever follows. -/
theorem Sequence.bytes_append_inj {s t : Sequence} {rest rest' : Data}
    (h : s.bytes ++ rest = t.bytes ++ rest') : s = t ∧ rest = rest' := by
  have hdecode := decodeUtf8_bytes s rest
  rw [h, decodeUtf8_bytes t rest', Option.some.injEq, Prod.mk.injEq] at hdecode
  obtain ⟨-, rfl⟩ := hdecode
  have hread : ∀ u : Sequence, (u.tail.map fun d => UInt8.ofNat (0x80 + d)).map
      (fun b => b.toNat - 0x80) = u.tail := by
    intro u
    rw [List.map_map]
    refine (List.map_congr_left fun d hd => ?_).trans (List.map_id _)
    have := u.digits d hd
    rw [Function.comp_apply, toNat_byte (by omega), id]
    omega
  obtain ⟨hfirst, htail⟩ := List.cons.inj (List.append_cancel_right h)
  have htail : s.tail = t.tail := by rw [← hread s, htail, hread t]
  have hlead : s.lead = t.lead := by
    have hnat := congrArg UInt8.toNat hfirst
    rw [toNat_byte (lead_byte_lt s.tail_le s.lead_lt),
      toNat_byte (lead_byte_lt t.tail_le t.lead_lt), htail] at hnat
    omega
  refine ⟨?_, rfl⟩
  cases s
  cases t
  cases hlead
  cases htail
  rfl

theorem Sequence.flatMap_bytes_inj {ss ts : List Sequence}
    (h : ss.flatMap bytes = ts.flatMap bytes) : ss = ts := by
  induction ss generalizing ts with
  | nil =>
    cases ts with
    | nil => rfl
    | cons t ts => simp [bytes] at h
  | cons s ss ih =>
    cases ts with
    | nil => simp [bytes] at h
    | cons t ts =>
      obtain ⟨rfl, hrest⟩ := bytes_append_inj h
      rw [ih hrest]

/-! ## Encoding -/

theorem or_low {mark n : Nat} (k : Nat) (hmark : mark % 2 ^ k = 0) (hn : n < 2 ^ k) :
    mark ||| n = mark + n := by
  obtain ⟨m, rfl⟩ : 2 ^ k ∣ mark := Nat.dvd_of_mod_eq_zero hmark
  exact (Nat.two_pow_add_eq_or_of_lt hn m).symm

theorem continuation_or (n : Nat) : 0x80 ||| n &&& 0x3f = 0x80 + n % 0x40 := by
  rw [Nat.and_two_pow_sub_one_eq_mod n 6]
  exact or_low 6 rfl (Nat.mod_lt n (by decide))

/-- The bytes that are written are those of the shortest sequence. -/
theorem appendUtf8_codePoint {s : Sequence} (h : s.Shortest) :
    appendUtf8 s.codePoint = s.bytes := by
  rcases s.forms with ⟨a, hlead, htail, ha⟩ | ⟨a, b, hlead, htail, ha, hb⟩ |
    ⟨a, b, c, hlead, htail, ha, hb, hc⟩ | ⟨a, b, c, d, hlead, htail, ha, hb, hc, hd⟩ <;>
  simp only [Sequence.Shortest, Sequence.codePoint, Sequence.bytes, hlead, htail, List.foldl_cons,
    List.foldl_nil, List.length_cons, List.length_nil, leastOf, leadMark, List.map_cons,
    List.map_nil, appendUtf8, continuation_or, Nat.shiftRight_eq_div_pow] at h ⊢
  · rw [if_pos (by omega), Nat.zero_add]
  · rw [if_neg (by omega), if_pos (by omega), or_low 5 rfl (by omega),
      show (a * 0x40 + b) / 2 ^ 6 = a by omega, show (a * 0x40 + b) % 0x40 = b by omega]
  · rw [if_neg (by omega), if_neg (by omega), if_pos (by omega), or_low 4 rfl (by omega),
      show ((a * 0x40 + b) * 0x40 + c) / 2 ^ 12 = a by omega,
      show ((a * 0x40 + b) * 0x40 + c) / 2 ^ 6 % 0x40 = b by omega,
      show ((a * 0x40 + b) * 0x40 + c) % 0x40 = c by omega]
  · rw [if_neg (by omega), if_neg (by omega), if_neg (by omega), or_low 3 rfl (by omega),
      show (((a * 0x40 + b) * 0x40 + c) * 0x40 + d) / 2 ^ 18 = a by omega,
      show (((a * 0x40 + b) * 0x40 + c) * 0x40 + d) / 2 ^ 12 % 0x40 = b by omega,
      show (((a * 0x40 + b) * 0x40 + c) * 0x40 + d) / 2 ^ 6 % 0x40 = c by omega,
      show (((a * 0x40 + b) * 0x40 + c) * 0x40 + d) % 0x40 = d by omega]

theorem exists_shortest {codePoint : Nat} (h : codePoint < 0x200000) :
    ∃ s : Sequence, s.Shortest ∧ s.codePoint = codePoint := by
  by_cases h1 : codePoint < 0x80
  · exact ⟨⟨codePoint, [], h1, by simp, by simp⟩, Nat.zero_le _, rfl⟩
  by_cases h2 : codePoint < 0x800
  · refine ⟨⟨codePoint / 0x40, [codePoint % 0x40], ?_, ?_, ?_⟩, ?_, ?_⟩
    all_goals simp [leadRoom, leastOf, Sequence.Shortest, Sequence.codePoint]
    all_goals omega
  by_cases h3 : codePoint < 0x10000
  · refine ⟨⟨codePoint / 0x1000, [codePoint / 0x40 % 0x40, codePoint % 0x40], ?_, ?_, ?_⟩, ?_, ?_⟩
    all_goals simp [leadRoom, leastOf, Sequence.Shortest, Sequence.codePoint]
    all_goals omega
  · refine ⟨⟨codePoint / 0x40000, [codePoint / 0x1000 % 0x40, codePoint / 0x40 % 0x40,
      codePoint % 0x40], ?_, ?_, ?_⟩, ?_, ?_⟩
    all_goals simp [leadRoom, leastOf, Sequence.Shortest, Sequence.codePoint]
    all_goals omega

/-- The bytes of a scalar are those of its shortest sequence. -/
theorem utf8EncodeChar_codePoint {c : Char} {s : Sequence} (h : s.Shortest)
    (hcode : s.codePoint = c.toNat) : String.utf8EncodeChar c = s.bytes := by
  have hval : c.val.toNat = s.codePoint := hcode.symm
  unfold String.utf8EncodeChar
  rw [hval]
  rcases s.forms with ⟨a, hlead, htail, ha⟩ | ⟨a, b, hlead, htail, ha, hb⟩ |
    ⟨a, b, c, hlead, htail, ha, hb, hc⟩ | ⟨a, b, c, d, hlead, htail, ha, hb, hc, hd⟩ <;>
  simp only [Sequence.Shortest, Sequence.codePoint, Sequence.bytes, hlead, htail, List.foldl_cons,
    List.foldl_nil, List.length_cons, List.length_nil, leastOf, leadMark, List.map_cons,
    List.map_nil] at h ⊢
  · rw [if_pos (by omega), Nat.zero_add]
  · rw [if_neg (by omega), if_pos (by omega),
      show (a * 0x40 + b) / 64 % 0x20 + 0xc0 = 0xc0 + a by omega,
      show (a * 0x40 + b) % 0x40 + 0x80 = 0x80 + b by omega]
  · rw [if_neg (by omega), if_neg (by omega), if_pos (by omega),
      show ((a * 0x40 + b) * 0x40 + c) / 4096 % 0x10 + 0xe0 = 0xe0 + a by omega,
      show ((a * 0x40 + b) * 0x40 + c) / 64 % 0x40 + 0x80 = 0x80 + b by omega,
      show ((a * 0x40 + b) * 0x40 + c) % 0x40 + 0x80 = 0x80 + c by omega]
  · rw [if_neg (by omega), if_neg (by omega), if_neg (by omega),
      show (((a * 0x40 + b) * 0x40 + c) * 0x40 + d) / 262144 % 0x08 + 0xf0 = 0xf0 + a by omega,
      show (((a * 0x40 + b) * 0x40 + c) * 0x40 + d) / 4096 % 0x40 + 0x80 = 0x80 + b by omega,
      show (((a * 0x40 + b) * 0x40 + c) * 0x40 + d) / 64 % 0x40 + 0x80 = 0x80 + c by omega,
      show (((a * 0x40 + b) * 0x40 + c) * 0x40 + d) % 0x40 + 0x80 = 0x80 + d by omega]

theorem toNat_lt_of_char (c : Char) : c.toNat < 0x200000 := by
  rcases c.valid with h | ⟨-, h⟩
  · exact Nat.lt_trans h (by decide)
  · exact Nat.lt_trans h (by decide)

theorem exists_sequences (text : Text) : ∃ ss : List Sequence,
    (∀ s ∈ ss, s.Shortest) ∧ ss.map Sequence.codePoint = text.map Char.toNat ∧
      utf8 text = ss.flatMap Sequence.bytes := by
  induction text with
  | nil => exact ⟨[], by simp, rfl, rfl⟩
  | cons c text ih =>
    obtain ⟨ss, hshortest, hcodes, hbytes⟩ := ih
    obtain ⟨s, hs, hcode⟩ := exists_shortest (toNat_lt_of_char c)
    refine ⟨s :: ss, List.forall_mem_cons.mpr ⟨hs, hshortest⟩, by simp [hcode, hcodes], ?_⟩
    rw [List.flatMap_cons, ← utf8EncodeChar_codePoint hs hcode, ← hbytes]
    rfl

theorem flatMap_appendUtf8 {ss : List Sequence} (h : ∀ s ∈ ss, s.Shortest) :
    (ss.map Sequence.codePoint).flatMap appendUtf8 = ss.flatMap Sequence.bytes := by
  rw [List.flatMap_map]
  exact List.flatMap_congr fun s hs => appendUtf8_codePoint (h s hs)

end MozcSidecarB1

end Hazkey
