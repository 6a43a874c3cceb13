import Hazkey.ProbeDigest

/-! What the probe computes is SHA-256 of all that it was fed. -/

namespace Hazkey

namespace ABProbeSHA256

open Sha256 BlockFold

/-! ## Words -/

theorem toNat_shift {m : UInt32} {n : Nat} (hm : m.toNat = n) (hn : n < 32) :
    (m.toBitVec % 32).toNat = n := by
  rw [BitVec.toNat_umod, UInt32.toNat_toBitVec, hm]
  exact Nat.mod_eq_of_lt hn

theorem shiftRight_eq (x : UInt32) {m : UInt32} {n : Nat} (hm : m.toNat = n) (hn : n < 32) :
    x >>> m = shr n x := by
  rw [shr, ← UInt32.toBitVec_inj, UInt32.toBitVec_shiftRight, BitVec.ushiftRight_eq',
    toNat_shift hm hn]

theorem rotateRight_eq (x : UInt32) {m : UInt32} {n : Nat} (hm : m.toNat = n) (hpos : 0 < n)
    (hn : n < 32) : rotateRight x m = rotr n x := by
  have hsub : (32 - m).toNat = 32 - n := by
    rw [UInt32.toNat_sub_of_le _ _ (by rw [UInt32.le_iff_toNat_le, hm]; exact Nat.le_of_lt hn), hm]
    rfl
  rw [rotateRight, rotr, ← UInt32.toBitVec_inj, UInt32.toBitVec_or, UInt32.toBitVec_shiftRight,
    UInt32.toBitVec_shiftLeft, BitVec.ushiftRight_eq', BitVec.shiftLeft_eq', toNat_shift hm hn,
    toNat_shift hsub (by omega), BitVec.rotateRight_def, Nat.mod_eq_of_lt hn]

theorem word_eq (b0 b1 b2 b3 : UInt8) :
    b0.toUInt32 <<< 24 ||| b1.toUInt32 <<< 16 ||| b2.toUInt32 <<< 8 ||| b3.toUInt32 =
      UInt32.ofNat ([b0, b1, b2, b3].foldl (fun value byte => value * 256 + byte.toNat) 0) := by
  obtain ⟨h0, h1⟩ := And.intro b0.toNat_lt b1.toNat_lt
  obtain ⟨h2, h3⟩ := And.intro b2.toNat_lt b3.toNat_lt
  have hlow : b2.toNat <<< 8 ||| b3.toNat = b2.toNat * 256 + b3.toNat := by
    rw [← Nat.shiftLeft_add_eq_or_of_lt (i := 8) h3, Nat.shiftLeft_eq]
  have hmiddle : b1.toNat <<< 16 ||| (b2.toNat * 256 + b3.toNat) =
      b1.toNat * 65536 + (b2.toNat * 256 + b3.toNat) := by
    rw [← Nat.shiftLeft_add_eq_or_of_lt (i := 16) (by omega), Nat.shiftLeft_eq]
  have hhigh : b0.toNat <<< 24 ||| (b1.toNat * 65536 + (b2.toNat * 256 + b3.toNat)) =
      b0.toNat * 16777216 + (b1.toNat * 65536 + (b2.toNat * 256 + b3.toNat)) := by
    rw [← Nat.shiftLeft_add_eq_or_of_lt (i := 24) (by omega), Nat.shiftLeft_eq]
  rw [← UInt32.toNat_inj, UInt32.toNat_ofNat']
  simp only [UInt32.toNat_or, UInt32.toNat_shiftLeft, UInt8.toNat_toUInt32, List.foldl_cons,
    List.foldl_nil]
  have hshift : ∀ {b n : Nat}, b < 256 → n ≤ 24 → b <<< n % 2 ^ 32 = b <<< n := by
    intro b n hb hn
    rw [Nat.shiftLeft_eq]
    refine Nat.mod_eq_of_lt ?_
    have hpow : 2 ^ n ≤ 2 ^ 24 := Nat.pow_le_pow_right (by decide) hn
    calc b * 2 ^ n ≤ 255 * 2 ^ 24 := Nat.mul_le_mul (by omega) hpow
      _ < 2 ^ 32 := by decide
  change b0.toNat <<< 24 % 2 ^ 32 ||| b1.toNat <<< 16 % 2 ^ 32 ||| b2.toNat <<< 8 % 2 ^ 32 |||
    b3.toNat = _
  rw [hshift h0 (by decide), hshift h1 (by decide), hshift h2 (by decide), Nat.or_assoc,
    Nat.or_assoc, hlow, hmiddle, hhigh]
  omega

/-! ## The schedule of a block -/

theorem take_four {xs : Data} {k : Nat} (h : k + 4 ≤ xs.length) :
    (xs.drop k).take 4 = [xs[k], xs[k + 1], xs[k + 2], xs[k + 3]] := by
  rw [List.drop_eq_getElem_cons (by omega), List.drop_eq_getElem_cons (i := k + 1) (by omega),
    List.drop_eq_getElem_cons (i := k + 1 + 1) (by omega),
    List.drop_eq_getElem_cons (i := k + 1 + 1 + 1) (by omega)]
  rfl

/-- The block that is read from an offset on. -/
def blockAt (bytes : Data) (offset : Nat) : Data := (bytes.drop offset).take 64

theorem loadWord_eq {bytes : Data} {offset index : Nat} (h : offset + 64 ≤ bytes.length)
    (hindex : index < 16) (words : List UInt32) : loadWord bytes offset words index =
      some (words.set index (messageWord (blockAt bytes offset) index)) := by
  have hfour : ((blockAt bytes offset).drop (4 * index)).take 4 =
      (bytes.drop (offset + index * 4)).take 4 := by
    rw [blockAt, List.drop_take, List.drop_drop, List.take_take, Nat.min_eq_left (by omega),
      Nat.mul_comm]
  rw [messageWord, hfour, take_four (by omega), ← word_eq]
  simp only [loadWord, List.getElem?_eq_getElem (show offset + index * 4 < bytes.length by omega),
    List.getElem?_eq_getElem (show offset + index * 4 + 1 < bytes.length by omega),
    List.getElem?_eq_getElem (show offset + index * 4 + 2 < bytes.length by omega),
    List.getElem?_eq_getElem (show offset + index * 4 + 3 < bytes.length by omega)]
  rfl

/-- The first words of the array are known, and no other is written yet. -/
def filled (W : Nat → UInt32) (k : Nat) : List UInt32 :=
  (List.range k).map W ++ List.replicate (64 - k) 0

theorem filled_set {W : Nat → UInt32} {k : Nat} (h : k < 64) :
    (filled W k).set k (W k) = filled W (k + 1) := by
  have hlength : ((List.range k).map W).length = k := by simp
  obtain ⟨n, hn⟩ : ∃ n, 64 - k = n + 1 := ⟨63 - k, by omega⟩
  rw [filled, filled, List.set_append_right _ _ (by omega), hlength, Nat.sub_self, hn,
    List.replicate_succ, List.set_cons_zero, List.range_succ, List.map_append,
    show 64 - (k + 1) = n by omega]
  simp

theorem filled_getD {W : Nat → UInt32} {i k : Nat} (h : i < k) : (filled W k).getD i 0 = W i := by
  have hlength : ((List.range k).map W).length = k := by simp
  rw [filled, List.getD_append _ _ _ _ (by omega), List.getD_eq_getElem _ _ (by omega)]
  simp

theorem loadWords_eq {bytes : Data} {offset : Nat} (h : offset + 64 ≤ bytes.length) {k : Nat}
    (hk : k ≤ 16) : (List.range k).foldlM (loadWord bytes offset) (List.replicate 64 0) =
      some (filled (messageWord (blockAt bytes offset)) k) := by
  induction k with
  | zero => rfl
  | succ k ih =>
    rw [List.range_succ, List.foldlM_append, ih (by omega)]
    simp only [Option.bind_eq_bind, Option.bind_some, List.foldlM_cons, List.foldlM_nil,
      loadWord_eq h (show k < 16 by omega), filled_set (show k < 64 by omega)]
    rfl

theorem schedule_input {M : Nat → UInt32} {t : Nat} (h : t < 16) : schedule M t = M t := by
  rw [schedule, if_pos h]

theorem filled_schedule (M : Nat → UInt32) : filled M 16 = filled (schedule M) 16 := by
  rw [filled, filled]
  congr 1
  exact List.map_congr_left fun t ht => (schedule_input (List.mem_range.mp ht)).symm

theorem extendWords_eq {M : Nat → UInt32} {k : Nat} (h : 16 ≤ k) (hk : k < 64) :
    extendWords (filled (schedule M) k) k = filled (schedule M) (k + 1) := by
  have hword : schedule M k = smallSigma1 (schedule M (k - 2)) + schedule M (k - 7) +
      smallSigma0 (schedule M (k - 15)) + schedule M (k - 16) := by
    rw [schedule, if_neg (by omega)]
  rw [← filled_set hk, hword, extendWords]
  simp only [filled_getD (show k - 15 < k by omega), filled_getD (show k - 2 < k by omega),
    filled_getD (show k - 16 < k by omega), filled_getD (show k - 7 < k by omega)]
  congr 1
  rw [smallSigma0, smallSigma1, rotateRight_eq _ (n := 7) rfl (by decide) (by decide),
    rotateRight_eq _ (n := 18) rfl (by decide) (by decide),
    rotateRight_eq _ (n := 17) rfl (by decide) (by decide),
    rotateRight_eq _ (n := 19) rfl (by decide) (by decide),
    shiftRight_eq _ (n := 3) rfl (by decide), shiftRight_eq _ (n := 10) rfl (by decide)]
  ac_rfl

theorem extend_eq (M : Nat → UInt32) {k : Nat} (hk : k ≤ 48) :
    (List.range' 16 k).foldl extendWords (filled M 16) = filled (schedule M) (16 + k) := by
  induction k with
  | zero => exact filled_schedule M
  | succ k ih =>
    rw [List.range'_concat, List.foldl_append, ih (by omega), List.foldl_cons, List.foldl_nil,
      Nat.one_mul]
    exact extendWords_eq (by omega) (by omega)

/-! ## The rounds of a block -/

theorem roundConstants_roots : ∀ t < 64, ∃ i < 7,
    (i * 2 ^ 32 + (roundConstants.getD t 0).toNat) ^ 3 ≤ firstPrimes.getD t 0 * 2 ^ 96 ∧
      firstPrimes.getD t 0 * 2 ^ 96 < (i * 2 ^ 32 + (roundConstants.getD t 0).toNat + 1) ^ 3 := by
  decide +kernel

theorem firstPrimes_getD {t : Nat} (h : t < 64) : firstPrimes[t]? = some (firstPrimes.getD t 0) := by
  have hlength : t < firstPrimes.length := h
  rw [List.getElem?_eq_getElem hlength, List.getD_eq_getElem _ _ hlength]

theorem roundConstants_eq {t : Nat} (h : t < 64) : roundConstants.getD t 0 = K t := by
  obtain ⟨i, -, hlow, hhigh⟩ := roundConstants_roots t h
  rw [K_eq (firstPrimes_getD h) hlow hhigh, UInt32.ofNat_toNat]

theorem initial_roots : ∀ t < 8, ∃ i < 5,
    (i * 2 ^ 32 + ([0x6a09e667, 0xbb67ae85, 0x3c6ef372, 0xa54ff53a, 0x510e527f, 0x9b05688c,
      0x1f83d9ab, 0x5be0cd19].getD t 0)) ^ 2 ≤ firstPrimes.getD t 0 * 2 ^ 64 ∧
    firstPrimes.getD t 0 * 2 ^ 64 < (i * 2 ^ 32 + ([0x6a09e667, 0xbb67ae85, 0x3c6ef372,
      0xa54ff53a, 0x510e527f, 0x9b05688c, 0x1f83d9ab, 0x5be0cd19].getD t 0) + 1) ^ 2 := by
  decide +kernel

theorem initialWord_getD {t : Nat} (h : t < 8) : initialWord t =
    UInt32.ofNat ([0x6a09e667, 0xbb67ae85, 0x3c6ef372, 0xa54ff53a, 0x510e527f, 0x9b05688c,
      0x1f83d9ab, 0x5be0cd19].getD t 0) := by
  obtain ⟨i, -, hlow, hhigh⟩ := initial_roots t h
  exact initialWord_eq (firstPrimes_getD (by omega)) hlow hhigh

theorem state_initial : ({} : ABProbeSHA256).state = initial := by
  rw [initial, initialWord_getD (t := 0) (by decide), initialWord_getD (t := 1) (by decide),
    initialWord_getD (t := 2) (by decide), initialWord_getD (t := 3) (by decide),
    initialWord_getD (t := 4) (by decide), initialWord_getD (t := 5) (by decide),
    initialWord_getD (t := 6) (by decide), initialWord_getD (t := 7) (by decide)]
  rfl

theorem mix_eq {W : Nat → UInt32} {t : Nat} (h : t < 64) (r : Registers) :
    mix (filled W 64) r t = Sha256.round (K t) (W t) r := by
  rw [mix, Sha256.round]
  simp only [filled_getD h, roundConstants_eq h, bigSigma0, bigSigma1, ch, maj,
    rotateRight_eq _ (show (2 : UInt32).toNat = 2 from rfl) (by decide) (by decide),
    rotateRight_eq _ (show (6 : UInt32).toNat = 6 from rfl) (by decide) (by decide),
    rotateRight_eq _ (show (11 : UInt32).toNat = 11 from rfl) (by decide) (by decide),
    rotateRight_eq _ (show (13 : UInt32).toNat = 13 from rfl) (by decide) (by decide),
    rotateRight_eq _ (show (22 : UInt32).toNat = 22 from rfl) (by decide) (by decide),
    rotateRight_eq _ (show (25 : UInt32).toNat = 25 from rfl) (by decide) (by decide)]

theorem foldl_mix (W : Nat → UInt32) (r : Registers) {k : Nat} (hk : k ≤ 64) :
    (List.range k).foldl (mix (filled W 64)) r = working W k r := by
  induction k with
  | zero => rfl
  | succ k ih =>
    rw [List.range_succ, List.foldl_append, ih (by omega), List.foldl_cons, List.foldl_nil,
      mix_eq (by omega)]
    rfl

/-- A block that is there is compressed. -/
theorem processBlock_eq {bytes : Data} {offset : Nat} (h : offset + 64 ≤ bytes.length)
    (state : Registers) :
    processBlock state bytes offset = some (compress state (blockAt bytes offset)) := by
  rw [processBlock, loadWords_eq h (Nat.le_refl 16), Option.map_some, compress,
    extend_eq _ (Nat.le_refl 48), foldl_mix _ _ (Nat.le_refl 64), Registers.add]
  simp only [UInt32.add_comm]

/-! ## All blocks -/

/-- The state behind so many blocks. -/
noncomputable def stateAfter (bytes : Data) (state : Registers) (k : Nat) : Registers :=
  ((List.range k).map fun i => blockAt bytes (64 * i)).foldl compress state

theorem stateAfter_succ (bytes : Data) (state : Registers) (k : Nat) :
    stateAfter bytes state (k + 1) =
      compress (stateAfter bytes state k) (blockAt bytes (64 * k)) := by
  rw [stateAfter, List.range_succ, List.map_append, List.foldl_append]
  rfl

theorem processFull_eq (bytes : Data) (state : Registers) (rounds : Nat) {k : Nat}
    (hk : k ≤ bytes.length / 64) (h : bytes.length / 64 - k < rounds) :
    processFull bytes rounds (stateAfter bytes state k) (64 * k) =
      some (foldBlocks 64 compress state bytes, 64 * (bytes.length / 64)) := by
  induction rounds generalizing k with
  | zero => omega
  | succ rounds ih =>
    rw [processFull]
    by_cases hlast : k = bytes.length / 64
    · subst hlast
      rw [if_neg (by omega)]
      rfl
    · rw [if_pos (by omega), processBlock_eq (by omega), Option.bind_some, ← stateAfter_succ]
      exact ih (by omega) (by omega)

theorem processRest_eq {bytes : Data} (hbytes : bytes.length % 64 = 0) (state : Registers)
    {rounds k : Nat} (hk : k ≤ bytes.length / 64) (h : bytes.length / 64 - k < rounds) :
    processRest bytes rounds (stateAfter bytes state k) (64 * k) =
      some (foldBlocks 64 compress state bytes) := by
  induction rounds generalizing k with
  | zero => omega
  | succ rounds ih =>
    rw [processRest]
    by_cases hlast : k = bytes.length / 64
    · subst hlast
      rw [if_neg (by omega)]
      rfl
    · rw [if_pos (by omega), processBlock_eq (by omega), Option.bind_some, ← stateAfter_succ]
      exact ih (by omega) (by omega)

/-- What the hasher holds when it was fed a message. -/
structure Fed (hasher : ABProbeSHA256) (message : Data) : Prop where
  state : hasher.state = foldBlocks 64 compress initial message
  buffered : hasher.buffered = rest 64 message
  byteCount : hasher.byteCount = UInt64.ofNat message.length

theorem fed_initial : Fed {} [] where
  state := state_initial
  buffered := rfl
  byteCount := rfl

theorem Fed.update {hasher : ABProbeSHA256} {message : Data} (h : Fed hasher message)
    (data : Data) : ∃ hasher', update hasher data = some hasher' ∧ Fed hasher' (message ++ data) := by
  by_cases hdata : data = []
  · refine ⟨hasher, by rw [ABProbeSHA256.update, if_pos hdata], ?_⟩
    rwa [hdata, List.append_nil]
  · have hfull := processFull_eq (hasher.buffered ++ data) hasher.state
      ((hasher.buffered ++ data).length + 1) (Nat.zero_le _) (by omega)
    rw [stateAfter, List.range_zero, List.map_nil, List.foldl_nil, Nat.mul_zero] at hfull
    refine ⟨⟨foldBlocks 64 compress hasher.state (hasher.buffered ++ data),
      rest 64 (hasher.buffered ++ data), hasher.byteCount + UInt64.ofNat data.length⟩, ?_, ?_, ?_, ?_⟩
    · rw [ABProbeSHA256.update, if_neg hdata]
      simp only [hfull, Option.bind_some]
      rw [if_pos (Nat.mul_div_le _ 64)]
      rfl
    · simp only [h.state, h.buffered]
      rw [← foldBlocks_rest _ (by decide)]
    · simp only [h.buffered]
      rw [← rest_append (by decide)]
    · simp only [h.byteCount]
      rw [List.length_append, UInt64.ofNat_add]

/-- Fed in whatever chunks, the hasher holds the whole message. -/
theorem Fed.feed {hasher : ABProbeSHA256} {message : Data} (h : Fed hasher message)
    (chunks : List Data) :
    ∃ hasher', feed hasher chunks = some hasher' ∧ Fed hasher' (message ++ chunks.flatten) := by
  induction chunks generalizing hasher message with
  | nil => exact ⟨hasher, rfl, by rwa [List.flatten_nil, List.append_nil]⟩
  | cons data chunks ih =>
    obtain ⟨next, hupdate, hnext⟩ := h.update data
    obtain ⟨last, hfeed, hlast⟩ := ih hnext
    refine ⟨last, ?_, by rwa [List.flatten_cons, ← List.append_assoc]⟩
    rw [ABProbeSHA256.feed, List.foldlM_cons, hupdate]
    exact hfeed

/-! ## The end of the message -/

theorem appendZeros_eq {rounds n : Nat} {bytes : Data} (hn : n < rounds)
    (h : (bytes.length + n) % 64 = 56) (hleast : ∀ k < n, (bytes.length + k) % 64 ≠ 56) :
    appendZeros rounds bytes = some (bytes ++ List.replicate n 0) := by
  induction n generalizing rounds bytes with
  | zero =>
    obtain ⟨rounds, rfl⟩ : ∃ r, rounds = r + 1 := ⟨rounds - 1, by omega⟩
    rw [Nat.add_zero] at h
    rw [appendZeros, if_neg (not_not.mpr h), List.replicate_zero, List.append_nil]
  | succ n ih =>
    obtain ⟨rounds, rfl⟩ : ∃ r, rounds = r + 1 := ⟨rounds - 1, by omega⟩
    have hlength : (bytes ++ [0]).length = bytes.length + 1 := by simp
    have hzero := hleast 0 (Nat.succ_pos n)
    rw [Nat.add_zero] at hzero
    rw [appendZeros, if_pos hzero, ih (by omega)]
    · rw [List.append_assoc, List.replicate_succ]
      rfl
    · rw [hlength, ← h]
      congr 1
      omega
    · intro k hk
      have := hleast (k + 1) (by omega)
      rw [hlength]
      rwa [Nat.add_right_comm, Nat.add_assoc]

theorem encodedUInt64_eq (value : UInt64) : encodedUInt64 value = bigEndian 8 value.toNat := by
  refine List.map_congr_left fun i hi => ?_
  have hi := List.mem_range.mp hi
  have hshift : (UInt64.ofNat ((7 - i) * 8)).toNat % 64 = 8 * (7 - i) := by
    rw [UInt64.toNat_ofNat']
    omega
  have hpow : 256 ^ (8 - 1 - i) = 2 ^ (8 * (7 - i)) := by
    rw [Nat.pow_mul]
  rw [← UInt8.toNat_inj, UInt64.toNat_toUInt8, UInt64.toNat_shiftRight, UInt8.toNat_ofNat', hshift,
    Nat.shiftRight_eq_div_pow, hpow]

theorem wordBytes_eq (word : UInt32) : wordBytes word = bigEndian 4 word.toNat := by
  have hbyte : ∀ {m : UInt32} {n : Nat}, m.toNat = n → n < 32 →
      (word >>> m).toUInt8 = UInt8.ofNat (word.toNat / 2 ^ n) := by
    intro m n hm hn
    rw [← UInt8.toNat_inj, UInt32.toNat_toUInt8, UInt32.toNat_shiftRight, UInt8.toNat_ofNat', hm,
      Nat.mod_eq_of_lt hn, Nat.shiftRight_eq_div_pow]
  have hrange : List.range 4 = [0, 1, 2, 3] := by decide
  rw [wordBytes, bigEndian, hrange, hbyte (n := 24) rfl (by decide),
    hbyte (n := 16) rfl (by decide), hbyte (n := 8) rfl (by decide)]
  simp only [List.map_cons, List.map_nil, Nat.reduceSub, Nat.reducePow, Nat.div_one]
  rfl

/-- The bytes that finish a message, with its length as the code counts it. -/
def paddedMessage (message : Data) : Data :=
  message ++ (0x80 :: List.replicate (zeros message.length) 0 ++
    encodedUInt64 (UInt64.ofNat message.length * 8))

theorem Fed.finalize {hasher : ABProbeSHA256} {message : Data} (h : Fed hasher message) :
    finalize hasher =
      some (foldBlocks 64 compress initial (paddedMessage message)).bytes := by
  obtain ⟨hzeros, hleast⟩ := zeros_least message.length
  have hlength : (hasher.buffered ++ [0x80]).length = message.length % 64 + 1 := by
    rw [h.buffered, List.length_append, length_rest]
    rfl
  have happend : appendZeros 64 (hasher.buffered ++ [0x80]) =
      some ((hasher.buffered ++ [0x80]) ++ List.replicate (zeros message.length) 0) := by
    apply appendZeros_eq
    · rw [zeros]
      omega
    · rw [hlength]
      omega
    · intro k hk heq
      rw [hlength] at heq
      have := hleast k (by omega)
      omega
  have hfinal : (hasher.buffered ++ [0x80]) ++ List.replicate (zeros message.length) 0 ++
      encodedUInt64 (hasher.byteCount * 8) = rest 64 message ++
        (0x80 :: List.replicate (zeros message.length) 0 ++
          encodedUInt64 (UInt64.ofNat message.length * 8)) := by
    rw [h.buffered, h.byteCount]
    simp
  have hmod : ((hasher.buffered ++ [0x80]) ++ List.replicate (zeros message.length) 0 ++
      encodedUInt64 (hasher.byteCount * 8)).length % 64 = 0 := by
    rw [List.length_append, List.length_append, hlength, List.length_replicate, encodedUInt64,
      List.length_map, List.length_range]
    omega
  have hrest := processRest_eq hmod hasher.state (k := 0) (Nat.zero_le _) (Nat.lt_succ_of_le
    ((Nat.sub_le _ _).trans (Nat.div_le_self _ 64)))
  rw [stateAfter, List.range_zero, List.map_nil, List.foldl_nil, Nat.mul_zero] at hrest
  rw [ABProbeSHA256.finalize, happend]
  simp only [Option.bind_eq_bind, Option.bind_some, hrest, Option.pure_def, Option.some.injEq]
  rw [hfinal, h.state, ← foldBlocks_rest _ (by decide), Registers.bytes, paddedMessage]
  exact List.flatMap_congr fun word _ => wordBytes_eq word

theorem paddedMessage_eq {message : Data} (h : message.length < 2 ^ 61) :
    paddedMessage message = pad message := by
  have hbits : (UInt64.ofNat message.length * 8).toNat = 8 * message.length := by
    rw [UInt64.toNat_mul, UInt64.toNat_ofNat', show (8 : UInt64).toNat = 8 from rfl]
    omega
  rw [paddedMessage, pad, encodedUInt64_eq, hbits, List.append_assoc]

/-- However a message is cut, its digest is the one of the standard. -/
theorem finalize_feed {chunks : List Data} (h : chunks.flatten.length < 2 ^ 61) :
    (ABProbeSHA256.feed {} chunks).bind finalize = some (digest chunks.flatten) := by
  obtain ⟨hasher, hfeed, hfed⟩ := fed_initial.feed chunks
  rw [List.nil_append] at hfed
  rw [hfeed, Option.bind_some, hfed.finalize, paddedMessage_eq h, digest]

end ABProbeSHA256

end Hazkey
