import Hazkey.Sha256
import Hazkey.Text

/-! The digest of the probe, fed in chunks. A read past the end of an array ends
the process, and is none. -/

namespace Hazkey

open Sha256 BlockFold

def roundConstants : List UInt32 := [
  0x428a2f98, 0x71374491, 0xb5c0fbcf, 0xe9b5dba5,
  0x3956c25b, 0x59f111f1, 0x923f82a4, 0xab1c5ed5,
  0xd807aa98, 0x12835b01, 0x243185be, 0x550c7dc3,
  0x72be5d74, 0x80deb1fe, 0x9bdc06a7, 0xc19bf174,
  0xe49b69c1, 0xefbe4786, 0x0fc19dc6, 0x240ca1cc,
  0x2de92c6f, 0x4a7484aa, 0x5cb0a9dc, 0x76f988da,
  0x983e5152, 0xa831c66d, 0xb00327c8, 0xbf597fc7,
  0xc6e00bf3, 0xd5a79147, 0x06ca6351, 0x14292967,
  0x27b70a85, 0x2e1b2138, 0x4d2c6dfc, 0x53380d13,
  0x650a7354, 0x766a0abb, 0x81c2c92e, 0x92722c85,
  0xa2bfe8a1, 0xa81a664b, 0xc24b8b70, 0xc76c51a3,
  0xd192e819, 0xd6990624, 0xf40e3585, 0x106aa070,
  0x19a4c116, 0x1e376c08, 0x2748774c, 0x34b0bcb5,
  0x391c0cb3, 0x4ed8aa4a, 0x5b9cca4f, 0x682e6ff3,
  0x748f82ee, 0x78a5636f, 0x84c87814, 0x8cc70208,
  0x90befffa, 0xa4506ceb, 0xbef9a3f7, 0xc67178f2]

/-- The state is an array of eight words. -/
structure ABProbeSHA256 where
  state : Registers := ⟨0x6a09e667, 0xbb67ae85, 0x3c6ef372, 0xa54ff53a,
    0x510e527f, 0x9b05688c, 0x1f83d9ab, 0x5be0cd19⟩
  buffered : Data := []
  byteCount : UInt64 := 0

namespace ABProbeSHA256

def rotateRight (value amount : UInt32) : UInt32 := (value >>> amount) ||| (value <<< (32 - amount))

def loadWord (block : Data) (offset : Nat) (words : List UInt32) (index : Nat) :
    Option (List UInt32) := do
  let base := offset + index * 4
  let b0 ← block[base]?
  let b1 ← block[base + 1]?
  let b2 ← block[base + 2]?
  let b3 ← block[base + 3]?
  return words.set index (b0.toUInt32 <<< 24 ||| b1.toUInt32 <<< 16 ||| b2.toUInt32 <<< 8 |||
    b3.toUInt32)

/-- The array has 64 words, and every index is below that. -/
def extendWords (words : List UInt32) (index : Nat) : List UInt32 :=
  let word := fun i => words.getD i 0
  let s0 := rotateRight (word (index - 15)) 7 ^^^ rotateRight (word (index - 15)) 18 ^^^
    (word (index - 15) >>> 3)
  let s1 := rotateRight (word (index - 2)) 17 ^^^ rotateRight (word (index - 2)) 19 ^^^
    (word (index - 2) >>> 10)
  words.set index (word (index - 16) + s0 + word (index - 7) + s1)

def mix (words : List UInt32) (r : Registers) (index : Nat) : Registers :=
  let sum1 := rotateRight r.e 6 ^^^ rotateRight r.e 11 ^^^ rotateRight r.e 25
  let choice := (r.e &&& r.f) ^^^ ((~~~r.e) &&& r.g)
  let temporary1 := r.h + sum1 + choice + roundConstants.getD index 0 + words.getD index 0
  let sum0 := rotateRight r.a 2 ^^^ rotateRight r.a 13 ^^^ rotateRight r.a 22
  let majority := (r.a &&& r.b) ^^^ (r.a &&& r.c) ^^^ (r.b &&& r.c)
  let temporary2 := sum0 + majority
  ⟨temporary1 + temporary2, r.a, r.b, r.c, r.d + temporary1, r.e, r.f, r.g⟩

def processBlock (state : Registers) (block : Data) (offset : Nat) : Option Registers :=
  ((List.range 16).foldlM (loadWord block offset) (List.replicate 64 0)).map fun words =>
    let r := (List.range 64).foldl (mix ((List.range' 16 48).foldl extendWords words)) state
    ⟨state.a + r.a, state.b + r.b, state.c + r.c, state.d + r.d, state.e + r.e, state.f + r.f,
      state.g + r.g, state.h + r.h⟩

/-- The loop of an update, with the offset at its end. -/
def processFull (bytes : Data) : Nat → Registers → Nat → Option (Registers × Nat)
  | 0, _, _ => none
  | rounds + 1, state, offset =>
    if offset + 64 ≤ bytes.length then
      (processBlock state bytes offset).bind fun state =>
        processFull bytes rounds state (offset + 64)
    else some (state, offset)

def update (hasher : ABProbeSHA256) (data : Data) : Option ABProbeSHA256 :=
  if data = [] then some hasher
  else
    let bytes := hasher.buffered ++ data
    (processFull bytes (bytes.length + 1) hasher.state 0).bind fun (state, offset) =>
      if offset ≤ bytes.length then
        some ⟨state, bytes.drop offset, hasher.byteCount + UInt64.ofNat data.length⟩
      else none

def appendZeros : Nat → Data → Option Data
  | 0, _ => none
  | rounds + 1, bytes =>
    if bytes.length % 64 ≠ 56 then appendZeros rounds (bytes ++ [0]) else some bytes

def encodedUInt64 (value : UInt64) : Data :=
  (List.range 8).map fun shift => (value >>> UInt64.ofNat ((7 - shift) * 8)).toUInt8

/-- The loop over what is left at the end. -/
def processRest (bytes : Data) : Nat → Registers → Nat → Option Registers
  | 0, _, _ => none
  | rounds + 1, state, offset =>
    if offset < bytes.length then
      (processBlock state bytes offset).bind fun state =>
        processRest bytes rounds state (offset + 64)
    else some state

def wordBytes (word : UInt32) : Data :=
  [(word >>> 24).toUInt8, (word >>> 16).toUInt8, (word >>> 8).toUInt8, word.toUInt8]

def finalize (hasher : ABProbeSHA256) : Option Data := do
  let bitCount := hasher.byteCount * 8
  let padded ← appendZeros 64 (hasher.buffered ++ [0x80])
  let finalBytes := padded ++ encodedUInt64 bitCount
  let s ← processRest finalBytes (finalBytes.length + 1) hasher.state 0
  return [s.a, s.b, s.c, s.d, s.e, s.f, s.g, s.h].flatMap wordBytes

/-- One update after the other. -/
def feed (hasher : ABProbeSHA256) (chunks : List Data) : Option ABProbeSHA256 :=
  chunks.foldlM update hasher

end ABProbeSHA256

end Hazkey
