import Six.Lib.BlockHash
import Mathlib.Data.List.GetD

/-! SHA-256 as FIPS 180-4 specifies it, on messages of whole bytes: the functions and constants of
sections 4.1.2 and 4.2.2, the padding of section 5.1.1, and the computation of section 6.2. -/

namespace Six.Lib.Sha256

open List

def rotr (x n : UInt32) : UInt32 := (x >>> n) ||| (x <<< (32 - n))

def ch (x y z : UInt32) : UInt32 := (x &&& y) ^^^ (~~~x &&& z)

def maj (x y z : UInt32) : UInt32 := (x &&& y) ^^^ (x &&& z) ^^^ (y &&& z)

def bigSigma0 (x : UInt32) : UInt32 := rotr x 2 ^^^ rotr x 13 ^^^ rotr x 22

def bigSigma1 (x : UInt32) : UInt32 := rotr x 6 ^^^ rotr x 11 ^^^ rotr x 25

def smallSigma0 (x : UInt32) : UInt32 := rotr x 7 ^^^ rotr x 18 ^^^ (x >>> 3)

def smallSigma1 (x : UInt32) : UInt32 := rotr x 17 ^^^ rotr x 19 ^^^ (x >>> 10)

/-- The first 32 bits of the fractional parts of the cube roots of the first 64 primes. -/
def constants : List UInt32 :=
  [0x428a2f98, 0x71374491, 0xb5c0fbcf, 0xe9b5dba5, 0x3956c25b, 0x59f111f1, 0x923f82a4, 0xab1c5ed5,
    0xd807aa98, 0x12835b01, 0x243185be, 0x550c7dc3, 0x72be5d74, 0x80deb1fe, 0x9bdc06a7, 0xc19bf174,
    0xe49b69c1, 0xefbe4786, 0x0fc19dc6, 0x240ca1cc, 0x2de92c6f, 0x4a7484aa, 0x5cb0a9dc, 0x76f988da,
    0x983e5152, 0xa831c66d, 0xb00327c8, 0xbf597fc7, 0xc6e00bf3, 0xd5a79147, 0x06ca6351, 0x14292967,
    0x27b70a85, 0x2e1b2138, 0x4d2c6dfc, 0x53380d13, 0x650a7354, 0x766a0abb, 0x81c2c92e, 0x92722c85,
    0xa2bfe8a1, 0xa81a664b, 0xc24b8b70, 0xc76c51a3, 0xd192e819, 0xd6990624, 0xf40e3585, 0x106aa070,
    0x19a4c116, 0x1e376c08, 0x2748774c, 0x34b0bcb5, 0x391c0cb3, 0x4ed8aa4a, 0x5b9cca4f, 0x682e6ff3,
    0x748f82ee, 0x78a5636f, 0x84c87814, 0x8cc70208, 0x90befffa, 0xa4506ceb, 0xbef9a3f7, 0xc67178f2]

/-- The integer part of a cube root below 7. -/
def cubeRoot (p : Nat) : Nat := (List.range 6).countP fun q => (q + 1) ^ 3 ≤ p

-- each word, behind the integer part of the root, is the root cut off after 32 bits
example :
    (constants.zip [2, 3, 5, 7, 11, 13, 17, 19, 23, 29, 31, 37, 41, 43, 47, 53, 59, 61, 67, 71,
    73, 79, 83, 89, 97, 101, 103, 107, 109, 113, 127, 131, 137, 139, 149, 151, 157, 163, 167, 173,
    179, 181, 191, 193, 197, 199, 211, 223, 227, 229, 233, 239, 241, 251, 257, 263, 269, 271, 277,
    281, 283, 293, 307, 311]).all (fun (k, p) =>
      (2 ^ 32 * cubeRoot p + k.toNat) ^ 3 ≤ 2 ^ 96 * p &&
        2 ^ 96 * p < (2 ^ 32 * cubeRoot p + k.toNat + 1) ^ 3) = true := by decide

def initial : Fin 8 → UInt32 := fun i =>
  [0x6a09e667, 0xbb67ae85, 0x3c6ef372, 0xa54ff53a, 0x510e527f, 0x9b05688c, 0x1f83d9ab,
    0x5be0cd19].getD i 0

def word (block : Nat → UInt8) (t : Nat) : UInt32 :=
  UInt32.ofNat ((block (4 * t)).toNat * 2 ^ 24 + (block (4 * t + 1)).toNat * 2 ^ 16 +
    (block (4 * t + 2)).toNat * 2 ^ 8 + (block (4 * t + 3)).toNat)

def schedule (block : Nat → UInt8) (t : Nat) : UInt32 :=
  if t < 16 then word block t
  else
    smallSigma1 (schedule block (t - 2)) + schedule block (t - 7) +
      smallSigma0 (schedule block (t - 15)) + schedule block (t - 16)

structure Vars where
  a : UInt32
  b : UInt32
  c : UInt32
  d : UInt32
  e : UInt32
  f : UInt32
  g : UInt32
  h : UInt32
  deriving DecidableEq, Repr

def Vars.words (v : Vars) : Fin 8 → UInt32 := fun i =>
  [v.a, v.b, v.c, v.d, v.e, v.f, v.g, v.h].getD i 0

def Vars.ofWords (s : Fin 8 → UInt32) : Vars := ⟨s 0, s 1, s 2, s 3, s 4, s 5, s 6, s 7⟩

def Vars.round (v : Vars) (k w : UInt32) : Vars :=
  let t1 := v.h + bigSigma1 v.e + ch v.e v.f v.g + k + w
  let t2 := bigSigma0 v.a + maj v.a v.b v.c
  ⟨t1 + t2, v.a, v.b, v.c, v.d + t1, v.e, v.f, v.g⟩

def compress (s : Fin 8 → UInt32) (block : Nat → UInt8) : Fin 8 → UInt32 :=
  let v := (List.range 64).foldl (fun v t => v.round (constants.getD t 0) (schedule block t))
    (Vars.ofWords s)
  fun i => v.words i + s i

def lengthBytes (n : Nat) : List UInt8 :=
  (List.range 8).map fun i => UInt8.ofNat (n / 2 ^ (8 * (7 - i)))

/-- The message with its padding: a one bit, the fewest zero bits that make room for the length at
the end of a block, and the length in bits. -/
def pad (m : List UInt8) : List UInt8 :=
  m ++ 0x80 :: (List.replicate ((119 - m.length % 64) % 64) 0 ++ lengthBytes (8 * m.length))

def digest (s : Fin 8 → UInt32) : Fin 32 → UInt8 := fun i =>
  UInt8.ofNat ((s ⟨i.val / 4, word_lt i⟩).toNat / 2 ^ (8 * (3 - i.val % 4)))

def compressList (s : Fin 8 → UInt32) (block : List UInt8) : Fin 8 → UInt32 :=
  compress s fun i => block.getD i 0

def sha256 (m : List UInt8) : Fin 32 → UInt8 :=
  digest (BlockHash.hashBlocks 64 compressList initial (pad m))

open BlockHash

section Padding

variable {s : Fin 8 → UInt32} {b b' : Nat → UInt8} {m : List UInt8}

theorem schedule_of_lt (ht : t < 16) : schedule b t = word b t := by
  rw [schedule, if_pos ht]

theorem schedule_of_le (ht : 16 ≤ t) : schedule b t =
    smallSigma1 (schedule b (t - 2)) + schedule b (t - 7) + smallSigma0 (schedule b (t - 15)) +
      schedule b (t - 16) := by
  rw [schedule, if_neg (Nat.not_lt.mpr ht)]

theorem schedule_congr (h : ∀ i < 64, b i = b' i) (t : Nat) : schedule b t = schedule b' t := by
  induction t using Nat.strong_induction_on with
  | _ t ih =>
    by_cases ht : t < 16
    · rw [schedule_of_lt ht, schedule_of_lt ht, word, word, h _ (by omega), h _ (by omega),
        h _ (by omega), h _ (by omega)]
    · have hle : 16 ≤ t := Nat.not_lt.mp ht
      rw [schedule_of_le hle, schedule_of_le hle, ih (t - 2) (by omega), ih (t - 7) (by omega),
        ih (t - 15) (by omega), ih (t - 16) (by omega)]

theorem compress_congr (h : ∀ i < 64, b i = b' i) : compress s b = compress s b' := by
  unfold compress
  simp only [schedule_congr h]

@[simp] theorem length_lengthBytes (n : Nat) : (lengthBytes n).length = 8 := by
  simp [lengthBytes]

theorem absorb_initial (m : List UInt8) : absorb 64 compressList (initial, []) m =
    (hashBlocks 64 compressList initial m, m.drop (64 * (m.length / 64))) :=
  absorb_eq (by decide) m

theorem length_absorb_initial (m : List UInt8) :
    (absorb 64 compressList (initial, []) m).2.length < 64 :=
  length_absorb_lt (show ([] : List UInt8).length < 64 by decide)

/-- The hash value of a message from that of its whole blocks and the bytes that are left: one more
block when the length fits behind them, and two otherwise. -/
theorem hashBlocks_pad (habsorb : absorb 64 compressList (initial, []) m = (h, rest)) :
    hashBlocks 64 compressList initial (pad m) = if rest.length < 56 then
        compressList h (rest ++ 0x80 :: (replicate (55 - rest.length) 0 ++
          lengthBytes (8 * m.length))) else
        compressList (compressList h (rest ++ 0x80 :: replicate (63 - rest.length) 0))
          (replicate 56 0 ++ lengthBytes (8 * m.length)) := by
  have hkept : rest.length = m.length % 64 := by
    have hrest : rest = m.drop (64 * (m.length / 64)) := by
      rw [absorb_eq (by decide)] at habsorb
      exact (Prod.mk.inj habsorb).2.symm
    rw [hrest, length_drop]
    omega
  rw [← absorb_fst (by decide), pad, absorb_append, habsorb, hkept]
  split
  · rename_i hlt
    have hzeros : (119 - m.length % 64) % 64 = 55 - m.length % 64 := by omega
    rw [hzeros, absorb_fill _ (cons_ne_nil _ _)]
    simp only [length_cons, length_append, length_replicate, length_lengthBytes]
    omega
  · -- the marker and the first zeros fill the block
    have hzeros : (119 - m.length % 64) % 64 = 63 - m.length % 64 + 56 := by omega
    rw [hzeros, replicate_add, append_assoc, ← cons_append, absorb_append,
      absorb_fill _ (cons_ne_nil _ _), absorb_fill _ (by simp), nil_append]
    · simp
    · simp only [length_cons, length_replicate]
      omega

end Padding

end Six.Lib.Sha256
