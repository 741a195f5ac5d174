import Six.Base.Digest
import Six.Lib.Sha256

/-! The block function of SHA-256 as the source has it, five times over: `sha256_transform` in
`drivers/block/dm.c` and in `applications/ota/ota.c`, `ufs_sha256_transform` in
`drivers/block/ufshcd.c`, `erofs_sha256_transform` in `fs/erofs/super.c` and `fwupd_sha256_block` in
`include/linux/fwupd.h`.  The five functions and their tables are the same text. -/

namespace Six.Hash

open Lib Sha256 List UInt32

def rotr32 (v c : UInt32) : UInt32 := (v >>> c) ||| (v <<< (32 - c))

def sha256K : List UInt32 :=
  [0x428a2f98, 0x71374491, 0xb5c0fbcf, 0xe9b5dba5, 0x3956c25b, 0x59f111f1, 0x923f82a4, 0xab1c5ed5,
    0xd807aa98, 0x12835b01, 0x243185be, 0x550c7dc3, 0x72be5d74, 0x80deb1fe, 0x9bdc06a7, 0xc19bf174,
    0xe49b69c1, 0xefbe4786, 0x0fc19dc6, 0x240ca1cc, 0x2de92c6f, 0x4a7484aa, 0x5cb0a9dc, 0x76f988da,
    0x983e5152, 0xa831c66d, 0xb00327c8, 0xbf597fc7, 0xc6e00bf3, 0xd5a79147, 0x06ca6351, 0x14292967,
    0x27b70a85, 0x2e1b2138, 0x4d2c6dfc, 0x53380d13, 0x650a7354, 0x766a0abb, 0x81c2c92e, 0x92722c85,
    0xa2bfe8a1, 0xa81a664b, 0xc24b8b70, 0xc76c51a3, 0xd192e819, 0xd6990624, 0xf40e3585, 0x106aa070,
    0x19a4c116, 0x1e376c08, 0x2748774c, 0x34b0bcb5, 0x391c0cb3, 0x4ed8aa4a, 0x5b9cca4f, 0x682e6ff3,
    0x748f82ee, 0x78a5636f, 0x84c87814, 0x8cc70208, 0x90befffa, 0xa4506ceb, 0xbef9a3f7, 0xc67178f2]

def initState : Fin 8 → UInt32 := fun i =>
  [0x6a09e667, 0xbb67ae85, 0x3c6ef372, 0xa54ff53a, 0x510e527f, 0x9b05688c, 0x1f83d9ab,
    0x5be0cd19].getD i 0

def loadWord (block : Nat → UInt8) (i : Nat) : UInt32 :=
  ((block (i * 4 + 0)).toUInt32 <<< 24) ||| ((block (i * 4 + 1)).toUInt32 <<< 16) |||
    ((block (i * 4 + 2)).toUInt32 <<< 8) ||| (block (i * 4 + 3)).toUInt32

def expand (w : List UInt32) (i : Nat) : List UInt32 :=
  let w15 := w.getD (i - 15) 0
  let w2 := w.getD (i - 2) 0
  let s0 := rotr32 w15 7 ^^^ rotr32 w15 18 ^^^ (w15 >>> 3)
  let s1 := rotr32 w2 17 ^^^ rotr32 w2 19 ^^^ (w2 >>> 10)
  w ++ [w.getD (i - 16) 0 + s0 + w.getD (i - 7) 0 + s1]

def words (block : Nat → UInt8) : List UInt32 :=
  (List.range' 16 48).foldl expand ((List.range 16).map (loadWord block))

def round (w : List UInt32) (v : Vars) (i : Nat) : Vars :=
  let s1 := rotr32 v.e 6 ^^^ rotr32 v.e 11 ^^^ rotr32 v.e 25
  let ch := (v.e &&& v.f) ^^^ (~~~v.e &&& v.g)
  let s0 := rotr32 v.a 2 ^^^ rotr32 v.a 13 ^^^ rotr32 v.a 22
  let maj := (v.a &&& v.b) ^^^ (v.a &&& v.c) ^^^ (v.b &&& v.c)
  let t1 := v.h + s1 + ch + sha256K.getD i 0 + w.getD i 0
  let t2 := s0 + maj
  ⟨t1 + t2, v.a, v.b, v.c, v.d + t1, v.e, v.f, v.g⟩

def sha256Transform (state : Fin 8 → UInt32) (block : Nat → UInt8) : Fin 8 → UInt32 :=
  let v := (List.range 64).foldl (round (words block)) (Vars.ofWords state)
  fun i => state i + v.words i

def outDigest (state : Fin 8 → UInt32) : Digest := fun i =>
  ((state ⟨i / 4, word_lt i⟩ >>> (24 - 8 * UInt32.ofNat (i % 4))) &&& 0xff).toUInt8

theorem initState_eq : initState = initial := rfl

theorem or_eq_add (hx : 2 ^ k ∣ x.toNat) (hy : y.toNat < 2 ^ k) :
    x ||| y = ofNat (x.toNat + y.toNat) := by
  obtain ⟨q, hq⟩ := hx
  have hor : x.toNat ||| y.toNat = x.toNat + y.toNat := by
    rw [hq, Nat.two_pow_add_eq_or_of_lt hy]
  rw [← hor, ← UInt32.toNat_or, UInt32.ofNat_toNat]

theorem toNat_byte_shiftLeft (b : UInt8) (hk : k ≤ 24) :
    (b.toUInt32 <<< ofNat k).toNat = b.toNat * 2 ^ k := by
  have hb := b.toNat_lt
  have hpow : 2 ^ k ≤ 2 ^ 24 := Nat.pow_le_pow_right (by decide) hk
  have hmul : b.toNat * 2 ^ k < 2 ^ 8 * 2 ^ 24 := Nat.mul_lt_mul_of_lt_of_le hb hpow (by decide)
  have hshift : k % 2 ^ 32 % 32 = k := by omega
  rw [UInt32.toNat_shiftLeft, UInt8.toNat_toUInt32, toNat_ofNat', hshift, Nat.shiftLeft_eq,
    Nat.mod_eq_of_lt (by omega)]

theorem loadWord_eq (block : Nat → UInt8) (i : Nat) : loadWord block i = word block i := by
  rw [loadWord, word, Nat.mul_comm 4 i, Nat.add_zero]
  generalize block (i * 4) = a
  generalize block (i * 4 + 1) = b
  generalize block (i * 4 + 2) = c
  generalize block (i * 4 + 3) = d
  have ha := a.toNat_lt
  have hb := b.toNat_lt
  have hc := c.toNat_lt
  have hd := d.toNat_lt
  have h24 : (a.toUInt32 <<< (24 : UInt32)).toNat = a.toNat * 2 ^ 24 :=
    toNat_byte_shiftLeft a (by decide)
  have h16 : (b.toUInt32 <<< (16 : UInt32)).toNat = b.toNat * 2 ^ 16 :=
    toNat_byte_shiftLeft b (by decide)
  have h8 : (c.toUInt32 <<< (8 : UInt32)).toNat = c.toNat * 2 ^ 8 :=
    toNat_byte_shiftLeft c (by decide)
  have hd' : d.toUInt32.toNat = d.toNat := UInt8.toNat_toUInt32 d
  have hab : (a.toUInt32 <<< 24) ||| (b.toUInt32 <<< 16) =
      ofNat (a.toNat * 2 ^ 24 + b.toNat * 2 ^ 16) := by
    rw [or_eq_add (k := 24) (h24 ▸ Nat.dvd_mul_left ..) (by omega), h24, h16]
  have hnat : (ofNat (a.toNat * 2 ^ 24 + b.toNat * 2 ^ 16)).toNat =
      a.toNat * 2 ^ 24 + b.toNat * 2 ^ 16 := by
    rw [toNat_ofNat']
    omega
  have habc : (a.toUInt32 <<< 24) ||| (b.toUInt32 <<< 16) ||| (c.toUInt32 <<< 8) =
      ofNat (a.toNat * 2 ^ 24 + b.toNat * 2 ^ 16 + c.toNat * 2 ^ 8) := by
    rw [hab, or_eq_add (k := 16) (by rw [hnat]; omega) (by omega), hnat, h8]
  have hnat' : (ofNat (a.toNat * 2 ^ 24 + b.toNat * 2 ^ 16 + c.toNat * 2 ^ 8)).toNat =
      a.toNat * 2 ^ 24 + b.toNat * 2 ^ 16 + c.toNat * 2 ^ 8 := by
    rw [toNat_ofNat']
    omega
  rw [habc, or_eq_add (k := 8) (by rw [hnat']; omega) (by omega), hnat', hd']

theorem expand_sum (w16 w15 w7 w2 : UInt32) :
    w16 + (rotr32 w15 7 ^^^ rotr32 w15 18 ^^^ (w15 >>> 3)) + w7 +
        (rotr32 w2 17 ^^^ rotr32 w2 19 ^^^ (w2 >>> 10)) =
      smallSigma1 w2 + w7 + smallSigma0 w15 + w16 := by
  change w16 + smallSigma0 w15 + w7 + smallSigma1 w2 = _
  ac_rfl

theorem foldl_expand (block : Nat → UInt8) (n : Nat) :
    (range' 16 n).foldl expand ((range 16).map (loadWord block)) =
      (range (16 + n)).map (schedule block) := by
  induction n with
  | zero =>
    refine map_congr_left fun i hi => ?_
    rw [loadWord_eq, schedule_of_lt (mem_range.mp hi)]
  | succ n ih =>
    have hget : ∀ j < 16 + n, ((range (16 + n)).map (schedule block)).getD j 0 =
        schedule block j := by
      intro j hj
      rw [getD_eq_getElem?_getD, getElem?_map, getElem?_range hj]
      rfl
    rw [range'_concat, foldl_append, ih, Nat.one_mul, foldl_cons, foldl_nil,
      expand, hget _ (by omega), hget _ (by omega), hget _ (by omega), hget _ (by omega),
      expand_sum, ← schedule_of_le (Nat.le_add_right 16 n), ← Nat.add_assoc, range_succ,
      map_append, map_singleton]

theorem getD_words (hi : i < 64) : (words block).getD i 0 = schedule block i := by
  rw [words, foldl_expand, getD_eq_getElem?_getD, getElem?_map, getElem?_range hi]
  rfl

theorem sha256Transform_eq (state : Fin 8 → UInt32) (block : Nat → UInt8) :
    sha256Transform state block = compress state block := by
  have hrounds : (range 64).foldl (round (words block)) (Vars.ofWords state) =
      (range 64).foldl (fun v t => v.round (constants.getD t 0) (schedule block t))
        (Vars.ofWords state) := by
    refine foldl_ext _ _ _ fun v i hi => ?_
    rw [round, getD_words (mem_range.mp hi)]
    rfl
  funext i
  rw [sha256Transform, compress, hrounds]
  exact UInt32.add_comm _ _

theorem outDigest_eq (state : Fin 8 → UInt32) : outDigest state = digest state := by
  funext i
  rw [outDigest, digest]
  have hk : i.val % 4 < 4 := Nat.mod_lt _ (by decide)
  generalize state ⟨i.val / 4, _⟩ = x
  generalize i.val % 4 = k at hk
  apply UInt8.toNat_inj.mp
  have hshift : (24 - 8 * ofNat k).toNat = 8 * (3 - k) := by
    obtain rfl | rfl | rfl | rfl : k = 0 ∨ k = 1 ∨ k = 2 ∨ k = 3 := by omega
    all_goals rfl
  have hmask : (0xff : UInt32).toNat = 2 ^ 8 - 1 := rfl
  have hsmall : 8 * (3 - k) % 32 = 8 * (3 - k) := by omega
  rw [toNat_toUInt8, UInt32.toNat_and, UInt32.toNat_shiftRight, hshift, hsmall, hmask,
    Nat.and_two_pow_sub_one_eq_mod, Nat.mod_mod, Nat.shiftRight_eq_div_pow, UInt8.toNat_ofNat']

end Six.Hash
