import Six.Hash.Transform

/-! The functions of the source that hash messages of a fixed length: `dm_sha256_salted_1k` in
`drivers/block/dm.c`, and those of `fs/erofs/super.c`.  Arrays are indexed by numbers; `byteAt`
reads one. -/

namespace Six.Hash

open Lib Sha256 BlockHash List

def byteAt {n : Nat} (a : Fin n → UInt8) (i : Nat) : UInt8 := if h : i < n then a ⟨i, h⟩ else 0

def bytes {n : Nat} (a : Fin n → UInt8) : List UInt8 := (List.finRange n).map a

def transformAll (k : Nat) (f : Nat → Nat → UInt8) (state : Fin 8 → UInt32) : Fin 8 → UInt32 :=
  (List.range k).foldl (fun state i => sha256Transform state (f i)) state

def dmSha256Salted1k (salt : Digest) (blk : Fin 1024 → UInt8) : Digest :=
  -- the salt and the first 32 bytes of the block
  let state := sha256Transform initState fun j =>
    if j < 32 then byteAt salt j else byteAt blk (j - 32)
  let state := transformAll 15 (fun i j => byteAt blk (32 + i * 64 + j)) state
  -- the last 32 bytes, the marker, and the length 0x2100
  outDigest (sha256Transform state fun j =>
    if j < 32 then byteAt blk (992 + j) else if j = 32 then 0x80 else if j = 62 then 0x21 else 0)

def erofsSha256Plain1k (blk : Fin 1024 → UInt8) : Digest :=
  let state := transformAll 16 (fun i j => byteAt blk (i * 64 + j)) initState
  outDigest (sha256Transform state fun j => if j = 0 then 0x80 else if j = 62 then 0x20 else 0)

/-- `erofs_verity_precompute_salt`: the array `verity_init_state` for a salt. -/
def erofsVerityPrecomputeSalt (salt : Digest) : Fin 8 → UInt32 :=
  sha256Transform initState fun j => if j < 32 then byteAt salt j else 0

def erofsVerityHash1k (verityInitState : Fin 8 → UInt32) (blk : Fin 1024 → UInt8) : Digest :=
  let state := transformAll 16 (fun i j => byteAt blk (i * 64 + j)) verityInitState
  outDigest (sha256Transform state fun j => if j = 0 then 0x80 else if j = 62 then 0x22 else 0)

section Arrays

variable {n : Nat}

@[simp] theorem length_bytes (a : Fin n → UInt8) : (bytes a).length = n := by simp [bytes]

theorem getD_bytes (a : Fin n → UInt8) (i : Nat) : (bytes a).getD i 0 = byteAt a i := by
  rw [getD_eq_getElem?_getD, byteAt]
  split
  · rename_i hi
    rw [bytes, getElem?_map, getElem?_eq_getElem (by simpa using hi), getElem_finRange]
    rfl
  · rename_i hi
    rw [getElem?_eq_none (by simpa using hi)]
    rfl

end Arrays

section Messages

variable {m : List UInt8} {k : Nat} {f : Nat → Nat → UInt8} {last : Nat → UInt8}

theorem getD_block (hj : j < 64) : (block 64 m i).getD j 0 = m.getD (64 * i + j) 0 := by
  rw [block, getD_eq_getElem?_getD, getD_eq_getElem?_getD, getElem?_take_of_lt hj, getElem?_drop]

theorem transformAll_eq (hk : m.length / 64 = k)
    (hf : ∀ i < k, ∀ j < 64, f i j = m.getD (64 * i + j) 0) :
    transformAll k f initState = hashBlocks 64 compressList initial m := by
  rw [transformAll, hashBlocks, hk, initState_eq]
  refine foldl_ext _ _ _ fun s i hi => ?_
  rw [sha256Transform_eq, compressList]
  exact compress_congr fun j hj => by rw [hf i (mem_range.mp hi) j hj, getD_block hj]

theorem transformAll_succ (k : Nat) (f : Nat → Nat → UInt8) (state : Fin 8 → UInt32) :
    transformAll (k + 1) f state =
      transformAll k (fun i => f (i + 1)) (sha256Transform state (f 0)) := by
  rw [transformAll, transformAll, range_succ_eq_map, foldl_cons, foldl_map]

/-- A function that goes through the whole blocks of a message, and then through one block with the
rest, the marker and the length, returns the digest of the message. -/
theorem outDigest_last (hlen : m.length = 64 * k + r) (hr : r < 56)
    (hf : ∀ i < k, ∀ j < 64, f i j = m.getD (64 * i + j) 0)
    (hrest : ∀ j < r, last j = m.getD (64 * k + j) 0) (htail : ∀ j < 64 - r, last (r + j) =
      (0x80 :: (replicate (55 - r) 0 ++ lengthBytes (8 * m.length))).getD j 0) :
    outDigest (sha256Transform (transformAll k f initState) last) = sha256 m := by
  have hk : m.length / 64 = k := by omega
  have hkept : (m.drop (64 * k)).length = r := by
    rw [length_drop]
    omega
  have hpad := hashBlocks_pad (absorb_initial m)
  rw [hk, hkept, if_pos hr] at hpad
  rw [transformAll_eq hk hf, sha256Transform_eq, outDigest_eq, sha256, hpad, compressList]
  refine congrArg digest (compress_congr fun j hj => ?_)
  by_cases hjr : j < r
  · rw [hrest j hjr, getD_append _ _ _ _ (by omega), getD_eq_getElem?_getD,
      getD_eq_getElem?_getD, getElem?_drop]
  · have hsplit : last j = last (r + (j - r)) := by
      rw [Nat.add_sub_cancel' (Nat.le_of_not_lt hjr)]
    rw [hsplit, htail (j - r) (by omega), getD_append_right _ _ _ _ (by omega), hkept]

end Messages

theorem getD_digest_append (salt : Digest) (l : List UInt8) (i : Nat) :
    (salt.bytes ++ l).getD i 0 = if i < 32 then byteAt salt i else l.getD (i - 32) 0 := by
  split
  · rename_i hi
    rw [getD_append _ _ _ _ (by simpa using hi)]
    exact getD_bytes salt i
  · rename_i hi
    rw [getD_append_right _ _ _ _ (by simpa using hi), Digest.length_bytes]

theorem dmSha256Salted1k_eq (salt : Digest) (blk : Fin 1024 → UInt8) :
    dmSha256Salted1k salt blk = sha256 (salt.bytes ++ bytes blk) := by
  have hlen : (salt.bytes ++ bytes blk).length = 64 * 16 + 32 := by simp
  have htail : ∀ j < 32, (if j = 0 then (0x80 : UInt8) else if j = 30 then 0x21 else 0) =
      (0x80 :: (replicate 23 0 ++ lengthBytes 8448)).getD j 0 := by decide
  -- the salt block is the first one of 16
  have hstate := (transformAll_succ 15 (fun i j => if i = 0 then
    (if j < 32 then byteAt salt j else byteAt blk (j - 32)) else byteAt blk (32 + (i - 1) * 64 + j))
    initState).symm
  simp only [Nat.add_one_ne_zero, if_false, if_true, Nat.add_sub_cancel] at hstate
  rw [dmSha256Salted1k, hstate]
  refine outDigest_last hlen (by decide) (fun i _ j hj => ?_) (fun j hj => ?_) fun j hj => ?_
  · rw [getD_digest_append, getD_bytes]
    split
    · rename_i hi
      rw [hi, Nat.mul_zero, Nat.zero_add]
    · rename_i hi
      rw [if_neg (by omega)]
      exact congrArg (byteAt blk) (by omega)
  · rw [if_pos hj, getD_digest_append, if_neg (by omega), getD_bytes]
    exact congrArg (byteAt blk) (by omega)
  · rw [hlen, ← htail j hj, if_neg (by omega)]
    simp only [show (32 + j = 32) = (j = 0) by simp, show (32 + j = 62) = (j = 30) by simp; omega]

theorem erofsSha256Plain1k_eq (blk : Fin 1024 → UInt8) :
    erofsSha256Plain1k blk = sha256 (bytes blk) := by
  have hlen : (bytes blk).length = 64 * 16 + 0 := by simp
  have htail : ∀ j < 64, (if j = 0 then (0x80 : UInt8) else if j = 62 then 0x20 else 0) =
      (0x80 :: (replicate 55 0 ++ lengthBytes 8192)).getD j 0 := by decide
  refine outDigest_last hlen (by decide) (fun i _ j _ => ?_) (fun j hj => ?_) fun j hj => ?_
  · rw [getD_bytes, Nat.mul_comm]
  · exact absurd hj (Nat.not_lt_zero j)
  · rw [hlen, ← htail j hj, Nat.zero_add]

theorem erofsVerityHash1k_eq (salt : Digest) (blk : Fin 1024 → UInt8) :
    erofsVerityHash1k (erofsVerityPrecomputeSalt salt) blk =
      sha256 (salt.bytes ++ (replicate 32 0 ++ bytes blk)) := by
  have hlen : (salt.bytes ++ (replicate 32 0 ++ bytes blk)).length = 64 * 17 + 0 := by simp
  have htail : ∀ j < 64, (if j = 0 then (0x80 : UInt8) else if j = 62 then 0x22 else 0) =
      (0x80 :: (replicate 55 0 ++ lengthBytes 8704)).getD j 0 := by decide
  have hstate := (transformAll_succ 16 (fun i j => if i = 0 then
    (if j < 32 then byteAt salt j else 0) else byteAt blk ((i - 1) * 64 + j)) initState).symm
  simp only [Nat.add_one_ne_zero, if_false, if_true, Nat.add_sub_cancel] at hstate
  rw [erofsVerityHash1k, erofsVerityPrecomputeSalt, hstate]
  refine outDigest_last hlen (by decide) (fun i _ j hj => ?_) (fun j hj => ?_) fun j hj => ?_
  · rw [getD_digest_append]
    split
    · rename_i hi
      rw [hi, Nat.mul_zero, Nat.zero_add]
      split
      · rfl
      · rename_i hsalt
        rw [getD_append _ _ _ _ (by rw [length_replicate]; omega), getD_replicate _ (by omega)]
    · rename_i hi
      rw [if_neg (by omega), getD_append_right _ _ _ _ (by rw [length_replicate]; omega),
        length_replicate, getD_bytes]
      exact congrArg (byteAt blk) (by omega)
  · exact absurd hj (Nat.not_lt_zero j)
  · rw [hlen, ← htail j hj, Nat.zero_add]

end Six.Hash
