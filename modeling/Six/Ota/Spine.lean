import Six.Lib.File
import Six.Dm.VerityComplete

/-! The two incremental updates of a verity slice: `update_verity_block_and_spine` of
`applications/ota/ota.c`, which works on `/dev/hdd`, and `update_verity_1k_and_merkle_spine` of
`port/image/mkotazip.py`, which works on a byte array.  `spineUpdate` is their walk. -/

namespace Six.Ota

open Lib Dm Function List Block File

def patch (b : Block) (off : Nat) (d : Digest) : Block := fun i =>
  if h : off ≤ i.val ∧ i.val < off + 32 then d ⟨i - off, by omega⟩ else b i

theorem patch_slot (b : Block) (s : Nat) (d : Digest) : patch b (s * 32) d = b.setSlot s d := by
  funext i
  by_cases hs : i.val / 32 = s
  · have hin : s * 32 ≤ i.val ∧ i.val < s * 32 + 32 := by omega
    have hmod : i.val - s * 32 = i.val % 32 := by omega
    simp [patch, setSlot, hs, hin, hmod]
  · have hout : ¬(s * 32 ≤ i.val ∧ i.val < s * 32 + 32) := by omega
    simp [patch, setSlot, hs, hout]

/-- The blocks of a slice over `n` data blocks after data block `b` becomes `x`, and the root
hash. -/
def spineUpdate (p : VerityParams) (n : Nat) (g : Nat → Block) (b : Nat) (x : Block) :
    (Nat → Block) × Digest :=
  let hash := p.sha256Salted1k (sbSalt (g n))
  let l0 := (g (n + 17 + b / 32)).setSlot (b % 32) (hash x)
  let l1 := (g (n + 2 + b / 1024)).setSlot (b / 32 % 32) (hash l0)
  let l2 := (g (n + 1)).setSlot (b / 1024) (hash l1)
  let g' := update (update (update (update g b x)
    (n + 17 + b / 32) l0) (n + 2 + b / 1024) l1) (n + 1) l2
  (update g' n (patch (g n) 108 (hash l2)), hash l2)

section Superblock

variable (n : Nat) (root : Digest) {total k off i b : Nat} {g : Nat → Block} {buf : List UInt8}
  {f : File}

def sbFields : List UInt8 :=
  List.ofFn verityMagic ++ (leBytes 4 1 ++ (leBytes 4 1 ++ (leBytes 4 blockSize ++
    (leBytes 4 blockSize ++ (leBytes 4 n ++ (leBytes 4 n ++
    (leBytes 4 l0OffsetBlocks ++ (leBytes 4 l1OffsetBlocks ++ (leBytes 4 l2OffsetBlocks ++
    ([115, 104, 97, 50, 53, 54] ++ List.replicate 26 0))))))))))

def sbFront : List UInt8 := sbFields n ++ salt.bytes

theorem length_sbFields : (sbFields n).length = 76 := by
  simp [sbFields]

theorem length_sbFront : (sbFront n).length = 108 := by
  simp [sbFront, length_sbFields]

theorem sbHeader_eq : sbHeader n root = sbFront n ++ root.bytes := by
  simp only [sbHeader, sbFront, sbFields, append_assoc]

theorem sbBlock_apply (i : Fin 1024) :
    sbBlock n root i = if h : 108 ≤ i.val ∧ i.val < 140 then root ⟨i - 108, by omega⟩
      else (sbFront n).getD i 0 := by
  have hlen := length_sbFront n
  rw [sbBlock, ofBytes, sbHeader_eq, Nat.zero_add, getD_eq_getElem?_getD, getD_eq_getElem?_getD]
  by_cases hfront : i.val < 108
  · rw [getElem?_append_left (by omega), dif_neg (by omega)]
  · rw [getElem?_append_right (by omega), hlen]
    by_cases hroot : i.val < 140
    · rw [dif_pos (by omega), Digest.bytes, getElem?_map, getElem?_eq_getElem (by simp; omega)]
      simp
    · rw [dif_neg (by omega), getElem?_eq_none (by simp; omega), getElem?_eq_none (by omega)]

theorem patch_sbBlock (root' : Digest) : patch (sbBlock n root) 108 root' = sbBlock n root' := by
  funext i
  rw [patch, sbBlock_apply, sbBlock_apply]
  by_cases hin : 108 ≤ i.val ∧ i.val < 140
  · simp [hin]
  · simp [hin]

theorem sbMagic_sbBlock : sbMagic (sbBlock n root) = verityMagic := by
  funext i
  have hlen : i.val < (ofFn verityMagic).length := by simp
  rw [sbMagic, sbBlock_apply, dif_neg (by dsimp only; omega), getD_eq_getElem?_getD, sbFront,
    sbFields, append_assoc, getElem?_append_left hlen, getElem?_eq_getElem hlen,
    List.getElem_ofFn]
  rfl

theorem sbSalt_sbBlock : sbSalt (sbBlock n root) = salt := by
  have hat := Digest.at_append (d := salt) (length_sbFields n) []
  rw [append_nil] at hat
  refine Eq.trans (funext fun i => ?_) hat
  rw [sbSalt, sbBlock_apply, dif_neg (by dsimp only; omega)]
  rfl

end Superblock

section Layout

variable (p : VerityParams) (data : Nat → Block) {n b : Nat} (x : Block)

theorem l0Block_update : l0Block p (update data b x) =
    update (l0Block p data) (b / 32) ((l0Block p data (b / 32)).setSlot (b % 32) (hashBlock p x)) :=
  slots.level_update (hashBlock p) data x (by decide)

section

variable (hb : b / 1024 < n / 1024)
include hb

theorem l1Block_update : l1Block p (update data b x) n =
    update (l1Block p data n) (b / 1024) ((l1Block p data n (b / 1024)).setSlot
      (b / 32 % 32) (hashBlock p (l0Block p (update data b x) (b / 32)))) := by
  have hgroup : b / 1024 = b / 32 / 32 := by omega
  funext j
  have hlevel := congrFun (slots.level_update (hashBlock p) (l0Block p data) (i := b / 32)
    ((l0Block p data (b / 32)).setSlot (b % 32) (hashBlock p x)) (by decide)) j
  rw [← l0Block_update] at hlevel
  by_cases hj : j = b / 1024
  · subst hj
    rw [update_self, l1Block, if_pos hb, hlevel, hgroup, update_self, l1Block,
      if_pos (by omega), l0Block_update, update_self]
    rfl
  · rw [update_of_ne hj, l1Block, l1Block, hlevel, update_of_ne (by omega)]

theorem l2Block_update (hle : n / 1024 ≤ 15) :
    l2Block p (update data b x) n = (l2Block p data n).setSlot (b / 1024)
      (hashBlock p (l1Block p (update data b x) n (b / 1024))) := by
  rw [l2Block, l2Block, setSlot_packSlots _ (by omega)]
  refine packSlots_congr fun s _ => ?_
  by_cases hs : s = b / 1024
  · subst hs
    rw [update_self, if_pos hb]
  · rw [update_of_ne hs, l1Block_update p data x hb, update_of_ne hs]

theorem layout_update_of_ne (hsb : k ≠ n) (hl2 : k ≠ n + 1) (hl1 : k ≠ n + 2 + b / 1024)
    (hl0 : k ≠ n + 17 + b / 32) (hdata : k ≠ b) :
    layout p (update data b x) n k = layout p data n k := by
  unfold layout
  split_ifs
  · rw [update_of_ne hdata]
  · rw [l1Block_update p data x hb, update_of_ne (by omega)]
  · rw [l0Block_update, update_of_ne (by omega)]
  · rfl

theorem spineUpdate_layout (hle : n / 1024 ≤ 15) :
    spineUpdate p n (layout p data n) b x =
      (layout p (update data b x) n, rootHash p (update data b x) n) := by
  have hl0 := congrFun (l0Block_update p data (b := b) x) (b / 32)
  have hl1 := congrFun (l1Block_update p data x hb) (b / 1024)
  have hl2 := l2Block_update p data x hb hle
  have hroot : p.sha256Salted1k salt (l2Block p (update data b x) n) =
    rootHash p (update data b x) n := rfl
  rw [update_self] at hl0 hl1
  unfold hashBlock at hl0 hl1 hl2
  simp only [spineUpdate, layout_sb, sbSalt_sbBlock, patch_sbBlock]
  rw [layout_l0 p data (by omega), layout_l1 p data (by omega), layout_l2, ← hl0, ← hl1, ← hl2,
    hroot]
  refine Prod.ext (funext fun k => ?_) rfl
  dsimp only
  by_cases hk : k = n
  · subst hk
    rw [update_self, layout_sb]
  rw [update_of_ne hk]
  by_cases hk2 : k = n + 1
  · subst hk2
    rw [update_self, layout_l2]
  rw [update_of_ne hk2]
  by_cases hk1 : k = n + 2 + b / 1024
  · subst hk1
    rw [update_self, layout_l1 p _ (by omega)]
  rw [update_of_ne hk1]
  by_cases hk0 : k = n + 17 + b / 32
  · subst hk0
    rw [update_self, layout_l0 p _ (by omega)]
  rw [update_of_ne hk0]
  by_cases hkb : k = b
  · subst hkb
    rw [update_self, layout_data p _ (by omega), update_self]
  rw [update_of_ne hkb, layout_update_of_ne p data x hb hk hk2 hk1 hk0 hkb]

end

end Layout

def fileBlock (f : File) (off : Nat) : Block := fun i => f.byte (off + i)

/-- `read_1k`, with `none` for its result -1. -/
def read1k (hdd : File) (sector : UInt32) : Option Block :=
  let off := (sector * 512).toNat
  if off < 2 ^ 31 ∧ hdd.count off 1024 = 1024 then some (fileBlock hdd off) else none

/-- `write_1k`: whether it succeeds, and the file.  A write that the end of the file cuts short
fails, and what it has written stays. -/
def write1k (hdd : File) (sector : UInt32) (buf : Block) : Bool × File :=
  let off := (sector * 512).toNat
  if off < 2 ^ 31 then
    (hdd.count off 1024 = 1024, hdd.write off 1024 fun i => buf.bytes.getD i 0)
  else (false, hdd)

/-- One level of `update_verity_block_and_spine`: the digest `d` is copied into the hash block at
`sector`, which is returned. -/
def patchHashBlock (hdd : File) (sector : UInt32) (off : Nat) (d : Digest) : Option Block × File :=
  match read1k hdd sector with
  | none => (none, hdd)
  | some blk =>
    let r := write1k hdd sector (patch blk off d)
    if r.1 then (some (patch blk off d), r.2) else (none, r.2)

variable (p : VerityParams)

/-- `update_verity_block_and_spine`: the root hash, or `none` for the result -1, and the file. -/
def updateVerityBlockAndSpine (hdd : File)
    (sliceStartSec hashStartSec blkNr : UInt32) (newData : Block) : Option Digest × File :=
  match read1k hdd hashStartSec with
  | none => (none, hdd)
  | some sbBlk =>
    if sbMagic sbBlk ≠ verityMagic then (none, hdd)
    else
      let hash := p.sha256Salted1k (sbSalt sbBlk)
      let w := write1k hdd (sliceStartSec + (blkNr <<< (1 : UInt32))) newData
      if !w.1 then (none, w.2)
      else match patchHashBlock w.2 (l0Sec hashStartSec blkNr) (l0Off blkNr) (hash newData) with
      | (none, hdd) => (none, hdd)
      | (some l0Blk, hdd) =>
      match patchHashBlock hdd (l1Sec hashStartSec blkNr) (l1Off blkNr) (hash l0Blk) with
      | (none, hdd) => (none, hdd)
      | (some l1Blk, hdd) =>
      match patchHashBlock hdd (l2Sec hashStartSec) (l2Off blkNr) (hash l1Blk) with
      | (none, hdd) => (none, hdd)
      | (some l2Blk, hdd) =>
        let rootHash := hash l2Blk
        let w := write1k hdd hashStartSec (patch sbBlk 108 rootHash)
        if w.1 then (some rootHash, w.2) else (none, w.2)

/-- The file `f` has the blocks `g` from `off` on, and is the file `f0` elsewhere. -/
structure Blocks (f0 f : File) (off total : Nat) (g : Nat → Block) : Prop where
  fits : off + total * 1024 ≤ f.size
  block : ∀ k < total, fileBlock f (off + k * 1024) = g k
  size : f.size = f0.size
  outside : ∀ i, i < off ∨ off + total * 1024 ≤ i → f.byte i = f0.byte i

section Blocks

variable {f0 f : File} {start : UInt32} {total k : Nat} {g : Nat → Block}

theorem Blocks.offset (h : Blocks f0 f (start.toNat * 512) total g) (hk : k < total) :
    ((start + UInt32.ofNat (2 * k)) * 512).toNat = start.toNat * 512 + k * 1024 := by
  have hfits := h.fits
  have hsize := f.size_lt
  simp
  omega

theorem blockEnd_le (off : Nat) (hk : k < total) : off + k * 1024 + 1024 ≤ off + total * 1024 := by
  have hmul : (k + 1) * 1024 ≤ total * 1024 := Nat.mul_le_mul_right _ hk
  rw [Nat.succ_mul] at hmul
  rw [Nat.add_assoc]
  exact Nat.add_le_add_left hmul _

section

variable (h : Blocks f0 f (start.toNat * 512) total g)
include h

theorem Blocks.end_le (hk : k < total) :
    start.toNat * 512 + k * 1024 + 1024 ≤ f.size := Nat.le_trans (blockEnd_le _ hk) h.fits

theorem Blocks.read1k (hk : k < total) : read1k f (start + UInt32.ofNat (2 * k)) = some (g k) := by
  have hend := h.end_le hk
  have hsize := f.size_lt
  rw [Ota.read1k, h.offset hk, count_of_le hend, h.block k hk]
  exact if_pos ⟨by omega, rfl⟩

theorem Blocks.write1k (hk : k < total) (x : Block) :
    ∃ f', write1k f (start + UInt32.ofNat (2 * k)) x = (true, f') ∧
      Blocks f0 f' (start.toNat * 512) total (update g k x) := by
  have hfits := h.fits
  have hsize := f.size_lt
  have hend := h.end_le hk
  refine ⟨f.write (start.toNat * 512 + k * 1024) 1024 fun i => x.bytes.getD i 0, ?_, ?_, ?_, ?_, ?_⟩
  · rw [Ota.write1k, h.offset hk, if_pos (by omega), count_of_le hend]
    simp only [decide_true]
  · exact hfits
  · intro j hj
    funext i
    by_cases hjk : j = k
    · subst hjk
      rw [update_self, fileBlock, write_byte_inside hend (Nat.le_add_right _ _)
        (Nat.add_lt_add_left i.isLt _)]
      have hi : start.toNat * 512 + j * 1024 + i.val - (start.toNat * 512 + j * 1024) = i := by
        omega
      rw [hi, getD_bytes x i.isLt]
    · rw [update_of_ne hjk, fileBlock, write_byte_outside (by omega), ← h.block j hj]
      rfl
  · exact h.size
  · intro i hi
    have hout : i < start.toNat * 512 + k * 1024 ∨ start.toNat * 512 + k * 1024 + 1024 ≤ i :=
      hi.imp (fun hlt => Nat.lt_of_lt_of_le hlt (Nat.le_add_right _ _))
        fun hle => Nat.le_trans (blockEnd_le _ hk) hle
    rw [write_byte_outside hout, h.outside i hi]

theorem Blocks.patchHashBlock (hk : k < total)
    (s : Nat) (d : Digest) : ∃ f', patchHashBlock f (start + UInt32.ofNat (2 * k)) (s * 32) d =
        (some ((g k).setSlot s d), f') ∧
      Blocks f0 f' (start.toNat * 512) total (update g k ((g k).setSlot s d)) := by
  obtain ⟨f', hwrite, hblocks⟩ := h.write1k hk ((g k).setSlot s d)
  refine ⟨f', ?_, hblocks⟩
  simp only [Ota.patchHashBlock, h.read1k hk, patch_slot, hwrite, if_true]

end

theorem Blocks.updateVerityBlockAndSpine
    (h : Blocks f0 f (start.toNat * 512) total g) (hmagic : sbMagic (g n) = verityMagic)
    (hb : blkNr.toNat < n) (hroom : n + 17 + blkNr.toNat / 32 < total)
    (hl1 : blkNr.toNat / 1024 ≤ 15) (x : Block) :
    ∃ f', updateVerityBlockAndSpine p f start (start + UInt32.ofNat (2 * n)) blkNr x =
        (some (spineUpdate p n g blkNr.toNat x).2, f') ∧
      Blocks f0 f' (start.toNat * 512) total (spineUpdate p n g blkNr.toNat x).1 := by
  have hsb := h.read1k (k := n) (by omega)
  obtain ⟨f1, hw1, h1⟩ := h.write1k (k := blkNr.toNat) (by omega) x
  obtain ⟨f2, hw2, h2⟩ := h1.patchHashBlock (k := n + 17 + blkNr.toNat / 32) hroom
    (blkNr.toNat % 32) (p.sha256Salted1k (sbSalt (g n)) x)
  rw [update_of_ne (by omega)] at hw2 h2
  obtain ⟨f3, hw3, h3⟩ := h2.patchHashBlock (k := n + 2 + blkNr.toNat / 1024) (by omega)
    (blkNr.toNat / 32 % 32)
    (p.sha256Salted1k (sbSalt (g n)) ((g (n + 17 + blkNr.toNat / 32)).setSlot
      (blkNr.toNat % 32) (p.sha256Salted1k (sbSalt (g n)) x)))
  rw [update_of_ne (by omega), update_of_ne (by omega)] at hw3 h3
  obtain ⟨f4, hw4, h4⟩ := h3.patchHashBlock (k := n + 1) (by omega) (blkNr.toNat / 1024)
    (p.sha256Salted1k (sbSalt (g n)) ((g (n + 2 + blkNr.toNat / 1024)).setSlot
      (blkNr.toNat / 32 % 32) (p.sha256Salted1k (sbSalt (g n))
        ((g (n + 17 + blkNr.toNat / 32)).setSlot (blkNr.toNat % 32)
          (p.sha256Salted1k (sbSalt (g n)) x)))))
  rw [update_of_ne (by omega), update_of_ne (by omega), update_of_ne (by omega)] at hw4 h4
  obtain ⟨f5, hw5, h5⟩ := h4.write1k (k := n) (by omega)
    (patch (g n) 108 (spineUpdate p n g blkNr.toNat x).2)
  refine ⟨f5, ?_, h5⟩
  rw [← blkSec_eq] at hw1
  rw [← l0Sec_eq, ← l0Off_eq] at hw2
  rw [← l1Sec_eq, ← l1Off_eq] at hw3
  rw [← l2Sec_eq, ← l2Off_eq (by omega)] at hw4
  simp only [Ota.updateVerityBlockAndSpine, hsb, hmagic, hw1, hw2, hw3, hw4]
  simp only [spineUpdate] at hw5
  simp only [hw5, spineUpdate]
  rfl

end Blocks

/-- The byte array after the assignment `buf[off : off + len(xs)] = xs`. -/
def splice (buf : List UInt8) (off : Nat) (xs : List UInt8) : List UInt8 :=
  buf.take off ++ xs ++ buf.drop (off + xs.length)

/-- `update_verity_1k_and_merkle_spine`: the byte array and the root hash, or `none` for an
exception.  The hash blocks lie inside the byte array. -/
def updateVerity1kAndMerkleSpine (sliceBuf : List UInt8) (hashOffset blkNr : Nat)
    (new1k : Block) : Option (List UInt8 × Digest) :=
  let sbRaw := (sliceBuf.drop hashOffset).take 140
  if sbRaw.length ≠ 140 ∨ sbRaw.take 8 ≠ List.ofFn verityMagic then none
  else
    let hash := p.sha256Salted1k (Digest.at sbRaw 76)
    let buf := splice sliceBuf (blkNr * 1024) new1k.bytes
    let l0BlkOff := hashOffset + (17 + blkNr / 32) * 1024
    let buf := splice buf (l0BlkOff + blkNr % 32 * 32) (hash new1k).bytes
    let l0Hash := hash (Block.ofBytes buf l0BlkOff)
    let l1BlkOff := hashOffset + (2 + blkNr / 1024) * 1024
    let buf := splice buf (l1BlkOff + blkNr / 32 % 32 * 32) l0Hash.bytes
    let l1Hash := hash (Block.ofBytes buf l1BlkOff)
    let l2BlkOff := hashOffset + 1024
    let buf := splice buf (l2BlkOff + blkNr / 1024 * 32) l1Hash.bytes
    let rootHash := hash (Block.ofBytes buf l2BlkOff)
    some (splice buf hashOffset (sbRaw.take 108 ++ rootHash.bytes), rootHash)

structure ListBlocks (buf : List UInt8) (total : Nat) (g : Nat → Block) : Prop where
  length : buf.length = total * 1024
  block : ∀ k < total, Block.ofBytes buf (k * 1024) = g k

section ListBlocks

variable {buf xs : List UInt8} {total off k : Nat} {g : Nat → Block}

theorem length_splice (h : off + xs.length ≤ buf.length) :
    (splice buf off xs).length = buf.length := by
  simp only [splice, length_append, length_take, length_drop]
  omega

theorem getD_splice (h : off + xs.length ≤ buf.length) (i : Nat) :
    (splice buf off xs).getD i 0 =
      if off ≤ i ∧ i < off + xs.length then xs.getD (i - off) 0 else buf.getD i 0 := by
  have htake : (buf.take off).length = off := by
    rw [length_take]
    omega
  simp only [splice, getD_eq_getElem?_getD, append_assoc]
  by_cases hlo : i < off
  · rw [getElem?_append_left (by omega), getElem?_take_of_lt hlo, if_neg (by omega)]
  · rw [getElem?_append_right (by omega), htake]
    by_cases hhi : i < off + xs.length
    · rw [getElem?_append_left (by omega), if_pos (by omega)]
    · rw [getElem?_append_right (by omega), getElem?_drop, if_neg (by omega)]
      congr 2
      omega

theorem ListBlocks.splice (h : ListBlocks buf total g) (hk : k < total)
    (hin : off + xs.length ≤ 1024) (hb : ∀ i : Fin 1024, b i =
      if off ≤ i.val ∧ i.val < off + xs.length then xs.getD (i - off) 0 else g k i) :
    ListBlocks (splice buf (k * 1024 + off) xs) total (update g k b) := by
  have hlen := h.length
  have hend : k * 1024 + off + xs.length ≤ buf.length := by
    omega
  refine ⟨(length_splice hend).trans hlen, fun j hj => ?_⟩
  funext i
  rw [ofBytes, getD_splice hend]
  by_cases hjk : j = k
  · subst hjk
    have hoff : j * 1024 + i.val - (j * 1024 + off) = i - off := by omega
    have hiff : j * 1024 + off ≤ j * 1024 + i.val ∧
        j * 1024 + i.val < j * 1024 + off + xs.length ↔ off ≤ i.val ∧ i.val < off + xs.length := by
      omega
    rw [update_self, hb i, ← h.block j hj, hoff, if_congr hiff rfl rfl]
    rfl
  · have hout : ¬(k * 1024 + off ≤ j * 1024 + i.val ∧
        j * 1024 + i.val < k * 1024 + off + xs.length) := by omega
    rw [update_of_ne hjk, if_neg hout, ← h.block j hj]
    rfl

theorem ListBlocks.splice_block (h : ListBlocks buf total g) (hk : k < total) (x : Block) :
    ListBlocks (Ota.splice buf (k * 1024) x.bytes) total (update g k x) := by
  rw [← Nat.add_zero (k * 1024)]
  refine h.splice hk (by simp) fun i => ?_
  rw [if_pos (by simp), Nat.sub_zero, getD_bytes x i.isLt]

theorem getD_digest (d : Digest) (h : i < 32) : d.bytes.getD i 0 = d ⟨i, h⟩ := by
  simp [Digest.bytes, getD_eq_getElem?_getD, h]

section

variable (h : ListBlocks buf total g) (hk : k < total)
include h hk

theorem ListBlocks.splice_slot
    (hs : s < 32) (d : Digest) : ListBlocks (Ota.splice buf (k * 1024 + s * 32) d.bytes) total
      (update g k ((g k).setSlot s d)) := by
  refine h.splice hk (by simp; omega) fun i => ?_
  rw [← patch_slot, patch, Digest.length_bytes]
  by_cases hin : s * 32 ≤ i.val ∧ i.val < s * 32 + 32
  · rw [dif_pos hin, if_pos hin, getD_digest d (by omega)]
  · rw [dif_neg hin, if_neg hin]

theorem ListBlocks.getD_sbRaw (hi : i < 140) :
    ((buf.drop (k * 1024)).take 140).getD i 0 = g k ⟨i, by omega⟩ := by
  rw [← h.block k hk, getD_eq_getElem?_getD, getElem?_take_of_lt hi, getElem?_drop,
    ← getD_eq_getElem?_getD]
  rfl

theorem ListBlocks.length_sbRaw : ((buf.drop (k * 1024)).take 140).length = 140 := by
  have hlen := h.length
  rw [length_take, length_drop]
  omega

theorem ListBlocks.take_sbRaw :
    ((buf.drop (k * 1024)).take 140).take 8 = ofFn (sbMagic (g k)) := by
  have hlen := h.length_sbRaw hk
  refine ext_getElem (by simp [hlen]) fun i hi hi' => ?_
  have hi8 : i < 8 := by simpa using hi'
  have hget := h.getD_sbRaw hk (show i < 140 by omega)
  rw [getD_eq_getElem?_getD, getElem?_eq_getElem (by omega)] at hget
  rw [getElem_take, List.getElem_ofFn]
  exact hget

theorem ListBlocks.at_sbRaw : Digest.at ((buf.drop (k * 1024)).take 140) 76 = sbSalt (g k) := by
  funext i
  exact h.getD_sbRaw hk (by omega)

theorem ListBlocks.splice_sb {sbRaw : List UInt8} (hlen : sbRaw.length = 140)
    (hsb : ∀ i (hi : i < 140), sbRaw.getD i 0 = sb ⟨i, by omega⟩) (hsame : g k = sb)
    (root : Digest) : ListBlocks (Ota.splice buf (k * 1024) (sbRaw.take 108 ++ root.bytes)) total
      (update g k (patch sb 108 root)) := by
  have htake : (sbRaw.take 108).length = 108 := by
    rw [length_take]
    omega
  rw [← Nat.add_zero (k * 1024)]
  refine h.splice hk (by simp [htake]) fun i => ?_
  rw [length_append, htake, Digest.length_bytes, patch, hsame, getD_eq_getElem?_getD, Nat.sub_zero]
  by_cases hfront : i.val < 108
  · rw [dif_neg (by omega), if_pos (by omega), getElem?_append_left (by omega),
      getElem?_take_of_lt hfront, ← getD_eq_getElem?_getD, hsb i (by omega)]
  · by_cases hroot : i.val < 140
    · rw [dif_pos (by omega), if_pos (by omega), getElem?_append_right (by omega), htake,
        ← getD_eq_getElem?_getD, getD_digest root (by omega)]
    · rw [dif_neg (by omega), if_neg (by omega)]

end

theorem ListBlocks.updateVerity1kAndMerkleSpine (h : ListBlocks buf total g)
    (hmagic : sbMagic (g n) = verityMagic) (hb : b < n) (hroom : n + 17 + b / 32 < total)
    (hl1 : b / 1024 ≤ 15) (x : Block) :
    ∃ buf', updateVerity1kAndMerkleSpine p buf (n * 1024) b x =
        some (buf', (spineUpdate p n g b x).2) ∧
      ListBlocks buf' total (spineUpdate p n g b x).1 := by
  have hn : n < total := by omega
  have hlen := h.length_sbRaw hn
  have hfields := h.take_sbRaw hn
  have hsalt := h.at_sbRaw hn
  rw [hmagic] at hfields
  have hoff0 : n * 1024 + (17 + b / 32) * 1024 = (n + 17 + b / 32) * 1024 := by ring
  have hoff1 : n * 1024 + (2 + b / 1024) * 1024 = (n + 2 + b / 1024) * 1024 := by ring
  have hoff2 : n * 1024 + 1024 = (n + 1) * 1024 := by ring
  have h1 := h.splice_block (k := b) (by omega) x
  have h2 := h1.splice_slot (k := n + 17 + b / 32) hroom (Nat.mod_lt b (show 0 < 32 by decide))
    (p.sha256Salted1k (sbSalt (g n)) x)
  rw [update_of_ne (show n + 17 + b / 32 ≠ b by omega)] at h2
  have hl0 := h2.block (n + 17 + b / 32) hroom
  rw [update_self] at hl0
  have h3 := h2.splice_slot (k := n + 2 + b / 1024) (by omega)
    (Nat.mod_lt (b / 32) (show 0 < 32 by decide)) (p.sha256Salted1k (sbSalt (g n))
      ((g (n + 17 + b / 32)).setSlot (b % 32) (p.sha256Salted1k (sbSalt (g n)) x)))
  rw [update_of_ne (by omega), update_of_ne (by omega)] at h3
  have hl1 := h3.block (n + 2 + b / 1024) (by omega)
  rw [update_self] at hl1
  have h4 := h3.splice_slot (k := n + 1) (s := b / 1024) (by omega) (by omega)
    (p.sha256Salted1k (sbSalt (g n)) ((g (n + 2 + b / 1024)).setSlot (b / 32 % 32)
      (p.sha256Salted1k (sbSalt (g n)) ((g (n + 17 + b / 32)).setSlot (b % 32)
        (p.sha256Salted1k (sbSalt (g n)) x)))))
  rw [update_of_ne (by omega), update_of_ne (by omega), update_of_ne (by omega)] at h4
  have hl2 := h4.block (n + 1) (by omega)
  rw [update_self] at hl2
  have h5 := h4.splice_sb hn hlen (fun i hi => h.getD_sbRaw hn hi)
    (by rw [update_of_ne (by omega), update_of_ne (by omega),
      update_of_ne (by omega), update_of_ne (by omega)])
    (spineUpdate p n g b x).2
  refine ⟨_, ?_, h5⟩
  simp only [Ota.updateVerity1kAndMerkleSpine, hlen, hfields, hsalt, hoff0, hoff1, hoff2, hl0, hl1,
    hl2, ne_eq, not_true_eq_false, or_self, ite_false]
  rfl

end ListBlocks

def replaceDataBlock (raw : List UInt8) (n b : Nat) (x : Block) : List UInt8 :=
  splice (padTo raw (n * blockSize)) (b * 1024) x.bytes

theorem dataBlock_replace (raw : List UInt8) (hb : b < n) (x : Block) (hk : k < n) :
    dataBlock (replaceDataBlock raw n b x) n k = update (dataBlock raw n) b x k := by
  have hraw : ListBlocks (padTo raw (n * blockSize)) n (dataBlock raw n) :=
    ⟨length_padTo raw _, fun _ _ => rfl⟩
  have h := hraw.splice_block hb x
  have hpad : padTo (replaceDataBlock raw n b x) (n * blockSize) = replaceDataBlock raw n b x := by
    have hlen : (replaceDataBlock raw n b x).length = n * blockSize := h.length
    rw [padTo, if_neg (by omega), ← hlen, take_length]
  rw [dataBlock, hpad]
  exact h.block k hk

section

variable (p : VerityParams) {n : Nat} {data data' : Nat → Block}

theorem layout_congr (h : ∀ k < n, data k = data' k) : layout p data n = layout p data' n := by
  have hl0 : ∀ j < n / 32, l0Block p data j = l0Block p data' j := by
    intro j hj
    exact slots.level_congr _ _ fun s hs => h (j * 32 + s) (by omega)
  have hl1 : l1Block p data n = l1Block p data' n := by
    funext j
    unfold l1Block
    split
    · exact slots.level_congr _ _ fun s hs => hl0 (j * 32 + s) (by omega)
    · rfl
  have hl2 : l2Block p data n = l2Block p data' n := by rw [l2Block, l2Block, hl1]
  funext k
  unfold layout
  split_ifs
  · exact h k ‹_›
  · rw [rootHash, rootHash, hl2]
  · exact hl2
  · rw [hl1]
  · exact hl0 _ (by omega)
  · rfl

theorem rootHash_congr (h : ∀ k < n, data k = data' k) :
    rootHash p data n = rootHash p data' n := by
  rw [rootHash, rootHash, ← layout_l2, ← layout_l2, layout_congr p h]

end

theorem listBlocks_slice (p : VerityParams) (data : Nat → Block) (n total : Nat) :
    ListBlocks (join ((range total).map (layout p data n))) total (layout p data n) := by
  refine ⟨by simp, fun k hk => ?_⟩
  rw [ofBytes_join (by simpa using hk)]
  simp

theorem ListBlocks.eq_join (h : ListBlocks buf total g) :
    buf = join ((range total).map g) := by
  rw [← join_ofBytes h.length]
  exact congrArg join (map_congr_left fun k hk => h.block k (mem_range.mp hk))

theorem blocks_of_holds (hbuf : ListBlocks buf total g) (h : f.Holds off buf) :
    Blocks f f off total g := by
  have hlen := hbuf.length
  refine ⟨hlen ▸ h.1, fun k hk => ?_, rfl, fun _ _ => rfl⟩
  rw [← hbuf.block k hk]
  funext i
  have hlt : k * 1024 + i.val < buf.length := by
    omega
  rw [fileBlock, Nat.add_assoc, h.byte hlt, ofBytes, getD_eq_getElem?_getD, getElem?_eq_getElem hlt]
  rfl

theorem Blocks.holds (h : Blocks f0 f off total g) :
    f.Holds off (join ((range total).map g)) := by
  have hbytes : ListBlocks (f.bytes off (total * 1024)) total g := by
    refine ⟨by simp, fun k hk => ?_⟩
    rw [← h.block k hk]
    funext i
    have hlt : k * 1024 + i.val < total * 1024 := by
      omega
    simp [ofBytes, File.bytes, hlt, fileBlock, Nat.add_assoc]
  have hlen : (join ((range total).map g)).length = total * 1024 := by simp
  refine ⟨by rw [hlen]; exact h.fits, ?_⟩
  rw [hlen]
  exact hbytes.eq_join

/-- Both updates of a data block in a full group of 1024 blocks leave the slice that the builder
makes from the raw image with the block replaced, and return its root hash. -/
theorem spine_update_eq_rebuild (p : VerityParams) {raw : List UInt8} {n total : Nat}
    {slice : List UInt8} {root : Digest}
    (hbuild : buildVeritySlice p raw n total = some (slice, root))
    {blkNr : UInt32} (hb : blkNr.toNat < n / 1024 * 1024) (x : Block) :
    ∃ slice' root', buildVeritySlice p (replaceDataBlock raw n blkNr.toNat x) n total =
        some (slice', root') ∧
      updateVerity1kAndMerkleSpine p slice (n * 1024) blkNr.toNat x = some (slice', root') ∧
      ∀ (hdd : File) (start : UInt32), hdd.Holds (start.toNat * 512) slice →
        ∃ hdd', updateVerityBlockAndSpine p hdd start (start + UInt32.ofNat (2 * n)) blkNr x =
            (some root', hdd') ∧ hdd'.Holds (start.toNat * 512) slice' ∧ hdd'.size = hdd.size ∧
          ∀ i, i < start.toNat * 512 ∨ start.toNat * 512 + slice.length ≤ i →
            hdd'.byte i = hdd.byte i := by
  rw [buildVeritySlice_eq] at hbuild
  split at hbuild
  case isFalse => cases hbuild
  case isTrue hfits =>
  obtain ⟨rfl, -⟩ := Prod.mk.inj (Option.some.inj hbuild)
  obtain ⟨hle, hroom⟩ := hfits
  have hbn : blkNr.toNat < n := by omega
  have hdata : ∀ k < n, update (dataBlock raw n) blkNr.toNat x k =
      dataBlock (replaceDataBlock raw n blkNr.toNat x) n k :=
    fun k hk => (dataBlock_replace raw hbn x hk).symm
  have hlist := listBlocks_slice p (dataBlock raw n) n total
  have hmagic : sbMagic (layout p (dataBlock raw n) n n) = verityMagic := by
    rw [layout_sb, sbMagic_sbBlock]
  -- the walk gives the layout over the new data
  have hspine : spineUpdate p n (layout p (dataBlock raw n) n) blkNr.toNat x =
      (layout p (dataBlock (replaceDataBlock raw n blkNr.toNat x) n) n,
        rootHash p (dataBlock (replaceDataBlock raw n blkNr.toNat x) n) n) := by
    rw [spineUpdate_layout p _ x (by omega) hle, layout_congr p hdata, rootHash_congr p hdata]
  refine ⟨_, _, by rw [buildVeritySlice_eq, if_pos ⟨hle, hroom⟩], ?_, ?_⟩
  · obtain ⟨buf, hrun, hbuf⟩ := hlist.updateVerity1kAndMerkleSpine p hmagic hbn (by omega)
      (by omega) x
    rw [hspine] at hrun hbuf
    rw [hrun, hbuf.eq_join]
  · intro hdd start hholds
    obtain ⟨hdd', hrun, hblocks⟩ :=
      (blocks_of_holds hlist hholds).updateVerityBlockAndSpine p hmagic
      hbn (by omega) (by omega) x
    rw [hspine] at hrun hblocks
    refine ⟨hdd', hrun, hblocks.holds, hblocks.size, fun i hi => hblocks.outside i ?_⟩
    rwa [hlist.length] at hi

theorem block_five_updated : ∃ slice root slice' root' hdd hdd',
    buildVeritySlice shaParams [1, 2, 3] 1024 1073 = some (slice, root) ∧
      buildVeritySlice shaParams (replaceDataBlock [1, 2, 3] 1024 5 fun _ => 7) 1024 1073 =
        some (slice', root') ∧ File.Holds hdd 0 slice ∧
      updateVerityBlockAndSpine shaParams hdd 0 (0 + UInt32.ofNat (2 * 1024)) 5 (fun _ => 7) =
        (some root', hdd') ∧ hdd'.Holds 0 slice' := by
  have hbuild := buildVeritySlice_eq shaParams [1, 2, 3] 1024 1073
  rw [if_pos (by decide)] at hbuild
  obtain ⟨slice', root', hbuild', -, hfile⟩ := spine_update_eq_rebuild shaParams hbuild
    (show (5 : UInt32).toNat < 1024 by decide) (fun _ => 7)
  have hlen : (join ((range 1073).map (layout shaParams (dataBlock [1, 2, 3] 1024) 1024))).length <
      2 ^ 31 := by
    rw [length_join, length_map, length_range]
    decide
  obtain ⟨hdd', hrun, hholds, -⟩ := hfile (ofList _ hlen) 0 (holds_ofList hlen)
  exact ⟨_, _, slice', root', _, hdd', hbuild, hbuild', holds_ofList hlen, hrun, hholds⟩

theorem spineUpdate_l1 (p : VerityParams) (n : Nat) (g : Nat → Block) (b : Nat) (x : Block) :
    (spineUpdate p n g b x).1 (n + 2 + b / 1024) =
      (g (n + 2 + b / 1024)).setSlot (b / 32 % 32) (p.sha256Salted1k (sbSalt (g n))
        ((g (n + 17 + b / 32)).setSlot (b % 32) (p.sha256Salted1k (sbSalt (g n)) x))) := by
  simp only [spineUpdate]
  rw [update_of_ne (by omega), update_of_ne (by omega), update_self]

/-- A digest that is the first bytes of the block, each larger by one. -/
def headParams : VerityParams :=
  ⟨fun _ b i => b (i.castLE (Nat.le_of_ble_eq_true rfl)) + 1, fun _ => 0⟩

/-- In a slice over 32 data blocks there is no full group of 1024.  The builder leaves the level-1
block zero, and an update of block 5 writes a digest there. -/
theorem update_writes_unbuilt_level1 : ∃ slice root slice' root',
    buildVeritySlice headParams [1, 2, 3] 32 50 = some (slice, root) ∧
      buildVeritySlice headParams (replaceDataBlock [1, 2, 3] 32 5 fun _ => 7) 32 50 =
        some (slice', root') ∧
      updateVerity1kAndMerkleSpine headParams slice (32 * 1024) 5 (fun _ => 7) ≠
        some (slice', root') ∧ ∃ hdd hdd' r, File.Holds hdd 0 slice ∧
        updateVerityBlockAndSpine headParams hdd 0 (0 + UInt32.ofNat (2 * 32)) 5 (fun _ => 7) =
          (some r, hdd') ∧ ¬hdd'.Holds 0 slice' := by
  have hbuild := buildVeritySlice_eq headParams [1, 2, 3] 32 50
  have hbuild' :=
    buildVeritySlice_eq headParams (replaceDataBlock [1, 2, 3] 32 5 fun _ => 7) 32 50
  rw [if_pos (by decide)] at hbuild hbuild'
  have hlist := listBlocks_slice headParams (dataBlock [1, 2, 3] 32) 32 50
  have hlist' := listBlocks_slice headParams
    (dataBlock (replaceDataBlock [1, 2, 3] 32 5 fun _ => 7) 32) 32 50
  have hmagic : sbMagic (layout headParams (dataBlock [1, 2, 3] 32) 32 32) = verityMagic := by
    rw [layout_sb, sbMagic_sbBlock]
  -- byte 0 of block 34, the level-1 block of all data blocks
  have hnew : (spineUpdate headParams 32 (layout headParams (dataBlock [1, 2, 3] 32) 32) 5
      fun _ => 7).1 34 0 = 3 := by
    rw [show 34 = 32 + 2 + 5 / 1024 from rfl, spineUpdate_l1]
    rfl
  have hold : layout headParams (dataBlock (replaceDataBlock [1, 2, 3] 32 5 fun _ => 7) 32) 32 34
      0 = 0 := by
    rw [show 34 = 32 + 2 + 0 from rfl, layout_l1 _ _ (by decide), l1Block, if_neg (by decide)]
    rfl
  obtain ⟨buf, hrun, hbuf⟩ := hlist.updateVerity1kAndMerkleSpine _ hmagic (b := 5) (by decide)
    (by decide) (by decide) fun _ => 7
  have hlen : (join ((range 50).map (layout headParams (dataBlock [1, 2, 3] 32) 32))).length <
      2 ^ 31 := by
    rw [length_join, length_map, length_range]
    decide
  have hblocks : Blocks _ _ ((0 : UInt32).toNat * 512) _ _ :=
    blocks_of_holds hlist (holds_ofList hlen)
  obtain ⟨hdd', hrun', hblocks'⟩ := hblocks.updateVerityBlockAndSpine headParams hmagic
    (show (5 : UInt32).toNat < 32 by decide) (by decide) (by decide) fun _ => 7
  refine ⟨_, _, _, _, hbuild, hbuild', fun heq => ?_, _, hdd', _, holds_ofList hlen, hrun', ?_⟩
  · rw [hrun, Option.some_inj, Prod.mk.injEq] at heq
    rw [heq.1] at hbuf
    have hsame := congrFun ((hbuf.block 34 (by decide)).symm.trans (hlist'.block 34 (by decide))) 0
    rw [hnew, hold] at hsame
    exact absurd hsame (by decide)
  · intro hholds
    have hview := congrFun ((blocks_of_holds hlist' hholds).block 34 (by decide)) 0
    have hupdated := congrFun (hblocks'.block 34 (by decide)) 0
    rw [UInt32.toNat_zero, Nat.zero_mul, show (5 : UInt32).toNat = 5 from rfl] at hupdated
    have hsame := hupdated.symm.trans hview
    rw [hnew, hold] at hsame
    exact absurd hsame (by decide)

end Six.Ota
