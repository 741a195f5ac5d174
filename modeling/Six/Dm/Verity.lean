import Six.Base.Errno
import Six.Base.Digest
import Six.Dm.Crypt
import Mathlib.Data.Fin.VecNotation
import Mathlib.Data.Fintype.Pi

/-! The verity target of the device mapper (`drivers/block/dm.c`): 1024-byte blocks, the superblock,
the root hash of a table line, and `dm_verify_verity_block`.  SHA-256 is a parameter, and so is what
the backing devices return: each access sees the devices at its own time. -/

namespace Six.Dm

open Errno

variable {p : VerityParams} {disk : Backing} {bdev : UInt16}

abbrev Block := Fin 1024 → UInt8

namespace Block

def half (b : Block) (second : Bool) : Sector :=
  fun i => b ⟨i + (if second then 512 else 0), by split <;> omega⟩

def setHalf (b : Block) (second : Bool) (s : Sector) : Block := fun i =>
  if h : i.val < 512 then (if second then b i else s ⟨i, h⟩)
  else (if second then s ⟨i - 512, by omega⟩ else b i)

@[simp] theorem half_setHalf_same (b : Block) (k : Bool) (s : Sector) :
    (b.setHalf k s).half k = s := by
  funext i
  cases k <;> simp [half, setHalf]

@[simp] theorem half_setHalf_other (b : Block) (k : Bool) (s : Sector) :
    (b.setHalf k s).half (!k) = b.half (!k) := by
  funext i
  cases k <;> simp [half, setHalf]

end Block

/-- What a read of one sector returns: the error code, 0 for success, and what the 512 bytes of
the caller's buffer hold afterwards. -/
structure SectorRead where
  err : Int
  data : Sector

/-- The devices below the device mapper, as `dm_rw_phys_sector` sees them: the results of a read
and of a write of one sector of a device, for each access time. -/
structure Backing where
  read : Nat → UInt16 → UInt32 → SectorRead
  write : Nat → UInt16 → UInt32 → Sector → Int

structure BlockRead where
  err : Int
  buf : Block
  time : Nat

def dmReadPhys1k (disk : Backing) (bdev : UInt16) (physSecEven : UInt32) (buf : Block)
    (time : Nat) : BlockRead :=
  let lo := disk.read time bdev physSecEven
  if lo.err ≠ 0 then ⟨lo.err, buf.setHalf false lo.data, time + 1⟩
  else
    let hi := disk.read (time + 1) bdev (physSecEven + 1)
    ⟨hi.err, (buf.setHalf false lo.data).setHalf true hi.data, time + 2⟩

/-- The backing devices returned the two halves of `b` for the sectors `sec` and `sec + 1` of
`bdev`, one right after the other. -/
def ReadBack (disk : Backing) (bdev : UInt16) (sec : UInt32) (b : Block) : Prop :=
  ∃ time, disk.read time bdev sec = ⟨0, b.half false⟩ ∧
    disk.read (time + 1) bdev (sec + 1) = ⟨0, b.half true⟩

theorem dmReadPhys1k_readBack (h : (dmReadPhys1k disk bdev sec buf time).err = 0) :
    ReadBack disk bdev sec (dmReadPhys1k disk bdev sec buf time).buf := by
  unfold dmReadPhys1k at h ⊢
  by_cases hlo : (disk.read time bdev sec).err ≠ 0
  · simp [hlo] at h
  · simp only [hlo, ite_false] at h ⊢
    refine ⟨time, ?_, ?_⟩
    · have hother := Block.half_setHalf_other (buf.setHalf false (disk.read time bdev sec).data)
        true (disk.read (time + 1) bdev (sec + 1)).data
      rw [Bool.not_true] at hother
      rw [hother, Block.half_setHalf_same, ← not_not.mp hlo]
    · rw [Block.half_setHalf_same, ← h]

/-- The root hash that the loop over `root_hash` in `DM_IOC_CREATE` leaves in place of `old`: a
byte whose two characters are not both hexadecimal digits keeps its old value. -/
def parseRootHash (old : Digest) (text : Fin 64 → UInt8) : Digest := fun j =>
  match hexNibble (text ⟨j * 2, by omega⟩), hexNibble (text ⟨j * 2 + 1, by omega⟩) with
  | some hi, some lo => (hi <<< 4) ||| lo
  | _, _ => old j

def hexChar (n : UInt8) : UInt8 := if n < 10 then n + 0x30 else n - 10 + 0x61

def dmBytesToHex (bytes : Digest) : Fin 64 → UInt8 := fun i =>
  if i.val % 2 = 0 then hexChar ((bytes ⟨i / 2, by omega⟩ >>> 4) &&& 0x0f)
  else hexChar (bytes ⟨i / 2, by omega⟩ &&& 0x0f)

theorem hexNibble_hexChar : ∀ b : UInt8, hexNibble (hexChar ((b >>> 4) &&& 0x0f)) =
    some ((b >>> 4) &&& 0x0f) ∧ hexNibble (hexChar (b &&& 0x0f)) = some (b &&& 0x0f) ∧
    ((((b >>> 4) &&& 0x0f) <<< 4) ||| (b &&& 0x0f)) = b := by
  have h : ∀ n : Fin 256, hexNibble (hexChar ((UInt8.ofFin n >>> 4) &&& 0x0f)) =
      some ((UInt8.ofFin n >>> 4) &&& 0x0f) ∧
      hexNibble (hexChar (UInt8.ofFin n &&& 0x0f)) = some (UInt8.ofFin n &&& 0x0f) ∧
      ((((UInt8.ofFin n >>> 4) &&& 0x0f) <<< 4) ||| (UInt8.ofFin n &&& 0x0f)) = UInt8.ofFin n := by
    decide +kernel
  intro b
  exact h b.toFin

theorem parseRootHash_dmBytesToHex (old root : Digest) :
    parseRootHash old (dmBytesToHex root) = root := by
  funext j
  obtain ⟨hhi, hlo, hbyte⟩ := hexNibble_hexChar (root j)
  have h0 : dmBytesToHex root ⟨j * 2, by omega⟩ = hexChar ((root j >>> 4) &&& 0x0f) := by
    simp [dmBytesToHex]
  have h1 : dmBytesToHex root ⟨j * 2 + 1, by omega⟩ = hexChar (root j &&& 0x0f) := by
    have hhalf : (j.val * 2 + 1) / 2 = j := by omega
    simp [dmBytesToHex, hhalf]
  simp only [parseRootHash, h0, h1, hhi, hlo, hbyte]

/-- The fields of `struct six_verity_sb` that the driver reads, at their offsets in the block. -/
def sbMagic (b : Block) : Fin 8 → UInt8 := fun i => b ⟨i, by omega⟩
def sbVersion (b : Block) : UInt32 :=
  (b 8).toUInt32 ||| ((b 9).toUInt32 <<< 8) ||| ((b 10).toUInt32 <<< 16) |||
    ((b 11).toUInt32 <<< 24)
def sbSalt (b : Block) : Digest := fun i => b ⟨76 + i, by omega⟩
def sbRootHash (b : Block) : Digest := fun i => b ⟨108 + i, by omega⟩

def verityMagic : Fin 8 → UInt8 := ![0x76, 0x65, 0x72, 0x69, 0x74, 0x79, 0, 0]

/-- The parameters of the verity code: SHA-256 of a salt followed by a block, and the bytes that
follow `dm_verity_hash_buf` in memory, which a slot past the end of the buffer is read from. -/
structure VerityParams where
  sha256Salted1k : Digest → Block → Digest
  pastHashBuf : Nat → UInt8

/-- The 32 bytes at offset `off` from the start of `dm_verity_hash_buf`, which holds `b`. -/
def slotAt (p : VerityParams) (b : Block) (off : Nat) : Digest := fun i =>
  if h : off + i < 1024 then b ⟨off + i, h⟩ else p.pastHashBuf (off + i - 1024)

/-- First sector of the level-0, level-1 and level-2 hash block of data block `blkNr`. -/
def l0Sec (hashStartSector blkNr : UInt32) : UInt32 :=
  hashStartSector + (((17 : UInt32) + (blkNr >>> 5)) <<< (1 : UInt32))
def l1Sec (hashStartSector blkNr : UInt32) : UInt32 :=
  hashStartSector + (((2 : UInt32) + (blkNr >>> 10)) <<< (1 : UInt32))
def l2Sec (hashStartSector : UInt32) : UInt32 := hashStartSector + ((1 : UInt32) <<< (1 : UInt32))

/-- Offsets of the slots of data block `blkNr` in its level-0, level-1 and level-2 hash block. -/
def l0Off (blkNr : UInt32) : Nat := ((blkNr &&& 31) <<< 5).toNat
def l1Off (blkNr : UInt32) : Nat := (((blkNr >>> 5) &&& 31) <<< 5).toNat
def l2Off (blkNr : UInt32) : Nat := ((blkNr >>> 10) <<< 5).toNat

/-- The result of `dm_verify_verity_block`: its return value, whether it counted a corrupt block,
and `dm_verity_hash_buf` and the time afterwards. -/
structure VerifyResult where
  err : Int
  corrupt : Bool
  hashBuf : Block
  time : Nat

/-- `dm_verify_verity_block` on a device with the given salt and root hash, for a target on `bdev`
with its hash tree at `hashStartSector`. -/
def dmVerifyVerityBlock (disk : Backing) (p : VerityParams) (salt root : Digest) (bdev : UInt16)
    (hashStartSector blkNr : UInt32) (data hashBuf : Block) (time : Nat) : VerifyResult :=
  let r0 := dmReadPhys1k disk bdev (l0Sec hashStartSector blkNr) hashBuf time
  if r0.err ≠ 0 then ⟨-eio, false, r0.buf, r0.time⟩
  else if slotAt p r0.buf (l0Off blkNr) ≠ p.sha256Salted1k salt data then
    ⟨-eio, true, r0.buf, r0.time⟩
  else
    let r1 := dmReadPhys1k disk bdev (l1Sec hashStartSector blkNr) r0.buf r0.time
    if r1.err ≠ 0 then ⟨-eio, false, r1.buf, r1.time⟩
    else if slotAt p r1.buf (l1Off blkNr) ≠ p.sha256Salted1k salt r0.buf then
      ⟨-eio, true, r1.buf, r1.time⟩
    else
      let r2 := dmReadPhys1k disk bdev (l2Sec hashStartSector) r1.buf r1.time
      if r2.err ≠ 0 then ⟨-eio, false, r2.buf, r2.time⟩
      else if slotAt p r2.buf (l2Off blkNr) ≠ p.sha256Salted1k salt r1.buf then
        ⟨-eio, true, r2.buf, r2.time⟩
      else if p.sha256Salted1k salt r2.buf ≠ root then ⟨-eio, true, r2.buf, r2.time⟩
      else ⟨0, false, r2.buf, r2.time⟩

def Block.slot? (b : Block) (off : Nat) : Option Digest :=
  if h : off + 32 ≤ 1024 then some fun i => b ⟨off + i, by omega⟩ else none

structure Chain (p : VerityParams) (salt root : Digest) (blkNr : UInt32)
    (data l0 l1 l2 : Block) : Prop where
  level0 : l0.slot? (l0Off blkNr) = some (p.sha256Salted1k salt data)
  level1 : l1.slot? (l1Off blkNr) = some (p.sha256Salted1k salt l0)
  level2 : l2.slot? (l2Off blkNr) = some (p.sha256Salted1k salt l1)
  top : p.sha256Salted1k salt l2 = root

/-- `data` is a block that the backing devices returned for data block `blkNr` of a target with its
data at `offsetSector`, and hash blocks that they returned complete its hash chain. -/
def Verified (disk : Backing) (p : VerityParams) (salt root : Digest) (bdev : UInt16)
    (offsetSector hashStartSector blkNr : UInt32) (data : Block) : Prop :=
  ReadBack disk bdev (offsetSector + (blkNr <<< (1 : UInt32))) data ∧
  ∃ l0 l1 l2, ReadBack disk bdev (l0Sec hashStartSector blkNr) l0 ∧
    ReadBack disk bdev (l1Sec hashStartSector blkNr) l1 ∧
    ReadBack disk bdev (l2Sec hashStartSector) l2 ∧ Chain p salt root blkNr data l0 l1 l2

theorem slot?_of_slotAt (h : off + 32 ≤ 1024)
    (heq : slotAt p b off = d) : b.slot? off = some d := by
  subst heq
  simp only [Block.slot?, h, dite_true, Option.some.injEq]
  funext i
  have hi : off + i.val < 1024 := by omega
  simp [slotAt, hi]

theorem l0Off_le (blkNr : UInt32) : l0Off blkNr + 32 ≤ 1024 := by
  have hand : (blkNr &&& 31).toNat < 32 := by
    rw [UInt32.toNat_and]
    exact Nat.lt_of_le_of_lt Nat.and_le_right (by decide)
  simp only [l0Off, UInt32.toNat_shiftLeft, UInt32.reduceToNat, Nat.shiftLeft_eq, Nat.reduceMod,
    Nat.reducePow]
  omega

theorem l1Off_le (blkNr : UInt32) : l1Off blkNr + 32 ≤ 1024 := l0Off_le (blkNr >>> 5)

theorem l2Off_le_iff : l2Off blkNr + 32 ≤ 1024 ↔ blkNr.toNat < 32768 := by
  have h := blkNr.toNat_lt
  simp only [l2Off, UInt32.toNat_shiftLeft, UInt32.toNat_shiftRight, UInt32.reduceToNat,
    Nat.shiftLeft_eq, Nat.shiftRight_eq_div_pow, Nat.reduceMod, Nat.reducePow]
  omega

/-- A block that `dm_verify_verity_block` accepts has a hash chain, through hash blocks that the
backing devices returned, provided that its level-2 slot lies inside the level-2 block. -/
theorem dmVerifyVerityBlock_chain (hslot : l2Off blkNr + 32 ≤ 1024)
    (h : (dmVerifyVerityBlock disk p salt root bdev hs blkNr data hashBuf time).err = 0) :
    ∃ l0 l1 l2, ReadBack disk bdev (l0Sec hs blkNr) l0 ∧ ReadBack disk bdev (l1Sec hs blkNr) l1 ∧
      ReadBack disk bdev (l2Sec hs) l2 ∧ Chain p salt root blkNr data l0 l1 l2 := by
  have heio : -eio ≠ 0 := by decide
  simp only [dmVerifyVerityBlock] at h
  split_ifs at h with e0 s0 e1 s1 e2 s2 top
  all_goals try exact absurd h heio
  exact ⟨_, _, _, dmReadPhys1k_readBack (not_not.mp e0), dmReadPhys1k_readBack (not_not.mp e1),
    dmReadPhys1k_readBack (not_not.mp e2), slot?_of_slotAt (l0Off_le blkNr) (not_not.mp s0),
    slot?_of_slotAt (l1Off_le blkNr) (not_not.mp s1), slot?_of_slotAt hslot (not_not.mp s2),
    not_not.mp top⟩

end Six.Dm
