import Six.Base.Digest
import Six.Base.Errno
import Six.Lib.Codec
import Six.Lib.HostFile
import Mathlib.Data.Fintype.Pi

/-! The flash image behind the UFS driver (`drivers/block/ufshcd.c`, `include/linux/ufs.h`): its
layout, the persistent header and the vbmeta records of the two boot LUNs.  `unsigned long` is 32
bits wide.  Reads and writes go to the host file; the buffer cache of the boot LUNs is left out. -/

namespace Six.Ufs

open Lib Errno

def ufsImgHdrOffset : UInt32 := 0x000000
def ufsImgRpmbOffset : UInt32 := 0x010000
def ufsImgBootAOffset : UInt32 := 0x030000
def ufsImgBootBOffset : UInt32 := 0x090000
def ufsImgLun0Offset : UInt32 := 0x100000
def ufsImgTotalBytes : UInt32 := 0x500000
def ufsRpmbTotalBlocks : UInt16 := 512
def ufsRpmbBlockSize : Nat := 256

structure LunGeom where
  byteOffset : UInt32
  nrSectors : UInt32

def ufsLuns : Fin 3 → LunGeom
  | 0 => ⟨ufsImgLun0Offset, 8192⟩
  | 1 => ⟨ufsImgBootAOffset, 768⟩
  | 2 => ⟨ufsImgBootBOffset, 768⟩

def ufsHdrMagic : UInt32 := 0x55465335

structure PersistHdr where
  magic : UInt32 := 0
  bootLunId : UInt8 := 0
  writeBoosterEn : UInt8 := 0
  bootLunEn : UInt8 := 0
  activeIccLevel : UInt8 := 0
  powerCycles : UInt32 := 0
  rpmbKeySet : UInt32 := 0
  rpmbWriteCounter : UInt32 := 0
  rpmbKey : Digest := fun _ => 0
  fwRev : Fin 8 → UInt8 := fun _ => 0
  deviceVersion : UInt16 := 0
  ffuCount : UInt16 := 0
  fwSha256 : Digest := fun _ => 0
  otaPendingSeq : UInt32 := 0
  otaAckSeq : UInt32 := 0
  otaPendingSlot : UInt8 := 0
  otaLastStatus : UInt8 := 0
  rsvd : Fin 402 → UInt8 := fun _ => 0

open Codec in
def PersistHdr.codec : Codec PersistHdr :=
  (u32.pair <| u8.pair <| u8.pair <| u8.pair <| u8.pair <| u32.pair <| u32.pair <| u32.pair <|
    (array 32).pair <| (array 8).pair <| u16.pair <| u16.pair <| (array 32).pair <| u32.pair <|
    u32.pair <| u8.pair <| u8.pair <| array 402).imap
    (fun ⟨magic, bootLunId, writeBoosterEn, bootLunEn, activeIccLevel, powerCycles, rpmbKeySet,
        rpmbWriteCounter, rpmbKey, fwRev, deviceVersion, ffuCount, fwSha256, otaPendingSeq,
        otaAckSeq, otaPendingSlot, otaLastStatus, rsvd⟩ =>
      ⟨magic, bootLunId, writeBoosterEn, bootLunEn, activeIccLevel, powerCycles, rpmbKeySet,
        rpmbWriteCounter, rpmbKey, fwRev, deviceVersion, ffuCount, fwSha256, otaPendingSeq,
        otaAckSeq, otaPendingSlot, otaLastStatus, rsvd⟩)
    (fun h => ⟨h.magic, h.bootLunId, h.writeBoosterEn, h.bootLunEn, h.activeIccLevel,
      h.powerCycles, h.rpmbKeySet, h.rpmbWriteCounter, h.rpmbKey, h.fwRev, h.deviceVersion,
      h.ffuCount, h.fwSha256, h.otaPendingSeq, h.otaAckSeq, h.otaPendingSlot, h.otaLastStatus,
      h.rsvd⟩)
    fun _ => rfl

def PersistHdr.withMagic (h : PersistHdr) : PersistHdr := { h with magic := ufsHdrMagic }

def persistHdrSize : Nat := 508

theorem PersistHdr.length_enc (h : PersistHdr) : (codec.enc h).length = persistHdrSize :=
  codec.length_enc h

structure Vbmeta where
  magic : Fin 4 → UInt8 := fun _ => 0
  version : UInt32 := 0
  slot : UInt8 := 0
  priority : UInt8 := 0
  triesRemaining : UInt8 := 0
  flags : UInt8 := 0
  reserved0 : UInt32 := 0
  rollbackIndex : UInt64 := 0
  systemRootHash : Digest := fun _ => 0
  vendorRootHash : Digest := fun _ => 0
  buildId : Fin 64 → UInt8 := fun _ => 0
  releaseStr : Fin 32 → UInt8 := fun _ => 0
  reserved : Fin 328 → UInt8 := fun _ => 0

open Codec in
def Vbmeta.codec : Codec Vbmeta :=
  ((array 4).pair <| u32.pair <| u8.pair <| u8.pair <| u8.pair <| u8.pair <| u32.pair <|
    u64.pair <| (array 32).pair <| (array 32).pair <| (array 64).pair <| (array 32).pair <|
    array 328).imap
    (fun ⟨magic, version, slot, priority, triesRemaining, flags, reserved0, rollbackIndex,
        systemRootHash, vendorRootHash, buildId, releaseStr, reserved⟩ =>
      ⟨magic, version, slot, priority, triesRemaining, flags, reserved0, rollbackIndex,
        systemRootHash, vendorRootHash, buildId, releaseStr, reserved⟩)
    (fun v => ⟨v.magic, v.version, v.slot, v.priority, v.triesRemaining, v.flags, v.reserved0,
      v.rollbackIndex, v.systemRootHash, v.vendorRootHash, v.buildId, v.releaseStr, v.reserved⟩)
    fun _ => rfl

def vbmetaSize : Nat := 512

theorem Vbmeta.length_enc (v : Vbmeta) : (codec.enc v).length = vbmetaSize := codec.length_enc v

def chars (n : Nat) (text : String) : Fin n → UInt8 :=
  fun i => UInt8.ofNat ((text.toList.getD i (Char.ofNat 0)).toNat)

structure Stats where
  readCmds : UInt32 := 0
  writeCmds : UInt32 := 0
  sectorsRead : UInt32 := 0
  sectorsWritten : UInt32 := 0
  flushCmds : UInt32 := 0
  unmapCmds : UInt32 := 0
  unmapSectors : UInt32 := 0
  rpmbWrites : UInt32 := 0
  rpmbReads : UInt32 := 0
  rpmbAuthFails : UInt32 := 0

/-- The static variables of the driver with the host file, its position and `ufs_base_offset`.
`online` stands for `ufs_online && ufs_fd >= 0`, which `ufs_init` sets together.  The host file has
room for the whole image. -/
structure UfsState where
  online : Bool
  base : UInt32
  img : HostFile
  pos : Nat
  hdr : PersistHdr
  otaPollReady : Bool
  fwRev : Fin 8 → UInt8
  deviceVersion : UInt16
  ffuCount : UInt32
  fwSha256 : Digest
  stats : Stats
  room : base.toNat + ufsImgTotalBytes.toNat ≤ img.limit

namespace UfsState

variable (u : UfsState)

def lseek (off : UInt32) : UfsState := { u with pos := seek u.pos (u.base + off) }

def write (n : Nat) (src : Nat → UInt8) : Nat × UfsState :=
  let count := u.img.writeCount u.pos n
  (count, { u with img := u.img.write u.pos n src, pos := u.pos + count })

def writeList (bs : List UInt8) : Nat × UfsState := u.write bs.length fun i => bs.getD i 0

def read (n : Nat) : List UInt8 × UfsState :=
  let count := u.img.readCount u.pos n
  (u.img.bytes u.pos count, { u with pos := u.pos + count })

def ufsSavePersistHdr : UfsState :=
  if !u.online then u
  else
    let u := { u with hdr := u.hdr.withMagic }
    ((u.lseek ufsImgHdrOffset).writeList (PersistHdr.codec.enc u.hdr)).2

def adoptHdr (binSha256 : Digest) (hdr : PersistHdr) : PersistHdr :=
  let hdr := if hdr.otaPendingSeq ≠ hdr.otaAckSeq ∧
      (hdr.otaPendingSlot = 1 ∨ hdr.otaPendingSlot = 2)
    then { hdr with bootLunId := hdr.otaPendingSlot } else hdr
  let hdr := if hdr.bootLunId ≠ 1 ∧ hdr.bootLunId ≠ 2 then { hdr with bootLunId := 1 } else hdr
  let hdr := if hdr.fwRev 0 = 0
    then { hdr with
      fwRev := chars 8 "4.00"
      deviceVersion := 0x0400
      ffuCount := 0
      fwSha256 := binSha256 }
    else hdr
  { hdr with powerCycles := hdr.powerCycles + 1 }

def freshHdr (fwSha256 : Digest) : PersistHdr where
  magic := ufsHdrMagic
  bootLunId := 1
  writeBoosterEn := 1
  bootLunEn := 1
  activeIccLevel := 0x0f
  powerCycles := 1
  fwRev := chars 8 "4.00"
  deviceVersion := 0x0400
  fwSha256 := fwSha256

/-- `strncpy` of the first four characters to a cleared array. -/
def firstFour (rev : Fin 8 → UInt8) : Fin 8 → UInt8 :=
  fun i => if i.val < 4 ∧ ∀ j ≤ i, rev j ≠ 0 then rev i else 0

/-- The part of `ufs_load_or_init_persist_hdr` that makes sure that a boot LUN starts with a boot
header. -/
def ensureBootHeader (off : UInt32) (text : String) : UfsState :=
  let r := (u.lseek off).read 512
  if r.1.length ≠ 512 ∨ r.1.take 8 ≠ (Codec.array 8).enc (chars 8 "ANDROID!") then
    ((r.2.lseek off).writeList ((Codec.array 512).enc (chars 512 text))).2
  else r.2

/-- The header that is read from the disk: all its bytes, with the right magic. -/
def diskHdr : Option PersistHdr :=
  let r := (u.lseek ufsImgHdrOffset).read persistHdrSize
  let hdr := PersistHdr.codec.dec r.1
  if r.1.length = persistHdrSize ∧ hdr.magic = ufsHdrMagic then some hdr else none

def withHdr (hdr : PersistHdr) : UfsState :=
  { u with
    hdr := hdr
    fwRev := firstFour hdr.fwRev
    deviceVersion := hdr.deviceVersion
    ffuCount := UInt32.ofNat hdr.ffuCount.toNat
    fwSha256 := hdr.fwSha256 }

def withFreshHdr : UfsState := { u with hdr := freshHdr u.fwSha256 }

/-- `ufs_load_or_init_persist_hdr`.  `binSha256` is the digest that `fwupd_build_bin_image`
returns for the built-in firmware. -/
def ufsLoadOrInitPersistHdr (binSha256 : Digest) (u : UfsState) : UfsState :=
  if !u.online then u
  else
    let read := ((u.lseek ufsImgHdrOffset).read persistHdrSize).2
    let loaded := match u.diskHdr with
      | some hdr => (read.withHdr (adoptHdr binSha256 hdr)).ufsSavePersistHdr
      | none => read.withFreshHdr.ufsSavePersistHdr
    (loaded.ensureBootHeader ufsImgBootAOffset
      "ANDROID! slot=a boot_lun=1 (/dev/ufsb) version=UFS4.0-primary-bootloader").ensureBootHeader
      ufsImgBootBOffset
      "ANDROID! slot=b boot_lun=2 (/dev/ufsc) version=UFS4.0-secondary-ota-slot"

/-- The static variables when the kernel starts, with the host file opened again. -/
def powerOn (binSha256 : Digest) (u : UfsState) : UfsState :=
  { u with
    pos := u.img.size
    hdr := {}
    otaPollReady := false
    fwRev := chars 8 "4.00"
    deviceVersion := 0x0400
    ffuCount := 0
    fwSha256 := binSha256
    stats := {} }

/-- The part of `ufs_init` that reads the image. -/
def ufsInit (binSha256 : Digest) (u : UfsState) : UfsState :=
  ufsLoadOrInitPersistHdr binSha256 (u.powerOn binSha256)

def ufsSetActiveBootLun (bootLunId : Int) : Int × UfsState :=
  if bootLunId ≠ 1 ∧ bootLunId ≠ 2 then (-einval, u)
  else if !u.online then (-enodev, u)
  else
    let lun : UInt8 := if bootLunId = 2 then 2 else 1
    let hdr : PersistHdr := { u.hdr with bootLunId := lun }
    let hdr := if hdr.otaPendingSeq ≠ hdr.otaAckSeq then
        { hdr with
          otaAckSeq := hdr.otaPendingSeq
          otaLastStatus := if hdr.otaPendingSlot = lun then 0 else 1 }
      else hdr
    (0, ufsSavePersistHdr { u with hdr := hdr, otaPollReady := true })

/-- The offset of the vbmeta record of a boot LUN: its second sector. -/
def vbmetaOff (bootLunId : Int) : UInt32 :=
  (if bootLunId = 2 then ufsImgBootBOffset else ufsImgBootAOffset) + 512

def ufsReadBootVbmeta (bootLunId : Int) : Except Int Vbmeta × UfsState :=
  if bootLunId ≠ 1 ∧ bootLunId ≠ 2 then (.error (-einval), u)
  else if !u.online then (.error (-enodev), u)
  else
    let r := (u.lseek (vbmetaOff bootLunId)).read vbmetaSize
    (if r.1.length ≠ vbmetaSize then .error (-eio) else .ok (Vbmeta.codec.dec r.1), r.2)

def ufsWriteBootVbmeta (bootLunId : Int) (v : Vbmeta) : Int × UfsState :=
  if bootLunId ≠ 1 ∧ bootLunId ≠ 2 then (-einval, u)
  else if !u.online then (-enodev, u)
  else
    let w := (u.lseek (vbmetaOff bootLunId)).writeList (Vbmeta.codec.enc v)
    (if w.1 ≠ vbmetaSize then -eio else 0, w.2)

/-- An image of zeros, as `ufs_init` leaves an image file of its own. -/
def zeroImage : HostFile where
  size := 0x500000
  limit := 0x500000
  byte := fun _ => 0
  size_le := by decide
  limit_lt := by decide
  past := fun _ _ => rfl

theorem zeroImage_room : (0 : UInt32).toNat + ufsImgTotalBytes.toNat ≤ zeroImage.limit := by
  decide

end UfsState

end Six.Ufs
