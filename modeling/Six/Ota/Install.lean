import Six.Ota.Payload
import Six.Lib.File
import Six.Lib.Loop
import Mathlib.Data.Fintype.Pi

/-! `cmd_install_zip` of `applications/ota/ota.c`, from the check of the payload to the end of the
loop over the install operations.  Where the payload lies in the package and the expected
`FILE_HASH` are given.  `unsigned long` is 32 bits wide.  The model notes which bytes of the package
were executed as operations and which bytes of `/dev/hdd` were written. -/

namespace Six.Ota

open Lib

def systemAStartSec : UInt32 := 0
def systemADataSecs : UInt32 := 30720
def systemSliceSecs : UInt32 := 32768
def vendorAStartSec : UInt32 := 65536
def vendorADataSecs : UInt32 := 6144
def vendorSliceSecs : UInt32 := 8192
def systemBStartSec : UInt32 := 73728
def vendorBStartSec : UInt32 := 106496

def srcBaseSec (partId : UInt8) : UInt32 :=
  if partId = crauPartSystem then systemAStartSec else vendorAStartSec

def dstBaseSec (targetSlot : Int) (partId : UInt8) : UInt32 :=
  if partId = crauPartSystem then (if targetSlot = 1 then systemBStartSec else systemAStartSec)
  else (if targetSlot = 1 then vendorBStartSec else vendorAStartSec)

def sliceSecs (partId : UInt8) : UInt32 :=
  if partId = crauPartSystem then systemSliceSecs else vendorSliceSecs

def hash4k (partId : UInt8) : UInt32 :=
  if partId = crauPartSystem then systemADataSecs / 8 else vendorADataSecs / 8

def sliceStart (targetSlot : Int) (partId : UInt8) : Nat :=
  (dstBaseSec targetSlot partId).toNat * 512

def sliceEnd (targetSlot : Int) (partId : UInt8) : Nat :=
  sliceStart targetSlot partId + (sliceSecs partId).toNat * 512

theorem sliceEnd_lt (targetSlot : Int) (partId : UInt8) : sliceEnd targetSlot partId < 2 ^ 31 := by
  unfold sliceEnd sliceStart dstBaseSec sliceSecs
  split <;> split <;> decide

/-- The loop of `sha256_file_range`: the `rem` bytes from `pos` on, read in chunks of at most 4096.
There are at most `rem` iterations. -/
def readChunks (f : File) : Nat → Nat → Nat → Option (List UInt8)
  | 0, _, _ => some []
  | fuel + 1, rem, pos =>
    if rem = 0 then some []
    else
      let step := min rem 4096
      if f.count pos step ≠ step then none
      else (readChunks f fuel (rem - step) (pos + step)).map (f.bytes pos step ++ ·)

variable (sha256 : List UInt8 → Digest)

def sha256FileRange (f : File) (offset size : UInt32) :
    Option Digest :=
  if offset.toNat < 2 ^ 31 then (readChunks f size.toNat size.toNat offset.toNat).map sha256
  else none

def hexDigit (n : UInt8) : UInt8 := if n < 10 then n + 0x30 else n - 10 + 0x61

def bytesToHex (d : Digest) : List UInt8 :=
  d.bytes.flatMap fun b : UInt8 => [hexDigit (b >>> 4), hexDigit (b &&& 0x0f)]

/-- A package, with the place and size of `payload.bin` in it and the `FILE_HASH` of its
properties, empty when there is none. -/
structure Package where
  zip : File
  payOff : UInt32
  paySz : UInt32
  expectedHash : List UInt8

/-- The header of a package that passes the checks before the loop over the operations. -/
def Package.accept (pkg : Package) : Option CrauHeader :=
  (sha256FileRange sha256 pkg.zip pkg.payOff pkg.paySz).bind fun calcHash =>
    if pkg.expectedHash ≠ [] ∧ pkg.expectedHash ≠ bytesToHex calcHash then none
    else
      let pos := seek (pkg.payOff.toNat + pkg.paySz.toNat) pkg.payOff
      if pkg.zip.count pos crauHeaderSize ≠ crauHeaderSize then none
      else
        let hdr := CrauHeader.decode (pkg.zip.bytes pos crauHeaderSize)
        if hdr.magic ≠ crauMagic ∨ hdr.version ≠ crauVersion then none
        else
          (sha256FileRange sha256 pkg.zip (pkg.payOff + hdr.headerSize) hdr.opsSize).bind
            fun manHash => if manHash ≠ hdr.manifestSha256 then none else some hdr

/-- Bytes written to `/dev/hdd` for `op`, and where in the package they were read when the
operation is a `REPLACE`. -/
structure HddWrite where
  op : CrauOp
  pos : Nat
  len : Nat
  src : Option Nat

/-- `/dev/hdd`, the positions in the package and in `/dev/hdd`, and what was executed and
written. -/
structure Installing where
  hdd : File
  zpos : Nat
  hpos : Nat
  executed : List Nat
  writes : List HddWrite

def writeBlock (op : CrauOp) (src : Option Nat) (pos : Nat) (blk : Nat → UInt8) (s : Installing) :
    Outcome Installing :=
  let k := s.hdd.count pos crauBlockSize
  ⟨k = crauBlockSize, { s with
      hdd := s.hdd.write pos crauBlockSize blk
      hpos := pos + k
      writes := s.writes ++ [⟨op, pos, k, src⟩] }⟩

/-- Block `b` of a `SOURCE_COPY` is copied: only header and property blocks, and the first blocks
of the hash tree. -/
def copies (op : CrauOp) (b : Nat) : Bool :=
  let cur4k := op.dstBlock + UInt32.ofNat b
  cur4k < 16 || (hash4k op.partId ≤ cur4k && cur4k < hash4k op.partId + 8)

def copyBlock (op : CrauOp) (sSec dSec : UInt32) (b : Nat) (s : Installing) : Outcome Installing :=
  if copies op b then
    let bs := sSec + UInt32.ofNat b * 8
    let bd := dSec + UInt32.ofNat b * 8
    let rpos := seek s.hpos (bs * 512)
    let r := s.hdd.count rpos crauBlockSize
    if r ≠ crauBlockSize then ⟨false, { s with hpos := rpos + r }⟩
    else
      let blk := fun i => s.hdd.byte (rpos + i)
      let dpos := seek (rpos + r) (bd * 512)
      let d := s.hdd.count dpos crauBlockSize
      if d ≠ crauBlockSize ∨ !sameBytes crauBlockSize blk fun i => s.hdd.byte (dpos + i) then
        writeBlock op none (seek (dpos + d) (bd * 512)) blk s
      else ⟨true, { s with hpos := dpos + d }⟩
  else ⟨true, s⟩

def replaceBlock (zip : File) (op : CrauOp) (_b : Nat) (s : Installing) : Outcome Installing :=
  let r := zip.count s.zpos crauBlockSize
  if r ≠ crauBlockSize then ⟨false, { s with zpos := s.zpos + r }⟩
  else
    writeBlock op (some s.zpos) s.hpos (fun i => zip.byte (s.zpos + i))
      { s with zpos := s.zpos + r }

def dstSec (targetSlot : Int) (op : CrauOp) : UInt32 :=
  dstBaseSec targetSlot op.partId + op.dstBlock * 8

def blobFileOff (pkg : Package) (hdr : CrauHeader) (op : CrauOp) : UInt32 :=
  pkg.payOff + hdr.blobOffset + op.blobOffset

def applyOp (pkg : Package) (hdr : CrauHeader) (targetSlot : Int)
    (op : CrauOp) (s : Installing) : Outcome Installing :=
  if op.opType = CrauOpType.zero.code then ⟨true, s⟩
  else if op.opType = CrauOpType.sourceCopy.code then
    let sSec := srcBaseSec op.partId + op.srcBlock * 8
    let dSec := dstSec targetSlot op
    if sSec ≠ dSec then
      runLoop (copyBlock op sSec dSec) (List.range op.numBlocks.toNat) s
    else ⟨true, s⟩
  else if op.opType = CrauOpType.replace.code then
    let off := blobFileOff pkg hdr op
    match sha256FileRange sha256 pkg.zip off op.blobSize with
    | none => ⟨false, s⟩
    | some blobHash =>
      if blobHash ≠ op.dataSha256 then ⟨false, s⟩
      else
        runLoop (replaceBlock pkg.zip op) (List.range op.numBlocks.toNat)
          { s with
            zpos := seek (off.toNat + op.blobSize.toNat) off
            hpos := seek s.hpos (dstSec targetSlot op * 512) }
  else ⟨true, s⟩

def opOff (pkg : Package) (hdr : CrauHeader) (opIdx : Nat) : UInt32 :=
  pkg.payOff + hdr.headerSize + UInt32.ofNat opIdx * UInt32.ofNat crauOpSize

def manifestStart (pkg : Package) (hdr : CrauHeader) : Nat := (pkg.payOff + hdr.headerSize).toNat

theorem opOff_toNat (h : manifestStart pkg hdr + (opIdx + 1) * crauOpSize ≤ 2 ^ 31) :
    (opOff pkg hdr opIdx).toNat = manifestStart pkg hdr + opIdx * crauOpSize := by
  have hsize : (UInt32.ofNat crauOpSize).toNat = 52 := rfl
  unfold manifestStart at *
  simp only [crauOpSize] at h ⊢
  rw [opOff, UInt32.toNat_add, UInt32.toNat_mul, hsize, UInt32.toNat_ofNat']
  omega

def installOp (pkg : Package) (hdr : CrauHeader) (targetSlot : Int)
    (opIdx : Nat) (s : Installing) : Outcome Installing :=
  let pos := seek s.zpos (opOff pkg hdr opIdx)
  let r := pkg.zip.count pos crauOpSize
  if r ≠ crauOpSize then ⟨false, { s with zpos := pos + r }⟩
  else
    applyOp sha256 pkg hdr targetSlot (CrauOp.decode (pkg.zip.bytes pos crauOpSize))
      { s with zpos := pos + r, executed := s.executed ++ [pos] }

def startInstall (pkg : Package) (hdr : CrauHeader) (hdd : File) : Installing where
  hdd := hdd
  zpos := (pkg.payOff + hdr.headerSize).toNat + hdr.opsSize.toNat
  hpos := 0
  executed := []
  writes := []

/-- `cmd_install_zip` up to the end of the loop, `none` when the package is not accepted. -/
def cmdInstallZip (pkg : Package) (targetSlot : Int) (hdd : File) :
    Option (Outcome Installing) :=
  (pkg.accept sha256).map fun hdr =>
    runLoop (installOp sha256 pkg hdr targetSlot) (List.range hdr.numOps.toNat)
      (startInstall pkg hdr hdd)

theorem readChunks_eq_some (hfuel : rem ≤ fuel) :
    readChunks f fuel rem pos = some bs ↔
      (rem = 0 ∨ pos + rem ≤ f.size) ∧ bs = f.bytes pos rem := by
  induction fuel generalizing rem pos bs with
  | zero =>
    obtain rfl : rem = 0 := by omega
    simp [readChunks, File.bytes, eq_comm]
  | succ fuel ih =>
    rw [readChunks]
    by_cases hrem : rem = 0
    · subst hrem
      simp [File.bytes, eq_comm]
    · have hlt : rem - min rem 4096 ≤ fuel := by omega
      have hsplit : f.bytes pos rem = f.bytes pos (min rem 4096) ++
          f.bytes (pos + min rem 4096) (rem - min rem 4096) := by
        rw [← File.bytes_append]
        congr 1
        omega
      rw [if_neg hrem]
      by_cases hcount : f.count pos (min rem 4096) = min rem 4096
      · have hle := File.le_of_count hcount (by omega)
        simp only [hcount, ne_eq, not_true_eq_false, if_false, Option.map_eq_some_iff]
        constructor
        · rintro ⟨tail, htail, rfl⟩
          obtain ⟨hend, rfl⟩ := (ih hlt).mp htail
          exact ⟨by omega, hsplit.symm⟩
        · rintro ⟨hend, rfl⟩
          exact ⟨_, (ih hlt).mpr ⟨by omega, rfl⟩, hsplit.symm⟩
      · simp only [ne_eq, hcount, not_false_eq_true, if_true, reduceCtorEq, false_iff, not_and]
        intro hend
        have hle : pos + min rem 4096 ≤ f.size := by omega
        exact absurd (File.count_of_le hle) hcount

theorem sha256FileRange_eq_some {sha256 : List UInt8 → Digest} {f : File} {offset size : UInt32}
    {d : Digest} : sha256FileRange sha256 f offset size = some d ↔ offset.toNat < 2 ^ 31 ∧
      (size.toNat = 0 ∨ offset.toNat + size.toNat ≤ f.size) ∧
      d = sha256 (f.bytes offset.toNat size.toNat) := by
  unfold sha256FileRange
  split
  · rename_i hoff
    simp only [Option.map_eq_some_iff, readChunks_eq_some (le_refl _), hoff, true_and]
    constructor
    · rintro ⟨bs, ⟨hend, rfl⟩, rfl⟩
      exact ⟨hend, rfl⟩
    · rintro ⟨hend, rfl⟩
      exact ⟨_, ⟨hend, rfl⟩, rfl⟩
  · rename_i hoff
    simp only [reduceCtorEq, hoff, false_and]

end Six.Ota
