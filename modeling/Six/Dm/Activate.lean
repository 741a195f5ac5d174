import Six.Dm.VerityCache
import Six.Ufs.Image

/-! Slot activation in the device mapper (`drivers/block/dm.c`): `dm_seed_ufs_vbmeta_if_needed` and
`dm_activate_ota_slot`, which checks the system and vendor slices of a slot, maps them and records
the slot in the vbmeta records and the header of the UFS image.  The default root hashes come from
the image build and are parameters. -/

namespace Six.Dm

open Errno Ufs

/-- The parameters of slot activation: the verity code, the devices below the device mapper,
`/dev/hdd` and its size in sectors, and the root hashes that the kernel is built with. -/
structure OtaParams where
  verity : VerityParams
  disk : Backing
  hddOnline : Bool
  hddSectors : UInt32
  binRootHash : Digest
  vendorRootHash : Digest
  binBRootHash : Digest
  vendorBRootHash : Digest

structure Machine where
  dm : DmState
  ufs : UfsState

def verityBinDataSectors : UInt32 := 30720
def verityBinHashStartSector : UInt32 := 30720
def verityVendorDataSectors : UInt32 := 6144
def verityVendorAStartSector : UInt32 := 65536
def verityVendorAHashSector : UInt32 := 71680
def veritySystemBStartSector : UInt32 := 73728
def veritySystemBHashSector : UInt32 := 104448
def verityVendorBStartSector : UInt32 := 106496
def verityVendorBHashSector : UInt32 := 112640

def avbMagic : Fin 4 → UInt8 := chars 4 "AVB0"
def slotFlagActive : UInt8 := 0x01
def slotFlagBootable : UInt8 := 0x02
def slotFlagSuccessful : UInt8 := 0x04
def slotFlagUnbootable : UInt8 := 0x08

def validVbmeta (r : Except Int Vbmeta) : Option Vbmeta :=
  match r with
  | .ok v => if v.magic = avbMagic then some v else none
  | .error _ => none

variable (p : OtaParams)

def seedVbmetaA : Vbmeta where
  magic := avbMagic
  version := 1
  slot := 0
  priority := 15
  triesRemaining := 7
  flags := slotFlagBootable ||| slotFlagSuccessful ||| slotFlagActive
  rollbackIndex := 1
  systemRootHash := p.binRootHash
  vendorRootHash := p.vendorRootHash
  buildId := chars 64 "SIX.261003.001.A1"
  releaseStr := chars 32 "16 (20261003.0001)"

def seedVbmetaB : Vbmeta where
  magic := avbMagic
  version := 1
  slot := 1
  priority := 14
  triesRemaining := 7
  flags := slotFlagBootable ||| slotFlagSuccessful
  rollbackIndex := 1
  systemRootHash := p.binBRootHash
  vendorRootHash := p.vendorBRootHash
  buildId := chars 64 "SIX.261003.001.B1"
  releaseStr := chars 32 "16 (20261003.0002)"

def dmSeedUfsVbmetaIfNeeded (u : UfsState) : UfsState :=
  let a := u.ufsReadBootVbmeta 1
  match a.1 with
  | .error _ => a.2
  | .ok vbmA =>
    let reseed : Bool := vbmA.magic ≠ avbMagic ∨
      (vbmA.rollbackIndex ≤ 1 ∧ vbmA.systemRootHash ≠ p.binRootHash)
    let u := if reseed then
        ((a.2.ufsWriteBootVbmeta 1 (seedVbmetaA p)).2.ufsSetActiveBootLun 1).2
      else a.2
    let b := u.ufsReadBootVbmeta 2
    match b.1 with
    | .error _ => b.2
    | .ok vbmB =>
      if reseed ∨ vbmB.magic ≠ avbMagic then (b.2.ufsWriteBootVbmeta 2 (seedVbmetaB p)).2 else b.2

section

variable (slot : Int)

def bootLun : Int := if slot = 1 then 2 else 1
def otherLun (slot : Int) : Int := if slot = 1 then 1 else 2

def systemSlice (root : Digest) : SliceArgs where
  name := "verity_bin".toList.map fun c => UInt8.ofNat c.toNat
  offsetSec := if slot = 0 then 0 else veritySystemBStartSector
  dataSecs := verityBinDataSectors
  hashSec := if slot = 0 then verityBinHashStartSector else veritySystemBHashSector
  expectedRootHash := root
  checkBlocks := 16

def vendorSlice (root : Digest) : SliceArgs where
  name := "verity_vnd".toList.map fun c => UInt8.ofNat c.toNat
  offsetSec := if slot = 0 then verityVendorAStartSector else verityVendorBStartSector
  dataSecs := verityVendorDataSectors
  hashSec := if slot = 0 then verityVendorAHashSector else verityVendorBHashSector
  expectedRootHash := root
  checkBlocks := 16

def defaultRoots : Digest × Digest :=
  if slot = 0 then (p.binRootHash, p.vendorRootHash) else (p.binBRootHash, p.vendorBRootHash)

/-- The two calls of `dm_setup_verity_slice` for a slot, the second only after the first has
succeeded. -/
def setupSlices (roots : Digest × Digest) (s : DmState) :
    Bool × DmState :=
  let sys := dmSetupVeritySlice p.disk p.verity s 0 (systemSlice slot roots.1)
  if sys.1 ≠ 0 then (false, sys.2)
  else
    let vnd := dmSetupVeritySlice p.disk p.verity sys.2 6 (vendorSlice slot roots.2)
    (vnd.1 = 0, vnd.2)

/-- The attempt to map a slot after the label `retry_slot`: it fails when the vbmeta record marks
the slot as not bootable or when a slice does not verify. -/
def trySlot (m : Machine) : Bool × Machine :=
  let r := m.ufs.ufsReadBootVbmeta (bootLun slot)
  match validVbmeta r.1 with
  | none =>
    let s := setupSlices p slot (defaultRoots p slot) m.dm
    (s.1, ⟨s.2, r.2⟩)
  | some vbm =>
    if vbm.flags &&& slotFlagUnbootable ≠ 0 ∨ vbm.flags &&& slotFlagBootable = 0 then
      (false, ⟨m.dm, r.2⟩)
    else
      let s := setupSlices p slot (vbm.systemRootHash, vbm.vendorRootHash) m.dm
      (s.1, ⟨s.2, r.2⟩)

end

/-- The record of a slot that was activated, and the record of the other slot. -/
def activated (v : Vbmeta) : Vbmeta :=
  { v with
    flags := (v.flags ||| (slotFlagBootable ||| slotFlagSuccessful ||| slotFlagActive)) &&&
      ~~~slotFlagUnbootable
    priority := 15
    triesRemaining := if v.triesRemaining = 0 then 7 else v.triesRemaining }

def deactivated (v : Vbmeta) : Vbmeta :=
  { v with
    flags := v.flags &&& ~~~slotFlagActive
    priority := if v.priority ≥ 15 then 14 else v.priority }

def rejected (v : Vbmeta) : Vbmeta :=
  { v with
    flags := (v.flags &&& ~~~(slotFlagBootable ||| slotFlagSuccessful ||| slotFlagActive)) |||
      slotFlagUnbootable
    triesRemaining := 0
    priority := 0 }

/-- The vbmeta record of a boot LUN is read, changed and written back if it has the right magic. -/
def updateVbmeta (u : UfsState) (lun : Int) (f : Vbmeta → Vbmeta) : UfsState :=
  let r := u.ufsReadBootVbmeta lun
  match validVbmeta r.1 with
  | none => r.2
  | some v => (r.2.ufsWriteBootVbmeta lun (f v)).2

def recordSlot (slot : Int) (m : Machine) : Machine :=
  let u := updateVbmeta m.ufs (bootLun slot) activated
  let u := updateVbmeta u (otherLun slot) deactivated
  ⟨dmNotifyBdevWrite m.dm, (u.ufsSetActiveBootLun (bootLun slot)).2⟩

def rollbackToA (u : UfsState) : UfsState :=
  ((updateVbmeta u 2 rejected).ufsSetActiveBootLun 1).2

def dmActivateOtaSlot (slot : Int) (m : Machine) : Int × Machine :=
  if !p.hddOnline then (-enodev, m)
  else if p.hddSectors < verityVendorBHashSector + 2048 then
    if slot ≠ 0 then (-enodev, m)
    else
      let r := dmSetupVeritySlice p.disk p.verity m.dm 0
        { systemSlice 0 p.binRootHash with checkBlocks := 2 }
      (r.1, ⟨r.2, m.ufs⟩)
  else
    let first := trySlot p slot ⟨m.dm, dmSeedUfsVbmetaIfNeeded p m.ufs⟩
    if first.1 then (0, recordSlot slot first.2)
    else if slot = 1 then
      -- slot b falls back to slot a, once
      let second := trySlot p 0 ⟨first.2.dm, rollbackToA first.2.ufs⟩
      (-eio, if second.1 then recordSlot 0 second.2 else second.2)
    else (-eio, first.2)

end Six.Dm
