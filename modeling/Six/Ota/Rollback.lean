import Six.Dm.SlotAtomic
import Six.Ufs.Replay
import Six.Ota.Install
import Six.Ota.Spine

/-! The life of rollback indices: `cmd_install_zip`, `cmd_apply` and `rpmb_record_rollback` of
`applications/ota/ota.c`, `cmd_sideload` of `scripts/host_ota.py`, and the ways into
`dm_activate_ota_slot`.  A command is cut where it enters the kernel to activate a slot or to ask
for the active one: the installers are an `install` or `apply` step and then an `activate` step, and
a start of the kernel is `reboot`, `seed`, `poll` and `activate`.  What the verity code reads from
the disk, and the text of the property blocks that `cmd_apply` writes, are parameters. -/

namespace Six.Ota

open Lib Dm Ufs Errno

/-- The fields of `struct six_crau_header` that describe the target build. -/
structure CrauTarget where
  blobSize : UInt32
  rollbackIndex : UInt64
  systemRootHash : Digest
  vendorRootHash : Digest
  buildId : List UInt8
  releaseStr : List UInt8
  -- the text that starts at `build_id`, which need not end in that field
  buildText : List UInt8

def CrauTarget.decode (bs : List UInt8) : CrauTarget where
  blobSize := UInt32.ofNat (leNat (fieldAt bs 24 4))
  rollbackIndex := UInt64.ofNat (leNat (fieldAt bs 32 8))
  systemRootHash := Digest.at bs 40
  vendorRootHash := Digest.at bs 72
  buildId := fieldAt bs 136 64
  releaseStr := fieldAt bs 200 32
  buildText := fieldAt bs 136 120

def Package.target (pkg : Package) : CrauTarget :=
  .decode (pkg.zip.bytes (seek (pkg.payOff.toNat + pkg.paySz.toNat) pkg.payOff) crauHeaderSize)

/-- `strncpy` of at most `n - 1` characters to a cleared array. -/
def strncpyTo (n : Nat) (text : List UInt8) : Fin n → UInt8 :=
  fun i => ((text.takeWhile (· ≠ 0)).take (n - 1)).getD i 0

def slotNo (slotB : Bool) : Int := if slotB then 1 else 0

def slotVbmeta (slotB : Bool) (index : UInt64) (sysRoot vndRoot : Digest)
    (buildId releaseStr : List UInt8) : Vbmeta where
  magic := avbMagic
  version := 1
  slot := if slotB then 1 else 0
  priority := 15
  triesRemaining := 7
  flags := slotFlagBootable ||| slotFlagSuccessful
  rollbackIndex := index
  systemRootHash := sysRoot
  vendorRootHash := vndRoot
  buildId := strncpyTo 64 buildId
  releaseStr := strncpyTo 32 releaseStr

/-- `"six_avb_rpmb_key_2026"`. -/
def defaultRpmbKeyStr : List UInt8 :=
  [115, 105, 120, 95, 97, 118, 98, 95, 114, 112, 109, 98, 95, 107, 101, 121, 95, 50, 48, 50, 54]

def deriveRpmbKey (keyStr : List UInt8) : Digest := fun i =>
  if i < keyStr.length then keyStr.getD i 0
  else keyStr.getD (i % (if keyStr.length = 0 then 1 else keyStr.length)) 0 ^^^
    UInt8.ofNat (i * 0x5a)

def decimal (n : Nat) : List UInt8 := (Nat.toDigits 10 n).map fun c => UInt8.ofNat c.toNat

/-- `"AVB_ROLLBACK_INDEX=%llu BUILD_ID=%s"`. -/
def rollbackText (index : UInt64) (buildId : List UInt8) : List UInt8 :=
  [65, 86, 66, 95, 82, 79, 76, 76, 66, 65, 67, 75, 95, 73, 78, 68, 69, 88, 61] ++
    decimal index.toNat ++ [32, 66, 85, 73, 76, 68, 95, 73, 68, 61] ++ buildId.takeWhile (· ≠ 0)

def clearFrame (reqResp : UInt16) : RpmbFrame where
  keyMac := fun _ => 0
  data := fun _ => 0
  nonce := fun _ => 0
  writeCounter := 0
  addr := 0
  blockCount := 0
  result := 0
  reqResp := reqResp

section Rpmb

variable (sha256 : List UInt8 → Digest)

/-- `rpmb_get_counter`: the counter, or the result that is not 0. -/
def rpmbGetCounterCmd (u : UfsState) : Except Int UInt32 × UfsState :=
  let r := UfsState.ufsHandleRpmbIoctl sha256 u (some (.ok (clearFrame rpmbReqGetCounter)))
  let frame := r.2.1.getD (clearFrame rpmbReqGetCounter)
  (if frame.result = rpmbResNoAuthKey then .error rpmbResNoAuthKey.toNat
    else if r.1 < 0 ∨ frame.result ≠ rpmbResOk then .error (-1)
    else .ok frame.writeCounter, r.2.2)

def rollbackFrame (index : UInt64) (buildId : List UInt8) (cnt : UInt32) : RpmbFrame :=
  RpmbFrame.signed sha256 (deriveRpmbKey defaultRpmbKeyStr)
    { clearFrame rpmbReqWriteData with
      blockCount := 1
      addr := 1
      writeCounter := cnt
      data := fun i => (rollbackText index buildId).getD i 0 }

/-- The first part of `rpmb_record_rollback`: the counter, after a key was programmed if there was
none. -/
def rpmbCounterForWrite (u : UfsState) : Except Int UInt32 × UfsState :=
  let r := rpmbGetCounterCmd sha256 u
  match r.1 with
  | .error rc =>
    if rc = rpmbResNoAuthKey.toNat then
      rpmbGetCounterCmd sha256 (UfsState.ufsHandleRpmbIoctl sha256 r.2 (some (.ok
        { clearFrame rpmbReqProgramKey with keyMac := deriveRpmbKey defaultRpmbKeyStr }))).2.2
    else r
  | .ok _ => r

def rpmbRecordRollback (index : UInt64) (buildId : List UInt8) (u : UfsState) : Bool × UfsState :=
  let r := rpmbCounterForWrite sha256 u
  match r.1 with
  | .error _ => (false, r.2)
  | .ok cnt =>
    let w := UfsState.ufsHandleRpmbIoctl sha256 r.2 (some (.ok
      (rollbackFrame sha256 index buildId cnt)))
    (decide (0 ≤ w.1) && w.2.1.any (·.result = rpmbResOk), w.2.2)

end Rpmb

def slotIndex (u : UfsState) (lun : Int) : Nat :=
  match validVbmeta (u.ufsReadBootVbmeta lun).1 with
  | some v => v.rollbackIndex.toNat
  | none => 0

/-- What happens to rollback indices: an update with this index has passed its checks and the
program goes on to write slot data and slot metadata, or a slot with this index is made active.
Each event holds the indices that had been recorded in the RPMB before. -/
inductive RollbackEvent
  | applying (index : Nat) (recorded : List Nat)
  | madeActive (index : Nat) (recorded : List Nat)
  deriving DecidableEq, Repr

def RollbackEvent.Ok : RollbackEvent → Prop
  | .applying index recorded => ∀ r ∈ recorded, r ≤ index
  | .madeActive index recorded => ∀ r ∈ recorded, r ≤ index

instance : DecidablePred RollbackEvent.Ok := fun e => by
  cases e <;> exact inferInstanceAs (Decidable (∀ r ∈ _, r ≤ _))

/-- The machine, `/dev/hdd`, and the history: the indices that `rpmb_record_rollback` has recorded,
and the events. -/
structure World where
  machine : Machine
  hdd : File
  recorded : List Nat
  log : List RollbackEvent

/-- The parameters: SHA-256 of a string, slot activation, the digest of the built-in firmware, and
the property blocks that `cmd_apply` writes, for the vendor slice or not, a slot, a build id and a
version. -/
structure RollbackParams where
  sha256 : List UInt8 → Digest
  ota : OtaParams
  binSha256 : Digest
  propBlock : Bool → Bool → List UInt8 → UInt32 → Block

def World.ufs (w : World) : UfsState := w.machine.ufs

def World.setUfs (w : World) (u : UfsState) : World :=
  { w with machine := { w.machine with ufs := u } }

section Activation

variable (p : OtaParams)

/-- `dm_seed_ufs_vbmeta_if_needed` writes the records of both slots, and makes slot a active. -/
def reseeds (u : UfsState) : Bool :=
  match (u.ufsReadBootVbmeta 1).1 with
  | .error _ => false
  | .ok vbmA => vbmA.magic ≠ avbMagic ∨
      (vbmA.rollbackIndex ≤ 1 ∧ vbmA.systemRootHash ≠ p.binRootHash)

def seedEvents (u : UfsState) (recorded : List Nat) : List RollbackEvent :=
  if reseeds p u then [.madeActive (slotIndex (dmSeedUfsVbmetaIfNeeded p u) 1) recorded] else []

def World.seed (w : World) : World :=
  { w with
    machine := seeded p w.machine
    log := w.log ++ seedEvents p w.ufs w.recorded }

def slotted (m : Machine) : Bool := p.hddOnline && hasAbSuper p && m.ufs.online

/-- The slot that `dm_activate_ota_slot` calls `ufs_set_active_boot_lun` for after it has seeded the
records: the slot asked for, or slot a when slot b does not verify. -/
def activatedSlot (slotB : Bool) (m : Machine) : Option Bool :=
  if !slotted p m then none
  else if (trySlot p (slotNo slotB) (seeded p m)).1 then some slotB
  else if slotB then some false else none

def activateEvents (slotB : Bool) (m m' : Machine) (recorded : List Nat) : List RollbackEvent :=
  (if slotted p m then seedEvents p m.ufs recorded else []) ++
    (activatedSlot p slotB m).toList.map fun s =>
      .madeActive (slotIndex m'.ufs (bootLun (slotNo s))) recorded

def World.activate (slotB : Bool) (w : World) : World :=
  let m := (dmActivateOtaSlot p (slotNo slotB) w.machine).2
  { w with
    machine := m
    log := w.log ++ activateEvents p slotB w.machine m w.recorded }

/-- The slot that `ufs_poll_external_ota` activates, and the driver that it does so with. -/
def pollTarget (u : UfsState) : Option (Bool × UfsState) :=
  if !u.online || !u.otaPollReady then none
  else
    let read := ((u.lseek ufsImgHdrOffset).read persistHdrSize).2
    match u.diskHdr with
    | none => none
    | some disk =>
      if disk.otaPendingSeq = read.hdr.otaAckSeq then none
      else if disk.otaPendingSlot = 1 ∨ disk.otaPendingSlot = 2 then
        some (disk.otaPendingSlot = 2, read.takeOver disk)
      else none

def World.poll (w : World) : World :=
  match pollTarget w.ufs with
  | some (slotB, u) => (w.setUfs u).activate p slotB
  | none => { w with machine := ufsPollExternalOta p w.machine }

/-- `ufs_get_active_boot_lun`, after its poll. -/
def activeLun (u : UfsState) : Int := if u.online && u.hdr.bootLunId == 2 then 2 else 1

/-- `st.active_slot` of `DM_IOC_OTA_STATUS`, after its poll. -/
def activeSlot (m : Machine) : Bool :=
  activeLun m.ufs = 2 ∧ (m.dm.devs 0).active ∧
    ((m.dm.devs 0).targets.head?.any fun t => t.offsetSector > 0)

end Activation

section Commands

variable (q : RollbackParams)

/-- `write_vbmeta` and `rpmb_record_rollback`, which both installers end with. -/
def World.record (slotB : Bool) (vbm : Vbmeta) (buildText : List UInt8) (w : World) : World :=
  let wr := w.ufs.ufsWriteBootVbmeta (bootLun (slotNo slotB)) vbm
  if wr.1 < 0 then w.setUfs wr.2
  else
    let r := rpmbRecordRollback q.sha256 vbm.rollbackIndex buildText wr.2
    { w.setUfs r.2 with
      recorded := if r.1 then w.recorded ++ [vbm.rollbackIndex.toNat] else w.recorded }

/-- The slot that an installer writes: that of its argument, or that of the properties of the
package, or the one that is not active. -/
def World.targetSlot (slotArg slotProp : Option Bool) (w : World) : Bool :=
  (slotArg <|> slotProp).getD (!activeSlot w.machine)

/-- `cmd_install_zip` up to `cmd_switch`.  `slotArg` and `slotProp` are what `parse_slot_arg` makes
of the argument and of `TARGET_SLOT`. -/
def World.install (pkg : Package) (slotArg slotProp : Option Bool) (w : World) : World :=
  let slotB := w.targetSlot slotArg slotProp
  if !q.ota.hddOnline then w
  else
    match cmdInstallZip q.sha256 pkg (slotNo slotB) w.hdd with
    | none => w
    | some o =>
      let t := pkg.target
      let w := { w with
        hdd := o.state.hdd
        log := w.log ++ [.applying t.rollbackIndex.toNat w.recorded] }
      if !o.ok then w
      else w.record q slotB
        (slotVbmeta slotB t.rollbackIndex t.systemRootHash t.vendorRootHash t.buildId t.releaseStr)
        t.buildText

/-- `read_vbmeta`; a record that cannot be read is cleared. -/
def readVbmeta (u : UfsState) (slotB : Bool) : Vbmeta :=
  match (u.ufsReadBootVbmeta (bootLun (slotNo slotB))).1 with
  | .ok v => v
  | .error _ => {}

/-- The larger index of the active slot and of the slot that `cmd_apply` writes. -/
def largerIndex (u : UfsState) (active slotB : Bool) : UInt64 :=
  let src := (readVbmeta u active).rollbackIndex
  let dst := (readVbmeta u slotB).rollbackIndex
  if dst > src then dst else src

def copyEight (srcSec dstSec : UInt32) (i : Nat) (f : File) : Outcome File :=
  let src := ((srcSec + UInt32.ofNat (i * 8)) * 512).toNat
  let dst := ((dstSec + UInt32.ofNat (i * 8)) * 512).toNat
  if src < 2 ^ 31 ∧ f.count src 4096 = 4096 ∧ dst < 2 ^ 31 then
    ⟨f.count dst 4096 = 4096, f.write dst 4096 fun j => f.byte (src + j)⟩
  else ⟨false, f⟩

/-- `copy_sectors`, for a number of sectors that eight divides. -/
def copySectors (srcSec dstSec numSecs : UInt32) (f : File) : Outcome File :=
  runLoop (copyEight srcSec dstSec) (List.range (numSecs.toNat / 8)) f

/-- `"# SIX_ANDROID_BUILD_PROP_V1\n"`. -/
def propMarker : List UInt8 :=
  [35, 32, 83, 73, 88, 95, 65, 78, 68, 82, 79, 73, 68, 95, 66, 85, 73, 76, 68, 95, 80, 82, 79, 80,
    95, 86, 49, 10]

def findBuildPropBlock (f : File) (sliceStartSec : UInt32) : Option Nat :=
  (List.range' 1 63).find? fun blk =>
    (read1k f (sliceStartSec + (UInt32.ofNat blk <<< (1 : UInt32)))).any
      fun b => b.bytes.take 28 == propMarker

def systemHashSec (slotB : Bool) : UInt32 := if slotB then 104448 else 30720
def vendorHashSec (slotB : Bool) : UInt32 := if slotB then 112640 else 71680

/-- The writes of `cmd_apply` to `/dev/hdd`: the two root hashes, or `none` when it stops. -/
def applySlices (slotB : Bool) (buildId : List UInt8) (ver : UInt32) (f : File) :
    Option (Digest × Digest) × File :=
  let slot := slotNo slotB
  let other := slotNo !slotB
  let sysSec := dstBaseSec slot crauPartSystem
  let vndSec := dstBaseSec slot crauPartVendor
  let valid := (read1k f (systemHashSec slotB)).any fun b => sbMagic b = verityMagic
  let cloned : Outcome File := if valid then ⟨true, f⟩
    else
      let sys := copySectors (dstBaseSec other crauPartSystem) sysSec systemSliceSecs f
      if sys.ok then copySectors (dstBaseSec other crauPartVendor) vndSec vendorSliceSecs sys.state
      else sys
  if !cloned.ok then (none, cloned.state)
  else
    match findBuildPropBlock cloned.state sysSec, findBuildPropBlock cloned.state vndSec with
    | some sysBlk, some vndBlk =>
      let sys := updateVerityBlockAndSpine q.ota.verity cloned.state sysSec (systemHashSec slotB)
        (UInt32.ofNat sysBlk) (q.propBlock false slotB buildId ver)
      match sys.1 with
      | none => (none, sys.2)
      | some sysRoot =>
        let vnd := updateVerityBlockAndSpine q.ota.verity sys.2 vndSec (vendorHashSec slotB)
          (UInt32.ofNat vndBlk) (q.propBlock true slotB buildId ver)
        (vnd.1.map fun vndRoot => (sysRoot, vndRoot), vnd.2)
    | _, _ => (none, cloned.state)

def padded (width n : Nat) : List UInt8 :=
  List.replicate (width - (decimal n).length) 48 ++ decimal n

/-- The build id that `cmd_apply` uses: its argument, or `"SIX.261003.%03u.%c%u"`. -/
def applyBuildId (custom : List UInt8) (slotB : Bool) (ver : UInt32) : List UInt8 :=
  if custom ≠ [] then custom.take 63
  else [83, 73, 88, 46, 50, 54, 49, 48, 48, 51, 46] ++ padded 3 ver.toNat ++
    [46, if slotB then 66 else 65] ++ decimal ver.toNat

/-- `"16 (20261003.%04u)"`. -/
def applyRelease (ver : UInt32) : List UInt8 :=
  [49, 54, 32, 40, 50, 48, 50, 54, 49, 48, 48, 51, 46] ++ padded 4 (1 + ver).toNat ++ [41]

/-- `cmd_apply` up to `cmd_switch`, after its `DM_IOC_OTA_STATUS`.  `slotArg` is what
`parse_slot_arg` makes of the argument, and `custom` is the build id, empty for none. -/
def World.apply (slotArg : Option Bool) (custom : List UInt8) (w : World) : World :=
  let slotB := w.targetSlot slotArg none
  let index := largerIndex w.ufs (activeSlot w.machine) slotB + 1
  let ver := index.toUInt32
  let buildId := applyBuildId custom slotB ver
  if !q.ota.hddOnline then w
  else
    let r := applySlices q slotB buildId ver w.hdd
    let w := { w with hdd := r.2, log := w.log ++ [.applying index.toNat w.recorded] }
    match r.1 with
    | none => w
    | some (sysRoot, vndRoot) =>
      w.record q slotB (slotVbmeta slotB index sysRoot vndRoot buildId (applyRelease ver)) buildId

/-- The payload of a package as the host reads it, and the `FILE_HASH` of its properties, empty
when there is none. -/
structure HostPackage where
  payload : List UInt8
  expectedHash : List UInt8

def HostPackage.accept (pkg : HostPackage) : Option (CrauHeader × CrauTarget) :=
  if pkg.expectedHash ≠ [] ∧ bytesToHex (q.sha256 pkg.payload) ≠ pkg.expectedHash then none
  else if pkg.payload.length < crauHeaderSize then none
  else
    let hdr := CrauHeader.decode (pkg.payload.take crauHeaderSize)
    if hdr.magic ≠ crauMagic ∨ hdr.version ≠ crauVersion then none
    else if q.sha256 (fieldAt pkg.payload hdr.headerSize.toNat hdr.opsSize.toNat) ≠
        hdr.manifestSha256 then none
    else some (hdr, .decode (pkg.payload.take crauHeaderSize))

def HostPackage.opBytes (pkg : HostPackage) (hdr : CrauHeader) (i : Nat) : List UInt8 :=
  fieldAt (fieldAt pkg.payload hdr.headerSize.toNat hdr.opsSize.toNat) (i * crauOpSize) crauOpSize

def sideloadOp (blobs srcSys srcVnd : List UInt8) (dst : List UInt8 × List UInt8) (op : CrauOp) :
    Option (List UInt8 × List UInt8) :=
  let isSys := op.partId = crauPartSystem
  let src := if isSys then srcSys else srcVnd
  let off := op.dstBlock.toNat * crauBlockSize
  let len := op.numBlocks.toNat * crauBlockSize
  let put (chunk : List UInt8) : List UInt8 × List UInt8 :=
    let assign (buf : List UInt8) := buf.take off ++ chunk ++ buf.drop (off + len)
    if isSys then (assign dst.1, dst.2) else (dst.1, assign dst.2)
  if op.opType = CrauOpType.zero.code then some (put (List.replicate len 0))
  else if op.opType = CrauOpType.sourceCopy.code then
    some (put (fieldAt src (op.srcBlock.toNat * crauBlockSize) len))
  else if op.opType = CrauOpType.replace.code then
    let chunk := fieldAt blobs op.blobOffset.toNat op.blobSize.toNat
    if chunk.length ≠ len ∨ q.sha256 chunk ≠ op.dataSha256 then none else some (put chunk)
  else none

def sideloadSlices (pkg : HostPackage) (hdr : CrauHeader) (t : CrauTarget)
    (srcSys srcVnd : List UInt8) : Option (List UInt8 × List UInt8) :=
  let blobs := fieldAt pkg.payload hdr.blobOffset.toNat t.blobSize.toNat
  (List.range hdr.numOps.toNat).foldlM (fun dst i =>
      let bs := pkg.opBytes hdr i
      if bs.length ≠ crauOpSize then none
      else sideloadOp q blobs srcSys srcVnd dst (CrauOp.decode bs))
    (List.replicate (systemSliceSecs.toNat * 512) 0, List.replicate (vendorSliceSecs.toNat * 512) 0)

/-- The operation writes inside the slice of its partition, and a `SOURCE_COPY` reads there too, so
that the slices keep their lengths. -/
def opInside (op : CrauOp) : Bool :=
  let inside (block : UInt32) : Bool :=
    (block.toNat + op.numBlocks.toNat) * crauBlockSize ≤ (sliceSecs op.partId).toNat * 512
  inside op.dstBlock && (op.opType != CrauOpType.sourceCopy.code || inside op.srcBlock)

def sideloadVbmeta (slotB : Bool) (t : CrauTarget) (noActivate : Bool) : Vbmeta :=
  let v := slotVbmeta slotB t.rollbackIndex t.systemRootHash t.vendorRootHash t.buildId t.releaseStr
  { v with flags := if noActivate then v.flags else v.flags ||| slotFlagActive }

def writeBytes (f : File) (pos : Nat) (bs : List UInt8) : File :=
  f.write pos bs.length fun i => bs.getD i 0

def hostHdr (u : UfsState) : PersistHdr :=
  PersistHdr.codec.dec (u.img.bytes u.base.toNat persistHdrSize)

/-- `cmd_sideload`.  `slotArg` is the slot of the argument and `slotProp` that of `TARGET_SLOT`.
Slices that have grown are cut at the end of `/dev/hdd` here; on the disk they run over the
partitions behind it. -/
def World.sideload (pkg : HostPackage) (slotArg slotProp : Option Bool) (noActivate : Bool)
    (w : World) : World :=
  match pkg.accept q with
  | none => w
  | some (hdr, t) =>
    let slotB := (slotArg <|> slotProp).getD ((hostHdr w.ufs).bootLunId != 2)
    let sysOff := systemAStartSec.toNat * 512
    let vndOff := vendorAStartSec.toNat * 512
    let srcSys := w.hdd.bytes sysOff (w.hdd.count sysOff (systemSliceSecs.toNat * 512))
    let srcVnd := w.hdd.bytes vndOff (w.hdd.count vndOff (vendorSliceSecs.toNat * 512))
    match sideloadSlices q pkg hdr t srcSys srcVnd with
    | none => w
    | some (dstSys, dstVnd) =>
      { w.setUfs (cmdSideload w.ufs (hostHdr w.ufs) (sideloadVbmeta slotB t noActivate) slotB
          noActivate) with
        hdd := writeBytes (writeBytes w.hdd (sliceStart (slotNo slotB) crauPartSystem) dstSys)
          (sliceStart (slotNo slotB) crauPartVendor) dstVnd
        log := w.log ++ [.applying t.rollbackIndex.toNat w.recorded] }

inductive OtaOp
  | install (pkg : Package) (slotArg slotProp : Option Bool)
  | apply (slotArg : Option Bool) (custom : List UInt8)
  | sideload (pkg : HostPackage) (slotArg slotProp : Option Bool) (noActivate : Bool)
  | activate (slotB : Bool)
  | poll
  | reboot
  | seed

def World.step (w : World) : OtaOp → Option World
  | .install pkg slotArg slotProp => some (w.install q pkg slotArg slotProp)
  | .apply slotArg custom => some (w.apply q slotArg custom)
  | .sideload pkg slotArg slotProp noActivate =>
    some (w.sideload q pkg slotArg slotProp noActivate)
  | .activate slotB => some (w.activate q.ota slotB)
  | .poll => some (w.poll q.ota)
  | .reboot => some { w with machine := Ufs.reboot q.binSha256 w.machine }
  | .seed => some (if q.ota.hddOnline then w.seed q.ota else w)

end Commands

theorem World.poll_machine (p : OtaParams) (w : World) :
    (w.poll p).machine = ufsPollExternalOta p w.machine := by
  unfold World.poll
  split
  · rename_i slotB u htarget
    unfold pollTarget at htarget
    unfold ufsPollExternalOta
    rw [World.ufs] at htarget
    split at htarget
    · cases htarget
    · rename_i hready
      rw [if_neg hready]
      cases hdisk : w.machine.ufs.diskHdr with
      | none =>
        rw [hdisk] at htarget
        cases htarget
      | some disk =>
        rw [hdisk] at htarget
        dsimp only at htarget ⊢
        split at htarget
        · cases htarget
        · rename_i hseq
          rw [if_neg hseq]
          split at htarget
          · rename_i hslot
            rw [if_pos hslot]
            obtain ⟨rfl, rfl⟩ := Prod.mk.inj (Option.some.inj htarget)
            simp only [World.activate, World.setUfs, slotNo, decide_eq_true_eq]
          · cases htarget
  · rfl

end Six.Ota
