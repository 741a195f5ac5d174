import Six.Dm.Activate

/-! The replay protected memory block of the UFS driver: `ufs_handle_rpmb_ioctl`, which serves one
frame, `ufs_poll_external_ota`, and the part of `cmd_sideload` in `scripts/host_ota.py` that writes
to the UFS image.  SHA-256 is a parameter. -/

namespace Six.Ufs

open Lib Errno Dm

def rpmbReqProgramKey : UInt16 := 0x0001
def rpmbReqGetCounter : UInt16 := 0x0002
def rpmbReqWriteData : UInt16 := 0x0003
def rpmbReqReadData : UInt16 := 0x0004

def rpmbRespProgramKey : UInt16 := 0x0100
def rpmbRespGetCounter : UInt16 := 0x0200
def rpmbRespWriteData : UInt16 := 0x0300
def rpmbRespReadData : UInt16 := 0x0400

def rpmbResOk : UInt16 := 0x0000
def rpmbResGeneralFailure : UInt16 := 0x0001
def rpmbResAuthFailure : UInt16 := 0x0002
def rpmbResCounterFailure : UInt16 := 0x0003
def rpmbResAddrFailure : UInt16 := 0x0004
def rpmbResWriteFailure : UInt16 := 0x0005
def rpmbResReadFailure : UInt16 := 0x0006
def rpmbResNoAuthKey : UInt16 := 0x0007

/-- `struct ufs_rpmb_frame`, without the filler in front. -/
structure RpmbFrame where
  keyMac : Digest
  data : Fin 256 → UInt8
  nonce : Fin 16 → UInt8
  writeCounter : UInt32
  addr : UInt16
  blockCount : UInt16
  result : UInt16
  reqResp : UInt16

/-- The 284 bytes of a frame that the MAC covers. -/
def RpmbFrame.authenticated (f : RpmbFrame) : List UInt8 :=
  (Codec.array 256).enc f.data ++ (Codec.array 16).enc f.nonce ++ Codec.u32.enc f.writeCounter ++
    Codec.u16.enc f.addr ++ Codec.u16.enc f.blockCount ++ Codec.u16.enc f.result ++
    Codec.u16.enc f.reqResp

section

variable (sha256 : List UInt8 → Digest)

def ufsRpmbComputeMac (key : Digest) (f : RpmbFrame) : Digest :=
  sha256 (key.bytes ++ f.authenticated)

def RpmbFrame.signed (key : Digest) (f : RpmbFrame) : RpmbFrame :=
  { f with keyMac := ufsRpmbComputeMac sha256 key f }

def rpmbOff (addr : UInt16) : UInt32 :=
  ufsImgRpmbOffset + UInt32.ofNat addr.toNat * UInt32.ofNat ufsRpmbBlockSize

namespace UfsState

variable (u : UfsState)

def countAuthFail : UfsState :=
  { u with stats := { u.stats with rpmbAuthFails := u.stats.rpmbAuthFails + 1 } }

section

variable (f : RpmbFrame)

def rpmbKeyed : UfsState :=
  { u with hdr := { u.hdr with
    rpmbKey := f.keyMac
    rpmbKeySet := 1
    rpmbWriteCounter := 0 } }

def rpmbProgramKey : RpmbFrame × UfsState :=
  ({ f with keyMac := fun _ => 0, result := rpmbResOk, reqResp := rpmbRespProgramKey },
    (u.rpmbKeyed f).ufsSavePersistHdr)

def rpmbGetCounter : RpmbFrame :=
  if u.hdr.rpmbKeySet = 0 then
    { f with reqResp := rpmbRespGetCounter, writeCounter := 0, result := rpmbResNoAuthKey }
  else
    RpmbFrame.signed sha256 u.hdr.rpmbKey
      { f with
        reqResp := rpmbRespGetCounter
        writeCounter := u.hdr.rpmbWriteCounter
        result := rpmbResOk }

def Authentic : Prop :=
  u.hdr.rpmbKeySet ≠ 0 ∧ f.addr < ufsRpmbTotalBlocks ∧
    ufsRpmbComputeMac sha256 u.hdr.rpmbKey f = f.keyMac ∧
    f.writeCounter = u.hdr.rpmbWriteCounter

def rpmbStore : Nat × UfsState :=
  (u.lseek (rpmbOff f.addr)).writeList ((Codec.array 256).enc f.data)

def rpmbCounted : UfsState :=
  { (u.rpmbStore f).2 with
    hdr := { u.hdr with rpmbWriteCounter := u.hdr.rpmbWriteCounter + 1 }
    stats := { u.stats with rpmbWrites := u.stats.rpmbWrites + 1 } }

def rpmbWritten : UfsState := (u.rpmbCounted f).ufsSavePersistHdr

def rpmbWriteData : RpmbFrame × UfsState :=
  let fail (result : UInt16) : RpmbFrame :=
    { f with reqResp := rpmbRespWriteData, result := result }
  if u.hdr.rpmbKeySet = 0 then (fail rpmbResNoAuthKey, u)
  else if f.addr ≥ ufsRpmbTotalBlocks then (fail rpmbResAddrFailure, u)
  else if ufsRpmbComputeMac sha256 u.hdr.rpmbKey f ≠ f.keyMac then
    (fail rpmbResAuthFailure, u.countAuthFail)
  else if f.writeCounter ≠ u.hdr.rpmbWriteCounter then
    (fail rpmbResCounterFailure, u.countAuthFail)
  else
    if (u.rpmbStore f).1 ≠ ufsRpmbBlockSize then (fail rpmbResWriteFailure, (u.rpmbStore f).2)
    else
      let u := u.rpmbWritten f
      (RpmbFrame.signed sha256 u.hdr.rpmbKey
        { f with
          writeCounter := u.hdr.rpmbWriteCounter
          result := rpmbResOk
          reqResp := rpmbRespWriteData }, u)

def rpmbReadData : RpmbFrame × UfsState :=
  let fail (result : UInt16) : RpmbFrame :=
    { f with reqResp := rpmbRespReadData, result := result }
  if f.addr ≥ ufsRpmbTotalBlocks then (fail rpmbResAddrFailure, u)
  else
    let r := (u.lseek (rpmbOff f.addr)).read ufsRpmbBlockSize
    if r.1.length ≠ ufsRpmbBlockSize then (fail rpmbResReadFailure, r.2)
    else
      let done : RpmbFrame :=
        { f with
          data := (Codec.array 256).dec r.1
          writeCounter := u.hdr.rpmbWriteCounter
          result := rpmbResOk
          reqResp := rpmbRespReadData }
      (if u.hdr.rpmbKeySet ≠ 0 then RpmbFrame.signed sha256 u.hdr.rpmbKey done else done,
        { r.2 with stats := { u.stats with rpmbReads := u.stats.rpmbReads + 1 } })

/-- The switch over `req_resp`: the frame that is copied back, and the driver. -/
def rpmbRequest : RpmbFrame × UfsState :=
  if f.reqResp = rpmbReqProgramKey then u.rpmbProgramKey f
  else if f.reqResp = rpmbReqGetCounter then (rpmbGetCounter sha256 u f, u)
  else if f.reqResp = rpmbReqWriteData then rpmbWriteData sha256 u f
  else if f.reqResp = rpmbReqReadData then rpmbReadData sha256 u f
  else ({ f with result := rpmbResGeneralFailure }, u)

end

/-- `ufs_handle_rpmb_ioctl`.  The argument is null, an address that `verify_area` refuses with an
error, or the address of a frame. -/
def ufsHandleRpmbIoctl (arg : Option (Except Int RpmbFrame)) :
    Int × Option RpmbFrame × UfsState :=
  match arg with
  | none => (-einval, none, u)
  | some arg =>
    if !u.online then (-enodev, none, u)
    else
      match arg with
      | .error err => (err, none, u)
      | .ok f =>
        let r := rpmbRequest sha256 u f
        (if r.1.result = rpmbResOk then 0 else -eio, some r.1, r.2)

end UfsState

end

/-- The request of a host is taken over from the header on the disk, and so are the key and the
counter when the disk has a key. -/
def UfsState.takeOver (u : UfsState) (disk : PersistHdr) : UfsState :=
  let hdr : PersistHdr := { u.hdr with
    otaPendingSeq := disk.otaPendingSeq
    otaPendingSlot := disk.otaPendingSlot }
  { u with hdr :=
    if disk.rpmbKeySet ≠ 0 then
      { hdr with
        rpmbKeySet := disk.rpmbKeySet
        rpmbWriteCounter := disk.rpmbWriteCounter
        rpmbKey := disk.rpmbKey }
    else hdr }

def UfsState.acknowledge (u : UfsState) (disk : PersistHdr) : UfsState :=
  { u with hdr := { u.hdr with
    otaPendingSeq := disk.otaPendingSeq
    otaAckSeq := disk.otaPendingSeq
    otaPendingSlot := 0xfe
    otaLastStatus := 0 } }

/-- `ufs_poll_external_ota`.  `in_poll` is left out: nothing that a poll calls polls again. -/
def ufsPollExternalOta (p : OtaParams) (m : Machine) : Machine :=
  if !m.ufs.online || !m.ufs.otaPollReady then m
  else
    let u := ((m.ufs.lseek ufsImgHdrOffset).read persistHdrSize).2
    match m.ufs.diskHdr with
    | none => ⟨m.dm, u⟩
    | some disk =>
      if disk.otaPendingSeq = u.hdr.otaAckSeq then ⟨m.dm, u⟩
      else if disk.otaPendingSlot = 1 ∨ disk.otaPendingSlot = 2 then
        let targetSlot : Int := if disk.otaPendingSlot = 2 then 1 else 0
        (dmActivateOtaSlot p targetSlot ⟨m.dm, u.takeOver disk⟩).2
      else if disk.otaPendingSlot = 0xfe then ⟨m.dm, (u.acknowledge disk).ufsSavePersistHdr⟩
      else ⟨m.dm, u⟩

/-- The header that `cmd_sideload` writes back, from the copy `hdr` that it has read. -/
def sideloadHdr (hdr : PersistHdr) (targetSlot : Bool) (noActivate : Bool) : PersistHdr :=
  let targetLun : UInt8 := if targetSlot then 2 else 1
  { hdr with
    magic := ufsHdrMagic
    bootLunId := if noActivate then hdr.bootLunId else targetLun
    otaPendingSeq := hdr.otaPendingSeq + 1
    otaPendingSlot := if noActivate then 0xfe else targetLun }

/-- The writes of `cmd_sideload` to the image, by the host and not through the driver: the vbmeta
record of the target slot and the header. -/
def cmdSideload (u : UfsState) (hdr : PersistHdr) (vbm : Vbmeta) (targetSlot noActivate : Bool) :
    UfsState :=
  let base := u.base.toNat
  let v := Vbmeta.codec.enc vbm
  let h := PersistHdr.codec.enc (sideloadHdr hdr targetSlot noActivate)
  let off := (UfsState.vbmetaOff (if targetSlot then 2 else 1)).toNat
  { u with
    img := (u.img.write (base + off) v.length fun i => v.getD i 0).write
      (base + ufsImgHdrOffset.toNat) h.length fun i => h.getD i 0
    room := by
      rw [HostFile.write_limit, HostFile.write_limit]
      exact u.room }

end Six.Ufs
