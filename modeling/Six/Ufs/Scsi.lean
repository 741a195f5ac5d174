import Six.Ufs.Image

/-! The SCSI commands of the UFS driver: `ufs_exec_scsi_upiu` on one entry of the request ring.
The memory at `data_addr` is a function from offsets to bytes, `none` for a null pointer; the
firmware download of `WRITE_BUFFER` is a parameter.  The model notes which bytes of the host file a
command reads or writes. -/

namespace Six.Ufs

open Lib

inductive ScsiOpcode
  | testUnitReady | inquiry | readCapacity10 | read10 | write10 | syncCache10 | writeBuffer
  | readBuffer | unmap | unknown
  deriving DecidableEq, Repr

def ScsiOpcode.ofCode (code : UInt8) : ScsiOpcode :=
  if code = 0x00 then .testUnitReady
  else if code = 0x12 then .inquiry
  else if code = 0x25 then .readCapacity10
  else if code = 0x28 then .read10
  else if code = 0x2a then .write10
  else if code = 0x35 then .syncCache10
  else if code = 0x3b then .writeBuffer
  else if code = 0x3c then .readBuffer
  else if code = 0x42 then .unmap
  else .unknown

abbrev Mem := Nat → UInt8

structure UtrdEntry where
  lun : UInt8
  cdb : Fin 16 → UInt8
  expDataLen : UInt32
  buf : Option Mem

namespace UtrdEntry

def opcode (e : UtrdEntry) : ScsiOpcode := .ofCode (e.cdb 0)

def lba (e : UtrdEntry) : UInt32 :=
  ((e.cdb 2).toUInt32 <<< 24) ||| ((e.cdb 3).toUInt32 <<< 16) ||| ((e.cdb 4).toUInt32 <<< 8) |||
    (e.cdb 5).toUInt32

def blocks (e : UtrdEntry) : UInt32 := ((e.cdb 7).toUInt32 <<< 8) ||| (e.cdb 8).toUInt32

def byteLen (e : UtrdEntry) : UInt32 := e.blocks * 512

end UtrdEntry

structure Access where
  pos : Nat
  len : Nat

/-- A completed command: the response and SCSI status, the memory at `data_addr`, the driver, and
the accesses to the host file. -/
structure Completed where
  response : UInt8 := 0
  status : UInt8 := 0
  buf : Option Mem
  state : UfsState
  accesses : List Access := []

def Completed.Good (c : Completed) : Prop := c.response = 0 ∧ c.status = 0

def ufsWlunBoot : UInt8 := 0xb0

namespace UfsState

variable (u : UfsState)

/-- The LUN that a request names, with the boot W-LUN mapped to the active boot LUN. -/
def lunOf (lun : UInt8) : Option (Fin 3) :=
  let lun := if lun = ufsWlunBoot then (if u.hdr.bootLunId = 2 then 2 else 1) else lun
  if h : u.online ∧ lun.toNat < 3 then some ⟨lun.toNat, h.2⟩ else none

def checkCondition (e : UtrdEntry) : Completed :=
  { status := 0x02, buf := e.buf, state := u }

def startOff (lun : Fin 3) (e : UtrdEntry) : UInt32 := (ufsLuns lun).byteOffset + e.lba * 512

/-- `lba + blocks > max_sectors`, in 32 bits. -/
def pastEnd (lun : Fin 3) (e : UtrdEntry) : Bool := e.lba + e.blocks > (ufsLuns lun).nrSectors

def scsiRead10 (lun : Fin 3) (e : UtrdEntry) : Completed :=
  match e.buf with
  | none => u.checkCondition e
  | some buf =>
    if pastEnd lun e then u.checkCondition e
    else
      let u := u.lseek (startOff lun e)
      let len := e.byteLen.toNat
      let count := u.img.readCount u.pos len
      let data : Mem := fun i => if i < count then u.img.byte (u.pos + i) else buf i
      let done := { u with pos := u.pos + count }
      if count ≠ len then
        { status := 0x02, buf := some data, state := done, accesses := [⟨u.pos, count⟩] }
      else
        { buf := some data
          state := { done with stats := { u.stats with
            readCmds := u.stats.readCmds + 1
            sectorsRead := u.stats.sectorsRead + e.blocks } }
          accesses := [⟨u.pos, count⟩] }

def scsiWrite10 (lun : Fin 3) (e : UtrdEntry) : Completed :=
  match e.buf with
  | none => u.checkCondition e
  | some buf =>
    if pastEnd lun e then u.checkCondition e
    else
      let u := u.lseek (startOff lun e)
      let len := e.byteLen.toNat
      let w := u.write len buf
      if w.1 ≠ len then
        { status := 0x02, buf := e.buf, state := w.2, accesses := [⟨u.pos, w.1⟩] }
      else
        { buf := e.buf
          state := { w.2 with stats := { u.stats with
            writeCmds := u.stats.writeCmds + 1
            sectorsWritten := u.stats.sectorsWritten + e.blocks } }
          accesses := [⟨u.pos, w.1⟩] }

/-- The loop of `UNMAP`: `rem` sectors of zeros, eight at a time, from the current position on. -/
def unmapLoop (u : UfsState) (rem : Nat) (accesses : List Access) : UfsState × List Access :=
  if rem = 0 then (u, accesses)
  else
    let w := u.write (min rem 8 * 512) fun _ => 0
    unmapLoop w.2 (rem - min rem 8) (accesses ++ [⟨u.pos, w.1⟩])
termination_by rem

def scsiUnmap (lun : Fin 3) (e : UtrdEntry) : Completed :=
  if pastEnd lun e then u.checkCondition e
  else
    let r := (u.lseek (startOff lun e)).unmapLoop e.blocks.toNat []
    { buf := e.buf
      state := { r.1 with stats := { u.stats with
        unmapCmds := u.stats.unmapCmds + 1
        unmapSectors := u.stats.unmapSectors + e.blocks } }
      accesses := r.2 }

def store (buf : Mem) (off : Nat) (bs : List UInt8) : Mem :=
  fun i => if off ≤ i ∧ i < off + bs.length then bs.getD (i - off) 0 else buf i

def inquiryData (len : Nat) (buf : Mem) : Mem :=
  let buf : Mem := fun i => if i < len then 0 else buf i
  let buf := store buf 0 [0x00]
  let buf := store buf 2 [0x06, 0x02, if len ≥ 68 then 63 else 31]
  let buf := store buf 8 ((Codec.array 8).enc (chars 8 "SIX-JEDC"))
  let buf := store buf 16 ((Codec.array 16).enc (chars 16 "SIX-UFS-4.0-CHIP"))
  let buf := store buf 32 (((Codec.array 8).enc u.fwRev).take 4)
  if len ≥ 68 then store buf 36 u.fwSha256.bytes else buf

def capacityData (lun : Fin 3) (buf : Mem) : Mem :=
  let lastLba := (ufsLuns lun).nrSectors - 1
  store buf 0 [(lastLba >>> 24).toUInt8, (lastLba >>> 16).toUInt8, (lastLba >>> 8).toUInt8,
    lastLba.toUInt8, 0, 0, 0x02, 0x00]

/-- A command that only fills a buffer of at least `min` bytes. -/
def fill (e : UtrdEntry) (min : UInt32) (f : Mem → Mem) : Completed :=
  { buf := if e.expDataLen ≥ min then e.buf.map f else e.buf, state := u }

def ufsExecScsiUpiu (writeBuffer : UfsState → UtrdEntry → UInt8 × UfsState) (u : UfsState)
    (e : UtrdEntry) : Completed :=
  match u.lunOf e.lun with
  | none => { response := 0x01, status := 0x02, buf := e.buf, state := u }
  | some lun =>
    match e.opcode with
    | .testUnitReady => { buf := e.buf, state := u }
    | .syncCache10 =>
      { buf := e.buf
        state := { u with stats := { u.stats with flushCmds := u.stats.flushCmds + 1 } } }
    | .inquiry => u.fill e 36 (u.inquiryData e.expDataLen.toNat)
    | .writeBuffer =>
      let r := writeBuffer u e
      { status := r.1, buf := e.buf, state := r.2 }
    | .readBuffer => u.fill e 32 fun buf => store buf 0 u.fwSha256.bytes
    | .readCapacity10 => u.fill e 8 (capacityData lun)
    | .read10 => u.scsiRead10 lun e
    | .write10 => u.scsiWrite10 lun e
    | .unmap => u.scsiUnmap lun e
    | .unknown => u.checkCondition e

end UfsState

end Six.Ufs
