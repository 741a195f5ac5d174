import Six.Ufs.Isolation
import Six.Nvme.Protocol

/-! The passthrough ioctls of the two block drivers, which go through a bounce buffer of 4096 bytes:
`ufs_handle_scsi_ioctl`, `ufs_handle_query_ioctl` and `nvme_handle_passthru_ioctl`.  What is
modelled is the size of every copy; the checks of the user and of the user's memory, and the result
of a query, are parameters. -/

namespace Six.Block

open Lib Ufs

def bounceSize : Nat := 4096

def xferLen (dataLen : UInt32) : Nat := min dataLen.toNat bounceSize

structure Caller where
  rawio : Bool
  sysAdmin : Bool
  readable : Bool
  writable : Bool
  done : Bool

/-- `struct ufs_bsg_scsi_ioctl`; `data` is what is at `data_addr`, `none` for a null pointer. -/
structure ScsiIoctl where
  lun : UInt8
  opcode : UInt8
  rsvd : UInt16
  lba : UInt32
  blocks : UInt32
  dataLen : UInt32
  data : Option Mem

namespace ScsiIoctl

variable (sc : ScsiIoctl)

def isWrite : Bool := sc.opcode == 0x2a || sc.opcode == 0x3b || sc.opcode == 0xb5

def needsRawio : Bool := sc.opcode == 0x3b || sc.opcode == 0xb5

def bounce : Mem := fun i =>
  if sc.isWrite ∧ i < xferLen sc.dataLen then (sc.data.map (· i)).getD 0 else 0

def cdb (i : Fin 16) : UInt8 :=
  let len := UInt32.ofNat (xferLen sc.dataLen)
  if i = 0 then sc.opcode
  else if sc.opcode = 0x3b ∨ sc.opcode = 0x3c then
    match i.val with
    | 1 => (sc.rsvd &&& 0x1f).toUInt8
    | 2 => (sc.rsvd >>> 8).toUInt8
    | 3 => (sc.lba >>> 16).toUInt8
    | 4 => (sc.lba >>> 8).toUInt8
    | 5 => sc.lba.toUInt8
    | 6 => (len >>> 16).toUInt8
    | 7 => (len >>> 8).toUInt8
    | 8 => len.toUInt8
    | _ => 0
  else
    match i.val with
    | 2 => (sc.lba >>> 24).toUInt8
    | 3 => (sc.lba >>> 16).toUInt8
    | 4 => (sc.lba >>> 8).toUInt8
    | 5 => sc.lba.toUInt8
    | 7 => (sc.blocks >>> 8).toUInt8
    | 8 => sc.blocks.toUInt8
    | _ => 0

def entry : UtrdEntry where
  lun := sc.lun
  cdb := sc.cdb
  expDataLen := UInt32.ofNat (xferLen sc.dataLen)
  buf := some sc.bounce

/-- The length of the chunk that a `WRITE BUFFER` command names. -/
def paramLen : UInt32 :=
  ((sc.cdb 6).toUInt32 <<< 16) ||| ((sc.cdb 7).toUInt32 <<< 8) ||| (sc.cdb 8).toUInt32

/-- A `WRITE BUFFER` command in one of the two modes that hand a chunk to the firmware receiver. -/
def downloads : Bool :=
  sc.opcode == 0x3b && (sc.cdb 1 &&& 0x1f == 0x05 || sc.cdb 1 &&& 0x1f == 0x0e)

end ScsiIoctl

/-- `struct nvme_passthru_cmd`, for one of the two queues; `data` is what is at `addr`. -/
structure PassthruCmd where
  queue : Nvme.QueueId
  opcode : UInt8
  nsid : UInt32
  cdw10 : UInt32
  cdw11 : UInt32
  cdw12 : UInt32
  dataLen : UInt32
  data : Option Mem

namespace PassthruCmd

variable (cmd : PassthruCmd)

def needsSysAdmin : Bool :=
  cmd.queue == .admin &&
    (cmd.opcode == 0x11 || cmd.opcode == 0x10 || cmd.opcode == 0x80)

def bounce : Mem := fun i => if i < xferLen cmd.dataLen then (cmd.data.map (· i)).getD 0 else 0

def sqe : Nvme.Command where
  opcode := cmd.opcode
  nsid := if cmd.nsid = 0 then 1 else cmd.nsid
  prp1 := some cmd.bounce
  cdw10 := cmd.cdw10
  cdw11 := cmd.cdw11
  cdw12 := cmd.cdw12

end PassthruCmd

/-- The NVMe driver between two commands. -/
structure NvmeHost where
  env : Nvme.Env
  driver : Nvme.Driver
  idle : driver.Idle

def NvmeHost.submit (host : NvmeHost) (cmd : PassthruCmd) : Option Nvme.Queue.Submitted :=
  host.driver.submit host.env cmd.queue cmd.sqe

inductive Ioctl
  | scsi (u : UfsState) (sc : ScsiIoctl)
  | query (bufLen : UInt32) (bufAddr : Bool)
  | passthru (host : NvmeHost) (cmd : PassthruCmd)

/-- The bytes that a SCSI command moves between the file and the buffer, when it does. -/
def scsiCount (u : UfsState) (e : UtrdEntry) : Option Nat :=
  (u.lunOf e.lun).bind fun lun =>
    if UfsState.pastEnd lun e then none
    else
      match e.opcode with
      | .read10 => some (u.img.readCount (u.lseek (UfsState.startOff lun e)).pos e.byteLen.toNat)
      | .write10 => some (u.img.writeCount (u.lseek (UfsState.startOff lun e)).pos e.byteLen.toNat)
      | _ => none

/-- The bytes that an NVMe command moves between the buffer and the file or the firmware receiver,
when it does. -/
def nvmeCount (c : Nvme.Ctrl) (queue : Nvme.QueueId) (cmd : Nvme.Command) : Option Nat :=
  match queue with
  | .io =>
    let pos := (c.lseek (c.base + Nvme.Ctrl.slba cmd * 512)).pos
    let len := (Nvme.Ctrl.nlb cmd * 512).toNat
    if !c.online || c.pastEnd (Nvme.Ctrl.slba cmd) (Nvme.Ctrl.nlb cmd) then none
    else
      match Nvme.IoOpcode.ofCode cmd.opcode with
      | .read => some (c.img.readCount pos len)
      | .write => some (c.img.writeCount pos len)
      | _ => none
  | .admin =>
    let bytes := if cmd.cdw12 ≠ 0 then cmd.cdw12 else (cmd.cdw10 + 1) * 4
    let offset := cmd.cdw11 * 4
    if Nvme.AdminOpcode.ofCode cmd.opcode = .downloadFw ∧ bytes ≠ 0 ∧
        (offset = 0 ∨ offset = c.fwStream.stagedLen) then some bytes.toNat
    else none

namespace Ioctl

def dataLen : Ioctl → UInt32
  | .scsi _ sc => sc.dataLen
  | .query bufLen _ => bufLen
  | .passthru _ cmd => cmd.dataLen

def pointer : Ioctl → Bool
  | .scsi _ sc => sc.data.isSome
  | .query _ bufAddr => bufAddr
  | .passthru _ cmd => cmd.data.isSome

def userCopy (i : Ioctl) : List Nat :=
  if 0 < xferLen i.dataLen ∧ i.pointer then [xferLen i.dataLen] else []

def copiesIn : Ioctl → Bool
  | .scsi _ sc => sc.isWrite
  | .query _ _ => false
  | .passthru _ _ => true

def refused (who : Caller) (i : Ioctl) : Bool :=
  (match i with
    | .scsi _ sc => sc.needsRawio && !who.rawio
    | .query _ _ => false
    | .passthru _ cmd => cmd.needsSysAdmin && !who.sysAdmin) ||
  i.copiesIn && i.userCopy ≠ [] && !who.readable

section

variable (writeBuffer : UfsState → UtrdEntry → UInt8 × UfsState) (who : Caller)

def copiesOut : Ioctl → Bool
  | .scsi u sc =>
    let r := u.ufsExecScsiUpiu writeBuffer sc.entry
    !sc.isWrite && r.response = 0 && r.status = 0 && who.writable
  | .query _ _ => who.done && who.writable
  | .passthru host cmd => (host.submit cmd).any (0 ≤ ·.code) && who.writable

/-- What the UFS device takes from the buffer for its firmware receiver. -/
def chunk : Ioctl → List Nat
  | .scsi u sc => if sc.downloads ∧ (u.lunOf sc.lun).isSome then [sc.paramLen.toNat] else []
  | _ => []

/-- What the device moves between the buffer and the file, or the firmware receiver of the NVMe
controller; `UNMAP` writes zeros of its own. -/
def moved : Ioctl → List Nat
  | .scsi u sc =>
    if sc.entry.opcode = .unmap then []
    else (u.ufsExecScsiUpiu writeBuffer sc.entry).accesses.map Access.len
  | .query _ _ => []
  | .passthru host cmd => (host.submit cmd).elim [] (·.executed.flatMap Nvme.Executed.moved)

def copies (i : Ioctl) : List Nat :=
  if i.refused who then []
  else (if i.copiesIn then i.userCopy else []) ++ i.chunk ++ i.moved writeBuffer ++
    if i.copiesOut writeBuffer who then i.userCopy else []

end

def count : Ioctl → Option Nat
  | .scsi u sc => scsiCount u sc.entry
  | .query _ _ => none
  | .passthru host cmd => nvmeCount host.driver.ctrl cmd.queue cmd.sqe

def Fits (i : Ioctl) (n : Nat) : Prop := n ≤ bounceSize ∧ n ≤ i.dataLen.toNat

variable {writeBuffer : UfsState → UtrdEntry → UInt8 × UfsState} {who : Caller} {i : Ioctl}
  {n : Nat} {sc : ScsiIoctl} {c : Nvme.Ctrl} {cmd : Nvme.Command} {buf : Buffer}

end Ioctl

end Six.Block
