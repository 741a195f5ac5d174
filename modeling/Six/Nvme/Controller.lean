import Six.Fwupd.Stream
import Six.Lib.Buffer
import Six.Lib.HostFile

/-! The NVMe controller (`drivers/block/nvme.c`, `include/linux/nvme.h`): its state, the persistent
header in the backing file, and the execution of admin and I/O commands.  `unsigned long` is 32 bits
wide.  The memory at `prp1` is a function from offsets to bytes, `none` for a null pointer, and is
no part of the controller; `jiffies` and the compression function of SHA-256 are parameters. -/

namespace Six.Nvme

open Lib

structure Env where
  compress : Fwupd.Compress
  jiffies : UInt32

inductive AdminOpcode
  | deleteSq | createSq | getLogPage | deleteCq | createCq | identify | abortCmd | setFeatures
  | getFeatures | activateFw | downloadFw | formatNvm | unknown
  deriving DecidableEq, Repr

def AdminOpcode.ofCode (code : UInt8) : AdminOpcode :=
  if code = 0x00 then .deleteSq
  else if code = 0x01 then .createSq
  else if code = 0x02 then .getLogPage
  else if code = 0x04 then .deleteCq
  else if code = 0x05 then .createCq
  else if code = 0x06 then .identify
  else if code = 0x08 then .abortCmd
  else if code = 0x09 then .setFeatures
  else if code = 0x0a then .getFeatures
  else if code = 0x10 then .activateFw
  else if code = 0x11 then .downloadFw
  else if code = 0x80 then .formatNvm
  else .unknown

inductive IoOpcode
  | flush | write | read | writeZeroes | dsm | unknown
  deriving DecidableEq, Repr

def IoOpcode.ofCode (code : UInt8) : IoOpcode :=
  if code = 0x00 then .flush
  else if code = 0x01 then .write
  else if code = 0x02 then .read
  else if code = 0x08 then .writeZeroes
  else if code = 0x09 then .dsm
  else .unknown

structure Command where
  opcode : UInt8
  commandId : UInt16 := 0
  nsid : UInt32 := 0
  prp1 : Option Buffer := none
  cdw10 : UInt32 := 0
  cdw11 : UInt32 := 0
  cdw12 : UInt32 := 0

def nvmeScSuccess : UInt16 := 0x00
def nvmeScInvalidOpcode : UInt16 := 0x01
def nvmeScInvalidField : UInt16 := 0x02
def nvmeScInvalidNs : UInt16 := 0x0b
def nvmeScLbaRange : UInt16 := 0x80
def nvmeScReadOnly : UInt16 := 0x82
def nvmeScFwSlotInvalid : UInt16 := 0x106
def nvmeScFwImageError : UInt16 := 0x107

structure Smart where
  hostReads : UInt32 := 0
  hostWrites : UInt32 := 0
  sectorsRead : UInt32 := 0
  sectorsWritten : UInt32 := 0
  flushCmds : UInt32 := 0
  dsmCmds : UInt32 := 0
  dsmSectorsTrimmed : UInt32 := 0
  mediaErrors : UInt32 := 0
  powerCycles : UInt32 := 1

/-- The static variables of the driver, with the backing file and its position.  `online` stands for
`nvme_online && nvme_fd >= 0`, which `nvme_init` sets together. -/
structure Ctrl where
  online : Bool
  img : HostFile
  pos : Nat
  base : UInt32
  sectors : UInt32
  smart : Smart
  activeFwSlot : UInt8
  fwSlots : Fin 2 → Fin 8 → UInt8
  fwSlotSha256 : Fin 2 → Digest
  fwCommitCount : UInt32
  fwStream : Fwupd.StreamState

/-- What the execution of a command comes to.  `moved` has the lengths of the transfers between the
memory at `prp1` and the backing file or the firmware receiver. -/
structure Executed where
  result : UInt32 := 0
  status : UInt16 := nvmeScSuccess
  prp1 : Option Buffer
  state : Ctrl
  moved : List Nat := []

def text (t : String) : List UInt8 := t.toList.map fun c => UInt8.ofNat c.toNat

structure PersistHdr where
  magic : UInt32
  activeFwSlot : UInt8
  rsvd0 : Fin 3 → UInt8 := fun _ => 0
  fwSlot1 : Fin 8 → UInt8
  fwSlot2 : Fin 8 → UInt8
  fwSha1 : Digest
  fwSha2 : Digest
  fwCommitCount : UInt32
  powerCycles : UInt32
  rsvd : Fin 416 → UInt8 := fun _ => 0

open Codec in
def PersistHdr.codec : Codec PersistHdr :=
  (u32.pair <| u8.pair <| (array 3).pair <| (array 8).pair <| (array 8).pair <| (array 32).pair <|
    (array 32).pair <| u32.pair <| u32.pair <| array 416).imap
    (fun ⟨magic, activeFwSlot, rsvd0, fwSlot1, fwSlot2, fwSha1, fwSha2, fwCommitCount, powerCycles,
        rsvd⟩ =>
      ⟨magic, activeFwSlot, rsvd0, fwSlot1, fwSlot2, fwSha1, fwSha2, fwCommitCount, powerCycles,
        rsvd⟩)
    (fun h => ⟨h.magic, h.activeFwSlot, h.rsvd0, h.fwSlot1, h.fwSlot2, h.fwSha1, h.fwSha2,
      h.fwCommitCount, h.powerCycles, h.rsvd⟩)
    fun _ => rfl

def nvmeHdrMagic : UInt32 := 0x454d5632

/-- The memory `buf` with a record of `n` bytes at its start: the given fields, each at its offset,
and zeros between them. -/
def page (n : Nat) (fields : List (Nat × List UInt8)) (buf : Buffer) : Buffer := fun i =>
  if i < n then
    (fields.findSome? fun f => if f.1 ≤ i then f.2[i - f.1]? else none).getD 0
  else buf i

def le16 (x : UInt16) : List UInt8 := Codec.u16.enc x
def le32 (x : UInt32) : List UInt8 := Codec.u32.enc x

def padded (n : Nat) (t : String) : List UInt8 :=
  text t ++ List.replicate (n - (text t).length) 0x20

namespace Ctrl

variable (env : Env) (c : Ctrl)

def fillIdCtrl : Buffer → Buffer :=
  page 4096
    [(0, le16 0x1b36), (2, le16 0x1b36), (4, padded 20 "SIX-NVME-2026-0001"),
      (24, padded 40 "SIX Virtual NVMe SSD Controller"),
      (64, (Codec.array 8).enc (c.fwSlots (if c.activeFwSlot = 2 then 1 else 0))),
      (72, [6]), (73, [0x54, 0x52, 0x00]), (77, [5]), (78, le16 1), (80, le32 0x00010400),
      (256, le16 0x0006), (258, [3]), (259, [3]), (260, [0x15]), (261, [0x02]), (262, [63]),
      (263, [0]), (266, le16 343), (268, le16 358), (512, [0x66]), (513, [0x44]), (514, le16 64),
      (516, le32 1), (520, le16 0x000c), (525, [0x01]), (526, le16 0), (528, le16 0),
      (540, le32 1), (768, text "nqn.2026-09.org.six:nvme:userdata-ssd-0001")]

def fillIdNs : Buffer → Buffer :=
  let used := if c.smart.dsmSectorsTrimmed < c.sectors then
    c.sectors - c.smart.dsmSectorsTrimmed else c.sectors
  page 4096
    [(0, le32 c.sectors), (8, le32 c.sectors), (16, le32 used), (24, [0x04]), (25, [0]), (26, [0]),
      (33, [0x01]), (48, le32 (c.sectors * 512)), (104, text "SIXNVME0N1USER01"),
      (120, text "SIXNVME1"), (128, le16 0), (130, [9]), (131, [0])]

/-- The number of units of 1000 sectors, at least one for any sector. -/
def dataUnits (n : UInt32) : UInt32 :=
  if n > 0 ∧ (n + 999) / 1000 = 0 then 1 else (n + 999) / 1000

def fillSmartLog : Buffer → Buffer :=
  let m := c.smart
  page 512
    [(1, le16 308), (3, [100]), (4, [10]), (5, [0]), (32, le32 (dataUnits m.sectorsRead)),
      (48, le32 (dataUnits m.sectorsWritten)), (64, le32 m.hostReads), (80, le32 m.hostWrites),
      (96, le32 ((m.hostReads + m.hostWrites) / 500)), (112, le32 m.powerCycles),
      (128, le32 (env.jiffies / 360000)), (160, le32 m.mediaErrors), (200, le16 308),
      (202, le16 310), (216, le32 m.dsmCmds), (220, le32 m.dsmSectorsTrimmed),
      (224, le32 m.flushCmds), (228, le32 m.sectorsRead), (232, le32 m.sectorsWritten)]

def fillFwSlotLog : Buffer → Buffer :=
  let slot := c.activeFwSlot &&& 0x07
  page 512
    [(0, [slot ||| (slot <<< 4)]), (8, (Codec.array 8).enc (c.fwSlots 0)),
      (16, (Codec.array 8).enc (c.fwSlots 1)), (64, (c.fwSlotSha256 0).bytes),
      (96, (c.fwSlotSha256 1).bytes), (128, le32 c.fwCommitCount)]

def lseek (off : UInt32) : Ctrl := { c with pos := seek c.pos off }

/-- A write of the first `n` bytes of `src` at the position: how many bytes were written, and the
controller after it. -/
def write (n : Nat) (src : Buffer) : Nat × Ctrl :=
  let count := c.img.writeCount c.pos n
  (count, { c with img := c.img.write c.pos n src, pos := c.pos + count })

def persistHdr : PersistHdr :=
  { magic := nvmeHdrMagic
    activeFwSlot := c.activeFwSlot
    fwSlot1 := c.fwSlots 0
    fwSlot2 := c.fwSlots 1
    fwSha1 := c.fwSlotSha256 0
    fwSha2 := c.fwSlotSha256 1
    fwCommitCount := c.fwCommitCount
    powerCycles := c.smart.powerCycles }

def nvmePersistHdrOffset : UInt32 := 0

def savePersistHdr : Ctrl :=
  if !c.online then c
  else
    ((c.lseek (c.base + nvmePersistHdrOffset)).write PersistHdr.codec.width
      (PersistHdr.codec.store c.persistHdr)).2

variable (cmd : Command)

def refuse (status : UInt16) : Executed :=
  { status := status, prp1 := cmd.prp1, state := c }

def fill (f : Buffer → Buffer) : Executed :=
  { prp1 := cmd.prp1.map f, state := c }

def identify : Executed :=
  let cns := cmd.cdw10 &&& 0xff
  if cmd.prp1.isNone then c.refuse cmd nvmeScInvalidField
  else if cns = 0x01 then c.fill cmd c.fillIdCtrl
  else if cns = 0x00 then
    if cmd.nsid ≠ 1 ∧ cmd.nsid ≠ 0xffffffff then c.refuse cmd nvmeScInvalidNs
    else c.fill cmd c.fillIdNs
  else if cns = 0x02 then c.fill cmd (page 4096 [(0, le32 1)])
  else c.refuse cmd nvmeScInvalidField

def getLogPage : Executed :=
  let lid := cmd.cdw10 &&& 0xff
  if cmd.prp1.isNone then c.refuse cmd nvmeScInvalidField
  else if lid = 0x02 then c.fill cmd (c.fillSmartLog env)
  else if lid = 0x03 then c.fill cmd c.fillFwSlotLog
  else if lid = 0x01 then c.fill cmd (page 512 [])
  else c.refuse cmd nvmeScInvalidField

def downloadFw : Executed :=
  let bytes := if cmd.cdw12 ≠ 0 then cmd.cdw12 else (cmd.cdw10 + 1) * 4
  match c.fwStream.writeChunk env.compress (cmd.cdw11 * 4) cmd.prp1 bytes with
  | none => c.refuse cmd nvmeScInvalidField
  | some st => { prp1 := cmd.prp1, state := { c with fwStream := st }, moved := [bytes.toNat] }

def fwSlotOf : UInt32 :=
  if cmd.cdw10 &&& 0x07 = 0 then 2 else cmd.cdw10 &&& 0x07

def deviceId : List UInt8 := text "SIX-NVME-SSD"

/-- The version that is recorded for an image: that of the image, or the one that the caller passes
for an image without a header. -/
def recordedVersion (st : Fwupd.StreamState) (cmd : Command) (detected : List UInt8) : List UInt8 :=
  match cmd.prp1 with
  | none => detected
  | some vh =>
    if Fwupd.hdrWord st.hdrBuf 4 ≠ Fwupd.fwupdBinMagic ∧ 0x21 ≤ vh 0 ∧ vh 0 ≤ 0x7e then
      Fwupd.textFrom vh 8 0
    else detected

/-- What a firmware commit does before it saves the header: the status if it is refused, and the
controller. -/
def commitFw : Option UInt16 × Ctrl :=
  let fs := fwSlotOf cmd
  let ca := (cmd.cdw10 >>> 3) &&& 0x07
  if fs < 1 ∨ fs > 2 then (some nvmeScFwSlotInvalid, c)
  else
    let slot : Fin 2 := if fs = 1 then 0 else 1
    if ca = 2 then
      if c.fwSlots slot 0 = 0x20 ∨ c.fwSlots slot 0 = 0 then (some nvmeScFwImageError, c)
      else (none, { c with activeFwSlot := fs.toUInt8, fwCommitCount := c.fwCommitCount + 1 })
    else if fs = 1 then (some nvmeScReadOnly, c)
    else
      let r := c.fwStream.validateAndFinalize env.compress deviceId 8
      let c := { c with fwStream := r.2 }
      match r.1 with
      | none => (some nvmeScFwImageError, c)
      | some image =>
        let ver := recordedVersion c.fwStream cmd image.version
        (none, { c with
          fwSlots := Function.update c.fwSlots slot fun i => ver.getD i 0x20
          fwSlotSha256 := Function.update c.fwSlotSha256 slot image.sha256
          activeFwSlot := if ca = 1 ∨ ca = 3 then fs.toUInt8 else c.activeFwSlot
          fwCommitCount := c.fwCommitCount + 1 })

def activateFw : Executed :=
  match c.commitFw env cmd with
  | (some status, c) => c.refuse cmd status
  | (none, c) => { prp1 := cmd.prp1, state := c.savePersistHdr }

def execAdminSqe : Executed :=
  match AdminOpcode.ofCode cmd.opcode with
  | .identify => c.identify cmd
  | .getLogPage => c.getLogPage env cmd
  | .downloadFw => c.downloadFw env cmd
  | .activateFw => c.activateFw env cmd
  | .createCq | .createSq | .deleteCq | .deleteSq | .abortCmd => { prp1 := cmd.prp1, state := c }
  | .getFeatures | .setFeatures =>
    { result := if cmd.cdw10 &&& 0xff = 0x06 then 1 else 0, prp1 := cmd.prp1, state := c }
  | .formatNvm =>
    if cmd.nsid ≠ 1 ∧ cmd.nsid ≠ 0xffffffff then c.refuse cmd nvmeScInvalidNs
    else
      { prp1 := cmd.prp1
        state := { c with smart := { c.smart with dsmSectorsTrimmed := 0 } } }
  | .unknown => c.refuse cmd nvmeScInvalidOpcode

def slba : UInt32 := cmd.cdw10
def nlb : UInt32 := (cmd.cdw12 &&& 0xffff) + 1

def lbaRange : Executed :=
  { status := nvmeScLbaRange
    prp1 := cmd.prp1
    state := { c with smart := { c.smart with mediaErrors := c.smart.mediaErrors + 1 } } }

/-- `slba + nlb > nvme_sectors`, in 32 bits. -/
def pastEnd (first count : UInt32) : Bool := first + count > c.sectors

def execRead : Executed :=
  match cmd.prp1 with
  | none => c.refuse cmd nvmeScInvalidField
  | some buf =>
    if c.pastEnd (slba cmd) (nlb cmd) then c.lbaRange cmd
    else
      let c := c.lseek (c.base + slba cmd * 512)
      let len := (nlb cmd * 512).toNat
      let count := c.img.readCount c.pos len
      let data : Buffer := fun i => if i < count then c.img.byte (c.pos + i) else buf i
      let done := { c with pos := c.pos + count }
      if count ≠ len then { done.lbaRange cmd with prp1 := some data, moved := [count] }
      else
        { prp1 := some data
          state := { done with smart := { c.smart with
            hostReads := c.smart.hostReads + 1
            sectorsRead := c.smart.sectorsRead + nlb cmd } }
          moved := [count] }

def execWrite : Executed :=
  match cmd.prp1 with
  | none => c.refuse cmd nvmeScInvalidField
  | some buf =>
    if c.pastEnd (slba cmd) (nlb cmd) then c.lbaRange cmd
    else
      let c := c.lseek (c.base + slba cmd * 512)
      let len := (nlb cmd * 512).toNat
      let w := c.write len buf
      if w.1 ≠ len then { w.2.lbaRange cmd with moved := [w.1] }
      else
        { prp1 := cmd.prp1
          moved := [w.1]
          state := { w.2 with smart := { c.smart with
            hostWrites := c.smart.hostWrites + 1
            sectorsWritten := c.smart.sectorsWritten + nlb cmd
            dsmSectorsTrimmed :=
              if c.smart.dsmSectorsTrimmed ≥ nlb cmd then c.smart.dsmSectorsTrimmed - nlb cmd
              else 0 } } }

/-- The loop of `nvme_zero_sectors`: `rem` sectors of zeros, eight at a time, from the current
position on. -/
def zeroLoop (c : Ctrl) (rem : Nat) : Ctrl :=
  if rem = 0 then c
  else zeroLoop (c.write (min rem 8 * 512) fun _ => 0).2 (rem - min rem 8)
termination_by rem

def zeroSectors (first count : UInt32) : Ctrl :=
  if !c.online ∨ first ≥ c.sectors then c
  else
    let rem := if c.pastEnd first count then c.sectors - first else count
    (c.lseek (c.base + first * 512)).zeroLoop rem.toNat

def execWriteZeroes : Executed :=
  if c.pastEnd (slba cmd) (nlb cmd) then c.lbaRange cmd
  else
    let c := c.zeroSectors (slba cmd) (nlb cmd)
    { prp1 := cmd.prp1
      state := { c with smart := { c.smart with
        hostWrites := c.smart.hostWrites + 1
        sectorsWritten := c.smart.sectorsWritten + nlb cmd } } }

structure DsmRange where
  slba : UInt32
  nlb : UInt32

def dsmRanges (buf : Buffer) (n : Nat) : List DsmRange :=
  (List.range n).map fun i =>
    ⟨Fwupd.hdrWord buf (16 * i + 8), Fwupd.hdrWord buf (16 * i + 4)⟩

def deallocate (r : DsmRange) : Ctrl :=
  if r.nlb > 0 then
    let c := c.zeroSectors r.slba r.nlb
    let trimmed := c.smart.dsmSectorsTrimmed + r.nlb
    { c with smart := { c.smart with
      dsmSectorsTrimmed := if trimmed > c.sectors then c.sectors else trimmed } }
  else c

def dsmLoop (c : Ctrl) : List DsmRange → UInt16 × Ctrl
  | [] => (nvmeScSuccess, c)
  | r :: rs =>
    if c.pastEnd r.slba r.nlb then (nvmeScLbaRange, c) else dsmLoop (c.deallocate r) rs

def nvmeDsmgmtAd : UInt32 := 4

/-- The number of ranges is at most 256, so that it needs no check. -/
def execDsm : Executed :=
  match cmd.prp1 with
  | none => c.refuse cmd nvmeScInvalidField
  | some buf =>
    let c := { c with smart := { c.smart with dsmCmds := c.smart.dsmCmds + 1 } }
    if cmd.cdw11 &&& nvmeDsmgmtAd ≠ 0 then
      let r := c.dsmLoop (dsmRanges buf ((cmd.cdw10 &&& 0xff) + 1).toNat)
      { status := r.1, prp1 := cmd.prp1, state := r.2 }
    else { prp1 := cmd.prp1, state := c }

def execIoSqe : Executed :=
  if !c.online then c.refuse cmd nvmeScInvalidNs
  else
    match IoOpcode.ofCode cmd.opcode with
    | .read => c.execRead cmd
    | .write => c.execWrite cmd
    | .flush =>
      { prp1 := cmd.prp1
        state := { c with smart := { c.smart with flushCmds := c.smart.flushCmds + 1 } } }
    | .writeZeroes => c.execWriteZeroes cmd
    | .dsm => c.execDsm cmd
    | .unknown => c.refuse cmd nvmeScInvalidOpcode

end Ctrl

end Six.Nvme
