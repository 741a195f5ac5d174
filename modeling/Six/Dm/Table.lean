import Six.Dm.Verity

/-! The mapped devices of the device mapper (`drivers/block/dm.c`): their tables, the control
requests that change them, `dm_setup_verity_slice`, and `dm_process_sector`.  `unsigned long` is 32
bits wide.  The block sizes, the read-only flags of the block layer and the counters that only
`/proc` and the status requests show are left out. -/

namespace Six.Dm

open Errno

/-- The target types, with `unknown` for the integers that name none. -/
inductive DmTargetType
  | none | linear | crypt | striped | zero | error | verity | unknown
  deriving DecidableEq, Repr

/-- `struct dm_target_spec`: one line of a table.  `key` is the string that starts at the field
`key`, and `rootHash` the first 64 characters of the field `root_hash`. -/
structure DmTargetSpec where
  startSector : UInt32
  numSectors : UInt32
  type : DmTargetType
  bdev : UInt16 := 0
  offsetSector : UInt32 := 0
  bdev2 : UInt16 := 0
  offsetSector2 : UInt32 := 0
  chunkSectors : UInt32 := 0
  ivOffset : UInt32 := 0
  hashStartSector : UInt32 := 0
  verifiedBlocks : UInt32 := 0
  corruptBlocks : UInt32 := 0
  key : List UInt8 := []
  rootHash : Fin 64 → UInt8 := fun _ => 0
  deriving DecidableEq

/-- `struct dm_device`.  The list `targets` is the first `num_targets` entries of the array. -/
structure DmDevice where
  active : Bool := false
  suspended : Bool := false
  ro : Bool := false
  openCount : Nat := 0
  name : List UInt8 := []
  totalSectors : UInt32 := 0
  targets : List DmTargetSpec := []
  parsedKey : Fin 8 → UInt32 := fun _ => 0
  veritySalt : Digest := fun _ => 0
  verityRootHash : Digest := fun _ => 0

/-- The fields of `struct dm_ioctl_req` that requests read.  `name` is the array of characters and
`targets` the array of table lines. -/
structure DmIoctlReq where
  minor : Int
  name : List UInt8
  ro : Bool := false
  numTargets : Int := 0
  targets : List DmTargetSpec := []

/-- The static variables of the driver, and the time that the next access to a backing device
happens at. -/
structure DmState where
  devs : Fin 8 → DmDevice
  dataBuf : Block
  hashBuf : Block
  lastVerityDev : Option (Fin 8)
  lastVerityBlk : UInt32
  time : Nat

def dmInit : DmState where
  devs := fun _ => {}
  dataBuf := fun _ => 0
  hashBuf := fun _ => 0
  lastVerityDev := .none
  lastVerityBlk := 0xffffffff
  time := 0

def DmState.setDev (s : DmState) (m : Fin 8) (dev : DmDevice) : DmState :=
  { s with devs := Function.update s.devs m dev }

def cstr (chars : List UInt8) : List UInt8 := chars.takeWhile (· ≠ 0)

/-- The name in a request, after the driver has put a zero in the last character of the array. -/
def DmIoctlReq.nameStr (req : DmIoctlReq) : List UInt8 := cstr (req.name.take 31)

def firstMinor (q : Fin 8 → Bool) : Option (Fin 8) := (List.finRange 8).find? q

def dmFindByName (s : DmState) (name : List UInt8) : Option (Fin 8) :=
  if name = [] then .none else firstMinor fun i => (s.devs i).active && (s.devs i).name == name

def minor? (m : Int) : Option (Fin 8) :=
  if h : 0 ≤ m ∧ m < 8 then some ⟨m.toNat, by omega⟩ else .none

def dmResolveMinor (s : DmState) (req : DmIoctlReq) (inodeMinor : Int) : Option (Fin 8) :=
  (dmFindByName s req.nameStr).orElse fun _ =>
    (minor? req.minor).orElse fun _ => minor? inodeMinor

/-- The device under construction in `DM_IOC_CREATE`, with `dm_verity_data_buf` and the time. -/
structure Loading where
  dev : DmDevice
  dataBuf : Block
  time : Nat

/-- The table, total size and key of a device after the line `t` is appended to its table. -/
def DmDevice.addTarget (dev : DmDevice) (t : DmTargetSpec) : DmDevice :=
  let endSec := t.startSector + t.numSectors
  { dev with
    targets := dev.targets ++ [t]
    totalSectors := if endSec > dev.totalSectors then endSec else dev.totalSectors
    parsedKey := if t.type = .crypt then dmDeriveKey t.key else dev.parsedKey }

variable (disk : Backing)

/-- One iteration of the loop of `DM_IOC_CREATE` over the table.  `binSalt` is the default salt
`VERITY_BIN_SALT_STR`, padded with zeros. -/
def loadTarget (binSalt : Digest) (l : Loading) (t : DmTargetSpec) : Loading :=
  let dev := l.dev.addTarget t
  if t.type = .verity then
    let r := dmReadPhys1k disk t.bdev t.hashStartSector l.dataBuf l.time
    let salt := if r.err = 0 ∧ sbMagic r.buf = verityMagic then sbSalt r.buf else binSalt
    { dev := { dev with
        ro := true
        veritySalt := salt
        verityRootHash := parseRootHash dev.verityRootHash t.rootHash }
      dataBuf := r.buf
      time := r.time }
  else { l with dev := dev }

/-- The minor that `DM_IOC_CREATE` uses, or the error that it returns before it changes
anything. -/
def dmCreateMinor (s : DmState) (req : DmIoctlReq) : Except Int (Fin 8) :=
  if req.nameStr = [] ∨ req.numTargets ≤ 0 ∨ req.numTargets > 4 then .error (-einval)
  else if (dmFindByName s req.nameStr).isSome then .error (-eexist)
  else
    let minor := if req.minor < 0 then firstMinor fun i => !(s.devs i).active else minor? req.minor
    match minor with
    | .none => .error (-enospc)
    | some m => if (s.devs m).active then .error (-ebusy) else .ok m

def DmIoctlReq.table (req : DmIoctlReq) : List DmTargetSpec := req.targets.take req.numTargets.toNat

def dmIocCreate (binSalt : Digest) (s : DmState) (req : DmIoctlReq) :
    Int × DmState :=
  match dmCreateMinor s req with
  | .error e => (e, s)
  | .ok m =>
    let fresh : DmDevice := { name := req.nameStr, ro := req.ro }
    let l := req.table.foldl (loadTarget disk binSalt) ⟨fresh, s.dataBuf, s.time⟩
    (0, { s.setDev m { l.dev with active := true, suspended := false } with
      dataBuf := l.dataBuf
      time := l.time })

def dmControlMinor : Int := 63

def dmIocRemove (s : DmState) (req : DmIoctlReq) (inodeMinor : Int) : Int × DmState :=
  match dmResolveMinor s req inodeMinor with
  | .none => (-enodev, s)
  | some m =>
    let dev := s.devs m
    if !dev.active then (-enodev, s)
    else if dev.openCount > 1 ∨ (inodeMinor = dmControlMinor ∧ dev.openCount > 0) then (-ebusy, s)
    else (0, s.setDev m {})

def DmTargetSpec.count (t : DmTargetSpec) (r : VerifyResult) : DmTargetSpec :=
  if r.err = 0 then { t with verifiedBlocks := t.verifiedBlocks + 1 }
  else if r.corrupt then { t with corruptBlocks := t.corruptBlocks + 1 } else t

def DmTargetSpec.uncounted (t : DmTargetSpec) : DmTargetSpec :=
  { t with verifiedBlocks := 0, corruptBlocks := 0 }

theorem DmTargetSpec.uncounted_count (t : DmTargetSpec) (r : VerifyResult) :
    (t.count r).uncounted = t.uncounted := by
  unfold DmTargetSpec.count
  split_ifs <;> rfl

/-- The state of the loop of `dm_setup_verity_slice` that checks blocks: whether no block has
failed, the counted target, the two buffers and the time. -/
structure Checking where
  ok : Bool
  target : DmTargetSpec
  dataBuf : Block
  hashBuf : Block
  time : Nat

def checkBlock (p : VerityParams) (salt root : Digest) (c : Checking)
    (blk : Nat) : Checking :=
  if !c.ok then c
  else
    let t := c.target
    let blkNr := UInt32.ofNat blk
    let r := dmReadPhys1k disk t.bdev (t.offsetSector + (blkNr <<< (1 : UInt32))) c.dataBuf c.time
    if r.err ≠ 0 then { c with ok := false, dataBuf := r.buf, time := r.time }
    else
      let v := dmVerifyVerityBlock disk p salt root t.bdev t.hashStartSector blkNr r.buf c.hashBuf
        r.time
      ⟨v.err = 0, t.count v, r.buf, v.hashBuf, v.time⟩

/-- The device number of `/dev/hdd`, `(HD_MAJOR << 8) | 192` with `HD_MAJOR` 3. -/
def hddDev : UInt16 := 0x3c0

def sliceTarget (offsetSec dataSecs hashSec : UInt32) (root : Digest) : DmTargetSpec where
  startSector := 0
  numSectors := dataSecs
  type := .verity
  bdev := hddDev
  offsetSector := offsetSec
  hashStartSector := hashSec
  rootHash := dmBytesToHex root

structure SliceArgs where
  name : List UInt8
  offsetSec : UInt32
  dataSecs : UInt32
  hashSec : UInt32
  expectedRootHash : Digest
  checkBlocks : Nat

def dmSetupVeritySlice (p : VerityParams) (s : DmState) (minor : Fin 8)
    (a : SliceArgs) : Int × DmState :=
  let r := dmReadPhys1k disk hddDev a.hashSec s.dataBuf s.time
  let s := { s with dataBuf := r.buf, time := r.time }
  if r.err ≠ 0 then (-eio, s)
  else if sbMagic r.buf ≠ verityMagic ∨ sbVersion r.buf ≠ 1 then (-einval, s)
  else if sbRootHash r.buf ≠ a.expectedRootHash then (-eio, s)
  else
    let old := s.devs minor
    let salt := sbSalt r.buf
    let t := sliceTarget a.offsetSec a.dataSecs a.hashSec a.expectedRootHash
    let c := (List.range a.checkBlocks).foldl (checkBlock disk p salt a.expectedRootHash)
      ⟨true, t, s.dataBuf, s.hashBuf, s.time⟩
    let s := { s with dataBuf := c.dataBuf, hashBuf := c.hashBuf, time := c.time }
    if !c.ok then (-eio, s)
    else
      (0, s.setDev minor
        { active := true
          ro := true
          openCount := if old.active then old.openCount else 1
          name := a.name.take 31
          totalSectors := a.dataSecs
          targets := [c.target]
          veritySalt := salt
          verityRootHash := a.expectedRootHash })

inductive Cmd
  | read | write
  deriving DecidableEq, Repr

/-- Sector `sec` of a device lies in the line `t`, with the end of the line computed modulo
`2^32`. -/
def DmTargetSpec.covers (t : DmTargetSpec) (sec : UInt32) : Bool :=
  t.startSector ≤ sec && sec < t.startSector + t.numSectors

def DmDevice.findTarget (dev : DmDevice) (sec : UInt32) : Option (Nat × DmTargetSpec) :=
  match dev.targets.findIdx? (·.covers sec) with
  | .none => .none
  | some i => (dev.targets[i]?).map fun t => (i, t)

structure Processed where
  err : Int
  buf : Sector
  state : DmState

def dmRwPhysSector (s : DmState) (bdev : UInt16) (physSec : UInt32) (buf : Sector)
    (cmd : Cmd) : Processed :=
  match cmd with
  | .read =>
    let r := disk.read s.time bdev physSec
    ⟨r.err, r.data, { s with time := s.time + 1 }⟩
  | .write => ⟨disk.write s.time bdev physSec buf, buf, { s with time := s.time + 1 }⟩

/-- The block number and the half of a block that a sector relative to the start of a verity line
lies in. -/
def blkNrOf (relSec : UInt32) : UInt32 := relSec >>> 1
def secondHalf (relSec : UInt32) : Bool := relSec &&& 1 = 1

/-- The second-half fast path of the verity branch is taken: the last first-half read that
succeeded was of the same block number of the same device. -/
def DmState.fastPath (s : DmState) (m : Fin 8) (relSec : UInt32) : Bool :=
  secondHalf relSec && (s.lastVerityDev == some m && s.lastVerityBlk == blkNrOf relSec)

def dmReadVerity (p : VerityParams) (s : DmState) (m : Fin 8) (i : Nat)
    (t : DmTargetSpec) (relSec : UInt32) (buf : Sector) : Processed :=
  if s.fastPath m relSec then ⟨0, s.dataBuf.half true, { s with lastVerityDev := .none }⟩
  else
    let dev := s.devs m
    let blkNr := blkNrOf relSec
    let r := dmReadPhys1k disk t.bdev (t.offsetSector + (blkNr <<< (1 : UInt32))) s.dataBuf s.time
    let s := { s with lastVerityDev := .none, dataBuf := r.buf, time := r.time }
    if r.err ≠ 0 then ⟨r.err, buf, s⟩
    else
      let v := dmVerifyVerityBlock disk p dev.veritySalt dev.verityRootHash t.bdev
        t.hashStartSector blkNr r.buf s.hashBuf s.time
      let dev := { dev with targets := dev.targets.set i (t.count v) }
      let s := { s.setDev m dev with hashBuf := v.hashBuf, time := v.time }
      if v.err ≠ 0 then ⟨v.err, buf, s⟩
      else
        let s := if secondHalf relSec then s
          else { s with lastVerityDev := some m, lastVerityBlk := blkNr }
        ⟨0, r.buf.half (secondHalf relSec), s⟩

def stripeOf (t : DmTargetSpec) (relSec : UInt32) : UInt16 × UInt32 :=
  let chunk := if t.chunkSectors ≠ 0 then t.chunkSectors else 8
  let chunkIdx := relSec / chunk
  let inChunk := relSec % chunk
  let stripeChunk := chunkIdx / 2
  if chunkIdx % 2 = 0 then (t.bdev, t.offsetSector + stripeChunk * chunk + inChunk)
  else (t.bdev2, t.offsetSector2 + stripeChunk * chunk + inChunk)

def dmProcessSector (p : VerityParams) (s : DmState) (m : Fin 8) (sec : UInt32)
    (buf : Sector) (cmd : Cmd) : Processed :=
  let dev := s.devs m
  match dev.findTarget sec with
  | .none => ⟨-eio, buf, s⟩
  | some (i, t) =>
    let relSec := sec - t.startSector
    match t.type, cmd with
    | .linear, cmd => dmRwPhysSector disk s t.bdev (t.offsetSector + relSec) buf cmd
    | .crypt, .read =>
      let r := dmRwPhysSector disk s t.bdev (t.offsetSector + relSec) buf .read
      if r.err ≠ 0 then ⟨r.err, buf, r.state⟩
      else ⟨0, dmCryptSector dev.parsedKey (t.ivOffset + relSec) r.buf, r.state⟩
    | .crypt, .write =>
      let enc := dmCryptSector dev.parsedKey (t.ivOffset + relSec) buf
      let r := dmRwPhysSector disk s t.bdev (t.offsetSector + relSec) enc .write
      ⟨r.err, buf, r.state⟩
    | .verity, .write => ⟨-eacces, buf, s⟩
    | .verity, .read => dmReadVerity disk p s m i t relSec buf
    | .striped, cmd =>
      dmRwPhysSector disk s (stripeOf t relSec).1 (stripeOf t relSec).2 buf cmd
    | .zero, .read => ⟨0, fun _ => 0, s⟩
    | .zero, .write => ⟨0, buf, s⟩
    | .error, _ | .none, _ | .unknown, _ => ⟨-eio, buf, s⟩

end Six.Dm
