import Six.Base.Digest
import Six.Lib.Bytes

/-! The payload of an update package: the records of `struct six_crau_header` and
`struct six_crau_op` (`include/linux/ufs.h`) as bytes, and how `port/image/mkotazip.py` builds a
payload out of two pairs of slices.  A slice is a function from offsets to bytes; SHA-256 is a
parameter. -/

namespace Six.Ota

open Lib List

inductive CrauOpType
  | sourceCopy | replace | zero
  deriving DecidableEq, Repr

/-- The values of `SIX_CRAU_OP_SOURCE_COPY`, `SIX_CRAU_OP_REPLACE` and `SIX_CRAU_OP_ZERO`. -/
def CrauOpType.code : CrauOpType → UInt8
  | .sourceCopy => 0
  | .replace => 1
  | .zero => 2

def crauPartSystem : UInt8 := 0
def crauPartVendor : UInt8 := 1

structure CrauOp where
  partId : UInt8
  opType : UInt8
  numBlocks : UInt16
  srcBlock : UInt32
  dstBlock : UInt32
  blobOffset : UInt32
  blobSize : UInt32
  dataSha256 : Digest

def crauOpSize : Nat := 52

def CrauOp.encode (op : CrauOp) : List UInt8 :=
  [op.partId] ++ ([op.opType] ++ (leBytes 2 op.numBlocks.toNat ++ (leBytes 4 op.srcBlock.toNat ++
    (leBytes 4 op.dstBlock.toNat ++ (leBytes 4 op.blobOffset.toNat ++
      (leBytes 4 op.blobSize.toNat ++ op.dataSha256.bytes))))))

def CrauOp.decode (bs : List UInt8) : CrauOp where
  partId := bs.getD 0 0
  opType := bs.getD 1 0
  numBlocks := UInt16.ofNat (leNat (fieldAt bs 2 2))
  srcBlock := UInt32.ofNat (leNat (fieldAt bs 4 4))
  dstBlock := UInt32.ofNat (leNat (fieldAt bs 8 4))
  blobOffset := UInt32.ofNat (leNat (fieldAt bs 12 4))
  blobSize := UInt32.ofNat (leNat (fieldAt bs 16 4))
  dataSha256 := Digest.at bs 20

@[simp] theorem CrauOp.length_encode (op : CrauOp) : op.encode.length = crauOpSize := by
  simp [encode, crauOpSize]

theorem CrauOp.decode_encode (op : CrauOp) : decode op.encode = op := by
  have hsha : Digest.at op.encode 20 = op.dataSha256 := by
    rw [encode, ← append_nil op.dataSha256.bytes]
    simp only [← append_assoc _ _ (op.dataSha256.bytes ++ [])]
    exact Digest.at_append (by simp) []
  have hfields : fieldAt op.encode 2 2 = leBytes 2 op.numBlocks.toNat ∧
      fieldAt op.encode 4 4 = leBytes 4 op.srcBlock.toNat ∧
      fieldAt op.encode 8 4 = leBytes 4 op.dstBlock.toNat ∧
      fieldAt op.encode 12 4 = leBytes 4 op.blobOffset.toNat ∧
      fieldAt op.encode 16 4 = leBytes 4 op.blobSize.toNat := by
    refine ⟨?_, ?_, ?_, ?_, ?_⟩
    all_goals
      simp (disch := simp) only [encode, fieldAt_append_right, length_singleton,
        length_leBytes, Nat.reduceSub]
      exact fieldAt_append_left (by simp)
  obtain ⟨hnum, hsrc, hdst, hoff, hsize⟩ := hfields
  simp only [decode, hsha, hnum, hsrc, hdst, hoff, hsize, ofNat_leNat_leBytes16,
    ofNat_leNat_leBytes32, UInt32.ofNat_toNat]
  rfl

/-- The fields of `struct six_crau_header` that `cmd_install_zip` reads before and in its loop over
the operations. -/
structure CrauHeader where
  magic : List UInt8
  version : UInt32
  headerSize : UInt32
  numOps : UInt32
  opsSize : UInt32
  blobOffset : UInt32
  manifestSha256 : Digest

def crauHeaderSize : Nat := 256

def crauMagic : List UInt8 := [0x43, 0x72, 0x41, 0x55]

def crauVersion : UInt32 := 2

def CrauHeader.decode (bs : List UInt8) : CrauHeader where
  magic := fieldAt bs 0 4
  version := UInt32.ofNat (leNat (fieldAt bs 4 4))
  headerSize := UInt32.ofNat (leNat (fieldAt bs 8 4))
  numOps := UInt32.ofNat (leNat (fieldAt bs 12 4))
  opsSize := UInt32.ofNat (leNat (fieldAt bs 16 4))
  blobOffset := UInt32.ofNat (leNat (fieldAt bs 20 4))
  manifestSha256 := Digest.at bs 104

/-- The arguments of `build_ota_zip` that only end up in the header. -/
structure BuildInfo where
  rollbackIndex : UInt64
  systemRootHash : Digest
  vendorRootHash : Digest
  buildId : List UInt8
  release : List UInt8
  securityPatch : List UInt8

/-- `text[:n - 1].ljust(n, b"\0")`. -/
def ljust (n : Nat) (text : List UInt8) : List UInt8 :=
  text.take (n - 1) ++ List.replicate (n - (text.take (n - 1)).length) 0

@[simp] theorem length_ljust (text : List UInt8) : (ljust n text).length = n := by
  simp only [ljust, length_append, length_replicate, length_take]
  omega

def packHeader (isFull : Bool) (info : BuildInfo) (numOps opsSize blobSize : Nat)
    (manifest : Digest) : List UInt8 :=
  crauMagic ++ (leBytes 4 crauVersion.toNat ++ (leBytes 4 crauHeaderSize ++ (leBytes 4 numOps ++
    (leBytes 4 opsSize ++ (leBytes 4 (crauHeaderSize + opsSize) ++ (leBytes 4 blobSize ++
      (leBytes 4 (if isFull then 1 else 0) ++ (leBytes 8 info.rollbackIndex.toNat ++
        (info.systemRootHash.bytes ++ (info.vendorRootHash.bytes ++ (manifest.bytes ++
          (ljust 64 info.buildId ++ (ljust 32 info.release ++ (ljust 16 info.securityPatch ++
            List.replicate 8 0))))))))))))))

@[simp] theorem length_packHeader (isFull : Bool) (info : BuildInfo) (numOps opsSize blobSize : Nat)
    (manifest : Digest) :
    (packHeader isFull info numOps opsSize blobSize manifest).length = crauHeaderSize := by
  simp [packHeader, crauMagic, crauHeaderSize]

theorem CrauHeader.decode_packHeader (isFull : Bool) (info : BuildInfo)
    (numOps opsSize blobSize : Nat) (manifest : Digest) :
    decode (packHeader isFull info numOps opsSize blobSize manifest) =
      { magic := crauMagic
        version := crauVersion
        headerSize := UInt32.ofNat crauHeaderSize
        numOps := UInt32.ofNat numOps
        opsSize := UInt32.ofNat opsSize
        blobOffset := UInt32.ofNat (crauHeaderSize + opsSize)
        manifestSha256 := manifest } := by
  have hmagic : crauMagic.length = 4 := rfl
  have hsha : Digest.at (packHeader isFull info numOps opsSize blobSize manifest) 104 =
      manifest := by
    simp only [packHeader, ← append_assoc _ _ (manifest.bytes ++ _)]
    exact Digest.at_append (by simp [hmagic]) _
  have hfields : fieldAt (packHeader isFull info numOps opsSize blobSize manifest) 0 4 = crauMagic ∧
      fieldAt (packHeader isFull info numOps opsSize blobSize manifest) 4 4 =
        leBytes 4 crauVersion.toNat ∧
      fieldAt (packHeader isFull info numOps opsSize blobSize manifest) 8 4 =
        leBytes 4 crauHeaderSize ∧
      fieldAt (packHeader isFull info numOps opsSize blobSize manifest) 12 4 = leBytes 4 numOps ∧
      fieldAt (packHeader isFull info numOps opsSize blobSize manifest) 16 4 = leBytes 4 opsSize ∧
      fieldAt (packHeader isFull info numOps opsSize blobSize manifest) 20 4 =
        leBytes 4 (crauHeaderSize + opsSize) := by
    refine ⟨?_, ?_, ?_, ?_, ?_, ?_⟩
    · exact fieldAt_append_left rfl
    all_goals
      simp (disch := simp [hmagic]) only [packHeader, fieldAt_append_right, hmagic,
        length_leBytes, Nat.reduceSub]
      exact fieldAt_append_left (by simp)
  obtain ⟨hmag, hver, hsize, hnum, hops, hblob⟩ := hfields
  simp only [decode, hsha, hmag, hver, hsize, hnum, hops, hblob, ofNat_leNat_leBytes32,
    UInt32.ofNat_toNat]

def crauBlockSize : Nat := 4096

def fromBlock (slice : Nat → UInt8) (b i : Nat) : UInt8 := slice (b * crauBlockSize + i)

def blockType (isFull : Bool) (src dst : Nat → UInt8) (b : Nat) : CrauOpType :=
  if sameBytes crauBlockSize (fromBlock dst b) fun _ => 0 then .zero
  else if !isFull && sameBytes crauBlockSize (fromBlock dst b) (fromBlock src b) then .sourceCopy
  else .replace

/-- The number of blocks of type `ty`, at most `limit`, that follow each other from `b` on: the
inner loop of `diff_partition_4k`. -/
def runLength (isFull : Bool) (src dst : Nat → UInt8) (ty : CrauOpType) : Nat → Nat → Nat
  | 0, _ => 0
  | limit + 1, b =>
    if blockType isFull src dst b = ty then 1 + runLength isFull src dst ty limit (b + 1) else 0

/-- `dst_slice[b * CRAU_BLOCK_SIZE : (b + n) * CRAU_BLOCK_SIZE]`. -/
def blockBytes (dst : Nat → UInt8) (b n : Nat) : List UInt8 :=
  (List.range (n * crauBlockSize)).map (fromBlock dst b)

def opBlob (dst : Nat → UInt8) (ty : CrauOpType) (b n : Nat) : List UInt8 :=
  if ty = .replace then blockBytes dst b n else []

variable (sha256 : List UInt8 → Digest)

/-- The operation for the `n` blocks of type `ty` from `b` on, when `blobs` has `blobOff` bytes. -/
def packOp (partId : UInt8) (dst : Nat → UInt8) (ty : CrauOpType)
    (b n blobOff : Nat) : CrauOp where
  partId := partId
  opType := ty.code
  numBlocks := UInt16.ofNat n
  srcBlock := if ty = .sourceCopy then UInt32.ofNat b else 0
  dstBlock := UInt32.ofNat b
  blobOffset := if ty = .replace then UInt32.ofNat blobOff else 0
  blobSize := if ty = .replace then UInt32.ofNat (n * crauBlockSize) else 0
  dataSha256 := if ty = .replace then sha256 (blockBytes dst b n) else fun _ => 0

/-- The operations of `diff_partition_4k` for the blocks from `b` on, and `blobs` afterwards.  An
operation covers at most 4096 blocks of one type. -/
def diffPartition4k (sha256 : List UInt8 → Digest) (partId : UInt8) (isFull : Bool)
    (src dst : Nat → UInt8) (total4k b : Nat) (blobs : List UInt8) : List CrauOp × List UInt8 :=
  if b < total4k then
    let ty := blockType isFull src dst b
    let n := 1 + runLength isFull src dst ty (min (total4k - (b + 1)) 4095) (b + 1)
    let rest := diffPartition4k sha256 partId isFull src dst total4k (b + n)
      (blobs ++ opBlob dst ty b n)
    (packOp sha256 partId dst ty b n blobs.length :: rest.1, rest.2)
  else ([], blobs)
termination_by total4k - b

structure Slices where
  sysA : Nat → UInt8
  vndA : Nat → UInt8
  sysDst : Nat → UInt8
  vndDst : Nat → UInt8

/-- The sizes of the slices, 16 MiB and 4 MiB, in blocks. -/
def system4k : Nat := 4096
def vendor4k : Nat := 1024

def systemDiff (isFull : Bool) (sl : Slices) :
    List CrauOp × List UInt8 :=
  diffPartition4k sha256 crauPartSystem isFull sl.sysA sl.sysDst system4k 0 []

def vendorDiff (isFull : Bool) (sl : Slices) :
    List CrauOp × List UInt8 :=
  diffPartition4k sha256 crauPartVendor isFull sl.vndA sl.vndDst vendor4k 0
    (systemDiff sha256 isFull sl).2

def buildOps (isFull : Bool) (sl : Slices) : List CrauOp :=
  (systemDiff sha256 isFull sl).1 ++ (vendorDiff sha256 isFull sl).1

def opsBytes (ops : List CrauOp) : List UInt8 := ops.flatMap CrauOp.encode

def buildPayload (isFull : Bool) (info : BuildInfo) (sl : Slices) :
    List UInt8 :=
  let ops := buildOps sha256 isFull sl
  let blobs := (vendorDiff sha256 isFull sl).2
  packHeader isFull info ops.length (opsBytes ops).length blobs.length (sha256 (opsBytes ops)) ++
    (opsBytes ops ++ blobs)

end Six.Ota
