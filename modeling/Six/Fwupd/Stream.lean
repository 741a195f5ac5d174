import Six.Base.Digest
import Six.Lib.Bytes

/-! The firmware receiver that the storage drivers share (`include/linux/fwupd.h`): an image is
streamed in chunks, hashed on the way, and validated once it is complete.  The compression function
of SHA-256 is a parameter. -/

namespace Six.Fwupd

open Lib List

/-- `fwupd_sha256_block` as a function of the state and of a block of 64 bytes. -/
abbrev Compress := (Fin 8 → UInt32) → (Nat → UInt8) → Fin 8 → UInt32

structure Sha256Ctx where
  state : Fin 8 → UInt32 := fun _ => 0
  totalLen : UInt32 := 0
  bufLen : Nat := 0
  buf : Nat → UInt8 := fun _ => 0

/-- `fwupd_sha256_init`, which leaves the buffer as it is. -/
def Sha256Ctx.init (ctx : Sha256Ctx) : Sha256Ctx :=
  { ctx with
    state := fun i => [0x6a09e667, 0xbb67ae85, 0x3c6ef372, 0xa54ff53a, 0x510e527f, 0x9b05688c,
      0x1f83d9ab, 0x5be0cd19].getD i 0
    totalLen := 0
    bufLen := 0 }

variable (compress : Compress)

def Sha256Ctx.feed (ctx : Sha256Ctx) (b : UInt8) : Sha256Ctx :=
  let buf := fun i => if i = ctx.bufLen then b else ctx.buf i
  if ctx.bufLen + 1 = 64 then { ctx with state := compress ctx.state buf, bufLen := 0, buf := buf }
  else { ctx with bufLen := ctx.bufLen + 1, buf := buf }

def Sha256Ctx.update (ctx : Sha256Ctx) (data : List UInt8) : Sha256Ctx :=
  data.foldl (feed compress) { ctx with totalLen := ctx.totalLen + UInt32.ofNat data.length }

def lengthBytes (totalLen : UInt32) : List UInt8 :=
  let hi := totalLen >>> 29
  let lo := totalLen * 8
  [(hi >>> 24).toUInt8, (hi >>> 16).toUInt8, (hi >>> 8).toUInt8, hi.toUInt8,
    (lo >>> 24).toUInt8, (lo >>> 16).toUInt8, (lo >>> 8).toUInt8, lo.toUInt8]

/-- `fwupd_sha256_final`: the digest, and the context with the state that the padding leaves. -/
def Sha256Ctx.final (ctx : Sha256Ctx) : Digest × Sha256Ctx :=
  let pad := fun i => if i < ctx.bufLen then ctx.buf i else if i = ctx.bufLen then 0x80 else 0
  let first := if ctx.bufLen ≥ 56 then compress ctx.state pad else ctx.state
  let pad := if ctx.bufLen ≥ 56 then fun _ => 0 else pad
  let state := compress first fun i =>
    if i < 56 then pad i else (lengthBytes ctx.totalLen).getD (i - 56) 0
  (fun i => (state ⟨i / 4, word_lt i⟩ >>> (24 - 8 * UInt32.ofNat (i % 4))).toUInt8,
    { ctx with state := state })

section Updates

variable {compress}

section

variable (ctx : Sha256Ctx)

theorem Sha256Ctx.update_nil : ctx.update compress [] = ctx := by
  rw [update, length_nil, foldl_nil]
  change { ctx with totalLen := ctx.totalLen + 0 } = ctx
  rw [UInt32.add_zero]

theorem Sha256Ctx.foldl_feed_totalLen (n : UInt32) (data : List UInt8) :
    data.foldl (feed compress) { ctx with totalLen := n } =
      { data.foldl (feed compress) ctx with totalLen := n } := by
  induction data generalizing ctx with
  | nil => rfl
  | cons b data ih =>
    have hfeed : ({ ctx with totalLen := n } : Sha256Ctx).feed compress b =
        { ctx.feed compress b with totalLen := n } := by
      unfold feed
      split <;> rfl
    rw [foldl_cons, foldl_cons, hfeed, ih]

theorem Sha256Ctx.totalLen_foldl_feed (data : List UInt8) :
    (data.foldl (feed compress) ctx).totalLen = ctx.totalLen := by
  rw [← congrArg totalLen (foldl_feed_totalLen ctx ctx.totalLen data)]

theorem Sha256Ctx.update_append (data more : List UInt8) :
    ctx.update compress (data ++ more) = (ctx.update compress data).update compress more := by
  have hlen : ctx.totalLen + UInt32.ofNat (data ++ more).length =
      ctx.totalLen + UInt32.ofNat data.length + UInt32.ofNat more.length := by
    rw [length_append, UInt32.ofNat_add, UInt32.add_assoc]
  rw [update, update, update, foldl_append, hlen]
  simp only [foldl_feed_totalLen]

end

end Updates

structure StreamState where
  hdrBuf : Nat → UInt8 := fun _ => 0
  hdrCaptured : UInt32 := 0
  stagedLen : UInt32 := 0
  nonzeroBytes : UInt32 := 0
  fullSha : Sha256Ctx := {}
  codeSha : Sha256Ctx := {}

def fwupdHdrInspectLen : UInt32 := 256

def binHdrSize : UInt32 := 160

def fwupdBinMagic : UInt32 := 0x4d574653

/-- A byte of a chunk is noted in the header buffer, if it belongs there, and counted. -/
def StreamState.note (st : StreamState) (pos : UInt32) (b : UInt8) : StreamState :=
  let st :=
    if pos < fwupdHdrInspectLen then
      { st with
        hdrBuf := fun i => if i = pos.toNat then b else st.hdrBuf i
        hdrCaptured := if pos + 1 > st.hdrCaptured then pos + 1 else st.hdrCaptured }
    else st
  if b ≠ 0 then { st with nonzeroBytes := st.nonzeroBytes + 1 } else st

def StreamState.restart (st : StreamState) : StreamState :=
  { hdrBuf := fun _ => 0
    hdrCaptured := 0
    stagedLen := 0
    nonzeroBytes := 0
    fullSha := st.fullSha.init
    codeSha := st.codeSha.init }

/-- `fwupd_stream_write_chunk`.  `none` is the result -1. -/
def StreamState.writeChunk (st : StreamState) (offset : UInt32) (data : Option (Nat → UInt8))
    (len : UInt32) : Option StreamState :=
  match data with
  | none => none
  | some data =>
    if len = 0 then none
    else if offset ≠ 0 ∧ offset ≠ st.stagedLen then none
    else
      let st := if offset = 0 then st.restart else st
      let bytes := (List.range len.toNat).map data
      let st :=
        (List.range len.toNat).foldl (fun st i => st.note (offset + UInt32.ofNat i) (data i))
        st
      let st := { st with fullSha := st.fullSha.update compress bytes }
      let st :=
        if offset + len > binHdrSize then
          let codeStart := if offset ≥ binHdrSize then 0 else binHdrSize - offset
          { st with codeSha := st.codeSha.update compress (bytes.drop codeStart.toNat) }
        else st
      some { st with stagedLen := st.stagedLen + len }

def hdrWord (hdr : Nat → UInt8) (off : Nat) : UInt32 :=
  UInt32.ofNat (leNat ((List.range 4).map fun i => hdr (off + i)))

/-- The text at `off` is `expected`, up to the zero that ends both. -/
def textAt (hdr : Nat → UInt8) : List UInt8 → Nat → Bool
  | [], off => hdr off == 0
  | c :: cs, off => hdr off == c && textAt hdr cs (off + 1)

def isDigit (b : UInt8) : Bool := 0x30 ≤ b && b ≤ 0x39

def versionRun (hdr : Nat → UInt8) (len : Nat) : Nat → Nat → List UInt8
  | 0, _ => []
  | k + 1, j =>
    if j < len ∧ (isDigit (hdr j) || hdr j == 0x2e) then hdr j :: versionRun hdr len k (j + 1)
    else []

def versionAt (hdr : Nat → UInt8) (len maxVerLen i : Nat) : Option (List UInt8) :=
  if isDigit (hdr i) && hdr (i + 1) == 0x2e && isDigit (hdr (i + 2)) then
    let ver := versionRun hdr len maxVerLen i
    if ver.length ≥ 3 ∧ ver.getLast? ≠ some 0x2e then some ver else none
  else none

def textFrom (hdr : Nat → UInt8) : Nat → Nat → List UInt8
  | 0, _ => []
  | k + 1, off => if hdr off = 0 then [] else hdr off :: textFrom hdr k (off + 1)

def rawVersion (hdr : Nat → UInt8) (len : Nat) (sha : Digest) (maxVerLen : Nat) : List UInt8 :=
  match (List.range (len - 3)).findSome? (versionAt hdr len maxVerLen) with
  | some ver => ver
  | none =>
    if maxVerLen ≥ 6 then [0x32, 0x2e, 0x30 + sha 0 % 10, 0x2e, 0x30 + sha 1 % 10]
    else [0x32, 0x2e, 0x30 + sha 0 % 10, 0x30 + sha 1 % 10]

def detectBinVersion (hdr : Nat → UInt8) (hdrLen : UInt32) (sha : Digest) (maxVerLen : Nat) :
    List UInt8 :=
  if hdrLen ≥ binHdrSize ∧ hdrWord hdr 4 = fwupdBinMagic ∧ hdr 92 ≠ 0 then
    textFrom hdr maxVerLen 92
  else if hdrLen ≥ 16 ∧ (List.range 4).map hdr = [0x55, 0x46, 0x53, 0x48] ∧ maxVerLen ≥ 4 ∧
      (hdr 0x0e ≠ 0 ∨ hdr 0x0c ≠ 0) then
    [0x30 + hdr 0x0e / 16, 0x30 + hdr 0x0e % 16, 0x30 + hdr 0x0c / 16, 0x30 + hdr 0x0c % 16]
  else rawVersion hdr hdrLen.toNat sha maxVerLen

structure Validated where
  version : List UInt8
  sha256 : Digest

/-- `fwupd_stream_validate_and_finalize`: the image, if it is accepted, and the receiver with the
contexts that were finalised. -/
def StreamState.validateAndFinalize (st : StreamState) (deviceId : List UInt8) (maxVerLen : Nat) :
    Option Validated × StreamState :=
  if st.stagedLen < 64 ∨ st.nonzeroBytes < 16 then (none, st)
  else
    let sha := (st.fullSha.final compress).1
    let st := { st with fullSha := (st.fullSha.final compress).2 }
    let accepted : Validated := ⟨detectBinVersion st.hdrBuf st.hdrCaptured sha maxVerLen, sha⟩
    if st.hdrCaptured ≥ binHdrSize ∧ hdrWord st.hdrBuf 4 = fwupdBinMagic then
      let codeLen := hdrWord st.hdrBuf 108
      if !textAt st.hdrBuf deviceId 28 ∨ codeLen = 0 ∨ binHdrSize + codeLen ≠ st.stagedLen then
        (none, st)
      else
        let codeSha := (st.codeSha.final compress).1
        let st := { st with codeSha := (st.codeSha.final compress).2 }
        if (List.finRange 32).all fun i => codeSha i == st.hdrBuf (112 + i) then (some accepted, st)
        else (none, st)
    else (some accepted, st)

end Six.Fwupd
