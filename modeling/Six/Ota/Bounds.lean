import Six.Ota.Install

/-! What the loop over the install operations of an accepted package may touch. -/

namespace Six.Ota

open Lib

/-- The written bytes lie in the slice, and those of a `REPLACE` were read from the blob whose
digest is that of the operation. -/
structure HddWrite.Safe (sha256 : List UInt8 → Digest) (pkg : Package) (hdr : CrauHeader)
    (targetSlot : Int) (w : HddWrite) : Prop where
  inside : ∀ i, w.pos ≤ i → i < w.pos + w.len →
    sliceStart targetSlot w.op.partId ≤ i ∧ i < sliceEnd targetSlot w.op.partId
  hashed : ∀ z, w.src = some z →
    sha256 (pkg.zip.bytes (blobFileOff pkg hdr w.op).toNat w.op.blobSize.toNat) = w.op.dataSha256 ∧
    ∀ j < w.len, (blobFileOff pkg hdr w.op).toNat ≤ z + j ∧
      z + j < (blobFileOff pkg hdr w.op).toNat + w.op.blobSize.toNat

structure InstallSafe (sha256 : List UInt8 → Digest) (pkg : Package) (hdr : CrauHeader)
    (targetSlot : Int) (s : Installing) : Prop where
  executed : ∀ pos ∈ s.executed, manifestStart pkg hdr ≤ pos ∧
    pos + crauOpSize ≤ manifestStart pkg hdr + hdr.opsSize.toNat
  writes : ∀ w ∈ s.writes, w.Safe sha256 pkg hdr targetSlot

def tableOp (pkg : Package) (hdr : CrauHeader) (opIdx : Nat) : CrauOp :=
  CrauOp.decode (pkg.zip.bytes (manifestStart pkg hdr + opIdx * crauOpSize) crauOpSize)

def BlocksInside (targetSlot : Int) (op : CrauOp) (off : UInt32) (n : Nat) : Prop :=
  sliceStart targetSlot op.partId ≤ off.toNat ∧
    off.toNat + n * crauBlockSize ≤ sliceEnd targetSlot op.partId

/-- Entry `opIdx` lies in the table that `ops_size` gives, and the blocks of a `REPLACE` lie in the
slice and are not longer than its blob; offsets are computed modulo `2^32`. -/
structure OpInBounds (pkg : Package) (hdr : CrauHeader) (targetSlot : Int) (opIdx : Nat) :
    Prop where
  covered : (opIdx + 1) * crauOpSize ≤ hdr.opsSize.toNat
  replace : (tableOp pkg hdr opIdx).opType = CrauOpType.replace.code →
    0 < (tableOp pkg hdr opIdx).numBlocks.toNat →
    BlocksInside targetSlot (tableOp pkg hdr opIdx)
      (dstSec targetSlot (tableOp pkg hdr opIdx) * 512) (tableOp pkg hdr opIdx).numBlocks.toNat ∧
    (tableOp pkg hdr opIdx).numBlocks.toNat * crauBlockSize ≤
      (tableOp pkg hdr opIdx).blobSize.toNat

section

variable {sha256 : List UInt8 → Digest} {pkg : Package} {hdr : CrauHeader} {targetSlot : Int}
  {op : CrauOp} {s : Installing}

theorem BlocksInside.seek (h : BlocksInside targetSlot op off n) : seek pos off = off.toNat := by
  have hend := sliceEnd_lt targetSlot op.partId
  exact seek_of_lt (by have := h.2; omega)

/-- Every block that a `SOURCE_COPY` copies lies in the slice. -/
theorem copies_inside (targetSlot : Int) (h : copies op b = true) :
    BlocksInside targetSlot op ((dstSec targetSlot op + UInt32.ofNat b * 8) * 512) 1 := by
  have hcur : ((op.dstBlock + UInt32.ofNat b).toNat + 1) * 4096 ≤
      (sliceSecs op.partId).toNat * 512 := by
    have hwindow : 16 * 4096 ≤ (sliceSecs op.partId).toNat * 512 ∧
        (hash4k op.partId + 8).toNat * 4096 ≤ (sliceSecs op.partId).toNat * 512 := by
      unfold hash4k sliceSecs
      split <;> decide
    simp only [copies, Bool.or_eq_true, Bool.and_eq_true, decide_eq_true_eq,
      UInt32.lt_iff_toNat_lt, UInt32.reduceToNat] at h
    rcases h with h | ⟨-, h⟩ <;> omega
  have hend := sliceEnd_lt targetSlot op.partId
  unfold BlocksInside
  unfold sliceEnd sliceStart at hend ⊢
  unfold dstSec
  generalize dstBaseSec targetSlot op.partId = base at hend ⊢
  have hoff : (base + op.dstBlock * 8 + UInt32.ofNat b * 8) * 512 =
      base * 512 + (op.dstBlock + UInt32.ofNat b) * 4096 := by grind
  rw [hoff]
  generalize op.dstBlock + UInt32.ofNat b = cur4k at hcur ⊢
  simp only [UInt32.toNat_add, UInt32.toNat_mul, UInt32.reduceToNat, crauBlockSize]
  omega

section

variable (hs : InstallSafe sha256 pkg hdr targetSlot s)
include hs

theorem writeBlock_safe (op : CrauOp)
    (src : Option Nat) (pos : Nat) (blk : Nat → UInt8) (hlo : sliceStart targetSlot op.partId ≤ pos)
    (hhi : pos + crauBlockSize ≤ sliceEnd targetSlot op.partId) (hsrc : ∀ z, src = some z →
      sha256 (pkg.zip.bytes (blobFileOff pkg hdr op).toNat op.blobSize.toNat) = op.dataSha256 ∧
      (blobFileOff pkg hdr op).toNat ≤ z ∧
      z + crauBlockSize ≤ (blobFileOff pkg hdr op).toNat + op.blobSize.toNat) :
    InstallSafe sha256 pkg hdr targetSlot (writeBlock op src pos blk s).state := by
  refine ⟨hs.executed, fun w hw => ?_⟩
  have hw : w ∈ s.writes ∨ w = ⟨op, pos, s.hdd.count pos crauBlockSize, src⟩ := by
    simpa [writeBlock] using hw
  have hcount : s.hdd.count pos crauBlockSize ≤ crauBlockSize := by
    unfold File.count
    omega
  rcases hw with hold | rfl
  · exact hs.writes w hold
  · refine ⟨fun i hi hi' => ?_, fun z hz => ⟨(hsrc z hz).1, fun j hj => ?_⟩⟩
    · simp only at hi hi' ⊢
      omega
    · have hz := (hsrc z hz).2
      simp only at hj ⊢
      omega

theorem copyBlock_safe : InstallSafe sha256 pkg hdr targetSlot
    (copyBlock op sSec (dstSec targetSlot op) b s).state := by
  unfold copyBlock
  split
  · rename_i hcopies
    have hb := copies_inside targetSlot hcopies
    dsimp only
    split
    · exact ⟨hs.executed, hs.writes⟩
    · split
      · rw [hb.seek]
        refine writeBlock_safe hs _ _ _ _ hb.1 ?_ fun z hz => absurd hz (by simp)
        have := hb.2
        omega
      · exact ⟨hs.executed, hs.writes⟩
  · exact hs

theorem replaceLoop_safe
    (hsha : sha256 (pkg.zip.bytes (blobFileOff pkg hdr op).toNat op.blobSize.toNat) = op.dataSha256)
    (hlo : sliceStart targetSlot op.partId ≤ s.hpos)
    (hhi : s.hpos + n * crauBlockSize ≤ sliceEnd targetSlot op.partId)
    (hz : s.zpos = (blobFileOff pkg hdr op).toNat) (hblob : n * crauBlockSize ≤ op.blobSize.toNat) :
    InstallSafe sha256 pkg hdr targetSlot
      (runLoop (replaceBlock pkg.zip op) (List.range n) s).state := by
  have hloop := runLoop_range (f := replaceBlock pkg.zip op) (n := n) (s := s)
    (P := fun k t => InstallSafe sha256 pkg hdr targetSlot t ∧
      t.hpos = s.hpos + k * crauBlockSize ∧ t.zpos = s.zpos + k * crauBlockSize)
    (Q := InstallSafe sha256 pkg hdr targetSlot) ⟨hs, by simp, by simp⟩ ?_
  · rcases hloop with ⟨-, h⟩ | ⟨-, h⟩
    · exact h.1
    · exact h
  · rintro k hk t ⟨ht, hhpos, hzpos⟩
    have hmul : (k + 1) * crauBlockSize ≤ n * crauBlockSize := Nat.mul_le_mul_right _ hk
    rw [Nat.add_mul, Nat.one_mul] at hmul
    unfold replaceBlock
    dsimp only
    split
    · exact .inr ⟨rfl, ht.executed, ht.writes⟩
    · rename_i hread
      have hsafe := writeBlock_safe
        (s := { t with zpos := t.zpos + pkg.zip.count t.zpos crauBlockSize })
        ⟨ht.executed, ht.writes⟩ op (some t.zpos) t.hpos (fun i => pkg.zip.byte (t.zpos + i))
        (by omega) (by omega) fun z hz' => by
          obtain rfl := Option.some.inj hz'
          exact ⟨hsha, by omega, by omega⟩
      by_cases hcount : t.hdd.count t.hpos crauBlockSize = crauBlockSize
      · refine .inl ⟨by simpa [writeBlock] using hcount, hsafe, ?_, ?_⟩
        · show t.hpos + t.hdd.count t.hpos crauBlockSize = s.hpos + (k + 1) * crauBlockSize
          rw [hcount, hhpos, Nat.succ_mul, Nat.add_assoc]
        · show t.zpos + pkg.zip.count t.zpos crauBlockSize = s.zpos + (k + 1) * crauBlockSize
          rw [not_not.mp hread, hzpos, Nat.succ_mul, Nat.add_assoc]
      · exact .inr ⟨by simpa [writeBlock] using hcount, hsafe⟩

end

theorem accept_manifest (h : pkg.accept sha256 = some hdr) : manifestStart pkg hdr < 2 ^ 31 ∧
    (hdr.opsSize.toNat = 0 ∨ manifestStart pkg hdr + hdr.opsSize.toNat ≤ pkg.zip.size) ∧
    sha256 (pkg.zip.bytes (manifestStart pkg hdr) hdr.opsSize.toNat) = hdr.manifestSha256 := by
  obtain ⟨calcHash, -, h⟩ := Option.bind_eq_some_iff.mp h
  dsimp only at h
  split at h
  · cases h
  · split at h
    · cases h
    · split at h
      · cases h
      · obtain ⟨manHash, hman, h⟩ := Option.bind_eq_some_iff.mp h
        split at h
        · cases h
        · rename_i heq
          obtain rfl := Option.some.inj h
          obtain ⟨hoff, hend, rfl⟩ := sha256FileRange_eq_some.mp hman
          exact ⟨hoff, hend, not_not.mp heq⟩

theorem applyOp_safe (hs : InstallSafe sha256 pkg hdr targetSlot s)
    (hreplace : op.opType = CrauOpType.replace.code → 0 < op.numBlocks.toNat →
      BlocksInside targetSlot op (dstSec targetSlot op * 512) op.numBlocks.toNat ∧
      op.numBlocks.toNat * crauBlockSize ≤ op.blobSize.toNat) :
    InstallSafe sha256 pkg hdr targetSlot (applyOp sha256 pkg hdr targetSlot op s).state := by
  unfold applyOp
  split
  · exact hs
  split
  · dsimp only
    split
    · exact runLoop_invariant hs fun b _ t ht => copyBlock_safe ht
    · exact hs
  split
  · rename_i htype
    dsimp only
    split
    · exact hs
    · rename_i blobHash hblob
      split
      · exact hs
      · rename_i heq
        obtain ⟨hoff, -, rfl⟩ := sha256FileRange_eq_some.mp hblob
        rcases Nat.eq_zero_or_pos op.numBlocks.toNat with hzero | hpos
        · rw [hzero]
          exact ⟨hs.executed, hs.writes⟩
        · obtain ⟨hin, hlong⟩ := hreplace htype hpos
          rw [hin.seek, seek_of_lt hoff]
          have hseeked : InstallSafe sha256 pkg hdr targetSlot
              { s with
                zpos := (blobFileOff pkg hdr op).toNat
                hpos := (dstSec targetSlot op * 512).toNat } := ⟨hs.executed, hs.writes⟩
          exact replaceLoop_safe hseeked (not_not.mp heq) hin.1 hin.2 rfl hlong
  · exact hs

theorem installOp_safe (haccept : pkg.accept sha256 = some hdr)
    (hs : InstallSafe sha256 pkg hdr targetSlot s)
    (hin : OpInBounds pkg hdr targetSlot opIdx) : InstallSafe sha256 pkg hdr targetSlot
      (installOp sha256 pkg hdr targetSlot opIdx s).state := by
  obtain ⟨-, hend, -⟩ := accept_manifest haccept
  have hcov := hin.covered
  have hsize := pkg.zip.size_lt
  have hpos : (opOff pkg hdr opIdx).toNat = manifestStart pkg hdr + opIdx * crauOpSize := by
    refine opOff_toNat ?_
    simp only [crauOpSize] at hcov ⊢
    omega
  have hseek : seek s.zpos (opOff pkg hdr opIdx) = manifestStart pkg hdr + opIdx * crauOpSize := by
    rw [seek_of_lt, hpos]
    rw [hpos]
    simp only [crauOpSize] at hcov ⊢
    omega
  simp only [installOp, hseek]
  split
  · exact ⟨hs.executed, hs.writes⟩
  · refine applyOp_safe ⟨fun pos hmem => ?_, hs.writes⟩ hin.replace
    have hmem : pos ∈ s.executed ∨ pos = manifestStart pkg hdr + opIdx * crauOpSize := by
      simpa using hmem
    rcases hmem with hold | rfl
    · exact hs.executed pos hold
    · simp only [crauOpSize] at hcov ⊢
      omega

/-- In every run of the loop over the operations of an accepted package in which each operation
that is executed is in bounds, what is executed and written is safe. -/
theorem install_loop_safe (haccept : pkg.accept sha256 = some hdr) {hdd : File}
    {t : Nat × Outcome Installing}
    (h : Reaches (loopStep (installOp sha256 pkg hdr targetSlot) hdr.numOps.toNat)
      (fun u _ => OpInBounds pkg hdr targetSlot u.1) (0, ⟨true, startInstall pkg hdr hdd⟩) t) :
    InstallSafe sha256 pkg hdr targetSlot t.2.state := by
  have hstart : InstallSafe sha256 pkg hdr targetSlot (startInstall pkg hdr hdd) :=
    ⟨by simp [startInstall], by simp [startInstall]⟩
  refine h.invariant (P := fun u => InstallSafe sha256 pkg hdr targetSlot u.2.state) hstart ?_
  intro u _ v hu hin hstep
  obtain ⟨-, -, rfl⟩ := loopStep_eq_some.mp hstep
  exact installOp_safe haccept hu hin

end

def oneReplace (dst : UInt32) : CrauOp where
  partId := crauPartSystem
  opType := CrauOpType.replace.code
  numBlocks := 1
  srcBlock := 0
  dstBlock := dst
  blobOffset := 0
  blobSize := 4096
  dataSha256 := fun _ => 0

def oneHeader : List UInt8 :=
  crauMagic ++ (leBytes 4 2 ++ (leBytes 4 256 ++ (leBytes 4 1 ++ (leBytes 4 52 ++ leBytes 4 308))))

/-- A package that is its payload: a header, one operation and a block of zeros. -/
def onePackage (dst : UInt32) : Package where
  zip :=
    { size := 4404
      byte := fun i =>
        if i < 256 then oneHeader.getD i 0 else (oneReplace dst).encode.getD (i - 256) 0
      size_lt := by decide }
  payOff := 0
  paySz := 4404
  expectedHash := []

def zeroSha (_ : List UInt8) : Digest := fun _ => 0

def zeroHdd : File where
  size := 58720256
  byte := fun _ => 0
  size_lt := by decide

theorem one_package_writes : ((cmdInstallZip zeroSha (onePackage 4096) 1 zeroHdd).map fun o =>
    o.state.writes.map fun w => (w.op.partId, w.pos, w.len)) = some [(0, 54525952, 4096)] := by
  decide

/-- A `REPLACE` of the system block after the last one of the slice writes the first block of the
vendor slice. -/
theorem replace_leaves_slice : ¬ ∀ (sha256 : List UInt8 → Digest) (pkg : Package)
    (hdr : CrauHeader) (targetSlot : Int) (hdd : File) (o : Outcome Installing),
    pkg.accept sha256 = some hdr → cmdInstallZip sha256 pkg targetSlot hdd = some o →
    InstallSafe sha256 pkg hdr targetSlot o.state := by
  intro h
  obtain ⟨o, ho, hwrites⟩ := Option.map_eq_some_iff.mp one_package_writes
  obtain ⟨hdr, haccept, -⟩ := Option.map_eq_some_iff.mp ho
  have hmem : ((0 : UInt8), 54525952, 4096) ∈
      o.state.writes.map fun w => (w.op.partId, w.pos, w.len) := by
    rw [hwrites]
    exact List.mem_singleton.mpr rfl
  obtain ⟨w, hw, heq⟩ := List.mem_map.mp hmem
  obtain ⟨hpart, hpos, hlen⟩ : w.op.partId = 0 ∧ w.pos = 54525952 ∧ w.len = 4096 := by
    simpa using heq
  have hinside := ((h _ _ hdr 1 _ o haccept ho).writes w hw).inside w.pos (le_refl _) (by omega)
  have hend : sliceEnd 1 w.op.partId = 54525952 := by
    rw [hpart]
    decide
  omega

def oneDecoded : CrauHeader := CrauHeader.decode ((onePackage 0).zip.bytes 0 crauHeaderSize)

theorem first_block_replace_safe :
    (installOp zeroSha (onePackage 0) oneDecoded 1 0
      (startInstall (onePackage 0) oneDecoded zeroHdd)).state.writes.length = 1 ∧
    InstallSafe zeroSha (onePackage 0) oneDecoded 1 (installOp zeroSha (onePackage 0) oneDecoded 1 0
        (startInstall (onePackage 0) oneDecoded zeroHdd)).state := by
  have haccept : (onePackage 0).accept zeroSha = some oneDecoded := by
    rfl
  have hin : OpInBounds (onePackage 0) oneDecoded 1 0 := by
    refine ⟨by decide, fun _ _ => ⟨?_, by decide⟩⟩
    unfold BlocksInside
    decide
  have hreach : Reaches (loopStep (installOp zeroSha (onePackage 0) oneDecoded 1)
      oneDecoded.numOps.toNat) (fun u _ => OpInBounds (onePackage 0) oneDecoded 1 u.1)
      (0, ⟨true, startInstall (onePackage 0) oneDecoded zeroHdd⟩)
      (1, installOp zeroSha (onePackage 0) oneDecoded 1 0
        (startInstall (onePackage 0) oneDecoded zeroHdd)) :=
    .tail (i := ()) .refl hin (loopStep_eq_some.mpr ⟨rfl, by decide, rfl⟩)
  exact ⟨by decide, install_loop_safe haccept hreach⟩

end Six.Ota
