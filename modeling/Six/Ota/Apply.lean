import Six.Ota.Install

/-! Installing a payload that `mkotazip.py` built, to slot b, block by block. -/

namespace Six.Ota

open Lib UInt32

section

variable (partId : UInt8) {off : Nat}

def total4k : Nat := if partId = crauPartSystem then system4k else vendor4k

def srcStart : Nat := (srcBaseSec partId).toNat * 512

/-- The blocks of a `SOURCE_COPY` that are copied. -/
def inWindow (b : Nat) : Bool :=
  b < 16 || ((hash4k partId).toNat ≤ b && b < (hash4k partId).toNat + 8)

/-- The installer leaves block `b` as it is. -/
def skipped (isFull : Bool) (src dst : Nat → UInt8) (b : Nat) : Bool :=
  match blockType isFull src dst b with
  | .zero => true
  | .sourceCopy => !inWindow partId b
  | .replace => false

/-- The bytes `mem` of `/dev/hdd` after blocks `lo` to `hi - 1` of the slice of slot b were
installed. -/
def patched (isFull : Bool) (src dst : Nat → UInt8) (lo hi : Nat)
    (mem : Nat → UInt8) (x : Nat) : UInt8 :=
  if sliceStart 1 partId + lo * crauBlockSize ≤ x ∧ x < sliceStart 1 partId + hi * crauBlockSize ∧
    skipped partId isFull src dst ((x - sliceStart 1 partId) / crauBlockSize) = false
  then dst (x - sliceStart 1 partId) else mem x

end

section

variable {partId : UInt8} {isFull : Bool} {src dst : Nat → UInt8} {lo mid hi : Nat}
  {mem : Nat → UInt8}

theorem total4k_le (partId : UInt8) : total4k partId ≤ 4096 := by
  unfold total4k
  split <;> decide

theorem srcStart_le (partId partId' : UInt8) :
    srcStart partId + total4k partId * crauBlockSize ≤ sliceStart 1 partId' := by
  unfold total4k srcStart srcBaseSec sliceStart dstBaseSec
  split <;> split <;> decide

theorem sliceStart_le (partId : UInt8) :
    sliceStart 1 partId + total4k partId * crauBlockSize ≤ 58720256 := by
  unfold total4k sliceStart dstBaseSec
  split <;> decide

theorem base_le (partId : UInt8) : (srcBaseSec partId).toNat ≤ 106496 ∧
    (dstBaseSec 1 partId).toNat ≤ 106496 ∧ srcBaseSec partId ≠ dstBaseSec 1 partId := by
  unfold srcBaseSec dstBaseSec
  split <;> decide

theorem patched_self : patched partId isFull src dst lo lo mem = mem := by
  funext x
  unfold patched
  rw [if_neg (by omega)]

theorem patched_trans (h1 : lo ≤ mid) (h2 : mid ≤ hi) :
    patched partId isFull src dst mid hi (patched partId isFull src dst lo mid mem) =
      patched partId isFull src dst lo hi mem := by
  have h1 := Nat.mul_le_mul_right crauBlockSize h1
  have h2 := Nat.mul_le_mul_right crauBlockSize h2
  funext x
  unfold patched
  by_cases hskip : skipped partId isFull src dst ((x - sliceStart 1 partId) / crauBlockSize) = false
  · simp only [hskip, and_true]
    split_ifs <;> first | rfl | omega
  · simp [hskip]

theorem patched_of_skipped (h : ∀ b, lo ≤ b → b < hi → skipped partId isFull src dst b = true) :
    patched partId isFull src dst lo hi mem = mem := by
  funext x
  unfold patched
  rw [if_neg]
  rintro ⟨hlo, hhi, hskip⟩
  have hblock := h ((x - sliceStart 1 partId) / crauBlockSize)
    ((Nat.le_div_iff_mul_le (by decide)).mpr (by omega))
    ((Nat.div_lt_iff_lt_mul (by decide)).mpr (by omega))
  rw [hblock] at hskip
  cases hskip

theorem patched_outside (h : x < sliceStart 1 partId + lo * crauBlockSize ∨
    sliceStart 1 partId + hi * crauBlockSize ≤ x) :
    patched partId isFull src dst lo hi mem x = mem x := by
  unfold patched
  rw [if_neg (by omega)]

theorem patched_one (h : skipped partId isFull src dst b = false) {f : File}
    (hfit : sliceStart 1 partId + (b + 1) * crauBlockSize ≤ f.size) (blk : Nat → UInt8)
    (hblk : ∀ i < crauBlockSize, blk i = dst (b * crauBlockSize + i)) :
    (f.write (sliceStart 1 partId + b * crauBlockSize) crauBlockSize blk).byte =
      patched partId isFull src dst b (b + 1) f.byte := by
  funext x
  rw [Nat.succ_mul] at hfit
  unfold patched
  by_cases hin : sliceStart 1 partId + b * crauBlockSize ≤ x ∧
      x < sliceStart 1 partId + (b + 1) * crauBlockSize
  · have hlt := hin.2
    rw [Nat.succ_mul] at hlt
    have hdiv : (x - sliceStart 1 partId) / crauBlockSize = b := by
      rw [Nat.div_eq_iff (by decide)]
      simp only [crauBlockSize] at *
      omega
    have hoff : b * crauBlockSize + (x - (sliceStart 1 partId + b * crauBlockSize)) =
        x - sliceStart 1 partId := by
      omega
    rw [if_pos ⟨hin.1, hin.2, by rw [hdiv, h]⟩, File.write_byte_inside (by omega) hin.1 (by omega),
      hblk _ (by omega), hoff]
  · rw [if_neg (fun hc => hin ⟨hc.1, hc.2.1⟩), File.write_byte_outside]
    rw [Nat.succ_mul] at hin
    omega

end

section

variable {sha256 : List UInt8 → Digest} {pkg : Package} {hdr : CrauHeader} {partId : UInt8}
  {isFull : Bool} {src dst : Nat → UInt8} {s : Installing} {b n : Nat} {ty : CrauOpType}
  {op : CrauOp}

/-- The slice of slot a is `src`, and the disk has room for all slices. -/
structure Source (partId : UInt8) (src : Nat → UInt8) (f : File) : Prop where
  holds : ∀ i < total4k partId * crauBlockSize, f.byte (srcStart partId + i) = src i
  size : 58720256 ≤ f.size

/-- `f` is `/dev/hdd` after blocks `lo` to `hi - 1` were installed on `f₀`. -/
structure Patched (partId : UInt8) (isFull : Bool) (src dst : Nat → UInt8) (lo hi : Nat)
    (f₀ f : File) : Prop where
  size : f.size = f₀.size
  byte : f.byte = patched partId isFull src dst lo hi f₀.byte

theorem Patched.refl (lo : Nat) (f : File) : Patched partId isFull src dst lo lo f f :=
  ⟨rfl, patched_self.symm⟩

theorem Patched.trans (h1 : Patched partId isFull src dst lo mid f₀ f₁)
    (h2 : Patched partId isFull src dst mid hi f₁ f₂) (hlo : lo ≤ mid) (hhi : mid ≤ hi) :
    Patched partId isFull src dst lo hi f₀ f₂ :=
  ⟨h2.size.trans h1.size, by rw [h2.byte, h1.byte, patched_trans hlo hhi]⟩

theorem Source.patched
    (h : Source partId src f₀) (hp : Patched partId' isFull src' dst' lo hi f₀ f) :
    Source partId src f := by
  refine ⟨fun i hi => ?_, by rw [hp.size]; exact h.size⟩
  have hbelow := srcStart_le partId partId'
  rw [hp.byte, patched_outside (.inl (by omega))]
  exact h.holds i hi

theorem seek_block (hbase : base.toNat ≤ 106496)
    (hk : b + k ≤ 4096) : seek pos ((base + ofNat b * 8 + ofNat k * 8) * 512) =
      base.toNat * 512 + (b + k) * crauBlockSize := by
  have hoff : ((base + ofNat b * 8 + ofNat k * 8) * 512).toNat =
      base.toNat * 512 + (b + k) * crauBlockSize := by
    simp only [UInt32.toNat_mul, UInt32.toNat_add, toNat_ofNat', reduceToNat, crauBlockSize]
    omega
  have hlt : base.toNat * 512 + (b + k) * crauBlockSize < 2 ^ 31 := by
    simp only [crauBlockSize]
    omega
  exact (seek_of_lt (hoff ▸ hlt)).trans hoff

theorem packOp_numBlocks (hn : n ≤ 4096) :
    (packOp sha256 partId dst ty b n off).numBlocks.toNat = n := by
  simp only [packOp, UInt16.toNat_ofNat']
  omega

theorem packOp_copies (hk : b + k ≤ 4096) :
    copies (packOp sha256 partId dst ty b n off) k = inWindow partId (b + k) := by
  have hhash : (hash4k partId).toNat + 8 < 2 ^ 31 := by
    unfold hash4k
    split <;> decide
  have hcur : (ofNat b + ofNat k).toNat = b + k := by
    simp only [UInt32.toNat_add, toNat_ofNat']
    omega
  have hend : (hash4k partId + 8).toNat = (hash4k partId).toNat + 8 := by
    simp only [UInt32.toNat_add, reduceToNat]
    omega
  simp only [copies, packOp, inWindow, lt_iff_toNat_lt, le_iff_toNat_le, hcur, hend, reduceToNat]

theorem copyBlock_patched {t : Installing} (hk : b + k < total4k partId)
    (hcopies : copies op k = inWindow partId (b + k)) (hsrc : Source partId src t.hdd)
    (htype : blockType isFull src dst (b + k) = .sourceCopy) :
    (copyBlock op (srcBaseSec partId + ofNat b * 8)
      (dstBaseSec 1 partId + ofNat b * 8) k t).ok = true ∧
    Patched partId isFull src dst (b + k) (b + k + 1) t.hdd
      (copyBlock op (srcBaseSec partId + ofNat b * 8)
        (dstBaseSec 1 partId + ofNat b * 8) k t).state.hdd := by
  have htot := total4k_le partId
  have hsrcle := srcStart_le partId partId
  have hdstle := sliceStart_le partId
  have hsize := hsrc.size
  obtain ⟨hbsrc, hbdst, -⟩ := base_le partId
  have hmul : (b + k) * crauBlockSize + crauBlockSize ≤ total4k partId * crauBlockSize := by
    rw [← Nat.succ_mul]
    exact Nat.mul_le_mul_right _ hk
  have hskip : skipped partId isFull src dst (b + k) = !inWindow partId (b + k) := by
    simp only [skipped, htype]
  have hread : ∀ pos, seek pos ((srcBaseSec partId + ofNat b * 8 + ofNat k * 8) *
      512) = srcStart partId + (b + k) * crauBlockSize := fun _ => seek_block hbsrc (by omega)
  have hwrite : ∀ pos, seek pos ((dstBaseSec 1 partId + ofNat b * 8 + ofNat k * 8) *
      512) = sliceStart 1 partId + (b + k) * crauBlockSize := fun _ => seek_block hbdst (by omega)
  have hblk : ∀ i < crauBlockSize, t.hdd.byte (srcStart partId + (b + k) * crauBlockSize + i) =
      dst ((b + k) * crauBlockSize + i) := by
    intro i hi
    have heq : dst ((b + k) * crauBlockSize + i) = src ((b + k) * crauBlockSize + i) := by
      unfold blockType at htype
      split_ifs at htype with hzero hsame
      exact sameBytes_iff.mp (Bool.and_eq_true_iff.mp hsame).2 i hi
    rw [Nat.add_assoc, hsrc.holds _ (by omega), heq]
  unfold copyBlock
  rw [hcopies]
  cases hwin : inWindow partId (b + k) with
  | false =>
    refine ⟨rfl, rfl, ?_⟩
    rw [if_neg (by simp), patched_of_skipped]
    intro b' hlo hhi
    obtain rfl : b' = b + k := by omega
    rw [hskip, hwin]
    rfl
  | true =>
    have hnot : skipped partId isFull src dst (b + k) = false := by
      rw [hskip, hwin]
      rfl
    have hcount : t.hdd.count (srcStart partId + (b + k) * crauBlockSize) crauBlockSize =
        crauBlockSize := File.count_of_le (by omega)
    have hcount' : t.hdd.count (sliceStart 1 partId + (b + k) * crauBlockSize) crauBlockSize =
        crauBlockSize := File.count_of_le (by omega)
    have hpatch := patched_one hnot (f := t.hdd) (by rw [Nat.succ_mul]; omega) _ hblk
    simp only [if_true, hread, hwrite, hcount, hcount', ne_eq, not_true_eq_false, if_false,
      false_or]
    split
    · refine ⟨?_, rfl, hpatch⟩
      simp [writeBlock, hcount']
    · rename_i hsame
      refine ⟨rfl, rfl, ?_⟩
      rw [← hpatch]
      funext x
      by_cases hin : sliceStart 1 partId + (b + k) * crauBlockSize ≤ x ∧
          x < sliceStart 1 partId + (b + k) * crauBlockSize + crauBlockSize
      · have hbyte := sameBytes_iff.mp (by simpa using hsame)
          (x - (sliceStart 1 partId + (b + k) * crauBlockSize)) (by omega)
        rw [File.write_byte_inside (by omega) hin.1 hin.2, hbyte, Nat.add_sub_cancel' hin.1]
      · rw [File.write_byte_outside (by omega)]

theorem length_blockBytes (dst : Nat → UInt8) (b n : Nat) :
    (blockBytes dst b n).length = n * crauBlockSize := by
  simp [blockBytes]

theorem blob_byte {f : File} (h : f.Holds pos (blockBytes dst b n)) (hk : k < n)
    (hi : i < crauBlockSize) :
    f.byte (pos + k * crauBlockSize + i) = dst ((b + k) * crauBlockSize + i) := by
  have hlt : k * crauBlockSize + i < n * crauBlockSize := by
    have hmul := Nat.mul_le_mul_right crauBlockSize hk
    rw [Nat.succ_mul] at hmul
    omega
  have hbyte := h.byte (by rw [length_blockBytes]; exact hlt)
  rw [Nat.add_assoc, hbyte]
  simp only [blockBytes, List.getElem_map, List.getElem_range, fromBlock]
  rw [Nat.add_mul, Nat.add_assoc]

theorem replaceLoop_patched (hfit : b + n ≤ total4k partId) (hsize : 58720256 ≤ s.hdd.size)
    (htypes : ∀ j, b ≤ j → j < b + n → blockType isFull src dst j = .replace)
    (hblob : pkg.zip.Holds s.zpos (blockBytes dst b n))
    (hpos : s.hpos = sliceStart 1 partId + b * crauBlockSize) :
    (runLoop (replaceBlock pkg.zip op) (List.range n) s).ok = true ∧
    Patched partId isFull src dst b (b + n) s.hdd
      (runLoop (replaceBlock pkg.zip op) (List.range n) s).state.hdd := by
  have hdstle := sliceStart_le partId
  have hfile := hblob.1
  rw [length_blockBytes] at hfile
  have hloop := runLoop_range (f := replaceBlock pkg.zip op) (n := n) (s := s)
    (P := fun k t => Patched partId isFull src dst b (b + k) s.hdd t.hdd ∧
      t.zpos = s.zpos + k * crauBlockSize ∧
      t.hpos = sliceStart 1 partId + (b + k) * crauBlockSize)
    (Q := fun _ => False) ⟨Patched.refl _ _, by simp, hpos⟩ ?_
  · rcases hloop with ⟨hok, h⟩ | ⟨-, h⟩
    · exact ⟨hok, h.1⟩
    · exact h.elim
  · rintro k hk t ⟨hp, hz, hh⟩
    have hmul : (b + k) * crauBlockSize + crauBlockSize ≤ total4k partId * crauBlockSize := by
      rw [← Nat.succ_mul]
      exact Nat.mul_le_mul_right _ (by omega)
    have hmul' : k * crauBlockSize + crauBlockSize ≤ n * crauBlockSize := by
      rw [← Nat.succ_mul]
      exact Nat.mul_le_mul_right _ hk
    have hread : pkg.zip.count t.zpos crauBlockSize = crauBlockSize := File.count_of_le (by omega)
    have hcount : t.hdd.count t.hpos crauBlockSize = crauBlockSize :=
      File.count_of_le (by rw [hp.size]; omega)
    have hnot : skipped partId isFull src dst (b + k) = false := by
      simp only [skipped, htypes (b + k) (by omega) (by omega)]
    have hpatch := patched_one hnot (f := t.hdd) (by rw [Nat.succ_mul, hp.size]; omega)
      (fun i => pkg.zip.byte (t.zpos + i)) fun i hi => by rw [hz, blob_byte hblob hk hi]
    have hone : Patched partId isFull src dst (b + k) (b + k + 1) t.hdd
        (t.hdd.write t.hpos crauBlockSize fun i => pkg.zip.byte (t.zpos + i)) :=
      ⟨rfl, by rw [hh, hpatch]⟩
    simp only [replaceBlock, hread, ne_eq, not_true_eq_false, if_false, writeBlock, hcount,
      decide_true]
    refine .inl ⟨trivial, hp.trans hone (by omega) (by omega), ?_, ?_⟩
    · rw [hz, Nat.succ_mul, Nat.add_assoc]
    · rw [hh, ← Nat.add_assoc b k 1, Nat.succ_mul (b + k), Nat.add_assoc]

theorem copyLoop_patched (hfit : b + n ≤ total4k partId)
    (hcopies : ∀ k < n, copies op k = inWindow partId (b + k)) (hsrc : Source partId src s.hdd)
    (htypes : ∀ j, b ≤ j → j < b + n → blockType isFull src dst j = .sourceCopy) :
    (runLoop (copyBlock op (srcBaseSec partId + ofNat b * 8)
      (dstBaseSec 1 partId + ofNat b * 8)) (List.range n) s).ok = true ∧
    Patched partId isFull src dst b (b + n) s.hdd
      (runLoop (copyBlock op (srcBaseSec partId + ofNat b * 8)
        (dstBaseSec 1 partId + ofNat b * 8)) (List.range n) s).state.hdd := by
  have hloop := runLoop_range (n := n) (s := s)
    (f := copyBlock op (srcBaseSec partId + ofNat b * 8) (dstBaseSec 1 partId + ofNat b * 8))
    (P := fun k t => Patched partId isFull src dst b (b + k) s.hdd t.hdd)
    (Q := fun _ => False) (Patched.refl _ _) ?_
  · rcases hloop with h | ⟨-, h⟩
    · exact h
    · exact h.elim
  · intro k hk t hp
    obtain ⟨hok, hone⟩ := copyBlock_patched (by omega) (hcopies k hk) (hsrc.patched hp)
      (htypes (b + k) (by omega) (by omega))
    exact .inl ⟨hok, hp.trans hone (by omega) (by omega)⟩

theorem applyOp_sourceCopy (op : CrauOp) (h : op.opType = CrauOpType.sourceCopy.code)
    (hne : srcBaseSec op.partId + op.srcBlock * 8 ≠ dstSec 1 op) : applyOp sha256 pkg hdr 1 op s =
      runLoop (copyBlock op (srcBaseSec op.partId + op.srcBlock * 8) (dstSec 1 op))
        (List.range op.numBlocks.toNat) s := by
  rw [applyOp, if_neg (by rw [h]; decide), if_pos h]
  exact if_pos hne

theorem applyOp_replace (op : CrauOp) (h : op.opType = CrauOpType.replace.code)
    (hblob : sha256FileRange sha256 pkg.zip (blobFileOff pkg hdr op) op.blobSize =
      some op.dataSha256) : applyOp sha256 pkg hdr 1 op s =
      runLoop (replaceBlock pkg.zip op) (List.range op.numBlocks.toNat) { s with
          zpos := (blobFileOff pkg hdr op).toNat
          hpos := seek s.hpos (dstSec 1 op * 512) } := by
  have hoff := (sha256FileRange_eq_some.mp hblob).1
  rw [applyOp, if_neg (by rw [h]; decide), if_neg (by rw [h]; decide), if_pos h]
  simp only [hblob, ne_eq, not_true_eq_false, if_false, seek_of_lt hoff]

theorem applyOp_packOp (sha256 : List UInt8 → Digest) (hn : n ≤ 4096)
    (hfit : b + n ≤ total4k partId)
    (htypes : ∀ j, b ≤ j → j < b + n → blockType isFull src dst j = ty)
    (hsrc : Source partId src s.hdd) (hblob : ty = .replace →
      pkg.zip.Holds ((pkg.payOff + hdr.blobOffset).toNat + off) (blockBytes dst b n)) :
    (applyOp sha256 pkg hdr 1 (packOp sha256 partId dst ty b n off) s).ok = true ∧
    Patched partId isFull src dst b (b + n) s.hdd
      (applyOp sha256 pkg hdr 1 (packOp sha256 partId dst ty b n off) s).state.hdd := by
  have htot := total4k_le partId
  obtain ⟨-, hbdst, hbase⟩ := base_le partId
  cases ty with
  | zero =>
    refine ⟨rfl, rfl, ?_⟩
    rw [patched_of_skipped]
    · rfl
    · intro j hlo hhi
      simp only [skipped, htypes j hlo hhi]
  | sourceCopy =>
    have hne : srcBaseSec partId + ofNat b * 8 ≠ dstBaseSec 1 partId + ofNat b * 8 :=
      fun h => hbase ((UInt32.add_left_inj _).mp h)
    rw [applyOp_sourceCopy (packOp sha256 partId dst .sourceCopy b n off) rfl hne,
      packOp_numBlocks hn]
    exact copyLoop_patched hfit (fun k hk => packOp_copies (by omega)) hsrc htypes
  | replace =>
    have hholds := hblob rfl
    have hfile := hholds.1
    have hlt := pkg.zip.size_lt
    rw [length_blockBytes] at hfile
    have hoff : (blobFileOff pkg hdr (packOp sha256 partId dst .replace b n off)).toNat =
        (pkg.payOff + hdr.blobOffset).toNat + off := by
      show (pkg.payOff + hdr.blobOffset + ofNat off).toNat = _
      rw [UInt32.toNat_add, toNat_ofNat']
      omega
    have hlen : (packOp sha256 partId dst .replace b n off).blobSize.toNat = n * crauBlockSize := by
      show (ofNat (n * crauBlockSize)).toNat = _
      rw [toNat_ofNat']
      omega
    have hpos : seek s.hpos (dstSec 1 (packOp sha256 partId dst .replace b n off) * 512) =
        sliceStart 1 partId + b * crauBlockSize := by
      have hsec : dstSec 1 (packOp sha256 partId dst .replace b n off) =
          dstBaseSec 1 partId + ofNat b * 8 + ofNat 0 * 8 := by
        simp [dstSec, packOp]
      rw [hsec]
      exact seek_block hbdst (by omega)
    have hsha : sha256FileRange sha256 pkg.zip
        (blobFileOff pkg hdr (packOp sha256 partId dst .replace b n off))
        (packOp sha256 partId dst .replace b n off).blobSize =
        some (packOp sha256 partId dst .replace b n off).dataSha256 := by
      rw [sha256FileRange_eq_some, hoff, hlen]
      have hbytes := hholds.2
      rw [length_blockBytes] at hbytes
      exact ⟨by omega, .inr hfile, by rw [hbytes]; rfl⟩
    rw [applyOp_replace _ rfl hsha, packOp_numBlocks hn, hoff, hpos]
    have hsize := hsrc.size
    exact replaceLoop_patched (s := { s with
      zpos := (pkg.payOff + hdr.blobOffset).toNat + off
      hpos := sliceStart 1 partId + b * crauBlockSize }) hfit hsize htypes hholds rfl

end

end Six.Ota
