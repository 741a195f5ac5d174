import Six.Lib.Sha256
import Six.Ota.Apply
import Six.Ota.Bounds

/-! Installing what `mkotazip.py` built: the installer reads the operations of a payload back one by
one. -/

namespace Six.Ota

open Lib List UInt32 File

section

variable {sha256 : List UInt8 → Digest} {pkg : Package} {hdr : CrauHeader} {partId : UInt8}
  {isFull : Bool} {src dst : Nat → UInt8} {ty : CrauOpType} {info : BuildInfo} {sl : Slices}
  {f₀ f : File}

theorem runLength_le (isFull : Bool) (src dst : Nat → UInt8) (ty : CrauOpType) (limit b : Nat) :
    runLength isFull src dst ty limit b ≤ limit := by
  induction limit generalizing b with
  | zero => exact le_refl 0
  | succ limit ih =>
    rw [runLength]
    split
    · have := ih (b + 1)
      omega
    · omega

theorem runLength_type (limit : Nat) (hlo : b ≤ j)
    (hhi : j < b + runLength isFull src dst ty limit b) : blockType isFull src dst j = ty := by
  induction limit generalizing b with
  | zero =>
    simp only [runLength] at hhi
    omega
  | succ limit ih =>
    rw [runLength] at hhi
    split at hhi
    · rename_i hb
      rcases Nat.eq_or_lt_of_le hlo with rfl | hlt
      · exact hb
      · exact ih (b := b + 1) hlt (by omega)
    · omega

theorem diffPartition4k_blobs (sha256 : List UInt8 → Digest) (partId : UInt8) (isFull : Bool)
    (src dst : Nat → UInt8) (total b : Nat) (blobs : List UInt8) :
    ∃ more, (diffPartition4k sha256 partId isFull src dst total b blobs).2 = blobs ++ more := by
  fun_induction diffPartition4k sha256 partId isFull src dst total b blobs with
  | case1 b blobs hb ty n rest ih =>
    obtain ⟨more, hmore⟩ := ih
    exact ⟨_, by rw [hmore, append_assoc]⟩
  | case2 b blobs hb => exact ⟨[], (append_nil _).symm⟩

theorem length_opsBytes (ops : List CrauOp) : (opsBytes ops).length = ops.length * crauOpSize := by
  induction ops with
  | nil => rfl
  | cons op ops ih =>
    simp only [opsBytes, flatMap_cons, length_append, CrauOp.length_encode, length_cons] at ih ⊢
    rw [ih, Nat.succ_mul, Nat.add_comm]

theorem installOp_packed (sha256 : List UInt8 → Digest) (pre post : List CrauOp) (op : CrauOp)
    (s : Installing) (h : pkg.zip.Holds (manifestStart pkg hdr) (opsBytes (pre ++ op :: post))) :
    ∃ zpos executed, installOp sha256 pkg hdr 1 pre.length s =
      applyOp sha256 pkg hdr 1 op { s with zpos := zpos, executed := executed } := by
  have hsplit : opsBytes (pre ++ op :: post) = opsBytes pre ++ (op.encode ++ opsBytes post) := by
    simp [opsBytes]
  rw [hsplit, holds_append, holds_append, length_opsBytes] at h
  obtain ⟨-, hop, -⟩ := h
  have hsize := hop.1
  have hlt := pkg.zip.size_lt
  have hbytes := hop.2
  rw [CrauOp.length_encode] at hsize hbytes
  have hpos : (opOff pkg hdr pre.length).toNat =
      manifestStart pkg hdr + pre.length * crauOpSize := by
    refine opOff_toNat ?_
    rw [Nat.succ_mul]
    omega
  have hseek : seek s.zpos (opOff pkg hdr pre.length) =
      manifestStart pkg hdr + pre.length * crauOpSize := by
    rw [seek_of_lt, hpos]
    omega
  rw [installOp, hseek, if_neg (not_not.mpr (count_of_le hsize)), hbytes, CrauOp.decode_encode]
  exact ⟨_, _, rfl⟩

/-- The loop installs the blocks from `b` on with the operations that `diff_partition_4k` packs for
them. -/
theorem diff_installed (b : Nat) (blobs : List UInt8) :
    ∀ (pre post : List CrauOp) (rest : List UInt8) (s : Installing),
    pkg.zip.Holds (manifestStart pkg hdr) (opsBytes (pre ++ ((diffPartition4k sha256 partId isFull
      src dst (total4k partId) b blobs).1 ++ post))) →
    pkg.zip.Holds (pkg.payOff + hdr.blobOffset).toNat ((diffPartition4k sha256 partId isFull
      src dst (total4k partId) b blobs).2 ++ rest) → Source partId src s.hdd → b ≤ total4k partId →
    (runLoop (installOp sha256 pkg hdr 1) (range' pre.length (diffPartition4k sha256 partId
      isFull src dst (total4k partId) b blobs).1.length) s).ok = true ∧
    Patched partId isFull src dst b (total4k partId) s.hdd
      (runLoop (installOp sha256 pkg hdr 1) (range' pre.length (diffPartition4k sha256 partId
        isFull src dst (total4k partId) b blobs).1.length) s).state.hdd := by
  fun_induction diffPartition4k sha256 partId isFull src dst (total4k partId) b blobs with
  | case1 b blobs hb ty n rest' ih =>
    intro pre post rest s hops hblobs hsrc _
    have hrun := runLength_le isFull src dst ty (min (total4k partId - (b + 1)) 4095) (b + 1)
    have hn : n = 1 + runLength isFull src dst ty (min (total4k partId - (b + 1)) 4095) (b + 1) :=
      rfl
    have htypes : ∀ j, b ≤ j → j < b + n → blockType isFull src dst j = ty := by
      intro j hlo hhi
      rcases Nat.eq_or_lt_of_le hlo with rfl | hlt
      · rfl
      · exact runLength_type (b := b + 1) _ hlt (by rw [hn] at hhi; rw [Nat.add_assoc]; exact hhi)
    have hblob : ty = .replace →
        pkg.zip.Holds ((pkg.payOff + hdr.blobOffset).toNat + blobs.length)
          (blockBytes dst b n) := by
      intro hty
      obtain ⟨more, hmore⟩ := diffPartition4k_blobs sha256 partId isFull src dst (total4k partId)
        (b + n) (blobs ++ opBlob dst ty b n)
      have hrest : rest'.2 = blobs ++ blockBytes dst b n ++ more := by
        rw [show blockBytes dst b n = opBlob dst ty b n by simp [opBlob, hty]]
        exact hmore
      rw [hrest, append_assoc, append_assoc] at hblobs
      exact (holds_append.mp (holds_append.mp hblobs).2).1
    obtain ⟨zpos, executed, hinst⟩ := installOp_packed sha256 pre (rest'.1 ++ post)
      (packOp sha256 partId dst ty b n blobs.length) s hops
    obtain ⟨hok, hpatch⟩ := applyOp_packOp (s := { s with zpos := zpos, executed := executed })
      sha256 (by omega) (by omega) htypes hsrc hblob
    rw [← hinst] at hok hpatch
    obtain ⟨hok', hpatch'⟩ := ih (pre ++ [packOp sha256 partId dst ty b n blobs.length]) post rest _
      (by rw [append_assoc]; exact hops) hblobs (hsrc.patched hpatch) (by omega)
    rw [length_append, length_singleton] at hok' hpatch'
    rw [length_cons, range'_succ, runLoop, if_pos hok]
    exact ⟨hok', hpatch.trans hpatch' (by omega) (by omega)⟩
  | case2 b blobs hb =>
    intro pre post rest s _ _ _ hle
    obtain rfl : b = total4k partId := by omega
    exact ⟨rfl, Patched.refl _ _⟩

theorem diffPartition4k_length (sha256 : List UInt8 → Digest) (partId : UInt8) (isFull : Bool)
    (src dst : Nat → UInt8) (total b : Nat) (blobs : List UInt8) :
    (diffPartition4k sha256 partId isFull src dst total b blobs).1.length ≤ total - b ∧
    (diffPartition4k sha256 partId isFull src dst total b blobs).2.length ≤
      blobs.length + (total - b) * crauBlockSize := by
  fun_induction diffPartition4k sha256 partId isFull src dst total b blobs with
  | case1 b blobs hb ty n rest ih =>
    have hrun := runLength_le isFull src dst ty (min (total - (b + 1)) 4095) (b + 1)
    have hblob : (opBlob dst ty b n).length ≤ n * crauBlockSize := by
      unfold opBlob
      split
      · exact (length_blockBytes dst b n).le
      · exact Nat.zero_le _
    obtain ⟨hops, hblobs⟩ : rest.1.length ≤ total - (b + n) ∧ rest.2.length ≤
        (blobs ++ opBlob dst ty b n).length + (total - (b + n)) * crauBlockSize := ih
    rw [length_append] at hblobs
    rw [length_cons]
    simp only [crauBlockSize] at *
    omega
  | case2 b blobs hb => simp

/-- The package holds a payload that `build_ota_zip` built, and its properties name the digest of
the payload or none. -/
structure Built (sha256 : List UInt8 → Digest) (isFull : Bool) (info : BuildInfo) (sl : Slices)
    (pkg : Package) : Prop where
  holds : pkg.zip.Holds pkg.payOff.toNat (buildPayload sha256 isFull info sl)
  size : pkg.paySz.toNat = (buildPayload sha256 isFull info sl).length
  hash : pkg.expectedHash = [] ∨
    pkg.expectedHash = bytesToHex (sha256 (buildPayload sha256 isFull info sl))

def builtHeader (sha256 : List UInt8 → Digest) (isFull : Bool) (sl : Slices) : CrauHeader where
  magic := crauMagic
  version := crauVersion
  headerSize := UInt32.ofNat crauHeaderSize
  numOps := UInt32.ofNat (buildOps sha256 isFull sl).length
  opsSize := UInt32.ofNat (opsBytes (buildOps sha256 isFull sl)).length
  blobOffset := UInt32.ofNat (crauHeaderSize + (opsBytes (buildOps sha256 isFull sl)).length)
  manifestSha256 := sha256 (opsBytes (buildOps sha256 isFull sl))

theorem length_buildPayload (sha256 : List UInt8 → Digest) (isFull : Bool) (info : BuildInfo)
    (sl : Slices) : (buildPayload sha256 isFull info sl).length =
      crauHeaderSize + ((opsBytes (buildOps sha256 isFull sl)).length +
        (vendorDiff sha256 isFull sl).2.length) := by
  simp [buildPayload]

section

variable (h : Built sha256 isFull info sl pkg)
include h

theorem Built.parts :
    manifestStart pkg (builtHeader sha256 isFull sl) = pkg.payOff.toNat + crauHeaderSize ∧
    pkg.zip.Holds (manifestStart pkg (builtHeader sha256 isFull sl))
      (opsBytes (buildOps sha256 isFull sl)) ∧
    pkg.zip.Holds (pkg.payOff + (builtHeader sha256 isFull sl).blobOffset).toNat
      (vendorDiff sha256 isFull sl).2 ∧ (builtHeader sha256 isFull sl).opsSize.toNat =
      (opsBytes (buildOps sha256 isFull sl)).length ∧
    (builtHeader sha256 isFull sl).numOps.toNat = (buildOps sha256 isFull sl).length := by
  have hlt := pkg.zip.size_lt
  have hend := h.holds.1
  have hops := length_opsBytes (buildOps sha256 isFull sl)
  rw [length_buildPayload] at hend
  have hholds := h.holds
  simp only [buildPayload] at hholds
  rw [holds_append, holds_append, length_packHeader] at hholds
  obtain ⟨-, hopsHeld, hblobsHeld⟩ := hholds
  simp only [crauHeaderSize, crauOpSize] at *
  have hman : manifestStart pkg (builtHeader sha256 isFull sl) = pkg.payOff.toNat + 256 := by
    rw [manifestStart, builtHeader, UInt32.toNat_add, toNat_ofNat']
    simp only [crauHeaderSize]
    omega
  have hblob : (pkg.payOff + (builtHeader sha256 isFull sl).blobOffset).toNat =
      pkg.payOff.toNat + 256 + (opsBytes (buildOps sha256 isFull sl)).length := by
    rw [builtHeader, UInt32.toNat_add, toNat_ofNat']
    simp only [crauHeaderSize]
    omega
  refine ⟨hman, hman ▸ hopsHeld, hblob ▸ hblobsHeld, ?_, ?_⟩
  · rw [builtHeader, toNat_ofNat']
    omega
  · rw [builtHeader, toNat_ofNat']
    omega

theorem Built.accept : pkg.accept sha256 = some (builtHeader sha256 isFull sl) := by
  obtain ⟨hman, hops, -, hopsSize, -⟩ := h.parts
  have hlt := pkg.zip.size_lt
  have hend := h.holds.1
  have hpay : sha256FileRange sha256 pkg.zip pkg.payOff pkg.paySz =
      some (sha256 (buildPayload sha256 isFull info sl)) := by
    rw [sha256FileRange_eq_some, h.size, h.holds.2]
    exact ⟨by omega, .inr hend, rfl⟩
  have hmanifest : sha256FileRange sha256 pkg.zip
      (pkg.payOff + (builtHeader sha256 isFull sl).headerSize)
      (builtHeader sha256 isFull sl).opsSize =
      some (builtHeader sha256 isFull sl).manifestSha256 := by
    rw [sha256FileRange_eq_some]
    have hopsEnd := hops.1
    have hopsBytes := hops.2
    unfold manifestStart at hopsEnd hopsBytes
    rw [hopsSize, hopsBytes]
    exact ⟨by omega, .inr hopsEnd, rfl⟩
  have hheader := (holds_append.mp h.holds).1
  have hcount := hheader.1
  have hbytes := hheader.2
  rw [length_packHeader] at hcount hbytes
  have hhash : ¬(pkg.expectedHash ≠ [] ∧
      pkg.expectedHash ≠ bytesToHex (sha256 (buildPayload sha256 isFull info sl))) := by
    rcases h.hash with hnil | heq
    · simp [hnil]
    · simp [heq]
  rw [Package.accept, hpay, Option.bind_some, if_neg hhash, seek_of_lt (by omega)]
  rw [if_neg (not_not.mpr (count_of_le hcount)), hbytes, CrauHeader.decode_packHeader]
  rw [if_neg (by simp)]
  change (sha256FileRange sha256 pkg.zip (pkg.payOff + (builtHeader sha256 isFull sl).headerSize)
    (builtHeader sha256 isFull sl).opsSize).bind _ = _
  rw [hmanifest, Option.bind_some]
  exact if_neg (not_not.mpr rfl)

theorem Built.installed
    (hsys : Source crauPartSystem sl.sysA hdd) (hvnd : Source crauPartVendor sl.vndA hdd) :
    ∃ o f, cmdInstallZip sha256 pkg 1 hdd = some o ∧ o.ok = true ∧
      Patched crauPartSystem isFull sl.sysA sl.sysDst 0 system4k hdd f ∧
      Patched crauPartVendor isFull sl.vndA sl.vndDst 0 vendor4k f o.state.hdd := by
  obtain ⟨-, hops, hblobs, -, hnum⟩ := h.parts
  obtain ⟨more, hmore⟩ := diffPartition4k_blobs sha256 crauPartVendor isFull sl.vndA sl.vndDst
    vendor4k 0 (systemDiff sha256 isFull sl).2
  have hsplit : range (buildOps sha256 isFull sl).length =
      range' 0 (systemDiff sha256 isFull sl).1.length ++
      range' (systemDiff sha256 isFull sl).1.length (vendorDiff sha256 isFull sl).1.length := by
    rw [buildOps, length_append, range_eq_range', ← range'_append_1, Nat.zero_add]
  have hsysBlobs : pkg.zip.Holds (pkg.payOff + (builtHeader sha256 isFull sl).blobOffset).toNat
      ((systemDiff sha256 isFull sl).2 ++ more) := by
    rw [← hmore]
    exact hblobs
  obtain ⟨hok1, hp1⟩ := diff_installed 0 [] [] (vendorDiff sha256 isFull sl).1 more
    (startInstall pkg (builtHeader sha256 isFull sl) hdd) hops hsysBlobs hsys (Nat.zero_le _)
  have hvndBlobs : pkg.zip.Holds (pkg.payOff + (builtHeader sha256 isFull sl).blobOffset).toNat
      ((vendorDiff sha256 isFull sl).2 ++ []) := by
    rw [append_nil]
    exact hblobs
  have hvndOps : pkg.zip.Holds (manifestStart pkg (builtHeader sha256 isFull sl))
      (opsBytes ((systemDiff sha256 isFull sl).1 ++ ((vendorDiff sha256 isFull sl).1 ++ []))) := by
    rw [append_nil]
    exact hops
  obtain ⟨hok2, hp2⟩ := diff_installed 0 (systemDiff sha256 isFull sl).2
    (systemDiff sha256 isFull sl).1 [] [] _ hvndOps hvndBlobs (hvnd.patched hp1) (Nat.zero_le _)
  have hloop := runLoop_append (installOp sha256 pkg (builtHeader sha256 isFull sl) 1)
    (range' 0 (systemDiff sha256 isFull sl).1.length)
    (range' (systemDiff sha256 isFull sl).1.length (vendorDiff sha256 isFull sl).1.length)
    (startInstall pkg (builtHeader sha256 isFull sl) hdd)
  rw [cmdInstallZip, h.accept, Option.map_some, hnum, hsplit, hloop.trans (if_pos hok1)]
  exact ⟨_, _, rfl, hok2, hp1, hp2⟩

end

def SliceIs (partId : UInt8) (dst : Nat → UInt8) (f : File) : Prop :=
  ∀ i < total4k partId * crauBlockSize, f.byte (sliceStart 1 partId + i) = dst i

/-- The slice of slot b agrees with `dst` on the blocks that the installer skips. -/
def SkippedAgree (partId : UInt8) (isFull : Bool) (src dst : Nat → UInt8) (f : File) : Prop :=
  ∀ b < total4k partId, skipped partId isFull src dst b = true → ∀ i < crauBlockSize,
    f.byte (sliceStart 1 partId + (b * crauBlockSize + i)) = dst (b * crauBlockSize + i)

theorem Patched.sliceIs_iff (h : Patched partId isFull src dst 0 (total4k partId) f₀ f) :
    SliceIs partId dst f ↔ SkippedAgree partId isFull src dst f₀ := by
  have hbyte : ∀ i < total4k partId * crauBlockSize, f.byte (sliceStart 1 partId + i) =
      if skipped partId isFull src dst (i / crauBlockSize) = false then dst i
      else f₀.byte (sliceStart 1 partId + i) := by
    intro i hi
    rw [h.byte, patched, Nat.add_sub_cancel_left]
    simp only [Nat.zero_mul, Nat.add_zero, Nat.le_add_right, true_and, Nat.add_lt_add_iff_left, hi]
  constructor
  · intro his b hb hskip i hi
    have hlt : b * crauBlockSize + i < total4k partId * crauBlockSize := by
      have hmul := Nat.mul_le_mul_right crauBlockSize hb
      rw [Nat.succ_mul] at hmul
      omega
    have hdiv : (b * crauBlockSize + i) / crauBlockSize = b := by
      rw [Nat.mul_comm, Nat.mul_add_div (by decide), Nat.div_eq_of_lt hi, Nat.add_zero]
    have heq := his _ hlt
    rw [hbyte _ hlt, hdiv, hskip] at heq
    exact heq
  · intro hagree i hi
    rw [hbyte i hi]
    split
    · rfl
    · rename_i hskip
      have hb : i / crauBlockSize < total4k partId := (Nat.div_lt_iff_lt_mul (by decide)).mpr hi
      have heq := hagree _ hb (by simpa using hskip) (i % crauBlockSize) (Nat.mod_lt _ (by decide))
      rwa [Nat.div_add_mod'] at heq

theorem Patched.other_byte (h : Patched partId isFull src dst 0 (total4k partId) f₀ f)
    (hne : (partId = crauPartSystem) ≠ (partId' = crauPartSystem))
    (hi : i < total4k partId' * crauBlockSize) :
    f.byte (sliceStart 1 partId' + i) = f₀.byte (sliceStart 1 partId' + i) := by
  have hdisj : sliceStart 1 partId' + total4k partId' * crauBlockSize ≤ sliceStart 1 partId ∨
      sliceStart 1 partId + total4k partId * crauBlockSize ≤ sliceStart 1 partId' := by
    unfold sliceStart dstBaseSec total4k
    by_cases hp : partId = crauPartSystem <;> by_cases hp' : partId' = crauPartSystem
    · exact absurd (by rw [eq_true hp, eq_true hp']) hne
    · simp only [hp, hp', if_true, if_false]
      decide
    · simp only [hp, hp', if_true, if_false]
      decide
    · exact absurd (by rw [eq_false hp, eq_false hp']) hne
  rw [h.byte, patched_outside (by omega)]

/-- Installing a built payload to slot b ends without an error, and slot b then holds the target
slices exactly when it held every block that the installer skips: the blocks of zeros and, in a
delta, the unchanged blocks outside the copy window. -/
theorem install_restores_iff {info : BuildInfo} {sl : Slices}
    (h : Built sha256 isFull info sl pkg) {hdd : File}
    (hsys : Source crauPartSystem sl.sysA hdd) (hvnd : Source crauPartVendor sl.vndA hdd) :
    ∃ o, cmdInstallZip sha256 pkg 1 hdd = some o ∧ o.ok = true ∧
      ((SliceIs crauPartSystem sl.sysDst o.state.hdd ∧
          SliceIs crauPartVendor sl.vndDst o.state.hdd) ↔
        (SkippedAgree crauPartSystem isFull sl.sysA sl.sysDst hdd ∧
          SkippedAgree crauPartVendor isFull sl.vndA sl.vndDst hdd)) := by
  obtain ⟨o, f, hrun, hok, hp1, hp2⟩ := h.installed hsys hvnd
  refine ⟨o, hrun, hok, and_congr ?_ ?_⟩
  · rw [← hp1.sliceIs_iff]
    refine forall₂_congr fun i hi => ?_
    rw [hp2.other_byte (by decide) hi]
  · rw [hp2.sliceIs_iff]
    refine forall₂_congr fun b hb => forall_congr' fun _ => forall₂_congr fun i hi => ?_
    rw [hp1.other_byte (by decide)]
    have hmul := Nat.mul_le_mul_right crauBlockSize hb
    rw [Nat.succ_mul] at hmul
    omega

end

variable (sha256 : List UInt8 → Digest)

theorem length_buildPayload_lt (isFull : Bool) (info : BuildInfo)
    (sl : Slices) : (buildPayload sha256 isFull info sl).length < 2 ^ 31 := by
  have hsys := diffPartition4k_length sha256 crauPartSystem isFull sl.sysA sl.sysDst system4k 0 []
  have hvnd := diffPartition4k_length sha256 crauPartVendor isFull sl.vndA sl.vndDst vendor4k 0
    (systemDiff sha256 isFull sl).2
  change (systemDiff sha256 isFull sl).1.length ≤ _ ∧
    (systemDiff sha256 isFull sl).2.length ≤ _ at hsys
  change (vendorDiff sha256 isFull sl).1.length ≤ _ ∧
    (vendorDiff sha256 isFull sl).2.length ≤ _ at hvnd
  rw [length_buildPayload, length_opsBytes, buildOps, length_append]
  simp only [length_nil, system4k, vendor4k, crauBlockSize, crauHeaderSize, crauOpSize] at *
  omega

def builtPackage (isFull : Bool) (info : BuildInfo)
    (sl : Slices) : Package where
  zip := .ofList _ (length_buildPayload_lt sha256 isFull info sl)
  payOff := 0
  paySz := UInt32.ofNat (buildPayload sha256 isFull info sl).length
  expectedHash := bytesToHex (sha256 (buildPayload sha256 isFull info sl))

theorem built_builtPackage (isFull : Bool) (info : BuildInfo)
    (sl : Slices) : Built sha256 isFull info sl (builtPackage sha256 isFull info sl) where
  holds := holds_ofList _
  size := by
    have hlt := length_buildPayload_lt sha256 isFull info sl
    rw [builtPackage, toNat_ofNat']
    omega
  hash := .inr rfl

/-- The system slice has two blocks of zeros in front. -/
def mixedSlices : Slices := ⟨fun _ => 0, fun _ => 0, fun i => if i < 8192 then 0 else 7, fun _ => 0⟩

def zeroInfo : BuildInfo := ⟨0, fun _ => 0, fun _ => 0, [], [], []⟩

def slotB (x : UInt8) : File where
  size := 58720256
  byte := fun i => if i < 37748736 then 0 else x
  size_lt := zeroHdd.size_lt

theorem source_slotB (x : UInt8) (partId : UInt8) : Source partId (fun _ => 0) (slotB x) where
  holds := by
    intro i hi
    have hend : srcStart partId + total4k partId * crauBlockSize ≤ 37748736 := by
      unfold srcStart srcBaseSec total4k
      split <;> decide
    exact if_pos (by omega)
  size := le_refl _

theorem skippedAgree_zeros {src dst : Nat → UInt8} (hbyte : ∀ i, f.byte i = 0) :
    SkippedAgree partId true src dst f := by
  intro b _ hskip i hi
  by_cases hsame : sameBytes crauBlockSize (fromBlock dst b) (fun _ => 0) = true
  · rw [hbyte]
    exact (sameBytes_iff.mp hsame i hi).symm
  · simp [skipped, blockType, hsame] at hskip

theorem mixed_slices_restored : ∃ o, cmdInstallZip Sha256.sha256
      (builtPackage Sha256.sha256 true zeroInfo mixedSlices) 1 (slotB 0) = some o ∧
    SliceIs crauPartSystem mixedSlices.sysDst o.state.hdd := by
  obtain ⟨o, hrun, -, hiff⟩ := install_restores_iff
    (built_builtPackage Sha256.sha256 true zeroInfo mixedSlices) (source_slotB 0 _)
    (source_slotB 0 _)
  have hbyte : ∀ i, (slotB 0).byte i = 0 := fun i => ite_self 0
  exact ⟨o, hrun, (hiff.mpr ⟨skippedAgree_zeros hbyte, skippedAgree_zeros hbyte⟩).1⟩

/-- A full payload leaves the stale bytes of slot b where the slice has zeros. -/
theorem stale_zero_block_kept : ∃ o, cmdInstallZip Sha256.sha256
      (builtPackage Sha256.sha256 true zeroInfo mixedSlices) 1 (slotB 255) = some o ∧
    o.ok = true ∧ Source crauPartSystem mixedSlices.sysA (slotB 255) ∧
    Source crauPartVendor mixedSlices.vndA (slotB 255) ∧
    ¬ SliceIs crauPartSystem mixedSlices.sysDst o.state.hdd := by
  have hsys := source_slotB 255 crauPartSystem
  have hvnd := source_slotB 255 crauPartVendor
  obtain ⟨o, f, hrun, hok, hp1, hp2⟩ :=
    (built_builtPackage Sha256.sha256 true zeroInfo mixedSlices).installed hsys hvnd
  refine ⟨o, hrun, hok, hsys, hvnd, fun his => ?_⟩
  have his' : SliceIs crauPartSystem mixedSlices.sysDst f := by
    intro i hi
    rw [← hp2.other_byte (by decide) hi]
    exact his i hi
  have hskip : skipped crauPartSystem true mixedSlices.sysA mixedSlices.sysDst 0 = true := by
    have hsame : sameBytes crauBlockSize (fromBlock mixedSlices.sysDst 0) (fun _ => 0) = true := by
      refine sameBytes_iff.mpr fun i hi => if_pos ?_
      have : i < 4096 := hi
      omega
    rw [skipped, blockType, if_pos hsame]
  exact absurd (hp1.sliceIs_iff.mp his' 0 (by decide) hskip 0 (by decide)) (by decide)

end Six.Ota
