import Six.Dm.Table
import Six.Dm.VerityComplete

/-! Where the three levels of a hash tree lie.  The position of a hash block is computed from the
block number alone. -/

namespace Six.Dm

open List UInt32

variable {disk : Backing} {s s' : DmState}

inductive Level
  | l0 | l1 | l2
  deriving DecidableEq, Repr

def Level.sec (hashStartSector blkNr : UInt32) : Level → UInt32
  | .l0 => l0Sec hashStartSector blkNr
  | .l1 => l1Sec hashStartSector blkNr
  | .l2 => l2Sec hashStartSector

def Level.off (blkNr : UInt32) : Level → Nat
  | .l0 => l0Off blkNr
  | .l1 => l1Off blkNr
  | .l2 => l2Off blkNr

def DmTargetSpec.blkNr (t : DmTargetSpec) (sec : UInt32) : UInt32 := blkNrOf (sec - t.startSector)

/-- For every sector in the line the slots lie inside their hash blocks, and no block is a hash
block at two levels. -/
structure DmTargetSpec.LevelsApart (t : DmTargetSpec) : Prop where
  inside : ∀ sec, t.covers sec → ∀ lvl : Level, lvl.off (t.blkNr sec) + 32 ≤ 1024
  apart : ∀ sec sec', t.covers sec → t.covers sec' → ∀ lvl lvl' : Level, lvl ≠ lvl' →
    lvl.sec t.hashStartSector (t.blkNr sec) ≠ lvl'.sec t.hashStartSector (t.blkNr sec')

/-- The line covers no sector, since its end is past the last sector number, or it has room for at
most 15360 blocks. -/
def DmTargetSpec.Short (t : DmTargetSpec) : Prop :=
  2 ^ 32 ≤ t.startSector.toNat + t.numSectors.toNat ∨ t.numSectors.toNat ≤ 30720

section Levels

variable {t : DmTargetSpec} {sec : UInt32}

theorem DmTargetSpec.covers_iff : t.covers sec = true ↔
    t.startSector.toNat ≤ sec.toNat ∧
      sec.toNat < (t.startSector.toNat + t.numSectors.toNat) % 2 ^ 32 := by
  simp [covers, le_iff_toNat_le, lt_iff_toNat_lt]

theorem DmTargetSpec.toNat_blkNr (h : t.covers sec) :
    (t.blkNr sec).toNat = (sec.toNat - t.startSector.toNat) / 2 := by
  have hle : t.startSector ≤ sec := le_iff_toNat_le.mpr (covers_iff.mp h).1
  rw [blkNr, blkNrOf, UInt32.toNat_shiftRight, UInt32.toNat_sub_of_le _ _ hle]
  simp [Nat.shiftRight_eq_div_pow]

theorem DmTargetSpec.Short.blkNr_lt (h : t.Short) (hsec : t.covers sec) :
    (t.blkNr sec).toNat < 15360 := by
  have hcov := covers_iff.mp hsec
  have hnum := t.numSectors.toNat_lt
  rw [toNat_blkNr hsec]
  unfold Short at h
  omega

def Level.index (blkNr : Nat) : Level → Nat
  | .l0 => 17 + blkNr / 32
  | .l1 => 2 + blkNr / 1024
  | .l2 => 1

theorem Level.sec_eq (hs blkNr : UInt32) (lvl : Level) :
    lvl.sec hs blkNr = hs + UInt32.ofNat (2 * lvl.index blkNr.toNat) := by
  cases lvl with
  | l0 =>
    have h := l0Sec_eq hs (n := 0) (b := blkNr)
    simp only [Nat.mul_zero, Nat.zero_add, reduceOfNat, UInt32.add_zero] at h
    exact h
  | l1 =>
    have h := l1Sec_eq hs (n := 0) (b := blkNr)
    simp only [Nat.mul_zero, Nat.zero_add, reduceOfNat, UInt32.add_zero] at h
    exact h
  | l2 => rfl

theorem Level.sec_eq_iff (hs blkNr blkNr' : UInt32) (lvl lvl' : Level) :
    lvl.sec hs blkNr = lvl'.sec hs blkNr' ↔ lvl.index blkNr.toNat = lvl'.index blkNr'.toNat := by
  have hindex : ∀ (b : UInt32) (l : Level), l.index b.toNat < 2 ^ 31 := by
    intro b l
    have hb := b.toNat_lt
    cases l <;> simp only [index] <;> omega
  have hi := hindex blkNr lvl
  have hj := hindex blkNr' lvl'
  rw [sec_eq, sec_eq]
  constructor
  · intro h
    have hnat := congrArg toNat ((UInt32.add_right_inj hs).mp h)
    simp only [toNat_ofNat'] at hnat
    omega
  · intro h
    rw [h]

theorem DmTargetSpec.covers_of_not_short (h : ¬t.Short) (hk : k ≤ 30720) :
    t.covers (t.startSector + ofNat k) ∧
      (t.blkNr (t.startSector + ofNat k)).toNat = k / 2 := by
  obtain ⟨hend, hlong⟩ := not_or.mp h
  have hsum : (t.startSector + ofNat k).toNat = t.startSector.toNat + k := by
    simp only [UInt32.toNat_add, toNat_ofNat']
    omega
  have hcov : t.covers (t.startSector + ofNat k) := by
    rw [covers_iff, hsum]
    omega
  refine ⟨hcov, ?_⟩
  rw [toNat_blkNr hcov, hsum, Nat.add_sub_cancel_left]

theorem DmTargetSpec.levelsApart_iff : t.LevelsApart ↔ t.Short := by
  constructor
  · intro h
    by_contra hlong
    obtain ⟨hlast, hlastNr⟩ := covers_of_not_short hlong (Nat.le_refl 30720)
    obtain ⟨hfirst, hfirstNr⟩ := covers_of_not_short hlong (Nat.zero_le 30720)
    -- the level-1 block of block 15360 is the level-0 block of block 0
    apply h.apart _ _ hlast hfirst .l1 .l0 (by decide)
    rw [Level.sec_eq_iff, hlastNr, hfirstNr]
    decide
  · intro h
    constructor
    · intro sec hsec lvl
      have hlt := h.blkNr_lt hsec
      cases lvl with
      | l0 => exact l0Off_le _
      | l1 => exact l1Off_le _
      | l2 => exact l2Off_le_iff.mpr (by omega)
    · intro sec sec' hsec hsec' lvl lvl' hne heq
      have hlt := h.blkNr_lt hsec
      have hlt' := h.blkNr_lt hsec'
      rw [Level.sec_eq_iff] at heq
      cases lvl <;> cases lvl' <;> simp only [Level.index, ne_eq, not_true_eq_false] at heq hne <;>
        omega

end Levels

theorem foldl_loadTarget_targets (disk : Backing) (binSalt : Digest) (ts : List DmTargetSpec)
    (l : Loading) : (ts.foldl (loadTarget disk binSalt) l).dev.targets = l.dev.targets ++ ts := by
  induction ts generalizing l with
  | nil => simp
  | cons t ts ih =>
    have hone : (loadTarget disk binSalt l t).dev.targets = l.dev.targets ++ [t] := by
      unfold loadTarget
      split <;> rfl
    rw [foldl_cons, ih, hone, append_assoc]
    rfl

theorem dmIocCreate_targets
    (hm : dmCreateMinor s req = .ok m) (h : dmIocCreate disk binSalt s req = (0, s')) :
    (s'.devs m).targets = req.table := by
  rw [dmIocCreate, hm] at h
  obtain ⟨-, rfl⟩ := Prod.mk.inj h
  simp only [DmState.setDev, Function.update_self]
  exact (foldl_loadTarget_targets disk binSalt req.table _).trans (nil_append _)

theorem count_same (t : DmTargetSpec) (r : VerifyResult) :
    (t.count r).startSector = t.startSector ∧ (t.count r).numSectors = t.numSectors := by
  unfold DmTargetSpec.count
  split_ifs <;> exact ⟨rfl, rfl⟩

theorem foldl_checkBlock_same (disk : Backing) (p : VerityParams) (salt root : Digest)
    (blks : List Nat) (c : Checking) :
    (blks.foldl (checkBlock disk p salt root) c).target.startSector = c.target.startSector ∧
      (blks.foldl (checkBlock disk p salt root) c).target.numSectors = c.target.numSectors := by
  induction blks generalizing c with
  | nil => exact ⟨rfl, rfl⟩
  | cons blk blks ih =>
    have hone : (checkBlock disk p salt root c blk).target.startSector = c.target.startSector ∧
        (checkBlock disk p salt root c blk).target.numSectors = c.target.numSectors := by
      unfold checkBlock
      dsimp only
      split_ifs
      · exact ⟨rfl, rfl⟩
      · exact ⟨rfl, rfl⟩
      · exact count_same _ _
    rw [foldl_cons, (ih _).1, (ih _).2]
    exact hone

theorem dmSetupVeritySlice_targets (h : dmSetupVeritySlice disk p s minor a = (0, s')) :
    ∃ t, (s'.devs minor).targets = [t] ∧ t.startSector = 0 ∧ t.numSectors = a.dataSecs := by
  have heio : (-Errno.eio : Int) ≠ 0 := by decide
  have heinval : (-Errno.einval : Int) ≠ 0 := by decide
  simp only [dmSetupVeritySlice] at h
  split at h
  · exact absurd (Prod.mk.inj h).1 heio
  split at h
  · exact absurd (Prod.mk.inj h).1 heinval
  split at h
  · exact absurd (Prod.mk.inj h).1 heio
  split at h
  · exact absurd (Prod.mk.inj h).1 heio
  obtain ⟨-, rfl⟩ := Prod.mk.inj h
  simp only [DmState.setDev, Function.update_self]
  exact ⟨_, rfl, foldl_checkBlock_same ..⟩

/-- The levels of every accepted line are apart exactly when the line is short, whichever way it was
set up. -/
theorem levels_apart_iff_short (disk : Backing) (s s' : DmState) :
    (∀ (binSalt : Digest) (req : DmIoctlReq) (m : Fin 8),
      dmCreateMinor s req = .ok m → dmIocCreate disk binSalt s req = (0, s') →
      ((∀ t ∈ (s'.devs m).targets, t.type = .verity → t.LevelsApart) ↔
        ∀ t ∈ req.table, t.type = .verity → t.Short)) ∧
    ∀ (p : VerityParams) (minor : Fin 8) (a : SliceArgs),
      dmSetupVeritySlice disk p s minor a = (0, s') →
      ((∀ t ∈ (s'.devs minor).targets, t.LevelsApart) ↔ a.dataSecs.toNat ≤ 30720) := by
  constructor
  · intro binSalt req m hm h
    rw [dmIocCreate_targets hm h]
    exact forall₂_congr fun t _ => imp_congr_right fun _ => DmTargetSpec.levelsApart_iff
  · intro p minor a h
    obtain ⟨t, htargets, hstart, hnum⟩ := dmSetupVeritySlice_targets h
    have hlt := a.dataSecs.toNat_lt
    rw [htargets, forall_mem_singleton, DmTargetSpec.levelsApart_iff, DmTargetSpec.Short,
      hstart, hnum, UInt32.toNat_zero]
    omega

def oneLineReq (numSectors : UInt32) : DmIoctlReq where
  minor := -1
  name := [0x76]
  numTargets := 1
  targets := [{ startSector := 0, numSectors := numSectors, type := .verity }]

/-- A disk of which every even sector is the first half of a superblock with a zero root hash. -/
def sbDisk : Backing where
  read _ _ sec := ⟨0, fun i => if h : i.val < 8 ∧ sec % 2 = 0 then verityMagic ⟨i, h.1⟩ else
    if i.val = 8 ∧ sec % 2 = 0 then 1 else 0⟩
  write _ _ _ _ := 0

theorem full_lines_apart :
    (∃ s', dmIocCreate sbDisk 0 dmInit (oneLineReq 30720) = (0, s') ∧
      ∀ t ∈ (s'.devs 0).targets, t.type = .verity → t.LevelsApart) ∧
    ∃ s', dmSetupVeritySlice sbDisk ⟨fun _ _ => 0, fun _ => 0⟩ dmInit 0
        ⟨[0x76], 0, 30720, 0, 0, 0⟩ = (0, s') ∧ ∀ t ∈ (s'.devs 0).targets, t.LevelsApart := by
  have hcreate : dmIocCreate sbDisk 0 dmInit (oneLineReq 30720) =
    (0, (dmIocCreate sbDisk 0 dmInit (oneLineReq 30720)).2) := rfl
  have hsetup : (dmSetupVeritySlice sbDisk ⟨fun _ _ => 0, fun _ => 0⟩ dmInit 0
      ⟨[0x76], 0, 30720, 0, 0, 0⟩).1 = 0 := by
    decide
  constructor
  · refine ⟨_, hcreate, ((levels_apart_iff_short _ _ _).1 _ _ 0 rfl hcreate).mpr ?_⟩
    intro t ht _
    obtain rfl := mem_singleton.mp ht
    exact .inr (by decide)
  · have hpair := Prod.ext hsetup rfl
    exact ⟨_, hpair, ((levels_apart_iff_short _ _ _).2 _ _ _ hpair).mpr (by decide)⟩

/-- A line over 15361 blocks is accepted, and the level-1 block of its last data block is the
level-0 block of its first. -/
theorem long_line_levels_meet :
    ∃ s', dmIocCreate sbDisk 0 dmInit (oneLineReq 30722) = (0, s') ∧
      ∃ t ∈ (s'.devs 0).targets, t.type = .verity ∧ t.covers 30720 ∧ t.covers 0 ∧
        Level.l1.sec t.hashStartSector (t.blkNr 30720) =
          Level.l0.sec t.hashStartSector (t.blkNr 0) :=
  ⟨_, rfl, _, mem_singleton.mpr rfl, rfl, by decide, by decide, by decide⟩

end Six.Dm
