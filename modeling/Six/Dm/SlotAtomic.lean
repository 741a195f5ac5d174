import Six.Dm.Activate

/-! The slots that the system and vendor mappings belong to after `dm_activate_ota_slot`, which maps
a slice as soon as it verifies. -/

namespace Six.Dm

open Errno Ufs DmDevice

variable {p : OtaParams} {slot : Int} {m : Machine} {s s' : DmState} {dev : DmDevice} {i j : Int}
  {a : SliceArgs}

/-- What a device maps: the device without its number of users and the counts of its table. -/
def DmDevice.mapping (dev : DmDevice) : DmDevice :=
  { dev with openCount := 0, targets := dev.targets.map .uncounted }

/-- The mapping that `dm_setup_verity_slice` gives a device, with the salt of the superblock. -/
def sliceMapping (a : SliceArgs) (salt : Digest) : DmDevice where
  active := true
  ro := true
  name := a.name.take 31
  totalSectors := a.dataSecs
  targets := [sliceTarget a.offsetSec a.dataSecs a.hashSec a.expectedRootHash]
  veritySalt := salt
  verityRootHash := a.expectedRootHash

def readSuperblock (disk : Backing) (s : DmState) (a : SliceArgs) : BlockRead :=
  dmReadPhys1k disk hddDev a.hashSec s.dataBuf s.time

def checkBlocks (p : OtaParams) (s : DmState) (a : SliceArgs) : Checking :=
  let r := readSuperblock p.disk s a
  (List.range a.checkBlocks).foldl
    (checkBlock p.disk p.verity (sbSalt r.buf) a.expectedRootHash)
    ⟨true, sliceTarget a.offsetSec a.dataSecs a.hashSec a.expectedRootHash, r.buf, s.hashBuf,
      r.time⟩

/-- The superblock of the slice is valid, names the expected root hash, and the first blocks of
the slice verify. -/
structure SliceVerifies (p : OtaParams) (s : DmState) (a : SliceArgs) : Prop where
  readable : (readSuperblock p.disk s a).err = 0
  magic : sbMagic (readSuperblock p.disk s a).buf = verityMagic
  version : sbVersion (readSuperblock p.disk s a).buf = 1
  root : sbRootHash (readSuperblock p.disk s a).buf = a.expectedRootHash
  blocks : (checkBlocks p s a).ok = true

instance (p : OtaParams) (s : DmState) (a : SliceArgs) : Decidable (SliceVerifies p s a) :=
  decidable_of_iff
    ((readSuperblock p.disk s a).err = 0 ∧ sbMagic (readSuperblock p.disk s a).buf = verityMagic ∧
      sbVersion (readSuperblock p.disk s a).buf = 1 ∧
      sbRootHash (readSuperblock p.disk s a).buf = a.expectedRootHash ∧
      (checkBlocks p s a).ok = true)
    ⟨fun ⟨h1, h2, h3, h4, h5⟩ => ⟨h1, h2, h3, h4, h5⟩,
      fun ⟨h1, h2, h3, h4, h5⟩ => ⟨h1, h2, h3, h4, h5⟩⟩

theorem checkBlock_uncounted (disk : Backing) (p : VerityParams) (salt root : Digest)
    (c : Checking) (blk : Nat) :
    (checkBlock disk p salt root c blk).target.uncounted = c.target.uncounted := by
  simp only [checkBlock]
  split_ifs
  · rfl
  · rfl
  · exact DmTargetSpec.uncounted_count _ _

theorem foldl_checkBlock_uncounted (disk : Backing) (p : VerityParams) (salt root : Digest)
    (blks : List Nat) (c : Checking) :
    (blks.foldl (checkBlock disk p salt root) c).target.uncounted = c.target.uncounted := by
  induction blks generalizing c with
  | nil => rfl
  | cons blk blks ih => rw [List.foldl_cons, ih, checkBlock_uncounted]

section

variable (p : OtaParams) (s : DmState)

theorem checkBlocks_uncounted (a : SliceArgs) :
    (checkBlocks p s a).target.uncounted =
      sliceTarget a.offsetSec a.dataSecs a.hashSec a.expectedRootHash :=
  foldl_checkBlock_uncounted _ _ _ _ _ _

def sliceDevice (a : SliceArgs) (old : DmDevice) : DmDevice where
  active := true
  ro := true
  openCount := if old.active then old.openCount else 1
  name := a.name.take 31
  totalSectors := a.dataSecs
  targets := [(checkBlocks p s a).target]
  veritySalt := sbSalt (readSuperblock p.disk s a).buf
  verityRootHash := a.expectedRootHash

def superblockState (a : SliceArgs) : DmState :=
  { s with
    dataBuf := (readSuperblock p.disk s a).buf
    time := (readSuperblock p.disk s a).time }

def checkedState (a : SliceArgs) : DmState :=
  { s with
    dataBuf := (checkBlocks p s a).dataBuf
    hashBuf := (checkBlocks p s a).hashBuf
    time := (checkBlocks p s a).time }

theorem dmSetupVeritySlice_eq (m : Fin 8) (a : SliceArgs) :
    dmSetupVeritySlice p.disk p.verity s m a =
      if (readSuperblock p.disk s a).err ≠ 0 then (-eio, superblockState p s a)
      else if sbMagic (readSuperblock p.disk s a).buf ≠ verityMagic ∨
          sbVersion (readSuperblock p.disk s a).buf ≠ 1 then (-einval, superblockState p s a)
      else if sbRootHash (readSuperblock p.disk s a).buf ≠ a.expectedRootHash then
        (-eio, superblockState p s a)
      else if !(checkBlocks p s a).ok then (-eio, checkedState p s a)
      else (0, (checkedState p s a).setDev m (sliceDevice p s a (s.devs m))) :=
  rfl

end

theorem dmSetupVeritySlice_refused {m : Fin 8} (h : ¬ SliceVerifies p s a) :
    (dmSetupVeritySlice p.disk p.verity s m a).1 ≠ 0 ∧
      (dmSetupVeritySlice p.disk p.verity s m a).2.devs = s.devs := by
  have heio : -eio ≠ 0 := by decide
  have heinval : -einval ≠ 0 := by decide
  rw [dmSetupVeritySlice_eq]
  split_ifs with hread hmagic hroot hok
  · exact ⟨heio, rfl⟩
  · exact ⟨heinval, rfl⟩
  · exact ⟨heio, rfl⟩
  · exact ⟨heio, rfl⟩
  · rw [not_or, not_not, not_not] at hmagic
    rw [Bool.not_eq_true', Bool.not_eq_false] at hok
    exact absurd ⟨not_not.mp hread, hmagic.1, hmagic.2, not_not.mp hroot, hok⟩ h

theorem sliceDevice_mapping (p : OtaParams) (s : DmState) (a : SliceArgs) (old : DmDevice) :
    (sliceDevice p s a old).mapping = sliceMapping a (sbSalt (readSuperblock p.disk s a).buf) := by
  simp only [mapping, sliceDevice, List.map_cons, List.map_nil, checkBlocks_uncounted]
  rfl

theorem dmSetupVeritySlice_mapped {m : Fin 8} (h : SliceVerifies p s a) :
    (dmSetupVeritySlice p.disk p.verity s m a).1 = 0 ∧
      ((dmSetupVeritySlice p.disk p.verity s m a).2.devs m).mapping =
        sliceMapping a (sbSalt (readSuperblock p.disk s a).buf) ∧
      ∀ i ≠ m, (dmSetupVeritySlice p.disk p.verity s m a).2.devs i = s.devs i := by
  rw [dmSetupVeritySlice_eq, if_neg (not_not.mpr h.readable),
    if_neg (not_or.mpr ⟨not_not.mpr h.magic, not_not.mpr h.version⟩),
    if_neg (not_not.mpr h.root), if_neg (by simp [h.blocks])]
  refine ⟨rfl, ?_, fun i hi => Function.update_of_ne hi _ _⟩
  simp only [DmState.setDev, Function.update_self, sliceDevice_mapping]

def OnSystem (dev : DmDevice) (slot : Int) : Prop :=
  ∃ root salt, dev.mapping = sliceMapping (systemSlice slot root) salt

def OnVendor (dev : DmDevice) (slot : Int) : Prop :=
  ∃ root salt, dev.mapping = sliceMapping (vendorSlice slot root) salt

def SystemFits (s : DmState) (slot : Int) : Prop :=
  (s.devs 0).active = true → OnSystem (s.devs 0) slot

def VendorFits (s : DmState) (slot : Int) : Prop :=
  (s.devs 6).active = true → OnVendor (s.devs 6) slot

/-- The system and vendor mappings belong to one and the same slot.  A device that is not mapped
belongs to none. -/
def OneSlot (s : DmState) : Prop := ∃ slot, SystemFits s slot ∧ VendorFits s slot

theorem OnSystem.active (h : OnSystem dev slot) : dev.active = true := by
  obtain ⟨root, salt, h⟩ := h
  exact congrArg DmDevice.active h

def DmDevice.offset (dev : DmDevice) : Option UInt32 :=
  dev.mapping.targets.head?.map (·.offsetSector)

theorem OnSystem.offset_eq (h : OnSystem dev slot) :
    dev.offset = some (if slot = 0 then 0 else veritySystemBStartSector) := by
  obtain ⟨root, salt, h⟩ := h
  rw [offset, h]
  rfl

theorem OnVendor.offset_eq (h : OnVendor dev slot) :
    dev.offset =
      some (if slot = 0 then verityVendorAStartSector else verityVendorBStartSector) := by
  obtain ⟨root, salt, h⟩ := h
  rw [offset, h]
  rfl

theorem OnSystem.unique (hi : OnSystem dev i) (hj : OnSystem dev j) : i = 0 ↔ j = 0 := by
  have h := hi.offset_eq.symm.trans hj.offset_eq
  by_cases hi0 : i = 0 <;> by_cases hj0 : j = 0 <;>
    simp [hi0, hj0, veritySystemBStartSector] at h ⊢

theorem vendorSlice_congr (h : i = 0 ↔ j = 0) (root : Digest) :
    vendorSlice i root = vendorSlice j root := by
  by_cases hi : i = 0
  · rw [hi, h.mp hi]
  · have hj : j ≠ 0 := fun hj => hi (h.mpr hj)
    unfold vendorSlice
    rw [if_neg hi, if_neg hi, if_neg hj, if_neg hj]

theorem VendorFits.congr (h : i = 0 ↔ j = 0) (hv : VendorFits s i) : VendorFits s j := by
  intro hactive
  obtain ⟨root, salt, hmap⟩ := hv hactive
  rw [vendorSlice_congr h root] at hmap
  exact ⟨root, salt, hmap⟩

theorem oneSlot_iff_vendorFits (h : OnSystem (s.devs 0) slot) : OneSlot s ↔ VendorFits s slot := by
  constructor
  · rintro ⟨i, hsys, hvnd⟩
    exact hvnd.congr ((hsys h.active).unique h)
  · exact fun hvnd => ⟨slot, fun _ => h, hvnd⟩

def SameMappings (s s' : DmState) : Prop :=
  (s'.devs 0).mapping = (s.devs 0).mapping ∧ (s'.devs 6).mapping = (s.devs 6).mapping

theorem OneSlot.congr (h : s'.devs = s.devs) : OneSlot s' ↔ OneSlot s := by
  simp only [OneSlot, SystemFits, VendorFits, h]

theorem VendorFits.congr_dev (h : s'.devs 6 = s.devs 6) (slot : Int) :
    VendorFits s' slot ↔ VendorFits s slot := by
  simp only [VendorFits, h]

/-- The outcomes of an attempt: nothing was mapped, only the system slice was mapped, as the given
mapping, or both slices were mapped. -/
inductive Attempt
  | refused
  | half (system : DmDevice)
  | full

/-- The root hashes that an attempt at a slot expects, unless its vbmeta record marks it as not
bootable. -/
def expectedRoots (p : OtaParams) (slot : Int) (u : UfsState) : Option (Digest × Digest) :=
  match validVbmeta (u.ufsReadBootVbmeta (bootLun slot)).1 with
  | none => some (defaultRoots p slot)
  | some vbm =>
    if vbm.flags &&& slotFlagUnbootable ≠ 0 ∨ vbm.flags &&& slotFlagBootable = 0 then none
    else some (vbm.systemRootHash, vbm.vendorRootHash)

/-- The outcome of mapping the two slices of a slot: the vendor slice is checked in the state that
the system slice was mapped in. -/
def slicesAttempt (p : OtaParams) (slot : Int) (roots : Digest × Digest) (s : DmState) : Attempt :=
  let sys := systemSlice slot roots.1
  if ¬ SliceVerifies p s sys then .refused
  else if SliceVerifies p (dmSetupVeritySlice p.disk p.verity s 0 sys).2 (vendorSlice slot roots.2)
  then .full
  else .half (sliceMapping sys (sbSalt (readSuperblock p.disk s sys).buf))

def attempt (p : OtaParams) (slot : Int) (m : Machine) : Attempt :=
  match expectedRoots p slot m.ufs with
  | none => .refused
  | some roots => slicesAttempt p slot roots m.dm

def Attempt.Leaves (slot : Int) (s s' : DmState) : Attempt → Prop
  | .refused => s'.devs = s.devs
  | .half system =>
    (s'.devs 0).mapping = system ∧ OnSystem (s'.devs 0) slot ∧ s'.devs 6 = s.devs 6
  | .full => OnSystem (s'.devs 0) slot ∧ OnVendor (s'.devs 6) slot

def Attempt.isFull : Attempt → Bool
  | .refused => false
  | .half _ => false
  | .full => true

def Attempt.isHalf : Attempt → Bool
  | .refused => false
  | .half _ => true
  | .full => false

theorem Attempt.eq_half (a : Attempt) (h : a.isHalf = true) : ∃ system, a = .half system := by
  cases a with
  | half system => exact ⟨system, rfl⟩
  | _ => cases h

section

variable (p : OtaParams)

theorem setupSlices_leaves (slot : Int) (roots : Digest × Digest) (s : DmState) :
    (setupSlices p slot roots s).1 = (slicesAttempt p slot roots s).isFull ∧
      (slicesAttempt p slot roots s).Leaves slot s (setupSlices p slot roots s).2 := by
  simp only [setupSlices, slicesAttempt]
  by_cases hsys : SliceVerifies p s (systemSlice slot roots.1)
  · obtain ⟨hzero, hmap, hothers⟩ := dmSetupVeritySlice_mapped (m := 0) hsys
    rw [if_neg (not_not.mpr hzero), if_neg (not_not.mpr hsys)]
    generalize (dmSetupVeritySlice p.disk p.verity s 0 (systemSlice slot roots.1)).2 = s₁ at *
    by_cases hvnd : SliceVerifies p s₁ (vendorSlice slot roots.2)
    · obtain ⟨hzero', hmap', hothers'⟩ := dmSetupVeritySlice_mapped (m := 6) hvnd
      rw [if_pos hvnd]
      refine ⟨by simp [hzero', Attempt.isFull], ?_, _, _, hmap'⟩
      rw [hothers' 0 (by decide)]
      exact ⟨_, _, hmap⟩
    · obtain ⟨hne, hdevs⟩ := dmSetupVeritySlice_refused (m := 6) hvnd
      rw [if_neg hvnd]
      refine ⟨by simp [hne, Attempt.isFull], ?_⟩
      simp only [Attempt.Leaves, hdevs]
      exact ⟨hmap, ⟨_, _, hmap⟩, hothers 6 (by decide)⟩
  · obtain ⟨hne, hdevs⟩ := dmSetupVeritySlice_refused (m := 0) hsys
    rw [if_pos hne, if_pos hsys]
    exact ⟨rfl, hdevs⟩

theorem trySlot_leaves (slot : Int) (m : Machine) :
    (trySlot p slot m).1 = (attempt p slot m).isFull ∧
      (attempt p slot m).Leaves slot m.dm (trySlot p slot m).2.dm := by
  simp only [trySlot, attempt, expectedRoots]
  cases validVbmeta (m.ufs.ufsReadBootVbmeta (bootLun slot)).1 with
  | none => exact setupSlices_leaves p slot _ m.dm
  | some vbm =>
    dsimp only
    split_ifs with hflags
    · exact ⟨rfl, rfl⟩
    · exact setupSlices_leaves p slot _ m.dm

def hasAbSuper : Bool := !(p.hddSectors < verityVendorBHashSector + 2048)

def singleSlice : SliceArgs :=
  { systemSlice 0 p.binRootHash with checkBlocks := 2 }

def seeded (m : Machine) : Machine := ⟨m.dm, dmSeedUfsVbmetaIfNeeded p m.ufs⟩

def rolledBack (m : Machine) : Machine :=
  ⟨(trySlot p 1 (seeded p m)).2.dm, rollbackToA (trySlot p 1 (seeded p m)).2.ufs⟩

def FallsBack (slot : Int) (m : Machine) : Prop :=
  p.hddOnline = true ∧ hasAbSuper p = true ∧ slot = 1 ∧ (trySlot p slot (seeded p m)).1 = false

end

/-- The mappings belong to one slot afterwards, and an error without a fallback leaves both
mappings as they were. -/
structure SwitchesAtomically (p : OtaParams) (slot : Int) (m : Machine) : Prop where
  oneSlot : OneSlot (dmActivateOtaSlot p slot m).2.dm
  kept : (dmActivateOtaSlot p slot m).1 ≠ 0 → ¬ FallsBack p slot m →
    SameMappings m.dm (dmActivateOtaSlot p slot m).2.dm

/-- What the slots and the mappings in force have to be for that.  When nothing is mapped, the
mappings in force belong to one slot.  When only a system slice is mapped, the vendor mapping in
force is of the same slot, and without a fallback the system slice was mapped before. -/
def SwitchSafe (p : OtaParams) (slot : Int) (m : Machine) : Prop :=
  if !p.hddOnline then OneSlot m.dm
  else if !hasAbSuper p then
    if slot = 0 ∧ SliceVerifies p m.dm (singleSlice p) then VendorFits m.dm 0 else OneSlot m.dm
  else if slot = 1 then
    match attempt p 1 (seeded p m), attempt p 0 (rolledBack p m) with
    | .full, _ => True
    | _, .full => True
    | _, .half _ => VendorFits m.dm 0
    | .half _, .refused => VendorFits m.dm 1
    | .refused, .refused => OneSlot m.dm
  else
    match attempt p slot (seeded p m) with
    | .full => True
    | .half system => OneSlot m.dm ∧ (m.dm.devs 0).mapping = system
    | .refused => OneSlot m.dm

theorem Attempt.Leaves.oneSlot (h : Attempt.full.Leaves slot s s') : OneSlot s' :=
  ⟨slot, fun _ => h.1, fun _ => h.2⟩

theorem Attempt.Leaves.oneSlot_iff
    (h : (Attempt.half system).Leaves slot s s') : OneSlot s' ↔ VendorFits s slot := by
  obtain ⟨-, hsys, hvnd⟩ := h
  rw [oneSlot_iff_vendorFits hsys, VendorFits.congr_dev hvnd]

theorem switchesAtomically_iff_of_devs (h : (dmActivateOtaSlot p slot m).2.dm.devs = m.dm.devs) :
    SwitchesAtomically p slot m ↔ OneSlot m.dm := by
  rw [← OneSlot.congr h]
  refine ⟨fun hs => hs.oneSlot, fun hone => ⟨hone, fun _ _ => ?_⟩⟩
  rw [SameMappings, h]
  exact ⟨rfl, rfl⟩

section

variable (hon : p.hddOnline = true)
include hon

section

variable (hab : hasAbSuper p = true)
include hab

theorem dmActivateOtaSlot_eq (hslot : slot ≠ 1) : dmActivateOtaSlot p slot m =
      if (trySlot p slot (seeded p m)).1 then (0, recordSlot slot (trySlot p slot (seeded p m)).2)
      else (-eio, (trySlot p slot (seeded p m)).2) := by
  have hlt : ¬ p.hddSectors < verityVendorBHashSector + 2048 := by simpa [hasAbSuper] using hab
  simp only [dmActivateOtaSlot, hon, Bool.not_true, Bool.false_eq_true, if_false, if_neg hlt,
    if_neg hslot]
  rfl

theorem dmActivateOtaSlot_b_eq :
    dmActivateOtaSlot p 1 m =
      if (trySlot p 1 (seeded p m)).1 then (0, recordSlot 1 (trySlot p 1 (seeded p m)).2)
      else (-eio, if (trySlot p 0 (rolledBack p m)).1 then
          recordSlot 0 (trySlot p 0 (rolledBack p m)).2 else (trySlot p 0 (rolledBack p m)).2) := by
  have hlt : ¬ p.hddSectors < verityVendorBHashSector + 2048 := by simpa [hasAbSuper] using hab
  simp only [dmActivateOtaSlot, hon, Bool.not_true, Bool.false_eq_true, if_false, if_neg hlt,
    if_true]
  rfl

theorem switchesAtomically_iff_of_ne
    (hslot : slot ≠ 1) : SwitchesAtomically p slot m ↔ SwitchSafe p slot m := by
  obtain ⟨hok, hleaves⟩ := trySlot_leaves p slot (seeded p m)
  have heq := dmActivateOtaSlot_eq (m := m) hon hab hslot
  have hback : ¬ FallsBack p slot m := fun h => hslot h.2.2.1
  have heio : -eio ≠ 0 := by decide
  simp only [SwitchSafe, hon, hab, Bool.not_true, Bool.false_eq_true, if_false, if_neg hslot]
  generalize attempt p slot (seeded p m) = att at *
  cases att with
  | full =>
    rw [hok, Attempt.isFull, if_pos rfl] at heq
    refine iff_of_true ⟨?_, fun hne => absurd (congrArg Prod.fst heq) hne⟩ trivial
    rw [heq]
    exact hleaves.oneSlot
  | half system =>
    rw [hok, Attempt.isFull, if_neg Bool.false_ne_true] at heq
    obtain ⟨hmap, hsys, hvnd⟩ := hleaves
    constructor
    · intro h
      have hkept := h.kept (by rw [heq]; exact heio) hback
      have hone := h.oneSlot
      rw [heq] at hkept hone
      have hold : (m.dm.devs 0).mapping = system := hkept.1.symm.trans hmap
      refine ⟨⟨slot, fun _ => ?_, ?_⟩, hold⟩
      · obtain ⟨root, salt, hs⟩ := hsys
        exact ⟨root, salt, hkept.1.symm.trans hs⟩
      · exact (VendorFits.congr_dev hvnd slot).mp ((oneSlot_iff_vendorFits hsys).mp hone)
    · rintro ⟨⟨i, hi, hv⟩, hold⟩
      have hsys' : OnSystem (m.dm.devs 0) slot := by
        obtain ⟨root, salt, hs⟩ := hsys
        exact ⟨root, salt, hold.trans (hmap.symm.trans hs)⟩
      refine ⟨?_, fun _ _ => ?_⟩
      · rw [heq, oneSlot_iff_vendorFits hsys, VendorFits.congr_dev hvnd]
        exact hv.congr ((hi hsys'.active).unique hsys')
      · rw [heq]
        exact ⟨hmap.trans hold.symm, congrArg mapping hvnd⟩
  | refused =>
    rw [hok, Attempt.isFull, if_neg Bool.false_ne_true] at heq
    apply switchesAtomically_iff_of_devs
    rw [heq]
    exact hleaves

theorem switchesAtomically_iff_b : SwitchesAtomically p 1 m ↔ SwitchSafe p 1 m := by
  obtain ⟨hok, hleaves⟩ := trySlot_leaves p 1 (seeded p m)
  obtain ⟨hok', hleaves'⟩ := trySlot_leaves p 0 (rolledBack p m)
  have heq := dmActivateOtaSlot_b_eq (m := m) hon hab
  -- without a full first attempt the code falls back, and only the first half of the property
  -- is left
  have hfell : (trySlot p 1 (seeded p m)).1 = false →
      (SwitchesAtomically p 1 m ↔ OneSlot (trySlot p 0 (rolledBack p m)).2.dm) := by
    intro hfail
    have hback : FallsBack p 1 m := ⟨hon, hab, rfl, hfail⟩
    have hdevs : (dmActivateOtaSlot p 1 m).2.dm.devs =
        (trySlot p 0 (rolledBack p m)).2.dm.devs := by
      rw [heq, hfail, if_neg Bool.false_ne_true]
      split_ifs <;> rfl
    rw [← OneSlot.congr hdevs]
    exact ⟨fun h => h.oneSlot, fun h => ⟨h, fun _ hnot => absurd hback hnot⟩⟩
  have hold : (rolledBack p m).dm = (trySlot p 1 (seeded p m)).2.dm := rfl
  simp only [SwitchSafe, hon, hab, Bool.not_true, Bool.false_eq_true, if_false, if_true]
  generalize attempt p 1 (seeded p m) = first at *
  generalize attempt p 0 (rolledBack p m) = second at *
  rw [hold] at hleaves'
  cases first with
  | full =>
    rw [hok, Attempt.isFull, if_pos rfl] at heq
    refine iff_of_true ⟨?_, fun hne => absurd (congrArg Prod.fst heq) hne⟩ trivial
    rw [heq]
    exact hleaves.oneSlot
  | half system =>
    have hvnd : (trySlot p 1 (seeded p m)).2.dm.devs 6 = m.dm.devs 6 := hleaves.2.2
    rw [hfell hok]
    cases second with
    | full => exact iff_of_true hleaves'.oneSlot trivial
    | half system' => rw [hleaves'.oneSlot_iff, VendorFits.congr_dev hvnd]
    | refused =>
      rw [OneSlot.congr hleaves']
      exact hleaves.oneSlot_iff
  | refused =>
    have hdevs : (trySlot p 1 (seeded p m)).2.dm.devs = m.dm.devs := hleaves
    rw [hfell hok]
    cases second with
    | full => exact iff_of_true hleaves'.oneSlot trivial
    | half system' => rw [hleaves'.oneSlot_iff, VendorFits.congr_dev (congrFun hdevs 6)]
    | refused => rw [OneSlot.congr hleaves', OneSlot.congr hdevs]

end

theorem switchesAtomically_iff_single (hab : hasAbSuper p = false) :
    SwitchesAtomically p slot m ↔ SwitchSafe p slot m := by
  have hlt : p.hddSectors < verityVendorBHashSector + 2048 := by simpa [hasAbSuper] using hab
  simp only [SwitchSafe, hon, hab, Bool.not_true, Bool.not_false, Bool.false_eq_true, if_false,
    if_true]
  by_cases hslot : slot = 0
  · have heq : dmActivateOtaSlot p slot m =
        ((dmSetupVeritySlice p.disk p.verity m.dm 0 (singleSlice p)).1,
          ⟨(dmSetupVeritySlice p.disk p.verity m.dm 0 (singleSlice p)).2, m.ufs⟩) := by
      simp only [dmActivateOtaSlot, hon, Bool.not_true, Bool.false_eq_true, if_false, if_pos hlt,
        if_neg (not_not.mpr hslot)]
      rfl
    by_cases hv : SliceVerifies p m.dm (singleSlice p)
    · obtain ⟨hzero, hmap, hothers⟩ := dmSetupVeritySlice_mapped (m := 0) hv
      have hsys : OnSystem ((dmActivateOtaSlot p slot m).2.dm.devs 0) 0 := by
        rw [heq]
        exact ⟨_, _, hmap⟩
      have hvnd : (dmActivateOtaSlot p slot m).2.dm.devs 6 = m.dm.devs 6 := by
        rw [heq]
        exact hothers 6 (by decide)
      rw [if_pos ⟨hslot, hv⟩, ← VendorFits.congr_dev hvnd, ← oneSlot_iff_vendorFits hsys]
      refine ⟨fun h => h.oneSlot, fun h => ⟨h, fun hne => absurd ?_ hne⟩⟩
      rw [heq]
      exact hzero
    · obtain ⟨-, hdevs⟩ := dmSetupVeritySlice_refused (m := 0) hv
      rw [if_neg fun h => hv h.2]
      exact switchesAtomically_iff_of_devs (by rw [heq]; exact hdevs)
  · rw [if_neg fun h => hslot h.1]
    apply switchesAtomically_iff_of_devs
    simp only [dmActivateOtaSlot, hon, Bool.not_true, Bool.false_eq_true, if_false, if_pos hlt,
      if_pos hslot]

end

/-- `dm_activate_ota_slot` leaves the system and vendor mappings on one slot, and both unchanged
when it returns an error without a fallback, exactly when the slots and the mappings in force are
as `SwitchSafe` says. -/
theorem dmActivateOtaSlot_atomic_iff (p : OtaParams) (slot : Int) (m : Machine) :
    SwitchesAtomically p slot m ↔ SwitchSafe p slot m := by
  cases hon : p.hddOnline with
  | false =>
    rw [SwitchSafe, hon, Bool.not_false, if_pos rfl]
    apply switchesAtomically_iff_of_devs
    rw [dmActivateOtaSlot, hon, Bool.not_false, if_pos rfl]
  | true =>
    cases hab : hasAbSuper p with
    | false => exact switchesAtomically_iff_single hon hab
    | true =>
      by_cases hslot : slot = 1
      · subst hslot
        exact switchesAtomically_iff_b hon hab
      · exact switchesAtomically_iff_of_ne hon hab hslot

/-- From slot b, an attempt at slot a that stops half way fails without a fallback and leaves the
two mappings on different slots. -/
theorem half_attempt_mixes (hon : p.hddOnline = true) (hab : hasAbSuper p = true)
    (hsys : OnSystem (m.dm.devs 0) 1) (hvnd : OnVendor (m.dm.devs 6) 1)
    (hactive : (m.dm.devs 6).active = true) (hhalf : (attempt p 0 (seeded p m)).isHalf = true) :
    (dmActivateOtaSlot p 0 m).1 = -eio ∧ ¬ FallsBack p 0 m ∧
      ¬ OneSlot (dmActivateOtaSlot p 0 m).2.dm ∧
      ¬ SameMappings m.dm (dmActivateOtaSlot p 0 m).2.dm := by
  obtain ⟨system, hatt⟩ := Attempt.eq_half _ hhalf
  obtain ⟨hok, hleaves⟩ := trySlot_leaves p 0 (seeded p m)
  have heq := dmActivateOtaSlot_eq (m := m) hon hab (show (0 : Int) ≠ 1 by decide)
  rw [hok, hatt, Attempt.isFull, if_neg Bool.false_ne_true] at heq
  rw [hatt] at hleaves
  obtain ⟨-, hsys', hvnd'⟩ := hleaves
  rw [heq]
  refine ⟨rfl, fun h => absurd h.2.2.1 (by decide), fun hone => ?_, fun hsame => ?_⟩
  · have hfits : VendorFits m.dm 0 :=
      (VendorFits.congr_dev hvnd' 0).mp ((oneSlot_iff_vendorFits hsys').mp hone)
    have hoff := (hfits hactive).offset_eq.symm.trans hvnd.offset_eq
    exact absurd hoff (by decide)
  · obtain ⟨root, salt, hmap⟩ := hsys'
    have hon' : OnSystem (m.dm.devs 0) 0 := ⟨root, salt, hsame.1.symm.trans hmap⟩
    exact absurd ((hon'.unique hsys).mp rfl) (by decide)

/-- A sector that holds the start of a valid superblock with a salt and a root hash of zeros. -/
def superblockSector : Sector := fun i =>
  if h : i.val < 8 then verityMagic ⟨i, h⟩ else if i.val = 8 then 1 else 0

/-- A disk of zeros with a superblock for every slice but the vendor slice of slot a. -/
def noVendorA : Backing where
  read _ _ sec :=
    ⟨0, if sec = verityBinHashStartSector ∨ sec = veritySystemBHashSector ∨
        sec = verityVendorBHashSector then superblockSector else fun _ => 0⟩
  write _ _ _ _ := 0

def noVendorAParams : OtaParams where
  verity := halvesParams
  disk := noVendorA
  hddOnline := true
  hddSectors := verityVendorBHashSector + 2048
  binRootHash := fun _ => 0
  vendorRootHash := fun _ => 0
  binBRootHash := fun _ => 0
  vendorBRootHash := fun _ => 0

def machineOnB : Machine where
  dm := (dmInit.setDev 0 (sliceMapping (systemSlice 1 fun _ => 0) fun _ => 0)).setDev 6
    (sliceMapping (vendorSlice 1 fun _ => 0) fun _ => 0)
  ufs :=
    { online := true
      base := 0
      img := UfsState.zeroImage
      pos := 0
      hdr := {}
      otaPollReady := false
      fwRev := fun _ => 0
      deviceVersion := 0
      ffuCount := 0
      fwSha256 := fun _ => 0
      stats := {}
      room := UfsState.zeroImage_room }

theorem machineOnB_onSystem : OnSystem (machineOnB.dm.devs 0) 1 := ⟨_, _, rfl⟩

theorem machineOnB_onVendor : OnVendor (machineOnB.dm.devs 6) 1 := ⟨_, _, rfl⟩

theorem attempt_a_isHalf :
    (attempt noVendorAParams 0 (seeded noVendorAParams machineOnB)).isHalf = true := by
  decide +kernel

/-- The vendor slice of slot a does not verify after its system slice was mapped: the call fails
without a fallback, with the system mapping of slot a beside the vendor mapping of slot b. -/
theorem activate_a_mixes_slots :
    OneSlot machineOnB.dm ∧ (dmActivateOtaSlot noVendorAParams 0 machineOnB).1 = -eio ∧
      ¬ FallsBack noVendorAParams 0 machineOnB ∧
      ¬ OneSlot (dmActivateOtaSlot noVendorAParams 0 machineOnB).2.dm ∧
      ¬ SameMappings machineOnB.dm (dmActivateOtaSlot noVendorAParams 0 machineOnB).2.dm :=
  ⟨⟨1, fun _ => machineOnB_onSystem, fun _ => machineOnB_onVendor⟩,
    half_attempt_mixes rfl (by decide) machineOnB_onSystem machineOnB_onVendor rfl attempt_a_isHalf⟩

end Six.Dm
