import Six.Dm.Table
import Six.Lib.Run

/-! What a reader of a verity target gets, over every sequence of table changes and requests.  The
device and the block number are the whole key of the cache in `dm_verity_data_buf`. -/

namespace Six.Dm

open Lib Errno List Option DmDevice

/-- The root hash that a table line gives: the bytes whose characters are not hexadecimal are
zero. -/
def DmTargetSpec.configuredRoot (t : DmTargetSpec) : Digest := parseRootHash (fun _ => 0) t.rootHash

/-- `data` is block `blkNr` of the line `t` of `dev`, verified against the root hash of the
line. -/
def LineVerified (disk : Backing) (p : VerityParams) (dev : DmDevice) (t : DmTargetSpec)
    (blkNr : UInt32) (data : Block) : Prop :=
  Verified disk p dev.veritySalt t.configuredRoot t.bdev t.offsetSector t.hashStartSector blkNr data

/-- Every read of sector `sec` of device `m` that `dm_process_sector` reports as successful and
that falls in a verity line returns one half of a verified block with the requested number. -/
def ServesVerified (disk : Backing) (p : VerityParams) (s : DmState) (m : Fin 8) (sec : UInt32)
    (buf : Sector) : Prop :=
  ∀ i t, (s.devs m).findTarget sec = some (i, t) → t.type = .verity →
    (dmProcessSector disk p s m sec buf .read).err = 0 →
    ∃ data, LineVerified disk p (s.devs m) t (blkNrOf (sec - t.startSector)) data ∧
      (dmProcessSector disk p s m sec buf .read).buf = data.half (secondHalf (sec - t.startSector))

inductive DmOp
  | create (req : DmIoctlReq)
  | remove (req : DmIoctlReq) (inodeMinor : Int)
  | setupVeritySlice (minor : Fin 8) (args : SliceArgs)
  | sector (minor : Fin 8) (sec : UInt32) (buf : Sector) (cmd : Cmd)
  | notifyBdevWrite
  | open (minor : Fin 8)
  | release (minor : Fin 8)

variable (s : DmState)

/-- `dm_notify_bdev_write`, as far as it concerns the driver: the note of the last block is
dropped. -/
def dmNotifyBdevWrite : DmState :=
  { s with lastVerityDev := none, lastVerityBlk := 0xffffffff }

def dmOpen (m : Fin 8) : DmState :=
  if (s.devs m).active then s.setDev m { s.devs m with openCount := (s.devs m).openCount + 1 }
  else s

def dmRelease (m : Fin 8) : DmState :=
  s.setDev m { s.devs m with openCount := (s.devs m).openCount - 1 }

def dmStep (disk : Backing) (p : VerityParams) (binSalt : Digest) (s : DmState) :
    DmOp → Option DmState
  | .create req => some (dmIocCreate disk binSalt s req).2
  | .remove req inodeMinor => some (dmIocRemove s req inodeMinor).2
  | .setupVeritySlice minor args => some (dmSetupVeritySlice disk p s minor args).2
  | .sector m sec buf cmd => some (dmProcessSector disk p s m sec buf cmd).state
  | .notifyBdevWrite => some (dmNotifyBdevWrite s)
  | .open m => some (dmOpen s m)
  | .release m => some (dmRelease s m)

def OneRoot (table : List DmTargetSpec) : Prop :=
  ∀ t ∈ table, ∀ t' ∈ table, t.type = .verity → t'.type = .verity →
    t.configuredRoot = t'.configuredRoot

/-- What the cache and the table need of an operation.  While a block is noted, no superblock is
read into the buffer and the device of the note is not removed; the verity lines of one device
share a root hash; a block that is read has a slot in the level-2 block, and the fast path is
taken only on a device with a single verity line. -/
def RespectsCache : DmOp → Prop
  | .create req => ∀ m, dmCreateMinor s req = .ok m → (∃ t ∈ req.table, t.type = .verity) →
      s.lastVerityDev = none ∧ OneRoot req.table
  | .remove req inodeMinor =>
    s.lastVerityDev = none ∨ dmResolveMinor s req inodeMinor ≠ s.lastVerityDev
  | .setupVeritySlice _ _ => s.lastVerityDev = none
  | .sector m sec _ .read => ∀ i t, (s.devs m).findTarget sec = some (i, t) → t.type = .verity →
      (blkNrOf (sec - t.startSector)).toNat < 32768 ∧
      (s.fastPath m (sec - t.startSector) = true →
        ∀ t' ∈ (s.devs m).targets, t'.type = .verity → t' = t)
  | _ => True

/-- A device that is not active has no table, and its root hash is that of each of its verity
lines. -/
structure DmDevice.Rooted (dev : DmDevice) : Prop where
  inactive : dev.active = false → dev.targets = []
  root : ∀ t ∈ dev.targets, t.type = .verity → dev.verityRootHash = t.configuredRoot

/-- When a block is noted, the buffer holds that block of a verity line of the noted device,
verified. -/
structure CacheInv (disk : Backing) (p : VerityParams) (s : DmState) : Prop where
  rooted : ∀ m, (s.devs m).Rooted
  noted : ∀ m, s.lastVerityDev = some m → ∃ t ∈ (s.devs m).targets, t.type = .verity ∧
    LineVerified disk p (s.devs m) t s.lastVerityBlk s.dataBuf

section

variable {disk : Backing} {p : VerityParams} {binSalt : Digest} {s : DmState} {t : DmTargetSpec}
  {dev : DmDevice} {m : Fin 8} {i : Nat} {sec : UInt32} {l : Loading} {table : List DmTargetSpec}
  {buf : Sector}

theorem CacheInv.forget (h : ∀ m, (s.devs m).Rooted) (hnone : s.lastVerityDev = none) :
    CacheInv disk p s where
  rooted := h
  noted m hm := by simp [hnone] at hm

theorem dmInit_inv : CacheInv disk p dmInit :=
  .forget (fun _ => ⟨fun _ => rfl, fun _ h => absurd h (by simp [dmInit])⟩) rfl

theorem setDev_devs_ne (h : m' ≠ m) : (s.setDev m dev).devs m' = s.devs m' := by
  simp [DmState.setDev, h]

theorem setDev_devs_same (s : DmState) (m : Fin 8) (dev : DmDevice) :
    (s.setDev m dev).devs m = dev := by
  simp [DmState.setDev]

theorem rooted_setDev (h : ∀ m, (s.devs m).Rooted) (hdev : dev.Rooted) (m' : Fin 8) :
    ((s.setDev m dev).devs m').Rooted := by
  by_cases hm : m' = m
  · subst hm
    rw [setDev_devs_same]
    exact hdev
  · rw [setDev_devs_ne hm]
    exact h m'

theorem dmCreateMinor_inactive (h : dmCreateMinor s req = .ok m) : (s.devs m).active = false := by
  simp only [dmCreateMinor] at h
  split at h
  · cases h
  · split at h
    · cases h
    · split at h
      · cases h
      · split at h
        · cases h
        · rename_i hact
          obtain rfl := Except.ok.inj h
          simpa using hact

theorem loadTarget_foldl_dataBuf (h : ∀ t ∈ table, t.type ≠ .verity) :
    (table.foldl (loadTarget disk binSalt) l).dataBuf = l.dataBuf := by
  induction table generalizing l with
  | nil => rfl
  | cons t ts ih =>
    rw [forall_mem_cons] at h
    rw [foldl_cons, ih h.2, loadTarget]
    simp [h.1]

/-- A device under construction whose verity lines all give the root hash `r`: its own root hash
is `r` once there is such a line, and until then it is `r` or zero. -/
structure DmDevice.RootedAt (r : Digest) (dev : DmDevice) : Prop where
  lines : ∀ t ∈ dev.targets, t.type = .verity → t.configuredRoot = r ∧ dev.verityRootHash = r
  root : dev.verityRootHash = r ∨ dev.verityRootHash = fun _ => 0

theorem parseRootHash_parseRootHash (old : Digest) (text : Fin 64 → UInt8) :
    parseRootHash (parseRootHash old text) text = parseRootHash old text := by
  funext j
  simp only [parseRootHash]
  cases hexNibble (text ⟨j * 2, by omega⟩) with
  | none => rfl
  | some hi => cases hexNibble (text ⟨j * 2 + 1, by omega⟩) <;> rfl

theorem loadTarget_rootedAt (h : l.dev.RootedAt r) (ht : t.type = .verity → t.configuredRoot = r) :
    (loadTarget disk binSalt l t).dev.RootedAt r := by
  by_cases hv : t.type = .verity
  · have hroot : parseRootHash l.dev.verityRootHash t.rootHash = r := by
      rcases h.root with hr | hz
      · rw [hr, ← ht hv]
        exact parseRootHash_parseRootHash _ _
      · rw [hz]
        exact ht hv
    have hdev : (loadTarget disk binSalt l t).dev.verityRootHash = r := by
      simpa [loadTarget, hv, addTarget] using hroot
    refine ⟨fun t' hmem hv' => ⟨?_, hdev⟩, .inl hdev⟩
    have hmem : t' ∈ l.dev.targets ∨ t' = t := by
      simpa [loadTarget, hv, addTarget] using hmem
    rcases hmem with hold | rfl
    · exact (h.lines t' hold hv').1
    · exact ht hv
  · refine ⟨fun t' hmem hv' => ?_, by simpa [loadTarget, hv, addTarget] using h.root⟩
    have hmem : t' ∈ l.dev.targets ∨ t' = t := by
      simpa [loadTarget, hv, addTarget] using hmem
    rcases hmem with hold | rfl
    · simpa [loadTarget, hv, addTarget] using h.lines t' hold hv'
    · exact absurd hv' hv

theorem loadTarget_foldl_rootedAt (h : l.dev.RootedAt r)
    (hall : ∀ t ∈ table, t.type = .verity → t.configuredRoot = r) :
    (table.foldl (loadTarget disk binSalt) l).dev.RootedAt r := by
  induction table generalizing l with
  | nil => exact h
  | cons t ts ih =>
    rw [forall_mem_cons] at hall
    exact ih (loadTarget_rootedAt h hall.1) hall.2

theorem dmIocCreate_cases (disk : Backing) (binSalt : Digest) (s : DmState) (req : DmIoctlReq) :
    (dmIocCreate disk binSalt s req).2 = s ∨
    ∃ m dev buf time, dmCreateMinor s req = .ok m ∧ (OneRoot req.table → dev.Rooted) ∧
      ((∀ t ∈ req.table, t.type ≠ .verity) → buf = s.dataBuf) ∧ (dmIocCreate disk binSalt s req).2 =
        { s.setDev m dev with dataBuf := buf, time := time } := by
  unfold dmIocCreate
  cases hm : dmCreateMinor s req with
  | error e => exact .inl rfl
  | ok m =>
    refine .inr ⟨m, _, _, _, rfl, fun hone => ?_, fun hnov => loadTarget_foldl_dataBuf hnov, rfl⟩
    have hr : ∃ r, ∀ t ∈ req.table, t.type = .verity → t.configuredRoot = r := by
      by_cases hv : ∃ t ∈ req.table, t.type = .verity
      · obtain ⟨t₀, h₀, hv₀⟩ := hv
        exact ⟨t₀.configuredRoot, fun t ht hv => hone t ht t₀ h₀ hv hv₀⟩
      · exact ⟨fun _ => 0, fun t ht hv' => absurd ⟨t, ht, hv'⟩ hv⟩
    obtain ⟨r, hr⟩ := hr
    have hfresh : ({ name := req.nameStr, ro := req.ro } : DmDevice).RootedAt r :=
      ⟨fun t ht => absurd ht (by simp), .inr rfl⟩
    refine ⟨fun h => absurd h (by simp), fun t ht hv => ?_⟩
    obtain ⟨hline, hroot⟩ := (loadTarget_foldl_rootedAt hfresh hr).lines t ht hv
    exact hroot.trans hline.symm

theorem create_inv (inv : CacheInv disk p s) (req : DmIoctlReq)
    (hg : RespectsCache s (.create req)) : CacheInv disk p (dmIocCreate disk binSalt s req).2 := by
  rcases dmIocCreate_cases disk binSalt s req with hsame | ⟨m, dev, buf, time, hm, hdev, hbuf, heq⟩
  · rw [hsame]
    exact inv
  · rw [heq]
    by_cases hv : ∃ t ∈ req.table, t.type = .verity
    · obtain ⟨hnone, hone⟩ := hg m hm hv
      exact .forget (rooted_setDev inv.rooted (hdev hone)) hnone
    · have hnov : ∀ t ∈ req.table, t.type ≠ .verity := fun t ht h => hv ⟨t, ht, h⟩
      obtain rfl := hbuf hnov
      have hone : OneRoot req.table := fun t ht _ _ h => absurd h (hnov t ht)
      refine ⟨rooted_setDev inv.rooted (hdev hone), fun m' hm' => ?_⟩
      obtain ⟨t, ht, hline⟩ := inv.noted m' hm'
      have hne : m' ≠ m := by
        rintro rfl
        rw [(inv.rooted m').inactive (dmCreateMinor_inactive hm)] at ht
        simp at ht
      show ∃ t ∈ ((s.setDev m dev).devs m').targets, t.type = .verity ∧
        LineVerified disk p ((s.setDev m dev).devs m') t s.lastVerityBlk s.dataBuf
      rw [setDev_devs_ne hne]
      exact ⟨t, ht, hline⟩

theorem dmIocRemove_cases (s : DmState) (req : DmIoctlReq) (im : Int) :
    (dmIocRemove s req im).2 = s ∨
    ∃ m, dmResolveMinor s req im = some m ∧ (dmIocRemove s req im).2 = s.setDev m {} := by
  unfold dmIocRemove
  split
  · exact .inl rfl
  · rename_i m hm
    dsimp only
    split_ifs
    · exact .inl rfl
    · exact .inl rfl
    · exact .inr ⟨m, hm, rfl⟩

theorem remove_inv (inv : CacheInv disk p s) (req : DmIoctlReq) (im : Int)
    (hg : RespectsCache s (.remove req im)) : CacheInv disk p (dmIocRemove s req im).2 := by
  rcases dmIocRemove_cases s req im with hsame | ⟨m, hm, hclear⟩
  · rw [hsame]
    exact inv
  · rw [hclear]
    have hempty : ({} : DmDevice).Rooted := ⟨fun _ => rfl, fun _ h => absurd h (by simp)⟩
    refine ⟨rooted_setDev inv.rooted hempty, fun m' (hm' : s.lastVerityDev = some m') => ?_⟩
    have hne : m' ≠ m := by
      rintro rfl
      rcases hg with hnone | hother
      · simp [hnone] at hm'
      · exact hother (hm.trans hm'.symm)
    rw [setDev_devs_ne hne]
    exact inv.noted m' hm'

theorem count_eq (t : DmTargetSpec) (v : VerifyResult) :
    ∃ a b, t.count v = { t with verifiedBlocks := a, corruptBlocks := b } := by
  unfold DmTargetSpec.count
  split_ifs
  · exact ⟨_, _, rfl⟩
  · exact ⟨_, _, rfl⟩
  · exact ⟨_, _, rfl⟩

theorem checkBlock_foldl_rootHash {salt root : Digest} {blks : List Nat} {c : Checking} :
    (blks.foldl (checkBlock disk p salt root) c).target.rootHash = c.target.rootHash := by
  induction blks generalizing c with
  | nil => rfl
  | cons blk blks ih =>
    rw [foldl_cons, ih]
    unfold checkBlock
    dsimp only
    split_ifs
    · rfl
    · rfl
    · obtain ⟨a, b, hcount⟩ := count_eq c.target _
      rw [hcount]

theorem setupVeritySlice_inv (inv : CacheInv disk p s) (m : Fin 8) (a : SliceArgs)
    (hnone : s.lastVerityDev = none) : CacheInv disk p (dmSetupVeritySlice disk p s m a).2 := by
  unfold dmSetupVeritySlice
  dsimp only
  -- the four ways to fail leave the devices and the note alone
  iterate 4
    split
    · exact .forget inv.rooted hnone
  refine .forget (rooted_setDev inv.rooted ⟨fun h => absurd h (by simp), fun t ht _ => ?_⟩) hnone
  obtain rfl := mem_singleton.mp ht
  rw [DmTargetSpec.configuredRoot, checkBlock_foldl_rootHash]
  exact (parseRootHash_dmBytesToHex _ _).symm

theorem openCount_inv (inv : CacheInv disk p s) (m : Fin 8) (n : Nat) :
    CacheInv disk p (s.setDev m { s.devs m with openCount := n }) := by
  refine ⟨rooted_setDev inv.rooted ⟨(inv.rooted m).inactive, (inv.rooted m).root⟩, ?_⟩
  intro m' hm'
  obtain ⟨t, ht, hline⟩ := inv.noted m' hm'
  by_cases hm : m' = m
  · subst hm
    rw [setDev_devs_same]
    exact ⟨t, ht, hline⟩
  · rw [setDev_devs_ne hm]
    exact ⟨t, ht, hline⟩

theorem findTarget_getElem (h : dev.findTarget sec = some (i, t)) : dev.targets[i]? = some t := by
  unfold findTarget at h
  split at h
  · simp at h
  · obtain ⟨t', ht, heq⟩ := map_eq_some_iff.mp h
    obtain ⟨rfl, rfl⟩ := Prod.mk.inj heq
    exact ht

theorem dmProcessSector_other (s : DmState) (m : Fin 8) (sec : UInt32) (buf : Sector) (cmd : Cmd)
    (h : ∀ i t, (s.devs m).findTarget sec = some (i, t) → t.type = .verity → cmd = .write) :
    ∃ time, (dmProcessSector disk p s m sec buf cmd).state = { s with time := time } := by
  cases hf : (s.devs m).findTarget sec with
  | none => exact ⟨s.time, by simp only [dmProcessSector, hf]⟩
  | some it =>
    obtain ⟨i, t⟩ := it
    cases ht : t.type <;> cases cmd <;> simp only [dmProcessSector, hf, ht, dmRwPhysSector]
    case verity.read => exact absurd (h i t hf ht) (by decide)
    case crypt.read => exact ⟨s.time + 1, (apply_ite Processed.state _ _ _).trans (ite_self _)⟩
    all_goals exact ⟨_, rfl⟩

theorem dmProcessSector_verity (hf : (s.devs m).findTarget sec = some (i, t))
    (ht : t.type = .verity) : dmProcessSector disk p s m sec buf .read =
      dmReadVerity disk p s m i t (sec - t.startSector) buf := by
  simp only [dmProcessSector, hf, ht]

def DmDevice.counted (dev : DmDevice) (i : Nat) (t : DmTargetSpec) (v : VerifyResult) : DmDevice :=
  { dev with targets := dev.targets.set i (t.count v) }

theorem dmReadVerity_cases (s : DmState) (m : Fin 8) (i : Nat) (t : DmTargetSpec) (relSec : UInt32)
    (buf : Sector) (hblk : (blkNrOf relSec).toNat < 32768) :
    (s.fastPath m relSec = true ∧ dmReadVerity disk p s m i t relSec buf =
      ⟨0, s.dataBuf.half true, { s with lastVerityDev := none }⟩) ∨
    ((dmReadVerity disk p s m i t relSec buf).err ≠ 0 ∧
      (dmReadVerity disk p s m i t relSec buf).state.lastVerityDev = none ∧
      ((dmReadVerity disk p s m i t relSec buf).state.devs = s.devs ∨
        ∃ v, (dmReadVerity disk p s m i t relSec buf).state.devs =
          (s.setDev m ((s.devs m).counted i t v)).devs)) ∨
    ∃ data hashBuf time v, Verified disk p (s.devs m).veritySalt (s.devs m).verityRootHash t.bdev
        t.offsetSector t.hashStartSector (blkNrOf relSec) data ∧
      dmReadVerity disk p s m i t relSec buf = ⟨0, data.half (secondHalf relSec),
        { s.setDev m ((s.devs m).counted i t v) with
          dataBuf := data
          hashBuf := hashBuf
          time := time
          lastVerityDev := if secondHalf relSec then none else some m
          lastVerityBlk := if secondHalf relSec then s.lastVerityBlk else blkNrOf relSec }⟩ := by
  generalize hr : dmReadVerity disk p s m i t relSec buf = r
  simp only [dmReadVerity] at hr
  split at hr
  · exact .inl ⟨by assumption, hr.symm⟩
  · split at hr
    · subst hr
      exact .inr (.inl ⟨by assumption, rfl, .inl rfl⟩)
    · rename_i hread
      split at hr
      · subst hr
        exact .inr (.inl ⟨by assumption, rfl, .inr ⟨_, rfl⟩⟩)
      · rename_i hverify
        have hchain := dmVerifyVerityBlock_chain (l2Off_le_iff.mpr hblk) (not_not.mp hverify)
        subst hr
        cases secondHalf relSec
        all_goals
          exact .inr (.inr ⟨_, _, _, _, ⟨dmReadPhys1k_readBack (not_not.mp hread), hchain⟩, rfl⟩)

theorem counted_lines (ht : t ∈ dev.targets) (h : t' ∈ (dev.counted i t v).targets) :
    ∃ u ∈ dev.targets, ∃ a b, t' = { u with verifiedBlocks := a, corruptBlocks := b } := by
  rcases mem_or_eq_of_mem_set h with hold | rfl
  · exact ⟨t', hold, _, _, rfl⟩
  · exact ⟨t, ht, count_eq t v⟩

theorem counted_rooted (h : dev.Rooted) (ht : t ∈ dev.targets) (v : VerifyResult) :
    (dev.counted i t v).Rooted := by
  refine ⟨fun hact => ?_, fun t' ht' hv => ?_⟩
  · rw [h.inactive hact] at ht
    simp at ht
  · obtain ⟨u, hu, a, b, rfl⟩ := counted_lines ht ht'
    exact h.root u hu hv

theorem dmReadVerity_inv (inv : CacheInv disk p s) (ht : (s.devs m).targets[i]? = some t)
    (hv : t.type = .verity) (hblk : (blkNrOf relSec).toNat < 32768) (buf : Sector) :
    CacheInv disk p (dmReadVerity disk p s m i t relSec buf).state := by
  have hmem : t ∈ (s.devs m).targets := mem_of_getElem? ht
  have hcounted : ∀ v m', ((s.setDev m ((s.devs m).counted i t v)).devs m').Rooted := fun v =>
    rooted_setDev inv.rooted (counted_rooted (inv.rooted m) hmem v)
  rcases dmReadVerity_cases s m i t relSec buf hblk with
    ⟨-, heq⟩ | ⟨-, hnone, hdevs⟩ | ⟨data, hashBuf, time, v, hdata, heq⟩
  · rw [heq]
    exact .forget inv.rooted rfl
  · refine .forget (fun m' => ?_) hnone
    rcases hdevs with hsame | ⟨v, hset⟩
    · rw [hsame]
      exact inv.rooted m'
    · rw [hset]
      exact hcounted v m'
  · rw [heq]
    by_cases hsecond : secondHalf relSec = true
    · exact .forget (hcounted v) (by simp [hsecond])
    · refine ⟨hcounted v, fun m' hm' => ?_⟩
      simp only [hsecond, Bool.false_eq_true, if_false, some.injEq] at hm' ⊢
      subst hm'
      -- the line that was read is in the table with its counters advanced
      obtain ⟨a, b, hcount⟩ := count_eq t v
      have hlt : i < (s.devs m).targets.length := (List.getElem?_eq_some_iff.mp ht).1
      refine ⟨t.count v, ?_, by rw [hcount]; exact hv, ?_⟩
      · rw [setDev_devs_same]
        exact mem_set hlt _
      · rw [setDev_devs_same, LineVerified, hcount]
        exact (inv.rooted m).root t hmem hv ▸ hdata

theorem sector_inv (inv : CacheInv disk p s) (m : Fin 8) (sec : UInt32) (buf : Sector) (cmd : Cmd)
    (hg : RespectsCache s (.sector m sec buf cmd)) :
    CacheInv disk p (dmProcessSector disk p s m sec buf cmd).state := by
  by_cases h : ∀ i t, (s.devs m).findTarget sec = some (i, t) → t.type = .verity → cmd = .write
  · obtain ⟨time, heq⟩ := dmProcessSector_other s m sec buf cmd h
    rw [heq]
    exact ⟨inv.rooted, inv.noted⟩
  · push Not at h
    obtain ⟨i, t, hf, ht, hcmd⟩ := h
    cases cmd with
    | write => exact absurd rfl hcmd
    | read =>
      rw [dmProcessSector_verity hf ht]
      exact dmReadVerity_inv inv (findTarget_getElem hf) ht (hg i t hf ht).1 buf

theorem dmStep_inv (a : DmState) (op : DmOp) (b : DmState) (inv : CacheInv disk p a)
    (hg : RespectsCache a op) (hs : dmStep disk p binSalt a op = some b) : CacheInv disk p b := by
  cases op with
  | create req => exact some.inj hs ▸ create_inv inv req hg
  | remove req im => exact some.inj hs ▸ remove_inv inv req im hg
  | setupVeritySlice m args => exact some.inj hs ▸ setupVeritySlice_inv inv m args hg
  | sector m sec buf cmd => exact some.inj hs ▸ sector_inv inv m sec buf cmd hg
  | notifyBdevWrite => exact some.inj hs ▸ .forget inv.rooted rfl
  | release m => exact some.inj hs ▸ openCount_inv inv m _
  | «open» m =>
    obtain rfl := some.inj hs
    unfold dmOpen
    split
    · exact openCount_inv inv m _
    · exact inv

theorem CacheInv.serves (inv : CacheInv disk p s) (hg : RespectsCache s (.sector m sec buf .read)) :
    ServesVerified disk p s m sec buf := by
  intro i t hf ht hok
  obtain ⟨hblk, honly⟩ := hg i t hf ht
  have hmem : t ∈ (s.devs m).targets := mem_of_getElem? (findTarget_getElem hf)
  rw [dmProcessSector_verity hf ht] at hok ⊢
  rcases dmReadVerity_cases s m i t (sec - t.startSector) buf hblk with
    ⟨hfast, heq⟩ | ⟨herr, -⟩ | ⟨data, hashBuf, time, v, hdata, heq⟩
  · have hkey := hfast
    simp only [DmState.fastPath, Bool.and_eq_true, beq_iff_eq] at hkey
    obtain ⟨hsecond, hdev, hblkNr⟩ := hkey
    obtain ⟨t', ht', hv', hline⟩ := inv.noted m hdev
    obtain rfl := honly hfast t' ht' hv'
    rw [heq, hsecond, ← hblkNr]
    exact ⟨s.dataBuf, hline, rfl⟩
  · exact absurd hok herr
  · rw [heq]
    rw [(inv.rooted m).root t hmem ht] at hdata
    exact ⟨data, hdata, rfl⟩

end

/-- A disk of zeros, except for sector 500 of device 1 and the sector after it. -/
def staleDisk : Backing where
  read _ bdev sec := ⟨0, fun _ => if bdev = 1 ∧ (sec = 500 ∨ sec = 501) then 0xff else 0⟩
  write _ _ _ _ := 0

def nonzeroOf (x y : UInt8) : UInt8 := if x = 0 then y else x

theorem nonzeroOf_ne_zero (h : x ≠ 0 ∨ y ≠ 0) : nonzeroOf x y ≠ 0 := by
  unfold nonzeroOf
  split
  · rcases h with hx | hy
    · contradiction
    · exact hy
  · assumption

/-- A digest whose bytes are zero only when the bytes of both halves of the block are. -/
def halvesParams : VerityParams where
  sha256Salted1k _ b := fun i => nonzeroOf (b ⟨i, by omega⟩) (b ⟨512 + i, by omega⟩)
  pastHashBuf _ := 0

/-- A verity line on `bdev` that starts in sector 1, with a root hash of zeros. -/
def zeroRootLine (bdev : UInt16) : DmTargetSpec where
  startSector := 1
  numSectors := 5
  type := .verity
  bdev := bdev
  hashStartSector := 500
  rootHash := fun _ => 0x30

/-- A request to create a device, named by one character, with a line of zeros before the verity
line on `bdev`. -/
def zeroRootReq (name : UInt8) (bdev : UInt16) : DmIoctlReq where
  minor := -1
  name := [name]
  numTargets := 2
  targets := [{ startSector := 0, numSectors := 1, type := .zero }, zeroRootLine bdev]

/-- Device 0 is created and its first kilobyte is read, which ends with the first half of block 0
of its verity line; then device 1 is created. -/
def staleOps : List DmOp :=
  [.create (zeroRootReq 0x61 0), .sector 0 0 (fun _ => 0) .read, .sector 0 1 (fun _ => 0) .read,
    .create (zeroRootReq 0x62 1)]

def staleState : DmState :=
  (run (dmStep staleDisk halvesParams fun _ => 0) dmInit staleOps).getD dmInit

theorem staleState_reached :
    Reaches (dmStep staleDisk halvesParams fun _ => 0) (fun _ _ => True) dmInit staleState :=
  reaches_of_run staleOps rfl

theorem staleState_fastPath : staleState.fastPath 0 1 = true := by
  decide

theorem staleState_dataBuf : staleState.dataBuf.half true 0 = 0xff := by
  decide

theorem staleState_findTarget : ((staleState.devs 0).findTarget 2).map
    (fun it => (it.2.type, it.2.startSector, it.2.rootHash)) =
      some (.verity, 1, fun _ => 0x30) := by
  decide

theorem halvesParams_ne_zero {salt d : Digest} {b : Block} {off : Nat} (hoff : off = 0)
    (h : b.slot? off = some d) (hd : d 0 ≠ 0) : halvesParams.sha256Salted1k salt b 0 ≠ 0 := by
  subst hoff
  obtain rfl := some.inj h
  exact nonzeroOf_ne_zero (.inl hd)

/-- The second half of block 0 of device 0 is read as the superblock of device 1: a read of it has
no hash chain under the root hash of device 0. -/
theorem stale_superblock_served : ¬ ∀ (disk : Backing) (p : VerityParams) (binSalt : Digest)
    (s : DmState), Reaches (dmStep disk p binSalt) (fun _ _ => True) dmInit s →
    ∀ m sec buf, ServesVerified disk p s m sec buf := by
  intro h
  obtain ⟨⟨i, t⟩, hf, heq⟩ := map_eq_some_iff.mp staleState_findTarget
  obtain ⟨ht, hstart, hroot⟩ :
      t.type = .verity ∧ t.startSector = 1 ∧ t.rootHash = fun _ => 0x30 := by
    simpa using heq
  have hread : dmProcessSector staleDisk halvesParams staleState 0 2 (fun _ => 0) .read =
      ⟨0, staleState.dataBuf.half true, { staleState with lastVerityDev := none }⟩ := by
    rw [dmProcessSector_verity hf ht, hstart]
    show dmReadVerity _ _ _ _ _ _ 1 _ = _
    rw [dmReadVerity, if_pos staleState_fastPath]
  obtain ⟨data, ⟨-, l0, l1, l2, -, -, -, chain⟩, hdata⟩ :=
    h _ _ _ _ staleState_reached 0 2 (fun _ => 0) i t hf ht (by rw [hread])
  rw [hread, hstart, show secondHalf (2 - 1) = true by decide] at hdata
  rw [hstart] at chain
  have hsecond : data.half true 0 = 0xff := by
    rw [← staleState_dataBuf]
    dsimp only at hdata
    rw [hdata]
  have h0 : halvesParams.sha256Salted1k (staleState.devs 0).veritySalt data 0 ≠ 0 := by
    refine nonzeroOf_ne_zero (.inr ?_)
    show data.half true 0 ≠ 0
    rw [hsecond]
    decide
  have h2 : halvesParams.sha256Salted1k (staleState.devs 0).veritySalt l2 0 ≠ 0 :=
    halvesParams_ne_zero (by decide) chain.level2 <|
    halvesParams_ne_zero (by decide) chain.level1 <|
    halvesParams_ne_zero (by decide) chain.level0 h0
  have hzero : t.configuredRoot 0 = 0 := by
    rw [DmTargetSpec.configuredRoot, hroot]
    decide
  exact h2 (congrFun chain.top 0 ▸ hzero)

/-- In every run whose operations respect the cache, a read that respects the cache returns the
matching half of a block that was verified for the line it falls in. -/
theorem verity_reads_verified {disk : Backing} {p : VerityParams} {binSalt : Digest} {s : DmState}
    (h : Reaches (dmStep disk p binSalt) RespectsCache dmInit s) {m : Fin 8} {sec : UInt32}
    {buf : Sector} (hg : RespectsCache s (.sector m sec buf .read)) :
    ServesVerified disk p s m sec buf :=
  (h.invariant dmInit_inv dmStep_inv).serves hg

def notedState : DmState :=
  (run (dmStep staleDisk halvesParams fun _ => 0) dmInit (staleOps.take 3)).getD dmInit

theorem notedState_reached :
    Reaches (dmStep staleDisk halvesParams fun _ => 0) RespectsCache dmInit notedState := by
  have hcreate : RespectsCache dmInit (.create (zeroRootReq 0x61 0)) := fun _ _ _ =>
    ⟨rfl, by simp [OneRoot, zeroRootReq, DmIoctlReq.table]⟩
  have hsector : ∀ s : DmState, s.lastVerityDev = none → ∀ m sec buf,
      (∀ it ∈ (s.devs m).findTarget sec, (blkNrOf (sec - it.2.startSector)).toNat < 32768) →
      RespectsCache s (.sector m sec buf .read) := by
    intro s hnone m sec buf hblk i t hf _
    exact ⟨hblk (i, t) hf, fun hfast => by simp [DmState.fastPath, hnone] at hfast⟩
  refine .tail (.tail (.tail .refl hcreate rfl) (hsector _ ?_ _ _ _ ?_) rfl)
    (hsector _ ?_ _ _ _ ?_) rfl
  all_goals decide

/-- The second half of a noted block is served from the buffer, verified. -/
theorem noted_half_verified :
    (dmProcessSector staleDisk halvesParams notedState 0 2 (fun _ => 0) .read).err = 0 ∧
    notedState.fastPath 0 1 = true ∧
    ServesVerified staleDisk halvesParams notedState 0 2 fun _ => 0 := by
  refine ⟨by decide, by decide, verity_reads_verified notedState_reached ?_⟩
  intro i t hf _
  have hguard : ∀ it ∈ (notedState.devs 0).findTarget 2,
      (blkNrOf (2 - it.2.startSector)).toNat < 32768 ∧
      ∀ t' ∈ (notedState.devs 0).targets, t'.type = .verity → t' = it.2 := by
    decide
  exact ⟨(hguard (i, t) hf).1, fun _ => (hguard (i, t) hf).2⟩

end Six.Dm
