import Six.Ota.SlotRecords
import Six.Ota.Bounds

/-! Rollback indices over whole histories.  The larger index of the two vbmeta records bounds the
recorded indices. -/

namespace Six.Ota

open Lib Dm Ufs Errno List Option World

variable {p : OtaParams} {u v : UfsState} {lun : Int} {r : Vbmeta} {slotArg slotProp : Option Bool}
  {log : List RollbackEvent} {n : Nat}

/-- The indices that were recorded are at most the larger index of the two records, and all events
so far are as they should be. -/
structure RollbackInv (w : World) : Prop where
  bounded : ∀ r ∈ w.recorded, r ≤ max (slotIndex w.ufs 1) (slotIndex w.ufs 2)
  ok : ∀ e ∈ w.log, e.Ok

def SeedSafe (p : OtaParams) (u : UfsState) (recorded : List Nat) : Prop :=
  reseeds p u = true → ∀ r ∈ recorded, r ≤ 1

/-- The slot that is asked for has the larger index, and so has slot a when slot b does not
verify. -/
def ActivateSafe (p : OtaParams) (slotB : Bool) (m : Machine) (recorded : List Nat) : Prop :=
  slotted p m = true → SeedSafe p m.ufs recorded ∧
    slotIndex (seeded p m).ufs (otherLun (slotNo slotB)) ≤
      slotIndex (seeded p m).ufs (bootLun (slotNo slotB)) ∧
    (slotB = true → (trySlot p 1 (seeded p m)).1 = false →
      slotIndex (seeded p m).ufs 2 ≤ slotIndex (seeded p m).ufs 1)

/-- `cmd_apply` takes both indices into account, and the larger one can be counted up. -/
def ApplySafe (w : World) (slotB : Bool) : Prop :=
  (slotB ≠ activeSlot w.machine ∨
    slotIndex w.ufs (otherLun (slotNo slotB)) ≤ slotIndex w.ufs (bootLun (slotNo slotB))) ∧
  largerIndex w.ufs (activeSlot w.machine) slotB ≠ 0xffffffffffffffff

/-- The condition on a step.  A package that is accepted is not older than what was recorded, and
one that is sideloaded keeps to its slices. -/
def RollbackSafe (q : RollbackParams) (w : World) : OtaOp → Prop
  | .install pkg _ _ => (pkg.accept q.sha256).isSome →
    ∀ r ∈ w.recorded, r ≤ pkg.target.rollbackIndex.toNat
  | .apply slotArg _ => ApplySafe w (w.targetSlot slotArg none)
  | .sideload pkg _ _ _ => ∀ hdr t, pkg.accept q = some (hdr, t) →
    (∀ r ∈ w.recorded, r ≤ t.rollbackIndex.toNat) ∧
    ∀ i < hdr.numOps.toNat, opInside (CrauOp.decode (pkg.opBytes hdr i)) = true
  | .activate slotB => ActivateSafe q.ota slotB w.machine w.recorded
  | .poll => ∀ slotB u, pollTarget w.ufs = some (slotB, u) →
    ActivateSafe q.ota slotB ⟨w.machine.dm, u⟩ w.recorded
  | .reboot => True
  | .seed => q.ota.hddOnline = true → SeedSafe q.ota w.ufs w.recorded

variable {q : RollbackParams} {w w' : World} {recorded : List Nat} {slotB : Bool} {m : Machine}

theorem bounded_of_growsAt (h : ∀ r ∈ recorded, r ≤ max (slotIndex u 1) (slotIndex u 2))
    (h1 : GrowsAt 1 u v) (h2 : GrowsAt 2 u v) :
    ∀ r ∈ recorded, r ≤ max (slotIndex v 1) (slotIndex v 2) := by
  intro r hr
  have hle := h r hr
  have hidx1 := h1.index
  have hidx2 := h2.index
  omega

theorem ok_append (h : ∀ e ∈ log, e.Ok) (h' : ∀ e ∈ log', e.Ok) : ∀ e ∈ log ++ log', e.Ok := by
  intro e he
  rcases mem_append.mp he with he | he
  · exact h e he
  · exact h' e he

theorem ok_applying (h : ∀ e ∈ log, e.Ok) (hle : ∀ r ∈ recorded, r ≤ index) :
    ∀ e ∈ log ++ [.applying index recorded], e.Ok :=
  ok_append h fun e he => by
    obtain rfl := mem_singleton.mp he
    exact hle

theorem bounded_seed (h : ∀ r ∈ recorded, r ≤ max (slotIndex m.ufs 1) (slotIndex m.ufs 2))
    (hsafe : SeedSafe p m.ufs recorded) :
    ∀ r ∈ recorded, r ≤ max (slotIndex (seeded p m).ufs 1) (slotIndex (seeded p m).ufs 2) := by
  cases hre : reseeds p m.ufs with
  | false => exact bounded_of_growsAt h (seed_growsAt hre 1) (seed_growsAt hre 2)
  | true =>
    intro r hr
    have hone := one_le_slotIndex_seed hre
    have hle := hsafe hre r hr
    unfold seeded
    dsimp only
    omega

theorem ok_seedEvents (hsafe : SeedSafe p u recorded) : ∀ e ∈ seedEvents p u recorded, e.Ok := by
  intro e he
  unfold seedEvents at he
  split at he
  · rename_i hre
    obtain rfl := mem_singleton.mp he
    intro r hr
    exact (hsafe hre r hr).trans (one_le_slotIndex_seed hre)
  · cases he

theorem le_bootLun (slotB : Bool) (h : n ≤ max (slotIndex u 1) (slotIndex u 2))
    (hle : slotIndex u (otherLun (slotNo slotB)) ≤ slotIndex u (bootLun (slotNo slotB))) :
    n ≤ slotIndex u (bootLun (slotNo slotB)) := by
  cases slotB with
  | false =>
    have hother : otherLun (slotNo false) = 2 := rfl
    have hboot : bootLun (slotNo false) = 1 := rfl
    rw [hother, hboot] at hle
    rw [hboot]
    omega
  | true =>
    have hother : otherLun (slotNo true) = 1 := rfl
    have hboot : bootLun (slotNo true) = 2 := rfl
    rw [hother, hboot] at hle
    rw [hboot]
    omega

theorem le_activatedSlot {slotB s : Bool} (hsafe : ActivateSafe p slotB m recorded)
    (hs : activatedSlot p slotB m = some s)
    (h : n ≤ max (slotIndex (seeded p m).ufs 1) (slotIndex (seeded p m).ufs 2)) :
    n ≤ slotIndex (seeded p m).ufs (bootLun (slotNo s)) := by
  unfold activatedSlot at hs
  split at hs
  · cases hs
  · rename_i hslotted
    obtain ⟨-, hasked, hback⟩ := hsafe (by simpa using hslotted)
    split at hs
    · obtain rfl := some.inj hs
      exact le_bootLun slotB h hasked
    · rename_i htry
      split at hs
      · rename_i hb
        subst hb
        obtain rfl := some.inj hs
        exact le_bootLun false h (hback rfl (Bool.eq_false_iff.mpr htry))
      · cases hs

theorem rollbackInv_activate (h : RollbackInv w)
    (hsafe : ActivateSafe p slotB w.machine w.recorded) : RollbackInv (w.activate p slotB) := by
  by_cases hab : p.hddOnline = true ∧ hasAbSuper p = true
  · have hgrows := dmActivateOtaSlot_growsAt hab.1 hab.2 slotB w.machine
    cases hon : w.machine.ufs.online with
    | true =>
      have hslotted : slotted p w.machine = true := by simp [slotted, hab.1, hab.2, hon]
      have hseed := bounded_seed h.bounded (hsafe hslotted).1
      refine ⟨bounded_of_growsAt hseed (hgrows 1) (hgrows 2), ok_append h.ok (ok_append ?_ ?_)⟩
      · rw [if_pos hslotted]
        exact ok_seedEvents (hsafe hslotted).1
      · intro e he
        obtain ⟨s, hs, rfl⟩ := mem_map.mp he
        intro r hr
        have hle := le_activatedSlot hsafe (mem_toList.mp hs) (hseed r hr)
        exact hle.trans (hgrows _).index
    | false =>
      have hslotted : ¬ slotted p w.machine = true := by simp [slotted, hon]
      have hre : reseeds p w.machine.ufs = false := by
        by_contra hre
        rw [online_of_reseeds (by simpa using hre)] at hon
        cases hon
      have hseed := fun lun => (seed_growsAt hre lun).trans (hgrows lun)
      refine ⟨bounded_of_growsAt h.bounded (hseed 1) (hseed 2), ok_append h.ok ?_⟩
      simp [activateEvents, activatedSlot, hslotted]
  · have hufs := dmActivateOtaSlot_ufs (slotNo slotB) w.machine hab
    have hslotted : ¬ slotted p w.machine = true := by
      simp only [slotted, Bool.and_eq_true]
      exact fun hs => hab hs.1
    refine ⟨?_, ok_append h.ok ?_⟩
    · have hbounded := h.bounded
      unfold ufs activate at *
      rwa [hufs]
    · simp [activateEvents, activatedSlot, hslotted]

theorem bootLun_slotNo (slotB : Bool) : bootLun (slotNo slotB) = if slotB then 2 else 1 := by
  cases slotB <;> rfl

theorem bootLun_valid (slotB : Bool) : bootLun (slotNo slotB) = 1 ∨ bootLun (slotNo slotB) = 2 := by
  cases slotB
  · exact .inl rfl
  · exact .inr rfl

theorem slotIndex_bootLun_le (u : UfsState) (slotB : Bool) :
    slotIndex u (bootLun (slotNo slotB)) ≤ max (slotIndex u 1) (slotIndex u 2) := by
  rcases bootLun_valid slotB with h | h
  · rw [h]
    exact le_max_left _ _
  · rw [h]
    exact le_max_right _ _

theorem slotIndex_offline (h : u.online = false) (lun : Int) : slotIndex u lun = 0 := by
  refine Nat.le_zero.mp (slotIndex_le_iff.mpr fun r hr _ => ?_)
  rw [(read_ok_iff.mp hr).2.1] at h
  cases h

theorem rollbackInv_record (h : RollbackInv w)
    (hmagic : vbm.magic = avbMagic) (hle : ∀ r ∈ w.recorded, r ≤ vbm.rollbackIndex.toNat) :
    RollbackInv (w.record q slotB vbm buildText) := by
  have hlun := bootLun_valid slotB
  unfold record
  dsimp only
  cases hon : w.ufs.online with
  | true =>
    have hwrote := slotIndex_write hlun hon hmagic
    rw [write_eq hlun hon] at hwrote ⊢
    rw [if_neg (lt_irrefl 0)]
    have hsame := (sameRecords_rpmbRecordRollback q.sha256 vbm.rollbackIndex buildText
      ((w.ufs.lseek (UfsState.vbmetaOff (bootLun (slotNo slotB)))).writeList
        (Vbmeta.codec.enc vbm)).2).growsAt (bootLun (slotNo slotB))
    refine ⟨fun r hr => ?_, h.ok⟩
    have hindex : r ≤ vbm.rollbackIndex.toNat := by
      split at hr
      · rcases mem_append.mp hr with hr | hr
        · exact hle r hr
        · exact (mem_singleton.mp hr).le
      · exact hle r hr
    calc r ≤ vbm.rollbackIndex.toNat := hindex
      _ = slotIndex _ (bootLun (slotNo slotB)) := hwrote.symm
      _ ≤ slotIndex _ (bootLun (slotNo slotB)) := hsame.index
      _ ≤ _ := slotIndex_bootLun_le _ slotB
  | false =>
    have hrecorded : (rpmbRecordRollback q.sha256 vbm.rollbackIndex buildText w.ufs).1 = false :=
      rpmbRecordRollback_offline hon
    have hsame := fun lun => (sameRecords_rpmbRecordRollback q.sha256 vbm.rollbackIndex buildText
      w.ufs).growsAt lun
    rw [write_offline hon]
    split
    · exact ⟨h.bounded, h.ok⟩
    · refine ⟨?_, h.ok⟩
      rw [hrecorded, if_neg Bool.false_ne_true]
      exact bounded_of_growsAt h.bounded (hsame 1) (hsame 2)

theorem rollbackInv_install (h : RollbackInv w)
    (hsafe : RollbackSafe q w (.install pkg slotArg slotProp)) :
    RollbackInv (w.install q pkg slotArg slotProp) := by
  unfold install
  dsimp only
  split
  · exact h
  · cases hzip : cmdInstallZip q.sha256 pkg (slotNo (w.targetSlot slotArg slotProp)) w.hdd with
    | none => exact h
    | some o =>
      have haccept : (pkg.accept q.sha256).isSome := by
        rw [cmdInstallZip, map_eq_some_iff] at hzip
        obtain ⟨hdr, hhdr, -⟩ := hzip
        rw [hhdr, isSome_some]
      have hle := hsafe haccept
      have happlying : RollbackInv { w with
          hdd := o.state.hdd
          log := w.log ++ [.applying pkg.target.rollbackIndex.toNat w.recorded] } :=
        ⟨h.bounded, ok_applying h.ok hle⟩
      dsimp only
      split
      · exact happlying
      · exact rollbackInv_record happlying rfl hle

theorem slotIndex_le_readVbmeta (u : UfsState) (slotB : Bool) :
    slotIndex u (bootLun (slotNo slotB)) ≤ (readVbmeta u slotB).rollbackIndex.toNat := by
  refine slotIndex_le_iff.mpr fun r hr _ => ?_
  unfold readVbmeta
  rw [hr]

theorem readVbmeta_le_larger (u : UfsState) (active slotB : Bool) :
    (readVbmeta u active).rollbackIndex.toNat ≤ (largerIndex u active slotB).toNat ∧
      (readVbmeta u slotB).rollbackIndex.toNat ≤ (largerIndex u active slotB).toNat := by
  unfold largerIndex
  dsimp only
  split
  · rename_i hgt
    have hlt := UInt64.lt_iff_toNat_lt.mp hgt
    exact ⟨hlt.le, le_refl _⟩
  · rename_i hgt
    have hle := UInt64.le_iff_toNat_le.mp (UInt64.not_lt.mp hgt)
    exact ⟨le_refl _, hle⟩

theorem max_le_larger (hsafe : ApplySafe w slotB) :
    max (slotIndex w.ufs 1) (slotIndex w.ufs 2) ≤
      (largerIndex w.ufs (activeSlot w.machine) slotB).toNat := by
  obtain ⟨hactive, htarget⟩ := readVbmeta_le_larger w.ufs (activeSlot w.machine) slotB
  have htargetIdx := (slotIndex_le_readVbmeta w.ufs slotB).trans htarget
  have hactiveIdx := (slotIndex_le_readVbmeta w.ufs (activeSlot w.machine)).trans hactive
  rcases hsafe.1 with hne | hother
  · -- the two slots are looked at
    cases slotB <;> cases hact : activeSlot w.machine <;> rw [hact] at hactiveIdx hne
    · exact absurd rfl hne
    · rw [hact] at htargetIdx
      exact max_le htargetIdx hactiveIdx
    · rw [hact] at htargetIdx
      exact max_le hactiveIdx htargetIdx
    · exact absurd rfl hne
  · exact (le_bootLun slotB (le_refl _) hother).trans htargetIdx

theorem toNat_add_one {n : UInt64} (h : n ≠ 0xffffffffffffffff) : (n + 1).toNat = n.toNat + 1 := by
  have hlt := n.toNat_lt
  have hne : n.toNat ≠ 2 ^ 64 - 1 := fun heq => h (UInt64.toNat_inj.mp heq)
  rw [UInt64.toNat_add, UInt64.toNat_one]
  omega

theorem rollbackInv_apply {custom : List UInt8} (h : RollbackInv w)
    (hsafe : RollbackSafe q w (.apply slotArg custom)) :
    RollbackInv (w.apply q slotArg custom) := by
  have hle : ∀ r ∈ w.recorded, r ≤ (largerIndex w.ufs (activeSlot w.machine)
      (w.targetSlot slotArg none) + 1).toNat := by
    intro r hr
    have hbound := (h.bounded r hr).trans (max_le_larger hsafe)
    rw [toNat_add_one hsafe.2]
    omega
  unfold apply
  dsimp only
  split
  · exact h
  · split
    · exact ⟨h.bounded, ok_applying h.ok hle⟩
    · exact rollbackInv_record ⟨h.bounded, ok_applying h.ok hle⟩ rfl hle

section

variable (u : UfsState)

def hostWrote (pos : Nat) (bs : List UInt8) : UfsState :=
  { u with
    img := u.img.write pos bs.length fun i => bs.getD i 0
    room := by
      rw [HostFile.write_limit]
      exact u.room }

theorem hostWrote_online (pos : Nat) (bs : List UInt8) :
    (hostWrote u pos bs).online = u.online := rfl

theorem hostWrote_base (pos : Nat) (bs : List UInt8) : (hostWrote u pos bs).base = u.base := rfl

theorem hostWrote_img (pos : Nat) (bs : List UInt8) :
    (hostWrote u pos bs).img = u.img.write pos bs.length fun i => bs.getD i 0 := rfl

theorem hostWrote_hostWrote (pos pos' : Nat) (bs bs' : List UInt8) :
    hostWrote (hostWrote u pos bs) pos' bs' = { u with
        img := (u.img.write pos bs.length fun i => bs.getD i 0).write pos' bs'.length
          fun i => bs'.getD i 0
        room := by
          rw [HostFile.write_limit, HostFile.write_limit]
          exact u.room } := rfl

/-- The driver after `cmd_sideload` has written the record, before it writes the header. -/
def hostRecorded (slotB : Bool) (r : Vbmeta) : UfsState :=
  hostWrote u (recordPos u (bootLun (slotNo slotB))) (Vbmeta.codec.enc r)

theorem cmdSideload_eq (hdr : PersistHdr) (r : Vbmeta) (slotB noActivate : Bool) :
    cmdSideload u hdr r slotB noActivate = hostWrote (hostRecorded u slotB r)
      (u.base.toNat + ufsImgHdrOffset.toNat)
      (PersistHdr.codec.enc (sideloadHdr hdr slotB noActivate)) := by
  unfold hostRecorded recordPos cmdSideload
  rw [bootLun_slotNo, hostWrote_hostWrote]

theorem sameRecords_cmdSideload (hdr : PersistHdr) (r : Vbmeta)
    (slotB noActivate : Bool) :
    SameRecords (hostRecorded u slotB r) (cmdSideload u hdr r slotB noActivate) := by
  rw [cmdSideload_eq]
  refine ⟨hostWrote_online _ _ _, hostWrote_base _ _ _, ?_, fun lun i _ => ?_⟩
  · rw [hostWrote_img]
    exact HostFile.size_le_write
  · have hhdr := (UfsState.vbmetaOff_bounds lun).1
    have hbefore : persistHdrSize ≤ ufsImgBootAOffset.toNat := by decide
    rw [hostWrote_img, PersistHdr.length_enc, show ufsImgHdrOffset.toNat = 0 from rfl]
    refine HostFile.write_byte_outside (.inr ?_)
    rw [recordPos, hostRecorded, hostWrote_base]
    omega

end

theorem slotIndex_cmdSideload (hon : u.online = true) (hmagic : r.magic = avbMagic)
    (hdr : PersistHdr) (slotB noActivate : Bool) : r.rollbackIndex.toNat ≤
      slotIndex (cmdSideload u hdr r slotB noActivate) (bootLun (slotNo slotB)) := by
  have hread : ((hostRecorded u slotB r).ufsReadBootVbmeta (bootLun (slotNo slotB))).1 = .ok r := by
    refine read_of_img (bootLun_valid slotB) ?_ (hostWrote_base u _ _) (hostWrote_img u _ _)
    rw [hostRecorded, hostWrote_online, hon]
  rw [← slotIndex_of_read hread hmagic]
  exact ((sameRecords_cmdSideload u hdr r slotB noActivate).growsAt _).index

theorem rollbackIndex_sideloadVbmeta (slotB : Bool) (t : CrauTarget) (noActivate : Bool) :
    (sideloadVbmeta slotB t noActivate).rollbackIndex = t.rollbackIndex := rfl

theorem rollbackInv_sideload (h : RollbackInv w)
    (hsafe : RollbackSafe q w (.sideload pkg slotArg slotProp noActivate)) :
    RollbackInv (w.sideload q pkg slotArg slotProp noActivate) := by
  unfold sideload
  split
  · exact h
  · rename_i hdr t haccept
    have hle := (hsafe hdr t haccept).1
    dsimp only
    split
    · exact h
    · refine ⟨fun r hr => ?_, ok_applying h.ok hle⟩
      generalize (slotArg <|> slotProp).getD ((hostHdr w.ufs).bootLunId != 2) = slotB
      cases hon : w.ufs.online with
      | true =>
        have hindex := slotIndex_cmdSideload (r := sideloadVbmeta slotB t noActivate) hon rfl
          (hostHdr w.ufs) slotB noActivate
        rw [rollbackIndex_sideloadVbmeta] at hindex
        exact ((hle r hr).trans hindex).trans (slotIndex_bootLun_le _ slotB)
      | false =>
        have hzero := h.bounded r hr
        rw [slotIndex_offline hon, slotIndex_offline hon] at hzero
        omega

theorem pollTarget_img (h : pollTarget u = some (slotB, v)) :
    v.online = u.online ∧ v.base = u.base ∧ v.img = u.img := by
  unfold pollTarget at h
  split at h
  · cases h
  · dsimp only at h
    split at h
    · cases h
    · split at h
      · cases h
      · split at h
        · obtain ⟨-, rfl⟩ := Prod.mk.inj (some.inj h)
          exact ⟨rfl, rfl, rfl⟩
        · cases h

theorem sameRecords_poll (p : OtaParams) (h : pollTarget m.ufs = none) :
    SameRecords m.ufs (ufsPollExternalOta p m).ufs := by
  have hfetch := sameRecords_fetch m.ufs ufsImgHdrOffset persistHdrSize
  unfold pollTarget at h
  unfold ufsPollExternalOta
  split
  · exact .refl _
  · rename_i hready
    rw [if_neg hready] at h
    cases hdisk : m.ufs.diskHdr with
    | none => exact hfetch
    | some disk =>
      rw [hdisk] at h
      dsimp only at h ⊢
      split
      · exact hfetch
      · rename_i hseq
        rw [if_neg hseq] at h
        split
        · rename_i hslot
          rw [if_pos hslot] at h
          cases h
        · split
          · exact hfetch.trans (sameRecords_save_of rfl rfl rfl)
          · exact hfetch

theorem rollbackInv_poll (h : RollbackInv w) (hsafe : RollbackSafe q w .poll) :
    RollbackInv (w.poll q.ota) := by
  unfold poll
  cases htarget : pollTarget w.ufs with
  | some target =>
    obtain ⟨slotB, u⟩ := target
    have himg : u.online = w.ufs.online ∧ u.base = w.ufs.base ∧ u.img = w.ufs.img :=
      pollTarget_img htarget
    have hsame := sameRecords_of_img himg.1 himg.2.1 himg.2.2
    refine rollbackInv_activate ⟨?_, h.ok⟩ (hsafe slotB u htarget)
    exact bounded_of_growsAt h.bounded (hsame.growsAt 1) (hsame.growsAt 2)
  | none =>
    have hsame := sameRecords_poll q.ota htarget
    exact ⟨bounded_of_growsAt h.bounded (hsame.growsAt 1) (hsame.growsAt 2), h.ok⟩

theorem rollbackInv_step (h : RollbackInv w) (hsafe : RollbackSafe q w op)
    (hstep : w.step q op = some w') : RollbackInv w' := by
  cases op with
  | install pkg slotArg slotProp =>
    obtain rfl := some.inj hstep
    exact rollbackInv_install h hsafe
  | apply slotArg custom =>
    obtain rfl := some.inj hstep
    exact rollbackInv_apply h hsafe
  | sideload pkg slotArg slotProp noActivate =>
    obtain rfl := some.inj hstep
    exact rollbackInv_sideload h hsafe
  | activate slotB =>
    obtain rfl := some.inj hstep
    exact rollbackInv_activate h hsafe
  | poll =>
    obtain rfl := some.inj hstep
    exact rollbackInv_poll h hsafe
  | reboot =>
    obtain rfl := some.inj hstep
    have hsame := sameRecords_ufsInit q.binSha256 w.ufs
    exact ⟨bounded_of_growsAt h.bounded (hsame.growsAt 1) (hsame.growsAt 2), h.ok⟩
  | seed =>
    obtain rfl := some.inj hstep
    split
    · rename_i hon
      exact ⟨bounded_seed h.bounded (hsafe hon), ok_append h.ok (ok_seedEvents (hsafe hon))⟩
    · exact h

/-- In a history whose steps are all safe, no update is applied and no slot is made active whose
index is smaller than one that was recorded before. -/
theorem safe_history_never_rolls_back (hrecorded : w.recorded = []) (hlog : w.log = [])
    (hreach : Reaches (World.step q) (RollbackSafe q) w w') : ∀ e ∈ w'.log, e.Ok := by
  have hinit : RollbackInv w := by
    refine ⟨fun r hr => ?_, fun e he => ?_⟩
    · rw [hrecorded] at hr
      cases hr
    · rw [hlog] at he
      cases he
  exact (hreach.invariant hinit fun _ _ _ h hsafe hstep => rollbackInv_step h hsafe hstep).ok

def emptyPackage (index : UInt8) : Package where
  zip :=
    { size := 256
      byte := fun i =>
        if i < 8 then (crauMagic ++ leBytes 4 2).getD i 0 else if i = 32 then index else 0
      size_lt := by decide }
  payOff := 0
  paySz := 0
  expectedHash := []

/-- A machine with both slots, of which neither verifies. -/
def blankParams : RollbackParams where
  sha256 := constSha
  ota := { noHdd with hddOnline := true, hddSectors := 0x40000 }
  binSha256 := fun _ => 0
  propBlock := fun _ _ _ _ _ => 0

def blankWorld : World where
  machine := freshMachine
  hdd := zeroHdd
  recorded := []
  log := []

def installToB (index : UInt8) : OtaOp := .install (emptyPackage index) (some true) none

theorem newer_package_never_rolls_back : ∃ w w',
    blankWorld.step blankParams (installToB 5) = some w ∧
    w.step blankParams (installToB 6) = some w' ∧ w.recorded = [5] ∧ ∀ e ∈ w'.log, e.Ok := by
  have hrecorded : (blankWorld.step blankParams (installToB 5)).map recorded =
      some [5] := by decide +kernel
  obtain ⟨w, hw, hrec⟩ := map_eq_some_iff.mp hrecorded
  have hindex : (emptyPackage 6).target.rollbackIndex.toNat = 6 := by decide +kernel
  refine ⟨w, _, hw, rfl, hrec, ?_⟩
  have hfirst : RollbackSafe blankParams blankWorld (installToB 5) := fun _ r hr => nomatch hr
  have hsecond : RollbackSafe blankParams w (installToB 6) := by
    intro _ r hr
    rw [hrec] at hr
    obtain rfl := mem_singleton.mp hr
    rw [hindex]
    decide
  exact safe_history_never_rolls_back rfl rfl ((Reaches.refl.tail hfirst hw).tail hsecond rfl)

/-- The kernel is started, packages with index 5 and then 1 are installed to slot b, and slot b is
switched to, which does not verify. -/
def olderAfterNewer : List OtaOp :=
  [.reboot, .seed, installToB 5, installToB 1, .activate true]

/-- The package with index 1 is installed after index 5 was recorded, and then slot a is made active
with index 1. -/
theorem older_package_installed : blankWorld.recorded = [] ∧ blankWorld.log = [] ∧
    ∃ w, run (World.step blankParams) blankWorld olderAfterNewer = some w ∧
      w.log = [.madeActive 1 [], .applying 5 [], .applying 1 [5], .madeActive 1 [5, 1]] ∧
      ¬ ∀ e ∈ w.log, e.Ok := by
  have hlog : (run (step blankParams) blankWorld olderAfterNewer).map log =
      some [.madeActive 1 [], .applying 5 [], .applying 1 [5], .madeActive 1 [5, 1]] := by
    decide +kernel
  obtain ⟨w, hw, hlog⟩ := map_eq_some_iff.mp hlog
  refine ⟨rfl, rfl, w, hw, hlog, ?_⟩
  rw [hlog]
  decide

end Six.Ota
