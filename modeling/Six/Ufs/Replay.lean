import Six.Ufs.Frame

/-! Replay protection of the RPMB over whole histories: requests, polls for external updates, slot
activations, sideloads by the host and reboots. -/

namespace Six.Ufs

open Lib Errno Dm UfsState Option HostFile

section

variable {sha256 : List UInt8 → Digest} {u : UfsState} {f : RpmbFrame}

section

variable (haddr : f.addr < ufsRpmbTotalBlocks)
include haddr

theorem rpmbOff_toNat :
    (rpmbOff f.addr).toNat = ufsImgRpmbOffset.toNat + f.addr.toNat * ufsRpmbBlockSize := by
  have hlt : f.addr.toNat < 512 := UInt16.lt_iff_toNat_lt.mp haddr
  unfold rpmbOff
  rw [UInt32.toNat_add, UInt32.toNat_mul, UInt32.toNat_ofNat', UInt32.toNat_ofNat']
  unfold ufsRpmbBlockSize ufsImgRpmbOffset
  simp only [UInt32.reduceToNat]
  omega

theorem rpmbStore_pos :
    (u.lseek (rpmbOff f.addr)).pos =
      u.base.toNat + ufsImgRpmbOffset.toNat + f.addr.toNat * ufsRpmbBlockSize ∧
    ufsImgRpmbOffset.toNat + f.addr.toNat * ufsRpmbBlockSize + ufsRpmbBlockSize ≤
      ufsImgBootAOffset.toNat := by
  have hlt : f.addr.toNat < 512 := UInt16.lt_iff_toNat_lt.mp haddr
  have hoff := rpmbOff_toNat haddr
  have hend : ufsImgRpmbOffset.toNat + f.addr.toNat * ufsRpmbBlockSize + ufsRpmbBlockSize ≤
      ufsImgBootAOffset.toNat := by
    unfold ufsRpmbBlockSize ufsImgBootAOffset ufsImgRpmbOffset
    simp only [UInt32.reduceToNat]
    omega
  have hboot : ufsImgBootAOffset.toNat ≤ ufsImgTotalBytes.toNat := by decide
  refine ⟨?_, hend⟩
  rw [lseek_pos (by omega), hoff, Nat.add_assoc]

theorem rpmbStore_count : (u.rpmbStore f).1 = ufsRpmbBlockSize := by
  obtain ⟨hpos, hend⟩ := rpmbStore_pos (u := u) haddr
  have hroom := u.room
  have hboot : ufsImgBootAOffset.toNat ≤ ufsImgTotalBytes.toNat := by decide
  have hlen : ((Codec.array 256).enc f.data).length = ufsRpmbBlockSize :=
    (Codec.array 256).length_enc f.data
  change u.img.writeCount (u.lseek (rpmbOff f.addr)).pos ((Codec.array 256).enc f.data).length = _
  rw [hpos, hlen, writeCount_of_le (by omega)]

theorem rpmbStore_byte
    (hx : x < u.base.toNat + ufsImgRpmbOffset.toNat + f.addr.toNat * ufsRpmbBlockSize ∨
      u.base.toNat + ufsImgRpmbOffset.toNat + f.addr.toNat * ufsRpmbBlockSize +
        ufsRpmbBlockSize ≤ x) : (u.rpmbStore f).2.img.byte x = u.img.byte x := by
  have hlen : ((Codec.array 256).enc f.data).length = ufsRpmbBlockSize :=
    (Codec.array 256).length_enc f.data
  rw [rpmbStore, writeList_img, (rpmbStore_pos haddr).1, hlen, write_byte_outside hx]
  rfl

end

theorem rpmbWriteData_refused (h : ¬ Authentic sha256 u f) :
    (rpmbWriteData sha256 u f).1.result ≠ rpmbResOk ∧ Kept u (rpmbWriteData sha256 u f).2 := by
  have hcount : Kept u u.countAuthFail := kept_of_eq rfl rfl rfl rfl
  unfold rpmbWriteData
  split
  · exact ⟨show rpmbResNoAuthKey ≠ rpmbResOk by decide, .refl u⟩
  · rename_i hkey
    split
    · exact ⟨show rpmbResAddrFailure ≠ rpmbResOk by decide, .refl u⟩
    · rename_i haddr
      split
      · exact ⟨show rpmbResAuthFailure ≠ rpmbResOk by decide, hcount⟩
      · rename_i hmac
        split
        · exact ⟨show rpmbResCounterFailure ≠ rpmbResOk by decide, hcount⟩
        · rename_i hctr
          exact absurd ⟨hkey, UInt16.not_le.mp haddr, not_not.mp hmac, not_not.mp hctr⟩ h

theorem rpmbWriteData_accepted (h : Authentic sha256 u f) :
    (rpmbWriteData sha256 u f).1.result = rpmbResOk ∧
      (rpmbWriteData sha256 u f).2 = u.rpmbWritten f := by
  obtain ⟨hkey, haddr, hmac, hctr⟩ := h
  unfold rpmbWriteData
  rw [if_neg hkey, if_neg (UInt16.not_le.mpr haddr), if_neg (not_not.mpr hmac),
    if_neg (not_not.mpr hctr), if_neg (not_not.mpr (rpmbStore_count haddr))]
  exact ⟨rfl, rfl⟩

theorem rpmbReadData_kept : Kept u (rpmbReadData sha256 u f).2 := by
  have hread := (kept_lseek u (rpmbOff f.addr)).trans
    (kept_read (u.lseek (rpmbOff f.addr)) ufsRpmbBlockSize)
  unfold rpmbReadData
  dsimp only
  split
  · exact .refl u
  · split
    · exact hread
    · exact hread.trans (kept_of_eq rfl rfl rfl rfl)

def Accepts (sha256 : List UInt8 → Digest) (u : UfsState) (f : RpmbFrame) : Prop :=
  f.reqResp = rpmbReqWriteData ∧ (ufsHandleRpmbIoctl sha256 u (some (.ok f))).1 = 0

theorem ufsHandleRpmbIoctl_online (h : u.online = true) :
    ufsHandleRpmbIoctl sha256 u (some (.ok f)) =
      (if (rpmbRequest sha256 u f).1.result = rpmbResOk then 0 else -eio,
        some (rpmbRequest sha256 u f).1, (rpmbRequest sha256 u f).2) := by
  simp [ufsHandleRpmbIoctl, h]

theorem rpmbRequest_write (h : f.reqResp = rpmbReqWriteData) :
    rpmbRequest sha256 u f = rpmbWriteData sha256 u f := by
  unfold rpmbRequest
  rw [h]
  rfl

theorem accepts_iff : Accepts sha256 u f ↔
    u.online = true ∧ f.reqResp = rpmbReqWriteData ∧ Authentic sha256 u f := by
  cases honline : u.online with
  | false =>
    simp only [Accepts, ufsHandleRpmbIoctl, honline, Bool.false_eq_true, false_and, iff_false]
    exact fun h => absurd (show -enodev = 0 from h.2) (by decide)
  | true =>
    simp only [Accepts, ufsHandleRpmbIoctl_online honline, true_and]
    refine and_congr_right fun hreq => ?_
    rw [rpmbRequest_write hreq]
    constructor
    · intro h
      by_contra hnot
      rw [if_neg (rpmbWriteData_refused hnot).1] at h
      exact absurd h (by decide)
    · intro h
      exact if_pos (rpmbWriteData_accepted h).1

theorem ioctl_cases (sha256 : List UInt8 → Digest) (u : UfsState)
    (arg : Option (Except Int RpmbFrame)) :
    (Kept u (ufsHandleRpmbIoctl sha256 u arg).2.2 ∧
      ∀ f, arg = some (.ok f) → ¬ Accepts sha256 u f) ∨
    (∃ f, arg = some (.ok f) ∧ u.online = true ∧ f.reqResp = rpmbReqProgramKey ∧
      (ufsHandleRpmbIoctl sha256 u arg).2.2 = (u.rpmbProgramKey f).2) ∨
    (∃ f, arg = some (.ok f) ∧ Accepts sha256 u f ∧
      (ufsHandleRpmbIoctl sha256 u arg).2.2 = u.rpmbWritten f) := by
  match arg with
  | none => exact .inl ⟨.refl u, fun f hf => by simp at hf⟩
  | some (.error err) =>
    refine .inl ⟨?_, fun f hf => by simp at hf⟩
    cases honline : u.online <;> simp only [ufsHandleRpmbIoctl, honline] <;> exact .refl u
  | some (.ok f) =>
    cases honline : u.online with
    | false =>
      refine .inl ⟨?_, fun g _ hacc => ?_⟩
      · simp only [ufsHandleRpmbIoctl, honline]
        exact .refl u
      · rw [accepts_iff, honline] at hacc
        exact absurd hacc.1 (by decide)
    | true =>
      rw [ufsHandleRpmbIoctl_online honline]
      by_cases hwrite : f.reqResp = rpmbReqWriteData
      · rw [rpmbRequest_write hwrite]
        by_cases hauth : Authentic sha256 u f
        · exact .inr (.inr ⟨f, rfl, accepts_iff.mpr ⟨honline, hwrite, hauth⟩,
            (rpmbWriteData_accepted hauth).2⟩)
        · refine .inl ⟨(rpmbWriteData_refused hauth).2, fun g hg hacc => hauth ?_⟩
          obtain rfl : f = g := by simpa using hg
          exact (accepts_iff.mp hacc).2.2
      · have hnot : ∀ g, some (.ok f : Except Int _) = some (.ok g) → ¬ Accepts sha256 u g := by
          intro g hg hacc
          obtain rfl : f = g := by simpa using hg
          exact hwrite hacc.1
        unfold rpmbRequest
        split
        · rename_i hkey
          exact .inr (.inl ⟨f, rfl, rfl, hkey, rfl⟩)
        · split
          · exact .inl ⟨.refl u, hnot⟩
          · split
            · exact .inl ⟨rpmbReadData_kept, hnot⟩
            · exact .inl ⟨.refl u, hnot⟩

/-- The counter on the disk is not behind, and a device that is not online has counter zero. -/
structure RpmbInv (u : UfsState) : Prop where
  synced : u.online = true → u.Synced
  offline : u.online = false → u.hdr.rpmbWriteCounter = 0

theorem rpmbInv_of_synced (h : u.online = true) (hs : u.Synced) : RpmbInv u :=
  ⟨fun _ => hs, fun hoff => absurd (h.symm.trans hoff) (by decide)⟩

structure Advances (u v : UfsState) : Prop where
  base : v.base = u.base
  counter : u.hdr.rpmbWriteCounter ≤ v.hdr.rpmbWriteCounter
  inv : RpmbInv v

structure Quiet (u v : UfsState) : Prop extends Advances u v where
  area : ∀ x, u.InRpmb x → v.img.byte x = u.img.byte x

theorem UfsState.Kept.quiet (h : Kept u v) (hinv : RpmbInv u) : Quiet u v where
  base := h.base
  counter := by
    rw [h.counter]
    exact UInt32.le_refl _
  inv := by
    constructor
    · intro hon
      exact h.synced (hinv.synced (h.online.symm.trans hon))
    · intro hoff
      rw [h.counter]
      exact hinv.offline (h.online.symm.trans hoff)
  area := h.area

theorem Quiet.trans (h1 : Quiet u v) (h2 : Quiet v w) : Quiet u w where
  base := h2.base.trans h1.base
  counter := UInt32.le_trans h1.counter h2.counter
  inv := h2.inv
  area := by
    intro x hx
    have hx' : v.InRpmb x := by
      unfold InRpmb at hx ⊢
      rwa [h1.base]
    rw [h2.area x hx', h1.area x hx]

@[simp] theorem rpmbKeyed_online : (u.rpmbKeyed f).online = u.online := by simp only [rpmbKeyed]

@[simp] theorem rpmbKeyed_base : (u.rpmbKeyed f).base = u.base := by simp only [rpmbKeyed]

@[simp] theorem rpmbCounted_online : (u.rpmbCounted f).online = u.online := by
  simp only [rpmbCounted, rpmbStore, writeList, UfsState.write, lseek]

@[simp] theorem rpmbCounted_base : (u.rpmbCounted f).base = u.base := by
  simp only [rpmbCounted, rpmbStore, writeList, UfsState.write, lseek]

section

variable (h : u.online = true)
include h

theorem rpmbProgramKey_quiet (hzero : u.hdr.rpmbWriteCounter = 0) :
    Quiet u (u.rpmbProgramKey f).2 := by
  have hkeyed : (u.rpmbKeyed f).online = true := by rw [rpmbKeyed_online, h]
  show Quiet u (u.rpmbKeyed f).ufsSavePersistHdr
  refine ⟨⟨?_, ?_, rpmbInv_of_synced (save_online hkeyed) (save_synced hkeyed)⟩, fun x hx => ?_⟩
  · rw [save_base hkeyed, rpmbKeyed_base]
  · rw [hzero]
    exact UInt32.zero_le
  · have hhdr : persistHdrSize ≤ ufsImgRpmbOffset.toNat := by decide
    have hlo := hx.1
    rw [← rpmbKeyed_base (f := f)] at hlo
    rw [save_byte (by omega), rpmbKeyed]

theorem rpmbWritten_counter :
    (u.rpmbWritten f).hdr.rpmbWriteCounter = u.hdr.rpmbWriteCounter + 1 := by
  have hcounted : (u.rpmbCounted f).online = true := by rw [rpmbCounted_online, h]
  rw [rpmbWritten, save_hdr hcounted]
  simp only [rpmbCounted, PersistHdr.withMagic]

theorem rpmbWritten_counter_lt (hmax : u.hdr.rpmbWriteCounter ≠ 0xffffffff) :
    u.hdr.rpmbWriteCounter < (u.rpmbWritten f).hdr.rpmbWriteCounter := by
  have hlt := u.hdr.rpmbWriteCounter.toNat_lt
  have hne : u.hdr.rpmbWriteCounter.toNat ≠ 0xffffffff := by
    intro heq
    exact hmax (UInt32.toNat_inj.mp heq)
  rw [rpmbWritten_counter h, UInt32.lt_iff_toNat_lt, UInt32.toNat_add]
  simp only [UInt32.reduceToNat]
  omega

theorem rpmbWritten_advances (hmax : u.hdr.rpmbWriteCounter ≠ 0xffffffff) :
    Advances u (u.rpmbWritten f) := by
  have hlt := rpmbWritten_counter_lt (f := f) h hmax
  have hcounted : (u.rpmbCounted f).online = true := by rw [rpmbCounted_online, h]
  rw [rpmbWritten] at hlt ⊢
  constructor
  · rw [save_base hcounted, rpmbCounted_base]
  · exact UInt32.le_of_lt hlt
  · exact rpmbInv_of_synced (save_online hcounted) (save_synced hcounted)

end

theorem rpmbWritten_area (haddr : f.addr < ufsRpmbTotalBlocks) (hx : u.InRpmb x)
    (hout : x < u.base.toNat + ufsImgRpmbOffset.toNat + f.addr.toNat * ufsRpmbBlockSize ∨
      u.base.toNat + ufsImgRpmbOffset.toNat + f.addr.toNat * ufsRpmbBlockSize +
        ufsRpmbBlockSize ≤ x) : (u.rpmbWritten f).img.byte x = u.img.byte x := by
  have hhdr : persistHdrSize ≤ ufsImgRpmbOffset.toNat := by decide
  have hlo := hx.1
  rw [← rpmbCounted_base (f := f)] at hlo
  rw [rpmbWritten, save_byte (by omega), rpmbCounted]
  exact rpmbStore_byte haddr hout

theorem takeOver_quiet (h : u.online = true) (hdisk : u.diskHdr = some disk)
    (hle : u.hdr.rpmbWriteCounter ≤ disk.rpmbWriteCounter) : Quiet u (u.takeOver disk) := by
  have hcounter : (u.takeOver disk).hdr.rpmbWriteCounter = disk.rpmbWriteCounter ∨
      (u.takeOver disk).hdr.rpmbWriteCounter = u.hdr.rpmbWriteCounter := by
    simp only [takeOver]
    split
    · exact .inl rfl
    · exact .inr rfl
  have himg : (u.takeOver disk).img = u.img := by simp only [takeOver]
  have hbase : (u.takeOver disk).base = u.base := by simp only [takeOver]
  have hdisk' : (u.takeOver disk).diskHdr = some disk :=
    diskHdr_of_bytes hdisk hbase (by rw [himg]) fun _ _ => by rw [himg]
  have honline : (u.takeOver disk).online = true := by simp only [takeOver, h]
  refine ⟨⟨hbase, ?_, rpmbInv_of_synced honline ⟨disk, hdisk', ?_⟩⟩, fun _ _ => by rw [himg]⟩
  · rcases hcounter with h | h <;> rw [h]
    · exact hle
    · exact UInt32.le_refl _
  · rcases hcounter with h | h <;> rw [h]
    · exact UInt32.le_refl _
    · exact hle

theorem kept_acknowledge (disk : PersistHdr) (h : u.online = true) :
    Kept u (u.acknowledge disk).ufsSavePersistHdr :=
  kept_save (by simp only [acknowledge]) (by simp only [acknowledge]) (by simp only [acknowledge])
    (by simp only [acknowledge]) (by simp only [acknowledge]) (by simp only [acknowledge]) h

theorem poll_quiet (p : OtaParams) (m : Machine) (hinv : RpmbInv m.ufs) :
    Quiet m.ufs (ufsPollExternalOta p m).ufs := by
  unfold ufsPollExternalOta
  split
  · exact (Kept.refl m.ufs).quiet hinv
  · rename_i hready
    have honline : m.ufs.online = true := by
      simp only [Bool.or_eq_true, Bool.not_eq_true', not_or, Bool.not_eq_false] at hready
      exact hready.1
    have hkept := (kept_lseek m.ufs ufsImgHdrOffset).trans
      (kept_read (m.ufs.lseek ufsImgHdrOffset) persistHdrSize)
    have hread := hkept.quiet hinv
    dsimp only
    split
    · exact hread
    · rename_i disk hdisk
      split
      · exact hread
      · split
        · obtain ⟨h, hh, hle⟩ := hinv.synced honline
          obtain rfl : h = disk := some.inj (hh.symm.trans hdisk)
          have hdisk' : ((m.ufs.lseek ufsImgHdrOffset).read persistHdrSize).2.diskHdr = some h :=
            diskHdr_of_bytes hdisk hkept.base (le_refl _) fun _ _ => rfl
          rw [← hkept.counter] at hle
          have htaken := hread.trans (takeOver_quiet (hkept.online.trans honline) hdisk' hle)
          exact htaken.trans ((kept_dmActivateOtaSlot p _ ⟨m.dm, _⟩).quiet htaken.inv)
        · split
          · have hon := hkept.online.trans honline
            exact hread.trans ((kept_acknowledge disk hon).quiet hread.inv)
          · exact hread

theorem sideload_quiet (hinv : RpmbInv u) (hdr : PersistHdr) (vbm : Vbmeta)
    (targetSlot noActivate : Bool) (hle : u.hdr.rpmbWriteCounter ≤ hdr.rpmbWriteCounter) :
    Quiet u (cmdSideload u hdr vbm targetSlot noActivate) := by
  have hbase : (cmdSideload u hdr vbm targetSlot noActivate).base = u.base := by
    simp only [cmdSideload]
  have hcounter : (cmdSideload u hdr vbm targetSlot noActivate).hdr = u.hdr := by
    simp only [cmdSideload]
  have hoff := (vbmetaOff_bounds (if targetSlot then 2 else 1)).1
  have hroom := u.room
  have hsize : persistHdrSize ≤ ufsImgTotalBytes.toNat := by decide
  have hhdr : persistHdrSize ≤ ufsImgRpmbOffset.toNat := by decide
  have hzero : ufsImgHdrOffset.toNat = 0 := rfl
  have hlen := PersistHdr.length_enc (sideloadHdr hdr targetSlot noActivate)
  have hdisk : (cmdSideload u hdr vbm targetSlot noActivate).diskHdr =
      some (sideloadHdr hdr targetSlot noActivate) := by
    refine diskHdr_of_write rfl (f := u.img.write (u.base.toNat +
      (vbmetaOff (if targetSlot then 2 else 1)).toNat) (Vbmeta.codec.enc vbm).length
      fun i => (Vbmeta.codec.enc vbm).getD i 0) ?_ ?_
    · rw [hbase, write_limit]
      omega
    · rw [hbase]
      simp only [cmdSideload]
      rfl
  have honline : (cmdSideload u hdr vbm targetSlot noActivate).online = u.online := by
    simp only [cmdSideload]
  refine ⟨⟨hbase, ?_, fun _ => ⟨_, hdisk, ?_⟩, fun hoff => ?_⟩, fun x hx => ?_⟩
  · rw [hcounter]
    exact UInt32.le_refl _
  · rw [hcounter]
    exact hle
  · rw [hcounter]
    exact hinv.offline (honline.symm.trans hoff)
  · unfold InRpmb at hx
    simp only [cmdSideload]
    rw [write_byte_outside (.inr (by rw [hlen]; omega)), write_byte_outside (.inl (by omega))]

theorem kept_ensureBootHeader (text : String)
    (hlo : ufsImgBootAOffset.toNat ≤ off.toNat) (hhi : off.toNat ≤ ufsImgTotalBytes.toNat) :
    Kept u (u.ensureBootHeader off text) := by
  have hread := (kept_lseek u off).trans (kept_read (u.lseek off) 512)
  unfold ensureBootHeader
  dsimp only
  split
  · exact hread.trans (kept_writeList _ hlo hhi)
  · exact hread

variable (binSha256 : Digest)

theorem adoptHdr_counter (hdr : PersistHdr) :
    (adoptHdr binSha256 hdr).rpmbWriteCounter = hdr.rpmbWriteCounter := by
  unfold adoptHdr
  dsimp only
  split <;> split <;> split <;> rfl

def startHdr (u : UfsState) : PersistHdr :=
  u.diskHdr.elim (freshHdr binSha256) (adoptHdr binSha256)

theorem ufsInit_online (h : u.online = true) :
    ∃ v : UfsState, v.online = true ∧ v.base = u.base ∧ v.img = u.img ∧
      v.hdr = startHdr binSha256 u ∧
      Kept v.ufsSavePersistHdr (ufsInit binSha256 u) := by
  have hon : (u.powerOn binSha256).online = true := by
    simp only [powerOn, h]
  have hdisk : (u.powerOn binSha256).diskHdr = u.diskHdr :=
    diskHdr_congr (by simp only [powerOn]) (by simp only [powerOn])
  have hensure : ∀ v : UfsState, Kept v ((v.ensureBootHeader ufsImgBootAOffset
      "ANDROID! slot=a boot_lun=1 (/dev/ufsb) version=UFS4.0-primary-bootloader").ensureBootHeader
      ufsImgBootBOffset
      "ANDROID! slot=b boot_lun=2 (/dev/ufsc) version=UFS4.0-secondary-ota-slot") := fun v =>
    (kept_ensureBootHeader _ (by decide) (by decide)).trans
      (kept_ensureBootHeader _ (by decide) (by decide))
  unfold ufsInit ufsLoadOrInitPersistHdr
  rw [if_neg (by rw [hon]; decide), hdisk]
  cases hhdr : u.diskHdr with
  | none =>
    refine ⟨_, ?_, ?_, ?_, ?_, hensure _⟩
    all_goals simp only [withFreshHdr, UfsState.read, lseek, powerOn, h, startHdr, hhdr, elim_none]
  | some hdr =>
    refine ⟨_, ?_, ?_, ?_, ?_, hensure _⟩
    all_goals simp only [withHdr, UfsState.read, lseek, powerOn, h, startHdr, hhdr, elim_some]

theorem startHdr_counter (u : UfsState) :
    (startHdr binSha256 u).rpmbWriteCounter = u.diskHdr.elim 0 (·.rpmbWriteCounter) := by
  unfold startHdr
  cases u.diskHdr with
  | none => rfl
  | some hdr => exact adoptHdr_counter binSha256 hdr

theorem ufsInit_offline (h : u.online = false) : ufsInit binSha256 u = u.powerOn binSha256 := by
  unfold ufsInit ufsLoadOrInitPersistHdr
  rw [if_pos (by simp only [powerOn, h]; decide)]

theorem ufsInit_counter (h : u.online = true) :
    (ufsInit binSha256 u).hdr.rpmbWriteCounter = u.diskHdr.elim 0 (·.rpmbWriteCounter) ∧
      (ufsInit binSha256 u).Synced := by
  obtain ⟨v, hvon, -, -, hvhdr, hkept⟩ := ufsInit_online binSha256 h
  refine ⟨?_, hkept.synced (save_synced hvon)⟩
  rw [hkept.counter, save_hdr hvon, PersistHdr.withMagic, hvhdr, startHdr_counter]

theorem ufsInit_quiet (hinv : RpmbInv u) : Quiet u (ufsInit binSha256 u) := by
  cases honline : u.online with
  | true =>
    obtain ⟨v, hvon, hvbase, hvimg, -, hkept⟩ := ufsInit_online binSha256 honline
    have hbase : v.ufsSavePersistHdr.base = u.base := (save_base hvon).trans hvbase
    obtain ⟨hcounter, hsynced⟩ := ufsInit_counter binSha256 honline
    have hon : (ufsInit binSha256 u).online = true := by rw [hkept.online, save_online hvon]
    refine ⟨⟨hkept.base.trans hbase, ?_, rpmbInv_of_synced hon hsynced⟩, fun x hx => ?_⟩
    · obtain ⟨disk, hdisk, hle⟩ := hinv.synced honline
      rw [hcounter, hdisk]
      exact hle
    · have hhdr : persistHdrSize ≤ ufsImgRpmbOffset.toNat := by decide
      have hlo := hx.1
      have hx' : v.ufsSavePersistHdr.InRpmb x := by
        unfold InRpmb
        rwa [hbase]
      rw [hkept.area x hx', save_byte (by rw [hvbase]; omega), hvimg]
  | false =>
    rw [ufsInit_offline binSha256 honline]
    refine ⟨⟨by simp only [powerOn], ?_, fun hon => ?_, fun _ => by simp only [powerOn]⟩,
      fun x hx => by simp only [powerOn]⟩
    · rw [hinv.offline honline]
      exact UInt32.zero_le
    · simp only [powerOn, honline, Bool.false_eq_true] at hon

end

inductive RpmbOp
  | ioctl (arg : Option (Except Int RpmbFrame))
  | poll
  | activate (slot : Int)
  | sideload (hdr : PersistHdr) (vbm : Vbmeta) (targetSlot noActivate : Bool)
  | reboot

section

variable (sha256 : List UInt8 → Digest) (p : OtaParams) (binSha256 : Digest)

def reboot (m : Machine) : Machine :=
  ⟨{ dmInit with time := m.dm.time }, ufsInit binSha256 m.ufs⟩

def rpmbStep (m : Machine) : RpmbOp → Option Machine
  | .ioctl arg => some { m with ufs := (ufsHandleRpmbIoctl sha256 m.ufs arg).2.2 }
  | .poll => some (ufsPollExternalOta p m)
  | .activate slot => some (dmActivateOtaSlot p slot m).2
  | .sideload hdr vbm targetSlot noActivate =>
    some { m with ufs := cmdSideload m.ufs hdr vbm targetSlot noActivate }
  | .reboot => some (reboot binSha256 m)

/-- The condition on an operation: a key is programmed only while the counter is zero, no write is
accepted at the largest counter, and a sideload does not write back a header with an older
counter. -/
def KeepsCounter (m : Machine) : RpmbOp → Prop
  | .ioctl (some (.ok f)) =>
    (f.reqResp = rpmbReqProgramKey → m.ufs.hdr.rpmbWriteCounter = 0) ∧
    (Accepts sha256 m.ufs f → m.ufs.hdr.rpmbWriteCounter ≠ 0xffffffff)
  | .sideload hdr _ _ _ => m.ufs.hdr.rpmbWriteCounter ≤ hdr.rpmbWriteCounter
  | _ => True

/-- The image holds no header, or one without a key and with counter zero. -/
def Unprogrammed (u : UfsState) : Prop :=
  ∀ hdr, u.diskHdr = some hdr → hdr.rpmbKeySet = 0 ∧ hdr.rpmbWriteCounter = 0

def rpmbBlock (u : UfsState) (k : Fin 512) : Fin 256 → UInt8 :=
  fun i => u.img.byte (u.base.toNat + ufsImgRpmbOffset.toNat + k * ufsRpmbBlockSize + i)

variable {sha256 p binSha256} {m m' : Machine} {op : RpmbOp}

theorem reboot_inv (binSha256 : Digest) (m : Machine) : RpmbInv (reboot binSha256 m).ufs := by
  unfold reboot
  cases honline : m.ufs.online with
  | true =>
    obtain ⟨v, hvon, -, -, -, hkept⟩ := ufsInit_online binSha256 honline
    exact rpmbInv_of_synced (hkept.online.trans (save_online hvon))
      (ufsInit_counter binSha256 honline).2
  | false =>
    rw [ufsInit_offline binSha256 honline]
    refine ⟨fun hon => ?_, fun _ => by simp only [powerOn]⟩
    simp only [powerOn, honline, Bool.false_eq_true] at hon

section

variable (hinv : RpmbInv m.ufs)
include hinv

theorem rpmbStep_cases (hkeep : KeepsCounter sha256 m op)
    (hstep : rpmbStep sha256 p binSha256 m op = some m') :
    Quiet m.ufs m'.ufs ∨ ∃ f, op = .ioctl (some (.ok f)) ∧ Accepts sha256 m.ufs f ∧
      m'.ufs = m.ufs.rpmbWritten f := by
  cases op with
  | ioctl arg =>
    obtain rfl := some.inj hstep
    rcases ioctl_cases sha256 m.ufs arg with ⟨hkept, -⟩ | ⟨f, rfl, hon, hreq, heq⟩ |
      ⟨f, rfl, hacc, heq⟩
    · exact .inl (hkept.quiet hinv)
    · refine .inl ?_
      rw [heq]
      exact rpmbProgramKey_quiet hon (hkeep.1 hreq)
    · exact .inr ⟨f, rfl, hacc, heq⟩
  | poll =>
    obtain rfl := some.inj hstep
    exact .inl (poll_quiet p m hinv)
  | activate slot =>
    obtain rfl := some.inj hstep
    exact .inl ((kept_dmActivateOtaSlot p slot m).quiet hinv)
  | sideload hdr vbm targetSlot noActivate =>
    obtain rfl := some.inj hstep
    exact .inl (sideload_quiet hinv hdr vbm targetSlot noActivate hkeep)
  | reboot =>
    obtain rfl := some.inj hstep
    exact .inl (ufsInit_quiet binSha256 hinv)

theorem rpmbStep_advances (hkeep : KeepsCounter sha256 m op)
    (hstep : rpmbStep sha256 p binSha256 m op = some m') : Advances m.ufs m'.ufs := by
  rcases rpmbStep_cases hinv hkeep hstep with hquiet | ⟨f, rfl, hacc, heq⟩
  · exact hquiet.toAdvances
  · rw [heq]
    exact rpmbWritten_advances (accepts_iff.mp hacc).1 (hkeep.2 hacc)

theorem reaches_advances (h : Reaches (rpmbStep sha256 p binSha256) (KeepsCounter sha256) m m') :
    RpmbInv m'.ufs ∧ m.ufs.hdr.rpmbWriteCounter ≤ m'.ufs.hdr.rpmbWriteCounter := by
  refine h.invariant (P := fun t => RpmbInv t.ufs ∧
    m.ufs.hdr.rpmbWriteCounter ≤ t.ufs.hdr.rpmbWriteCounter) ⟨hinv, UInt32.le_refl _⟩ ?_
  rintro a op b ⟨ha, hle⟩ hkeep hstep
  have hadv := rpmbStep_advances ha hkeep hstep
  exact ⟨hadv.inv, UInt32.le_trans hle hadv.counter⟩

theorem rpmbBlock_changed (hkeep : KeepsCounter sha256 m op)
    (hstep : rpmbStep sha256 p binSha256 m op = some m')
    (hne : rpmbBlock m'.ufs k ≠ rpmbBlock m.ufs k) :
    ∃ f, op = .ioctl (some (.ok f)) ∧ f.reqResp = rpmbReqWriteData ∧ f.addr.toNat = k ∧
      Authentic sha256 m.ufs f := by
  have hin : ∀ i : Fin 256, m.ufs.InRpmb
      (m.ufs.base.toNat + ufsImgRpmbOffset.toNat + k * ufsRpmbBlockSize + i) := by
    intro i
    have hi := i.isLt
    unfold InRpmb ufsRpmbBlockSize ufsImgRpmbOffset ufsImgBootAOffset
    simp only [UInt32.reduceToNat]
    omega
  rcases rpmbStep_cases hinv hkeep hstep with hquiet | ⟨f, rfl, hacc, heq⟩
  · refine absurd (funext fun i => ?_) hne
    unfold rpmbBlock
    rw [hquiet.base, hquiet.area _ (hin i)]
  · obtain ⟨hon, hreq, hauth⟩ := accepts_iff.mp hacc
    refine ⟨f, rfl, hreq, ?_, hauth⟩
    by_contra haddr
    refine hne (funext fun i => ?_)
    have hbase := (rpmbWritten_advances (f := f) hon (hkeep.2 hacc)).base
    unfold rpmbBlock
    rw [heq, hbase, rpmbWritten_area hauth.2.1 (hin i)]
    -- the block of the frame is another one
    unfold ufsRpmbBlockSize
    omega

end

/-- Replay protection: in a run whose operations all keep the counter, each operation leaves the
counter where it is or makes it larger, a block changes only by a write request that is valid under
the key with the current counter, and a frame that is accepted is never accepted again. -/
theorem rpmb_replay_protected {a b : Machine}
    (hreach : Reaches (rpmbStep sha256 p binSha256) (KeepsCounter sha256) (reboot binSha256 m) a)
    (hkeep : KeepsCounter sha256 a op) (hstep : rpmbStep sha256 p binSha256 a op = some b) :
    a.ufs.hdr.rpmbWriteCounter ≤ b.ufs.hdr.rpmbWriteCounter ∧
    (∀ k, rpmbBlock b.ufs k ≠ rpmbBlock a.ufs k →
      ∃ f, op = .ioctl (some (.ok f)) ∧ f.reqResp = rpmbReqWriteData ∧ f.addr.toNat = k ∧
        Authentic sha256 a.ufs f) ∧ ∀ f, op = .ioctl (some (.ok f)) → Accepts sha256 a.ufs f →
      ∀ c, Reaches (rpmbStep sha256 p binSha256) (KeepsCounter sha256) b c →
        ¬ Accepts sha256 c.ufs f := by
  obtain ⟨hinv, -⟩ := reaches_advances (reboot_inv binSha256 m) hreach
  have hadv := rpmbStep_advances hinv hkeep hstep
  refine ⟨hadv.counter, fun k hne => rpmbBlock_changed hinv hkeep hstep hne, ?_⟩
  rintro f rfl hacc c hc hagain
  obtain ⟨hon, -, -, -, -, hctr⟩ := accepts_iff.mp hacc
  obtain ⟨-, -, -, -, -, hctr'⟩ := accepts_iff.mp hagain
  have hwritten : b.ufs = a.ufs.rpmbWritten f := by
    rcases ioctl_cases sha256 a.ufs (some (.ok f)) with ⟨-, hnot⟩ | ⟨g, hg, -, hreq, -⟩ |
      ⟨g, hg, -, heq⟩
    · exact absurd hacc (hnot f rfl)
    · obtain rfl : f = g := by simpa using hg
      exact absurd (hreq.symm.trans hacc.1) (by decide)
    · obtain rfl : f = g := by simpa using hg
      rw [← some.inj hstep]
      exact heq
  have hlt := rpmbWritten_counter_lt (f := f) hon (hkeep.2 hacc)
  rw [← hwritten, ← hctr, hctr'] at hlt
  exact absurd (reaches_advances hadv.inv hc).2 (UInt32.not_le.mpr hlt)

end

def constSha (_ : List UInt8) : Digest := fun _ => 0

/-- A machine without `/dev/hdd`, so that no slot is ever mapped. -/
def noHdd : OtaParams where
  verity := ⟨fun _ _ _ => 0, fun _ => 0⟩
  disk := ⟨fun _ _ _ => ⟨-eio, fun _ => 0⟩, fun _ _ _ _ => -eio⟩
  hddOnline := false
  hddSectors := 0
  binRootHash := fun _ => 0
  vendorRootHash := fun _ => 0
  binBRootHash := fun _ => 0
  vendorBRootHash := fun _ => 0

def freshMachine : Machine := ⟨dmInit, zeroUfs⟩

def onesFrame (reqResp : UInt16) : RpmbFrame where
  keyMac := fun _ => 0
  data := fun _ => 1
  nonce := fun _ => 0
  writeCounter := 0
  addr := 0
  blockCount := 1
  result := 0
  reqResp := reqResp

def programKey : RpmbOp := .ioctl (some (.ok (onesFrame rpmbReqProgramKey)))

def writeOnes : RpmbOp := .ioctl (some (.ok (onesFrame rpmbReqWriteData)))

def after (ops : List RpmbOp) : Option Machine :=
  run (rpmbStep constSha noHdd fun _ => 0) (reboot (fun _ => 0) freshMachine) ops

theorem zeroUfs_unprogrammed : Unprogrammed zeroUfs := by
  intro hdr hdisk
  have hnone : zeroUfs.diskHdr.isNone = true := by decide +kernel
  rw [hdisk] at hnone
  cases hnone

/-- Programming the key again sets the counter back, and the frame that was accepted before is
accepted again. -/
theorem key_reset_replays : Unprogrammed freshMachine.ufs ∧
    ∃ a b c, after [programKey] = some a ∧ after [programKey, writeOnes] = some b ∧
      after [programKey, writeOnes, programKey] = some c ∧
      Accepts constSha a.ufs (onesFrame rpmbReqWriteData) ∧
      c.ufs.hdr.rpmbWriteCounter < b.ufs.hdr.rpmbWriteCounter ∧
      Accepts constSha c.ufs (onesFrame rpmbReqWriteData) := by
  refine ⟨zeroUfs_unprogrammed, _, _, _, rfl, rfl, rfl, ⟨rfl, ?_⟩, ?_, ⟨rfl, ?_⟩⟩
  · decide +kernel
  · decide +kernel
  · decide +kernel

/-- The first write after the key was programmed is accepted once. -/
theorem first_write_accepted_once : ∃ a b, after [programKey] = some a ∧
    after [programKey, writeOnes] = some b ∧ Accepts constSha a.ufs (onesFrame rpmbReqWriteData) ∧
    ¬ Accepts constSha b.ufs (onesFrame rpmbReqWriteData) := by
  have hkey : KeepsCounter constSha (reboot (fun _ => 0) freshMachine) programKey :=
    ⟨fun _ => by decide +kernel, fun hacc => absurd hacc.1 (by decide)⟩
  refine ⟨_, _, rfl, rfl, ⟨rfl, by decide +kernel⟩, ?_⟩
  have hreach : Reaches (rpmbStep constSha noHdd fun _ => 0) (KeepsCounter constSha)
      (reboot (fun _ => 0) freshMachine) _ := .tail (i := programKey) .refl hkey rfl
  exact (rpmb_replay_protected hreach (show KeepsCounter constSha _ writeOnes from
    ⟨fun hreq => absurd hreq (by decide), fun _ => by decide +kernel⟩) rfl).2.2 _ rfl
    ⟨rfl, by decide +kernel⟩ _ .refl

end Six.Ufs
