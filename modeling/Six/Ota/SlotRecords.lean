import Six.Ota.Rollback

/-! The vbmeta records of the two slots and what leaves their rollback indices alone. -/

namespace Six.Ota

open Lib Dm Ufs Errno UfsState HostFile

variable {u v w : UfsState} {lun : Int} {r : Vbmeta} {lun' : Int} {off : UInt32}

def recordPos (u : UfsState) (lun : Int) : Nat := u.base.toNat + (UfsState.vbmetaOff lun).toNat

theorem lseek_img (u : UfsState) (off : UInt32) : (u.lseek off).img = u.img := rfl

theorem lseek_record_pos (u : UfsState) (lun : Int) :
    (u.lseek (vbmetaOff lun)).pos = recordPos u lun := by
  have hle := (vbmetaOff_bounds lun).2
  exact lseek_pos (by omega)

theorem record_room (u : UfsState) (lun : Int) : recordPos u lun + vbmetaSize ≤ u.img.limit := by
  have hle := (vbmetaOff_bounds lun).2
  have hroom := u.room
  unfold recordPos
  omega

theorem read_ok_iff : (u.ufsReadBootVbmeta lun).1 = .ok r ↔ (lun = 1 ∨ lun = 2) ∧
    u.online = true ∧ u.img.readCount (recordPos u lun) vbmetaSize = vbmetaSize ∧
    Vbmeta.codec.dec (u.img.bytes (recordPos u lun) vbmetaSize) = r := by
  unfold ufsReadBootVbmeta
  by_cases hlun : lun ≠ 1 ∧ lun ≠ 2
  · rw [if_pos hlun]
    refine iff_of_false (by simp) fun h => ?_
    rcases h.1 with rfl | rfl
    · exact hlun.1 rfl
    · exact hlun.2 rfl
  · rw [if_neg hlun]
    have hlun' : lun = 1 ∨ lun = 2 := by omega
    by_cases hon : u.online = true
    · rw [if_neg (by simp [hon])]
      dsimp only [UfsState.read]
      rw [lseek_record_pos, length_bytes, lseek_img]
      by_cases hcount : u.img.readCount (recordPos u lun) vbmetaSize = vbmetaSize
      · rw [if_neg (not_not_intro hcount)]
        rw [hcount, Except.ok.injEq]
        exact ⟨fun h => ⟨hlun', hon, rfl, h⟩, fun h => h.2.2.2⟩
      · rw [if_pos hcount]
        exact iff_of_false (by simp) fun h => hcount h.2.2.1
    · rw [if_pos (by simpa using hon)]
      exact iff_of_false (by simp) fun h => hon h.2.1

theorem slotIndex_of_read (h : (u.ufsReadBootVbmeta lun).1 = .ok r) (hmagic : r.magic = avbMagic) :
    slotIndex u lun = r.rollbackIndex.toNat := by
  unfold slotIndex
  rw [h, validVbmeta, if_pos hmagic]

theorem slotIndex_le_iff : slotIndex u lun ≤ n ↔ ∀ r,
    (u.ufsReadBootVbmeta lun).1 = .ok r → r.magic = avbMagic → r.rollbackIndex.toNat ≤ n := by
  constructor
  · intro h r hr hmagic
    rwa [slotIndex_of_read hr hmagic] at h
  · intro h
    unfold slotIndex validVbmeta
    cases hr : (u.ufsReadBootVbmeta lun).1 with
    | error e => exact Nat.zero_le n
    | ok r =>
      dsimp only
      by_cases hmagic : r.magic = avbMagic
      · rw [if_pos hmagic]
        exact h r hr hmagic
      · rw [if_neg hmagic]
        exact Nat.zero_le n

structure GrowsAt (lun : Int) (u v : UfsState) : Prop where
  online : v.online = u.online
  base : v.base = u.base
  index : slotIndex u lun ≤ slotIndex v lun

theorem GrowsAt.refl (lun : Int) (u : UfsState) : GrowsAt lun u u := ⟨rfl, rfl, le_refl _⟩

theorem GrowsAt.trans (h1 : GrowsAt lun u v) (h2 : GrowsAt lun v w) : GrowsAt lun u w :=
  ⟨h2.online.trans h1.online, h2.base.trans h1.base, h1.index.trans h2.index⟩

structure SameRecords (u v : UfsState) : Prop where
  online : v.online = u.online
  base : v.base = u.base
  size : u.img.size ≤ v.img.size
  bytes : ∀ lun, ∀ i < vbmetaSize,
    v.img.byte (recordPos u lun + i) = u.img.byte (recordPos u lun + i)

theorem SameRecords.trans (h1 : SameRecords u v) (h2 : SameRecords v w) : SameRecords u w where
  online := h2.online.trans h1.online
  base := h2.base.trans h1.base
  size := h1.size.trans h2.size
  bytes := by
    intro lun i hi
    have hpos : recordPos v lun = recordPos u lun := by rw [recordPos, h1.base, recordPos]
    have hv := h2.bytes lun i hi
    rw [hpos] at hv
    rw [hv, h1.bytes lun i hi]

theorem sameRecords_of_img (honline : v.online = u.online) (hbase : v.base = u.base)
    (himg : v.img = u.img) : SameRecords u v :=
  ⟨honline, hbase, by rw [himg], fun _ _ _ => by rw [himg]⟩

theorem SameRecords.refl (u : UfsState) : SameRecords u u := sameRecords_of_img rfl rfl rfl

theorem read_of_bytes (honline : v.online = u.online) (hbase : v.base = u.base)
    (hsize : u.img.size ≤ v.img.size) (hbytes : ∀ i < vbmetaSize,
      v.img.byte (recordPos u lun + i) = u.img.byte (recordPos u lun + i))
    (hread : (u.ufsReadBootVbmeta lun).1 = .ok r) : (v.ufsReadBootVbmeta lun).1 = .ok r := by
  have hpos : recordPos v lun = recordPos u lun := by rw [recordPos, hbase, recordPos]
  obtain ⟨hlun, hon, hcount, hdec⟩ := read_ok_iff.mp hread
  refine read_ok_iff.mpr ⟨hlun, honline.trans hon, ?_, ?_⟩
  · rw [hpos]
    unfold readCount at hcount ⊢
    omega
  · rw [hpos, bytes_congr hbytes, hdec]

theorem growsAt_of_bytes (honline : v.online = u.online) (hbase : v.base = u.base)
    (hsize : u.img.size ≤ v.img.size) (hbytes : ∀ i < vbmetaSize,
      v.img.byte (recordPos u lun + i) = u.img.byte (recordPos u lun + i)) : GrowsAt lun u v := by
  refine ⟨honline, hbase, slotIndex_le_iff.mpr fun r hr hmagic => ?_⟩
  rw [slotIndex_of_read (read_of_bytes honline hbase hsize hbytes hr) hmagic]

theorem SameRecords.growsAt (h : SameRecords u v) (lun : Int) : GrowsAt lun u v :=
  growsAt_of_bytes h.online h.base h.size (h.bytes lun)

theorem sameRecords_writeList (bs : List UInt8) (hhi : off.toNat ≤ ufsImgTotalBytes.toNat)
    (hout : ∀ lun, off.toNat + bs.length ≤ (vbmetaOff lun).toNat ∨
      (vbmetaOff lun).toNat + vbmetaSize ≤ off.toNat) :
    SameRecords u ((u.lseek off).writeList bs).2 := by
  refine ⟨rfl, rfl, HostFile.size_le_write, fun lun i hi => ?_⟩
  have hlun := hout lun
  rw [writeList_img, lseek_pos hhi]
  refine write_byte_outside ?_
  unfold recordPos
  omega

theorem sameRecords_save (u : UfsState) : SameRecords u u.ufsSavePersistHdr := by
  by_cases hon : u.online = true
  · refine ⟨?_, save_base hon, ?_, fun lun i _ => save_byte ?_⟩
    · rw [save_online hon, hon]
    · rw [save_img hon]
      exact HostFile.size_le_write
    · have hhdr : persistHdrSize ≤ (vbmetaOff lun).toNat :=
        le_trans (by decide) (vbmetaOff_bounds lun).1
      unfold recordPos
      omega
  · rw [ufsSavePersistHdr, if_pos (by simpa using hon)]
    exact .refl u

theorem sameRecords_save_of (honline : v.online = u.online) (hbase : v.base = u.base)
    (himg : v.img = u.img) : SameRecords u v.ufsSavePersistHdr :=
  (sameRecords_of_img honline hbase himg).trans (sameRecords_save v)

theorem sameRecords_fetch (u : UfsState) (off : UInt32) (n : Nat) :
    SameRecords u ((u.lseek off).read n).2 :=
  sameRecords_of_img rfl rfl rfl

theorem sameRecords_read (u : UfsState) (lun : Int) :
    SameRecords u (u.ufsReadBootVbmeta lun).2 := by
  unfold ufsReadBootVbmeta
  split
  · exact .refl u
  · split
    · exact .refl u
    · exact sameRecords_fetch u (vbmetaOff lun) vbmetaSize

theorem sameRecords_setActive (u : UfsState) (lun : Int) :
    SameRecords u (u.ufsSetActiveBootLun lun).2 := by
  unfold ufsSetActiveBootLun
  split
  · exact .refl u
  · split
    · exact .refl u
    · exact sameRecords_save_of rfl rfl rfl

theorem sameRecords_ensureBootHeader (text : String)
    (hoff : off = ufsImgBootAOffset ∨ off = ufsImgBootBOffset) :
    SameRecords u (u.ensureBootHeader off text) := by
  unfold ensureBootHeader
  have hread := sameRecords_fetch u off 512
  dsimp only
  split
  · refine hread.trans (sameRecords_writeList _ ?_ fun lun => ?_)
    · rcases hoff with rfl | rfl <;> decide
    · rw [(Codec.array 512).length_enc]
      unfold vbmetaOff
      rcases hoff with rfl | rfl <;> split <;> decide
  · exact hread

theorem sameRecords_ufsInit (binSha256 : Digest) (u : UfsState) :
    SameRecords u (ufsInit binSha256 u) := by
  have hpower : SameRecords u (u.powerOn binSha256) := sameRecords_of_img rfl rfl rfl
  refine hpower.trans ?_
  unfold ufsInit ufsLoadOrInitPersistHdr
  split
  · exact .refl _
  · dsimp only
    refine .trans ?_ (sameRecords_ensureBootHeader _ (.inr rfl))
    refine .trans ?_ (sameRecords_ensureBootHeader _ (.inl rfl))
    split
    · exact sameRecords_save_of rfl rfl rfl
    · exact sameRecords_save_of rfl rfl rfl

theorem sameRecords_rpmbStore (h : f.addr < ufsRpmbTotalBlocks) :
    SameRecords u (u.rpmbStore f).2 := by
  have hoff := rpmbOff_toNat h
  have hblock := (rpmbStore_pos (u := u) h).2
  have hend : ufsImgBootAOffset.toNat ≤ ufsImgTotalBytes.toNat := by decide
  refine sameRecords_writeList _ (by omega) fun lun => .inl ?_
  have hboot := (vbmetaOff_bounds lun).1
  have hlen : ((Codec.array 256).enc f.data).length = ufsRpmbBlockSize :=
    (Codec.array 256).length_enc _
  omega

variable (sha256 : List UInt8 → Digest)

theorem sameRecords_rpmbWriteData (u : UfsState) (f : RpmbFrame) :
    SameRecords u (rpmbWriteData sha256 u f).2 := by
  unfold rpmbWriteData
  split
  · exact .refl u
  · split
    · exact .refl u
    · rename_i haddr
      have hstore : SameRecords u (u.rpmbStore f).2 :=
        sameRecords_rpmbStore (UInt16.not_le.mp haddr)
      split
      · exact sameRecords_of_img rfl rfl rfl
      · split
        · exact sameRecords_of_img rfl rfl rfl
        · split
          · exact hstore
          · exact hstore.trans (sameRecords_save_of (v := u.rpmbCounted f) rfl rfl rfl)

theorem sameRecords_ioctl (u : UfsState)
    (arg : Option (Except Int RpmbFrame)) :
    SameRecords u (ufsHandleRpmbIoctl sha256 u arg).2.2 := by
  unfold ufsHandleRpmbIoctl
  split
  · exact .refl u
  · split
    · exact .refl u
    · split
      · exact .refl u
      · rename_i f
        unfold rpmbRequest
        split
        · exact sameRecords_save_of (v := u.rpmbKeyed f) rfl rfl rfl
        · split
          · exact .refl u
          · split
            · exact sameRecords_rpmbWriteData sha256 u f
            · split
              · unfold rpmbReadData
                dsimp only
                split
                · exact .refl u
                · split <;> exact sameRecords_of_img rfl rfl rfl
              · exact .refl u

theorem sameRecords_rpmbCounterForWrite (u : UfsState) :
    SameRecords u (rpmbCounterForWrite sha256 u).2 := by
  have hget : ∀ v, SameRecords v (rpmbGetCounterCmd sha256 v).2 := fun v =>
    sameRecords_ioctl sha256 v _
  unfold rpmbCounterForWrite
  dsimp only
  split
  · split
    · exact (hget u).trans ((sameRecords_ioctl sha256 _ _).trans (hget _))
    · exact hget u
  · exact hget u

theorem sameRecords_rpmbRecordRollback (index : UInt64)
    (buildId : List UInt8) (u : UfsState) :
    SameRecords u (rpmbRecordRollback sha256 index buildId u).2 := by
  have hcounter := sameRecords_rpmbCounterForWrite sha256 u
  unfold rpmbRecordRollback
  dsimp only
  split
  · exact hcounter
  · exact hcounter.trans (sameRecords_ioctl sha256 _ _)

theorem rpmbRecordRollback_offline {sha256 : List UInt8 → Digest} {index : UInt64}
    {buildId : List UInt8} (h : u.online = false) :
    (rpmbRecordRollback sha256 index buildId u).1 = false := by
  have hioctl : ∀ f, ufsHandleRpmbIoctl sha256 u (some (.ok f)) = (-enodev, none, u) := by
    intro f
    unfold ufsHandleRpmbIoctl
    dsimp only
    rw [if_pos (by simp [h])]
  have hget : rpmbGetCounterCmd sha256 u = (.error (-1), u) := by
    unfold rpmbGetCounterCmd
    rw [hioctl]
    rfl
  unfold rpmbRecordRollback rpmbCounterForWrite
  rw [hget]
  rfl

theorem writeList_count (u : UfsState) (bs : List UInt8) :
    (u.writeList bs).1 = u.img.writeCount u.pos bs.length := rfl

theorem writeList_online (u : UfsState) (off : UInt32) (bs : List UInt8) :
    ((u.lseek off).writeList bs).2.online = u.online := rfl

theorem writeList_base (u : UfsState) (off : UInt32) (bs : List UInt8) :
    ((u.lseek off).writeList bs).2.base = u.base := rfl

theorem write_eq (hlun : lun = 1 ∨ lun = 2) (hon : u.online = true) :
    u.ufsWriteBootVbmeta lun r =
      (0, ((u.lseek (vbmetaOff lun)).writeList (Vbmeta.codec.enc r)).2) := by
  have hroom := record_room u lun
  have hcount : ((u.lseek (vbmetaOff lun)).writeList (Vbmeta.codec.enc r)).1 =
      vbmetaSize := by
    rw [writeList_count, lseek_record_pos, lseek_img, Vbmeta.length_enc, writeCount_of_le hroom]
  unfold ufsWriteBootVbmeta
  rw [if_neg (by omega), if_neg (by simp [hon])]
  dsimp only
  rw [if_neg (not_not_intro hcount)]

theorem write_offline (h : u.online = false) : (u.ufsWriteBootVbmeta lun r).2 = u := by
  unfold ufsWriteBootVbmeta
  split
  · rfl
  · rw [if_pos (by simp [h])]

theorem write_img (u : UfsState) (lun : Int) (r : Vbmeta) :
    ((u.lseek (vbmetaOff lun)).writeList (Vbmeta.codec.enc r)).2.img =
      u.img.write (recordPos u lun) (Vbmeta.codec.enc r).length
        fun i => (Vbmeta.codec.enc r).getD i 0 := by
  rw [writeList_img, lseek_record_pos, lseek_img]

section

variable (hlun : lun = 1 ∨ lun = 2)
include hlun

theorem read_of_img (hon : v.online = true) (hbase : v.base = u.base)
    (himg : v.img = u.img.write (recordPos u lun) (Vbmeta.codec.enc r).length
      fun i => (Vbmeta.codec.enc r).getD i 0) : (v.ufsReadBootVbmeta lun).1 = .ok r := by
  have hlen := Vbmeta.length_enc r
  have hroom := record_room u lun
  have hpos : recordPos v lun = recordPos u lun := by rw [recordPos, hbase, recordPos]
  refine read_ok_iff.mpr ⟨hlun, hon, ?_, ?_⟩
  · rw [hpos, himg, hlen]
    exact readCount_write hroom
  · rw [hpos, himg, ← hlen, bytes_write _ (by rwa [hlen])]
    have hdec := Vbmeta.codec.dec_enc r []
    rwa [List.append_nil] at hdec

theorem read_write (hon : u.online = true) :
    ((u.ufsWriteBootVbmeta lun r).2.ufsReadBootVbmeta lun).1 = .ok r := by
  rw [write_eq hlun hon]
  refine read_of_img hlun ?_ (writeList_base u _ _) (write_img u lun r)
  rw [writeList_online, hon]

theorem records_apart (hlun' : lun' = 1 ∨ lun' = 2) (hne : lun' ≠ lun) :
    (vbmetaOff lun').toNat + vbmetaSize ≤ (vbmetaOff lun).toNat ∨
      (vbmetaOff lun).toNat + vbmetaSize ≤ (vbmetaOff lun').toNat := by
  rcases hlun with rfl | rfl <;> rcases hlun' with rfl | rfl
  · exact absurd rfl hne
  · exact .inr (by decide)
  · exact .inl (by decide)
  · exact absurd rfl hne

theorem growsAt_of_write (hne : lun' ≠ lun)
    (honline : v.online = u.online) (hbase : v.base = u.base)
    (himg : v.img = u.img.write (recordPos u lun) (Vbmeta.codec.enc r).length
      fun i => (Vbmeta.codec.enc r).getD i 0) : GrowsAt lun' u v := by
  by_cases hlun' : lun' = 1 ∨ lun' = 2
  · have hapart := records_apart hlun hlun' hne
    refine growsAt_of_bytes honline hbase ?_ fun i hi => ?_
    · rw [himg]
      exact HostFile.size_le_write
    · rw [himg]
      refine write_byte_outside ?_
      rw [Vbmeta.length_enc]
      unfold recordPos
      omega
  · refine ⟨honline, hbase, slotIndex_le_iff.mpr fun r hr _ => ?_⟩
    exact absurd (read_ok_iff.mp hr).1 hlun'

theorem write_growsAt_other (hne : lun' ≠ lun) : GrowsAt lun' u (u.ufsWriteBootVbmeta lun r).2 := by
  cases hon : u.online with
  | true =>
    rw [write_eq hlun hon]
    exact growsAt_of_write hlun hne (writeList_online u _ _) (writeList_base u _ _)
      (write_img u lun r)
  | false =>
    rw [write_offline hon]
    exact .refl lun' u

end

theorem slotIndex_write (hlun : lun = 1 ∨ lun = 2) (hon : u.online = true)
    (hmagic : r.magic = avbMagic) :
    slotIndex (u.ufsWriteBootVbmeta lun r).2 lun = r.rollbackIndex.toNat :=
  slotIndex_of_read (read_write hlun hon) hmagic

theorem write_growsAt (hlun : lun = 1 ∨ lun = 2) (hmagic : r.magic = avbMagic)
    (hle : slotIndex u lun ≤ r.rollbackIndex.toNat) (lun' : Int) :
    GrowsAt lun' u (u.ufsWriteBootVbmeta lun r).2 := by
  by_cases hne : lun' = lun
  · subst hne
    cases hon : u.online with
    | true =>
      have hkept := kept_ufsWriteBootVbmeta u lun' r
      refine ⟨hkept.online, hkept.base, ?_⟩
      rwa [slotIndex_write hlun hon hmagic]
    | false =>
      rw [write_offline hon]
      exact .refl lun' u
  · exact write_growsAt_other hlun hne

/-- The three changes of `dm_activate_ota_slot` keep the magic and the index. -/
def KeepsIndex (f : Vbmeta → Vbmeta) : Prop :=
  ∀ v, (f v).magic = v.magic ∧ (f v).rollbackIndex = v.rollbackIndex

theorem updateVbmeta_growsAt (hf : KeepsIndex f) (u : UfsState)
    (lun lun' : Int) : GrowsAt lun' u (updateVbmeta u lun f) := by
  have hread := sameRecords_read u lun
  unfold updateVbmeta
  dsimp only
  cases hr : (u.ufsReadBootVbmeta lun).1 with
  | error e => exact hread.growsAt lun'
  | ok r =>
    unfold validVbmeta
    dsimp only
    by_cases hm : r.magic = avbMagic
    · rw [if_pos hm]
      refine (hread.growsAt lun').trans ?_
      have hr' := read_of_bytes hread.online hread.base hread.size (hread.bytes lun) hr
      refine write_growsAt (read_ok_iff.mp hr).1 ((hf r).1.trans hm) ?_ lun'
      rw [slotIndex_of_read hr' hm, (hf r).2]
    · rw [if_neg hm]
      exact hread.growsAt lun'

theorem recordSlot_growsAt (slot : Int) (m : Machine) (lun : Int) :
    GrowsAt lun m.ufs (recordSlot slot m).ufs := by
  have hasked :=
    updateVbmeta_growsAt (f := activated) (fun _ => ⟨rfl, rfl⟩) m.ufs (bootLun slot) lun
  have hother := hasked.trans
    (updateVbmeta_growsAt (f := deactivated) (fun _ => ⟨rfl, rfl⟩) _ (otherLun slot) lun)
  exact hother.trans ((sameRecords_setActive _ (bootLun slot)).growsAt lun)

theorem rollbackToA_growsAt (u : UfsState) (lun : Int) : GrowsAt lun u (rollbackToA u) :=
  (updateVbmeta_growsAt (f := rejected) (fun _ => ⟨rfl, rfl⟩) u 2 lun).trans
    ((sameRecords_setActive _ 1).growsAt lun)

theorem trySlot_growsAt (p : OtaParams) (slot : Int) (m : Machine) (lun : Int) :
    GrowsAt lun m.ufs (trySlot p slot m).2.ufs := by
  have hread := (sameRecords_read m.ufs (bootLun slot)).growsAt lun
  unfold trySlot
  dsimp only
  split
  · exact hread
  · split
    · exact hread
    · exact hread

theorem dmActivateOtaSlot_growsAt (hon : p.hddOnline = true)
    (hab : hasAbSuper p = true) (slotB : Bool) (m : Machine) (lun : Int) :
    GrowsAt lun (seeded p m).ufs (dmActivateOtaSlot p (slotNo slotB) m).2.ufs := by
  cases slotB with
  | false =>
    have hfirst := trySlot_growsAt p 0 (seeded p m) lun
    rw [slotNo, if_neg Bool.false_ne_true, dmActivateOtaSlot_eq hon hab (by decide)]
    split
    · exact hfirst.trans (recordSlot_growsAt 0 _ lun)
    · exact hfirst
  | true =>
    have hfirst := trySlot_growsAt p 1 (seeded p m) lun
    rw [slotNo, if_pos rfl, dmActivateOtaSlot_b_eq hon hab]
    split
    · exact hfirst.trans (recordSlot_growsAt 1 _ lun)
    · have hback : GrowsAt lun (seeded p m).ufs (rolledBack p m).ufs :=
        hfirst.trans (rollbackToA_growsAt _ lun)
      have hsecond := hback.trans (trySlot_growsAt p 0 (rolledBack p m) lun)
      split
      · exact hsecond.trans (recordSlot_growsAt 0 _ lun)
      · exact hsecond

theorem dmActivateOtaSlot_ufs (slot : Int) (m : Machine)
    (h : ¬ (p.hddOnline = true ∧ hasAbSuper p = true)) :
    (dmActivateOtaSlot p slot m).2.ufs = m.ufs := by
  unfold dmActivateOtaSlot
  split
  · rfl
  · rename_i hon
    have hab : p.hddSectors < verityVendorBHashSector + 2048 := by
      simpa [hasAbSuper] using fun hab => h ⟨by simpa using hon, hab⟩
    rw [if_pos hab]
    split <;> rfl

variable {p : OtaParams}

def seedSlotB (p : OtaParams) (reseed : Bool) (u : UfsState) : UfsState :=
  let b := u.ufsReadBootVbmeta 2
  match b.1 with
  | .error _ => b.2
  | .ok vbmB =>
    if reseed ∨ vbmB.magic ≠ avbMagic then (b.2.ufsWriteBootVbmeta 2 (seedVbmetaB p)).2 else b.2

/-- The part of `dm_seed_ufs_vbmeta_if_needed` for slot a, when its record is written. -/
def seedSlotA (p : OtaParams) (u : UfsState) : UfsState :=
  (((u.ufsReadBootVbmeta 1).2.ufsWriteBootVbmeta 1 (seedVbmetaA p)).2.ufsSetActiveBootLun 1).2

theorem seed_of_reseeds (h : reseeds p u = true) :
    dmSeedUfsVbmetaIfNeeded p u = seedSlotB p true (seedSlotA p u) := by
  unfold reseeds at h
  unfold dmSeedUfsVbmetaIfNeeded
  dsimp only
  cases hr : (u.ufsReadBootVbmeta 1).1 with
  | error e => rw [hr] at h; exact absurd h Bool.false_ne_true
  | ok vbmA =>
    rw [hr] at h
    dsimp only at h ⊢
    rw [h]
    rfl

theorem seed_of_not_reseeds (h : reseeds p u = false) :
    dmSeedUfsVbmetaIfNeeded p u = (u.ufsReadBootVbmeta 1).2 ∨
      dmSeedUfsVbmetaIfNeeded p u = seedSlotB p false (u.ufsReadBootVbmeta 1).2 := by
  unfold reseeds at h
  unfold dmSeedUfsVbmetaIfNeeded
  dsimp only
  cases hr : (u.ufsReadBootVbmeta 1).1 with
  | error e => exact .inl rfl
  | ok vbmA =>
    rw [hr] at h
    dsimp only at h ⊢
    rw [h]
    exact .inr rfl

theorem seedSlotB_growsAt (h : reseed = true → lun ≠ 2) : GrowsAt lun u (seedSlotB p reseed u) := by
  have hread := sameRecords_read u 2
  unfold seedSlotB
  dsimp only
  cases hr : (u.ufsReadBootVbmeta 2).1 with
  | error e => exact hread.growsAt lun
  | ok vbmB =>
    dsimp only
    split
    · rename_i hwrite
      refine (hread.growsAt lun).trans ?_
      by_cases hlun : lun = 2
      · subst hlun
        -- the record that is overwritten has no index
        have hbad : vbmB.magic ≠ avbMagic := hwrite.resolve_left fun hre => h hre rfl
        have hr' := read_of_bytes hread.online hread.base hread.size (hread.bytes 2) hr
        refine write_growsAt (.inr rfl) rfl (slotIndex_le_iff.mpr ?_) 2
        intro r hr2 hmagic
        rw [hr'] at hr2
        obtain rfl := Except.ok.inj hr2
        exact absurd hmagic hbad
      · exact write_growsAt_other (.inr rfl) hlun
    · exact hread.growsAt lun

theorem seed_growsAt (h : reseeds p u = false) (lun : Int) :
    GrowsAt lun u (dmSeedUfsVbmetaIfNeeded p u) := by
  have hread := (sameRecords_read u 1).growsAt lun
  rcases seed_of_not_reseeds h with heq | heq
  · rwa [heq]
  · rw [heq]
    exact hread.trans (seedSlotB_growsAt fun hre => absurd hre Bool.false_ne_true)

theorem online_of_reseeds (h : reseeds p u = true) : u.online = true := by
  unfold reseeds at h
  cases hr : (u.ufsReadBootVbmeta 1).1 with
  | error e => rw [hr] at h; exact absurd h Bool.false_ne_true
  | ok vbmA => exact (read_ok_iff.mp hr).2.1

theorem one_le_slotIndex_seed (h : reseeds p u = true) :
    1 ≤ slotIndex (dmSeedUfsVbmetaIfNeeded p u) 1 := by
  have hon : (u.ufsReadBootVbmeta 1).2.online = true := by
    rw [(sameRecords_read u 1).online, online_of_reseeds h]
  have hwrite : slotIndex ((u.ufsReadBootVbmeta 1).2.ufsWriteBootVbmeta 1 (seedVbmetaA p)).2 1 =
      1 := by
    rw [slotIndex_write (.inl rfl) hon rfl]
    rfl
  have hactive := ((sameRecords_setActive
    ((u.ufsReadBootVbmeta 1).2.ufsWriteBootVbmeta 1 (seedVbmetaA p)).2 1).growsAt 1).index
  have hb : GrowsAt 1 (seedSlotA p u) (seedSlotB p true (seedSlotA p u)) :=
    seedSlotB_growsAt fun _ => by decide
  rw [seed_of_reseeds h]
  calc 1 = slotIndex ((u.ufsReadBootVbmeta 1).2.ufsWriteBootVbmeta 1 (seedVbmetaA p)).2 1 :=
        hwrite.symm
    _ ≤ slotIndex (seedSlotA p u) 1 := hactive
    _ ≤ slotIndex (seedSlotB p true (seedSlotA p u)) 1 := hb.index

end Six.Ota
