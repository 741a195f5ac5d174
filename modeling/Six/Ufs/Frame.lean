import Six.Ufs.Isolation
import Six.Ufs.Rpmb

/-! The header on the disk, and what leaves the RPMB alone. -/

namespace Six.Ufs

open Lib Errno Dm HostFile

namespace UfsState

variable {u v w : UfsState} {off : UInt32}

theorem lseek_pos (h : off.toNat ≤ ufsImgTotalBytes.toNat) :
    (u.lseek off).pos = u.base.toNat + off.toNat := by
  have hroom := u.room
  have hlimit := u.img.limit_lt
  have hsum : (u.base + off).toNat = u.base.toNat + off.toNat := by
    rw [UInt32.toNat_add, Nat.mod_eq_of_lt (by omega)]
  rw [lseek, seek_of_lt (by omega), hsum]

theorem lseek_hdr_pos : (u.lseek ufsImgHdrOffset).pos = u.base.toNat := lseek_pos (by decide)

theorem diskHdr_eq_some : u.diskHdr = some h ↔
    u.img.readCount u.base.toNat persistHdrSize = persistHdrSize ∧
      PersistHdr.codec.dec (u.img.bytes u.base.toNat persistHdrSize) = h ∧
      h.magic = ufsHdrMagic := by
  unfold diskHdr read
  rw [lseek_hdr_pos]
  simp only [length_bytes, Option.ite_none_right_eq_some, Option.some.injEq]
  constructor
  · rintro ⟨⟨hcount, hmagic⟩, rfl⟩
    rw [show (u.lseek ufsImgHdrOffset).img.readCount u.base.toNat persistHdrSize =
      persistHdrSize from hcount] at hmagic ⊢
    exact ⟨hcount, rfl, hmagic⟩
  · rintro ⟨hcount, rfl, hmagic⟩
    rw [show (u.lseek ufsImgHdrOffset).img.readCount u.base.toNat persistHdrSize =
      persistHdrSize from hcount]
    exact ⟨⟨rfl, hmagic⟩, rfl⟩

theorem diskHdr_of_bytes (hu : u.diskHdr = some h) (hbase : v.base = u.base)
    (hsize : u.img.size ≤ v.img.size)
    (hbyte : ∀ i < persistHdrSize, v.img.byte (u.base.toNat + i) = u.img.byte (u.base.toNat + i)) :
    v.diskHdr = some h := by
  rw [diskHdr_eq_some] at hu ⊢
  obtain ⟨hcount, hdec, hmagic⟩ := hu
  refine ⟨?_, ?_, hmagic⟩
  · unfold readCount at hcount ⊢
    rw [hbase]
    omega
  · rw [hbase, bytes_congr hbyte, hdec]

theorem diskHdr_congr (hbase : v.base = u.base) (himg : v.img = u.img) : v.diskHdr = u.diskHdr := by
  refine Option.ext fun h => ?_
  rw [diskHdr_eq_some, diskHdr_eq_some, hbase, himg]

theorem diskHdr_of_write {f : HostFile} (hmagic : h.magic = ufsHdrMagic)
    (hroom : u.base.toNat + persistHdrSize ≤ f.limit)
    (himg : u.img = f.write u.base.toNat (PersistHdr.codec.enc h).length
      fun i => (PersistHdr.codec.enc h).getD i 0) : u.diskHdr = some h := by
  have hlen := PersistHdr.length_enc h
  rw [diskHdr_eq_some, himg, ← hlen]
  refine ⟨readCount_write (by omega), ?_, hmagic⟩
  rw [bytes_write _ (by omega)]
  have hdec := PersistHdr.codec.dec_enc h []
  rwa [List.append_nil] at hdec

def Synced (u : UfsState) : Prop :=
  ∃ h, u.diskHdr = some h ∧ u.hdr.rpmbWriteCounter ≤ h.rpmbWriteCounter

theorem writeList_img (u : UfsState) (bs : List UInt8) : (u.writeList bs).2.img =
    u.img.write u.pos bs.length fun i => bs.getD i 0 := rfl

section

variable (h : u.online = true)
include h

theorem save_eq : u.ufsSavePersistHdr =
    (({ u with hdr := u.hdr.withMagic }.lseek ufsImgHdrOffset).writeList
      (PersistHdr.codec.enc u.hdr.withMagic)).2 := by
  unfold ufsSavePersistHdr
  rw [if_neg (by simp [h])]

theorem save_online : u.ufsSavePersistHdr.online = true := by
  rw [save_eq h]
  exact h

theorem save_base : u.ufsSavePersistHdr.base = u.base := by
  rw [save_eq h]
  rfl

theorem save_hdr : u.ufsSavePersistHdr.hdr = u.hdr.withMagic := by
  rw [save_eq h]
  rfl

theorem save_img : u.ufsSavePersistHdr.img = u.img.write u.base.toNat
    (PersistHdr.codec.enc u.hdr.withMagic).length
    fun i => (PersistHdr.codec.enc u.hdr.withMagic).getD i 0 := by
  rw [save_eq h, writeList_img, lseek_hdr_pos]
  rfl

theorem diskHdr_save : u.ufsSavePersistHdr.diskHdr = some u.hdr.withMagic := by
  have hroom := u.room
  have hsize : persistHdrSize ≤ ufsImgTotalBytes.toNat := by decide
  have hbase := save_base h
  refine diskHdr_of_write rfl (f := u.img) ?_ ?_
  · rw [hbase]
    omega
  · rw [hbase, save_img h]

theorem save_synced : u.ufsSavePersistHdr.Synced := by
  refine ⟨_, diskHdr_save h, ?_⟩
  rw [save_hdr h]
  exact UInt32.le_refl _

end

/-- The counter, the key and the blocks of the RPMB are the same in `v` as in `u`, and the counter
on the disk has not fallen behind. -/
structure Kept (u v : UfsState) : Prop where
  online : v.online = u.online
  base : v.base = u.base
  keySet : v.hdr.rpmbKeySet = u.hdr.rpmbKeySet
  counter : v.hdr.rpmbWriteCounter = u.hdr.rpmbWriteCounter
  key : v.hdr.rpmbKey = u.hdr.rpmbKey
  area : ∀ x, u.InRpmb x → v.img.byte x = u.img.byte x
  synced : u.Synced → v.Synced

theorem Kept.refl (u : UfsState) : Kept u u := ⟨rfl, rfl, rfl, rfl, rfl, fun _ _ => rfl, id⟩

theorem Kept.trans (h1 : Kept u v) (h2 : Kept v w) : Kept u w where
  online := h2.online.trans h1.online
  base := h2.base.trans h1.base
  keySet := h2.keySet.trans h1.keySet
  counter := h2.counter.trans h1.counter
  key := h2.key.trans h1.key
  area := by
    intro x hx
    have hx' : v.InRpmb x := by
      unfold InRpmb at hx ⊢
      rwa [h1.base]
    rw [h2.area x hx', h1.area x hx]
  synced := fun h => h2.synced (h1.synced h)

theorem kept_of_eq (honline : v.online = u.online) (hbase : v.base = u.base) (himg : v.img = u.img)
    (hhdr : v.hdr = u.hdr) : Kept u v := by
  refine ⟨honline, hbase, by rw [hhdr], by rw [hhdr], by rw [hhdr], fun _ _ => by rw [himg], ?_⟩
  rintro ⟨h, hdisk, hle⟩
  refine ⟨h, diskHdr_of_bytes hdisk hbase (by rw [himg]) fun _ _ => by rw [himg], ?_⟩
  rwa [hhdr]

theorem kept_lseek (u : UfsState) (off : UInt32) : Kept u (u.lseek off) :=
  kept_of_eq rfl rfl rfl rfl

theorem kept_read (u : UfsState) (n : Nat) : Kept u (u.read n).2 := kept_of_eq rfl rfl rfl rfl

theorem kept_writeList (bs : List UInt8) (hlo : ufsImgBootAOffset.toNat ≤ off.toNat)
    (hhi : off.toNat ≤ ufsImgTotalBytes.toNat) : Kept u ((u.lseek off).writeList bs).2 := by
  have hbyte : ∀ x < u.base.toNat + ufsImgBootAOffset.toNat,
      ((u.lseek off).writeList bs).2.img.byte x = u.img.byte x := by
    intro x hx
    rw [writeList_img, lseek_pos hhi, write_byte_outside (.inl (by omega))]
    rfl
  have hhdr : persistHdrSize ≤ ufsImgBootAOffset.toNat := by decide
  refine ⟨rfl, rfl, rfl, rfl, rfl, fun x hx => hbyte x hx.2, ?_⟩
  rintro ⟨h, hdisk, hle⟩
  refine ⟨h, diskHdr_of_bytes hdisk rfl HostFile.size_le_write fun i hi => hbyte _ ?_, hle⟩
  omega

theorem save_byte (hx : u.base.toNat + persistHdrSize ≤ x) :
    u.ufsSavePersistHdr.img.byte x = u.img.byte x := by
  by_cases h : u.online = true
  · rw [save_img h]
    refine write_byte_outside (.inr ?_)
    rwa [PersistHdr.length_enc]
  · rw [ufsSavePersistHdr, if_pos (by simpa using h)]

theorem kept_save (honline : v.online = u.online) (hbase : v.base = u.base)
    (himg : v.img = u.img) (hkeySet : v.hdr.rpmbKeySet = u.hdr.rpmbKeySet)
    (hcounter : v.hdr.rpmbWriteCounter = u.hdr.rpmbWriteCounter)
    (hkey : v.hdr.rpmbKey = u.hdr.rpmbKey) (hon : u.online = true) :
    Kept u v.ufsSavePersistHdr := by
  have hv := honline.trans hon
  refine ⟨?_, (save_base hv).trans hbase, ?_, ?_, ?_, fun x hx => ?_, fun _ => save_synced hv⟩
  · rw [save_online hv, hon]
  · rw [save_hdr hv]
    exact hkeySet
  · rw [save_hdr hv]
    exact hcounter
  · rw [save_hdr hv]
    exact hkey
  · have hhdr : persistHdrSize ≤ ufsImgRpmbOffset.toNat := by decide
    have hlo := hx.1
    rw [save_byte (by rw [hbase]; omega), himg]

theorem kept_ufsSetActiveBootLun (u : UfsState) (lun : Int) :
    Kept u (u.ufsSetActiveBootLun lun).2 := by
  unfold ufsSetActiveBootLun
  split
  · exact .refl u
  · split
    · exact .refl u
    · rename_i hon
      rw [Bool.not_eq_true, Bool.not_eq_false'] at hon
      refine kept_save rfl rfl rfl ?_ ?_ ?_ hon
      all_goals
        dsimp only
        split <;> rfl

theorem kept_ufsReadBootVbmeta (u : UfsState) (lun : Int) : Kept u (u.ufsReadBootVbmeta lun).2 := by
  unfold ufsReadBootVbmeta
  split
  · exact .refl u
  · split
    · exact .refl u
    · exact (kept_lseek u (vbmetaOff lun)).trans (kept_read (u.lseek (vbmetaOff lun)) vbmetaSize)

theorem vbmetaOff_bounds (lun : Int) : ufsImgBootAOffset.toNat ≤ (vbmetaOff lun).toNat ∧
    (vbmetaOff lun).toNat + vbmetaSize ≤ ufsImgTotalBytes.toNat := by
  unfold vbmetaOff
  split <;> decide

theorem kept_ufsWriteBootVbmeta (u : UfsState) (lun : Int) (vbm : Vbmeta) :
    Kept u (u.ufsWriteBootVbmeta lun vbm).2 := by
  have hoff := vbmetaOff_bounds lun
  unfold ufsWriteBootVbmeta
  split
  · exact .refl u
  · split
    · exact .refl u
    · dsimp only
      exact kept_writeList (Vbmeta.codec.enc vbm) hoff.1 (by omega)

end UfsState

open UfsState

theorem kept_seedB (p : OtaParams) (u : UfsState) (reseed : Bool) :
    Kept u (match (u.ufsReadBootVbmeta 2).1 with
      | .error _ => (u.ufsReadBootVbmeta 2).2
      | .ok vbmB => if reseed ∨ vbmB.magic ≠ avbMagic then
          ((u.ufsReadBootVbmeta 2).2.ufsWriteBootVbmeta 2 (seedVbmetaB p)).2
        else (u.ufsReadBootVbmeta 2).2) := by
  have hread := kept_ufsReadBootVbmeta u 2
  split
  · exact hread
  · split
    · exact hread.trans (kept_ufsWriteBootVbmeta _ 2 _)
    · exact hread

theorem kept_dmSeedUfsVbmetaIfNeeded (p : OtaParams) (u : UfsState) :
    Kept u (dmSeedUfsVbmetaIfNeeded p u) := by
  have hread := kept_ufsReadBootVbmeta u 1
  unfold dmSeedUfsVbmetaIfNeeded
  dsimp only
  split
  · exact hread
  · refine Kept.trans ?_ (kept_seedB p _ _)
    split
    · exact hread.trans ((kept_ufsWriteBootVbmeta _ 1 _).trans (kept_ufsSetActiveBootLun _ 1))
    · exact hread

theorem kept_updateVbmeta (u : UfsState) (lun : Int) (f : Vbmeta → Vbmeta) :
    Kept u (updateVbmeta u lun f) := by
  have hread := kept_ufsReadBootVbmeta u lun
  unfold updateVbmeta
  dsimp only
  split
  · exact hread
  · exact hread.trans (kept_ufsWriteBootVbmeta _ lun _)

theorem kept_trySlot (p : OtaParams) (slot : Int) (m : Machine) :
    Kept m.ufs (trySlot p slot m).2.ufs := by
  have hread := kept_ufsReadBootVbmeta m.ufs (bootLun slot)
  unfold trySlot
  dsimp only
  split
  · exact hread
  · split
    · exact hread
    · exact hread

theorem kept_recordSlot (slot : Int) (m : Machine) : Kept m.ufs (recordSlot slot m).ufs :=
  (kept_updateVbmeta m.ufs (bootLun slot) activated).trans
    ((kept_updateVbmeta _ (otherLun slot) deactivated).trans (kept_ufsSetActiveBootLun _ _))

theorem kept_rollbackToA (u : UfsState) : Kept u (rollbackToA u) :=
  (kept_updateVbmeta u 2 rejected).trans (kept_ufsSetActiveBootLun _ 1)

theorem kept_dmActivateOtaSlot (p : OtaParams) (slot : Int) (m : Machine) :
    Kept m.ufs (dmActivateOtaSlot p slot m).2.ufs := by
  unfold dmActivateOtaSlot
  split
  · exact .refl m.ufs
  · split
    · split <;> exact .refl m.ufs
    · have hfirst := (kept_dmSeedUfsVbmetaIfNeeded p m.ufs).trans
        (kept_trySlot p slot ⟨m.dm, dmSeedUfsVbmetaIfNeeded p m.ufs⟩)
      dsimp only
      split
      · exact hfirst.trans (kept_recordSlot slot _)
      · split
        · have hsecond := hfirst.trans ((kept_rollbackToA _).trans (kept_trySlot p 0
            ⟨(trySlot p slot ⟨m.dm, dmSeedUfsVbmetaIfNeeded p m.ufs⟩).2.dm, rollbackToA _⟩))
          split
          · exact hsecond.trans (kept_recordSlot 0 _)
          · exact hsecond
        · exact hfirst

end Six.Ufs
