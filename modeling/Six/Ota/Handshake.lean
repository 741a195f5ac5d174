import Six.Ota.Rollback

/-! The handshake of a sideload: the host writes a sequence number and a slot into the header on the
disk, and `ufs_poll_external_ota` activates the slot and acknowledges the number. -/

namespace Six.Ota

open Lib Dm Ufs UfsState Option

/-- The machine, the last request of the host, and how often it has been tried. -/
structure Handshake where
  machine : Machine
  seq : UInt32
  slot : UInt8
  tries : Nat := 0

def hostRequest (u : UfsState) (disk : PersistHdr) (vbm : Vbmeta) (seq : UInt32) (slot : UInt8) :
    UfsState :=
  let v := Vbmeta.codec.enc vbm
  let h := PersistHdr.codec.enc { disk with
    magic := ufsHdrMagic
    bootLunId := if slot = 0xfe then disk.bootLunId else slot
    otaPendingSeq := seq
    otaPendingSlot := slot }
  let off := (vbmetaOff slot.toNat).toNat
  { u with
    img := (u.img.write (u.base.toNat + off) v.length fun i => v.getD i 0).write
      u.base.toNat h.length fun i => h.getD i 0
    room := by
      rw [HostFile.write_limit, HostFile.write_limit]
      exact u.room }

/-- A poll finds what it finds on the disk behind the device mapper at its time. -/
inductive HandshakeOp
  | request (vbm : Vbmeta) (seq : UInt32) (slot : UInt8)
  | poll (p : OtaParams)

/-- The host makes a request only when the disk has a header. -/
def Handshake.step (x : Handshake) : HandshakeOp → Option Handshake
  | .request vbm seq slot => x.machine.ufs.diskHdr.map fun disk =>
      ⟨⟨x.machine.dm, hostRequest x.machine.ufs disk vbm seq slot⟩, seq, slot, 0⟩
  | .poll p => some { x with
      machine := ufsPollExternalOta p x.machine
      tries := x.tries + if (pollTarget x.machine.ufs).isSome then 1 else 0 }

/-- The request is acknowledged, in memory and on the disk, with a status that says whether its slot
is the active one. -/
structure Answered (u : UfsState) (seq : UInt32) (slot : UInt8) : Prop where
  disk : u.diskHdr = some u.hdr
  pendingSeq : u.hdr.otaPendingSeq = seq
  pendingSlot : u.hdr.otaPendingSlot = slot
  ackSeq : u.hdr.otaAckSeq = seq
  status : u.hdr.otaLastStatus = 0 ↔ u.hdr.bootLunId = slot

structure Handshake.Kept (x : Handshake) : Prop where
  once : x.tries ≤ 1
  answered : x.tries ≠ 0 → Answered x.machine.ufs x.seq x.slot

/-- A poll that tries a request finds a disk with both slots and a good record of slot a, and slot a
can be mapped when it is the one asked for. -/
def answerable (x : Handshake) : HandshakeOp → Bool
  | .request _ _ _ => true
  | .poll p => match pollTarget x.machine.ufs with
    | none => true
    | some (slotB, u) => slotted p ⟨x.machine.dm, u⟩ && !reseeds p u &&
        (slotB || (trySlot p 0 (seeded p ⟨x.machine.dm, u⟩)).1)

structure Steady (u v : UfsState) : Prop where
  online : v.online = u.online
  hdr : v.hdr = u.hdr
  disk : ∀ h, u.diskHdr = some h → v.diskHdr = some h

section

variable {u v w : UfsState} {p : OtaParams} {seq : UInt32} {slot : UInt8} {m : Machine}

theorem Steady.trans (h1 : Steady u v) (h2 : Steady v w) : Steady u w :=
  ⟨h2.online.trans h1.online, h2.hdr.trans h1.hdr, fun h hu => h2.disk h (h1.disk h hu)⟩

theorem steady_of_img (online : v.online = u.online) (hdr : v.hdr = u.hdr) (base : v.base = u.base)
    (img : v.img = u.img) : Steady u v :=
  ⟨online, hdr, fun h hu => by rw [diskHdr_congr base img]; exact hu⟩

theorem Steady.refl (u : UfsState) : Steady u u := steady_of_img rfl rfl rfl rfl

theorem steady_read (u : UfsState) (off : UInt32) (n : Nat) : Steady u ((u.lseek off).read n).2 :=
  steady_of_img rfl rfl rfl rfl

theorem steady_writeList (bs : List UInt8) (hlo : persistHdrSize ≤ off.toNat)
    (hhi : off.toNat ≤ ufsImgTotalBytes.toNat) : Steady u ((u.lseek off).writeList bs).2 := by
  refine ⟨rfl, rfl, fun h hu => diskHdr_of_bytes hu rfl HostFile.size_le_write fun i hi => ?_⟩
  rw [writeList_img, lseek_pos hhi, HostFile.write_byte_outside (.inl (by omega))]
  rfl

theorem steady_readVbmeta (u : UfsState) (lun : Int) : Steady u (u.ufsReadBootVbmeta lun).2 := by
  unfold ufsReadBootVbmeta
  split
  · exact .refl u
  · split
    · exact .refl u
    · exact steady_read u (vbmetaOff lun) vbmetaSize

theorem steady_writeVbmeta (u : UfsState) (lun : Int) (vbm : Vbmeta) :
    Steady u (u.ufsWriteBootVbmeta lun vbm).2 := by
  have hoff := vbmetaOff_bounds lun
  unfold ufsWriteBootVbmeta
  split
  · exact .refl u
  · split
    · exact .refl u
    · dsimp only
      exact steady_writeList (Vbmeta.codec.enc vbm) (le_trans (by decide) hoff.1) (by omega)

theorem steady_updateVbmeta (u : UfsState) (lun : Int) (f : Vbmeta → Vbmeta) :
    Steady u (updateVbmeta u lun f) := by
  have hread := steady_readVbmeta u lun
  unfold updateVbmeta
  dsimp only
  split
  · exact hread
  · exact hread.trans (steady_writeVbmeta _ lun _)

theorem steady_trySlot (p : OtaParams) (slot : Int) (m : Machine) :
    Steady m.ufs (trySlot p slot m).2.ufs := by
  have hread := steady_readVbmeta m.ufs (bootLun slot)
  unfold trySlot
  dsimp only
  split
  · exact hread
  · split <;> exact hread

theorem steady_seed (h : reseeds p u = false) : Steady u (dmSeedUfsVbmetaIfNeeded p u) := by
  have hread := steady_readVbmeta u 1
  unfold reseeds at h
  unfold dmSeedUfsVbmetaIfNeeded
  dsimp only
  cases hvbm : (u.ufsReadBootVbmeta 1).1 with
  | error e => exact hread
  | ok vbmA =>
    rw [hvbm] at h
    dsimp only at h ⊢
    rw [h, if_neg Bool.false_ne_true]
    have hread2 := hread.trans (steady_readVbmeta _ 2)
    split
    · exact hread2
    · split
      · exact hread2.trans (steady_writeVbmeta _ 2 _)
      · exact hread2

theorem Answered.steady (h : Answered u seq slot) (hs : Steady u v) : Answered v seq slot := by
  obtain ⟨hdisk, hrest⟩ := h
  refine ⟨?_, ?_, ?_, ?_, ?_⟩
  · rw [hs.hdr]
    exact hs.disk _ hdisk
  all_goals rw [hs.hdr]; assumption

theorem answered_save (hon : u.online = true) (hseq : u.hdr.otaPendingSeq = seq)
    (hslot : u.hdr.otaPendingSlot = slot) (hack : u.hdr.otaAckSeq = seq)
    (hst : u.hdr.otaLastStatus = 0 ↔ u.hdr.bootLunId = slot) :
    Answered u.ufsSavePersistHdr seq slot := by
  have hhdr := save_hdr hon
  refine ⟨by rw [diskHdr_save hon, hhdr], ?_, ?_, ?_, ?_⟩ <;> rw [hhdr] <;> assumption

section

variable (hon : u.online = true) {lun : Int} (hlun : lun = 1 ∨ lun = 2)

include hon

theorem setActive_online : (u.ufsSetActiveBootLun lun).2.online = true := by
  unfold ufsSetActiveBootLun
  split
  · exact hon
  · split
    · exact hon
    · exact save_online hon

include hlun

theorem answered_setActive (h : u.hdr.otaPendingSeq ≠ u.hdr.otaAckSeq) :
    Answered (u.ufsSetActiveBootLun lun).2 u.hdr.otaPendingSeq u.hdr.otaPendingSlot := by
  unfold ufsSetActiveBootLun
  rw [if_neg (by omega), if_neg (by simp [hon])]
  dsimp only
  generalize (if lun = 2 then (2 : UInt8) else 1) = id
  rw [if_pos h]
  refine answered_save hon rfl rfl rfl ?_
  dsimp only
  split <;> rename_i hslot
  · exact ⟨fun _ => hslot.symm, fun _ => rfl⟩
  · exact ⟨fun h => absurd h (by decide), fun h => absurd h.symm hslot⟩

theorem setActive_bootLunId :
    (u.ufsSetActiveBootLun lun).2.hdr.bootLunId = if lun = 2 then 2 else 1 := by
  unfold ufsSetActiveBootLun
  rw [if_neg (by omega), if_neg (by simp [hon])]
  rw [save_hdr (by exact hon)]
  dsimp only
  split <;> rfl

theorem Answered.setActive (h : Answered u seq slot)
    (hid : u.hdr.bootLunId = if lun = 2 then 2 else 1) :
    Answered (u.ufsSetActiveBootLun lun).2 seq slot := by
  have hack : u.hdr.otaPendingSeq = u.hdr.otaAckSeq := h.pendingSeq.trans h.ackSeq.symm
  have hst := h.status
  rw [hid] at hst
  unfold ufsSetActiveBootLun
  rw [if_neg (by omega), if_neg (by simp [hon])]
  dsimp only
  rw [if_neg (not_not_intro hack)]
  exact answered_save hon h.pendingSeq h.pendingSlot h.ackSeq hst

end

theorem recordSlot_ufs (slot : Int) (m : Machine) : ∃ v, Steady m.ufs v ∧
    (recordSlot slot m).ufs = (v.ufsSetActiveBootLun (bootLun slot)).2 :=
  ⟨_, (steady_updateVbmeta m.ufs _ _).trans (steady_updateVbmeta _ _ _), rfl⟩

theorem bootLun_eq (slot : Int) : bootLun slot = 1 ∨ bootLun slot = 2 := by
  unfold bootLun
  split
  · exact .inr rfl
  · exact .inl rfl

theorem Answered.fallback (h : Answered m.ufs seq slot) (hon : m.ufs.online = true)
    (hid : m.ufs.hdr.bootLunId = 1) :
    Answered (if (trySlot p 0 m).1 then recordSlot 0 (trySlot p 0 m).2 else (trySlot p 0 m).2).ufs
      seq slot := by
  have htry := steady_trySlot p 0 m
  split
  · obtain ⟨v, hv, heq⟩ := recordSlot_ufs 0 (trySlot p 0 m).2
    have hsteady := htry.trans hv
    rw [heq]
    refine (h.steady hsteady).setActive (hsteady.online.trans hon) (.inl rfl) ?_
    rw [hsteady.hdr]
    exact hid
  · exact h.steady htry

theorem answered_activate {slotB : Bool} (hpending : m.ufs.hdr.otaPendingSeq ≠ m.ufs.hdr.otaAckSeq)
    (hslots : slotted p m = true) (hseed : reseeds p m.ufs = false)
    (hmap : slotB = false → (trySlot p 0 (seeded p m)).1 = true) :
    Answered (dmActivateOtaSlot p (slotNo slotB) m).2.ufs m.ufs.hdr.otaPendingSeq
      m.ufs.hdr.otaPendingSlot := by
  -- what is reached without a change of the header, and is then saved for a slot
  have hsave : ∀ v, Steady m.ufs v → ∀ lun, lun = 1 ∨ lun = 2 →
      Answered (v.ufsSetActiveBootLun lun).2 m.ufs.hdr.otaPendingSeq m.ufs.hdr.otaPendingSlot := by
    intro v hv lun hlun
    have hon : m.ufs.online = true := (Bool.and_eq_true_iff.mp hslots).2
    rw [← hv.hdr] at hpending ⊢
    exact answered_setActive (hv.online.trans hon) hlun hpending
  obtain ⟨⟨hhdd, hsup⟩, hon⟩ : (p.hddOnline = true ∧ hasAbSuper p = true) ∧
      m.ufs.online = true := by
    simpa only [slotted, Bool.and_eq_true] using hslots
  have hsize : ¬ p.hddSectors < verityVendorBHashSector + 2048 := by
    simpa [hasAbSuper] using hsup
  have hfirst : Steady m.ufs (trySlot p (slotNo slotB) (seeded p m)).2.ufs :=
    (steady_seed hseed).trans (steady_trySlot p (slotNo slotB) (seeded p m))
  unfold dmActivateOtaSlot
  rw [if_neg (by simp [hhdd]), if_neg hsize]
  dsimp only
  rw [show (⟨m.dm, dmSeedUfsVbmetaIfNeeded p m.ufs⟩ : Machine) = seeded p m from rfl]
  split
  · obtain ⟨v, hv, heq⟩ := recordSlot_ufs (slotNo slotB) (trySlot p (slotNo slotB) (seeded p m)).2
    rw [heq]
    exact hsave v (hfirst.trans hv) _ (bootLun_eq _)
  · rename_i hfail
    cases slotB with
    | false => exact absurd (hmap rfl) hfail
    | true =>
      -- slot a is made active before it is known that it can be mapped
      have hback := hfirst.trans (steady_updateVbmeta _ 2 rejected)
      have hon' := hback.online.trans hon
      exact Answered.fallback (m := rolledBack p m) (hsave _ hback 1 (.inl rfl))
        (setActive_online hon') (setActive_bootLunId hon' (.inl rfl))

/-- What a poll does: nothing, a refresh of the buffers, or an attempt. -/
inductive Polled (p : OtaParams) (m : Machine) : Prop
  | quiet (target : pollTarget m.ufs = none)
      (disk : (ufsPollExternalOta p m).ufs.diskHdr = m.ufs.diskHdr)
      (hdr : (ufsPollExternalOta p m).ufs.hdr = m.ufs.hdr)
  | refresh (target : pollTarget m.ufs = none) (disk : PersistHdr)
      (hdisk : m.ufs.diskHdr = some disk)
      (hnew : disk.otaPendingSeq ≠ m.ufs.hdr.otaAckSeq)
      (hdr : ∀ h, (ufsPollExternalOta p m).ufs.diskHdr = some h →
        h.otaPendingSeq = disk.otaPendingSeq ∧ h.otaPendingSlot = disk.otaPendingSlot)
  | attempt (disk : PersistHdr) (hdisk : m.ufs.diskHdr = some disk) (slotB : Bool) (v : UfsState)
      (target : pollTarget m.ufs = some (slotB, v))
      (hnew : disk.otaPendingSeq ≠ m.ufs.hdr.otaAckSeq)
      (hseq : v.hdr.otaPendingSeq = disk.otaPendingSeq)
      (hslot : v.hdr.otaPendingSlot = disk.otaPendingSlot)
      (hack : v.hdr.otaAckSeq = m.ufs.hdr.otaAckSeq)
      (activate : (ufsPollExternalOta p m) = (dmActivateOtaSlot p (slotNo slotB) ⟨m.dm, v⟩).2)

theorem takeOver_hdr (u : UfsState) (disk : PersistHdr) :
    (u.takeOver disk).hdr.otaPendingSeq = disk.otaPendingSeq ∧
      (u.takeOver disk).hdr.otaPendingSlot = disk.otaPendingSlot ∧
      (u.takeOver disk).hdr.otaAckSeq = u.hdr.otaAckSeq := by
  unfold takeOver
  split <;> exact ⟨rfl, rfl, rfl⟩

theorem polled (p : OtaParams) (m : Machine) : Polled p m := by
  by_cases hready : (!m.ufs.online || !m.ufs.otaPollReady) = true
  · have hpoll : ufsPollExternalOta p m = m := if_pos hready
    exact .quiet (if_pos hready) (by rw [hpoll]) (by rw [hpoll])
  · have hon : m.ufs.online = true := by simp_all
    have hpoll : ufsPollExternalOta p m = _ := if_neg hready
    have htarget : pollTarget m.ufs = _ := if_neg hready
    generalize hr : ((m.ufs.lseek ufsImgHdrOffset).read persistHdrSize).2 = r at hpoll htarget
    have hhdr : r.hdr = m.ufs.hdr := by rw [← hr]; rfl
    have hrdisk : r.diskHdr = m.ufs.diskHdr := by rw [← hr]; exact diskHdr_congr rfl rfl
    have hron : r.online = true := by rw [← hr]; exact hon
    have quiet : pollTarget m.ufs = none → ufsPollExternalOta p m = ⟨m.dm, r⟩ → Polled p m :=
      fun ht hp => .quiet ht (by rw [hp]; exact hrdisk) (by rw [hp]; exact hhdr)
    cases hdisk : m.ufs.diskHdr with
    | none =>
      rw [hdisk] at hpoll htarget
      exact quiet htarget hpoll
    | some disk =>
      rw [hdisk] at hpoll htarget
      dsimp only at hpoll htarget
      split at htarget <;> rename_i hnew
      · rw [if_pos hnew] at hpoll
        exact quiet htarget hpoll
      · rw [if_neg hnew] at hpoll
        rw [hhdr] at hnew
        split at htarget <;> rename_i hslot
        · rw [if_pos hslot] at hpoll
          obtain ⟨hseq, hslot, hack⟩ := takeOver_hdr r disk
          refine .attempt disk hdisk _ _ htarget hnew hseq hslot (hack.trans (by rw [hhdr])) ?_
          simpa only [slotNo, decide_eq_true_eq] using hpoll
        · rw [if_neg hslot] at hpoll
          split at hpoll
          · rename_i hfe
            refine .refresh htarget disk hdisk hnew fun h hh => ?_
            rw [hpoll, diskHdr_save (by exact hron)] at hh
            obtain rfl := some.inj hh
            exact ⟨rfl, hfe.symm⟩
          · exact quiet htarget hpoll

/-- The request on the disk has not been tried, or it has been answered. -/
def Tracked (x : Handshake) : Prop :=
  (x.tries = 0 ∧ ∀ h, x.machine.ufs.diskHdr = some h →
      h.otaPendingSeq = x.seq ∧ h.otaPendingSlot = x.slot) ∨
    (x.tries = 1 ∧ Answered x.machine.ufs x.seq x.slot)

theorem diskHdr_hostRequest (u : UfsState) (disk : PersistHdr) (vbm : Vbmeta) (seq : UInt32)
    (slot : UInt8) : ∃ h, (hostRequest u disk vbm seq slot).diskHdr = some h ∧
      h.otaPendingSeq = seq ∧ h.otaPendingSlot = slot := by
  have hroom := u.room
  have hsize : persistHdrSize ≤ ufsImgTotalBytes.toNat := by decide
  refine ⟨_, diskHdr_of_write rfl ?_ rfl, rfl, rfl⟩
  rw [HostFile.write_limit]
  exact le_trans (Nat.add_le_add_left hsize u.base.toNat) hroom

theorem Tracked.poll (h : Tracked x) (hsafe : answerable x (.poll p) = true)
    (hstep : x.step (.poll p) = some y) : Tracked y := by
  obtain rfl := some.inj hstep
  have hold : ∀ disk, x.machine.ufs.diskHdr = some disk →
      disk.otaPendingSeq ≠ x.machine.ufs.hdr.otaAckSeq → x.tries = 0 ∧
        disk.otaPendingSeq = x.seq ∧ disk.otaPendingSlot = x.slot := by
    intro disk hdisk hnew
    rcases h with ⟨h0, hseq⟩ | ⟨-, hans⟩
    · exact ⟨h0, hseq disk hdisk⟩
    · obtain rfl := some.inj (hdisk.symm.trans hans.disk)
      exact absurd (hans.pendingSeq.trans hans.ackSeq.symm) hnew
  cases polled p x.machine with
  | quiet target disk hdr =>
    unfold Tracked
    simp only [target, isSome_none, Bool.false_eq_true, if_false, Nat.add_zero]
    refine h.imp (fun ⟨h0, hseq⟩ => ⟨h0, fun d hd => hseq d (disk ▸ hd)⟩) fun ⟨h1, hans⟩ => ⟨h1, ?_⟩
    refine ⟨by rw [disk, hdr]; exact hans.disk, ?_, ?_, ?_, ?_⟩ <;> rw [hdr]
    exacts [hans.pendingSeq, hans.pendingSlot, hans.ackSeq, hans.status]
  | refresh target disk hdisk hnew hdr =>
    obtain ⟨h0, hseq, hslot⟩ := hold disk hdisk hnew
    refine .inl ⟨by simp [h0, target], fun d hd => ?_⟩
    rw [← hseq, ← hslot]
    exact hdr d hd
  | attempt disk hdisk slotB v target hnew hseq hslot hack activate =>
    obtain ⟨h0, hseq', hslot'⟩ := hold disk hdisk hnew
    simp only [answerable, target, Bool.and_eq_true, Bool.or_eq_true, Bool.not_eq_true'] at hsafe
    obtain ⟨⟨hslots, hseed⟩, hmap⟩ := hsafe
    refine .inr ⟨by simp [h0, target], ?_⟩
    rw [activate, ← hseq', ← hslot', ← hseq, ← hslot]
    refine answered_activate (m := ⟨x.machine.dm, v⟩)
      (by rw [hseq, hack]; exact hnew) hslots hseed ?_
    exact fun hb => hmap.resolve_left (by simp [hb])

end

theorem Tracked.step (h : Tracked x)
    (hsafe : answerable x op = true) (hstep : x.step op = some y) : Tracked y := by
  cases op with
  | poll p => exact h.poll hsafe hstep
  | request vbm seq slot =>
    obtain ⟨disk, -, rfl⟩ := map_eq_some_iff.mp hstep
    obtain ⟨d, hdisk, hreq⟩ := diskHdr_hostRequest x.machine.ufs disk vbm seq slot
    refine .inl ⟨rfl, fun h hh => ?_⟩
    obtain rfl := some.inj (hdisk.symm.trans hh)
    exact hreq

/-- In a run whose polls can all be answered, from a request that has not been tried, every request
is tried once at most and is answered after that. -/
theorem sideload_answered {x y : Handshake} (hfresh : x.tries = 0)
    (hdisk : ∀ h, x.machine.ufs.diskHdr = some h →
      h.otaPendingSeq = x.seq ∧ h.otaPendingSlot = x.slot)
    (hrun : Reaches Handshake.step (fun x op => answerable x op = true) x y) : y.Kept := by
  have htracked : Tracked y :=
    hrun.invariant (.inl ⟨hfresh, hdisk⟩) fun _ _ _ h hsafe hstep => h.step hsafe hstep
  rcases htracked with ⟨h0, -⟩ | ⟨h1, hans⟩
  · exact ⟨by omega, fun h => absurd h0 h⟩
  · exact ⟨by omega, fun _ => hans⟩

def idle : Handshake where
  machine := ⟨machineOnB.dm, { machineOnB.ufs.ufsSavePersistHdr with otaPollReady := true }⟩
  seq := 0
  slot := 0

theorem idle_diskHdr : idle.machine.ufs.diskHdr = some ({} : PersistHdr).withMagic :=
  (diskHdr_congr rfl rfl).trans (diskHdr_save (u := machineOnB.ufs) rfl)

/-- Neither slot is bootable: a request for slot b is answered with a fallback to slot a. -/
theorem unbootable_b_answered : ∃ y, run (guarded answerable Handshake.step) idle
      [.request { magic := avbMagic } 1 1, .request { magic := avbMagic } 2 2,
        .poll noVendorAParams, .poll noVendorAParams] = some y ∧ y.tries = 1 ∧ y.Kept := by
  have htries : (run (guarded answerable Handshake.step) idle
      [.request { magic := avbMagic } 1 1, .request { magic := avbMagic } 2 2,
        .poll noVendorAParams, .poll noVendorAParams]).map Handshake.tries = some 1 := by
    decide +kernel
  obtain ⟨y, hy, h1⟩ := map_eq_some_iff.mp htries
  refine ⟨y, hy, h1, sideload_answered rfl (fun h hh => ?_) (reaches_of_guarded_run _ hy)⟩
  obtain rfl := some.inj (idle_diskHdr.symm.trans hh)
  exact ⟨rfl, rfl⟩

/-- A request for slot a whose record is not bootable is tried at every poll. -/
theorem unbootable_a_tried_again : ∃ y, run Handshake.step idle
      [.request { magic := avbMagic } 1 1, .poll noVendorAParams, .poll noVendorAParams] = some y ∧
    y.tries = 2 ∧ y.machine.ufs.hdr.otaAckSeq = 0 ∧ ¬ y.Kept := by
  have htries : (run Handshake.step idle
      [.request { magic := avbMagic } 1 1, .poll noVendorAParams, .poll noVendorAParams]).map
        (fun y => (y.tries, y.machine.ufs.hdr.otaAckSeq)) = some (2, 0) := by
    decide +kernel
  obtain ⟨y, hy, h2⟩ := map_eq_some_iff.mp htries
  obtain ⟨htwo, hack⟩ := Prod.mk.inj h2
  exact ⟨y, hy, htwo, hack, fun h => absurd h.once (by omega)⟩

end Six.Ota
