import Six.Fwupd.Receive
import Six.Lib.Run
import Six.Nvme.Controller

/-! Firmware activation on the NVMe controller and on the USB disk (`drivers/block/usb_sd.c`).
`fwupd_sha256_final` leaves the contexts of the receiver changed, and nothing notes that they are
spent. -/

namespace Six.Fwupd

open Lib Hash Nvme List StreamState

structure UsbSd where
  fwStream : StreamState
  fwRev : Fin 4 → UInt8
  fwSha256 : Digest

inductive BufferMode
  | downloadSave | downloadOffsetSave | activateDeferred | other
  deriving DecidableEq, Repr

/-- The fields of a `WRITE_BUFFER` request.  `data` is what `data_addr` leads to, unless it is
null. -/
structure WriteBuffer where
  rsvd : UInt32
  lba : UInt32
  dataLen : UInt32
  data : Option (Nat → UInt8)

namespace WriteBuffer

variable (sc : WriteBuffer)

def mode : BufferMode :=
  if sc.rsvd &&& 0x1f = 0x05 then .downloadSave
  else if sc.rsvd &&& 0x1f = 0x0e then .downloadOffsetSave
  else if sc.rsvd &&& 0x1f = 0x0f then .activateDeferred
  else .other

def xferLen : UInt32 := if sc.dataLen > 4096 then 4096 else sc.dataLen

def bounce (i : Nat) : UInt8 :=
  match sc.data with
  | some data => if i < sc.xferLen.toNat then data i else 0
  | none => 0

end WriteBuffer

def usbDeviceId : List UInt8 := text "SIX-USB-SCSI"

/-- `strncpy` over a field of blanks: it writes the zero that ends the text and nothing behind
it. -/
def revOf (ver : List UInt8) (i : Fin 4) : UInt8 := (ver ++ [0]).getD i 0x20

def UsbSd.activate (u : UsbSd) (caller : Option (Nat → UInt8)) : Bool × UsbSd :=
  let r := u.fwStream.validateAndFinalize fwupdSha256Block usbDeviceId 4
  let u := { u with fwStream := r.2 }
  match r.1 with
  | none => (false, u)
  | some image =>
    let ver :=
      match caller with
      | none => image.version
      | some vh =>
        if hdrWord r.2.hdrBuf 4 ≠ fwupdBinMagic ∧ 0x21 ≤ vh 0 ∧ vh 0 ≤ 0x7e then textFrom vh 4 0
        else image.version
    (true, { u with fwRev := revOf ver, fwSha256 := image.sha256 })

/-- The case `UFS_SCSI_WRITE_BUFFER` of `usb_sd_handle_scsi_ioctl`: whether the status is zero, and
the disk. -/
def UsbSd.writeBuffer (u : UsbSd) (sc : WriteBuffer) : Bool × UsbSd :=
  let download := u.fwStream.writeChunk fwupdSha256Block sc.lba (some sc.bounce) sc.xferLen
  match sc.mode, download with
  | .other, _ => (false, u)
  | .activateDeferred, _ => u.activate (if sc.xferLen > 0 then some sc.bounce else none)
  | _, none => (false, u)
  | .downloadOffsetSave, some st => (true, { u with fwStream := st })
  | .downloadSave, some st => UsbSd.activate { u with fwStream := st } none

/-- The two devices.  `nvmeImage` and `usbImage` are the bytes that were streamed since the last
chunk at offset 0, as long as no activation has used them; `slotImage` and `usbActive` are those
that the last successful activation used. -/
structure Devices where
  nvme : Ctrl
  usb : UsbSd
  nvmeImage : Option (List UInt8) := none
  usbImage : Option (List UInt8) := none
  slotImage : Fin 2 → Option (List UInt8) := fun _ => none
  usbActive : Option (List UInt8) := none

/-- The bytes streamed after another chunk, which the receiver may refuse. -/
def grown (st : StreamState) (image : Option (List UInt8)) (offset : UInt32)
    (data : Option (Nat → UInt8)) (len : UInt32) : Option (List UInt8) :=
  match data, st.writeChunk fwupdSha256Block offset data len with
  | some data, some _ =>
    ((if offset = 0 then some [] else image).map (· ++ (List.range len.toNat).map data)).filter
      (·.length < 2 ^ 32)
  | _, _ => image

inductive FwOp
  | downloadFw (cmd : Command)
  | activateFw (cmd : Command)
  | writeBuffer (sc : WriteBuffer)

/-- The commit only selects a slot, and leaves the receiver alone. -/
def selects (cmd : Command) : Bool := (cmd.cdw10 >>> 3) &&& 0x07 = 2

def fwEnv : Env := ⟨fwupdSha256Block, 0⟩

def slotOf (cmd : Command) : Fin 2 := if Ctrl.fwSlotOf cmd = 1 then 0 else 1

/-- The bytes streamed to the USB disk after a request that downloads. -/
def Devices.usbGrown (s : Devices) (sc : WriteBuffer) : Option (List UInt8) :=
  grown s.usb.fwStream s.usbImage sc.lba (some sc.bounce) sc.xferLen

def Devices.step (s : Devices) : FwOp → Option Devices
  | .downloadFw cmd =>
    some { s with
      nvme := (s.nvme.downloadFw fwEnv cmd).state
      nvmeImage := grown s.nvme.fwStream s.nvmeImage (cmd.cdw11 * 4) cmd.prp1
        (if cmd.cdw12 ≠ 0 then cmd.cdw12 else (cmd.cdw10 + 1) * 4) }
  | .activateFw cmd =>
    some { s with
      nvme := (s.nvme.activateFw fwEnv cmd).state
      nvmeImage := if selects cmd then s.nvmeImage else none
      slotImage :=
        if selects cmd = false ∧ (s.nvme.activateFw fwEnv cmd).status = nvmeScSuccess then
          Function.update s.slotImage (slotOf cmd) s.nvmeImage
        else s.slotImage }
  | .writeBuffer sc =>
    some { s with
      usb := (s.usb.writeBuffer sc).2
      usbImage := match sc.mode with
        | .other => s.usbImage
        | .downloadOffsetSave => s.usbGrown sc
        | _ => none
      usbActive := match sc.mode, (s.usb.writeBuffer sc).1 with
        | .activateDeferred, true => s.usbImage
        | .downloadSave, true => s.usbGrown sc
        | _, _ => s.usbActive }

/-- An activation comes after a download from offset 0 on that no activation has used, and an image
without the magic is activated without a version of the caller. -/
def Devices.Orderly (s : Devices) : FwOp → Prop
  | .downloadFw _ => True
  | .activateFw cmd => selects cmd = false →
      s.nvmeImage.isSome ∧ (cmd.prp1 = none ∨ hdrWord s.nvme.fwStream.hdrBuf 4 = fwupdBinMagic)
  | .writeBuffer sc => match sc.mode with
    | .activateDeferred => s.usbImage.isSome ∧
        (sc.xferLen = 0 ∨ hdrWord s.usb.fwStream.hdrBuf 4 = fwupdBinMagic)
    | .downloadSave => (s.usbGrown sc).isSome
    | _ => True

/-- The image, streamed from offset 0 on, gets this verdict, with its own digest. -/
def Accepted (deviceId : List UInt8) (maxVerLen : Nat) (img : List UInt8) (v : Validated) : Prop :=
  v.sha256 = Sha256.sha256 img ∧ ∃ st st' : StreamState,
    st.sendImage fwupdSha256Block deviceId maxVerLen [img] = some (some v, st')

def Holds (st : StreamState) (image : Option (List UInt8)) : Prop :=
  ∀ all, image = some all → all ≠ [] ∧ all.length < 2 ^ 32 ∧
    ∃ st0 : StreamState, st = st0.holding fwupdSha256Block all

section Receiver

variable {st : StreamState} {image : Option (List UInt8)} {offset len : UInt32}
  {data : Option (Nat → UInt8)} {deviceId : List UInt8} {n : Nat} {v : Validated}

theorem Holds.grown (h : Holds st image) :
    Holds ((st.writeChunk fwupdSha256Block offset data len).getD st)
      (grown st image offset data len) := by
  cases data with
  | none => exact h
  | some data =>
  unfold grown
  cases hw : st.writeChunk fwupdSha256Block offset (some data) len with
  | none => exact h
  | some st' =>
  intro all hall
  obtain ⟨hsome, hlt⟩ := Option.filter_eq_some_iff.mp hall
  obtain ⟨before, hbefore, rfl⟩ := Option.map_eq_some_iff.mp hsome
  have hlen : before.length + len.toNat < 2 ^ 32 := by simpa using hlt
  have hne : len ≠ 0 := by
    rintro rfl
    simp [writeChunk] at hw
  have hpos : len.toNat ≠ 0 := fun h => hne (UInt32.toNat_inj.mp h)
  refine ⟨append_ne_nil_of_right_ne_nil _ (by simpa using hpos), by simpa using hlen, ?_⟩
  by_cases h0 : offset = 0
  · subst h0
    obtain rfl : before = [] := by simpa using hbefore.symm
    exact ⟨st, Option.some.inj (hw.symm.trans (st.writeChunk_first hne))⟩
  · rw [if_neg h0] at hbefore
    obtain ⟨-, -, st0, rfl⟩ := h before hbefore
    have hoffset : offset = UInt32.ofNat before.length := by
      by_contra hbad
      have hbad' : offset ≠ (st0.holding fwupdSha256Block before).stagedLen := hbad
      simp [writeChunk, h0, hbad'] at hw
    exact ⟨st0, Option.some.inj (hw.symm.trans
      (writeChunk_eq (if_neg h0) hoffset (.inr hoffset) hne hlen))⟩

theorem sha256_of_validated (h : (st.validateAndFinalize fwupdSha256Block deviceId n).1 = some v) :
    v.sha256 = (st.fullSha.final fwupdSha256Block).1 := by
  unfold validateAndFinalize at h
  dsimp only at h
  split_ifs at h <;> cases h <;> rfl

theorem hdrBuf_validateAndFinalize :
    (st.validateAndFinalize fwupdSha256Block deviceId n).2.hdrBuf = st.hdrBuf := by
  unfold validateAndFinalize
  dsimp only
  split_ifs <;> rfl

theorem Holds.accepted (h : Holds st (some img))
    (hv : (st.validateAndFinalize fwupdSha256Block deviceId n).1 = some v) :
    Accepted deviceId n img v := by
  obtain ⟨hne, hlen, st0, rfl⟩ := h img rfl
  refine ⟨?_, st0, ((st0.holding fwupdSha256Block img).validateAndFinalize fwupdSha256Block
    deviceId n).2, ?_⟩
  · rw [sha256_of_validated hv]
    exact FwupdAt.final (FwupdAt.init st0.fullSha).update
      (FwupdAt.totalLen_update.trans (UInt32.zero_add _)) hlen
  · rw [sendImage_eq _ (by simp) (by simpa using hne) (by simpa using hlen),
      flatten_singleton, ← hv]

end Receiver

/-- The record is that of the image which the last successful activation used, as the device shows
it; before the first one it is that of the start. -/
def Recorded {k : Nat} (deviceId : List UInt8) (maxVerLen : Nat)
    (shown : List UInt8 → Fin k → UInt8)
    (start : (Fin k → UInt8) × Digest) (image : Option (List UInt8))
    (now : (Fin k → UInt8) × Digest) : Prop :=
  match image with
  | none => now = start
  | some img => ∃ v, Accepted deviceId maxVerLen img v ∧ now = (shown v.version, v.sha256)

def slotRecord (c : Ctrl) (i : Fin 2) : (Fin 8 → UInt8) × Digest := (c.fwSlots i, c.fwSlotSha256 i)

def slotText (ver : List UInt8) (j : Fin 8) : UInt8 := ver.getD j 0x20

def UsbSd.record (u : UsbSd) : (Fin 4 → UInt8) × Digest := (u.fwRev, u.fwSha256)

structure Devices.Sound (c : Ctrl) (u : UsbSd) (s : Devices) : Prop where
  nvmeHolds : Holds s.nvme.fwStream s.nvmeImage
  usbHolds : Holds s.usb.fwStream s.usbImage
  slots : ∀ i, Recorded Ctrl.deviceId 8 slotText (slotRecord c i) (s.slotImage i)
    (slotRecord s.nvme i)
  rev : Recorded usbDeviceId 4 revOf u.record s.usbActive s.usb.record

section Steps

variable {c : Ctrl} {u : UsbSd} {s s' : Devices} {cmd : Command} {sc : WriteBuffer}
  {caller : Option (Nat → UInt8)}

theorem savePersistHdr_fw (c : Ctrl) : c.savePersistHdr.fwStream = c.fwStream ∧
    c.savePersistHdr.activeFwSlot = c.activeFwSlot ∧
      slotRecord c.savePersistHdr = slotRecord c := by
  unfold Ctrl.savePersistHdr
  split <;> exact ⟨rfl, rfl, rfl⟩

theorem UsbSd.activate_rejected (h : (u.activate caller).1 = false) :
    (u.activate caller).2.record = u.record := by
  unfold activate at h ⊢
  dsimp only at h ⊢
  split at h
  · rfl
  · cases h

theorem UsbSd.writeBuffer_rejected (h : (u.writeBuffer sc).1 = false) :
    (u.writeBuffer sc).2.record = u.record := by
  unfold writeBuffer at h ⊢
  dsimp only at h ⊢
  split at h
  · rfl
  · exact activate_rejected h
  · rfl
  · cases h
  · exact activate_rejected h

theorem UsbSd.activate_recorded (h : Holds u.fwStream image) (himage : image.isSome = true)
    (hcaller : caller = none ∨ hdrWord u.fwStream.hdrBuf 4 = fwupdBinMagic)
    (hok : (u.activate caller).1 = true) :
    Recorded usbDeviceId 4 revOf start image (u.activate caller).2.record := by
  obtain ⟨img, rfl⟩ := Option.isSome_iff_exists.mp himage
  unfold activate at hok ⊢
  dsimp only at hok ⊢
  split at hok
  · cases hok
  · rename_i v hv
    refine ⟨v, h.accepted hv, ?_⟩
    rcases hcaller with rfl | hmagic
    · rfl
    · have hbuf : (u.fwStream.validateAndFinalize fwupdSha256Block usbDeviceId 4).2.hdrBuf =
          u.fwStream.hdrBuf := hdrBuf_validateAndFinalize
      cases caller with
      | none => rfl
      | some vh => simp [record, hbuf, hmagic]

/-- A commit is refused and changes no record, or only selects a slot, or records the image that the
receiver has accepted. -/
theorem commitFw_cases (c : Ctrl) (cmd : Command) :
    let r := c.commitFw fwEnv cmd
    let st := c.fwStream.validateAndFinalize fwupdSha256Block Ctrl.deviceId 8
    (∃ status, r.1 = some status ∧ status ≠ nvmeScSuccess ∧ slotRecord r.2 = slotRecord c ∧
      r.2.activeFwSlot = c.activeFwSlot ∧ (selects cmd = true → r.2.fwStream = c.fwStream)) ∨
    (selects cmd = true ∧ r.1 = none ∧ slotRecord r.2 = slotRecord c ∧
      r.2.fwStream = c.fwStream) ∨
    ∃ v, selects cmd = false ∧ st.1 = some v ∧ r.1 = none ∧
      slotRecord r.2 = Function.update (slotRecord c) (slotOf cmd)
        (slotText (Ctrl.recordedVersion st.2 cmd v.version), v.sha256) := by
  intro r st
  have hr : r = c.commitFw fwEnv cmd := rfl
  unfold Ctrl.commitFw at hr
  dsimp only at hr
  rw [← slotOf] at hr
  split at hr
  · exact .inl ⟨_, by rw [hr], by decide, by rw [hr], by rw [hr], fun _ => by rw [hr]⟩
  split at hr
  · rename_i hca
    split at hr
    · exact .inl ⟨_, by rw [hr], by decide, by rw [hr], by rw [hr], fun _ => by rw [hr]⟩
    · exact .inr (.inl ⟨decide_eq_true hca, by rw [hr], by rw [hr]; rfl, by rw [hr]⟩)
  rename_i hca
  have hno : selects cmd = false := decide_eq_false hca
  split at hr
  · exact .inl ⟨_, by rw [hr], by decide, by rw [hr], by rw [hr], fun _ => by rw [hr]⟩
  split at hr
  · refine .inl ⟨_, by rw [hr], by decide, by rw [hr]; rfl, by rw [hr], fun hyes => ?_⟩
    exact absurd (hno.symm.trans hyes) Bool.false_ne_true
  · rename_i v hv
    refine .inr (.inr ⟨v, hno, hv, by rw [hr], ?_⟩)
    rw [hr]
    funext i
    by_cases hi : i = slotOf cmd
    · subst hi
      simp only [slotRecord, Function.update_self]
      rfl
    · simp only [slotRecord, Function.update_of_ne hi]

theorem activateFw_eq (c : Ctrl) (cmd : Command) :
    let r := c.activateFw fwEnv cmd
    let r' := c.commitFw fwEnv cmd
    slotRecord r.state = slotRecord r'.2 ∧ r.state.fwStream = r'.2.fwStream ∧
      r.state.activeFwSlot = r'.2.activeFwSlot ∧ r.status = r'.1.getD nvmeScSuccess := by
  unfold Ctrl.activateFw
  rcases c.commitFw fwEnv cmd with ⟨_ | status, c'⟩
  · obtain ⟨hstream, hslot, hrec⟩ := savePersistHdr_fw c'
    exact ⟨hrec, hstream, hslot, rfl⟩
  · exact ⟨rfl, rfl, rfl, rfl⟩

theorem activateFw_rejected (h : (c.activateFw fwEnv cmd).status ≠ nvmeScSuccess) :
    slotRecord (c.activateFw fwEnv cmd).state = slotRecord c ∧
      (c.activateFw fwEnv cmd).state.activeFwSlot = c.activeFwSlot := by
  obtain ⟨hrec, -, hslot, hstatus⟩ := activateFw_eq c cmd
  rw [hstatus] at h
  rw [hrec, hslot]
  obtain ⟨_, -, -, hsame, hactive, -⟩ | ⟨-, hnone, -⟩ | ⟨v, -, -, hnone, -⟩ := commitFw_cases c cmd
  · exact ⟨hsame, hactive⟩
  all_goals
    rw [hnone] at h
    exact absurd rfl h

theorem Holds.none (st : StreamState) : Holds st none := fun _ h => by cases h

theorem downloadFw_state (c : Ctrl) (cmd : Command) : (c.downloadFw fwEnv cmd).state =
    { c with fwStream := (c.fwStream.writeChunk fwupdSha256Block (cmd.cdw11 * 4) cmd.prp1
      (if cmd.cdw12 ≠ 0 then cmd.cdw12 else (cmd.cdw10 + 1) * 4)).getD c.fwStream } := by
  unfold Ctrl.downloadFw
  dsimp only
  split
  · rename_i hnone
    rw [show fwupdSha256Block = fwEnv.compress from rfl, hnone]
    rfl
  · rename_i st hst
    rw [show fwupdSha256Block = fwEnv.compress from rfl, hst]
    rfl

theorem Devices.Sound.downloadFw (h : s.Sound c u)
    (hs : s.step (.downloadFw cmd) = some s') : s'.Sound c u := by
  cases hs
  rw [downloadFw_state]
  exact { h with nvmeHolds := h.nvmeHolds.grown }

theorem Devices.Sound.activateFw (h : s.Sound c u)
    (hguard : s.Orderly (.activateFw cmd)) (hs : s.step (.activateFw cmd) = some s') :
    s'.Sound c u := by
  cases hs
  obtain ⟨hrec, hstream, -, hstatus⟩ := activateFw_eq s.nvme cmd
  have hholds : Holds (s.nvme.activateFw fwEnv cmd).state.fwStream
      (if selects cmd then s.nvmeImage else none) := by
    rw [hstream]
    split
    · rename_i hyes
      obtain ⟨_, -, -, -, -, hkept⟩ | ⟨-, -, -, hkept⟩ | ⟨v, hno, -⟩ := commitFw_cases s.nvme cmd
      · rw [hkept hyes]
        exact h.nvmeHolds
      · rw [hkept]
        exact h.nvmeHolds
      · exact absurd (hno.symm.trans hyes) Bool.false_ne_true
    · exact .none _
  refine ⟨hholds, h.usbHolds, fun i => ?_, h.rev⟩
  dsimp only
  rw [hrec, hstatus]
  obtain ⟨_, hsome, hne, hsame, -⟩ | ⟨hyes, -, hsame, -⟩ | ⟨v, hno, hv, hnone, hslot⟩ :=
    commitFw_cases s.nvme cmd
  · rw [hsame, if_neg (by rw [hsome]; exact fun hok => hne hok.2)]
    exact h.slots i
  · rw [hsame, if_neg fun hok => Bool.false_ne_true (hok.1.symm.trans hyes)]
    exact h.slots i
  · obtain ⟨himage, hcaller⟩ := hguard hno
    obtain ⟨img, himg⟩ := Option.isSome_iff_exists.mp himage
    rw [hslot, hnone, if_pos ⟨hno, rfl⟩]
    by_cases hi : i = slotOf cmd
    · subst hi
      rw [Function.update_self, Function.update_self, himg]
      refine ⟨v, (himg ▸ h.nvmeHolds).accepted hv, ?_⟩
      unfold Ctrl.recordedVersion
      rw [hdrBuf_validateAndFinalize]
      rcases hcaller with hnone | hmagic
      · rw [hnone]
      · cases cmd.prp1 with
        | none => rfl
        | some vh => simp [hmagic]
    · rw [Function.update_of_ne hi, Function.update_of_ne hi]
      exact h.slots i

theorem Devices.Sound.writeBuffer (h : s.Sound c u)
    (hguard : s.Orderly (.writeBuffer sc)) (hs : s.step (.writeBuffer sc) = some s') :
    s'.Sound c u := by
  cases hs
  have hgrown : Holds ((s.usb.fwStream.writeChunk fwupdSha256Block sc.lba (some sc.bounce)
      sc.xferLen).getD s.usb.fwStream) (s.usbGrown sc) := h.usbHolds.grown
  -- a refused request leaves the record, and what it is the record of
  have hrefused : (s.usb.writeBuffer sc).1 = false →
      Recorded usbDeviceId 4 revOf u.record s.usbActive (s.usb.writeBuffer sc).2.record := by
    intro hno
    rw [UsbSd.writeBuffer_rejected hno]
    exact h.rev
  simp only [Devices.Orderly] at hguard
  cases hmode : sc.mode with
  | other =>
    have hsame : s.usb.writeBuffer sc = (false, s.usb) := by simp only [UsbSd.writeBuffer, hmode]
    simp only [hsame]
    exact { h with }
  | activateDeferred =>
    rw [hmode] at hguard
    have hcall : s.usb.writeBuffer sc =
        s.usb.activate (if sc.xferLen > 0 then some sc.bounce else none) := by
      simp only [UsbSd.writeBuffer, hmode]
    refine ⟨h.nvmeHolds, .none _, h.slots, ?_⟩
    cases hok : (s.usb.writeBuffer sc).1 with
    | false => exact hrefused hok
    | true =>
      rw [hcall] at hok ⊢
      refine UsbSd.activate_recorded h.usbHolds hguard.1 ?_ hok
      rcases hguard.2 with hzero | hmagic
      · rw [hzero]
        exact .inl rfl
      · exact .inr hmagic
  | downloadOffsetSave =>
    refine ⟨h.nvmeHolds, ?_, h.slots, ?_⟩
    all_goals
      unfold UsbSd.writeBuffer
      rw [hmode]
      cases hst : s.usb.fwStream.writeChunk fwupdSha256Block sc.lba (some sc.bounce) sc.xferLen with
      | _ =>
        rw [hst] at hgrown
        first | exact hgrown | exact h.rev
  | downloadSave =>
    rw [hmode] at hguard
    refine ⟨h.nvmeHolds, .none _, h.slots, ?_⟩
    cases hok : (s.usb.writeBuffer sc).1 with
    | false => exact hrefused hok
    | true =>
      cases hst : s.usb.fwStream.writeChunk fwupdSha256Block sc.lba (some sc.bounce)
          sc.xferLen with
      | none => simp [UsbSd.writeBuffer, hmode, hst] at hok
      | some st =>
        have hcall : s.usb.writeBuffer sc =
            UsbSd.activate { s.usb with fwStream := st } none := by
          simp only [UsbSd.writeBuffer, hmode, hst]
        rw [hst] at hgrown
        rw [hcall] at hok ⊢
        exact UsbSd.activate_recorded hgrown hguard (.inl rfl) hok

end Steps

/-- In every orderly run the record of a slot and of the disk is that of the image which was
streamed for its last successful activation, with the digest of all of that image; before the first
one it is that of the start; and a refused request leaves it alone. -/
theorem records_of_one_image {c : Ctrl} {u : UsbSd} {t : Devices}
    (h : Reaches Devices.step Devices.Orderly { nvme := c, usb := u } t) :
    (∀ i, Recorded Ctrl.deviceId 8 slotText (slotRecord c i) (t.slotImage i)
      (slotRecord t.nvme i)) ∧
    Recorded usbDeviceId 4 revOf u.record t.usbActive t.usb.record ∧
    (∀ cmd, (t.nvme.activateFw fwEnv cmd).status ≠ nvmeScSuccess →
      slotRecord (t.nvme.activateFw fwEnv cmd).state = slotRecord t.nvme ∧
        (t.nvme.activateFw fwEnv cmd).state.activeFwSlot = t.nvme.activeFwSlot) ∧
    ∀ sc, (t.usb.writeBuffer sc).1 = false → (t.usb.writeBuffer sc).2.record = t.usb.record := by
  have hsound : t.Sound c u := by
    refine h.invariant ⟨.none _, .none _, fun _ => rfl, rfl⟩ fun s op s' hs hguard hstep => ?_
    cases op with
    | downloadFw cmd => exact hs.downloadFw hstep
    | activateFw cmd => exact hs.activateFw hguard hstep
    | writeBuffer sc => exact hs.writeBuffer hguard hstep
  exact ⟨hsound.slots, hsound.rev, fun cmd => activateFw_rejected,
    fun sc => UsbSd.writeBuffer_rejected⟩

/-- 64 bytes without a header, in one request that also activates them. -/
def rawImage : WriteBuffer := ⟨0x05, 0, 64, some fun _ => 1⟩

def freshUsb : UsbSd := ⟨{}, revOf [0x31, 0x2e, 0x30, 0x30], fun _ => 0⟩

def blankNvme : Ctrl :=
  ⟨false, ⟨0, 0, fun _ => 0, by decide, by decide, fun _ _ => rfl⟩, 0, 0, 0, {}, 1, fun _ _ => 0x20,
    fun _ _ => 0, 0, {}⟩

theorem raw_image_recorded :
    ∃ v, Accepted usbDeviceId 4 (replicate 64 1) v ∧
      (freshUsb.writeBuffer rawImage).2.record = (revOf v.version, v.sha256) := by
  have hmode : rawImage.mode = .downloadSave := by decide
  have hok : (freshUsb.writeBuffer rawImage).1 = true := by decide +kernel
  have hstreamed : ({ nvme := blankNvme, usb := freshUsb } : Devices).usbGrown rawImage =
      some (replicate 64 1) := by decide +kernel
  have hrun : Reaches Devices.step Devices.Orderly { nvme := blankNvme, usb := freshUsb }
      { nvme := blankNvme, usb := (freshUsb.writeBuffer rawImage).2,
        usbActive := some (replicate 64 1) } := by
    refine .tail (i := .writeBuffer rawImage) .refl ?_ ?_
    · simp only [Devices.Orderly, hmode, hstreamed, Option.isSome_some]
    · simp only [Devices.step, hmode, hok, hstreamed]
  generalize (freshUsb.writeBuffer rawImage).2 = u at hrun ⊢
  exact (records_of_one_image hrun).2.1

/-- The image is activated again without another download, and gets another digest. -/
theorem second_activation_other_digest :
    let first := freshUsb.writeBuffer rawImage
    let again := first.2.writeBuffer ⟨0x0f, 0, 0, none⟩
    first.1 = true ∧ again.1 = true ∧ first.2.fwSha256 0 ≠ again.2.fwSha256 0 := by
  decide +kernel

end Six.Fwupd
