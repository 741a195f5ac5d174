import Six.Nvme.Protocol

/-! The namespace of the NVMe controller: a part of the backing file, in which the controller also
keeps its own header.  `Mirrors` relates the file to a plain array of bytes. -/

namespace Six.Nvme

open Lib UInt32 Ctrl

namespace Content

def store (ns : Buffer) (off n : Nat) (src : Buffer) : Buffer :=
  fun i => if off ≤ i ∧ i < off + n then src (i - off) else ns i

def InNamespace (sectors : UInt32) (cmd : Command) : Prop :=
  (Ctrl.slba cmd).toNat + (Ctrl.nlb cmd).toNat ≤ sectors.toNat

instance (sectors : UInt32) (cmd : Command) : Decidable (InNamespace sectors cmd) :=
  inferInstanceAs (Decidable (_ ≤ _))

def deallocate (sectors : UInt32) : List Ctrl.DsmRange → Buffer → Buffer
  | [], ns => ns
  | r :: rs, ns =>
    if r.slba + r.nlb > sectors then ns
    else deallocate sectors rs (store ns (r.slba.toNat * 512) (r.nlb.toNat * 512) fun _ => 0)

def apply (sectors : UInt32) (cmd : Command) (ns : Buffer) : Buffer :=
  match IoOpcode.ofCode cmd.opcode, cmd.prp1 with
  | .write, some buf =>
    if InNamespace sectors cmd then
      store ns ((Ctrl.slba cmd).toNat * 512) ((Ctrl.nlb cmd).toNat * 512) buf
    else ns
  | .writeZeroes, _ =>
    if InNamespace sectors cmd then
      store ns ((Ctrl.slba cmd).toNat * 512) ((Ctrl.nlb cmd).toNat * 512) fun _ => 0
    else ns
  | .dsm, some buf =>
    if cmd.cdw11 &&& Ctrl.nvmeDsmgmtAd ≠ 0 then
      deallocate sectors (Ctrl.dsmRanges buf ((cmd.cdw10 &&& 0xff) + 1).toNat) ns
    else ns
  | _, _ => ns

end Content

/-- The controller is attached to a namespace of `sectors` sectors inside its file, and the file
holds `ns` there. -/
structure Mirrors (sectors : UInt32) (c : Ctrl) (ns : Buffer) : Prop where
  online : c.online = true
  sectors_eq : c.sectors = sectors
  inside : c.base.toNat + sectors.toNat * 512 ≤ c.img.size
  content : ∀ i < sectors.toNat * 512, c.img.byte (c.base.toNat + i) = ns i

namespace Mirrors

variable {env : Env} {sectors : UInt32} {c c' : Ctrl} {ns ns' : Buffer} {cmd : Command}
  {off n : Nat} {src : Buffer}

section

variable (h : Mirrors sectors c ns)
include h

theorem congr (heq : ∀ i < sectors.toNat * 512, ns i = ns' i) : Mirrors sectors c ns' :=
  { h with content := fun i hi => (h.content i hi).trans (heq i hi) }

theorem inside_limit : c.base.toNat + sectors.toNat * 512 ≤ c.img.limit :=
  h.inside.trans c.img.size_le

theorem seek_sector (first : UInt32)
    (hfirst : first.toNat ≤ sectors.toNat) :
    (c.lseek (c.base + first * 512)).pos = c.base.toNat + first.toNat * 512 := by
  have hlimit := h.inside_limit
  have hmax := c.img.limit_lt
  have hmul : (first * 512).toNat = first.toNat * 512 := by
    rw [UInt32.toNat_mul]
    exact Nat.mod_eq_of_lt (by simp; omega)
  have hsum : (c.base + first * 512).toNat = c.base.toNat + first.toNat * 512 := by
    rw [UInt32.toNat_add, hmul]
    exact Nat.mod_eq_of_lt (by omega)
  show seek c.pos (c.base + first * 512) = _
  rw [seek_of_lt (by omega), hsum]

theorem lseek (pos : UInt32) : Mirrors sectors (c.lseek pos) ns := { h with }

theorem write (hpos : c.pos = c.base.toNat + off) (n : Nat)
    (src : Buffer) : Mirrors sectors (c.write n src).2 (Content.store ns off n src) where
  online := h.online
  sectors_eq := h.sectors_eq
  inside := h.inside.trans HostFile.size_le_write
  content := by
    intro i hi
    have hlimit := h.inside_limit
    show (c.img.write c.pos n src).byte (c.base.toNat + i) = _
    rw [HostFile.write_byte_of_lt (by omega), hpos]
    unfold Content.store
    have hsub : c.base.toNat + i - (c.base.toNat + off) = i - off := by omega
    rw [hsub, h.content i hi]
    exact if_congr (by omega) rfl rfl

theorem zeroLoop (hpos : c.pos = c.base.toNat + off) (rem : Nat) :
    Mirrors sectors (c.zeroLoop rem) (Content.store ns off (rem * 512) fun _ => 0) := by
  induction rem using Nat.strong_induction_on generalizing c ns off with
  | _ rem ih =>
    rw [zeroLoop]
    split
    · rename_i hrem
      apply h.congr
      intro i _
      exact (if_neg (by omega)).symm
    · rename_i hrem
      have hlimit := h.inside_limit
      have hw := h.write hpos (min rem 8 * 512) fun _ => 0
      have hadvance : (c.write (min rem 8 * 512) fun _ => 0).2.pos =
          c.base.toNat + (off + c.img.writeCount c.pos (min rem 8 * 512)) := by
        show c.pos + _ = _
        rw [hpos, Nat.add_assoc]
      apply (ih (rem - min rem 8) (by omega) hw hadvance).congr
      intro i hi
      have hcount : c.img.writeCount c.pos (min rem 8 * 512) =
          min (min rem 8 * 512) (c.img.limit - c.pos) := rfl
      unfold Content.store
      rw [hcount, hpos]
      split_ifs <;> first | rfl | omega

theorem zeroSectors (first count : UInt32)
    (hcount : ¬ first + count > sectors) : Mirrors sectors (c.zeroSectors first count)
      (Content.store ns (first.toNat * 512) (count.toNat * 512) fun _ => 0) := by
  have hpast : c.pastEnd first count = false := by
    unfold pastEnd
    rw [h.sectors_eq]
    exact decide_eq_false hcount
  unfold Ctrl.zeroSectors
  rw [h.online, h.sectors_eq, hpast]
  split
  · rename_i hskip
    have hfirst : sectors.toNat ≤ first.toNat := by
      simpa [le_iff_toNat_le] using hskip
    apply h.congr
    intro i hi
    exact (if_neg (by omega)).symm
  · rename_i hskip
    have hfirst : first.toNat < sectors.toNat := by
      simpa [le_iff_toNat_le] using hskip
    exact (h.lseek _).zeroLoop (h.seek_sector first hfirst.le) count.toNat

theorem dsmLoop (rs : List Ctrl.DsmRange) :
    Mirrors sectors (c.dsmLoop rs).2 (Content.deallocate sectors rs ns) := by
  induction rs generalizing c ns with
  | nil => exact h
  | cons r rs ih =>
    unfold dsmLoop Content.deallocate pastEnd
    rw [h.sectors_eq]
    by_cases hpast : r.slba + r.nlb > sectors
    · rw [if_pos (decide_eq_true hpast), if_pos hpast]
      exact h
    · rw [if_neg (by simpa using hpast), if_neg hpast]
      apply ih
      unfold deallocate
      split
      · exact { h.zeroSectors r.slba r.nlb hpast with }
      · rename_i hzero
        have hnlb : r.nlb.toNat = 0 := by simpa [lt_iff_toNat_lt] using hzero
        apply h.congr
        intro i _
        unfold Content.store
        rw [hnlb, if_neg (by omega)]

theorem pastEnd_eq (hwrap : (slba cmd).toNat + (nlb cmd).toNat < 2 ^ 32) :
    c.pastEnd (slba cmd) (nlb cmd) = !decide (Content.InNamespace sectors cmd) := by
  unfold pastEnd
  rw [h.sectors_eq, ← decide_not]
  refine decide_eq_decide.mpr ?_
  rw [gt_iff_lt, lt_iff_toNat_lt, UInt32.toNat_add, Nat.mod_eq_of_lt hwrap]
  exact Nat.not_le.symm

end

theorem nlb_pos (cmd : Command) : 1 ≤ (nlb cmd).toNat ∧ (nlb cmd).toNat ≤ 65536 := by
  have hand : (cmd.cdw12 &&& 0xffff).toNat = cmd.cdw12.toNat % 2 ^ 16 := by
    rw [UInt32.toNat_and]
    exact Nat.and_two_pow_sub_one_eq_mod _ 16
  unfold nlb
  rw [UInt32.toNat_add, hand]
  simp
  omega

theorem toNat_length (h : Content.InNamespace sectors cmd) (hm : Mirrors sectors c ns) :
    (nlb cmd * 512).toNat = (nlb cmd).toNat * 512 := by
  have hlimit := hm.inside_limit
  have hmax := c.img.limit_lt
  unfold Content.InNamespace at h
  rw [UInt32.toNat_mul]
  exact Nat.mod_eq_of_lt (by simp; omega)

section

variable (h : Mirrors sectors c ns)
include h

theorem execRead : Mirrors sectors (c.execRead cmd).state ns := by
  unfold Ctrl.execRead
  split
  · exact h
  · split
    · exact { h with }
    · dsimp only
      split <;> exact { h with }

theorem execRead_data (hin : Content.InNamespace sectors cmd)
    (hbuf : cmd.prp1 = some buf) : (c.execRead cmd).status = nvmeScSuccess ∧
      ∃ data, (c.execRead cmd).prp1 = some data ∧
        ∀ i < (nlb cmd).toNat * 512, data i = ns ((slba cmd).toNat * 512 + i) := by
  have hwrap : (slba cmd).toNat + (nlb cmd).toNat < 2 ^ 32 :=
    Nat.lt_of_le_of_lt hin sectors.toNat_lt
  have hpast : ¬ c.pastEnd (slba cmd) (nlb cmd) = true := by
    rw [h.pastEnd_eq hwrap, decide_eq_true hin]
    decide
  have hlen := toNat_length hin h
  have hpos := h.seek_sector (slba cmd) (by unfold Content.InNamespace at hin; omega)
  have hinside := h.inside
  unfold Content.InNamespace at hin
  have hcount : c.img.readCount (c.base.toNat + (slba cmd).toNat * 512)
      ((nlb cmd).toNat * 512) = (nlb cmd).toNat * 512 := by
    unfold HostFile.readCount
    omega
  unfold Ctrl.execRead
  rw [hbuf]
  dsimp only
  rw [if_neg hpast, hpos, hlen]
  rw [show (c.lseek (c.base + slba cmd * 512)).img = c.img from rfl, hcount, if_neg (by omega)]
  refine ⟨rfl, _, rfl, fun i hi => ?_⟩
  rw [if_pos hi, Nat.add_assoc]
  exact h.content _ (by omega)

theorem execWrite (hop : IoOpcode.ofCode cmd.opcode = .write)
    (hwrap : (slba cmd).toNat + (nlb cmd).toNat < 2 ^ 32) :
    Mirrors sectors (c.execWrite cmd).state (Content.apply sectors cmd ns) := by
  unfold Ctrl.execWrite Content.apply
  rw [hop]
  cases hprp : cmd.prp1 with
  | none => exact h
  | some buf =>
    dsimp only
    rw [h.pastEnd_eq hwrap]
    by_cases hin : Content.InNamespace sectors cmd
    · rw [decide_eq_true hin, if_pos hin, if_neg (by decide), toNat_length hin h]
      have hpos := h.seek_sector (slba cmd) (by unfold Content.InNamespace at hin; omega)
      have hw := (h.lseek (c.base + slba cmd * 512)).write hpos ((nlb cmd).toNat * 512) buf
      split <;> exact { hw with }
    · rw [decide_eq_false hin, if_neg hin, if_pos (by decide)]
      exact { h with }

theorem execWriteZeroes (hop : IoOpcode.ofCode cmd.opcode = .writeZeroes) :
    Mirrors sectors (c.execWriteZeroes cmd).state (Content.apply sectors cmd ns) := by
  unfold Ctrl.execWriteZeroes Content.apply
  rw [hop]
  by_cases hin : Content.InNamespace sectors cmd
  · have hwrap : (slba cmd).toNat + (nlb cmd).toNat < 2 ^ 32 :=
      Nat.lt_of_le_of_lt hin sectors.toNat_lt
    have hpast := h.pastEnd_eq hwrap
    rw [decide_eq_true hin] at hpast
    rw [hpast, if_neg (by decide)]
    rw [if_pos hin]
    have hle : ¬ slba cmd + nlb cmd > sectors := by
      rw [gt_iff_lt, lt_iff_toNat_lt, UInt32.toNat_add, Nat.mod_eq_of_lt hwrap]
      exact Nat.not_lt.mpr hin
    exact { h.zeroSectors _ _ hle with }
  · dsimp only
    rw [if_neg hin]
    split
    · exact { h with }
    · rename_i hpast
      -- the sum has wrapped, so that the first sector is past the end and nothing is written
      have hle : ¬ slba cmd + nlb cmd > sectors := by
        simpa [pastEnd, h.sectors_eq] using hpast
      have hz := h.zeroSectors _ _ hle
      refine { hz.congr fun i hi => if_neg ?_ with }
      have hlimit := h.inside_limit
      have hmax := c.img.limit_lt
      have hnlb := nlb_pos cmd
      rw [gt_iff_lt, lt_iff_toNat_lt, UInt32.toNat_add] at hle
      unfold Content.InNamespace at hin
      omega

theorem execDsm (hop : IoOpcode.ofCode cmd.opcode = .dsm) :
    Mirrors sectors (c.execDsm cmd).state (Content.apply sectors cmd ns) := by
  unfold Ctrl.execDsm Content.apply
  rw [hop]
  cases hprp : cmd.prp1 with
  | none => exact h
  | some buf =>
    dsimp only
    split
    · apply dsmLoop
      exact { h with }
    · exact { h with }

theorem execIoSqe (hwrap : IoOpcode.ofCode cmd.opcode = .write →
      (slba cmd).toNat + (nlb cmd).toNat < 2 ^ 32) :
    Mirrors sectors (c.execIoSqe cmd).state (Content.apply sectors cmd ns) := by
  unfold Ctrl.execIoSqe
  rw [h.online, if_neg (by decide)]
  cases hop : IoOpcode.ofCode cmd.opcode with
  | write => exact h.execWrite hop (hwrap hop)
  | writeZeroes => exact h.execWriteZeroes hop
  | dsm => exact h.execDsm hop
  | read =>
    have hsame : Content.apply sectors cmd ns = ns := by simp only [Content.apply, hop]
    rw [hsame]
    exact h.execRead
  | flush =>
    have hsame : Content.apply sectors cmd ns = ns := by simp only [Content.apply, hop]
    rw [hsame]
    exact { h with online := rfl }
  | unknown =>
    have hsame : Content.apply sectors cmd ns = ns := by simp only [Content.apply, hop]
    rw [hsame]
    exact h

end

end Mirrors

/-- A firmware commit that the controller accepts: it activates a slot that has an image, or the
staged image is valid and goes into the second slot. -/
def Ctrl.AcceptsCommit (env : Env) (c : Ctrl) (cmd : Command) : Prop :=
  if (cmd.cdw10 >>> 3) &&& 0x07 = 2 then
    ∃ slot : Fin 2, Ctrl.fwSlotOf cmd = (if slot = 0 then 1 else 2) ∧
      c.fwSlots slot 0 ≠ 0x20 ∧ c.fwSlots slot 0 ≠ 0
  else
    Ctrl.fwSlotOf cmd = 2 ∧ ((c.fwStream.validateAndFinalize env.compress Ctrl.deviceId 8).1).isSome

namespace Mirrors

variable {env : Env} {sectors : UInt32} {c : Ctrl} {ns : Buffer} {cmd : Command}

theorem commitFw (h : Mirrors sectors c ns) (hcommit : ¬ c.AcceptsCommit env cmd) :
    ∃ status c', c.commitFw env cmd = (some status, c') ∧ Mirrors sectors c' ns := by
  unfold Ctrl.AcceptsCommit at hcommit
  unfold Ctrl.commitFw
  dsimp only
  by_cases hslot : fwSlotOf cmd < 1 ∨ fwSlotOf cmd > 2
  · rw [if_pos hslot]
    exact ⟨_, _, rfl, h⟩
  rw [if_neg hslot]
  have htwo : fwSlotOf cmd ≠ 1 → fwSlotOf cmd = 2 := by
    intro hone
    rw [not_or, gt_iff_lt, lt_iff_toNat_lt, lt_iff_toNat_lt] at hslot
    have hne : (fwSlotOf cmd).toNat ≠ 1 := fun heq => hone (UInt32.toNat_inj.mp heq)
    apply UInt32.toNat_inj.mp
    simp only [reduceToNat] at hslot ⊢
    omega
  by_cases hca : (cmd.cdw10 >>> 3) &&& 0x07 = 2
  · rw [if_pos hca] at hcommit
    rw [if_pos hca]
    by_cases hblank : c.fwSlots (if fwSlotOf cmd = 1 then 0 else 1) 0 = 0x20 ∨
        c.fwSlots (if fwSlotOf cmd = 1 then 0 else 1) 0 = 0
    · rw [if_pos hblank]
      exact ⟨_, _, rfl, h⟩
    · refine absurd ⟨if fwSlotOf cmd = 1 then 0 else 1, ?_, not_or.mp hblank⟩ hcommit
      by_cases hone : fwSlotOf cmd = 1
      · simp [hone]
      · simp [htwo hone]
  · rw [if_neg hca] at hcommit
    rw [if_neg hca]
    by_cases hone : fwSlotOf cmd = 1
    · rw [if_pos hone]
      exact ⟨_, _, rfl, h⟩
    · rw [if_neg hone]
      have hnone := Option.not_isSome_iff_eq_none.mp fun himage => hcommit ⟨htwo hone, himage⟩
      rw [hnone]
      exact ⟨_, _, rfl, { h with }⟩

theorem execAdminSqe (h : Mirrors sectors c ns)
    (hcommit : AdminOpcode.ofCode cmd.opcode = .activateFw → ¬ c.AcceptsCommit env cmd) :
    Mirrors sectors (c.execAdminSqe env cmd).state ns := by
  unfold Ctrl.execAdminSqe
  cases hop : AdminOpcode.ofCode cmd.opcode with
  | identify =>
    unfold identify
    dsimp only
    split_ifs <;> exact h
  | getLogPage =>
    unfold getLogPage
    dsimp only
    split_ifs <;> exact h
  | downloadFw =>
    unfold downloadFw
    dsimp only
    split
    · exact h
    · exact { h with }
  | activateFw =>
    obtain ⟨status, c', hrefused, hc'⟩ := h.commitFw (hcommit hop)
    unfold activateFw
    rw [hrefused]
    exact hc'
  | formatNvm =>
    dsimp only
    split_ifs
    · exact h
    · exact { h with }
  | createCq | createSq | deleteCq | deleteSq | abortCmd | getFeatures | setFeatures | unknown =>
    exact h

end Mirrors

namespace Driver

variable {env : Env} {sectors : UInt32} {c : Ctrl} {ns : Buffer} {op : Op} {d d' : Driver}

/-- The driver together with the content that the I/O commands so far have given to the
namespace. -/
def stepContent (env : Env) (s : Driver × Buffer) (op : Op) : Option (Driver × Buffer) :=
  (s.1.step env op).map fun d =>
    match op with
    | .submit .io cmd => (d, Content.apply s.1.ctrl.sectors cmd s.2)
    | _ => (d, s.2)

theorem stepContent_io (h : d.step env (.submit .io cmd) = some d') :
    stepContent env (d, ns) (.submit .io cmd) = some (d', Content.apply d.ctrl.sectors cmd ns) := by
  unfold stepContent
  rw [h]
  rfl

theorem stepContent_admin (h : d.step env (.submit .admin cmd) = some d') :
    stepContent env (d, ns) (.submit .admin cmd) = some (d', ns) := by
  unfold stepContent
  rw [h]
  rfl

/-- A step that the controller gets right: a write does not wrap around the 32 bits of the sector
number, and no firmware commit is accepted. -/
def Safe (env : Env) (s : Driver × Buffer) : Op → Prop
  | .submit .io cmd => IoOpcode.ofCode cmd.opcode = .write →
      (Ctrl.slba cmd).toNat + (Ctrl.nlb cmd).toNat < 2 ^ 32
  | .submit .admin cmd =>
    AdminOpcode.ofCode cmd.opcode = .activateFw → ¬ s.1.ctrl.AcceptsCommit env cmd
  | .reset => True

structure Faithful (sectors : UInt32) (s : Driver × Buffer) : Prop where
  idle : s.1.Idle
  mirrors : Mirrors sectors s.1.ctrl s.2

theorem Faithful.step (h : Faithful sectors s) (hsafe : Safe env s op)
    (hstep : stepContent env s op = some t) : Faithful sectors t := by
  obtain ⟨d, hd, ht⟩ := Option.map_eq_some_iff.mp hstep
  cases op with
  | submit k cmd =>
    obtain ⟨hidle, hctrl⟩ := h.idle.step_submit hd
    cases k with
    | io =>
      subst ht
      refine ⟨hidle, ?_⟩
      rw [hctrl, h.mirrors.sectors_eq]
      exact h.mirrors.execIoSqe hsafe
    | admin =>
      subst ht
      refine ⟨hidle, ?_⟩
      rw [hctrl]
      exact h.mirrors.execAdminSqe hsafe
  | reset =>
    subst ht
    refine ⟨h.idle.step hd, ?_⟩
    cases hd
    exact { h.mirrors with }

/-- After every run of safe steps, a read returns what the I/O commands have written, and a safe
admin command changes no byte of the namespace. -/
theorem read_after_write {d : Driver} {content : Buffer} (hc : Mirrors sectors c ns)
    (h : Reaches (stepContent env) (Safe env) (start c, ns) (d, content)) :
    (∀ cmd buf, IoOpcode.ofCode cmd.opcode = .read → Content.InNamespace sectors cmd →
      cmd.prp1 = some buf →
      ∃ done e data, d.submit env .io cmd = some done ∧ done.code = 0 ∧ done.executed = [e] ∧
        e.prp1 = some data ∧
        ∀ i < (Ctrl.nlb cmd).toNat * 512, data i = content ((Ctrl.slba cmd).toNat * 512 + i)) ∧
    ∀ cmd d', Safe env (d, content) (.submit .admin cmd) →
      d.step env (.submit .admin cmd) = some d' → ∀ i < sectors.toNat * 512,
        d'.ctrl.img.byte (d'.ctrl.base.toNat + i) = d.ctrl.img.byte (d.ctrl.base.toNat + i) := by
  have hd : Faithful sectors (d, content) := by
    apply h.invariant (P := Faithful sectors)
    · exact ⟨idle_start c, hc⟩
    · exact fun s op t hs hsafe hstep => hs.step hsafe hstep
  constructor
  · intro cmd buf hop hin hbuf
    obtain ⟨hq, hk⟩ := hd.idle.queue .io
    obtain ⟨q', hsub, -, -⟩ := hq.submitSyncCmd env d.ctrl cmd
    have hexec : d.ctrl.exec env .io ((d.queue .io).stamp cmd) =
        d.ctrl.execRead ((d.queue .io).stamp cmd) := by
      show d.ctrl.execIoSqe _ = _
      unfold execIoSqe
      rw [hd.mirrors.online, if_neg (by decide),
        show IoOpcode.ofCode ((d.queue .io).stamp cmd).opcode = .read from hop]
    have hin' : Content.InNamespace sectors ((d.queue .io).stamp cmd) := hin
    obtain ⟨hstatus, data, hdata, hbytes⟩ := hd.mirrors.execRead_data hin' hbuf
    rw [hk, hexec] at hsub
    refine ⟨_, _, data, hsub, ?_, rfl, hdata, hbytes⟩
    rw [hstatus]
    rfl
  · intro cmd d' hsafe hstep i hi
    obtain ⟨-, hctrl⟩ := hd.idle.step_submit hstep
    have hafter : Mirrors sectors d'.ctrl content := by
      rw [hctrl]
      exact hd.mirrors.execAdminSqe hsafe
    rw [hd.mirrors.content i hi]
    exact hafter.content i hi

/-- Commands of the runs below: a write and a read of the first sector, and the activation of the
firmware in the first slot. -/
def aWrite : Command := { opcode := 1, nsid := 1, prp1 := some fun _ => 0x55 }
def aRead : Command := { opcode := 2, nsid := 1, prp1 := some fun _ => 0 }
def anActivation : Command := { opcode := 0x10, cdw10 := 17 }

theorem apply_aWrite (h : i < 512) : Content.apply 8 aWrite ns i = 0x55 := by
  have hin : Content.InNamespace 8 aWrite := by decide
  have hop : IoOpcode.ofCode aWrite.opcode = .write := by decide
  have hprp : aWrite.prp1 = some fun _ => 0x55 := rfl
  have hslba : (slba aWrite).toNat = 0 := by decide
  have hnlb : (nlb aWrite).toNat = 1 := by decide
  unfold Content.apply
  rw [hop, hprp]
  rw [if_pos hin, hslba, hnlb]
  exact if_pos (by omega)

/-- A sector is written, a firmware slot that does not exist is asked for, and the sector is read
back. -/
theorem read_after_write_first_sector :
    ∃ d data, run (stepContent anEnv) (start aCtrl, fun _ => 0)
        [.submit .io aWrite, .submit .admin { opcode := 0x10, cdw10 := 3 }] =
          some (d, Content.apply 8 aWrite fun _ => 0) ∧
      ((d.submit anEnv .io aRead).bind fun done => done.executed.head?).bind (·.prp1) = some data ∧
      ∀ i < 512, data i = 0x55 := by
  have hc : Mirrors 8 aCtrl fun _ => 0 := ⟨rfl, rfl, by decide, fun _ _ => rfl⟩
  have h1 : Reaches (stepContent anEnv) (Safe anEnv) (start aCtrl, fun _ => 0)
      (start aCtrl, fun _ => 0) := .refl
  obtain ⟨d, hwrite, hidle, -⟩ := (idle_start aCtrl).submit anEnv .io aWrite
  obtain ⟨d', hcommit, -, -⟩ := hidle.submit anEnv .admin { opcode := 0x10, cdw10 := 3 }
  have h2 := h1.tail (i := Op.submit .io aWrite) (fun _ => by decide) (stepContent_io hwrite)
  have h3 := h2.tail (i := Op.submit .admin { opcode := 0x10, cdw10 := 3 })
    (fun _ haccepts => absurd haccepts.1 (by decide)) (stepContent_admin hcommit)
  obtain ⟨done, e, data, hsub, -, hexec, hdata, hbytes⟩ :=
    (read_after_write hc h3).1 aRead _ rfl (by decide) rfl
  refine ⟨d', data, ?_, ?_, fun i hi => ?_⟩
  · simp only [run, stepContent_io hwrite, stepContent_admin hcommit, Option.bind_some]
    rfl
  · rw [hsub, Option.bind_some, hexec]
    exact hdata
  · have hslba : (slba aRead).toNat * 512 + i = i := Nat.zero_add i
    rw [hbytes i hi, hslba]
    exact apply_aWrite hi

/-- The activation of a firmware slot overwrites the first sector with the header of the
controller. -/
theorem activation_overwrites_first_sector :
    let s := run (stepContent anEnv) (start aCtrl, fun _ => 0)
      [.submit .io aWrite, .submit .admin anActivation]
    s.map (fun s => s.2 0) = some 0x55 ∧
      (((s.bind fun s => s.1.submit anEnv .io aRead).bind fun done => done.executed.head?).bind
        fun e => e.prp1.map fun data => data 0) = some 0x32 := by
  decide +kernel

end Driver

end Six.Nvme
