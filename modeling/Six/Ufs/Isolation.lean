import Six.Ufs.Scsi

/-! Which bytes of the host file a `READ(10)`, `WRITE(10)` or `UNMAP` reaches.  The check of the
driver adds the LBA and the length in 32 bits. -/

namespace Six.Ufs

open Lib List HostFile

namespace UfsState

variable {u : UfsState} {lun : Fin 3} {e : UtrdEntry} {x : Nat}

def InLun (u : UfsState) (lun : Fin 3) (x : Nat) : Prop :=
  u.base.toNat + (ufsLuns lun).byteOffset.toNat ≤ x ∧
    x < u.base.toNat + (ufsLuns lun).byteOffset.toNat + (ufsLuns lun).nrSectors.toNat * 512

def InHdr (u : UfsState) (x : Nat) : Prop :=
  u.base.toNat + ufsImgHdrOffset.toNat ≤ x ∧ x < u.base.toNat + ufsImgRpmbOffset.toNat

def InRpmb (u : UfsState) (x : Nat) : Prop :=
  u.base.toNat + ufsImgRpmbOffset.toNat ≤ x ∧ x < u.base.toNat + ufsImgBootAOffset.toNat

theorem InLun.elsewhere (h : u.InLun lun x) :
    ¬ u.InHdr x ∧ ¬ u.InRpmb x ∧ ∀ lun' ≠ lun, ¬ u.InLun lun' x := by
  have hoff : ∀ l, ufsImgBootAOffset.toNat ≤ (ufsLuns l).byteOffset.toNat := by decide
  have hrpmb : ufsImgRpmbOffset.toNat ≤ ufsImgBootAOffset.toNat := by decide
  have hluns : ∀ l l', l' ≠ l →
      (ufsLuns l).byteOffset.toNat + (ufsLuns l).nrSectors.toNat * 512 ≤
        (ufsLuns l').byteOffset.toNat ∨
      (ufsLuns l').byteOffset.toNat + (ufsLuns l').nrSectors.toNat * 512 ≤
        (ufsLuns l).byteOffset.toNat := by decide
  have := hoff lun
  unfold InLun at h
  refine ⟨fun hh => ?_, fun hr => ?_, fun lun' hne hl => ?_⟩
  · unfold InHdr at hh
    omega
  · unfold InRpmb at hr
    omega
  · have := hluns lun lun' hne
    unfold InLun at hl
    omega

/-- Every byte that a completed command read or wrote belongs to the LUN, and every other byte is
as before. -/
structure Isolated (u : UfsState) (lun : Fin 3) (c : Completed) : Prop where
  inside : ∀ a ∈ c.accesses, ∀ x, a.pos ≤ x → x < a.pos + a.len → u.InLun lun x
  outside : ∀ x, ¬ u.InLun lun x → c.state.img.byte x = u.img.byte x

/-- The position of the first byte of a command: where the seek to its first sector leads, or the
old position when the seek fails. -/
def startPos (u : UfsState) (lun : Fin 3) (e : UtrdEntry) : Nat :=
  seek u.pos (u.base + startOff lun e)

def Reached (u : UfsState) (pos n x : Nat) : Prop := pos ≤ x ∧ x < pos + u.img.writeCount pos n

theorem writeCount_add (f : HostFile) (pos m n : Nat) :
    f.writeCount pos (m + n) = f.writeCount pos m + f.writeCount (pos + f.writeCount pos m) n := by
  unfold writeCount
  omega

theorem write_byte_of_not_reached (h : ¬ u.Reached u.pos n x) :
    (u.write n src).2.img.byte x = u.img.byte x :=
  if_neg h

theorem unmapLoop_reached (rem : Nat) (accesses : List Access) :
    (∀ x, (∃ a ∈ (u.unmapLoop rem accesses).2, a.pos ≤ x ∧ x < a.pos + a.len) ↔
      (∃ a ∈ accesses, a.pos ≤ x ∧ x < a.pos + a.len) ∨ u.Reached u.pos (rem * 512) x) ∧
    ∀ x, ¬ u.Reached u.pos (rem * 512) x →
      (u.unmapLoop rem accesses).1.img.byte x = u.img.byte x := by
  fun_induction unmapLoop u rem accesses with
  | case1 u accesses => simp [Reached, writeCount]
  | case2 u rem accesses hrem w ih =>
    -- one chunk is followed by the chunks of the remaining sectors
    have hsplit : rem * 512 = min rem 8 * 512 + (rem - min rem 8) * 512 := by omega
    have hcount := writeCount_add u.img u.pos (min rem 8 * 512) ((rem - min rem 8) * 512)
    rw [← hsplit] at hcount
    have hnext : ∀ x, w.2.Reached w.2.pos ((rem - min rem 8) * 512) x ↔
        u.pos + w.1 ≤ x ∧ x < u.pos + u.img.writeCount u.pos (rem * 512) := by
      intro x
      rw [hcount, ← Nat.add_assoc]
      exact Iff.rfl
    have hw : w.1 ≤ u.img.writeCount u.pos (rem * 512) := by
      rw [hcount]
      exact Nat.le_add_right _ _
    constructor
    · intro x
      rw [ih.1, hnext]
      simp only [mem_append, mem_singleton, or_and_right, exists_or, exists_eq_left, or_assoc]
      refine or_congr_right ?_
      unfold Reached
      omega
    · intro x hx
      have hchunk : ¬ u.Reached u.pos (min rem 8 * 512) x := by
        intro hr
        exact hx ⟨hr.1, lt_of_lt_of_le hr.2 (Nat.add_le_add_left hw _)⟩
      rw [ih.2 x, write_byte_of_not_reached hchunk]
      rw [hnext]
      unfold Reached at hx
      omega

theorem blocks_lt (e : UtrdEntry) : e.blocks.toNat < 2 ^ 16 := by
  have h7 := (e.cdb 7).toNat_lt
  have h8 := (e.cdb 8).toNat_lt
  unfold UtrdEntry.blocks
  rw [UInt32.toNat_or, UInt32.toNat_shiftLeft]
  refine Nat.or_lt_two_pow ?_ ?_
  · simp only [UInt8.toNat_toUInt32, UInt32.reduceToNat, Nat.reduceMod, Nat.shiftLeft_eq]
    omega
  · rw [UInt8.toNat_toUInt32]
    omega

theorem byteLen_toNat (e : UtrdEntry) : e.byteLen.toNat = e.blocks.toNat * 512 := by
  have := blocks_lt e
  rw [UtrdEntry.byteLen, UInt32.toNat_mul]
  simp only [UInt32.reduceToNat]
  omega

/-- What a command that transfers data and completes with good status has done: it passed the
check, and it reached the bytes of its length from its first position on. -/
structure Transferred (u : UfsState) (lun : Fin 3) (e : UtrdEntry) (c : Completed) : Prop where
  checked : pastEnd lun e = false
  accesses : ∀ x, (∃ a ∈ c.accesses, a.pos ≤ x ∧ x < a.pos + a.len) ↔
    u.Reached (u.startPos lun e) (e.blocks.toNat * 512) x
  byte : ∀ x, ¬ u.Reached (u.startPos lun e) (e.blocks.toNat * 512) x →
    c.state.img.byte x = u.img.byte x

theorem checkCondition_not_good : ¬ (u.checkCondition e).Good :=
  fun h => absurd (show (0x02 : UInt8) = 0 from h.2) (by decide)

theorem scsiRead10_transferred (h : (u.scsiRead10 lun e).Good) :
    Transferred u lun e (u.scsiRead10 lun e) := by
  unfold scsiRead10 at h ⊢
  split at h
  · exact absurd h checkCondition_not_good
  · rename_i buf hbuf
    split at h
    · exact absurd h checkCondition_not_good
    · rename_i hend
      rw [if_neg hend]
      dsimp only at h
      split at h
      · exact absurd (show (0x02 : UInt8) = 0 from h.2) (by decide)
      · rename_i hcount
        rw [if_neg hcount]
        rw [not_not] at hcount
        have hlen : u.img.writeCount (u.startPos lun e) e.byteLen.toNat = e.byteLen.toNat :=
          writeCount_of_readCount hcount
        refine ⟨by simpa using hend, fun x => ?_, fun x _ => rfl⟩
        simp only [mem_singleton, exists_eq_left]
        rw [hcount, ← byteLen_toNat, Reached, hlen]
        exact Iff.rfl

theorem scsiWrite10_transferred (h : (u.scsiWrite10 lun e).Good) :
    Transferred u lun e (u.scsiWrite10 lun e) := by
  unfold scsiWrite10 at h ⊢
  split at h
  · exact absurd h checkCondition_not_good
  · rename_i buf hbuf
    simp only [hbuf]
    split at h
    · exact absurd h checkCondition_not_good
    · rename_i hend
      rw [if_neg hend]
      dsimp only at h
      split at h
      · exact absurd (show (0x02 : UInt8) = 0 from h.2) (by decide)
      · rename_i hcount
        rw [if_neg hcount]
        refine ⟨by simpa using hend, fun x => ?_, fun x hx => ?_⟩
        · simp only [mem_singleton, exists_eq_left]
          rw [← byteLen_toNat]
          exact Iff.rfl
        · rw [← byteLen_toNat] at hx
          exact write_byte_of_not_reached hx

theorem scsiUnmap_transferred (h : (u.scsiUnmap lun e).Good) :
    Transferred u lun e (u.scsiUnmap lun e) := by
  unfold scsiUnmap at h ⊢
  split at h
  · exact absurd h checkCondition_not_good
  · rename_i hend
    rw [if_neg hend]
    obtain ⟨hacc, hbyte⟩ := unmapLoop_reached (u := u.lseek (startOff lun e)) e.blocks.toNat []
    refine ⟨by simpa using hend, fun x => ?_, hbyte⟩
    rw [hacc x]
    simp only [not_mem_nil, false_and, exists_false, false_or]
    exact Iff.rfl

theorem exec_transferred (hlun : u.lunOf e.lun = some lun)
    (hop : e.opcode = .read10 ∨ e.opcode = .write10 ∨ e.opcode = .unmap)
    (hgood : (u.ufsExecScsiUpiu writeBuffer e).Good) :
    Transferred u lun e (u.ufsExecScsiUpiu writeBuffer e) := by
  unfold ufsExecScsiUpiu at hgood ⊢
  rcases hop with hop | hop | hop <;> simp only [hlun, hop] at hgood ⊢
  · exact scsiRead10_transferred hgood
  · exact scsiWrite10_transferred hgood
  · exact scsiUnmap_transferred hgood

theorem Transferred.isolated_iff (h : Transferred u lun e c) :
    u.Isolated lun c ↔ ∀ x, u.Reached (u.startPos lun e) (e.blocks.toNat * 512) x →
      u.InLun lun x := by
  constructor
  · intro hiso x hx
    obtain ⟨a, ha, hlo, hhi⟩ := (h.accesses x).mpr hx
    exact hiso.inside a ha x hlo hhi
  · intro hin
    refine ⟨fun a ha x hlo hhi => hin x ((h.accesses x).mp ⟨a, ha, hlo, hhi⟩), fun x hx => ?_⟩
    exact h.byte x fun hr => hx (hin x hr)

theorem lun_end_le (lun : Fin 3) : (ufsLuns lun).byteOffset.toNat +
    (ufsLuns lun).nrSectors.toNat * 512 ≤ ufsImgTotalBytes.toNat := by
  revert lun
  decide

theorem sum_le_of_checked (h : pastEnd lun e = false) :
    (e.lba.toNat + e.blocks.toNat) % 2 ^ 32 ≤ (ufsLuns lun).nrSectors.toNat := by
  unfold pastEnd at h
  rw [decide_eq_false_iff_not, gt_iff_lt, UInt32.lt_iff_toNat_lt, UInt32.toNat_add] at h
  omega

theorem start_toNat (u : UfsState) (lun : Fin 3) (e : UtrdEntry) :
    (u.base + startOff lun e).toNat =
      (u.base.toNat + (ufsLuns lun).byteOffset.toNat + e.lba.toNat * 512) % 2 ^ 32 := by
  unfold startOff
  rw [UInt32.toNat_add, UInt32.toNat_add, UInt32.toNat_mul]
  simp only [UInt32.reduceToNat]
  omega

theorem startPos_of_lt (hend : pastEnd lun e = false)
    (hsum : e.lba.toNat + e.blocks.toNat < 2 ^ 32) :
    u.startPos lun e = u.base.toNat + (ufsLuns lun).byteOffset.toNat + e.lba.toNat * 512 ∧
      e.lba.toNat + e.blocks.toNat ≤ (ufsLuns lun).nrSectors.toNat := by
  have hle := sum_le_of_checked hend
  have hlun := lun_end_le lun
  have hroom := u.room
  have hlimit := u.img.limit_lt
  have hstart := start_toNat u lun e
  rw [Nat.mod_eq_of_lt hsum] at hle
  rw [Nat.mod_eq_of_lt (by omega)] at hstart
  rw [startPos, seek_of_lt (by omega), hstart]
  exact ⟨rfl, hle⟩

theorem startPos_of_wrap (hsum : 2 ^ 32 ≤ e.lba.toNat + e.blocks.toNat)
    (hseek : (u.base + startOff lun e).toNat < 2 ^ 31) :
    u.startPos lun e < u.base.toNat + (ufsLuns lun).byteOffset.toNat := by
  have hlba := e.lba.toNat_lt
  have hblocks := blocks_lt e
  have hstart := start_toNat u lun e
  rw [startPos, seek_of_lt hseek]
  omega

/-- A transfer that completes with good status stays in its LUN exactly when the sum of its LBA and
its length is below `2^32`, or when the seek to its first sector fails and the bytes at the old
position of the file are in the LUN. -/
theorem scsi_isolated_iff {writeBuffer : UfsState → UtrdEntry → UInt8 × UfsState}
    (hlun : u.lunOf e.lun = some lun)
    (hop : e.opcode = .read10 ∨ e.opcode = .write10 ∨ e.opcode = .unmap)
    (hgood : (u.ufsExecScsiUpiu writeBuffer e).Good) :
    u.Isolated lun (u.ufsExecScsiUpiu writeBuffer e) ↔ e.lba.toNat + e.blocks.toNat < 2 ^ 32 ∨
      (2 ^ 31 ≤ (u.base + startOff lun e).toNat ∧
        ∀ x, u.Reached u.pos (e.blocks.toNat * 512) x → u.InLun lun x) := by
  have ht := exec_transferred hlun hop hgood
  rw [ht.isolated_iff]
  constructor
  · intro hin
    by_cases hsum : e.lba.toNat + e.blocks.toNat < 2 ^ 32
    · exact .inl hsum
    · by_cases hseek : (u.base + startOff lun e).toNat < 2 ^ 31
      · -- the first byte is before the LUN, and the file has room for it
        have hbefore := startPos_of_wrap (by omega) hseek
        have hblocks : 0 < e.blocks.toNat := by
          have := e.lba.toNat_lt
          omega
        have hfirst : u.Reached (u.startPos lun e) (e.blocks.toNat * 512) (u.startPos lun e) := by
          have hlunEnd := lun_end_le lun
          have hroom := u.room
          unfold Reached writeCount
          omega
        have := (hin _ hfirst).1
        omega
      · rw [startPos, seek, if_neg hseek] at hin
        exact .inr ⟨by omega, hin⟩
  · rintro (hsum | ⟨hseek, hin⟩)
    · intro x hx
      obtain ⟨hstart, hle⟩ := startPos_of_lt (u := u) ht.checked hsum
      have hcount : u.img.writeCount (u.startPos lun e) (e.blocks.toNat * 512) ≤
        e.blocks.toNat * 512 := writeCount_le
      unfold Reached at hx
      unfold InLun
      omega
    · rw [startPos, seek, if_neg (by omega)]
      exact hin

/-- A driver on an image of zeros. -/
def zeroUfs : UfsState where
  online := true
  base := 0
  img := zeroImage
  pos := 0
  hdr := freshHdr fun _ => 0
  otaPollReady := false
  fwRev := chars 8 "4.00"
  deviceVersion := 0x0400
  ffuCount := 0
  fwSha256 := fun _ => 0
  stats := {}
  room := zeroImage_room

def oneSector (lun : UInt8) (lba : UInt32) : UtrdEntry where
  lun := lun
  cdb := fun i => match i.val with
    | 0 => 0x2a
    | 2 => (lba >>> 24).toUInt8
    | 3 => (lba >>> 16).toUInt8
    | 4 => (lba >>> 8).toUInt8
    | 5 => lba.toUInt8
    | 8 => 1
    | _ => 0
  expDataLen := 512
  buf := some fun _ => 1

def noDownload (u : UfsState) (_ : UtrdEntry) : UInt8 × UfsState := (0x02, u)

/-- A write to sector `2^32 - 1` of boot LUN A completes with good status and changes the last
sector of the RPMB area. -/
theorem last_rpmb_sector_written :
    zeroUfs.lunOf (oneSector 1 0xffffffff).lun = some 1 ∧
    (zeroUfs.ufsExecScsiUpiu noDownload (oneSector 1 0xffffffff)).Good ∧ zeroUfs.InRpmb 0x2fe00 ∧
    (zeroUfs.ufsExecScsiUpiu noDownload (oneSector 1 0xffffffff)).state.img.byte 0x2fe00 ≠
      zeroUfs.img.byte 0x2fe00 ∧
    ¬ zeroUfs.Isolated 1 (zeroUfs.ufsExecScsiUpiu noDownload (oneSector 1 0xffffffff)) := by
  have hchanged : (zeroUfs.ufsExecScsiUpiu noDownload
      (oneSector 1 0xffffffff)).state.img.byte 0x2fe00 ≠ zeroUfs.img.byte 0x2fe00 := by decide
  have hrpmb : zeroUfs.InRpmb 0x2fe00 := ⟨by decide, by decide⟩
  refine ⟨by decide, ⟨by decide, by decide⟩, hrpmb, hchanged, fun hiso => hchanged ?_⟩
  exact hiso.outside _ fun hlun => hlun.elsewhere.2.1 hrpmb

theorem first_sector_isolated :
    zeroUfs.Isolated 1 (zeroUfs.ufsExecScsiUpiu noDownload (oneSector 1 0)) :=
  (scsi_isolated_iff (by decide) (.inr (.inl (by decide))) ⟨by decide, by decide⟩).mpr
    (.inl (by decide))

end UfsState

end Six.Ufs
