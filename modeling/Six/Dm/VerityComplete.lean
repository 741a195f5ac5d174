import Six.Hash.Fixed
import Six.Dm.VerityBuild

/-! The driver reads back and verifies every data block of a slice that the builder makes. -/

namespace Six.Dm

open Lib UInt32 Block

variable {bs : List UInt8}

def sectorOf (bs : List UInt8) (i : Nat) : Sector := fun j => bs.getD (i * 512 + j) 0

def HoldsSlice (disk : Backing) (bdev : UInt16) (start : UInt32) (bs : List UInt8) : Prop :=
  ∀ time i, i * 512 < bs.length →
    disk.read time bdev (start + UInt32.ofNat i) = ⟨0, sectorOf bs i⟩

def diskOf (bs : List UInt8) : Backing where
  read _ _ sec := ⟨0, sectorOf bs sec.toNat⟩
  write _ _ _ _ := 0

theorem holdsSlice_diskOf (h : bs.length ≤ 2 ^ 32 * 512) (bdev : UInt16) :
    HoldsSlice (diskOf bs) bdev 0 bs := by
  intro time i hi
  have hsec : (0 + ofNat i).toNat = i := by
    rw [UInt32.zero_add, toNat_ofNat']
    omega
  simp only [diskOf, hsec]

theorem setHalf_setHalf_sectorOf (buf : Block) (bs : List UInt8) (k : Nat) :
    (buf.setHalf false (sectorOf bs (2 * k))).setHalf true (sectorOf bs (2 * k + 1)) =
      ofBytes bs (k * 1024) := by
  funext i
  by_cases hi : i.val < 512
  · have hoff : 2 * k * 512 + i.val = k * 1024 + i.val := by omega
    simp [setHalf, hi, sectorOf, ofBytes, hoff]
  · have hoff : (2 * k + 1) * 512 + (i.val - 512) = k * 1024 + i.val := by omega
    simp [setHalf, hi, sectorOf, ofBytes, hoff]

theorem dmReadPhys1k_of_holds
    (h : HoldsSlice disk bdev start bs) (hk : (k + 1) * 1024 ≤ bs.length) (buf : Block)
    (time : Nat) : dmReadPhys1k disk bdev (start + ofNat (2 * k)) buf time =
      ⟨0, ofBytes bs (k * 1024), time + 2⟩ := by
  have hnext : start + ofNat (2 * k) + 1 = start + ofNat (2 * k + 1) := by
    rw [UInt32.add_assoc, ofNat_add]
    rfl
  have hlo := h time (2 * k) (by omega)
  have hhi := h (time + 1) (2 * k + 1) (by omega)
  simp only [dmReadPhys1k, hnext, hlo, hhi, ne_eq, not_true_eq_false, ite_false,
    setHalf_setHalf_sectorOf]

section Positions

variable (start : UInt32) {n : Nat} {b : UInt32}

theorem blkSec_eq (b : UInt32) : start + (b <<< (1 : UInt32)) = start + ofNat (2 * b.toNat) := by
  have hshift : b <<< (1 : UInt32) = ofNat (2 * b.toNat) := by
    apply UInt32.toNat_inj.mp
    simp [Nat.shiftLeft_eq, Nat.mul_comm]
  rw [hshift]

theorem l0Sec_eq :
    l0Sec (start + ofNat (2 * n)) b = start + ofNat (2 * (n + 17 + b.toNat / 32)) := by
  have hshift : ((17 : UInt32) + (b >>> 5)) <<< (1 : UInt32) = ofNat (2 * (17 + b.toNat / 32)) := by
    apply UInt32.toNat_inj.mp
    simp [Nat.shiftLeft_eq, Nat.shiftRight_eq_div_pow]
    omega
  rw [l0Sec, hshift, UInt32.add_assoc, ← ofNat_add]
  congr 2
  omega

theorem l1Sec_eq :
    l1Sec (start + ofNat (2 * n)) b = start + ofNat (2 * (n + 2 + b.toNat / 1024)) := by
  have hshift : ((2 : UInt32) + (b >>> 10)) <<< (1 : UInt32) =
      ofNat (2 * (2 + b.toNat / 1024)) := by
    apply UInt32.toNat_inj.mp
    simp [Nat.shiftLeft_eq, Nat.shiftRight_eq_div_pow]
    omega
  rw [l1Sec, hshift, UInt32.add_assoc, ← ofNat_add]
  congr 2
  omega

theorem l2Sec_eq : l2Sec (start + ofNat (2 * n)) = start + ofNat (2 * (n + 1)) := by
  have hshift : (1 : UInt32) <<< (1 : UInt32) = ofNat 2 := by decide
  rw [l2Sec, hshift, UInt32.add_assoc, ← ofNat_add]
  congr 2

theorem toNat_and_31 (b : UInt32) : (b &&& 31).toNat = b.toNat % 32 := by
  rw [UInt32.toNat_and]
  exact Nat.and_two_pow_sub_one_eq_mod b.toNat 5

theorem l0Off_eq (b : UInt32) : l0Off b = b.toNat % 32 * 32 := by
  simp only [l0Off, UInt32.toNat_shiftLeft, toNat_and_31, reduceToNat, Nat.reduceMod,
    Nat.shiftLeft_eq, Nat.reducePow]
  omega

theorem l1Off_eq (b : UInt32) : l1Off b = b.toNat / 32 % 32 * 32 := by
  have hshift : (b >>> 5).toNat = b.toNat / 32 := by
    simp [Nat.shiftRight_eq_div_pow]
  rw [← hshift]
  exact l0Off_eq (b >>> 5)

theorem l2Off_eq (hb : b.toNat < 32768) : l2Off b = b.toNat / 1024 * 32 := by
  simp only [l2Off, UInt32.toNat_shiftLeft, UInt32.toNat_shiftRight, reduceToNat,
    Nat.reduceMod, Nat.shiftLeft_eq, Nat.shiftRight_eq_div_pow, Nat.reducePow]
  omega

end Positions

section Chain

variable (p : VerityParams) (data : Nat → Block) {n k : Nat}

theorem slotAt_level (f : Nat → Block) (k : Nat) :
    slotAt p (slots.level (hashBlock p) f (k / 32)) (k % 32 * 32) = hashBlock p (f k) := by
  have hslot := slotAt_packSlots p (fun s => hashBlock p (f (k / 32 * 32 + s)))
    (Nat.mod_lt k (show 0 < 32 by decide))
  have hk : k / 32 * 32 + k % 32 = k := by omega
  rw [hk] at hslot
  exact hslot

theorem slotAt_l2Block (hk : k < n / 1024) (hle : n / 1024 ≤ 15) :
    slotAt p (l2Block p data n) (k * 32) = hashBlock p (l1Block p data n k) := by
  have hlt : k < 32 := by omega
  rw [l2Block, slotAt_packSlots p _ hlt, if_pos hk]

end Chain

/-- Every data block of a slice is read back from a device that holds the slice, and verified. -/
theorem dmVerifyVerityBlock_complete (p : VerityParams) (raw : List UInt8) {n total : Nat}
    (hmult : n % 1024 = 0) (hn : n ≤ 15360) (hroom : n + 17 + n / 32 ≤ total) :
    ∃ slice root, buildVeritySlice p raw n total = some (slice, root) ∧
      ∀ (disk : Backing) (bdev : UInt16) (start : UInt32), HoldsSlice disk bdev start slice →
        ∀ (blkNr : UInt32), blkNr.toNat < n → ∀ (buf hashBuf : Block) (time time' : Nat),
          dmReadPhys1k disk bdev (start + (blkNr <<< (1 : UInt32))) buf time =
              ⟨0, dataBlock raw n blkNr.toNat, time + 2⟩ ∧
            (dmVerifyVerityBlock disk p salt root bdev (start + UInt32.ofNat (2 * n)) blkNr
              (dataBlock raw n blkNr.toNat) hashBuf time').err = 0 := by
  have hle : n / 1024 ≤ 15 := by omega
  refine ⟨_, _, by rw [buildVeritySlice_eq, if_pos ⟨hle, hroom⟩], ?_⟩
  intro disk bdev start hdisk b hb buf hashBuf time time'
  have hread : ∀ k < total, ∀ buf time,
      dmReadPhys1k disk bdev (start + ofNat (2 * k)) buf time =
        ⟨0, layout p (dataBlock raw n) n k, time + 2⟩ := by
    intro k hk buf time
    rw [dmReadPhys1k_of_holds hdisk (by simp; omega), ofBytes_slice p raw n hk]
  have hgroup : b.toNat / 1024 = b.toNat / 32 / 32 := by omega
  have hl1 : l1Block p (dataBlock raw n) n (b.toNat / 32 / 32) =
      slots.level (hashBlock p) (l0Block p (dataBlock raw n)) (b.toNat / 32 / 32) :=
    if_pos (by omega)
  constructor
  · rw [blkSec_eq, hread _ (by omega), layout, if_pos hb]
  · have hslot0 : slotAt p (l0Block p (dataBlock raw n) (b.toNat / 32)) (b.toNat % 32 * 32) =
        p.sha256Salted1k salt (dataBlock raw n b.toNat) := slotAt_level p (dataBlock raw n) b.toNat
    have hslot1 : slotAt p (l1Block p (dataBlock raw n) n (b.toNat / 32 / 32))
        (b.toNat / 32 % 32 * 32) =
        p.sha256Salted1k salt (l0Block p (dataBlock raw n) (b.toNat / 32)) := by
      rw [hl1]
      exact slotAt_level p (l0Block p (dataBlock raw n)) (b.toNat / 32)
    have hslot2 : slotAt p (l2Block p (dataBlock raw n) n) (b.toNat / 32 / 32 * 32) =
        p.sha256Salted1k salt (l1Block p (dataBlock raw n) n (b.toNat / 32 / 32)) :=
      slotAt_l2Block p (dataBlock raw n) (by omega) hle
    have htop : p.sha256Salted1k salt (l2Block p (dataBlock raw n) n) =
        rootHash p (dataBlock raw n) n := rfl
    simp only [dmVerifyVerityBlock]
    rw [l0Sec_eq, l1Sec_eq, l2Sec_eq, l0Off_eq, l1Off_eq, l2Off_eq (by omega), hgroup,
      hread _ (by omega), layout_l0 p _ (by omega), hread _ (by omega), layout_l1 p _ (by omega),
      hread _ (by omega), layout_l2]
    simp only [hslot0, hslot1, hslot2, htop, ne_eq, not_true_eq_false, ite_false]

def shaParams : VerityParams := ⟨Hash.dmSha256Salted1k, fun _ => 0⟩

theorem block_two_verified : ∃ slice root,
    buildVeritySlice shaParams (List.replicate 3000 7) 1024 1073 = some (slice, root) ∧
      HoldsSlice (diskOf slice) 0 0 slice ∧
      (dmVerifyVerityBlock (diskOf slice) shaParams salt root 0 (0 + UInt32.ofNat (2 * 1024)) 2
        (dataBlock (List.replicate 3000 7) 1024 2) 0 0).err = 0 := by
  obtain ⟨slice, root, hbuild, hall⟩ := dmVerifyVerityBlock_complete shaParams
    (List.replicate 3000 7) (n := 1024) (show 1024 % 1024 = 0 by decide) (by decide)
    (show 1024 + 17 + 1024 / 32 ≤ 1073 by decide)
  have hlen : slice.length ≤ 2 ^ 32 * 512 := by
    rw [buildVeritySlice_eq, if_pos (by decide)] at hbuild
    obtain ⟨rfl, -⟩ := Prod.mk.inj (Option.some.inj hbuild)
    rw [length_join, List.length_map, List.length_range]
    decide
  have hdisk := holdsSlice_diskOf hlen 0
  exact ⟨slice, root, hbuild, hdisk, (hall _ 0 0 hdisk 2 (by decide) 0 0 0 0).2⟩

end Six.Dm
