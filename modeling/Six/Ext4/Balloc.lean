import Six.Base.Errno
import Six.Ext4.Extent

/-! The block allocator (`fs/ext4/balloc.c`): `ext4_free_blocks` on the block bitmaps and the counts
of free blocks.  There are no quotas, and the file system is mounted without `check=strict`, as by
default. -/

namespace Six.Ext4

open Errno

/-- The fields of the superblock that the allocator reads.  Block numbers are kept in an `int`, and
the allocator looks for a free block up to the next multiple of 64, which it takes to lie in the
group. -/
structure Geometry where
  firstDataBlock : Nat
  blocksCount : Nat
  blocksPerGroup : Nat
  rBlocksCount : Nat
  blockSize : Nat
  first_lt : firstDataBlock < blocksCount
  perGroup_pos : 0 < blocksPerGroup
  aligned : blocksPerGroup % 64 = 0
  small : blocksCount + blocksPerGroup ≤ 2 ^ 31
  blockSize_ge : 1024 ≤ blockSize
  blockSize_le : blockSize ≤ 4096

namespace Geometry

variable (g : Geometry)

def groupsCount : Nat :=
  (g.blocksCount - g.firstDataBlock + g.blocksPerGroup - 1) / g.blocksPerGroup

def group (block : Nat) : Nat := (block - g.firstDataBlock) / g.blocksPerGroup
def bit (block : Nat) : Nat := (block - g.firstDataBlock) % g.blocksPerGroup

theorem bit_lt (block : Nat) : g.bit block < g.blocksPerGroup := Nat.mod_lt _ g.perGroup_pos

theorem group_lt (h : block < g.blocksCount) : g.group block < g.groupsCount := by
  have hpos := g.perGroup_pos
  have hlt := g.first_lt
  unfold group groupsCount
  rw [Nat.div_lt_iff_lt_mul hpos]
  have hceil := Nat.div_add_mod
    (g.blocksCount - g.firstDataBlock + g.blocksPerGroup - 1) g.blocksPerGroup
  have hmod := Nat.mod_lt (g.blocksCount - g.firstDataBlock + g.blocksPerGroup - 1) hpos
  rw [Nat.mul_comm] at hceil
  omega

end Geometry

structure Bitmaps where
  used : Nat → Nat → Bool
  bgFree : Nat → Nat
  sbFree : Nat

def setBits (f : Nat → Bool) (j count : Nat) : Nat := ((List.range' j count).filter f).length

def FreeCall.blocks (c : FreeCall) : List UInt32 :=
  (List.range c.count.toNat).map fun k => c.block + UInt32.ofNat k

@[simp] theorem FreeCall.blocks_one (b : UInt32) : FreeCall.blocks ⟨b, 1⟩ = [b] := by
  simp [FreeCall.blocks]

inductive FreeOutcome
  | refused
  | panicked
  | freed
  deriving DecidableEq, Repr

/-- The tests at the head of `ext4_free_blocks`: blocks outside the data zone are refused, blocks of
more than one group are a panic, and so is a group that there is not.  The sums are those of
`unsigned long`. -/
def Geometry.freeOutcome (g : Geometry) (c : FreeCall) : FreeOutcome :=
  if c.block.toNat < g.firstDataBlock ∨ (c.block + c.count).toNat > g.blocksCount then .refused
  else if (g.bit c.block.toNat + c.count.toNat) % 2 ^ 32 > g.blocksPerGroup then .panicked
  else if g.group c.block.toNat ≥ g.groupsCount then .panicked
  else .freed

/-- `ext4_free_blocks`.  A panic does not come back, so that what it leaves does not matter. -/
def Bitmaps.freeBlocks (g : Geometry) (a : Bitmaps) (c : FreeCall) : Bitmaps :=
  match g.freeOutcome c with
  | .freed =>
    let i := g.group c.block.toNat
    let j := g.bit c.block.toNat
    let n := setBits (a.used i) j c.count.toNat
    { used := Function.update a.used i fun k =>
        if j ≤ k ∧ k < j + c.count.toNat then false else a.used i k
      bgFree := Function.update a.bgFree i ((a.bgFree i + n) % 2 ^ 16)
      sbFree := (a.sbFree + n) % 2 ^ 32 }
  | _ => a

structure Geometry.Fits (g : Geometry) (c : FreeCall) : Prop where
  first_le : g.firstDataBlock ≤ c.block.toNat
  le_count : c.block.toNat + c.count.toNat ≤ g.blocksCount
  one_group : g.bit c.block.toNat + c.count.toNat ≤ g.blocksPerGroup

theorem Geometry.Fits.freeOutcome {g : Geometry} (h : g.Fits c)
    (hcount : 0 < c.count.toNat) : g.freeOutcome c = .freed := by
  have hsmall := g.small
  have hfirst := h.first_le
  have hzone := h.le_count
  have hgroup := h.one_group
  have hadd : (c.block + c.count).toNat = c.block.toNat + c.count.toNat := by
    rw [UInt32.toNat_add, Nat.mod_eq_of_lt (by omega)]
  unfold Geometry.freeOutcome
  rw [hadd, if_neg (by omega), Nat.mod_eq_of_lt (by omega), if_neg (by omega),
    if_neg (Nat.not_le.mpr (g.group_lt (by omega)))]

end Six.Ext4
