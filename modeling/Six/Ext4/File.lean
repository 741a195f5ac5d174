import Six.Ext4.Balloc
import Six.Ext4.Tree

/-! A file of `fs/ext4` whose blocks are mapped by an extent tree (`fs/ext4/extents.c`,
`ext4_discard_prealloc` of `fs/ext4/inode.c`) under `ext4_ext_truncate`.  Times and dirty marks are
left out. -/

namespace Six.Ext4

open Errno

inductive FileType
  | reg
  | dir
  | lnk
  | other
  deriving DecidableEq, Repr

structure File where
  fileType : FileType
  blockGroup : UInt32
  iSize : UInt32
  iBlocks : UInt32
  preallocBlock : UInt32
  preallocCount : UInt32
  store : Store
  maps : Bitmaps

def zeroSlot : Slot := ⟨0, 0, 0, 0⟩
def zeroNode : Node := ⟨⟨0, 0, 0, 0, 0⟩, fun _ => zeroSlot⟩

def spaceRoot : Nat := (60 - 12) / 12
def Geometry.sectors (g : Geometry) : UInt32 := UInt32.ofNat (g.blockSize / 512)

/-- The call that `ext4_discard_prealloc` makes.  The count goes through an `unsigned short`. -/
def File.windowCalls (f : File) : List FreeCall :=
  if f.preallocCount ≠ 0 then [⟨f.preallocBlock, f.preallocCount.toUInt16.toUInt32⟩] else []

def firstFree (g : Geometry) (iSize : UInt32) : UInt32 :=
  (iSize + UInt32.ofNat g.blockSize - 1) / UInt32.ofNat g.blockSize

def Node.resetMax (root : Node) : Node :=
  if root.entries = 0 ∧ root.hdr.ehDepth = 0 then
    { root with hdr := { root.hdr with ehMax := UInt16.ofNat spaceRoot } }
  else root

def File.afterWalk (g : Geometry) (f : File) (w : Walk) : File :=
  { f with
    preallocCount := 0
    iBlocks := w.iBlocks
    store := { w.store with root := w.store.root.resetMax }
    maps := w.calls.foldl (Bitmaps.freeBlocks g) f.maps }

/-- `ext4_ext_truncate`: the file afterwards and the calls of `ext4_free_blocks`, in their order.
There is no result when the walk does not end. -/
def File.extTruncate (g : Geometry) (readable : UInt32 → Bool) (fuel : Nat) (f : File) :
    Option (File × List FreeCall) :=
  if f.fileType = .other then some (f, [])
  else
    (truncateSubtree ⟨readable, g.sectors, firstFree g f.iSize⟩ fuel .inode
      ⟨f.store, f.iBlocks, f.windowCalls⟩).map fun w => (f.afterWalk g w, w.calls)

@[simp] theorem Node.entries_resetMax (root : Node) : root.resetMax.entries = root.entries := by
  unfold Node.resetMax
  split <;> rfl

theorem Node.resetMax_of_entries {root : Node} (h : root.entries ≠ 0) : root.resetMax = root := by
  unfold Node.resetMax
  rw [if_neg fun hzero => h hzero.1]

theorem File.store_afterWalk {f : File}
    (h : (w.store.node .inode).entries ≠ 0) : (f.afterWalk g w).store = w.store := by
  have hroot : w.store.root.resetMax = w.store.root := Node.resetMax_of_entries h
  unfold File.afterWalk
  rw [hroot]

end Six.Ext4
