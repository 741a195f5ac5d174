import Six.Lib.Graph
import Mathlib.Data.Fintype.Basic

/-! The extent trees of `fs/ext4` (`include/linux/ext4_extents.h`, `fs/ext4/extents.c`): the nodes
of a tree in the inode and in blocks on the disk, the descent of `ext4_ext_find_leaf`, and the
recursion of `ext4_ext_truncate_subtree`.  The calls of `ext4_free_blocks` are noted in their order;
the bitmaps that they change are taken to lie apart from the nodes.  `bread` of a block succeeds or
fails for the whole walk.  Neither function is known to end, so that both take fuel. -/

namespace Six.Ext4

def ext4ExtMagic : UInt16 := 0xf30a

structure ExtHeader where
  ehMagic : UInt16
  ehEntries : UInt16
  ehMax : UInt16
  ehDepth : UInt16
  ehGeneration : UInt32
  deriving DecidableEq, Repr

/-- The twelve bytes of an entry, which a leaf reads as a `struct ext4_extent` and an index as a
`struct ext4_extent_idx`. -/
structure Slot where
  word0 : UInt32
  low : UInt16
  high : UInt16
  word2 : UInt32
  deriving DecidableEq, Repr

namespace Slot

def eeBlock (e : Slot) : UInt32 := e.word0
def eeLen (e : Slot) : UInt16 := e.low
def eeStartLo (e : Slot) : UInt32 := e.word2

def eiBlock (e : Slot) : UInt32 := e.word0
def eiLeafLo (e : Slot) : UInt32 := UInt32.ofNat (e.low.toNat + 2 ^ 16 * e.high.toNat)

def extent (eeBlock : UInt32) (eeLen : UInt16) (eeStartLo : UInt32) : Slot :=
  ⟨eeBlock, eeLen, 0, eeStartLo⟩

def index (eiBlock eiLeafLo : UInt32) : Slot :=
  ⟨eiBlock, UInt16.ofNat (eiLeafLo.toNat % 2 ^ 16), UInt16.ofNat (eiLeafLo.toNat / 2 ^ 16), 0⟩

def setLen (e : Slot) (len : UInt16) : Slot := { e with low := len }

def extInitMaxLen : Nat := 2 ^ 15

def actualLen (e : Slot) : UInt32 :=
  UInt32.ofNat (if e.eeLen.toNat ≤ extInitMaxLen then e.eeLen.toNat
    else e.eeLen.toNat - extInitMaxLen)

def isUnwritten (e : Slot) : Bool := extInitMaxLen < e.eeLen.toNat

end Slot

/-- A node of a tree: a header and the entries behind it.  There are entries past the end of the
node, whatever lies there, because nothing bounds `eh_entries`. -/
structure Node where
  hdr : ExtHeader
  slot : Nat → Slot

namespace Node

variable (n : Node)

def entries : Nat := n.hdr.ehEntries.toNat

def setEntries (entries : Nat) : Node :=
  { n with hdr := { n.hdr with ehEntries := UInt16.ofNat entries } }

def setDepth (depth : UInt16) : Node := { n with hdr := { n.hdr with ehDepth := depth } }

def setSlot (i : Nat) (e : Slot) : Node := { n with slot := Function.update n.slot i e }

def isIndex : Bool := n.hdr.ehMagic = ext4ExtMagic ∧ n.hdr.ehDepth ≠ 0

theorem isIndex_iff {n : Node} :
    n.isIndex = true ↔ n.hdr.ehMagic = ext4ExtMagic ∧ n.hdr.ehDepth ≠ 0 := by
  simp [isIndex]

@[simp] theorem isIndex_setSlot (i : Nat) (e : Slot) : (n.setSlot i e).isIndex = n.isIndex := rfl

@[simp] theorem isIndex_setEntries (entries : Nat) :
    (n.setEntries entries).isIndex = n.isIndex := rfl

@[simp] theorem slot_setEntries (entries : Nat) : (n.setEntries entries).slot = n.slot := rfl

@[simp] theorem slot_setDepth (depth : UInt16) : (n.setDepth depth).slot = n.slot := rfl

@[simp] theorem entries_setDepth (depth : UInt16) : (n.setDepth depth).entries = n.entries := rfl

@[simp] theorem entries_setSlot (i : Nat) (e : Slot) : (n.setSlot i e).entries = n.entries := rfl

theorem entries_lt : n.entries < 2 ^ 16 := n.hdr.ehEntries.toNat_lt

theorem entries_setEntries {n : Node} {entries : Nat} (h : entries < 2 ^ 16) :
    (n.setEntries entries).entries = entries := by
  unfold setEntries Node.entries
  rw [UInt16.toNat_ofNat', Nat.mod_eq_of_lt h]

end Node

inductive Place
  | inode
  | block (b : UInt32)
  deriving DecidableEq, Repr

structure Store where
  root : Node
  block : UInt32 → Node

namespace Store

def node (s : Store) : Place → Node
  | .inode => s.root
  | .block b => s.block b

def setNode (s : Store) (p : Place) (n : Node) : Store :=
  match p with
  | .inode => { s with root := n }
  | .block b => { s with block := Function.update s.block b n }

@[simp] theorem node_setNode_same (s : Store) (p : Place) (n : Node) :
    (s.setNode p n).node p = n := by
  cases p with
  | inode => rfl
  | block b => exact Function.update_self b n s.block

theorem node_setNode_ne {s : Store} {p p' : Place} {n : Node} (h : p' ≠ p) :
    (s.setNode p n).node p' = s.node p' := by
  cases p with
  | inode =>
    cases p' with
    | inode => exact absurd rfl h
    | block b => rfl
  | block b =>
    cases p' with
    | inode => rfl
    | block b' => exact Function.update_of_ne (fun heq => h (congrArg Place.block heq)) _ _

end Store

inductive Descent
  | leaf
  | failed
  | next (b : UInt32)
  deriving DecidableEq, Repr

/-- The entry that the search in an index ends with: the last one before the first that starts past
the block, or the first one. -/
def Node.target (n : Node) (iblock : UInt32) : Slot :=
  n.slot (((List.range n.entries).takeWhile fun i => (n.slot i).eiBlock ≤ iblock).length - 1)

section

variable (readable : UInt32 → Bool)

def Store.descend (s : Store) (iblock : UInt32) (p : Place) : Descent :=
  let eh := s.node p
  if eh.hdr.ehDepth = 0 then .leaf
  else if eh.entries = 0 then .failed
  else
    let nextBlk := (eh.target iblock).eiLeafLo
    if !readable nextBlk then .failed
    else if (s.block nextBlk).hdr.ehMagic ≠ ext4ExtMagic then .failed
    else .next nextBlk

/-- The loop of `ext4_ext_find_leaf`: the place of the leaf, or `none` for a null pointer. -/
def Store.findLeafFrom (s : Store) (iblock : UInt32) : Nat → Place → Option (Option Place)
  | 0, _ => none
  | fuel + 1, p =>
    match s.descend readable iblock p with
    | .leaf => some (some p)
    | .failed => some none
    | .next b => s.findLeafFrom iblock fuel (.block b)

def Store.findLeaf (s : Store) (iblock : UInt32) (fuel : Nat) : Option (Option Place) :=
  if s.root.hdr.ehMagic ≠ ext4ExtMagic then some none
  else s.findLeafFrom readable iblock fuel .inode

end

structure FreeCall where
  block : UInt32
  count : UInt32
  deriving DecidableEq, Repr

/-- The state of the walk: the nodes, `i_blocks` and the calls of `ext4_free_blocks` so far. -/
structure Walk where
  store : Store
  iBlocks : UInt32
  calls : List FreeCall

namespace Walk

def free (w : Walk) (block count : UInt32) : Walk :=
  { w with calls := w.calls ++ [⟨block, count⟩] }

/-- `i_blocks` goes down by what `count` blocks take, to 0 at least. -/
def uncharge (w : Walk) (perBlock count : UInt32) : Walk :=
  { w with iBlocks :=
    if w.iBlocks ≥ count * perBlock then w.iBlocks - count * perBlock else 0 }

def setNode (w : Walk) (p : Place) (n : Node) : Walk := { w with store := w.store.setNode p n }

end Walk

/-- What does not change during a truncation: the blocks that can be read, the sectors in a block
and the first logical block that is freed. -/
structure TruncArgs where
  readable : UInt32 → Bool
  perBlock : UInt32
  firstFree : UInt32

section

variable (t : TruncArgs)

/-- One turn of the loop of `ext4_ext_truncate_leaf`, for entry `i` of the leaf at `p`; the number
counts the entries that stay. -/
def truncateExtent (p : Place) (w : Walk × Nat) (i : Nat) : Walk × Nat :=
  let n := w.1.store.node p
  let e := n.slot i
  let start := e.eeBlock
  let len := e.actualLen
  let phys := e.eeStartLo
  if start ≥ t.firstFree then ((w.1.free phys len).uncharge t.perBlock len, w.2)
  else if start + len > t.firstFree then
    let keep := t.firstFree - start
    let drop := len - keep
    (((w.1.free (phys + keep) drop).setNode p (n.setSlot i (e.setLen keep.toUInt16))).uncharge
      t.perBlock drop, w.2 + 1)
  else (w.1, w.2 + 1)

def truncateLeaf (p : Place) (w : Walk) : Walk :=
  let r := (List.range (w.store.node p).entries).foldl (truncateExtent t p) (w, 0)
  r.1.setNode p ((r.1.store.node p).setEntries r.2)

/-- A leaf or index block that has become empty is given back.  `i_blocks` stays as it is when it is
too small. -/
def Walk.freeChild (w : Walk) (b : UInt32) : Walk :=
  let w := w.free b 1
  if w.iBlocks ≥ t.perBlock then { w with iBlocks := w.iBlocks - t.perBlock } else w

def Walk.closeIndex (w : Walk) (p : Place) (kept : Nat) : Walk :=
  let n := (w.store.node p).setEntries kept
  w.setNode p (if kept = 0 then n.setDepth 0 else n)

mutual

def truncateSubtree : Nat → Place → Walk → Option Walk
  | 0, _, _ => none
  | fuel + 1, p, w =>
    let eh := w.store.node p
    if eh.hdr.ehMagic ≠ ext4ExtMagic then some w
    else if eh.hdr.ehDepth = 0 then some (truncateLeaf t p w)
    else truncateIndex fuel p 0 0 w

/-- The loop of `ext4_ext_truncate_subtree` over the entries of an index, from entry `i` on.  The
number of entries is read again in every turn. -/
def truncateIndex : Nat → Place → Nat → Nat → Walk → Option Walk
  | 0, _, _, _, _ => none
  | fuel + 1, p, i, kept, w =>
    let eh := w.store.node p
    if i < eh.entries then
      let childBlk := (eh.slot i).eiLeafLo
      if t.readable childBlk then
        match truncateSubtree fuel (.block childBlk) w with
        | none => none
        | some w =>
          if (w.store.block childBlk).entries = 0 then
            truncateIndex fuel p (i + 1) kept (w.freeChild t childBlk)
          else truncateIndex fuel p (i + 1) (kept + 1) w
      else truncateIndex fuel p (i + 1) kept w
    else some (w.closeIndex p kept)

end

end

end Six.Ext4
