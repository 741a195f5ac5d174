import Six.Tmpfs.Update
import Mathlib.Algebra.Group.Pi.Basic
import Mathlib.Data.Set.Insert
import Mathlib.Tactic.Abel
import Mathlib.Tactic.Simps.Basic

/-! The invariant of a tmpfs mount.  In the middle of an operation the counts of links, the recorded
parents and the cached counts lag behind the entries; a `Ledger` says by how much, and an operation
keeps the invariant because its updates bring the ledger back to zero. -/

namespace Six.Tmpfs

open Lib

/-- What is open in the middle of an operation: by how much the links that a node counts exceed the
entries that name it, by how much a directory counts too many subdirectories, which cached counts
are not copied yet and which recorded parents are not, and how often the operation refers to the
root. -/
@[ext]
structure Ledger where
  owed : UInt32 → Int := 0
  subdirs : UInt32 → Int := 0
  stale : Set UInt32 := ∅
  moving : Set UInt32 := ∅
  pins : Nat := 0

def Ledger.zero : Ledger := {}

namespace Ledger

section

variable (w : Ledger) (x : UInt32)

@[simps]
def pin : Ledger :=
  { w with pins := w.pins + if x = tmpfsRootIno then 1 else 0 }

/-- The node `x` counts `k` more links than before, or `k` fewer entries name it. -/
@[simps]
def owe (k : Int) : Ledger := { w with owed := w.owed + Pi.single x k }

/-- The directory `x` counts `k` more subdirectories than before, or has `k` fewer. -/
@[simps]
def overcount (k : Int) : Ledger :=
  { w with subdirs := w.subdirs + Pi.single x k }

@[simps]
def addStale : Ledger := { w with stale := insert x w.stale }

@[simps]
def dropStale : Ledger := { w with stale := w.stale \ {x} }

@[simps]
def addMoving : Ledger := { w with moving := insert x w.moving }

@[simps]
def dropMoving : Ledger := { w with moving := w.moving \ {x} }

end

@[simp] theorem zero_owed : zero.owed = 0 := rfl
@[simp] theorem zero_subdirs : zero.subdirs = 0 := rfl
@[simp] theorem zero_stale : zero.stale = ∅ := rfl
@[simp] theorem zero_moving : zero.moving = ∅ := rfl
@[simp] theorem zero_pins : zero.pins = 0 := rfl

end Ledger

/-- A cached inode agrees with its node in everything but the count of a directory, which may be
out of date but tells a removed directory from another. -/
structure Agree (n : Node) (i : Inode) : Prop where
  same : i.attr = { n.attr with nlink := i.attr.nlink }
  file : n.isDir = false → i.attr.nlink = n.attr.nlink
  zero : n.isDir = true → (i.attr.nlink = 0 ↔ n.attr.nlink = 0)
  two : n.isDir = true → i.attr.nlink ≠ 0 → 2 ≤ i.attr.nlink.toNat

theorem Agree.of_attr (h : Agree n j) (hattr : i.attr = j.attr) :
    Agree n i where
  same := by rw [hattr]; exact h.same
  file := by rw [hattr]; exact h.file
  zero := by rw [hattr]; exact h.zero
  two := by rw [hattr]; exact h.two

theorem Agree.withNlink (h : Agree n i) (k : UInt16)
    (htwo : n.isDir = true → k ≠ 0 → 2 ≤ k.toNat) : Agree (n.withNlink k) (i.withNlink k) where
  same := by
    have hsame := h.same
    simp only [Inode.withNlink, Node.withNlink]
    rw [hsame]
  file := fun _ => rfl
  zero := fun _ => Iff.rfl
  two := htwo

namespace TmpfsSb

/-- `ino` was handed out.  After `next_ino` has wrapped to zero, every number may have been. -/
def Used (s : TmpfsSb) (ino : UInt32) : Prop := s.nextIno = 0 ∨ ino < s.nextIno

/-- The number of entries that name a directory which is not removed. -/
def linksOfDir (x : UInt32) : Int := if x = tmpfsRootIno then 0 else 1

def Referenced (s : TmpfsSb) (x : UInt32) : Prop := ∃ i, s.icache x = some i ∧ 0 < i.count

/-- The invariant.  A file counts the entries that name it.  A directory is named by one entry, in
the directory that it records as its parent, and counts at least two links, or it is removed, empty
and referenced.  With `exact`, a directory counts its subdirectories and cached counts are those of
the nodes. -/
structure Inv (exact : Bool) (s : TmpfsSb) (w : Ledger) : Prop where
  keys : (s.nodes.map Node.ino).Nodup
  used : ∀ x n, s.findNode x = some n → s.Used x ∧ s.Used n.parentIno
  usedCache : ∀ x i, s.icache x = some i → s.Used x
  root : s.isDirIno tmpfsRootIno = true
  rootPinned : ∃ i, s.icache tmpfsRootIno = some i ∧ w.pins < i.count
  file : ∀ x n, s.findNode x = some n → n.isDir = false →
    n.entries = [] ∧ (n.attr.nlink.toNat : Int) = s.links x + w.owed x
  dir : ∀ x n, s.findNode x = some n → n.isDir = true →
    (n.attr.nlink = 0 ∧ x ≠ tmpfsRootIno ∧ (s.links x : Int) + w.owed x = 0 ∧ n.entries = []) ∨
    (2 ≤ n.attr.nlink.toNat ∧ (s.links x : Int) + w.owed x = linksOfDir x)
  gone : ∀ x n, s.findNode x = some n → n.attr.nlink = 0 → s.Referenced x
  entry : ∀ y d, s.findNode y = some d → ∀ e ∈ d.entries, ∃ n, s.findNode e.ino = some n ∧
    (n.isDir = true → e.ino ∉ w.moving → n.parentIno = y)
  agree : ∀ x n i, s.findNode x = some n → s.icache x = some i → Agree n i
  counts : exact = true → ∀ x n, s.findNode x = some n → n.isDir = true → n.attr.nlink ≠ 0 →
    (n.attr.nlink.toNat : Int) = 2 + s.subdirs n + w.subdirs x
  fresh : exact = true → ∀ x n i, s.findNode x = some n → s.icache x = some i → x ∉ w.stale →
    i.attr.nlink = n.attr.nlink

variable {b : Bool} {s : TmpfsSb} {w w' : Ledger} {x y : UInt32} {n : Node}
  {f : Node → Node} {g : Inode → Inode} {e : Dirent} {name : Name} {m : Node}

theorem modifyInode_id : s.modifyInode x (fun i => i) = s := by
  have h : (s.icache x).map (fun i => i) = s.icache x := Option.map_id'
  simp only [modifyInode, h, Function.update_eq_self]

section

variable (h : Inv b s w)
include h

/-- A node and its inode change in place.  What the change has to satisfy is said for the new node
and, for every other node, as a balance of its links. -/
theorem Inv.update (hx : s.findNode x = some n)
    (hino : ∀ m, (f m).ino = m.ino) (hmode : ∀ m, (f m).attr.mode = m.attr.mode)
    (hcount : ∀ i, (g i).count = i.count) (hparent : s.Used (f n).parentIno)
    (hpins : w'.pins = w.pins)
    (hlinks : ∀ y ≠ x, ((s.modifyNode x f).links y : Int) + w'.owed y = s.links y + w.owed y)
    (hfile : n.isDir = false → (f n).entries = [] ∧
      ((f n).attr.nlink.toNat : Int) = (s.modifyNode x f).links x + w'.owed x)
    (hdir : n.isDir = true → ((f n).attr.nlink = 0 ∧ x ≠ tmpfsRootIno ∧
        ((s.modifyNode x f).links x : Int) + w'.owed x = 0 ∧ (f n).entries = []) ∨
      (2 ≤ (f n).attr.nlink.toNat ∧ ((s.modifyNode x f).links x : Int) + w'.owed x = linksOfDir x))
    (hgone : (f n).attr.nlink = 0 → s.Referenced x)
    (hentry : ∀ e ∈ (f n).entries, ∃ m, s.findNode e.ino = some m ∧
      (m.isDir = true → e.ino ∉ w'.moving → (if e.ino = x then f m else m).parentIno = x))
    (hothers : ∀ y d, y ≠ x → s.findNode y = some d → ∀ e ∈ d.entries, ∀ m,
      s.findNode e.ino = some m → m.isDir = true → e.ino ∉ w'.moving →
        (if e.ino = x then f m else m).parentIno = y)
    (hagree : ∀ i, s.icache x = some i → Agree (f n) (g i))
    (hcounts : b = true → n.isDir = true → (f n).attr.nlink ≠ 0 →
      ((f n).attr.nlink.toNat : Int) = 2 + s.subdirs (f n) + w'.subdirs x)
    (hsubdirs : ∀ y ≠ x, w'.subdirs y = w.subdirs y)
    (hfresh : b = true → ∀ i, s.icache x = some i → x ∉ w'.stale →
      (g i).attr.nlink = (f n).attr.nlink) (hstale : ∀ y ≠ x, y ∉ w'.stale → y ∉ w.stale) :
    Inv b ((s.modifyNode x f).modifyInode x g) w' := by
  -- the kind of every node is what it was
  have hkind : ∀ m, (f m).isDir = m.isDir := fun m => by simp [Node.isDir, hmode]
  have hisDir : ∀ y, ((s.modifyNode x f).modifyInode x g).isDirIno y = s.isDirIno y :=
    fun y => isDirIno_modifyNode hino hmode
  have hnodes : ∀ {P : UInt32 → Node → Prop}, P x (f n) →
      (∀ y m, y ≠ x → s.findNode y = some m → P y m) →
      ∀ y m, ((s.modifyNode x f).modifyInode x g).findNode y = some m → P y m :=
    forall_modifyNode hino hx
  have hself : ∀ i', ((s.modifyNode x f).modifyInode x g).icache x = some i' →
      ∃ i, s.icache x = some i ∧ i' = g i := fun i' hi => by
    simpa using icache_of_modifyInode hi
  have hcache : ∀ y ≠ x, ((s.modifyNode x f).modifyInode x g).icache y = s.icache y :=
    fun y hy => icache_modifyInode.trans (if_neg hy)
  have href : ∀ y k, (∃ i, s.icache y = some i ∧ k < i.count) →
      ∃ i, ((s.modifyNode x f).modifyInode x g).icache y = some i ∧ k < i.count := by
    rintro y k ⟨i, hi, hpos⟩
    by_cases hy : y = x
    · exact ⟨g i, by rw [icache_modifyInode, if_pos hy, modifyNode_icache, hi]; rfl,
        by rw [hcount]; exact hpos⟩
    · exact ⟨i, (hcache y hy).trans hi, hpos⟩
  constructor
  case keys =>
    rw [modifyInode_nodes, modifyNode_keys hino]
    exact h.keys
  case used => exact hnodes ⟨(h.used x n hx).1, hparent⟩ fun y m _ hm => h.used y m hm
  case usedCache =>
    intro y i' hi'
    obtain ⟨i, hi, -⟩ := icache_of_modifyInode hi'
    exact h.usedCache y i hi
  case root =>
    rw [hisDir]
    exact h.root
  case rootPinned =>
    rw [hpins]
    exact href _ _ h.rootPinned
  case file =>
    refine hnodes (fun hfalse => hfile (hkind n ▸ hfalse)) fun y m hy hm => ?_
    exact hlinks y hy ▸ h.file y m hm
  case dir =>
    refine hnodes (fun htrue => hdir (hkind n ▸ htrue)) fun y m hy hm => ?_
    exact hlinks y hy ▸ h.dir y m hm
  case gone =>
    exact hnodes (fun hzero => href _ _ (hgone hzero))
      fun y m _ hm hzero => href _ _ (h.gone y m hm hzero)
  case entry =>
    have hnew : ∀ z m, s.findNode z = some m →
        ((s.modifyNode x f).modifyInode x g).findNode z = some (if z = x then f m else m) := by
      intro z m hm
      rw [findNode_modifyInode, findNode_modifyNode hino, hm]
      split_ifs <;> rfl
    have hsame : ∀ z m, (if z = x then f m else m).isDir = m.isDir := by
      intro z m
      split_ifs
      · exact hkind m
      · rfl
    refine hnodes (fun e he => ?_) fun y d hy hd e he => ?_
    · obtain ⟨m, hm, hp⟩ := hentry e he
      exact ⟨_, hnew _ m hm, fun hdirm hmov => hp (hsame _ m ▸ hdirm) hmov⟩
    · obtain ⟨m, hm, -⟩ := h.entry y d hd e he
      exact ⟨_, hnew _ m hm, fun hdirm hmov => hothers y d hy hd e he m hm (hsame _ m ▸ hdirm) hmov⟩
  case agree =>
    intro y m i hm
    revert i
    revert y m
    refine hnodes ?_ ?_
    · intro i' hi'
      obtain ⟨i, hi, rfl⟩ := hself i' hi'
      exact hagree i hi
    · exact fun y m hy hm i hi => h.agree y m i hm (hcache y hy ▸ hi)
  case counts =>
    refine fun hb => hnodes (fun htrue hne => ?_) fun y m hy hm htrue hne => ?_
    all_goals rw [subdirs_congr (s := s) (fun e _ => hisDir e.ino)]
    · exact hcounts hb (hkind n ▸ htrue) hne
    · rw [hsubdirs y hy]
      exact h.counts hb y m hm htrue hne
  case fresh =>
    intro hb y m i hm
    revert i
    revert y m
    refine hnodes ?_ ?_
    · intro i' hi' hns
      obtain ⟨i, hi, rfl⟩ := hself i' hi'
      exact hfresh hb i hi hns
    · exact fun y m hy hm i hi hns => h.fresh hb y m i hm (hcache y hy ▸ hi) (hstale y hy hns)

theorem Inv.parent_of_entry (hp : ∀ m, (f m).parentIno = m.parentIno)
    (hd : s.findNode y = some d) (he : e ∈ d.entries) (hm : s.findNode e.ino = some m)
    (hdir : m.isDir = true) (hmov : e.ino ∉ w.moving) :
    (if e.ino = x then f m else m).parentIno = y := by
  obtain ⟨m', hm', hparent⟩ := h.entry y d hd e he
  obtain rfl := Option.some.inj (hm'.symm.trans hm)
  split_ifs
  · rw [hp]
    exact hparent hdir hmov
  · exact hparent hdir hmov

section

variable (hx : s.findNode x = some n)
include hx

/-- A change of the count of links of a node and of its inode: the entries stay, so that only the
node itself and its own line of the ledger matter. -/
theorem Inv.updateNlink {owed subdirs : UInt32 → Int}
    (hcount : ∀ i, (g i).count = i.count) (howed : ∀ y ≠ x, owed y = w.owed y)
    (hfile : n.isDir = false → ((k n.attr.nlink).toNat : Int) = s.links x + owed x)
    (hdir : n.isDir = true →
      (k n.attr.nlink = 0 ∧ x ≠ tmpfsRootIno ∧ (s.links x : Int) + owed x = 0 ∧ n.entries = []) ∨
      (2 ≤ (k n.attr.nlink).toNat ∧ (s.links x : Int) + owed x = linksOfDir x))
    (hgone : k n.attr.nlink = 0 → s.Referenced x)
    (hagree : ∀ i, s.icache x = some i → Agree (n.withNlink (k n.attr.nlink)) (g i))
    (hcounts : b = true → n.isDir = true → k n.attr.nlink ≠ 0 →
      ((k n.attr.nlink).toNat : Int) = 2 + s.subdirs n + subdirs x)
    (hsubdirs : ∀ y ≠ x, subdirs y = w.subdirs y)
    (hfresh : b = true → ∀ i, s.icache x = some i → x ∉ stale →
      (g i).attr.nlink = k n.attr.nlink) (hstale : ∀ y ≠ x, y ∉ stale → y ∉ w.stale) :
    Inv b ((s.setNlink x k).modifyInode x g) { w with owed, subdirs, stale } := by
  let f (m : Node) := m.withNlink (k m.attr.nlink)
  have hlinks : ∀ y, (s.modifyNode x f).links y = s.links y := fun y =>
    links_modifyNode fun _ => rfl
  apply h.update (f := f) hx (fun _ => rfl) (fun _ => rfl) hcount (h.used x n hx).2
  case hpins => rfl
  case hlinks => exact fun y hy => by simp [hlinks, howed y hy]
  case hfile =>
    intro hfalse
    rw [hlinks]
    exact ⟨(h.file x n hx hfalse).1, hfile hfalse⟩
  case hdir =>
    intro htrue
    rw [hlinks]
    exact hdir htrue
  case hgone => exact hgone
  case hentry =>
    intro e he
    obtain ⟨m, hm, -⟩ := h.entry x n hx e he
    exact ⟨m, hm, fun hd hmov => h.parent_of_entry (fun _ => rfl) hx he hm hd hmov⟩
  case hothers =>
    intro y d _ hd e he m hm hdirm hmov
    exact h.parent_of_entry (fun _ => rfl) hd he hm hdirm hmov
  case hagree => exact hagree
  case hcounts => exact hcounts
  case hsubdirs => exact hsubdirs
  case hfresh => exact hfresh
  case hstale => exact hstale

theorem Inv.relinkFile (hfile : n.isDir = false)
    (k : UInt16 → UInt16) (hgone : k n.attr.nlink = 0 → s.Referenced x) :
    Inv b ((s.setNlink x k).copyNlink x)
      (w.owe x ((k n.attr.nlink).toNat - n.attr.nlink.toNat)) := by
  rw [copyNlink_eq (findNode_setNlink hx k)]
  apply h.updateNlink hx (k := k) (g := fun i => i.withNlink (k n.attr.nlink)) fun _ => rfl
  case howed => exact fun y hy => by simp [Pi.single_eq_of_ne hy]
  case hfile =>
    intro _
    obtain ⟨-, hcount⟩ := h.file x n hx hfile
    rw [Pi.add_apply, Pi.single_eq_same]
    omega
  case hdir => simp [hfile]
  case hgone => exact hgone
  case hagree => exact fun i hi => (h.agree x n i hx hi).withNlink _ (by simp [hfile])
  case hcounts => simp [hfile]
  case hsubdirs => exact fun _ _ => rfl
  case hfresh => exact fun _ _ _ _ => rfl
  case hstale => exact fun _ _ hns => hns

theorem Inv.zeroDir (hdir : n.isDir = true)
    (hroot : x ≠ tmpfsRootIno) (hlive : n.attr.nlink ≠ 0) (hempty : n.entries = [])
    (href : s.Referenced x) : Inv b ((s.setNlink x fun _ => 0).copyNlink x) (w.owe x (-1)) := by
  rw [copyNlink_eq (findNode_setNlink hx _)]
  apply h.updateNlink hx (k := fun _ => 0) (g := fun i => i.withNlink 0) fun _ => rfl
  case howed => exact fun y hy => by simp [Pi.single_eq_of_ne hy]
  case hfile => simp [hdir]
  case hdir =>
    intro _
    obtain ⟨hzero, -⟩ | ⟨-, hcount⟩ := h.dir x n hx hdir
    · exact absurd hzero hlive
    · rw [linksOfDir, if_neg hroot] at hcount
      refine .inl ⟨rfl, hroot, ?_, hempty⟩
      rw [Pi.add_apply, Pi.single_eq_same]
      omega
  case hgone => exact fun _ => href
  case hagree =>
    exact fun i hi => (h.agree x n i hx hi).withNlink 0 fun _ hne => absurd rfl hne
  case hcounts => exact fun _ _ hne => absurd rfl hne
  case hsubdirs => exact fun _ _ => rfl
  case hfresh => exact fun _ _ _ _ => rfl
  case hstale => exact fun _ _ hns => hns

theorem Inv.setDirNlink (hdir : n.isDir = true)
    (hlive : n.attr.nlink ≠ 0) (k : UInt16 → UInt16) (htwo : 2 ≤ (k n.attr.nlink).toNat) :
    Inv b (s.setNlink x k)
      ((w.overcount x ((k n.attr.nlink).toNat - n.attr.nlink.toNat)).addStale x) := by
  have hne : k n.attr.nlink ≠ 0 := by
    intro hzero
    rw [hzero] at htwo
    simp at htwo
  rw [← modifyInode_id (s := s.setNlink x k) (x := x)]
  apply h.updateNlink hx (k := k) (g := fun i => i) fun _ => rfl
  case howed => exact fun _ _ => rfl
  case hfile => simp [hdir]
  case hdir =>
    intro _
    obtain ⟨hzero, -⟩ | ⟨-, hcount⟩ := h.dir x n hx hdir
    · exact absurd hzero hlive
    · exact .inr ⟨htwo, hcount⟩
  case hgone => exact fun hzero => absurd hzero hne
  case hagree =>
    intro i hi
    have ha := h.agree x n i hx hi
    have hi0 : i.attr.nlink ≠ 0 := fun hz => hlive ((ha.zero hdir).mp hz)
    exact
      { same := ha.same
        file := fun hfalse => absurd (hfalse.symm.trans hdir) Bool.false_ne_true
        zero := fun _ => iff_of_false hi0 hne
        two := fun _ hi' => ha.two hdir hi' }
  case hcounts =>
    intro hb _ _
    have hc := h.counts hb x n hx hdir hlive
    rw [Ledger.overcount_subdirs, Pi.add_apply, Pi.single_eq_same]
    omega
  case hsubdirs => exact fun y hy => by simp [Pi.single_eq_of_ne hy]
  case hfresh => exact fun _ _ _ hns => absurd (Set.mem_insert x w.stale) hns
  case hstale => exact fun y _ hns hmem => hns (Set.mem_insert_of_mem x hmem)

theorem Inv.copyDirNlink (hdir : n.isDir = true) : Inv b (s.copyNlink x) (w.dropStale x) := by
  have hid : s.setNlink x id = s := by
    have hupd : Table.update Node.ino s.nodes x (fun m => m) = s.nodes := Table.update_id
    show { s with nodes := Table.update Node.ino s.nodes x fun m => m } = s
    rw [hupd]
  have hold := h.dir x n hx hdir
  rw [copyNlink_eq hx]
  nth_rewrite 1 [← hid]
  apply h.updateNlink hx (k := id) (g := fun i => i.withNlink n.attr.nlink) fun _ => rfl
  case howed => exact fun _ _ => rfl
  case hfile => simp [hdir]
  case hdir => exact fun _ => hold
  case hgone => exact h.gone x n hx
  case hagree =>
    intro i hi
    apply (h.agree x n i hx hi).withNlink n.attr.nlink
    intro _ hne
    obtain ⟨hzero, -⟩ | ⟨htwo, -⟩ := hold
    · exact absurd hzero hne
    · exact htwo
  case hcounts => exact fun hb _ hne => h.counts hb x n hx hdir hne
  case hsubdirs => exact fun _ _ => rfl
  case hfresh => exact fun _ _ _ _ => rfl
  case hstale => exact fun y hy hns hmem => hns ⟨hmem, hy⟩

end

end

def dirWeight (s : TmpfsSb) (x : UInt32) : Int := if s.isDirIno x then 1 else 0

theorem Inv.updateEntries (h : Inv b s w) (hx : s.findNode x = some n) (hdir : n.isDir = true)
    (hlive : n.attr.nlink ≠ 0) (k : List Dirent → List Dirent)
    (howed : ∀ y, ((n.withEntries (k n.entries)).names y : Int) + w'.owed y = n.names y + w.owed y)
    (hsub : (s.subdirs (n.withEntries (k n.entries)) : Int) + w'.subdirs x =
      s.subdirs n + w.subdirs x) (hsubdirs : ∀ y ≠ x, w'.subdirs y = w.subdirs y)
    (hstale : w'.stale = w.stale) (hmoving : w'.moving = w.moving) (hpins : w'.pins = w.pins)
    (hentry : ∀ e ∈ k n.entries, ∃ m, s.findNode e.ino = some m ∧
      (m.isDir = true → e.ino ∉ w.moving → m.parentIno = x)) : Inv b (s.setEntries x k) w' := by
  have hlinks : ∀ y, ((s.setEntries x k).links y : Int) + w'.owed y = s.links y + w.owed y := by
    intro y
    have htotal := links_modifyNode_entries (f := fun m => m.withEntries (k m.entries)) (y := y) hx
    have hy := howed y
    unfold setEntries
    omega
  rw [← modifyInode_id (s := s.setEntries x k) (x := x)]
  apply h.update (f := fun m => m.withEntries (k m.entries)) (g := fun i => i) hx
    (fun _ => rfl) (fun _ => rfl) (fun _ => rfl) (h.used x n hx).2
  case hpins => exact hpins
  case hlinks => exact fun y _ => hlinks y
  case hfile => simp [hdir]
  case hdir =>
    intro _
    obtain ⟨hzero, -⟩ | ⟨htwo, hcount⟩ := h.dir x n hx hdir
    · exact absurd hzero hlive
    · exact .inr ⟨htwo, (hlinks x).trans hcount⟩
  case hgone => exact fun hzero => absurd hzero hlive
  case hentry =>
    intro e he
    obtain ⟨m, hm, hp⟩ := hentry e he
    refine ⟨m, hm, fun hd hmov => ?_⟩
    rw [hmoving] at hmov
    split_ifs
    · exact hp hd hmov
    · exact hp hd hmov
  case hothers =>
    intro y d _ hd e he m hm hd' hmov
    rw [hmoving] at hmov
    exact h.parent_of_entry (f := fun m => m.withEntries (k m.entries)) (fun _ => rfl) hd he hm hd'
      hmov
  case hagree =>
    intro i hi
    exact { h.agree x n i hx hi with }
  case hcounts =>
    intro hb _ _
    have hc := h.counts hb x n hx hdir hlive
    show (n.attr.nlink.toNat : Int) = _
    omega
  case hsubdirs => exact hsubdirs
  case hfresh =>
    intro hb i hi hns
    rw [hstale] at hns
    exact h.fresh hb x n i hx hi hns
  case hstale => exact fun y _ hns => hstale ▸ hns

theorem subdirs_cons (e : Dirent) :
    (s.subdirs (n.withEntries (e :: n.entries)) : Int) = s.dirWeight e.ino + s.subdirs n := by
  unfold subdirs dirWeight Node.withEntries
  rw [Table.total_cons]
  split_ifs <;> simp

theorem subdirs_erase (h : n.findDirent name = some e) :
    (s.subdirs (n.withEntries (Table.erase Dirent.name n.entries name)) : Int) +
      s.dirWeight e.ino = s.subdirs n := by
  have htotal := Table.total_erase (g := fun e => if s.isDirIno e.ino then 1 else 0) h
  unfold subdirs dirWeight Node.withEntries
  split_ifs at htotal ⊢ <;> simp only at * <;> omega

theorem subdirs_redirect (h : n.findDirent name = some e) (y : UInt32) :
    (s.subdirs (n.withEntries
        (Table.update Dirent.name n.entries name fun e => { e with ino := y })) : Int) +
      s.dirWeight e.ino = s.subdirs n + s.dirWeight y := by
  have htotal := Table.total_update (f := fun e => { e with ino := y })
    (g := fun e => if s.isDirIno e.ino then 1 else 0) h
  unfold subdirs dirWeight Node.withEntries
  split_ifs at htotal ⊢ <;> simp only at * <;> omega

theorem Inv.addEntry (h : Inv b s w) (hx : s.findNode x = some n) (hdir : n.isDir = true)
    (hlive : n.attr.nlink ≠ 0) (name : Name) (hy : s.findNode y = some m)
    (hparent : m.isDir = true → y ∉ w.moving → m.parentIno = x) :
    Inv b (s.setEntries x (⟨name, y⟩ :: ·)) ((w.owe y (-1)).overcount x (-s.dirWeight y)) := by
  apply h.updateEntries hx hdir hlive
  case howed =>
    intro z
    rw [names_cons]
    by_cases hz : y = z
    · subst hz
      simp
      omega
    · simp [hz]
  case hsub =>
    rw [subdirs_cons]
    simp
    omega
  case hsubdirs => exact fun z hz => by simp [Pi.single_eq_of_ne hz]
  case hstale => rfl
  case hmoving => rfl
  case hpins => rfl
  case hentry =>
    intro e he
    rcases List.mem_cons.mp he with rfl | hold
    · exact ⟨m, hy, hparent⟩
    · exact h.entry x n hx e hold

theorem Inv.removeEntry (h : Inv b s w) (hx : s.findNode x = some n) (hdir : n.isDir = true)
    (hlive : n.attr.nlink ≠ 0) (he : n.findDirent name = some e) :
    Inv b (s.removeDirent x name) ((w.owe e.ino 1).overcount x (s.dirWeight e.ino)) := by
  apply h.updateEntries hx hdir hlive
  case howed =>
    intro z
    have hnames := names_erase he z
    by_cases hz : e.ino = z
    · subst hz
      simp at hnames ⊢
      omega
    · simp [hz] at hnames ⊢
      omega
  case hsub =>
    have hsub := subdirs_erase (s := s) he
    simp
    omega
  case hsubdirs => exact fun z hz => by simp [Pi.single_eq_of_ne hz]
  case hstale => rfl
  case hmoving => rfl
  case hpins => rfl
  case hentry => exact fun e' he' => h.entry x n hx e' (Table.mem_of_mem_erase he')

theorem Inv.redirectEntry (h : Inv b s w) (hx : s.findNode x = some n) (hdir : n.isDir = true)
    (hlive : n.attr.nlink ≠ 0) (he : n.findDirent name = some e) (hy : s.findNode y = some m)
    (hkind : s.isDirIno y = s.isDirIno e.ino)
    (hparent : m.isDir = true → y ∉ w.moving → m.parentIno = x) :
    Inv b (s.redirectDirent x name y) ((w.owe e.ino 1).owe y (-1)) := by
  apply h.updateEntries hx hdir hlive
  case howed =>
    intro z
    have hnames := names_redirect he y z
    simp only [Ledger.owe_owed, Pi.add_apply, Pi.single_apply, eq_comm (a := z)]
    split_ifs at hnames ⊢ <;> omega
  case hsub =>
    have hsub := subdirs_redirect (s := s) he y
    unfold dirWeight at hsub
    rw [hkind] at hsub
    simp only [Ledger.owe_subdirs]
    omega
  case hsubdirs => exact fun _ _ => rfl
  case hstale => rfl
  case hmoving => rfl
  case hpins => rfl
  case hentry =>
    intro e' he'
    rcases Table.mem_update he' with hold | ⟨e₀, -, rfl⟩
    · exact h.entry x n hx e' hold
    · exact ⟨m, hy, hparent⟩

end TmpfsSb

end Six.Tmpfs
