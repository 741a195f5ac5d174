import Six.Tmpfs.Super

/-! What the updates of a tmpfs mount do to the nodes, to the entries that name a node and to the
cached inodes. -/

namespace Six.Tmpfs

open Lib Table

def Node.names (n : Node) (x : UInt32) : Nat :=
  Table.total (fun e => if e.ino = x then 1 else 0) n.entries

namespace TmpfsSb

variable {s : TmpfsSb} {x y : UInt32} {n : Node} {f : Node → Node} {g : Inode → Inode} {e : Dirent}
  {d : Node} {name : Name}

def links (s : TmpfsSb) (x : UInt32) : Nat := Table.total (fun n => n.names x) s.nodes

def subdirs (s : TmpfsSb) (n : Node) : Nat :=
  Table.total (fun e => if s.isDirIno e.ino then 1 else 0) n.entries

theorem ino_of_findNode (h : s.findNode x = some n) : n.ino = x := find_key h

theorem mem_of_findNode (h : s.findNode x = some n) : n ∈ s.nodes := find_mem h

theorem findNode_of_mem (hkeys : (s.nodes.map Node.ino).Nodup) (h : n ∈ s.nodes) :
    s.findNode n.ino = some n :=
  find_of_mem hkeys h

theorem isDirIno_eq (h : s.findNode x = some n) : s.isDirIno x = n.isDir := by
  rw [isDirIno, h]
  rfl

theorem exists_of_isDirIno (h : s.isDirIno x = true) :
    ∃ n, s.findNode x = some n ∧ n.isDir = true := by
  unfold isDirIno at h
  cases hx : s.findNode x with
  | none =>
    rw [hx] at h
    cases h
  | some n =>
    rw [hx] at h
    exact ⟨n, rfl, h⟩

@[simp] theorem modifyNode_icache : (s.modifyNode x f).icache = s.icache := rfl

section

variable (hf : ∀ n, (f n).ino = n.ino)
include hf

theorem modifyNode_keys : (s.modifyNode x f).nodes.map Node.ino = s.nodes.map Node.ino :=
  map_update hf

theorem findNode_modifyNode :
    (s.modifyNode x f).findNode y = if y = x then (s.findNode y).map f else s.findNode y := by
  split_ifs with h
  · subst h
    exact find_update_self hf
  · exact find_update_of_ne hf h

theorem findNode_of_modifyNode (h : (s.modifyNode x f).findNode y = some n) :
    ∃ m, s.findNode y = some m ∧ n = if y = x then f m else m := by
  rw [findNode_modifyNode hf] at h
  split_ifs at h ⊢ with hy
  · obtain ⟨m, hm, rfl⟩ := Option.map_eq_some_iff.mp h
    exact ⟨m, hm, rfl⟩
  · exact ⟨n, h, rfl⟩

theorem forall_modifyNode {P : UInt32 → Node → Prop} (hx : s.findNode x = some n) (hnew : P x (f n))
    (hold : ∀ y m, y ≠ x → s.findNode y = some m → P y m) :
    ∀ y m, (s.modifyNode x f).findNode y = some m → P y m := by
  intro y m' hm'
  obtain ⟨m, hm, rfl⟩ := findNode_of_modifyNode hf hm'
  split_ifs with hy
  · subst hy
    obtain rfl := Option.some.inj (hm.symm.trans hx)
    exact hnew
  · exact hold y m hy hm

theorem isDirIno_modifyNode (hmode : ∀ n, (f n).attr.mode = n.attr.mode) :
    (s.modifyNode x f).isDirIno y = s.isDirIno y := by
  unfold isDirIno
  rw [findNode_modifyNode hf]
  split_ifs
  · rw [Option.any_map]
    congr 1
    funext n
    simp [Node.isDir, hmode]
  · rfl

end

theorem links_modifyNode (hent : ∀ n, (f n).entries = n.entries) :
    (s.modifyNode x f).links y = s.links y := by
  cases hx : s.findNode x with
  | none =>
    have heq : update Node.ino s.nodes x f = s.nodes := update_of_find_eq_none hx
    simp only [links, modifyNode, heq]
  | some n =>
    have h := total_update (f := f) (g := fun n => n.names y) hx
    have hn : (f n).names y = n.names y := by simp [Node.names, hent]
    simp only [links, modifyNode]
    omega

theorem links_modifyNode_entries (hx : s.findNode x = some n) :
    (s.modifyNode x f).links y + n.names y = s.links y + (f n).names y :=
  total_update hx

theorem subdirs_congr {s' : TmpfsSb}
    (hent : ∀ e ∈ n.entries, s'.isDirIno e.ino = s.isDirIno e.ino) :
    s'.subdirs n = s.subdirs n := by
  unfold subdirs total
  congr 1
  apply List.map_congr_left
  intro e he
  rw [hent e he]

theorem findNode_setEntries (h : s.findNode y = some n) (x : UInt32)
    (k : List Dirent → List Dirent) :
    (s.setEntries x k).findNode y = some (if y = x then n.withEntries (k n.entries) else n) := by
  unfold setEntries
  rw [findNode_modifyNode, h]
  · split_ifs <;> rfl
  · exact fun _ => rfl

theorem isDirIno_setEntries (k : List Dirent → List Dirent) :
    (s.setEntries x k).isDirIno y = s.isDirIno y := by
  apply isDirIno_modifyNode <;> exact fun _ => rfl

theorem findNode_setNlink_of_ne (hy : y ≠ x) (k : UInt16 → UInt16) :
    (s.setNlink x k).findNode y = s.findNode y := by
  unfold setNlink
  rw [findNode_modifyNode, if_neg hy]
  exact fun _ => rfl

theorem findNode_setNlink (hx : s.findNode x = some n) (k : UInt16 → UInt16) :
    (s.setNlink x k).findNode x = some (n.withNlink (k n.attr.nlink)) := by
  unfold setNlink
  rw [findNode_modifyNode, if_pos rfl, hx]
  · rfl
  · exact fun _ => rfl

@[simp] theorem modifyInode_nodes : (s.modifyInode x g).nodes = s.nodes := rfl

@[simp] theorem findNode_modifyInode : (s.modifyInode x g).findNode y = s.findNode y := rfl

theorem icache_modifyInode :
    (s.modifyInode x g).icache y = if y = x then (s.icache y).map g else s.icache y := by
  unfold modifyInode
  by_cases h : y = x
  · subst h
    simp
  · simp [h]

theorem icache_of_modifyInode (h : (s.modifyInode x g).icache y = some i) :
    ∃ j, s.icache y = some j ∧ i = if y = x then g j else j := by
  rw [icache_modifyInode] at h
  split_ifs at h ⊢ with hy
  · obtain ⟨j, hj, rfl⟩ := Option.map_eq_some_iff.mp h
    exact ⟨j, hj, rfl⟩
  · exact ⟨i, h, rfl⟩

theorem copyNlink_eq (h : s.findNode x = some n) :
    s.copyNlink x = s.modifyInode x fun i => i.withNlink n.attr.nlink := by
  rw [copyNlink, h]

@[simp] theorem findNode_copyNlink : (s.copyNlink x).findNode y = s.findNode y := by
  unfold copyNlink
  cases s.findNode x <;> rfl

theorem names_cons (d : Node) (e : Dirent) (y : UInt32) :
    (d.withEntries (e :: d.entries)).names y = (if e.ino = y then 1 else 0) + d.names y :=
  total_cons

theorem names_erase (h : d.findDirent name = some e) (y : UInt32) :
    (d.withEntries (erase Dirent.name d.entries name)).names y +
      (if e.ino = y then 1 else 0) = d.names y :=
  total_erase h

theorem names_redirect (h : d.findDirent name = some e) (x y : UInt32) :
    (d.withEntries (update Dirent.name d.entries name fun e => { e with ino := x })).names y +
      (if e.ino = y then 1 else 0) = d.names y + if x = y then 1 else 0 :=
  total_update h

theorem names_pos (h : e ∈ d.entries) : 0 < d.names e.ino := by
  have hle := le_total (g := fun e' : Dirent => if e'.ino = e.ino then 1 else 0) h
  rw [if_pos rfl] at hle
  exact hle

theorem exists_entry_of_names_pos (h : 0 < d.names x) : ∃ e ∈ d.entries, e.ino = x := by
  obtain ⟨e, he, hpos⟩ := exists_of_total_pos h
  refine ⟨e, he, ?_⟩
  split_ifs at hpos with hx
  · exact hx
  · omega

theorem links_pos (h : s.findNode y = some n) (he : e ∈ n.entries) : 0 < s.links e.ino := by
  have hle := le_total (g := fun n : Node => n.names e.ino) (mem_of_findNode h)
  exact Nat.lt_of_lt_of_le (names_pos he) hle

theorem exists_entry_of_links_pos (hkeys : (s.nodes.map Node.ino).Nodup) (h : 0 < s.links x) :
    ∃ y d e, s.findNode y = some d ∧ e ∈ d.entries ∧ e.ino = x := by
  obtain ⟨d, hd, hpos⟩ := exists_of_total_pos h
  obtain ⟨e, he, hx⟩ := exists_entry_of_names_pos hpos
  exact ⟨d.ino, d, e, findNode_of_mem hkeys hd, he, hx⟩

theorem two_le_links (hne : x ≠ y) (hd : s.findNode x = some d)
    (hd' : s.findNode y = some d') (h : 0 < d.names k) (h' : 0 < d'.names k) : 2 ≤ s.links k := by
  -- without the entries of the first directory, the second still counts
  have htotal := links_modifyNode_entries (f := fun n => n.withEntries []) (y := k) hd
  have hfind : (s.modifyNode x fun n => n.withEntries []).findNode y = some d' := by
    rw [findNode_modifyNode (f := fun n => n.withEntries []) (fun _ => rfl), if_neg hne.symm, hd']
  have hle := le_total (g := fun n : Node => n.names k) (mem_of_findNode hfind)
  have hempty : (d.withEntries []).names k = 0 := rfl
  simp only [links] at htotal ⊢
  omega

end TmpfsSb

end Six.Tmpfs
