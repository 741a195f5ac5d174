import Six.Overlay.Calls

/-! The merged tree.  `visible` says which names a merged directory has, and `Attached` that a node
is still where a walk from the root would find it. -/

namespace Six.Overlay

open Lib Errno List Option

namespace OvlSb

variable {s s' : OvlSb} {d ino : Nat} {dir : Option Nat} {name m : Name} {n p : OvlNode}
  {mode : UInt32}

structure Inv (s : OvlSb) : Prop where
  ordered : ∀ k ∈ s.nodes.map OvlNode.key,
    (k.1 = rootIno ∧ k.2.1 = rootIno ∧ k.2.2 = []) ∨ k.2.1 < k.1
  below : ∀ k ∈ s.nodes.map OvlNode.key, k.1 < s.nextIno
  parent : ∀ k ∈ s.nodes.map OvlNode.key, ∃ q ∈ s.nodes.map OvlNode.key, q.1 = k.2.1
  named : ∀ k ∈ s.nodes.map OvlNode.key, k.2.2 ≠ .dot ∧ k.2.2 ≠ .dotdot

theorem Inv.kept (h : Inv s) (k : Kept s s') : Inv s' := by
  constructor
  · rw [k.keys]; exact h.ordered
  · rw [k.keys, k.nextIno]; exact h.below
  · rw [k.keys]; exact h.parent
  · rw [k.keys]; exact h.named

theorem key_mem (h : s.findNode ino = some n) : n.key ∈ s.nodes.map OvlNode.key :=
  mem_map_of_mem (mem_of_find?_eq_some h)

theorem findNode_of_key (h : k ∈ s.nodes.map OvlNode.key) : (s.findNode k.1).isSome := by
  obtain ⟨n, hn, rfl⟩ := mem_map.mp h
  rw [findNode, find?_isSome]
  exact ⟨n, hn, by simp [OvlNode.key]⟩

theorem Inv.parent_lt (h : Inv s) (hn : s.findNode ino = some n) (hr : n.ino ≠ rootIno) :
    n.parentIno < n.ino := by
  rcases h.ordered _ (key_mem hn) with root | lt
  · exact absurd root.1 hr
  · exact lt

theorem Inv.parent_found (h : Inv s) (hn : s.findNode ino = some n) :
    (s.findNode n.parentIno).isSome := by
  obtain ⟨q, hq, heq⟩ := h.parent _ (key_mem hn)
  have := findNode_of_key hq
  rwa [heq] at this

theorem find_dot {fs : DirFs} (h : fs.isDir d = true) (hm : m = .dot ∨ m = .dotdot) :
    (fs.find d m).isSome := by
  obtain ⟨i, hi, hc⟩ := map_eq_some_iff.mp (DirFs.isDir_iff.mp h)
  have hb : ∃ parent es, i.body = .dir parent es := by
    cases hb : i.body <;> simp_all [Body.content]
  obtain ⟨parent, es, hb⟩ := hb
  rcases hm with rfl | rfl <;>
    simp [DirFs.find, hi, hb, Body.find, Name.dot, Name.dotdot]

theorem getOrCreateChildNode_inv (h : Inv s) (hdir : (s.findNode ino).isSome)
    (hname : name ≠ .dot ∧ name ≠ .dotdot) (u l : Option Nat) :
    Inv (s.getOrCreateChildNode ino name u l).1 := by
  unfold getOrCreateChildNode
  split
  · refine h.kept ?_
    apply kept_setNode
    exact fun _ => rfl
  · obtain ⟨n, hn⟩ := isSome_iff_exists.mp hdir
    have hlt : ino < s.nextIno := by
      have := h.below _ (key_mem hn)
      rwa [OvlNode.key, findNode_ino hn] at this
    constructor
    · intro k hk
      rcases mem_cons.mp hk with rfl | hk
      · exact .inr hlt
      · exact h.ordered k hk
    · intro k hk
      rcases mem_cons.mp hk with rfl | hk
      · exact Nat.lt_succ_self _
      · exact Nat.lt_succ_of_lt (h.below k hk)
    · intro k hk
      rcases mem_cons.mp hk with rfl | hk
      · exact ⟨n.key, mem_cons_of_mem _ (key_mem hn), findNode_ino hn⟩
      · obtain ⟨q, hq, heq⟩ := h.parent k hk
        exact ⟨q, mem_cons_of_mem _ hq, heq⟩
    · intro k hk
      rcases mem_cons.mp hk with rfl | hk
      · exact hname
      · exact h.named k hk

theorem Inv.begin (h : Inv s) (c : Call) : Inv (s.begin c) := { h with }

theorem findNode_isSome_kept (k : Kept s s') (h : (s.findNode ino).isSome) :
    (s'.findNode ino).isSome := by
  obtain ⟨n, hn⟩ := isSome_iff_exists.mp h
  have mem := key_mem hn
  rw [← k.keys] at mem
  have := findNode_of_key mem
  rwa [OvlNode.key, findNode_ino hn] at this

theorem ovlLookup_inv (h : Inv s) : Inv (s.ovlLookup ino name).1 := by
  unfold ovlLookup
  split
  · exact h
  rename_i n hn
  split
  · exact h
  split
  · exact h
  rename_i hdot
  split
  · exact h
  rename_i hdotdot
  split
  · exact h
  dsimp only
  have looked :
      Kept s ((s.refreshNode n).realChild ((s.refreshNode n).upperOf ino) n.lower name).1 :=
    refreshNode_kept.trans (upperLookup_called.trans hasWhiteout_called).toKept
  split
  · exact h.kept looked
  · exact getOrCreateChildNode_inv (h.kept looked)
      (findNode_isSome_kept looked (by rw [hn]; rfl)) ⟨fun heq => hdot (.inr heq), hdotdot⟩ _ _

theorem ovlCreate_inv (h : Inv s) : Inv (s.ovlCreate ino name mode).1 := by
  unfold ovlCreate
  split
  · exact h
  split
  · exact h
  split
  · exact h
  rename_i n hn
  dsimp only
  split
  · exact h.kept ensureUpperDir_kept
  have created : Kept s (((s.ensureUpperDir ino).1.removeWhiteout
      ((s.ensureUpperDir ino).1.upperOf ino) name).realCreate
      ((s.ensureUpperDir ino).1.upperOf ino) name mode).1 :=
    ensureUpperDir_kept.trans (removeWhiteout_called.trans realCreate_called).toKept
  split
  · exact h.kept created
  · rename_i u hok
    -- a directory has the names `.` and `..` already
    obtain ⟨d, -, -, added⟩ := realCreate_ok hok
    have hname : ¬ (name = .dot ∨ name = .dotdot) := by
      intro hdots
      have := find_dot added.isDir hdots
      simp [added.absent] at this
    exact getOrCreateChildNode_inv (h.kept created)
      (findNode_isSome_kept created (by rw [hn]; rfl)) (not_or.mp hname) _ _

theorem ovlMkdir_kept : Kept s (s.ovlMkdir ino name mode).1 := by
  unfold ovlMkdir
  split
  · exact .refl s
  split
  · exact .refl s
  dsimp only
  split
  · exact ensureUpperDir_kept
  · exact ensureUpperDir_kept.trans (removeWhiteout_called.trans realMkdir_called).toKept

theorem exec_inv (h : Inv s) (c : Call) : Inv (s.exec c).1 := by
  have h := h.begin c
  unfold exec
  cases c.op with
  | lookup => exact ovlLookup_inv h
  | create => exact ovlCreate_inv h
  | mkdir => exact h.kept ovlMkdir_kept
  | unlink =>
    exact h.kept (removeEntry_kept (fun _ _ => realUnlink_called.toKept) fun _ => forgetChild_kept)
  | rmdir => exact h.kept (removeEntry_kept (fun _ _ => realRmdir_called.toKept) .refl)
  | copyUp => exact h.kept copyUp_kept

theorem mount_inv (upper lower : DirFs) (u l : Nat) (rdonly : Bool) (grain : Nat → Nat) :
    Inv (mount upper lower u l rdonly grain) := by
  constructor <;> simp [mount, OvlNode.key, rootIno, Name.dot, Name.dotdot]

theorem reaches_inv {G : OvlSb → Call → Prop} {upper lower : DirFs} {rdonly : Bool}
    {grain : Nat → Nat} (h : Reaches step G (mount upper lower u l rdonly grain) s) : Inv s := by
  refine h.invariant (mount_inv ..) ?_
  intro a c b inv _ hb
  cases hb
  exact exec_inv inv c

def hidden (s : OvlSb) (upper : Option Nat) (name : Name) : Bool :=
  (entry s.upper upper (whPrefix ++ name)).isSome

def lowerEntry (s : OvlSb) (n : OvlNode) (name : Name) : Option Nat :=
  if s.hidden n.upper name then none else entry s.lower n.lower name

def visible (s : OvlSb) (n : OvlNode) (name : Name) : Bool :=
  (entry s.upper n.upper name).isSome || (s.lowerEntry n name).isSome

def visibleDir (s : OvlSb) (n : OvlNode) (name : Name) : Bool :=
  match entry s.upper n.upper name with
  | some u => s.upper.isDir u
  | none => (s.lowerEntry n name).any s.lower.isDir

inductive Attached (s : OvlSb) : OvlNode → Prop
  | root {n : OvlNode} : s.findNode n.ino = some n → n.ino = rootIno → n.upper.isSome →
      Attached s n
  | child {n p : OvlNode} : s.findNode n.ino = some n → n.ino ≠ rootIno →
      s.findNode n.parentIno = some p → Attached s p → n.name ≠ .dot → n.name ≠ .dotdot →
      n.upper = entry s.upper p.upper n.name → n.lower = s.lowerEntry p n.name →
      n.upper.isSome ∨ n.lower.isSome → Attached s n

theorem Attached.found (h : Attached s n) : s.findNode n.ino = some n := by
  cases h <;> assumption

theorem whPrefix_append_ne_dot (name : Name) :
    whPrefix ++ name ≠ .dot ∧ whPrefix ++ name ≠ .dotdot := by
  constructor <;> intro h <;> simp [whPrefix, Name.dot, Name.dotdot] at h

theorem makeWhiteoutName_ok (h : makeWhiteoutName name = .ok wh) : wh = whPrefix ++ name := by
  unfold makeWhiteoutName at h
  split at h <;> cases h
  rfl

theorem removeWhiteout_of_not_hidden (h : s.hidden dir name = false) :
    (s.removeWhiteout dir name).upper = s.upper := by
  unfold removeWhiteout
  split
  · rfl
  rename_i wh hwh
  obtain rfl := makeWhiteoutName_ok hwh
  dsimp only
  split
  · rename_i hok
    cases hl : (s.upperLookup dir (whPrefix ++ name)).2 with
    | error e => simp [hl, Except.isOk, Except.toBool] at hok
    | ok i => simp [hidden, upperLookup_ok hl] at h
  · exact upperLookup_upper

theorem ensureUpperDirFrom_findNode (inv : Inv s) (fuel : Nat) (hij : i < j) :
    (ensureUpperDirFrom fuel s i).1.findNode j = s.findNode j := by
  induction fuel generalizing i with
  | zero => rfl
  | succ fuel ih =>
    unfold ensureUpperDirFrom
    split
    · rfl
    rename_i n hn
    have hi := findNode_ino hn
    split
    · rfl
    split
    · rfl
    rename_i hroot
    split
    · rfl
    have hlt : n.parentIno < j := by
      have := inv.parent_lt hn hroot
      omega
    unfold belowParent
    split
    · exact ih hlt
    rw [← ih hlt]
    have attach : ∀ (t : OvlSb) dir, (t.attachUpper n dir).1.findNode j = t.findNode j := by
      intro t dir
      unfold attachUpper
      dsimp only
      split
      · exact upperLookup_called.findNode j
      · rw [findNode_setUpper, if_neg (by omega), upperLookup_called.findNode]
    unfold makeUpperDir
    dsimp only
    split
    · split
      · rw [attach, realMkdir_called.findNode, removeWhiteout_called.findNode]
      · rw [realMkdir_called.findNode, removeWhiteout_called.findNode]
    · rw [attach, realMkdir_called.findNode, removeWhiteout_called.findNode]

theorem attachUpper_ok (h : (s.attachUpper n dir).2 = .ok ()) :
    ∃ u, entry s.upper dir n.name = some u ∧ (s.attachUpper n dir).1.upper = s.upper ∧
      ∀ i, (s.attachUpper n dir).1.findNode i = (s.setUpper n.ino (some u)).findNode i := by
  unfold attachUpper at h ⊢
  cases hl : (s.upperLookup dir n.name).2 with
  | error e => simp [hl] at h
  | ok u =>
    refine ⟨u, upperLookup_ok hl, ?_, fun i => ?_⟩
    · simp only [hl]
      exact upperLookup_upper
    · simp only [hl]
      rw [findNode_setUpper, findNode_setUpper, upperLookup_called.findNode]

theorem makeUpperDir_ok (found : s.findNode n.ino = some n)
    (absent : entry s.upper dir n.name = none)
    (shown : s.hidden dir n.name = false) (h : (s.makeUpperDir n dir).2 = .ok ()) :
    ∃ d attr, dir = some d ∧
      DirFs.Added s.upper (s.makeUpperDir n dir).1.upper d n.name ⟨.dir d [], attr, false⟩ ∧
      (s.makeUpperDir n dir).1.findNode n.ino = some { n with upper := some s.upper.next } := by
  have cleared := removeWhiteout_of_not_hidden shown
  unfold makeUpperDir at h ⊢
  generalize hm : (s.removeWhiteout dir n.name).realMkdir dir n.name (s.dirMode n) = m at h ⊢
  have called : Called s m.1 := by
    rw [← hm]
    exact removeWhiteout_called.trans realMkdir_called
  cases hr : m.2 with
  | error e =>
    -- without a new directory there is nothing to attach
    have same : m.1.upper = s.upper := by
      rw [← hm, ← cleared]
      exact onDir_error (by rw [← hr, ← hm]; rfl)
    simp only [hr] at h
    split at h
    · obtain ⟨u, hu, -⟩ := attachUpper_ok h
      rw [same, absent] at hu
      cases hu
    · cases h
  | ok u =>
    have made : ((s.removeWhiteout dir n.name).realMkdir dir n.name (s.dirMode n)).2 = .ok u := by
      rw [hm, hr]
    obtain ⟨d, hd, rfl, added⟩ := realMkdir_ok made
    rw [hm, cleared] at added
    simp only [hr] at h ⊢
    obtain ⟨u, hu, upper, nodes⟩ := attachUpper_ok h
    have hu : s.upper.next = u := by
      rw [hd, entry, bind_some, added.find_self] at hu
      exact some_inj.mp hu
    refine ⟨d, _, hd, by rw [upper]; exact added, ?_⟩
    rw [nodes, findNode_setUpper, if_pos rfl, called.findNode, found, hu]
    rfl

structure Ensured (s s' : OvlSb) (n : OvlNode) : Prop where
  old : n.upper.isSome → s' = s
  new : n.upper = none → ∃ u, s'.findNode n.ino = some { n with upper := some u } ∧
    s'.upper.isDir u = true ∧ ∀ m, m ≠ .dot → m ≠ .dotdot → s'.upper.find u m = none

theorem ensureUpperDirFrom_of_upper (found : s.findNode n.ino = some n) (h : n.upper.isSome)
    (fuel : Nat) : ensureUpperDirFrom (fuel + 1) s n.ino = (s, .ok ()) := by
  simp only [ensureUpperDirFrom, found, h, if_true]

theorem ensureUpperDirFrom_of_none (found : s.findNode n.ino = some n) (h : n.upper = none)
    (hr : n.ino ≠ rootIno) (hp : s.findNode n.parentIno = some p) (fuel : Nat) :
    ensureUpperDirFrom (fuel + 1) s n.ino =
      belowParent (ensureUpperDirFrom fuel s n.parentIno) n := by
  rw [ensureUpperDirFrom, found]
  simp only [h, hr, hp, isSome_none, isNone_some, Bool.false_eq_true, if_false]

theorem Attached.ensure (att : Attached s n) (inv : Inv s) (hf : n.ino ≤ fuel)
    (h : (ensureUpperDirFrom fuel s n.ino).2 = .ok ()) :
    Ensured s (ensureUpperDirFrom fuel s n.ino).1 n := by
  induction att generalizing fuel with
  | @root n found hroot hup =>
    obtain ⟨fuel, rfl⟩ : ∃ k, fuel = k + 1 := ⟨fuel - 1, by simp [hroot, rootIno] at hf; omega⟩
    rw [ensureUpperDirFrom_of_upper found hup]
    exact ⟨fun _ => rfl, fun hnone => by simp [hnone] at hup⟩
  | @child n p found hroot hp att hdot hdotdot hup hlow hsome ih =>
    have hlt := inv.parent_lt found hroot
    obtain ⟨fuel, rfl⟩ : ∃ k, fuel = k + 1 := ⟨fuel - 1, by omega⟩
    by_cases hu : n.upper.isSome
    · rw [ensureUpperDirFrom_of_upper found hu]
      exact ⟨fun _ => rfl, fun hnone => by simp [hnone] at hu⟩
    have hnone : n.upper = none := by simpa using hu
    have hpi := findNode_ino hp
    have keep : (ensureUpperDirFrom fuel s n.parentIno).1.findNode n.ino = some n := by
      rw [ensureUpperDirFrom_findNode inv fuel hlt, found]
    rw [ensureUpperDirFrom_of_none found hnone hroot hp, belowParent] at h ⊢
    cases hr : (ensureUpperDirFrom fuel s n.parentIno).2 with
    | error e => simp [hr] at h
    | ok a =>
      simp only [hr] at h ⊢
      have above : Ensured s (ensureUpperDirFrom fuel s n.parentIno).1 p := by
        rw [← hpi] at hr ⊢
        exact ih (by omega) hr
      generalize (ensureUpperDirFrom fuel s n.parentIno).1 = t at *
      -- the parent has no upper entry of this name and no whiteout for it, or is new
      have clear : entry t.upper (t.upperOf n.parentIno) n.name = none ∧
          t.hidden (t.upperOf n.parentIno) n.name = false := by
        cases hpu : p.upper with
        | some u =>
          obtain rfl := above.old (by rw [hpu]; rfl)
          have hof : t.upperOf n.parentIno = p.upper := by simp [upperOf, hp]
          rw [hof]
          refine ⟨hup ▸ hnone, ?_⟩
          by_contra hhid
          rw [hnone, hlow, lowerEntry, if_pos (by simpa using hhid)] at hsome
          simp at hsome
        | none =>
          obtain ⟨u, hfound, -, hempty⟩ := above.new hpu
          have hof : t.upperOf n.parentIno = some u := by
            rw [hpi] at hfound
            simp [upperOf, hfound]
          obtain ⟨hw1, hw2⟩ := whPrefix_append_ne_dot n.name
          rw [hof]
          exact ⟨hempty _ hdot hdotdot, by simp [hidden, entry, hempty _ hw1 hw2]⟩
      obtain ⟨d, attr, hd, added, node⟩ := makeUpperDir_ok keep clear.1 clear.2 h
      refine ⟨fun hsome => absurd hsome hu, fun _ => ⟨_, node, ?_, added.find_new⟩⟩
      rw [DirFs.isDir_iff, added.content_new]
      rfl

theorem ensureUpperDirFrom_fuel (inv : Inv s) (hf : i ≤ f) (hg : i ≤ g) :
    ensureUpperDirFrom f s i = ensureUpperDirFrom g s i := by
  have zero : s.findNode 0 = none := by
    by_contra hne
    obtain ⟨n, hn⟩ := ne_none_iff_exists'.mp hne
    have hi := findNode_ino hn
    have := inv.parent_lt hn (by rw [hi]; decide)
    omega
  induction f generalizing g i with
  | zero =>
    obtain rfl : i = 0 := by omega
    cases g with
    | zero => rfl
    | succ g => simp only [ensureUpperDirFrom, zero]
  | succ f ih =>
    cases g with
    | zero =>
      obtain rfl : i = 0 := by omega
      simp only [ensureUpperDirFrom, zero]
    | succ g =>
      cases hn : s.findNode i with
      | none => simp only [ensureUpperDirFrom, hn]
      | some n =>
        have hi := findNode_ino hn
        by_cases hr : n.ino = rootIno
        · simp only [ensureUpperDirFrom, hn, hr, if_true]
        · have hlt := inv.parent_lt hn hr
          simp only [ensureUpperDirFrom, hn, hr, if_false]
          rw [ih (show n.parentIno ≤ f by omega) (show n.parentIno ≤ g by omega)]

theorem Attached.ensureUpperDir (att : Attached s n) (inv : Inv s)
    (h : (s.ensureUpperDir n.ino).2 = .ok ()) : Ensured s (s.ensureUpperDir n.ino).1 n :=
  att.ensure inv (Nat.le_refl _) h

end OvlSb

end Six.Overlay
