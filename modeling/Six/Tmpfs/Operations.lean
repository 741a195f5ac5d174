import Six.Tmpfs.Inodes

/-! The operations of tmpfs keep the invariant. -/

namespace Six.Tmpfs.TmpfsSb

open Lib Ledger

variable {b : Bool} {s : TmpfsSb} {w w' : Ledger} {x y dir : UInt32} {n dnode : Node} {c : Caller}
  {name : Name} {k : UInt16} {e : Dirent} {init : Node → Node → Node} {mode : UInt16} {t : TmpfsSb}

/-- `x` is not a directory or file that was removed while it is in use. -/
def Live (s : TmpfsSb) (x : UInt32) : Prop := ∀ n, s.findNode x = some n → n.attr.nlink ≠ 0

def Unsaturated (s : TmpfsSb) (x : UInt32) : Prop := ∀ n, s.findNode x = some n →
  n.attr.nlink ≠ 0xffff

theorem toNat_add_one (h : k ≠ 0xffff) : (k + 1).toNat = k.toNat + 1 := by
  have hlt := k.toNat_lt
  have hne : k.toNat ≠ 65535 := fun heq => h (UInt16.toNat_inj.mp heq)
  have hmod : (k + 1).toNat = (k.toNat + 1) % 2 ^ 16 := UInt16.toNat_add _ _
  omega

theorem toNat_dropLink (h : a.toNat < k.toNat) : (dropLink a k).toNat = k.toNat - 1 := by
  have hgt : k > a := UInt16.lt_iff_toNat_lt.mpr h
  have hone : (1 : UInt16) ≤ k := UInt16.le_iff_toNat_le.mpr (by simp; omega)
  rw [dropLink, if_pos hgt, UInt16.toNat_sub_of_le _ _ hone]
  rfl

theorem toNat_dropLink_two (h : 2 < k.toNat) : ((dropLink 2 k).toNat : Int) - k.toNat = -1 := by
  rw [toNat_dropLink (show (2 : UInt16).toNat < _ from h)]
  omega

theorem two_le_dropLink (h : 2 ≤ k.toNat) : 2 ≤ (dropLink 2 k).toNat := by
  by_cases hgt : 2 < k.toNat
  · have := toNat_dropLink_two hgt
    omega
  · have hle : ¬ k > 2 := fun hk => hgt (by simpa using UInt16.lt_iff_toNat_lt.mp hk)
    rw [dropLink, if_neg hle]
    exact h

theorem ne_zero_of_two_le (h : 2 ≤ k.toNat) : k ≠ 0 := by
  rintro rfl
  simp at h

theorem Inv.live_of_entry (h : Inv b s w) (hx : s.findNode x = some n) (he : e ∈ n.entries) :
    n.isDir = true ∧ n.attr.nlink ≠ 0 := by
  cases hd : n.isDir with
  | false =>
    rw [(h.file x n hx hd).1] at he
    cases he
  | true =>
    obtain ⟨-, -, -, hempty⟩ | ⟨htwo, -⟩ := h.dir x n hx hd
    · rw [hempty] at he
      cases he
    · exact ⟨rfl, ne_zero_of_two_le htwo⟩

theorem Inv.live_of_named (h : Inv b s w) (hy : s.findNode y = some dnode) (he : e ∈ dnode.entries)
    (hx : s.findNode e.ino = some n) (howed : w.owed e.ino = 0) :
    n.attr.nlink ≠ 0 ∧ e.ino ≠ tmpfsRootIno := by
  have hpos := links_pos hy he
  constructor
  · intro hz
    have := (h.links_eq_zero hx hz howed).1
    omega
  · intro hroot
    obtain ⟨r, hr, hd⟩ := exists_of_isDirIno h.root
    have hdir := h.dir tmpfsRootIno r hr hd
    rw [← hroot, howed] at hdir
    obtain ⟨-, hne, -⟩ | ⟨-, hcount⟩ := hdir
    · exact hne rfl
    · rw [linksOfDir, if_pos hroot] at hcount
      omega

theorem Inv.put (h : Inv b s (zero.pin x)) : Inv b (s.iput x) .zero :=
  h.iput rfl fun _ => Set.notMem_empty _

theorem Inv.putBoth (h : Inv b s ((zero.pin x).pin y)) : Inv b ((s.iput y).iput x) .zero :=
  (h.iput rfl fun _ => Set.notMem_empty _).put

theorem mem_of_findDirent (h : dnode.findDirent name = some e) : e ∈ dnode.entries :=
  Table.find_mem h

theorem Inv.tmpfsUnlink (h : Inv b s (zero.pin dir)) :
    Inv b (s.tmpfsUnlink c dir name).2 .zero := by
  have hput := h.put
  unfold TmpfsSb.tmpfsUnlink
  cases hdir : s.findNode dir with
  | none => exact hput
  | some dnode =>
    dsimp only
    cases hde : dnode.findDirent name with
    | none => exact hput
    | some de =>
      dsimp only
      cases htarget : s.findNode de.ino with
      | none => exact hput
      | some target =>
        have hino : target.ino = de.ino := ino_of_findNode htarget
        dsimp only
        split_ifs with hkind hsticky
        · exact hput
        · exact hput
        · rw [Bool.not_eq_true] at hkind
          have he := mem_of_findDirent hde
          obtain ⟨hd, hlive⟩ := h.live_of_entry hdir he
          obtain ⟨hlinked, -⟩ := h.live_of_named hdir he htarget rfl
          have hdt : de.ino ≠ dir := by
            intro heq
            rw [heq, hdir] at htarget
            cases htarget
            rw [hd] at hkind
            cases hkind
          -- the entry goes, and then the link that it stood for
          have h1 := (h.removeEntry hdir hd hlive hde).iget (h.used _ _ htarget).1
          have hfind : ((s.removeDirent dir name).iget de.ino).findNode de.ino = some target := by
            rw [findNode_iget, removeDirent, findNode_setEntries htarget, if_neg hdt]
          have hpos : (0 : UInt16).toNat < target.attr.nlink.toNat :=
            Nat.pos_of_ne_zero fun hz => hlinked (UInt16.toNat_inj.mp hz)
          have h2 := h1.relinkFile hfind hkind (dropLink 0) fun _ => referenced_iget_self
          rw [toNat_dropLink hpos] at h2
          have hweight : s.dirWeight de.ino = 0 := by
            rw [dirWeight, isDirIno_eq htarget, hkind]
            rfl
          have h3 := h2.settle ((zero.pin dir).pin de.ino) ?_ rfl rfl ?_ fun _ => rfl
          · rw [hino]
            exact h3.putBoth
          · have hone :
                ((target.attr.nlink.toNat - 1 : Nat) : Int) - target.attr.nlink.toNat = -1 := by
              omega
            funext z
            simp only [pin_owed, owe_owed, overcount_owed, Pi.add_apply, Pi.single_apply, hone]
            grind
          · intro _
            funext z
            simp [hweight]

theorem dirWeight_eq (h : s.findNode x = some n) : s.dirWeight x = if n.isDir then 1 else 0 := by
  rw [dirWeight, isDirIno_eq h]

theorem Inv.two_lt_nlink (h : Inv true s w) (hx : s.findNode x = some n) (he : e ∈ n.entries)
    (hd : s.isDirIno e.ino = true) (hsub : w.subdirs x = 0) : 2 < n.attr.nlink.toNat := by
  obtain ⟨hdir, hlive⟩ := h.live_of_entry hx he
  have hc := h.counts rfl x n hx hdir hlive
  have hle := Table.le_total (g := fun e => if s.isDirIno e.ino then 1 else 0) he
  rw [if_pos hd] at hle
  have hpos : 1 ≤ s.subdirs n := hle
  rw [hsub] at hc
  omega

theorem Inv.tmpfsRmdir (h : Inv b s (zero.pin dir)) :
    Inv b (s.tmpfsRmdir c dir name).2 .zero := by
  have hput := h.put
  unfold TmpfsSb.tmpfsRmdir
  cases hdir : s.findNode dir with
  | none => exact hput
  | some dnode =>
    dsimp only
    cases hde : dnode.findDirent name with
    | none => exact hput
    | some de =>
      dsimp only
      cases htarget : s.findNode de.ino with
      | none => exact hput
      | some target =>
        have hino : target.ino = de.ino := ino_of_findNode htarget
        have hdino : dnode.ino = dir := ino_of_findNode hdir
        dsimp only
        split_ifs with hkind hself hentries hsticky hbusy
        · exact hput
        · exact hput
        · exact hput
        · exact hput
        · rw [hino]
          exact (h.iget (h.used _ _ htarget).1).putBoth
        · rw [Bool.not_eq_true', Bool.not_eq_false] at hkind
          rw [not_not] at hentries
          rw [hino, hdino] at hself
          have he := mem_of_findDirent hde
          obtain ⟨hd, hlive⟩ := h.live_of_entry hdir he
          obtain ⟨hlinked, hroot⟩ := h.live_of_named hdir he htarget rfl
          have htwo : 2 ≤ dnode.attr.nlink.toNat := by
            obtain ⟨hz, -⟩ | ⟨htwo, -⟩ := h.dir dir dnode hdir hd
            · exact absurd hz hlive
            · exact htwo
          have hweight : (s.iget de.ino).dirWeight de.ino = 1 := by
            rw [dirWeight_eq (n := target) (by rw [findNode_iget, htarget]), hkind]
            rfl
          rw [hino]
          -- the entry goes, the directory is marked and its parent counts one less
          have hdir0 : (s.iget de.ino).findNode dir = some dnode := by rw [findNode_iget, hdir]
          have h1 := (h.iget (h.used _ _ htarget).1).removeEntry hdir0 hd hlive hde
          have ht1 : ((s.iget de.ino).removeDirent dir name).findNode de.ino = some target := by
            rw [removeDirent, findNode_setEntries (n := target) (by rw [findNode_iget, htarget]),
              if_neg hself]
          have h2 := h1.zeroDir ht1 hkind hroot hlinked hentries referenced_iget_self
          generalize hs1 : ((s.iget de.ino).removeDirent dir name) = s1 at *
          have hd1 : s1.findNode dir =
              some (dnode.withEntries (Table.erase Dirent.name dnode.entries name)) := by
            rw [← hs1, removeDirent, findNode_setEntries hdir0, if_pos rfl]
          have hd2 : ((s1.setNlink de.ino fun _ => 0).copyNlink de.ino).findNode dir =
              some (dnode.withEntries (Table.erase Dirent.name dnode.entries name)) := by
            rw [findNode_copyNlink, findNode_setNlink_of_ne (Ne.symm hself), hd1]
          have h3 := h2.setDirNlink hd2 hd hlive (dropLink 2) (two_le_dropLink htwo)
          have h4 := h3.copyDirNlink (findNode_setNlink hd2 (dropLink 2)) hd
          have h5 := h4.settle ((zero.pin dir).pin de.ino) ?_ rfl rfl ?_ ?_
          · exact h5.putBoth
          · funext z
            simp only [dropStale_owed, addStale_owed, pin_owed, owe_owed,
              overcount_owed, Pi.add_apply, Pi.single_apply]
            grind
          · intro hb
            subst hb
            have hlt := h.two_lt_nlink hdir he (by rw [isDirIno_eq htarget, hkind]) rfl
            have hdrop := toNat_dropLink_two hlt
            funext z
            simp only [dropStale_subdirs, addStale_subdirs, pin_subdirs,
              owe_subdirs, overcount_subdirs, Pi.add_apply, Pi.single_apply, hweight,
              Node.withEntries, hdrop]
            grind
          · intro _
            ext z
            simp [dropStale, addStale]

theorem addDirent_cases (s : TmpfsSb) (c : Caller) (dir : UInt32) (name : Name) (ino : UInt32) :
    ((s.addDirent c dir name ino).1 ≠ 0 ∧ (s.addDirent c dir name ino).2 = s) ∨
    s.addDirent c dir name ino = (0, s.setEntries dir (⟨name, ino⟩ :: ·)) := by
  have hlong : -Errno.enametoolong ≠ 0 := by decide
  have hmem : -Errno.enomem ≠ 0 := by decide
  unfold addDirent
  split_ifs
  · exact .inl ⟨hlong, rfl⟩
  · exact .inl ⟨hmem, rfl⟩
  · exact .inr rfl

theorem Inv.tmpfsLink (h : Inv b s ((zero.pin old).pin dir))
    (hdir : s.isDirIno dir = true) (href : s.Referenced old) (hlive : s.Live dir)
    (hroom : s.Unsaturated old) : Inv b (s.tmpfsLink c old dir name).2 .zero := by
  obtain ⟨dnode, hdnode, hd⟩ := exists_of_isDirIno hdir
  obtain ⟨i, hi, -⟩ := href
  unfold TmpfsSb.tmpfsLink
  split_ifs with hmode
  · exact h.putBoth
  · rw [hdnode]
    cases hold : s.findNode old with
    | none => exact h.putBoth
    | some onode =>
      dsimp only
      split_ifs with hexists herr
      · exact h.putBoth
      · exact h.putBoth
      · -- the inode has the mode of its node
        have hkind : onode.isDir = false := by
          have hsame := (h.agree old onode i hold hi).same
          rw [hi, Option.any_some, hsame] at hmode
          simpa [Node.isDir] using hmode
        have hne : old ≠ dir := by
          rintro rfl
          obtain rfl := Option.some.inj (hold.symm.trans hdnode)
          rw [hkind] at hd
          cases hd
        obtain ⟨herr', -⟩ | hadd := addDirent_cases s c dir name onode.ino
        · exact absurd herr' herr
        · rw [hadd, ino_of_findNode hold]
          have h1 := h.addEntry hdnode hd (hlive dnode hdnode) name hold
            (fun htrue => absurd (hkind.symm.trans htrue) Bool.false_ne_true)
          have hfind : (s.setEntries dir (⟨name, old⟩ :: ·)).findNode old = some onode := by
            rw [findNode_setEntries hold, if_neg hne]
          have hone := toNat_add_one (hroom onode hold)
          have h2 := h1.relinkFile hfind hkind (· + 1) fun hz => by
            rw [← UInt16.toNat_inj, hone] at hz
            simp at hz
          refine (h2.settle ((zero.pin old).pin dir) ?_ rfl rfl ?_ fun _ => rfl).putBoth
          · funext z
            simp only [pin_owed, owe_owed, overcount_owed, Pi.add_apply, Pi.single_apply, hone]
            grind
          · intro _
            funext z
            simp [dirWeight_eq hold, hkind]

def newNode (s : TmpfsSb) (c : Caller) (mode rdev : UInt16) : Node where
  ino := s.nextIno
  parentIno := tmpfsRootIno
  attr :=
    { mode := mode
      uid := c.fsuid
      gid := c.fsgid
      nlink := if sIsdir mode then 2 else 1
      rdev := rdev
      size := if sIsdir mode then 64 else 0 }

theorem allocNode_cases (s : TmpfsSb) (c : Caller) (mode rdev : UInt16) :
    s.allocNode c mode rdev = none ∨
    s.allocNode c mode rdev = some (s.nextIno, s.addNode (s.newNode c mode rdev)) := by
  unfold allocNode
  by_cases hfull : s.nrInodes ≥ s.maxInodes ∨ !c.nodeMem
  · rw [if_pos hfull]
    exact .inl rfl
  · rw [if_neg hfull]
    exact .inr rfl

structure Initialises (init : Node → Node → Node) : Prop where
  ino : ∀ d m, (init d m).ino = m.ino
  parent : ∀ d m, (init d m).parentIno = d.ino
  entries : ∀ d m, (init d m).entries = m.entries
  nlink : ∀ d m, (init d m).attr.nlink = m.attr.nlink
  isDir : ∀ d m, (init d m).isDir = m.isDir

theorem initialises_initFile : Initialises initFile :=
  ⟨fun _ _ => rfl, fun _ _ => rfl, fun _ _ => rfl, fun _ _ => rfl, fun _ _ => rfl⟩

theorem initialises_initSymlink (symname : List UInt8) : Initialises (initSymlink symname) :=
  ⟨fun _ _ => rfl, fun _ _ => rfl, fun _ _ => rfl, fun _ _ => rfl, fun _ _ => rfl⟩

theorem or_and_distrib (j k m : UInt16) : (j ||| k) &&& m = (j &&& m) ||| (k &&& m) := by
  apply UInt16.toNat_inj.mp
  simp only [UInt16.toNat_and, UInt16.toNat_or, Nat.and_or_distrib_right]

theorem sIsdir_or_sIsgid (mode : UInt16) : sIsdir (mode ||| sIsgid) = sIsdir mode := by
  unfold sIsdir
  rw [or_and_distrib, show sIsgid &&& sIfmt = 0 from rfl, UInt16.or_zero]

theorem sIsdir_and_or (mode kind : UInt16) (hkind : kind &&& sIfmt = kind) :
    sIsdir ((mode &&& 0xfff) ||| kind) = (kind == sIfdir) := by
  unfold sIsdir
  rw [or_and_distrib, UInt16.and_assoc, show (0xfff : UInt16) &&& sIfmt = 0 from rfl,
    UInt16.and_zero, UInt16.zero_or, hkind]

theorem initialises_initDir : Initialises initDir where
  ino d m := by unfold initDir; split_ifs <;> rfl
  parent d m := by unfold initDir; split_ifs <;> rfl
  entries d m := by unfold initDir; split_ifs <;> rfl
  nlink d m := by unfold initDir; split_ifs <;> rfl
  isDir d m := by
    unfold initDir
    split_ifs
    · exact sIsdir_or_sIsgid _
    · rfl

theorem addNode_modifyNode (s : TmpfsSb) (n : Node) (f : Node → Node) :
    (s.addNode n).modifyNode n.ino f = s.addNode (f n) := by
  simp [addNode, modifyNode, Table.update]

theorem addNode_destroyNode (s : TmpfsSb) (n : Node) :
    ∃ k, (s.addNode n).destroyNode n.ino = { s with nextIno := s.nextIno + 1, nrInodes := k } := by
  have hsome : ((s.addNode n).findNode n.ino).isSome := by
    rw [findNode_addNode, if_pos rfl]
    rfl
  unfold destroyNode
  rw [if_pos hsome]
  simp [addNode, Table.erase]

section

variable (h : Inv b s (Ledger.zero.pin dir))
include h

/-- `makeNode` fails and keeps the invariant, or it succeeds with one more node in `dir`, whose
subdirectories may have become more than it counts. -/
theorem Inv.makeNode (hdir : s.findNode dir = some dnode)
    (hd : dnode.isDir = true) (hlive : dnode.attr.nlink ≠ 0) (hnext : s.nextIno ≠ 0) (c : Caller)
    (name : Name) (mode rdev : UInt16) (hinit : Initialises init) :
    ((s.makeNode c dir name mode rdev init).err ≠ 0 ∧
      (s.makeNode c dir name mode rdev init).ino = none ∧
      Inv b (s.makeNode c dir name mode rdev init).state (zero.pin dir)) ∨
    ((s.makeNode c dir name mode rdev init).err = 0 ∧
      (s.makeNode c dir name mode rdev init).ino = some s.nextIno ∧
      Inv b (s.makeNode c dir name mode rdev init).state
        ((zero.pin dir).overcount dir (if sIsdir mode then -1 else 0)) ∧
      (∃ es, (s.makeNode c dir name mode rdev init).state.findNode dir =
        some (dnode.withEntries es)) ∧
      (s.makeNode c dir name mode rdev init).state.Used s.nextIno) := by
  have hfail : ∀ t k, Inv b t (zero.pin dir) → k ≠ 0 → (⟨k, none, t⟩ : Result).err ≠ 0 ∧
      (⟨k, none, t⟩ : Result).ino = none ∧
      Inv b (⟨k, none, t⟩ : Result).state (zero.pin dir) := fun t k ht hk => ⟨hk, rfl, ht⟩
  unfold TmpfsSb.makeNode
  rw [hdir]
  dsimp only
  by_cases hexists : (dnode.findDirent name).isSome
  · rw [if_pos hexists]
    exact .inl (hfail s _ h (by decide))
  rw [if_neg hexists]
  obtain halloc | halloc := allocNode_cases s c mode rdev
  · rw [halloc]
    exact .inl (hfail s _ h (by decide))
  rw [halloc]
  dsimp only
  -- the new node, initialised
  obtain ⟨n, hn⟩ : ∃ n, n = init dnode (s.newNode c mode rdev) := ⟨_, rfl⟩
  have hino : n.ino = s.nextIno := by rw [hn, hinit.ino]; rfl
  have hstate : (s.addNode (s.newNode c mode rdev)).modifyNode s.nextIno (init dnode) =
      s.addNode n := by
    rw [hn]
    exact addNode_modifyNode s (s.newNode c mode rdev) (init dnode)
  have hisDir : n.isDir = sIsdir mode := by rw [hn, hinit.isDir]; rfl
  have hnlink : n.attr.nlink = if n.isDir then 2 else 1 := by
    rw [hisDir, hn, hinit.nlink]
    rfl
  have hpar : n.parentIno = dir := by
    rw [hn, hinit.parent]
    exact ino_of_findNode hdir
  have hempty : n.entries = [] := by rw [hn, hinit.entries]; rfl
  have hnew := h.addNode hnext hino hempty (hpar ▸ (h.used dir dnode hdir).1) hnlink rfl rfl
  rw [hstate, ← hino]
  obtain ⟨herr, hsame⟩ | hadd := addDirent_cases (s.addNode n) c dir name n.ino
  · rw [if_pos herr, hsame]
    obtain ⟨k, hk⟩ := addNode_destroyNode s n
    rw [hk]
    exact .inl (hfail _ _ (h.skipIno hnext k) herr)
  · rw [hadd, if_neg (not_not.mpr rfl)]
    have hne : n.ino ≠ dir := by
      intro heq
      exact not_used_nextIno hnext (hino ▸ heq ▸ (h.used dir dnode hdir).1)
    have hdir1 : (s.addNode n).findNode dir = some dnode := by
      rw [findNode_addNode, if_neg hne, hdir]
    have hn1 : (s.addNode n).findNode n.ino = some n := by rw [findNode_addNode, if_pos rfl]
    have h2 := hnew.addEntry hdir1 hd hlive name hn1 fun _ _ => hpar
    refine .inr
      ⟨rfl, rfl, ?_, ⟨⟨name, n.ino⟩ :: dnode.entries, ?_⟩, hino ▸ used_of_le_nextIno le_rfl rfl⟩
    · refine h2.settle _ ?_ rfl rfl ?_ fun _ => rfl
      · funext z
        simp only [overcount_owed, owe_owed, Pi.add_apply, Pi.single_apply]
        grind
      · intro _
        rw [dirWeight_eq hn1, hisDir]
        funext z
        simp only [overcount_subdirs]
        split_ifs <;> rfl
    · rw [findNode_setEntries hdir1, if_pos rfl]

section

variable (hdir : s.isDirIno dir = true) (hlive : s.Live dir) (hnext : s.nextIno ≠ 0)
include hdir hlive hnext

theorem Inv.tmpfsCreate (mode : UInt16) : Inv b (s.tmpfsCreate c dir name mode).state .zero := by
  obtain ⟨dnode, hdnode, hd⟩ := exists_of_isDirIno hdir
  have hfile : sIsdir ((mode &&& 0xfff) ||| sIfreg) = false := sIsdir_and_or _ _ rfl
  have hmake := h.makeNode hdnode hd (hlive dnode hdnode) hnext c name
    ((mode &&& 0xfff) ||| sIfreg) 0 initialises_initFile
  unfold TmpfsSb.tmpfsCreate
  rw [hfile] at hmake
  generalize s.makeNode c dir name ((mode &&& 0xfff) ||| sIfreg) 0 initFile = r at hmake ⊢
  obtain ⟨err, ino, t⟩ := r
  obtain ⟨-, rfl, hmade⟩ | ⟨-, rfl, hmade, -, hused⟩ := hmake
  · exact hmade.put
  · have h1 := hmade.settle (zero.pin dir) rfl rfl rfl (fun _ => by funext z; simp) fun _ => rfl
    have h2 := h1.put
    exact (h2.iget (used_iput.mpr hused)).unpin

theorem Inv.makeFile (rdev : UInt16) (hfile : sIsdir mode = false)
    (hinit : Initialises init) :
    Inv b ((s.makeNode c dir name mode rdev init).state.iput dir) .zero := by
  obtain ⟨dnode, hdnode, hd⟩ := exists_of_isDirIno hdir
  have hmake := h.makeNode hdnode hd (hlive dnode hdnode) hnext c name mode rdev hinit
  rw [hfile] at hmake
  generalize s.makeNode c dir name mode rdev init = r at hmake ⊢
  obtain ⟨-, -, hmade⟩ | ⟨-, -, hmade, -⟩ := hmake
  · exact hmade.put
  · have h1 := hmade.settle (zero.pin dir) rfl rfl rfl (fun _ => by funext z; simp) fun _ => rfl
    exact h1.put

theorem Inv.tmpfsMknod (hfile : sIsdir mode = false) (rdev : UInt16) :
    Inv b (s.tmpfsMknod c dir name mode rdev).2 .zero :=
  h.makeFile hdir hlive hnext rdev hfile initialises_initFile

theorem Inv.tmpfsSymlink (symname : List UInt8) :
    Inv b (s.tmpfsSymlink c dir name symname).2 .zero := by
  unfold TmpfsSb.tmpfsSymlink
  split_ifs
  · exact h.put
  · exact h.makeFile hdir hlive hnext 0 (by decide) (initialises_initSymlink symname)

theorem Inv.tmpfsMkdir (hroom : s.Unsaturated dir) (mode : UInt16) :
    Inv b (s.tmpfsMkdir c dir name mode).2 .zero := by
  obtain ⟨dnode, hdnode, hd⟩ := exists_of_isDirIno hdir
  have hisDir : sIsdir ((mode &&& 0xfff) ||| sIfdir) = true := sIsdir_and_or _ _ rfl
  have hmake := h.makeNode hdnode hd (hlive dnode hdnode) hnext c name
    ((mode &&& 0xfff) ||| sIfdir) 0 initialises_initDir
  unfold TmpfsSb.tmpfsMkdir
  rw [hisDir] at hmake
  generalize s.makeNode c dir name ((mode &&& 0xfff) ||| sIfdir) 0 initDir = r at hmake ⊢
  obtain ⟨herr, -, hmade⟩ | ⟨herr, -, hmade, ⟨es, hfind⟩, -⟩ := hmake
  · simp only [if_pos herr]
    exact hmade.put
  · simp only [if_neg (not_not.mpr herr)]
    -- the parent counts its new subdirectory
    have hone := toNat_add_one (hroom dnode hdnode)
    have htwo : 2 ≤ (dnode.attr.nlink + 1).toNat := by
      obtain ⟨hz, -⟩ | ⟨htwo, -⟩ := h.dir dir dnode hdnode hd
      · exact absurd hz (hlive dnode hdnode)
      · omega
    have h1 := hmade.setDirNlink hfind hd (hlive dnode hdnode) (· + 1) htwo
    have h2 := h1.copyDirNlink (findNode_setNlink hfind _) hd
    have h3 := h2.settle (zero.pin dir) rfl rfl rfl ?_ ?_
    · exact h3.put
    · intro _
      funext z
      simp only [dropStale_subdirs, addStale_subdirs, overcount_subdirs,
        Pi.add_apply, Pi.single_apply, Node.withEntries, hone]
      grind
    · intro _
      ext z
      simp [dropStale, addStale]

end

theorem Inv.tmpfsLookup : Inv b (s.tmpfsLookup dir name).state .zero := by
  have hput := h.put
  unfold TmpfsSb.tmpfsLookup
  cases hdir : s.findNode dir with
  | none => exact hput
  | some dnode =>
    dsimp only
    -- every number that a lookup can find was handed out
    have hused : ∀ ino, ino = (if name = [0x2e, 0x2e] then dnode.parentIno
        else ((dnode.findDirent name).map Dirent.ino).getD 0) → ino ≠ 0 → s.Used ino := by
      rintro ino rfl hne
      split_ifs at hne ⊢
      · exact (h.used dir dnode hdir).2
      · cases hde : dnode.findDirent name with
        | none => simp [hde] at hne
        | some de =>
          obtain ⟨m, hm, -⟩ := h.entry dir dnode hdir de (mem_of_findDirent hde)
          exact (h.used de.ino m hm).1
    generalize (if name = [0x2e, 0x2e] then dnode.parentIno
        else ((dnode.findDirent name).map Dirent.ino).getD 0) = ino at hused ⊢
    split_ifs with hdot hzero
    · have h1 := h.iget (h.used dir dnode hdir).1
      exact (h1.iput rfl fun _ => Set.notMem_empty _).unpin
    · exact hput
    · exact (hput.iget (used_iput.mpr (hused ino rfl hzero))).unpin

end

theorem Inv.release (h : Inv b s .zero) (hheld : s.held x > 0) : Inv b (s.iput x) .zero := by
  have hpin : Inv b s (zero.pin x) :=
    { h with
      rootPinned := by
        obtain ⟨i, hi, hpos⟩ := h.rootPinned
        refine ⟨i, hi, ?_⟩
        by_cases hx : x = tmpfsRootIno
        · rw [held, hx, hi] at hheld
          simp [pin, hx] at hheld ⊢
          omega
        · simpa [pin, hx] using hpos }
  exact hpin.put

theorem Inv.writeInode (h : Inv b s .zero) (ht : s.writeInode x = some t) : Inv b t .zero := by
  obtain ⟨i, hi, rfl⟩ := Option.map_eq_some_iff.mp ht
  exact h.syncNode hi fun _ => Set.notMem_empty _

theorem Inv.evict (h : Inv b s .zero) (ht : s.evict x = some t) : Inv b t .zero := by
  unfold TmpfsSb.evict at ht
  cases hi : s.icache x with
  | none =>
    rw [hi] at ht
    cases ht
  | some i =>
    rw [hi] at ht
    dsimp only at ht
    split_ifs at ht with hcount
    obtain rfl := Option.some.inj ht
    -- the root and removed nodes have a reference
    apply h.clearInode
    · rintro rfl
      obtain ⟨j, hj, hpos⟩ := h.rootPinned
      obtain rfl := Option.some.inj (hi.symm.trans hj)
      omega
    · intro m hm hz
      obtain ⟨j, hj, hpos⟩ := h.gone x m hm hz
      obtain rfl := Option.some.inj (hi.symm.trans hj)
      omega

end Six.Tmpfs.TmpfsSb
