import Six.Tmpfs.Rename

/-! Every step of a tmpfs mount keeps the invariant, when the step is one that the counts of the
mount can bear. -/

namespace Six.Tmpfs.TmpfsSb

open Lib Option

variable {b : Bool} {s t : TmpfsSb} {x dir : UInt32} {l : Caller × Op}

/-- What a step needs of the mount.  A directory that gets an entry is not removed, a new node gets
a number that is not in use, and a count of links that grows has room.  For `exact` counts, a
directory is not renamed over another one in the directory that it is in. -/
def Safe (exact : Bool) (s : TmpfsSb) (l : Caller × Op) : Prop :=
  match l.2 with
  | .create dir _ _ | .symlink dir _ _ | .mknod dir _ _ _ => s.Live dir ∧ s.nextIno ≠ 0
  | .mkdir dir _ _ => s.Live dir ∧ s.nextIno ≠ 0 ∧ s.Unsaturated dir
  | .link old dir _ => s.Live dir ∧ s.Unsaturated old
  | .rename oldDir oldName newDir newName _ => RenameGuard exact s oldDir oldName newDir newName
  | .lookup .. | .unlink .. | .rmdir .. | .release _ | .writeInode _ | .evict _ => True

theorem Live.iget (h : s.Live dir) : (s.iget x).Live dir := by
  intro n hn
  rw [findNode_iget] at hn
  exact h n hn

theorem Unsaturated.iget (h : s.Unsaturated dir) : (s.iget x).Unsaturated dir := by
  intro n hn
  rw [findNode_iget] at hn
  exact h n hn

theorem nextIno_iget_ne (h : s.nextIno ≠ 0) : (s.iget x).nextIno ≠ 0 := by
  rw [iget_eq]
  exact h

theorem RenameGuard.iget (h : RenameGuard b s oldDir oldName newDir newName) :
    RenameGuard b (s.iget x) oldDir oldName newDir newName where
  live := h.live.iget
  room := h.room.iget
  apart := by
    intro hb heq hname n oldDe newDe hn hold hnew hdir
    rw [findNode_iget] at hn
    rw [isDirIno_iget] at hdir ⊢
    exact h.apart hb heq hname n oldDe newDe hn hold hnew hdir

theorem Inv.igetDir (h : Inv b s .zero) (hdir : s.isDirIno dir = true) :
    Inv b (s.iget dir) (Ledger.zero.pin dir) := by
  obtain ⟨n, hn, -⟩ := exists_of_isDirIno hdir
  exact h.iget (h.used dir n hn).1

theorem Inv.step (h : Inv b s .zero) (hsafe : Safe b s l) (hstep : s.step l = some t) :
    Inv b t .zero := by
  obtain ⟨c, op⟩ := l
  cases op with
  | lookup dir name =>
    obtain ⟨hdir, ⟨⟩⟩ := ite_none_right_eq_some.mp hstep
    exact (h.igetDir hdir).tmpfsLookup
  | create dir name mode =>
    obtain ⟨hdir, ⟨⟩⟩ := ite_none_right_eq_some.mp hstep
    exact (h.igetDir hdir).tmpfsCreate (isDirIno_iget.trans hdir) hsafe.1.iget
      (nextIno_iget_ne hsafe.2) mode
  | mkdir dir name mode =>
    obtain ⟨hdir, ⟨⟩⟩ := ite_none_right_eq_some.mp hstep
    exact (h.igetDir hdir).tmpfsMkdir (isDirIno_iget.trans hdir) hsafe.1.iget
      (nextIno_iget_ne hsafe.2.1) hsafe.2.2.iget mode
  | symlink dir name symname =>
    obtain ⟨hdir, ⟨⟩⟩ := ite_none_right_eq_some.mp hstep
    exact (h.igetDir hdir).tmpfsSymlink (isDirIno_iget.trans hdir) hsafe.1.iget
      (nextIno_iget_ne hsafe.2) symname
  | mknod dir name mode rdev =>
    obtain ⟨⟨hdir, hmode⟩, ⟨⟩⟩ := ite_none_right_eq_some.mp hstep
    exact (h.igetDir hdir).tmpfsMknod (isDirIno_iget.trans hdir) hsafe.1.iget
      (nextIno_iget_ne hsafe.2) (by simpa using hmode) rdev
  | link old dir name =>
    obtain ⟨⟨hdir, hold⟩, ⟨⟩⟩ := ite_none_right_eq_some.mp hstep
    obtain ⟨o, ho⟩ := isSome_iff_exists.mp hold
    obtain ⟨n, hn, -⟩ := exists_of_isDirIno hdir
    have h1 := (h.iget (h.used old o ho).1).iget (used_iget.mpr (h.used dir n hn).1)
    exact h1.tmpfsLink (isDirIno_iget.trans (isDirIno_iget.trans hdir)) referenced_iget_self.iget
      hsafe.1.iget.iget hsafe.2.iget.iget
  | unlink dir name =>
    obtain ⟨hdir, ⟨⟩⟩ := ite_none_right_eq_some.mp hstep
    exact (h.igetDir hdir).tmpfsUnlink
  | rmdir dir name =>
    obtain ⟨hdir, ⟨⟩⟩ := ite_none_right_eq_some.mp hstep
    exact (h.igetDir hdir).tmpfsRmdir
  | rename oldDir oldName newDir newName mustBeDir =>
    obtain ⟨⟨hold, hnew⟩, ⟨⟩⟩ := ite_none_right_eq_some.mp hstep
    obtain ⟨n, hn, -⟩ := exists_of_isDirIno hnew
    have h1 := (h.igetDir hold).iget (used_iget.mpr (h.used newDir n hn).1)
    have hguard : RenameGuard b s oldDir oldName newDir newName := hsafe
    exact h1.tmpfsRename (isDirIno_iget.trans (isDirIno_iget.trans hnew)) hguard.iget.iget mustBeDir
  | release ino =>
    obtain ⟨hheld, ⟨⟩⟩ := ite_none_right_eq_some.mp hstep
    exact h.release hheld
  | writeInode ino => exact h.writeInode hstep
  | evict ino => exact h.evict hstep

theorem findNode_mount {maxInodes : UInt32} (h : (mount maxInodes rootMode).findNode x = some n) :
    x = tmpfsRootIno ∧ n.isDir = true ∧ n.parentIno = tmpfsRootIno ∧ n.attr.nlink = 2 ∧
      n.entries = [] ∧ n.ino = tmpfsRootIno := by
  have hx : n.ino = x := ino_of_findNode h
  obtain rfl : n = _ := List.mem_singleton.mp (mem_of_findNode h)
  refine ⟨hx.symm, ?_, rfl, rfl, rfl, rfl⟩
  rw [UInt16.or_comm]
  exact sIsdir_and_or _ _ rfl

theorem inv_mount (maxInodes : UInt32) (rootMode : UInt16) :
    Inv b (mount maxInodes rootMode) .zero := by
  have hroot : (mount maxInodes rootMode).isDirIno tmpfsRootIno = true := by
    obtain ⟨n, hn⟩ : ∃ n, (mount maxInodes rootMode).findNode tmpfsRootIno = some n := ⟨_, rfl⟩
    rw [isDirIno_eq hn]
    exact (findNode_mount hn).2.1
  have hused : (mount maxInodes rootMode).Used tmpfsRootIno :=
    .inr (show (1 : UInt32) < 1 + 1 by decide)
  have hlinks : ∀ y, (mount maxInodes rootMode).links y = 0 := fun _ => rfl
  have hcache : ∀ y i, (mount maxInodes rootMode).icache y = some i → y = tmpfsRootIno := by
    intro y i hi
    by_contra hy
    unfold mount at hi
    simp [Function.update_of_ne hy] at hi
  have hattr : ∀ n i, (mount maxInodes rootMode).findNode tmpfsRootIno = some n →
      (mount maxInodes rootMode).icache tmpfsRootIno = some i → i.attr = n.attr := by
    rintro n i ⟨⟩ ⟨⟩
    rfl
  constructor
  case keys => exact List.nodup_singleton _
  case used =>
    intro y n hn
    obtain ⟨rfl, -, hp, -⟩ := findNode_mount hn
    exact ⟨hused, hp ▸ hused⟩
  case usedCache =>
    intro y i hi
    rw [hcache y i hi]
    exact hused
  case root => exact hroot
  case rootPinned => exact ⟨_, rfl, Nat.one_pos⟩
  case file =>
    intro y n hn hfile
    rw [(findNode_mount hn).2.1] at hfile
    cases hfile
  case dir =>
    intro y n hn _
    obtain ⟨rfl, -, -, htwo, -⟩ := findNode_mount hn
    refine .inr ⟨by rw [htwo]; decide, ?_⟩
    rw [hlinks]
    rfl
  case gone =>
    intro y n hn hz
    rw [(findNode_mount hn).2.2.2.1] at hz
    cases hz
  case entry =>
    intro y d hd e he
    rw [(findNode_mount hd).2.2.2.2.1] at he
    cases he
  case agree =>
    intro y n i hn hi
    obtain ⟨rfl, hd, -, htwo, -⟩ := findNode_mount hn
    have hsame := hattr n i hn hi
    exact
      { same := by rw [hsame]
        file := fun _ => by rw [hsame]
        zero := fun _ => by rw [hsame]
        two := fun _ _ => by rw [hsame, htwo]; decide }
  case counts =>
    intro _ y n hn _ _
    obtain ⟨rfl, -, -, htwo, hempty, -⟩ := findNode_mount hn
    rw [htwo, subdirs, hempty]
    rfl
  case fresh =>
    intro _ y n i hn hi _
    obtain ⟨rfl, -⟩ := findNode_mount hn
    rw [hattr n i hn hi]

end Six.Tmpfs.TmpfsSb
