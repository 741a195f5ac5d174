import Six.Tmpfs.Runs

/-! The counts of links of a tmpfs mount over whole runs, in which no directory is renamed over
another one of the same directory. -/

namespace Six.Tmpfs.TmpfsSb

open Lib

variable {s t : TmpfsSb}

/-- Every count of links is right.  A directory that no entry names any more is in use only, and
counts none. -/
structure LinkCounts (s : TmpfsSb) : Prop where
  file : ∀ x n, s.findNode x = some n → n.isDir = false → n.attr.nlink.toNat = s.links x
  dir : ∀ x n, s.findNode x = some n → n.isDir = true → x = tmpfsRootIno ∨ 0 < s.links x →
    n.attr.nlink.toNat = 2 + s.subdirs n
  removed : ∀ x n, s.findNode x = some n → n.isDir = true → x ≠ tmpfsRootIno → s.links x = 0 →
    n.attr.nlink = 0 ∧ n.entries = [] ∧ s.Referenced x
  cached : ∀ x n i, s.findNode x = some n → s.icache x = some i → i.attr.nlink = n.attr.nlink

theorem Inv.linkCounts (h : Inv true s .zero) : s.LinkCounts where
  file := by
    intro x n hx hfile
    have hcount := (h.file x n hx hfile).2
    simp only [Ledger.zero_owed, Pi.zero_apply] at hcount
    omega
  dir := by
    intro x n hx hdir hnamed
    have hlive : n.attr.nlink ≠ 0 := by
      intro hz
      obtain ⟨-, hroot, hlinks, -⟩ | ⟨htwo, -⟩ := h.dir x n hx hdir
      · simp only [Ledger.zero_owed, Pi.zero_apply] at hlinks
        rcases hnamed with hr | hpos
        · exact hroot hr
        · omega
      · exact ne_zero_of_two_le htwo hz
    have hcount := h.counts rfl x n hx hdir hlive
    simp only [Ledger.zero_subdirs, Pi.zero_apply] at hcount
    omega
  removed := by
    intro x n hx hdir hroot hlinks
    obtain ⟨hz, -, -, hempty⟩ | ⟨-, hcount⟩ := h.dir x n hx hdir
    · exact ⟨hz, hempty, h.gone x n hx hz⟩
    · rw [linksOfDir, if_neg hroot, hlinks] at hcount
      cases hcount
  cached := fun x n i hx hi => h.fresh rfl x n i hx hi (Set.notMem_empty _)

/-- The counts are right in every state of a run of safe steps. -/
theorem linkCounts_of_reaches {maxInodes : UInt32} {rootMode : UInt16}
    (h : Reaches step (Safe true) (mount maxInodes rootMode) t) : t.LinkCounts := by
  have hinv : Inv true t .zero := by
    apply h.invariant (P := fun s => Inv true s .zero)
    · exact inv_mount maxInodes rootMode
    · exact fun s l t hs hsafe hstep => hs.step hsafe hstep
  exact hinv.linkCounts

def aCaller : Caller := {}

def nameA : Name := [0x61]
def nameB : Name := [0x62]

/-- Two directories are made, and one of them is moved into the other. -/
theorem linkCounts_after_move :
    ∃ t, run step (mount 100 0x1ed)
        [(aCaller, .mkdir tmpfsRootIno nameA 0x1ed), (aCaller, .mkdir tmpfsRootIno nameB 0x1ed),
          (aCaller, .rename tmpfsRootIno nameA 3 nameA false)] = some t ∧ t.LinkCounts := by
  have h1 : Reaches step (Safe true) (mount 100 0x1ed) (mount 100 0x1ed) := .refl
  have h2 := h1.tail (i := (aCaller, Op.mkdir tmpfsRootIno nameA 0x1ed))
    ⟨by rintro n ⟨⟩; decide, by decide, by rintro n ⟨⟩; decide⟩ rfl
  have h3 := h2.tail (i := (aCaller, Op.mkdir tmpfsRootIno nameB 0x1ed))
    ⟨by rintro n ⟨⟩; decide, by decide, by rintro n ⟨⟩; decide⟩ rfl
  have h4 := h3.tail (i := (aCaller, Op.rename tmpfsRootIno nameA 3 nameA false))
    ⟨by rintro n ⟨⟩; decide, by rintro n ⟨⟩; decide, by rintro _ ⟨⟩⟩ rfl
  exact ⟨_, rfl, linkCounts_of_reaches h4⟩

/-- A directory that is renamed over another one in the root leaves the count of the inode of the
root as it was, and the write-back of the inode makes the node count a directory that is gone. -/
theorem rename_dir_over_dir_miscounts :
    ∃ t u, run step (mount 100 0x1ed)
        [(aCaller, .mkdir tmpfsRootIno nameA 0x1ed), (aCaller, .mkdir tmpfsRootIno nameB 0x1ed),
          (aCaller, .rename tmpfsRootIno nameA tmpfsRootIno nameB false)] = some t ∧
      (t.icache tmpfsRootIno).map (·.attr.nlink) = some 4 ∧
      (t.findNode tmpfsRootIno).map (·.attr.nlink) = some 3 ∧
      step t (aCaller, .writeInode tmpfsRootIno) = some u ∧
      (u.findNode tmpfsRootIno).map (fun n => (n.attr.nlink, u.subdirs n)) = some (4, 1) ∧
      ¬ t.LinkCounts ∧ ¬ u.LinkCounts := by
  refine ⟨_, _, rfl, by decide, by decide, rfl, by decide, ?_, ?_⟩
  · intro h
    have := h.cached tmpfsRootIno _ _ rfl rfl
    revert this
    decide
  · intro h
    have := h.dir tmpfsRootIno _ rfl (by decide) (.inl rfl)
    revert this
    decide

end Six.Tmpfs.TmpfsSb
