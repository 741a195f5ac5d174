import Six.Lib.Forest
import Six.Tmpfs.LinkCount
import Six.Tmpfs.Parents

/-! The directories of a tmpfs mount form a tree over whole runs in which no directory is moved
below itself. -/

namespace Six.Tmpfs.TmpfsSb

open Lib Relation Option

variable {s t : TmpfsSb} {x p a b : UInt32} {n : Node} {l : Caller × Op} {e : Bool}

/-- No entry names `x` any more, and it is only kept because somebody refers to it. -/
def Removed (s : TmpfsSb) (x : UInt32) : Prop :=
  x ≠ tmpfsRootIno ∧ s.links x = 0 ∧ s.Referenced x

structure IsTree (s : TmpfsSb) : Prop where
  parent : ∀ x n, s.findNode x = some n → n.isDir = true → x ≠ tmpfsRootIno → ¬ s.Removed x →
    s.links x = 1 ∧ ∀ d, s.Edge d x ↔ d = n.parentIno
  reachable : ∀ x n, s.findNode x = some n → ¬ s.Removed x → ReflTransGen s.Edge tmpfsRootIno x
  acyclic : ∀ x, ¬ TransGen s.Edge x x

def LiveDir (s : TmpfsSb) (a : UInt32) : Prop :=
  ∃ n, s.findNode a = some n ∧ n.isDir = true ∧ n.attr.nlink ≠ 0

def Up (s : TmpfsSb) (a b : UInt32) : Prop :=
  a ≠ tmpfsRootIno ∧ ∃ n, s.findNode a = some n ∧ n.isDir = true ∧ n.parentIno = b

theorem up_functional (s : TmpfsSb) (a b c : UInt32) (h1 : s.Up a b) (h2 : s.Up a c) : b = c := by
  obtain ⟨-, n, hn, -, rfl⟩ := h1
  obtain ⟨-, m, hm, -, rfl⟩ := h2
  obtain rfl := some.inj (hn.symm.trans hm)
  rfl

theorem not_up_root (b : UInt32) : ¬ s.Up tmpfsRootIno b := fun h => h.1 rfl

section

variable (h : Inv e s .zero)
include h

theorem Inv.liveDir_root : s.LiveDir tmpfsRootIno := by
  obtain ⟨r, hr, hd⟩ := exists_of_isDirIno h.root
  obtain ⟨-, hne, -⟩ | ⟨htwo, -⟩ := h.dir _ r hr hd
  · exact absurd rfl hne
  · exact ⟨r, hr, hd, ne_zero_of_two_le htwo⟩

theorem Inv.up_of_edge (hedge : s.Edge b a) (ha : s.findNode a = some n)
    (hd : n.isDir = true) : s.Up a b ∧ s.LiveDir b ∧ s.LiveDir a := by
  obtain ⟨d, hb, e, he, rfl⟩ := hedge
  obtain ⟨m, hm, hpar⟩ := h.entry b d hb e he
  obtain rfl := some.inj (hm.symm.trans ha)
  obtain ⟨hlinked, hroot⟩ := h.live_of_named hb he ha rfl
  obtain ⟨hbdir, hblive⟩ := h.live_of_entry hb he
  exact ⟨⟨hroot, m, ha, hd, hpar hd (Set.notMem_empty _)⟩, ⟨d, hb, hbdir, hblive⟩,
    ⟨m, ha, hd, hlinked⟩⟩

theorem Inv.exists_edge (ha : s.LiveDir a) (hroot : a ≠ tmpfsRootIno) :
    ∃ b, s.LiveDir b ∧ s.Up a b ∧ s.Edge b a := by
  obtain ⟨n, hn, hd, hlive⟩ := ha
  obtain ⟨hz, -⟩ | ⟨-, hcount⟩ := h.dir a n hn hd
  · exact absurd hz hlive
  · rw [linksOfDir, if_neg hroot] at hcount
    simp only [Ledger.zero_owed, Pi.zero_apply] at hcount
    obtain ⟨b, d, e, hb, he, rfl⟩ := exists_entry_of_links_pos h.keys (x := a) (by omega)
    have hedge : s.Edge b e.ino := ⟨d, hb, e, he, rfl⟩
    obtain ⟨hup, hlb, -⟩ := h.up_of_edge hedge hn hd
    exact ⟨b, hlb, hup, hedge⟩

theorem Inv.edges_of_ups (ha : s.LiveDir a) (hup : ReflTransGen s.Up a b) :
    ReflTransGen s.Edge b a := by
  induction hup using ReflTransGen.head_induction_on with
  | refl => exact .refl
  | @head a c hac _ ih =>
    obtain ⟨c', hlc, hac', hedge⟩ := h.exists_edge ha hac.1
    obtain rfl := up_functional s a c c' hac hac'
    exact (ih hlc).tail hedge

theorem Inv.nlink_ne_zero (hx : s.findNode x = some n) (hnot : ¬ s.Removed x) :
    n.attr.nlink ≠ 0 := by
  intro hz
  obtain ⟨hlinks, -, hroot⟩ := h.links_eq_zero hx hz rfl
  exact hnot ⟨hroot, hlinks, h.gone x n hx hz⟩

end

def AllRooted (s : TmpfsSb) : Prop := ∀ a, s.LiveDir a → Rooted s.Up tmpfsRootIno a

theorem Inv.isTree (h : Inv e s .zero) (hr : s.AllRooted) : s.IsTree where
  parent := by
    intro x n hx hd hroot hnot
    have hlive : s.LiveDir x := ⟨n, hx, hd, h.nlink_ne_zero hx hnot⟩
    obtain ⟨b, -, hup, hedge⟩ := h.exists_edge hlive hroot
    have hle := h.links_le_one hx hd rfl
    have hpar : ∀ d, s.Edge d x → d = n.parentIno := by
      intro d hdx
      obtain ⟨-, m, hm, -, rfl⟩ := (h.up_of_edge hdx hx hd).1
      obtain rfl := some.inj (hm.symm.trans hx)
      rfl
    constructor
    · obtain ⟨d, hb, e, he, rfl⟩ := hedge
      have := links_pos hb he
      omega
    · intro d
      refine ⟨hpar d, ?_⟩
      rintro rfl
      exact hpar b hedge ▸ hedge
  reachable := by
    intro x n hx hnot
    cases hd : n.isDir with
    | true =>
      have hlive : s.LiveDir x := ⟨n, hx, hd, h.nlink_ne_zero hx hnot⟩
      exact h.edges_of_ups hlive (hr x hlive)
    | false =>
      have hne := h.nlink_ne_zero hx hnot
      have hcount := (h.file x n hx hd).2
      simp only [Ledger.zero_owed, Pi.zero_apply] at hcount
      have hpos : 0 < n.attr.nlink.toNat :=
        Nat.pos_of_ne_zero fun hz => hne (UInt16.toNat_inj.mp hz)
      obtain ⟨b, d, e, hb, he, rfl⟩ := exists_entry_of_links_pos h.keys (x := x) (by omega)
      obtain ⟨hbdir, hblive⟩ := h.live_of_entry hb he
      have hlive : s.LiveDir b := ⟨d, hb, hbdir, hblive⟩
      exact (h.edges_of_ups hlive (hr b hlive)).tail ⟨d, hb, e, he, rfl⟩
  acyclic := by
    intro x hcycle
    -- every node of a cycle has an entry, and is a directory
    have hups : ∀ c, TransGen s.Edge x c → (∃ z, s.Edge c z) → TransGen s.Up c x := by
      intro c hxc
      induction hxc with
      | single hedge =>
        rintro ⟨z, m, hm, e, he, -⟩
        exact .single (h.up_of_edge hedge hm (h.live_of_entry hm he).1).1
      | tail _ hedge ih =>
        rintro ⟨z, m, hm, e, he, -⟩
        exact .head (h.up_of_edge hedge hm (h.live_of_entry hm he).1).1 (ih ⟨_, hedge⟩)
    obtain ⟨z, hz, -⟩ := TransGen.head'_iff.mp hcycle
    obtain ⟨m, hm, e, he, -⟩ := hz
    obtain ⟨hd, hlive⟩ := h.live_of_entry hm he
    have hrooted := hr x ⟨m, hm, hd, hlive⟩
    exact hrooted.not_cyclic (up_functional s) not_up_root
      (hups x hcycle ⟨e.ino, m, hm, e, he, rfl⟩)

theorem Inv.liveDir_iff (h : Inv e s .zero) (ha : s.findNode a = some n) (hd : n.isDir = true) :
    s.LiveDir a ↔ a = tmpfsRootIno ∨ s.Named a := by
  constructor
  · intro hlive
    by_cases hroot : a = tmpfsRootIno
    · exact .inl hroot
    · obtain ⟨b, -, -, hedge⟩ := h.exists_edge hlive hroot
      exact .inr ⟨b, hedge⟩
  · rintro (rfl | ⟨b, hedge⟩)
    · exact h.liveDir_root
    · exact (h.up_of_edge hedge ha hd).2.2

theorem LiveDir.before (hs : Inv e s .zero) (ht : Inv e t .zero)
    (hk : Kept P N s t) (ha : t.LiveDir a) (hP : a ∉ P)
    (hN : a ∈ N → s.isDirIno a = true → s.Named a) : s.LiveDir a ∧ ∀ b, t.Up a b → s.Up a b := by
  have hlive := ha
  obtain ⟨n', hn', hd', -⟩ := ha
  obtain ⟨n, hn, hmode, hpar⟩ := hk.node hs.sound a n' hn' hP
  have hd : n.isDir = true := by rw [Node.isDir, ← hmode]; exact hd'
  constructor
  · rw [hs.liveDir_iff hn hd]
    rcases (ht.liveDir_iff hn' hd').mp hlive with hroot | hnamed
    · exact .inl hroot
    · rcases hk.named hs.sound a hnamed with hold | hin
      · exact .inr hold
      · exact .inr (hN hin (by rw [isDirIno_eq hn, hd]))
  · rintro b ⟨hroot, m, hm, -, rfl⟩
    obtain rfl := some.inj (hm.symm.trans hn')
    exact ⟨hroot, n, hn, hd, hpar.symm⟩

theorem AllRooted.kept (hr : s.AllRooted) (hs : Inv e s .zero) (ht : Inv e t .zero)
    (hk : Kept ∅ N s t) (hN : ∀ a ∈ N, s.isDirIno a = true → s.Named a) : t.AllRooted := by
  intro a ha
  have hbefore := fun a (ha : t.LiveDir a) => ha.before hs ht hk (Set.notMem_empty a) (hN a)
  apply Rooted.reparent (x := tmpfsRootIno) (D := t.LiveDir) (up_functional s)
  case hstep =>
    intro a ha hroot
    obtain ⟨b, hb, hup, -⟩ := ht.exists_edge ha hroot
    exact ⟨b, hb, hup⟩
  case hkeep => exact fun a b ha _ hup => (hbefore a ha).2 b hup
  case hold => exact fun a ha _ => hr a (hbefore a ha).1
  case hnew => exact fun b _ hup => absurd hup (not_up_root b)
  case ha => exact ha

theorem AllRooted.adopted (hr : s.AllRooted) (hs : Inv e s .zero) (ht : Inv e t .zero)
    (hk : Adopted x p s t) (hp : s.LiveDir p) (hbelow : ¬ ReflTransGen s.Edge x p) :
    t.AllRooted := by
  intro a ha
  have hbefore := fun a (ha : t.LiveDir a) (hax : a ≠ x) =>
    ha.before hs ht hk.kept hax fun hin => absurd hin hax
  apply Rooted.reparent (x := x) (D := t.LiveDir) (up_functional s)
  case hstep =>
    intro a ha hroot
    obtain ⟨b, hb, hup, -⟩ := ht.exists_edge ha hroot
    exact ⟨b, hb, hup⟩
  case hkeep => exact fun a b ha hax hup => (hbefore a ha hax).2 b hup
  case hold => exact fun a ha hax => hr a (hbefore a ha hax).1
  case hnew =>
    rintro b _ ⟨-, n, hn, -, rfl⟩
    rw [hk.parent hs.sound n hn]
    exact ⟨hr p hp, fun hup => hbelow (hs.edges_of_ups hp hup)⟩
  case ha => exact ha

def NotBelow (s : TmpfsSb) (l : Caller × Op) : Prop :=
  match l.2 with
  | .rename oldDir oldName newDir _ _ => ∀ n e, s.findNode oldDir = some n →
      n.findDirent oldName = some e → ¬ ReflTransGen s.Edge e.ino newDir
  | _ => True

theorem Inv.fresh_nextIno (h : Inv e s w) (hnext : s.nextIno ≠ 0) :
    s.findNode s.nextIno = none ∧ s.icache s.nextIno = none := by
  have hunused := not_used_nextIno hnext
  constructor
  · cases hn : s.findNode s.nextIno with
    | none => rfl
    | some n => exact absurd (h.used _ n hn).1 hunused
  · cases hi : s.icache s.nextIno with
    | none => rfl
    | some i => exact absurd (h.usedCache _ i hi) hunused

theorem not_below_of_absent (hx : s.findNode x = none) (hp : s.LiveDir p) :
    ¬ ReflTransGen s.Edge x p := by
  intro hpath
  rcases ReflTransGen.cases_head hpath with rfl | ⟨b, ⟨n, hn, -⟩, -⟩
  · obtain ⟨n, hn, -⟩ := hp
    rw [hx] at hn
    cases hn
  · rw [hx] at hn
    cases hn

theorem AllRooted.made (hr : s.AllRooted) (hs : Inv e s .zero) (ht : Inv e t .zero)
    (hdir : s.isDirIno dir = true) (hlive : s.Live dir) (hnext : s.nextIno ≠ 0)
    (hmade : (s.iget dir).findNode (s.iget dir).nextIno = none →
      (s.iget dir).icache (s.iget dir).nextIno = none →
      Adopted (s.iget dir).nextIno dir (s.iget dir) t) : t.AllRooted := by
  obtain ⟨hfind, hcache⟩ := (hs.igetDir hdir).fresh_nextIno (nextIno_iget_ne hnext)
  obtain ⟨n, hn, hd⟩ := exists_of_isDirIno hdir
  have hlivedir : s.LiveDir dir := ⟨n, hn, hd, hlive n hn⟩
  apply hr.adopted hs ht (.of_kept kept_iget (hmade hfind hcache)) hlivedir
  rw [findNode_iget] at hfind
  exact not_below_of_absent hfind hlivedir

theorem AllRooted.step (hr : s.AllRooted) (hs : Inv false s .zero) (hsafe : Safe false s l)
    (hbelow : s.NotBelow l) (hstep : s.step l = some t) : t.AllRooted := by
  have ht := hs.step hsafe hstep
  have hkept : Kept ∅ ∅ s t → t.AllRooted := fun hk =>
    hr.kept hs ht hk fun a ha => absurd ha (Set.notMem_empty a)
  obtain ⟨c, op⟩ := l
  cases op with
  | lookup dir name =>
    obtain ⟨hdir, ⟨⟩⟩ := ite_none_right_eq_some.mp hstep
    exact hkept (kept_iget.trans kept_tmpfsLookup)
  | create dir name mode =>
    obtain ⟨hdir, ⟨⟩⟩ := ite_none_right_eq_some.mp hstep
    exact hr.made hs ht hdir hsafe.1 hsafe.2 fun hf hc => adopted_tmpfsCreate hf hc mode
  | mkdir dir name mode =>
    obtain ⟨hdir, ⟨⟩⟩ := ite_none_right_eq_some.mp hstep
    exact hr.made hs ht hdir hsafe.1 hsafe.2.1 fun hf hc => adopted_tmpfsMkdir hf hc mode
  | symlink dir name symname =>
    obtain ⟨hdir, ⟨⟩⟩ := ite_none_right_eq_some.mp hstep
    exact hr.made hs ht hdir hsafe.1 hsafe.2 fun hf hc => adopted_tmpfsSymlink hf hc symname
  | mknod dir name mode rdev =>
    obtain ⟨⟨hdir, -⟩, ⟨⟩⟩ := ite_none_right_eq_some.mp hstep
    exact hr.made hs ht hdir hsafe.1 hsafe.2 fun hf hc => adopted_tmpfsMknod hf hc mode rdev
  | link old dir name =>
    obtain ⟨⟨hdir, hold⟩, ⟨⟩⟩ := ite_none_right_eq_some.mp hstep
    obtain ⟨o, ho⟩ := isSome_iff_exists.mp hold
    by_cases hd : o.isDir = true
    · have hget : Kept ∅ ∅ s ((s.iget old).iget dir) := kept_iget.iget
      apply hkept
      apply hget.trans (kept_tmpfsLink_of_dir (hget.sound hs.sound) referenced_iget_self.iget _)
      rw [isDirIno_iget, isDirIno_iget, isDirIno_eq ho, hd]
    · apply hr.kept hs ht (kept_iget.iget.trans (kept_tmpfsLink (Set.mem_singleton old)))
      rintro a rfl hdira
      rw [isDirIno_eq ho] at hdira
      exact absurd hdira hd
  | unlink dir name =>
    obtain ⟨hdir, ⟨⟩⟩ := ite_none_right_eq_some.mp hstep
    exact hkept (kept_iget.trans kept_tmpfsUnlink)
  | rmdir dir name =>
    obtain ⟨hdir, ⟨⟩⟩ := ite_none_right_eq_some.mp hstep
    exact hkept (kept_iget.trans kept_tmpfsRmdir)
  | rename oldDir oldName newDir newName mustBeDir =>
    obtain ⟨⟨hold, hnew⟩, ⟨⟩⟩ := ite_none_right_eq_some.mp hstep
    have hguard : RenameGuard false s oldDir oldName newDir newName := hsafe
    obtain hk | ⟨odnode, oldDe, hod, hde, hk⟩ :=
      tmpfsRename_parents (s := (s.iget oldDir).iget newDir) (c := c) mustBeDir
    · exact hkept (kept_iget.iget.trans hk)
    · rw [findNode_iget, findNode_iget] at hod
      rcases hk with hk | hk
      · apply hr.kept hs ht (kept_iget.iget.trans hk)
        rintro a rfl -
        exact ⟨oldDir, odnode, hod, oldDe, mem_of_findDirent hde, rfl⟩
      · obtain ⟨n, hn, hd⟩ := exists_of_isDirIno hnew
        exact hr.adopted hs ht (.of_kept kept_iget.iget hk) ⟨n, hn, hd, hguard.live n hn⟩
          (hbelow odnode oldDe hod hde)
  | release ino =>
    obtain ⟨-, ⟨⟩⟩ := ite_none_right_eq_some.mp hstep
    exact hkept kept_iput
  | writeInode ino =>
    obtain ⟨i, hi, rfl⟩ := map_eq_some_iff.mp hstep
    exact hkept (kept_syncNodeFromInode hi)
  | evict ino => exact hkept (kept_evict hstep)

theorem allRooted_mount (maxInodes : UInt32) (rootMode : UInt16) :
    (mount maxInodes rootMode).AllRooted := by
  rintro a ⟨n, hn, -⟩
  rw [(findNode_mount hn).1]
  exact .refl

/-- The nodes form a tree in every state of a run of safe steps that move no directory below
itself. -/
theorem isTree_of_reaches {maxInodes : UInt32} {rootMode : UInt16}
    (h : Reaches step (fun s l => Safe false s l ∧ s.NotBelow l) (mount maxInodes rootMode) t) :
    t.IsTree := by
  have hinv : Inv false t .zero ∧ t.AllRooted := by
    apply h.invariant (P := fun s => Inv false s .zero ∧ s.AllRooted)
    · exact ⟨inv_mount maxInodes rootMode, allRooted_mount maxInodes rootMode⟩
    · rintro s l t ⟨hs, hr⟩ ⟨hsafe, hbelow⟩ hstep
      exact ⟨hs.step hsafe hstep, hr.step hs hsafe hbelow hstep⟩
  exact hinv.1.isTree hinv.2

/-- Two directories are made, and one of them is moved into the other. -/
theorem isTree_after_move :
    ∃ t, run step (mount 100 0x1ed)
        [(aCaller, .mkdir tmpfsRootIno nameA 0x1ed), (aCaller, .mkdir tmpfsRootIno nameB 0x1ed),
          (aCaller, .rename tmpfsRootIno nameA 3 nameA false)] = some t ∧ t.IsTree := by
  have h1 : Reaches step (fun s l => Safe false s l ∧ s.NotBelow l) (mount 100 0x1ed)
      (mount 100 0x1ed) := .refl
  have h2 := h1.tail (i := (aCaller, Op.mkdir tmpfsRootIno nameA 0x1ed))
    ⟨⟨by rintro n ⟨⟩; decide, by decide, by rintro n ⟨⟩; decide⟩, trivial⟩ rfl
  have h3 := h2.tail (i := (aCaller, Op.mkdir tmpfsRootIno nameB 0x1ed))
    ⟨⟨by rintro n ⟨⟩; decide, by decide, by rintro n ⟨⟩; decide⟩, trivial⟩ rfl
  have h4 := h3.tail (i := (aCaller, Op.rename tmpfsRootIno nameA 3 nameA false))
    ⟨⟨by rintro n ⟨⟩; decide, by rintro n ⟨⟩; decide, by rintro ⟨⟩⟩, by
      -- the directory that moves is empty
      rintro n e ⟨⟩ ⟨⟩ hpath
      rcases ReflTransGen.cases_head hpath with heq | ⟨b, ⟨m, ⟨⟩, e, he, -⟩, -⟩
      · revert heq
        decide
      · cases he⟩ rfl
  exact ⟨_, rfl, isTree_of_reaches h4⟩

/-- A directory that is renamed to a name in itself has no way to the root any more. -/
theorem rename_below_itself_detaches :
    ∃ t, run step (mount 100 0x1ed) [(aCaller, .mkdir tmpfsRootIno nameA 0x1ed),
          (aCaller, .rename tmpfsRootIno nameA 2 nameB false)] = some t ∧
      t.Edge 2 2 ∧ (∀ x, ¬ t.Edge tmpfsRootIno x) ∧ ¬ t.IsTree := by
  refine ⟨_, rfl, ⟨_, rfl, ⟨nameB, 2⟩, by decide, rfl⟩, ?_, ?_⟩
  · rintro x ⟨n, ⟨⟩, e, he, -⟩
    cases he
  · intro h
    exact h.acyclic 2 (.single ⟨_, rfl, ⟨nameB, 2⟩, by decide, rfl⟩)

end Six.Tmpfs.TmpfsSb
