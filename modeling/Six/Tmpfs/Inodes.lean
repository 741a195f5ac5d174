import Six.Tmpfs.Ledger

/-! The life of nodes and inodes under the invariant of a tmpfs mount. -/

namespace Six.Tmpfs.TmpfsSb

open Lib Function Option Table

variable {b : Bool} {s : TmpfsSb} {w w' : Ledger} {x y : UInt32} {n : Node} {t : TmpfsSb}

theorem Inv.settle (h : Inv b s w) (w' : Ledger) (howed : w'.owed = w.owed)
    (hmoving : w'.moving = w.moving) (hpins : w'.pins = w.pins)
    (hsub : b = true → w'.subdirs = w.subdirs)
    (hstale : b = true → w'.stale = w.stale) : Inv b s w' :=
  { h with
    rootPinned := hpins ▸ h.rootPinned
    file := howed ▸ h.file
    dir := howed ▸ h.dir
    entry := hmoving ▸ h.entry
    counts := fun hb => hsub hb ▸ h.counts hb
    fresh := fun hb => hstale hb ▸ h.fresh hb }

theorem Inv.startMoving (h : Inv b s w) (x : UInt32) : Inv b s (w.addMoving x) :=
  { h with
    entry := by
      intro y d hd e he
      obtain ⟨m, hm, hp⟩ := h.entry y d hd e he
      exact ⟨m, hm, fun hdir hmov => hp hdir fun hin => hmov (Set.mem_insert_of_mem x hin)⟩ }

theorem Inv.setParent (h : Inv b s w) (hx : s.findNode x = some n) (hp : s.Used p)
    (honly : ∀ y d, s.findNode y = some d → ∀ e ∈ d.entries, e.ino = x → y = p) :
    Inv b (s.modifyNode x fun m => { m with parentIno := p }) (w.dropMoving x) := by
  have hlinks : ∀ y, (s.modifyNode x fun m => { m with parentIno := p }).links y = s.links y := by
    intro y
    apply links_modifyNode
    exact fun _ => rfl
  have hparents : ∀ y d, s.findNode y = some d → ∀ e ∈ d.entries, ∀ m,
      s.findNode e.ino = some m → m.isDir = true → e.ino ∉ w.moving \ {x} →
      (if e.ino = x then { m with parentIno := p } else m).parentIno = y := by
    intro y d hd e he m hm hdir hmov
    split_ifs with hex
    · exact (honly y d hd e he hex).symm
    · obtain ⟨m', hm', hpar⟩ := h.entry y d hd e he
      obtain rfl := some.inj (hm'.symm.trans hm)
      exact hpar hdir fun hin => hmov ⟨hin, hex⟩
  rw [← modifyInode_id (s := s.modifyNode x _) (x := x)]
  apply h.update (f := fun m => { m with parentIno := p }) (g := fun i => i) hx
    (fun _ => rfl) (fun _ => rfl) (fun _ => rfl) hp
  case hpins => rfl
  case hlinks => exact fun y _ => by rw [hlinks, Ledger.dropMoving_owed]
  case hfile => exact fun hf => by rw [hlinks]; exact h.file x n hx hf
  case hdir => exact fun hd => by rw [hlinks]; exact h.dir x n hx hd
  case hgone => exact h.gone x n hx
  case hentry =>
    intro e he
    obtain ⟨m, hm, -⟩ := h.entry x n hx e he
    exact ⟨m, hm, fun hdir hmov => hparents x n hx e he m hm hdir hmov⟩
  case hothers => exact fun y d _ hd e he m hm hdir hmov => hparents y d hd e he m hm hdir hmov
  case hagree =>
    intro i hi
    exact { h.agree x n i hx hi with }
  case hcounts => exact fun hb hdir hne => h.counts hb x n hx hdir hne
  case hsubdirs => exact fun _ _ => rfl
  case hfresh => exact fun hb i hi hns => h.fresh hb x n i hx hi hns
  case hstale => exact fun _ _ hns => hns

def gotten (s : TmpfsSb) (x : UInt32) : Inode :=
  match s.icache x with
  | some i => { i with count := i.count + 1 }
  | none => ⟨((s.findNode x).map Node.attr).getD clearedAttr, 1⟩

theorem iget_eq : s.iget x = { s with icache := update s.icache x (some (s.gotten x)) } := by
  unfold iget gotten
  cases s.icache x <;> rfl

@[simp] theorem findNode_iget : (s.iget x).findNode y = s.findNode y := by
  rw [iget_eq]
  rfl

theorem isDirIno_iget : (s.iget x).isDirIno y = s.isDirIno y := by
  rw [isDirIno, isDirIno, findNode_iget]

theorem icache_iget_of_ne (h : y ≠ x) : (s.iget x).icache y = s.icache y := by
  rw [iget_eq]
  exact update_of_ne h _ _

theorem icache_iget_self : (s.iget x).icache x = some (s.gotten x) := by
  rw [iget_eq]
  exact update_self _ _ _

theorem gotten_count : (s.gotten x).count = ((s.icache x).map Inode.count).getD 0 + 1 := by
  unfold gotten
  cases s.icache x <;> rfl

theorem referenced_iget_self : (s.iget x).Referenced x :=
  ⟨_, icache_iget_self, by rw [gotten_count]; omega⟩

theorem Referenced.iget (h : s.Referenced y) : (s.iget x).Referenced y := by
  by_cases hy : y = x
  · subst hy
    exact referenced_iget_self
  · obtain ⟨i, hi, hpos⟩ := h
    exact ⟨i, by rw [icache_iget_of_ne hy, hi], hpos⟩

theorem Inv.agree_gotten (h : Inv b s w) (hx : s.findNode x = some n) : Agree n (s.gotten x) := by
  unfold gotten
  cases hi : s.icache x with
  | some i => exact (h.agree x n i hx hi).of_attr rfl
  | none =>
    rw [hx]
    refine ⟨rfl, fun _ => rfl, fun _ => Iff.rfl, fun hdir hne => ?_⟩
    obtain ⟨hzero, -⟩ | ⟨htwo, -⟩ := h.dir x n hx hdir
    · exact absurd hzero hne
    · exact htwo

theorem Inv.fresh_gotten (h : Inv b s w) (hb : b = true) (hx : s.findNode x = some n)
    (hns : x ∉ w.stale) : (s.gotten x).attr.nlink = n.attr.nlink := by
  unfold gotten
  cases hi : s.icache x with
  | some i => exact h.fresh hb x n i hx hi hns
  | none => rw [hx]; rfl

theorem Inv.recache (h : Inv b s w) (cache : UInt32 → Option Inode) (k : Nat)
    (hused : ∀ y i, cache y = some i → s.Used y)
    (hroot : ∃ i, cache tmpfsRootIno = some i ∧ k < i.count)
    (hgone : ∀ y m, s.findNode y = some m → m.attr.nlink = 0 →
      ({ s with icache := cache } : TmpfsSb).Referenced y)
    (hagree : ∀ y m i, s.findNode y = some m → cache y = some i → Agree m i)
    (hfresh : b = true → ∀ y m i, s.findNode y = some m → cache y = some i → y ∉ w.stale →
      i.attr.nlink = m.attr.nlink) :
    Inv b { s with icache := cache } { w with pins := k } :=
  { h with
    usedCache := hused
    rootPinned := hroot
    gone := hgone
    agree := hagree
    fresh := hfresh }

theorem Inv.iget (h : Inv b s w) (hx : s.Used x) : Inv b (s.iget x) (w.pin x) := by
  have hicache : ∀ y i, Function.update s.icache x (some (s.gotten x)) y = some i →
      (y = x ∧ i = s.gotten x) ∨ (y ≠ x ∧ s.icache y = some i) := by
    intro y i hi
    by_cases hy : y = x
    · subst hy
      rw [update_self] at hi
      exact .inl ⟨rfl, (some.inj hi).symm⟩
    · rw [update_of_ne hy] at hi
      exact .inr ⟨hy, hi⟩
  have href : ∀ y, s.Referenced y → (s.iget x).Referenced y := fun y => Referenced.iget
  rw [iget_eq] at href ⊢
  apply h.recache
  case hused =>
    intro y i hi
    obtain ⟨rfl, -⟩ | ⟨-, hi⟩ := hicache y i hi
    · exact hx
    · exact h.usedCache y i hi
  case hroot =>
    obtain ⟨i, hi, hpins⟩ := h.rootPinned
    by_cases hxr : x = tmpfsRootIno
    · subst hxr
      refine ⟨_, update_self _ _ _, ?_⟩
      rw [gotten_count, hi, if_pos rfl]
      simp only [map_some, getD_some]
      omega
    · refine ⟨i, (update_of_ne (Ne.symm hxr) _ _).trans hi, ?_⟩
      rw [if_neg hxr]
      exact hpins
  case hgone => exact fun y m hm hz => href y (h.gone y m hm hz)
  case hagree =>
    intro y m i hm hi
    obtain ⟨rfl, rfl⟩ | ⟨-, hi⟩ := hicache y i hi
    · exact h.agree_gotten hm
    · exact h.agree y m i hm hi
  case hfresh =>
    intro hb y m i hm hi hns
    obtain ⟨rfl, rfl⟩ | ⟨-, hi⟩ := hicache y i hi
    · exact h.fresh_gotten hb hm hns
    · exact h.fresh hb y m i hm hi hns

theorem Inv.setCount (h : Inv b s (w.pin x)) (k : Nat)
    (hroot : x = tmpfsRootIno → w.pins < k)
    (hgone : k = 0 → ∀ m, s.findNode x = some m → m.attr.nlink ≠ 0) :
    Inv b (s.modifyInode x fun i => { i with count := k }) w := by
  have hicache : ∀ y i, (s.modifyInode x fun i => { i with count := k }).icache y = some i →
      ∃ j, s.icache y = some j ∧ i.attr = j.attr := by
    intro y i hi
    obtain ⟨j, hj, rfl⟩ := icache_of_modifyInode hi
    refine ⟨j, hj, ?_⟩
    split_ifs <;> rfl
  apply h.recache (k := w.pins)
  case hused =>
    intro y i hi
    obtain ⟨j, hj, -⟩ := hicache y i hi
    exact h.usedCache y j hj
  case hroot =>
    obtain ⟨i, hi, hpins⟩ := h.rootPinned
    have heq := icache_modifyInode (s := s) (x := x) (y := tmpfsRootIno)
      (g := fun i => { i with count := k })
    rw [hi] at heq
    split_ifs at heq with hxr
    · exact ⟨_, heq, hroot hxr.symm⟩
    · refine ⟨i, heq, ?_⟩
      simp only [Ledger.pin] at hpins
      omega
  case hgone =>
    intro y m hm hz
    obtain ⟨i, hi, hpos⟩ := h.gone y m hm hz
    have heq := icache_modifyInode (s := s) (x := x) (y := y) (g := fun i => { i with count := k })
    rw [hi] at heq
    split_ifs at heq with hy
    · subst hy
      exact ⟨_, heq, Nat.pos_of_ne_zero fun hk => hgone hk m hm hz⟩
    · exact ⟨i, heq, hpos⟩
  case hagree =>
    intro y m i hm hi
    obtain ⟨j, hj, hattr⟩ := hicache y i hi
    exact (h.agree y m j hm hj).of_attr hattr
  case hfresh =>
    intro hb y m i hm hi hns
    obtain ⟨j, hj, hattr⟩ := hicache y i hi
    rw [hattr]
    exact h.fresh hb y m j hm hj hns

theorem Inv.syncNode (h : Inv b s w) (hi : s.icache x = some i)
    (hns : b = true → x ∉ w.stale) : Inv b (s.syncNodeFromInode x i) w := by
  cases hx : s.findNode x with
  | none =>
    have hsame : s.syncNodeFromInode x i = s := by
      have hnodes :
          Table.update Node.ino s.nodes x (fun m => { m with attr := i.attr }) = s.nodes :=
        update_of_find_eq_none hx
      simp only [syncNodeFromInode, modifyNode, hnodes]
    rw [hsame]
    exact h
  | some n =>
    have ha := h.agree x n i hx hi
    -- the inode differs from the node in the count of links at most
    have hnode : ({ n with attr := i.attr } : Node) = n.withNlink i.attr.nlink := by
      rw [ha.same]
      rfl
    have hsame : s.syncNodeFromInode x i = s.setNlink x fun _ => i.attr.nlink := by
      have hnodes : Table.update Node.ino s.nodes x (fun m => { m with attr := i.attr }) =
          Table.update Node.ino s.nodes x fun m => m.withNlink i.attr.nlink :=
        update_congr hx hnode
      simp only [syncNodeFromInode, setNlink, modifyNode, hnodes]
    rw [hsame, ← modifyInode_id (s := s.setNlink x _) (x := x)]
    apply h.updateNlink hx (k := fun _ => i.attr.nlink) (g := fun j => j) fun _ => rfl
    case howed => exact fun _ _ => rfl
    case hfile =>
      intro hf
      rw [ha.file hf]
      exact (h.file x n hx hf).2
    case hdir =>
      intro hd
      obtain ⟨hzero, hgone⟩ | ⟨htwo, hcount⟩ := h.dir x n hx hd
      · exact .inl ⟨(ha.zero hd).mpr hzero, hgone⟩
      · refine .inr ⟨ha.two hd fun hz => ?_, hcount⟩
        rw [(ha.zero hd).mp hz] at htwo
        simp at htwo
    case hgone =>
      intro hz
      apply h.gone x n hx
      cases hd : n.isDir with
      | false => exact (ha.file hd).symm.trans hz
      | true => exact (ha.zero hd).mp hz
    case hagree =>
      intro j hj
      obtain rfl := some.inj (hj.symm.trans hi)
      exact ⟨ha.same, fun _ => rfl, fun _ => Iff.rfl, ha.two⟩
    case hcounts =>
      intro hb hd hne
      have hn0 : n.attr.nlink ≠ 0 := fun hz => hne ((ha.zero hd).mpr hz)
      rw [h.fresh hb x n i hx hi (hns hb)]
      exact h.counts hb x n hx hd hn0
    case hsubdirs => exact fun _ _ => rfl
    case hfresh =>
      intro _ j hj _
      obtain rfl := some.inj (hj.symm.trans hi)
      rfl
    case hstale => exact fun _ _ hns => hns

theorem Inv.links_eq_zero (h : Inv b s w) (hx : s.findNode x = some n) (hz : n.attr.nlink = 0)
    (howed : w.owed x = 0) : s.links x = 0 ∧ n.entries = [] ∧ x ≠ tmpfsRootIno := by
  cases hd : n.isDir with
  | false =>
    obtain ⟨hempty, hcount⟩ := h.file x n hx hd
    rw [hz, howed] at hcount
    refine ⟨by simpa using hcount.symm, hempty, ?_⟩
    rintro rfl
    rw [← isDirIno_eq hx, h.root] at hd
    cases hd
  | true =>
    obtain ⟨-, hroot, hcount, hempty⟩ | ⟨htwo, -⟩ := h.dir x n hx hd
    · rw [howed] at hcount
      exact ⟨by omega, hempty, hroot⟩
    · rw [hz] at htwo
      simp at htwo

theorem icache_of_clearInode (h : (s.clearInode x).icache y = some i) :
    y ≠ x ∧ s.icache y = some i := by
  unfold clearInode at h
  by_cases hy : y = x
  · subst hy
    simp at h
  · exact ⟨hy, by simpa [hy] using h⟩

theorem Referenced.clearInode (h : s.Referenced y) (hy : y ≠ x) :
    (s.clearInode x).Referenced y := by
  obtain ⟨i, hi, hpos⟩ := h
  exact ⟨i, (update_of_ne hy _ _).trans hi, hpos⟩

theorem Inv.clearInode (h : Inv b s w) (hroot : x ≠ tmpfsRootIno)
    (hlive : ∀ m, s.findNode x = some m → m.attr.nlink ≠ 0) : Inv b (s.clearInode x) w := by
  apply h.recache (k := w.pins)
  case hused => exact fun y i hi => h.usedCache y i (icache_of_clearInode hi).2
  case hroot =>
    obtain ⟨i, hi, hpins⟩ := h.rootPinned
    exact ⟨i, (update_of_ne (Ne.symm hroot) _ _).trans hi, hpins⟩
  case hgone =>
    intro y m hm hzero
    refine (h.gone y m hm hzero).clearInode ?_
    rintro rfl
    exact hlive m hm hzero
  case hagree => exact fun y m i hm hi => h.agree y m i hm (icache_of_clearInode hi).2
  case hfresh => exact fun hb y m i hm hi hns => h.fresh hb y m i hm (icache_of_clearInode hi).2 hns

theorem destroyNode_spec (hkeys : (s.nodes.map Node.ino).Nodup) (hx : s.findNode x = some n)
    (hempty : n.entries = []) (hlinks : s.links x = 0) :
    ((s.destroyNode x).nodes.map Node.ino).Nodup ∧
      (s.destroyNode x).icache = s.icache ∧ (s.destroyNode x).nextIno = s.nextIno ∧
      (∀ y ≠ x, (s.destroyNode x).findNode y = s.findNode y) ∧ (s.destroyNode x).findNode x = none ∧
      (∀ y, (s.destroyNode x).links y = s.links y) ∧
      ∀ y d, s.findNode y = some d → ∀ e ∈ d.entries, e.ino ≠ x := by
  have hnodes : (s.destroyNode x).nodes = erase Node.ino s.nodes x := by
    simp [destroyNode, hx]
  refine ⟨?_, by simp [destroyNode, hx], by simp [destroyNode, hx], ?_, ?_, ?_, ?_⟩
  · rw [hnodes]
    exact nodup_erase hkeys
  · intro y hy
    rw [findNode, hnodes]
    exact find_erase_of_ne hy
  · rw [findNode, hnodes]
    exact find_erase_self hkeys
  · intro y
    have htotal := total_erase (g := fun m : Node => m.names y) hx
    have hnames : n.names y = 0 := by rw [Node.names, hempty, total_nil]
    rw [links, links, hnodes]
    omega
  · rintro y d hd e he rfl
    have hpos := links_pos hd he
    omega

theorem Inv.destroy (h : Inv b s w) (hroot : x ≠ tmpfsRootIno)
    (hz : ∀ m, s.findNode x = some m → m.attr.nlink = 0) (howed : w.owed x = 0) :
    Inv b ((s.destroyNode x).clearInode x) w := by
  cases hx : s.findNode x with
  | none =>
    have hsame : s.destroyNode x = s := by simp [destroyNode, hx]
    rw [hsame]
    apply h.clearInode hroot
    intro m hm
    rw [hx] at hm
    cases hm
  | some n =>
    obtain ⟨hzero, hempty, -⟩ := h.links_eq_zero hx (hz n hx) howed
    obtain ⟨hkeys, hcache, hnext, hfind, hnone, hlinks, hentry⟩ :=
      destroyNode_spec h.keys hx hempty hzero
    generalize s.destroyNode x = t at *
    have hold : ∀ y m, t.findNode y = some m → y ≠ x ∧ s.findNode y = some m := by
      intro y m hm
      by_cases hy : y = x
      · subst hy
        rw [hnone] at hm
        cases hm
      · exact ⟨hy, hfind y hy ▸ hm⟩
    have hused : ∀ y, s.Used y → t.Used y := fun y hu => by rw [Used, hnext]; exact hu
    have href : ∀ y, y ≠ x → s.Referenced y → (t.clearInode x).Referenced y := by
      rintro y hy ⟨i, hi, hpos⟩
      exact ⟨i, (update_of_ne hy _ _).trans (hcache ▸ hi), hpos⟩
    have hi' : ∀ y i, (t.clearInode x).icache y = some i → s.icache y = some i :=
      fun y i hi => hcache ▸ (icache_of_clearInode hi).2
    constructor
    case keys => exact hkeys
    case used =>
      intro y m hm
      obtain ⟨-, hm⟩ := hold y m hm
      exact ⟨hused _ (h.used y m hm).1, hused _ (h.used y m hm).2⟩
    case usedCache => exact fun y i hi => hused _ (h.usedCache y i (hi' y i hi))
    case root =>
      have hr := h.root
      rw [isDirIno, ← hfind tmpfsRootIno (Ne.symm hroot)] at hr
      exact hr
    case rootPinned =>
      obtain ⟨i, hi, hpins⟩ := h.rootPinned
      exact ⟨i, (update_of_ne (Ne.symm hroot) _ _).trans (hcache ▸ hi), hpins⟩
    case file =>
      intro y m hm hf
      rw [show (t.clearInode x).links y = s.links y from hlinks y]
      exact h.file y m (hold y m hm).2 hf
    case dir =>
      intro y m hm hd
      rw [show (t.clearInode x).links y = s.links y from hlinks y]
      exact h.dir y m (hold y m hm).2 hd
    case gone =>
      intro y m hm hgone
      obtain ⟨hy, hm⟩ := hold y m hm
      exact href y hy (h.gone y m hm hgone)
    case entry =>
      intro y d hd e he
      obtain ⟨-, hd⟩ := hold y d hd
      rw [show (t.clearInode x).findNode e.ino = s.findNode e.ino from
        hfind e.ino (hentry y d hd e he)]
      exact h.entry y d hd e he
    case agree => exact fun y m i hm hi => h.agree y m i (hold y m hm).2 (hi' y i hi)
    case counts =>
      intro hb y m hm hd hne
      obtain ⟨-, hm⟩ := hold y m hm
      have hsub : (t.clearInode x).subdirs m = s.subdirs m := by
        apply subdirs_congr
        intro e he
        rw [isDirIno, isDirIno, show (t.clearInode x).findNode e.ino = s.findNode e.ino from
          hfind e.ino (hentry y m hm e he)]
      rw [hsub]
      exact h.counts hb y m hm hd hne
    case fresh =>
      exact fun hb y m i hm hi hns => h.fresh hb y m i (hold y m hm).2 (hi' y i hi) hns

theorem Inv.unpin (h : Inv b s (w.pin x)) : Inv b s w :=
  { h with
    rootPinned := by
      obtain ⟨i, hi, hpins⟩ := h.rootPinned
      simp only [Ledger.pin] at hpins
      exact ⟨i, hi, by omega⟩ }

theorem Inv.iput (h : Inv b s (w.pin x)) (howed : w.owed x = 0) (hns : b = true → x ∉ w.stale) :
    Inv b (s.iput x) w := by
  -- the reference to the root that the mount keeps is not the one that is given back
  have hroot : ∀ i, s.icache x = some i → x = tmpfsRootIno → w.pins + 1 < i.count := by
    rintro i hi rfl
    obtain ⟨j, hj, hpins⟩ := h.rootPinned
    obtain rfl := some.inj (hj.symm.trans hi)
    simpa [Ledger.pin] using hpins
  unfold TmpfsSb.iput
  cases hi : s.icache x with
  | none => exact h.unpin
  | some i =>
    dsimp only
    split_ifs with hzero hmany hnlink
    · exact h.unpin
    · have hdec : (s.modifyInode x fun i => { i with count := i.count - 1 }) =
          s.modifyInode x fun j => { j with count := i.count - 1 } := by
        simp only [modifyInode, hi, map_some]
      rw [hdec]
      apply h.setCount
      · intro hx
        have := hroot i hi hx
        omega
      · exact fun hz => by omega
    · -- the last reference
      apply (h.syncNode hi hns).setCount 0
      · intro hx
        have := hroot i hi hx
        omega
      · intro _ m hm
        obtain ⟨n, -, rfl⟩ :=
          findNode_of_modifyNode (f := fun m => { m with attr := i.attr }) (fun _ => rfl) hm
        rw [if_pos rfl]
        exact hnlink
    · have hx : x ≠ tmpfsRootIno := by
        intro hx
        have := hroot i hi hx
        omega
      apply h.unpin.destroy hx _ howed
      intro m hm
      have ha := h.agree x m i hm hi
      cases hd : m.isDir with
      | false => exact (ha.file hd).symm.trans (not_not.mp hnlink)
      | true => exact (ha.zero hd).mp (not_not.mp hnlink)

theorem findNode_iput_of_ne (hy : y ≠ x) : (s.iput x).findNode y = s.findNode y := by
  unfold iput
  cases s.icache x with
  | none => rfl
  | some i =>
    dsimp only
    split_ifs
    · rfl
    · rfl
    · rw [findNode_modifyInode, syncNodeFromInode, findNode_modifyNode, if_neg hy]
      exact fun _ => rfl
    · show (s.destroyNode x).findNode y = _
      unfold destroyNode
      by_cases hx : (s.findNode x).isSome
      · rw [if_pos hx]
        exact find_erase_of_ne hy
      · rw [if_neg hx]

theorem used_iput : (s.iput x).Used y ↔ s.Used y := by
  have hnext : (s.iput x).nextIno = s.nextIno := by
    unfold iput destroyNode clearInode
    cases s.icache x with
    | none => rfl
    | some i =>
      dsimp only
      split_ifs <;> rfl
  rw [Used, Used, hnext]

theorem used_iget : (s.iget x).Used y ↔ s.Used y := by
  rw [iget_eq]
  exact Iff.rfl

theorem used_of_le_nextIno (hx : x.toNat ≤ s.nextIno.toNat) (ht : t.nextIno = s.nextIno + 1) :
    t.Used x := by
  unfold Used
  rw [ht, UInt32.lt_iff_toNat_lt]
  by_cases hwrap : s.nextIno + 1 = 0
  · exact .inl hwrap
  · right
    have hmod : (s.nextIno + 1).toNat = (s.nextIno.toNat + 1) % 2 ^ 32 := UInt32.toNat_add _ _
    have hne : (s.nextIno + 1).toNat ≠ 0 := fun hz => hwrap (UInt32.toNat_inj.mp hz)
    have hbound := s.nextIno.toNat_lt
    omega

theorem Used.next (h : s.Used x) (hnext : s.nextIno ≠ 0) (ht : t.nextIno = s.nextIno + 1) :
    t.Used x := by
  obtain hz | hlt := h
  · exact absurd hz hnext
  · exact used_of_le_nextIno (Nat.le_of_lt (UInt32.lt_iff_toNat_lt.mp hlt)) ht

theorem not_used_nextIno (hnext : s.nextIno ≠ 0) : ¬ s.Used s.nextIno := by
  rintro (hz | hlt)
  · exact hnext hz
  · exact absurd hlt (UInt32.lt_irrefl _)

theorem Inv.skipIno (h : Inv b s w) (hnext : s.nextIno ≠ 0) (k : UInt32) :
    Inv b { s with nextIno := s.nextIno + 1, nrInodes := k } w :=
  { h with
    used := fun y m hm => ⟨(h.used y m hm).1.next hnext rfl, (h.used y m hm).2.next hnext rfl⟩
    usedCache := fun y i hi => (h.usedCache y i hi).next hnext rfl }

def addNode (s : TmpfsSb) (n : Node) : TmpfsSb :=
  { s with nodes := n :: s.nodes, nextIno := s.nextIno + 1, nrInodes := s.nrInodes + 1 }

theorem findNode_addNode : (s.addNode n).findNode y = if n.ino = y then some n else s.findNode y :=
  rfl

theorem Inv.addNode (h : Inv b s w) (hnext : s.nextIno ≠ 0) (hino : n.ino = s.nextIno)
    (hempty : n.entries = []) (hparent : s.Used n.parentIno)
    (hnlink : n.attr.nlink = if n.isDir then 2 else 1)
    (howed : w.owed n.ino = 0) (hsubdirs : w.subdirs n.ino = 0) :
    Inv b (s.addNode n) (w.owe n.ino 1) := by
  have hunused : ¬ s.Used n.ino := hino ▸ not_used_nextIno hnext
  have hnone : ∀ y m, s.findNode y = some m → y ≠ n.ino := by
    rintro y m hm rfl
    exact hunused (h.used _ m hm).1
  have hcases : ∀ y m, (s.addNode n).findNode y = some m →
      (y = n.ino ∧ m = n) ∨ (y ≠ n.ino ∧ s.findNode y = some m) := by
    intro y m hm
    rw [findNode_addNode] at hm
    split_ifs at hm with hy
    · exact .inl ⟨hy.symm, (some.inj hm).symm⟩
    · exact .inr ⟨Ne.symm hy, hm⟩
  have hfind : ∀ y m, s.findNode y = some m → (s.addNode n).findNode y = some m := by
    intro y m hm
    rw [findNode_addNode, if_neg (Ne.symm (hnone y m hm)), hm]
  have hlinks : ∀ y, (s.addNode n).links y = s.links y := by
    intro y
    have hnames : n.names y = 0 := by rw [Node.names, hempty, total_nil]
    show total _ (n :: s.nodes) = _
    rw [total_cons, hnames, Nat.zero_add]
    rfl
  -- the entries lead to nodes, and this number had none
  have hentry : ∀ y d, s.findNode y = some d → ∀ e ∈ d.entries, e.ino ≠ n.ino := by
    intro y d hd e he
    obtain ⟨m, hm, -⟩ := h.entry y d hd e he
    exact hnone e.ino m hm
  have hzero : s.links n.ino = 0 := by
    by_contra hne
    obtain ⟨y, d, e, hd, he, heq⟩ := exists_entry_of_links_pos h.keys (Nat.pos_of_ne_zero hne)
    exact hentry y d hd e he heq
  have hused : ∀ y, s.Used y → (s.addNode n).Used y := fun y hu => hu.next hnext rfl
  have hroot : tmpfsRootIno ≠ n.ino := by
    obtain ⟨r, hr, -⟩ := exists_of_isDirIno h.root
    exact hnone _ r hr
  have hn0 : n.attr.nlink ≠ 0 := by
    rw [hnlink]
    split_ifs <;> decide
  have hother : ∀ y, y ≠ n.ino → (w.owe n.ino 1).owed y = w.owed y :=
    fun y hy => by simp [Pi.single_eq_of_ne hy]
  constructor
  case keys =>
    show ((n :: s.nodes).map Node.ino).Nodup
    rw [List.map_cons, List.nodup_cons]
    refine ⟨fun hmem => ?_, h.keys⟩
    obtain ⟨m, hm, heq⟩ := List.mem_map.mp hmem
    exact hnone m.ino m (findNode_of_mem h.keys hm) heq
  case used =>
    intro y m hm
    obtain ⟨rfl, rfl⟩ | ⟨-, hm⟩ := hcases y m hm
    · exact ⟨hino ▸ used_of_le_nextIno le_rfl rfl, hused _ hparent⟩
    · exact ⟨hused _ (h.used y m hm).1, hused _ (h.used y m hm).2⟩
  case usedCache => exact fun y i hi => hused _ (h.usedCache y i hi)
  case root =>
    have hr := h.root
    rw [isDirIno] at hr ⊢
    rw [findNode_addNode, if_neg (Ne.symm hroot)]
    exact hr
  case rootPinned => exact h.rootPinned
  case file =>
    intro y m hm hf
    rw [hlinks]
    obtain ⟨rfl, rfl⟩ | ⟨hy, hm⟩ := hcases y m hm
    · refine ⟨hempty, ?_⟩
      rw [hnlink, hf, hzero]
      simp [howed]
    · rw [hother y hy]
      exact h.file y m hm hf
  case dir =>
    intro y m hm hd
    rw [hlinks]
    obtain ⟨rfl, rfl⟩ | ⟨hy, hm⟩ := hcases y m hm
    · right
      rw [hnlink, hd, hzero, linksOfDir, if_neg (Ne.symm hroot)]
      simp [howed]
    · rw [hother y hy]
      exact h.dir y m hm hd
  case gone =>
    intro y m hm hz
    obtain ⟨rfl, rfl⟩ | ⟨-, hm⟩ := hcases y m hm
    · exact absurd hz hn0
    · exact h.gone y m hm hz
  case entry =>
    intro y d hd e he
    obtain ⟨rfl, rfl⟩ | ⟨-, hd⟩ := hcases y d hd
    · rw [hempty] at he
      cases he
    · obtain ⟨m, hm, hp⟩ := h.entry y d hd e he
      exact ⟨m, hfind e.ino m hm, hp⟩
  case agree =>
    intro y m i hm hi
    obtain ⟨rfl, rfl⟩ | ⟨-, hm⟩ := hcases y m hm
    · exact absurd (h.usedCache _ i hi) hunused
    · exact h.agree y m i hm hi
  case counts =>
    intro hb y m hm hd hne
    obtain ⟨rfl, rfl⟩ | ⟨-, hm⟩ := hcases y m hm
    · have hsub : (s.addNode m).subdirs m = 0 := by rw [subdirs, hempty, total_nil]
      rw [hnlink, hd, hsub]
      simp [hsubdirs]
    · have hsub : (s.addNode n).subdirs m = s.subdirs m := by
        apply subdirs_congr
        intro e he
        rw [isDirIno, isDirIno, findNode_addNode, if_neg (Ne.symm (hentry y m hm e he))]
      rw [hsub]
      exact h.counts hb y m hm hd hne
  case fresh =>
    intro hb y m i hm hi hns
    obtain ⟨rfl, rfl⟩ | ⟨-, hm⟩ := hcases y m hm
    · exact absurd (h.usedCache _ i hi) hunused
    · exact h.fresh hb y m i hm hi hns

end Six.Tmpfs.TmpfsSb
