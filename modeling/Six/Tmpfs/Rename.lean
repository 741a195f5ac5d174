import Six.Tmpfs.Operations

/-! `tmpfs_rename` keeps the invariant.  Exact counts need renames of a directory over another one
of the same directory to be left out. -/

namespace Six.Tmpfs.TmpfsSb

open Lib Ledger Table TmpfsSb Dirent

variable {b : Bool} {s : TmpfsSb} {w w' : Ledger} {x y z oldDir newDir : UInt32}
  {n src dst odnode ndnode : Node} {c : Caller} {oldName newName : Name} {a : Attr}

def HasAttr (s : TmpfsSb) (z : UInt32) (a : Attr) : Prop :=
  ∃ m, s.findNode z = some m ∧ m.attr = a

theorem hasAttr_of_findNode (h : s.findNode z = some n) : s.HasAttr z n.attr := ⟨n, h, rfl⟩

section

variable (h : s.HasAttr z a)
include h

theorem HasAttr.modifyNode (hino : ∀ m, (f m).ino = m.ino)
    (hattr : ∀ m, (f m).attr = m.attr) : (s.modifyNode x f).HasAttr z a := by
  obtain ⟨m, hm, rfl⟩ := h
  refine ⟨if z = x then f m else m, ?_, ?_⟩
  · rw [findNode_modifyNode hino, hm]
    split_ifs <;> rfl
  · split_ifs
    · exact hattr m
    · rfl

theorem HasAttr.setEntries (k : List Dirent → List Dirent) : (s.setEntries x k).HasAttr z a := by
  apply h.modifyNode <;> exact fun _ => rfl

theorem HasAttr.setParent (p : UInt32) :
    (s.modifyNode x fun m => { m with parentIno := p }).HasAttr z a := by
  apply h.modifyNode <;> exact fun _ => rfl

theorem HasAttr.iget : (s.iget x).HasAttr z a := by
  obtain ⟨m, hm, hattr⟩ := h
  exact ⟨m, by rw [findNode_iget, hm], hattr⟩

theorem HasAttr.copyNlink : (s.copyNlink x).HasAttr z a := by
  obtain ⟨m, hm, hattr⟩ := h
  exact ⟨m, by rw [findNode_copyNlink, hm], hattr⟩

theorem HasAttr.setNlink_of_ne (hz : z ≠ x) (k : UInt16 → UInt16) :
    (s.setNlink x k).HasAttr z a := by
  obtain ⟨m, hm, hattr⟩ := h
  exact ⟨m, by rw [findNode_setNlink_of_ne hz, hm], hattr⟩

theorem HasAttr.iput_of_ne (hz : z ≠ x) : (s.iput x).HasAttr z a := by
  obtain ⟨m, hm, hattr⟩ := h
  exact ⟨m, by rw [findNode_iput_of_ne hz, hm], hattr⟩

end

theorem dropLink_ne_max (h : k ≠ 0xffff) : dropLink 2 k ≠ 0xffff := by
  unfold dropLink
  split_ifs with hgt
  · intro heq
    have hlt : 2 < k.toNat := UInt16.lt_iff_toNat_lt.mp hgt
    have hdrop := toNat_dropLink (a := 2) hlt
    rw [dropLink, if_pos hgt, heq] at hdrop
    have := k.toNat_lt
    have hmax : (0xffff : UInt16).toNat = 65535 := rfl
    omega
  · exact h

theorem Inv.links_le_one (h : Inv b s w) (hx : s.findNode x = some n) (hd : n.isDir = true)
    (howed : w.owed x = 0) : s.links x ≤ 1 := by
  have hdir := h.dir x n hx hd
  rw [howed] at hdir
  obtain ⟨-, -, hcount, -⟩ | ⟨-, hcount⟩ := hdir
  · omega
  · unfold linksOfDir at hcount
    split_ifs at hcount <;> omega

theorem Inv.moveParent (h : Inv b s w) (hsrc : s.findNode src.ino = some n)
    (hd : n.isDir = true) (hkind : src.isDir = true) (hne : oldDir ≠ newDir)
    (hold : s.HasAttr oldDir ao) (hod : sIsdir ao.mode = true) (holdTwo : 2 ≤ ao.nlink.toNat)
    (hnew : s.HasAttr newDir an) (hnd : sIsdir an.mode = true) (hnewTwo : 2 ≤ an.nlink.toNat)
    (hroom : an.nlink ≠ 0xffff) (hnamed : ∀ m, s.findNode newDir = some m → 0 < m.names src.ino)
    (howed : w.owed = 0) (hmoving : w.moving = {src.ino}) (hexact : b = true → 2 < ao.nlink.toNat)
    (hsub : b = true → w.subdirs = Pi.single newDir (-1) + Pi.single oldDir 1)
    (hstale : b = true → w.stale ⊆ {newDir}) :
    Inv b (s.moveParent oldDir newDir src) { pins := w.pins } := by
  obtain ⟨nd, hnd0, hattr0⟩ := hnew
  have hle := h.links_le_one hsrc hd (by rw [howed]; rfl)
  have h1 := h.setParent hsrc (h.used newDir nd hnd0).1 (by
    intro y d hd' e he hino
    by_contra hy
    have hpos : 0 < d.names src.ino := hino ▸ names_pos he
    have := two_le_links hy hd' hnd0 hpos (hnamed nd hnd0)
    omega)
  -- the old parent
  obtain ⟨od1, hod1, hoa1⟩ := hold.setParent (x := src.ino) newDir
  have hoddir : od1.isDir = true := by rw [Node.isDir, hoa1, hod]
  have h2 := h1.setDirNlink hod1 hoddir (by rw [hoa1]; exact ne_zero_of_two_le holdTwo)
    (dropLink 2) (by rw [hoa1]; exact two_le_dropLink holdTwo)
  -- the new parent
  obtain ⟨nd2, hnd2, hna2⟩ :=
    ((hasAttr_of_findNode hnd0).setParent (x := src.ino) newDir).setNlink_of_ne (Ne.symm hne)
      (dropLink 2)
  have hna : nd2.attr = an := hna2.trans hattr0
  have hnddir : nd2.isDir = true := by rw [Node.isDir, hna, hnd]
  have hone := toNat_add_one hroom
  have h3 := h2.setDirNlink hnd2 hnddir (by rw [hna]; exact ne_zero_of_two_le hnewTwo)
    (· + 1) (by rw [hna]; omega)
  -- both inodes
  have hod3 := findNode_setNlink hod1 (dropLink 2)
  have h4 := h3.copyDirNlink (x := oldDir) (n := od1.withNlink (dropLink 2 od1.attr.nlink))
    (by rw [findNode_setNlink_of_ne hne, hod3]) hoddir
  have h5 := h4.copyDirNlink (x := newDir) (n := nd2.withNlink (nd2.attr.nlink + 1))
    (by rw [findNode_copyNlink, findNode_setNlink hnd2]) hnddir
  unfold TmpfsSb.moveParent
  rw [if_pos ⟨hkind, hne⟩]
  apply h5.settle
  · exact howed.symm
  · show ∅ = w.moving \ {src.ino}
    ext z
    simp [hmoving]
  · rfl
  · intro hb
    have hdrop := toNat_dropLink_two (hexact hb)
    funext z
    simp only [dropStale_subdirs, addStale_subdirs, overcount_subdirs,
      dropMoving_subdirs, hsub hb, hoa1, hna, hdrop, hone, Pi.add_apply, Pi.single_apply,
      Pi.zero_apply]
    grind
  · intro hb
    show ∅ = (insert newDir (insert oldDir w.stale) \ {oldDir}) \ {newDir}
    ext z
    have := hstale hb (a := z)
    simp only [Set.mem_empty_iff_false, Set.mem_sdiff, Set.mem_insert_iff, Set.mem_singleton_iff]
    tauto

/-- What `tmpfs_rename` has found when it starts to change entries: the two directories, the entry
that is renamed and the node that it names. -/
structure Renaming (s : TmpfsSb) (oldDir : UInt32) (oldName : Name) (newDir : UInt32)
    (newName : Name) (odnode ndnode : Node) (oldDe : Dirent) (src : Node) : Prop where
  old : s.findNode oldDir = some odnode
  new : s.findNode newDir = some ndnode
  newIsDir : ndnode.isDir = true
  newLive : ndnode.attr.nlink ≠ 0
  newRoom : ndnode.attr.nlink ≠ 0xffff
  entry : odnode.findDirent oldName = some oldDe
  source : s.findNode oldDe.ino = some src
  other : ¬(oldDir = newDir ∧ oldName = newName)

variable {oldDe newDe : Dirent}

theorem Inv.two_le_nlink (h : Inv b s w) (hx : s.findNode x = some n) (hd : n.isDir = true)
    (hlive : n.attr.nlink ≠ 0) : 2 ≤ n.attr.nlink.toNat := by
  obtain ⟨hz, -⟩ | ⟨htwo, -⟩ := h.dir x n hx hd
  · exact absurd hz hlive
  · exact htwo

/-- The parent that a directory records is about to change when the directory gets another one. -/
def startLedger (w : Ledger) (oldDir newDir : UInt32) (src : Node) : Ledger :=
  if src.isDir ∧ oldDir ≠ newDir then w.addMoving src.ino else w

theorem Inv.startRename (h : Inv b s w) (oldDir newDir : UInt32) (src : Node) :
    Inv b s (startLedger w oldDir newDir src) := by
  unfold startLedger
  split_ifs
  · exact h.startMoving src.ino
  · exact h

theorem startLedger_owed : (startLedger w oldDir newDir src).owed = w.owed := by
  unfold startLedger
  split_ifs <;> rfl

theorem startLedger_stale : (startLedger w oldDir newDir src).stale = w.stale := by
  unfold startLedger
  split_ifs <;> rfl

section

variable (hr : Renaming s oldDir oldName newDir newName odnode ndnode oldDe src)
  {k : List Dirent → List Dirent}

include hr

theorem Renaming.src_ino : src.ino = oldDe.ino := ino_of_findNode hr.source

theorem Renaming.source_self : s.findNode src.ino = some src := by rw [hr.src_ino, hr.source]

theorem Renaming.mem : oldDe ∈ odnode.entries := mem_of_findDirent hr.entry

theorem Renaming.parent (h : Inv b s w) (hmoving : w.moving = ∅) (hd : src.isDir = true)
    (hnot : src.ino ∉ (startLedger w oldDir newDir src).moving) : src.parentIno = newDir := by
  obtain ⟨m, hm, hp⟩ := h.entry oldDir odnode hr.old oldDe hr.mem
  obtain rfl := Option.some.inj (hm.symm.trans hr.source)
  rw [hp hd (by rw [hmoving]; exact Set.notMem_empty _)]
  by_contra hne
  apply hnot
  rw [startLedger, if_pos ⟨hd, hne⟩]
  exact Set.mem_insert _ _

theorem Renaming.find_old
    (hk : oldName ≠ newName → find name (k odnode.entries) oldName = some oldDe) :
    ∃ m, (s.setEntries newDir k).findNode oldDir = some m ∧ m.attr = odnode.attr ∧
      m.findDirent oldName = some oldDe := by
  refine ⟨_, findNode_setEntries hr.old newDir k, ?_, ?_⟩
  · split_ifs <;> rfl
  · split_ifs with heq
    · exact hk fun hname => hr.other ⟨heq, hname⟩
    · exact hr.entry

theorem Renaming.removeOld (h : Inv b s w) (hset : Inv b (s.setEntries newDir k) w')
    (hk : oldName ≠ newName → find name (k odnode.entries) oldName = some oldDe) :
    Inv b ((s.setEntries newDir k).removeDirent oldDir oldName)
      ((w'.owe src.ino 1).overcount oldDir (s.dirWeight src.ino)) := by
  obtain ⟨hod, hlive⟩ := h.live_of_entry hr.old hr.mem
  obtain ⟨m, hm, hattr, hfind⟩ := hr.find_old hk
  have hremoved := hset.removeEntry hm (by rw [Node.isDir, hattr]; exact hod)
    (by rw [hattr]; exact hlive) hfind
  rw [dirWeight, isDirIno_setEntries] at hremoved
  rw [hr.src_ino]
  exact hremoved

theorem Renaming.addNew (h : Inv b s w) (hmoving : w.moving = ∅) :
    Inv b ((s.setEntries newDir (⟨newName, src.ino⟩ :: ·)).removeDirent oldDir oldName)
      (((startLedger w oldDir newDir src).overcount newDir (-s.dirWeight src.ino)).overcount oldDir
        (s.dirWeight src.ino)) := by
  have h1 := h.startRename oldDir newDir src
  have h2 := h1.addEntry hr.new hr.newIsDir hr.newLive newName hr.source_self (hr.parent h hmoving)
  have h3 := hr.removeOld h h2 fun hname => by
    exact (if_neg (Ne.symm hname)).trans hr.entry
  apply h3.settle
  · funext z
    simp only [overcount_owed, owe_owed, Pi.add_apply, Pi.single_apply]
    grind
  · rfl
  · rfl
  · exact fun _ => rfl
  · exact fun _ => rfl

theorem Renaming.redirectNew (h : Inv b s w) (hmoving : w.moving = ∅)
    (hde : ndnode.findDirent newName = some newDe) (hdst : s.findNode newDe.ino = some dst)
    (hkind : src.isDir = dst.isDir) :
    Inv b ((s.redirectDirent newDir newName src.ino).removeDirent oldDir oldName)
      (((startLedger w oldDir newDir src).owe dst.ino 1).overcount oldDir
        (s.dirWeight src.ino)) := by
  have h1 := h.startRename oldDir newDir src
  have h2 := h1.redirectEntry hr.new hr.newIsDir hr.newLive hde hr.source_self
    (by rw [isDirIno_eq hr.source_self, isDirIno_eq hdst, hkind]) (hr.parent h hmoving)
  have h3 := hr.removeOld h h2 fun hname => by
    rw [find_update_of_ne ?_ hname]
    · exact hr.entry
    · exact fun _ => rfl
  rw [ino_of_findNode hdst]
  apply h3.settle
  · funext z
    simp only [overcount_owed, owe_owed, Pi.add_apply, Pi.single_apply]
    grind
  · rfl
  · rfl
  · exact fun _ => rfl
  · exact fun _ => rfl

theorem Renaming.find_new (hne : oldDir ≠ newDir) (k k' : List Dirent → List Dirent) :
    ((s.setEntries newDir k).setEntries oldDir k').findNode newDir =
      some (ndnode.withEntries (k ndnode.entries)) := by
  rw [findNode_setEntries (findNode_setEntries hr.new newDir k), if_neg (Ne.symm hne), if_pos rfl]

theorem Renaming.weight : s.dirWeight src.ino = if src.isDir then 1 else 0 :=
  dirWeight_eq hr.source_self

section

variable (h : Inv b s w)
include h

theorem Renaming.two_lt (hsub : w.subdirs = 0) (hd : src.isDir = true)
    (hb : b = true) : 2 < odnode.attr.nlink.toNat := by
  subst hb
  exact h.two_lt_nlink hr.old hr.mem (by rw [isDirIno_eq hr.source, hd]) (by rw [hsub]; rfl)

theorem Renaming.moveEntry (hw : w = { pins := w.pins }) :
    Inv b (((s.setEntries newDir (⟨newName, src.ino⟩ :: ·)).removeDirent oldDir
      oldName).moveParent oldDir newDir src) w := by
  have hmoved := hr.addNew h (by rw [hw])
  obtain ⟨hod, hlive⟩ := h.live_of_entry hr.old hr.mem
  by_cases hmove : src.isDir = true ∧ oldDir ≠ newDir
  · obtain ⟨n, hn, hattr⟩ := ((hasAttr_of_findNode hr.source_self).setEntries (x := newDir)
      (⟨newName, src.ino⟩ :: ·)).setEntries (x := oldDir)
      fun es => erase name es oldName
    rw [hr.weight, if_pos hmove.1, startLedger, if_pos hmove] at hmoved
    rw [hw]
    apply hmoved.moveParent hn (by rw [Node.isDir, hattr]; exact hmove.1) hmove.1 hmove.2
    case hold => exact ((hasAttr_of_findNode hr.old).setEntries _).setEntries _
    case hod => exact hod
    case holdTwo => exact h.two_le_nlink hr.old hod hlive
    case hnew => exact ((hasAttr_of_findNode hr.new).setEntries _).setEntries _
    case hnd => exact hr.newIsDir
    case hnewTwo => exact h.two_le_nlink hr.new hr.newIsDir hr.newLive
    case hroom => exact hr.newRoom
    case hnamed =>
      intro m hm
      have hfind := hr.find_new hmove.2 (⟨newName, src.ino⟩ :: ·) fun es => erase name es oldName
      obtain rfl := Option.some.inj (hm.symm.trans hfind)
      exact names_pos (e := ⟨newName, src.ino⟩) List.mem_cons_self
    case howed => rw [hw]; rfl
    case hmoving => rw [hw]; simp [addMoving]
    case hexact => exact hr.two_lt h (by rw [hw]) hmove.1
    case hsub =>
      intro _
      rw [hw]
      simp [addMoving, overcount]
    case hstale => rw [hw]; exact fun _ => Set.empty_subset _
  · rw [moveParent, if_neg hmove]
    rw [startLedger, if_neg hmove] at hmoved
    apply hmoved.settle
    · rfl
    · rfl
    · rfl
    · intro _
      funext z
      have := hr.weight
      simp only [overcount_subdirs, Pi.add_apply, Pi.single_apply, this]
      grind
    · exact fun _ => rfl

theorem Renaming.replaceFile (hw : w = { pins := w.pins })
    (hde : ndnode.findDirent newName = some newDe) (hdst : s.findNode newDe.ino = some dst)
    (hsrc : src.isDir = false) (hd : dst.isDir = false) :
    Inv b ((s.replaceDirent oldDir oldName newDir newName src dst).moveParent oldDir newDir src)
      w := by
  have hmoved := hr.redirectNew h (by rw [hw]) hde hdst (by rw [hsrc, hd])
  obtain ⟨hod, -⟩ := h.live_of_entry hr.old hr.mem
  obtain ⟨hlinked, -⟩ := h.live_of_named hr.new (mem_of_findDirent hde) hdst (by rw [hw]; rfl)
  have hino : dst.ino = newDe.ino := ino_of_findNode hdst
  rw [← hino] at hdst
  obtain ⟨m, hm, hattr⟩ := (((hasAttr_of_findNode hdst).setEntries (x := newDir)
    fun es => update name es newName fun e => { e with ino := src.ino }).setEntries
    (x := oldDir) fun es => erase name es oldName).iget (x := dst.ino)
  have h1 := (hmoved.iget (h.used _ _ hdst).1).relinkFile hm
    (by rw [Node.isDir, hattr]; exact hd) (dropLink 0) fun _ => referenced_iget_self
  have hpos : (0 : UInt16).toNat < dst.attr.nlink.toNat :=
    Nat.pos_of_ne_zero fun hz => hlinked (UInt16.toNat_inj.mp hz)
  have hone : ((dst.attr.nlink.toNat - 1 : Nat) : Int) - dst.attr.nlink.toNat = -1 := by
    have : 0 < dst.attr.nlink.toNat := hpos
    omega
  rw [hattr, toNat_dropLink hpos, hone, startLedger, if_neg (by simp [hsrc])] at h1
  have h2 := h1.settle (w.pin dst.ino) ?_ rfl rfl ?_ fun _ => rfl
  · rw [moveParent, if_neg (by simp [hsrc]), replaceDirent]
    simp only [hd, Bool.false_eq_true, if_false]
    exact h2.iput (by rw [hw]; rfl) fun _ => by rw [hw]; exact Set.notMem_empty _
  · funext z
    simp only [pin_owed, owe_owed, overcount_owed, Pi.add_apply, Pi.single_apply]
    grind
  · intro _
    have := hr.weight
    funext z
    simp [this, hsrc]

/-- A directory that can be replaced holds no entry, so that it is neither of the two directories;
nor is it what is renamed. -/
theorem Renaming.ne_of_empty (howed : w.owed = 0)
    (hde : ndnode.findDirent newName = some newDe) (hdst : s.findNode newDe.ino = some dst)
    (hempty : dst.entries = []) : oldDir ≠ dst.ino ∧ newDir ≠ dst.ino ∧
      (src.isDir = true → oldDir ≠ newDir → src.ino ≠ dst.ino) := by
  rw [ino_of_findNode hdst]
  refine ⟨?_, ?_, ?_⟩
  · rintro rfl
    obtain rfl := Option.some.inj (hr.old.symm.trans hdst)
    have := hr.mem
    rw [hempty] at this
    cases this
  · rintro rfl
    obtain rfl := Option.some.inj (hr.new.symm.trans hdst)
    have := mem_of_findDirent hde
    rw [hempty] at this
    cases this
  · intro hd hne heq
    have hle := h.links_le_one hr.source_self hd (by rw [howed]; rfl)
    have hold : 0 < odnode.names src.ino := hr.src_ino ▸ names_pos hr.mem
    have hnew : 0 < ndnode.names src.ino := heq ▸ names_pos (mem_of_findDirent hde)
    have := two_le_links hne hr.old hr.new hold hnew
    omega

theorem Renaming.dropDst (hw : w = { pins := w.pins })
    (hde : ndnode.findDirent newName = some newDe) (hdst : s.findNode newDe.ino = some dst)
    (hsrc : src.isDir = true) (hd : dst.isDir = true) (hempty : dst.entries = []) :
    Inv b (s.replaceDirent oldDir oldName newDir newName src dst)
      ((((startLedger w oldDir newDir src).overcount newDir (-1)).overcount oldDir 1).addStale
        newDir) := by
  have hmoved := hr.redirectNew h (by rw [hw]) hde hdst (by rw [hsrc, hd])
  obtain ⟨hlinked, hroot⟩ := h.live_of_named hr.new (mem_of_findDirent hde) hdst (by rw [hw]; rfl)
  obtain ⟨hodst, hndst, -⟩ := hr.ne_of_empty h (by rw [hw]) hde hdst hempty
  have hnewTwo := h.two_le_nlink hr.new hr.newIsDir hr.newLive
  have hlt : b = true → 2 < ndnode.attr.nlink.toNat := by
    rintro rfl
    exact h.two_lt_nlink hr.new (mem_of_findDirent hde) (by rw [isDirIno_eq hdst, hd])
      (by rw [hw]; rfl)
  have hino : dst.ino = newDe.ino := ino_of_findNode hdst
  rw [← hino] at hdst hroot
  unfold replaceDirent
  simp only [hd, if_true]
  have hfind : ((s.redirectDirent newDir newName src.ino).removeDirent oldDir oldName).findNode
      dst.ino = some dst := by
    rw [removeDirent, findNode_setEntries (n := dst), if_neg (Ne.symm hodst)]
    rw [redirectDirent, findNode_setEntries hdst, if_neg (Ne.symm hndst)]
  have hnew := ((hasAttr_of_findNode hr.new).setEntries (x := newDir) fun es =>
    update name es newName fun e => { e with ino := src.ino }).setEntries (x := oldDir)
    fun es => erase name es oldName
  have h1 := (hmoved.iget (h.used _ _ hdst).1).zeroDir (by rw [findNode_iget, hfind]) hd hroot
    hlinked hempty referenced_iget_self
  obtain ⟨nd, hnd, hattr⟩ := (hnew.iget (x := dst.ino)).setNlink_of_ne hndst fun _ => 0
  have h2 := h1.setDirNlink (by rw [findNode_copyNlink]; exact hnd)
    (by rw [Node.isDir, hattr]; exact hr.newIsDir) (by rw [hattr]; exact hr.newLive) (dropLink 2)
    (by rw [hattr]; exact two_le_dropLink hnewTwo)
  have h3 := h2.settle (((((startLedger w oldDir newDir src).overcount newDir (-1)).overcount
    oldDir 1).addStale newDir).pin dst.ino) ?_ rfl rfl ?_ fun _ => rfl
  · apply h3.iput
    · show (startLedger w oldDir newDir src).owed dst.ino = 0
      rw [startLedger_owed, hw]
      rfl
    · intro _
      show dst.ino ∉ insert newDir (startLedger w oldDir newDir src).stale
      rw [startLedger_stale, hw]
      simpa using Ne.symm hndst
  · funext z
    simp only [addStale_owed, pin_owed, owe_owed, overcount_owed, Pi.add_apply, Pi.single_apply]
    grind
  · intro hb
    have hweight := hr.weight
    have hdrop := toNat_dropLink_two (hlt hb)
    funext z
    simp only [addStale_subdirs, pin_subdirs, owe_subdirs,
      overcount_subdirs, Pi.add_apply, Pi.single_apply, hweight, hsrc, if_true, hattr, hdrop]
    grind

end

theorem Renaming.find_new_replaceDirent (hne : oldDir ≠ newDir) (hndst : newDir ≠ dst.ino)
    (hd : dst.isDir = true) :
    (s.replaceDirent oldDir oldName newDir newName src dst).findNode newDir =
      some ((ndnode.withEntries (update name ndnode.entries newName
        fun e => { e with ino := src.ino })).withNlink (dropLink 2 ndnode.attr.nlink)) := by
  unfold replaceDirent
  simp only [hd, if_true]
  rw [findNode_iput_of_ne hndst, findNode_setNlink (n := ndnode.withEntries
    (update name ndnode.entries newName fun e => { e with ino := src.ino }))]
  · rfl
  · rw [findNode_copyNlink, findNode_setNlink_of_ne hndst, findNode_iget]
    exact hr.find_new hne _ _

omit hr in
theorem HasAttr.replaceDirent (hz : s.HasAttr z a) (hdst : z ≠ dst.ino)
    (hnd : z ≠ newDir) (hd : dst.isDir = true) (oldDir : UInt32) (oldName newName : Name)
    (src : Node) : (s.replaceDirent oldDir oldName newDir newName src dst).HasAttr z a := by
  unfold TmpfsSb.replaceDirent
  simp only [hd, if_true]
  apply HasAttr.iput_of_ne _ hdst
  apply HasAttr.setNlink_of_ne _ hnd
  apply HasAttr.copyNlink
  apply HasAttr.setNlink_of_ne _ hdst
  exact ((hz.setEntries _).setEntries _).iget

theorem Renaming.replaceDir (h : Inv b s w) (hw : w = { pins := w.pins })
    (hde : ndnode.findDirent newName = some newDe) (hdst : s.findNode newDe.ino = some dst)
    (hsrc : src.isDir = true) (hd : dst.isDir = true) (hempty : dst.entries = [])
    (hexact : b = true → oldDir ≠ newDir) :
    Inv b ((s.replaceDirent oldDir oldName newDir newName src dst).moveParent oldDir newDir src)
      w := by
  have hmoved := hr.dropDst h hw hde hdst hsrc hd hempty
  obtain ⟨hod, hlive⟩ := h.live_of_entry hr.old hr.mem
  obtain ⟨hodst, hndst, hsdst⟩ := hr.ne_of_empty h (by rw [hw]) hde hdst hempty
  by_cases hne : oldDir = newDir
  · -- the count of the inode of the directory is left out of date
    rw [moveParent, if_neg fun hmove => hmove.2 hne]
    rw [startLedger, if_neg fun hmove => hmove.2 hne] at hmoved
    apply hmoved.settle
    · rfl
    · rfl
    · rfl
    · exact fun hb => absurd hne (hexact hb)
    · exact fun hb => absurd hne (hexact hb)
  · rw [startLedger, if_pos ⟨hsrc, hne⟩] at hmoved
    have hfind := hr.find_new_replaceDirent hne hndst hd
    obtain ⟨m, hm, hmdir⟩ : ∃ m, (s.replaceDirent oldDir oldName newDir newName src dst).findNode
        src.ino = some m ∧ m.isDir = true := by
      by_cases hself : src.ino = newDir
      · rw [hself]
        exact ⟨_, hfind, hr.newIsDir⟩
      · obtain ⟨m, hm, hattr⟩ := (hasAttr_of_findNode hr.source_self).replaceDirent
          (hsdst hsrc hne) hself hd oldDir oldName newName src
        exact ⟨m, hm, by rw [Node.isDir, hattr]; exact hsrc⟩
    rw [hw]
    apply hmoved.moveParent hm hmdir hsrc hne
    case hold => exact (hasAttr_of_findNode hr.old).replaceDirent hodst hne hd _ _ _ _
    case hod => exact hod
    case holdTwo => exact h.two_le_nlink hr.old hod hlive
    case hnew => exact hasAttr_of_findNode hfind
    case hnd => exact hr.newIsDir
    case hnewTwo => exact two_le_dropLink (h.two_le_nlink hr.new hr.newIsDir hr.newLive)
    case hroom => exact dropLink_ne_max hr.newRoom
    case hnamed =>
      intro m' hm'
      obtain rfl := Option.some.inj (hm'.symm.trans hfind)
      have hnames := names_redirect hde src.ino src.ino
      have hother : newDe.ino ≠ src.ino := ino_of_findNode hdst ▸ Ne.symm (hsdst hsrc hne)
      rw [if_neg hother, if_pos rfl] at hnames
      have hsame : ∀ (d : Node) (k : UInt16), (d.withNlink k).names src.ino = d.names src.ino :=
        fun _ _ => rfl
      rw [hsame]
      omega
    case howed => rw [hw]; rfl
    case hmoving => rw [hw]; simp [addMoving]
    case hexact => exact hr.two_lt h (by rw [hw]) hsrc
    case hsub =>
      intro _
      rw [hw]
      simp [addMoving, overcount, addStale]
    case hstale =>
      intro _
      rw [hw]
      simp [addMoving, overcount, addStale]

end

theorem checkReplaced_eq_zero (h : checkReplaced c ndnode src dst = 0) :
    src.isDir = dst.isDir ∧ (dst.isDir = true → dst.entries = []) := by
  have hnotdir : -Errno.enotdir ≠ 0 := by decide
  have hisdir : -Errno.eisdir ≠ 0 := by decide
  have hnotempty : -Errno.enotempty ≠ 0 := by decide
  unfold checkReplaced at h
  split_ifs at h with hsticky hdir hfile hempty
  · exact absurd h hsticky
  · exact absurd h hnotdir
  · exact absurd h hisdir
  · exact absurd h hnotempty
  · revert hdir hfile hempty
    cases src.isDir <;> cases dst.isDir <;> simp

/-- The new directory of a rename takes an entry, and a directory does not replace another one in
the directory that it is in. -/
structure RenameGuard (b : Bool) (s : TmpfsSb) (oldDir : UInt32) (oldName : Name) (newDir : UInt32)
    (newName : Name) : Prop where
  live : s.Live newDir
  room : s.Unsaturated newDir
  apart : b = true → oldDir = newDir → oldName ≠ newName → ∀ n oldDe newDe,
    s.findNode newDir = some n → n.findDirent oldName = some oldDe →
    n.findDirent newName = some newDe → s.isDirIno oldDe.ino = true → s.isDirIno newDe.ino = false

theorem Renaming.renameEntry
    (hr : Renaming s oldDir oldName newDir newName odnode ndnode oldDe src) (h : Inv b s w)
    (hw : w = { pins := w.pins }) (hguard : RenameGuard b s oldDir oldName newDir newName) :
    Inv b (s.renameEntry c oldDir oldName newDir newName ndnode src).2 w := by
  unfold TmpfsSb.renameEntry
  cases hde : ndnode.findDirent newName with
  | none =>
    obtain ⟨hne, -⟩ | hadd := addDirent_cases s c newDir newName src.ino
    · rw [if_pos hne]
      exact h
    · rw [hadd]
      exact hr.moveEntry h hw
  | some newDe =>
    dsimp only
    cases hdst : s.findNode newDe.ino with
    | none => exact h
    | some dst =>
      dsimp only
      split_ifs with hcheck
      · exact h
      · obtain ⟨hkind, hempty⟩ := checkReplaced_eq_zero (not_not.mp hcheck)
        cases hd : dst.isDir with
        | false => exact hr.replaceFile h hw hde hdst (hkind.trans hd) hd
        | true =>
          apply hr.replaceDir h hw hde hdst (hkind.trans hd) hd (hempty hd)
          intro hb heq
          have hname : oldName ≠ newName := fun hn => hr.other ⟨heq, hn⟩
          have hnode : odnode = ndnode := by
            have hold := hr.old
            rw [heq, hr.new] at hold
            exact (Option.some.inj hold).symm
          have hfile := hguard.apart hb heq hname ndnode oldDe newDe hr.new (hnode ▸ hr.entry) hde
            (by rw [isDirIno_eq hr.source, hkind, hd])
          rw [isDirIno_eq hdst, hd] at hfile
          cases hfile

theorem Inv.tmpfsRename (h : Inv b s ((zero.pin oldDir).pin newDir))
    (hnew : s.isDirIno newDir = true) (hguard : RenameGuard b s oldDir oldName newDir newName)
    (mustBeDir : Bool) :
    Inv b (s.tmpfsRename c oldDir oldName newDir newName mustBeDir).2 .zero := by
  have hback : ∀ t, Inv b t ((zero.pin oldDir).pin newDir) →
      Inv b ((t.iput oldDir).iput newDir) .zero := by
    intro t ht
    have hswap : (zero.pin oldDir).pin newDir = (zero.pin newDir).pin oldDir := by
      simp [pin, Nat.add_comm]
    rw [hswap] at ht
    exact ht.putBoth
  have hput := hback s h
  obtain ⟨ndnode, hnd, hndir⟩ := exists_of_isDirIno hnew
  unfold TmpfsSb.tmpfsRename
  rw [hnd]
  cases hod : s.findNode oldDir with
  | none => exact hput
  | some odnode =>
    dsimp only
    cases hde : odnode.findDirent oldName with
    | none => exact hput
    | some oldDe =>
      dsimp only
      cases hsrc : s.findNode oldDe.ino with
      | none => exact hput
      | some src =>
        dsimp only
        split_ifs with hmust hsticky hsame
        · exact hput
        · exact hput
        · exact hput
        · apply hback
          have hr : Renaming s oldDir oldName newDir newName odnode ndnode oldDe src :=
            ⟨hod, hnd, hndir, hguard.live _ hnd, hguard.room _ hnd, hde, hsrc, hsame⟩
          exact hr.renameEntry h rfl hguard

end Six.Tmpfs.TmpfsSb
