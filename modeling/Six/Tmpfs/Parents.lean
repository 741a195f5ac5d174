import Six.Tmpfs.Runs

/-! What the operations of tmpfs leave alone: the kinds of the nodes, the parents that they record,
and the set of nodes that some entry names.  `Kept P N s t` says this of two mounts, up to the
parents of the nodes in `P` and up to new names for the nodes in `N`. -/

namespace Six.Tmpfs.TmpfsSb

open Lib Table TmpfsSb

def Edge (s : TmpfsSb) (d x : UInt32) : Prop :=
  ∃ n, s.findNode d = some n ∧ ∃ e ∈ n.entries, e.ino = x

def Named (s : TmpfsSb) (x : UInt32) : Prop := ∃ d, s.Edge d x

/-- Numbers of nodes are unique, and a cached inode is of the kind of its node. -/
structure Sound (s : TmpfsSb) : Prop where
  keys : (s.nodes.map Node.ino).Nodup
  modes : ∀ x n i, s.findNode x = some n → s.icache x = some i → i.attr.mode = n.attr.mode

/-- From a sound mount, `t` is sound, its nodes are of the kind and have the parent that they had in
`s`, and what its entries name was named in `s`. -/
structure Kept (P N : Set UInt32) (s t : TmpfsSb) : Prop where
  sound : s.Sound → t.Sound
  node : s.Sound → ∀ x n', t.findNode x = some n' → x ∉ P → ∃ n, s.findNode x = some n ∧
    n'.attr.mode = n.attr.mode ∧ n'.parentIno = n.parentIno
  named : s.Sound → ∀ x, t.Named x → s.Named x ∨ x ∈ N

variable {b : Bool} {P N : Set UInt32} {s t u : TmpfsSb} {w : Ledger} {x y : UInt32} {n : Node}
  {c : Caller} {dir : UInt32} {name : Name} {old : UInt32}

theorem Inv.sound (h : Inv b s w) : s.Sound where
  keys := h.keys
  modes := by
    intro x n i hx hi
    rw [(h.agree x n i hx hi).same]

theorem Kept.refl (P N : Set UInt32) (s : TmpfsSb) : Kept P N s s where
  sound := id
  node := fun _ _ n hn _ => ⟨n, hn, rfl, rfl⟩
  named := fun _ _ h => .inl h

theorem Kept.trans (h1 : Kept P N s t) (h2 : Kept P N t u) : Kept P N s u where
  sound := fun h => h2.sound (h1.sound h)
  node := by
    intro h x n'' hn'' hx
    obtain ⟨n', hn', hmode', hpar'⟩ := h2.node (h1.sound h) x n'' hn'' hx
    obtain ⟨n, hn, hmode, hpar⟩ := h1.node h x n' hn' hx
    exact ⟨n, hn, hmode'.trans hmode, hpar'.trans hpar⟩
  named := by
    intro h x hx
    rcases h2.named (h1.sound h) x hx with hold | hin
    · exact h1.named h x hold
    · exact .inr hin

theorem Kept.modifyNode (hino : ∀ m, (f m).ino = m.ino)
    (hmode : ∀ m, (f m).attr.mode = m.attr.mode)
    (hparent : x ∈ P ∨ ∀ m, (f m).parentIno = m.parentIno)
    (hentries : ∀ m, ∀ e ∈ (f m).entries, e.ino ∈ N ∨ ∃ e' ∈ m.entries, e'.ino = e.ino) :
    Kept P N s (s.modifyNode x f) where
  sound := by
    intro h
    refine ⟨by rw [modifyNode_keys hino]; exact h.keys, ?_⟩
    intro y n' i hn' hi
    obtain ⟨n, hn, rfl⟩ := findNode_of_modifyNode hino hn'
    rw [h.modes y n i hn hi]
    split_ifs
    · exact (hmode n).symm
    · rfl
  node := by
    intro _ y n' hn' hy
    obtain ⟨n, hn, rfl⟩ := findNode_of_modifyNode hino hn'
    refine ⟨n, hn, ?_, ?_⟩
    · split_ifs
      · exact hmode n
      · rfl
    · split_ifs with heq
      · exact hparent.resolve_left (heq ▸ hy) n
      · rfl
  named := by
    rintro _ y ⟨d, n', hn', e, he, rfl⟩
    obtain ⟨n, hn, rfl⟩ := findNode_of_modifyNode hino hn'
    split_ifs at he
    · rcases hentries n e he with hin | ⟨e', he', hsame⟩
      · exact .inr hin
      · exact .inl ⟨d, n, hn, e', he', hsame⟩
    · exact .inl ⟨d, n, hn, e, he, rfl⟩

theorem Kept.modifyInode (hmode : ∀ i, (g i).attr.mode = i.attr.mode) :
    Kept P N s (s.modifyInode x g) where
  sound := by
    intro h
    refine ⟨h.keys, ?_⟩
    intro y n i' hn hi'
    obtain ⟨i, hi, rfl⟩ := icache_of_modifyInode hi'
    rw [← h.modes y n i hn hi]
    split_ifs
    · exact hmode i
    · rfl
  node := fun _ _ n hn _ => ⟨n, hn, rfl, rfl⟩
  named := fun _ _ h => .inl h

theorem kept_setNlink (k : UInt16 → UInt16) : Kept P N s (s.setNlink x k) := by
  apply Kept.modifyNode
  · exact fun _ => rfl
  · exact fun _ => rfl
  · exact .inr fun _ => rfl
  · exact fun m e he => .inr ⟨e, he, rfl⟩

theorem kept_copyNlink : Kept P N s (s.copyNlink x) := by
  unfold copyNlink
  cases s.findNode x with
  | none => exact .refl ..
  | some n => exact .modifyInode fun _ => rfl

theorem kept_setEntries (hk : ∀ es, ∀ e ∈ k es, e.ino ∈ N ∨ ∃ e' ∈ es, e'.ino = e.ino) :
    Kept P N s (s.setEntries x k) := by
  apply Kept.modifyNode
  · exact fun _ => rfl
  · exact fun _ => rfl
  · exact .inr fun _ => rfl
  · exact fun m e he => hk m.entries e he

theorem kept_removeDirent : Kept P N s (s.removeDirent x name) :=
  kept_setEntries fun _ e he => .inr ⟨e, mem_of_mem_erase he, rfl⟩

theorem kept_addDirent (hy : y ∈ N) : Kept P N s (s.setEntries x (⟨name, y⟩ :: ·)) := by
  apply kept_setEntries
  intro es e he
  rcases List.mem_cons.mp he with rfl | hold
  · exact .inl hy
  · exact .inr ⟨e, hold, rfl⟩

theorem kept_redirectDirent (hy : y ∈ N) : Kept P N s (s.redirectDirent x name y) := by
  apply kept_setEntries
  intro es e he
  rcases mem_update he with hold | ⟨e', -, rfl⟩
  · exact .inr ⟨e, hold, rfl⟩
  · exact .inl hy

theorem kept_iget : Kept P N s (s.iget x) where
  sound := by
    intro h
    refine ⟨by rw [iget_eq]; exact h.keys, ?_⟩
    intro y n i hn hi
    rw [findNode_iget] at hn
    by_cases hy : y = x
    · subst hy
      rw [icache_iget_self] at hi
      obtain rfl := Option.some.inj hi
      unfold gotten
      cases hc : s.icache y with
      | none => simp [hn]
      | some j => exact h.modes y n j hn hc
    · rw [icache_iget_of_ne hy] at hi
      exact h.modes y n i hn hi
  node := by
    intro _ y n hn _
    rw [findNode_iget] at hn
    exact ⟨n, hn, rfl, rfl⟩
  named := by
    rintro _ y ⟨d, n, hn, he⟩
    rw [findNode_iget] at hn
    exact .inl ⟨d, n, hn, he⟩

theorem kept_syncNodeFromInode (hi : s.icache x = some i) :
    Kept P N s (s.syncNodeFromInode x i) := by
  have hino : ∀ m : Node, ({ m with attr := i.attr } : Node).ino = m.ino := fun _ => rfl
  have hold : s.Sound → ∀ y n', (s.syncNodeFromInode x i).findNode y = some n' →
      ∃ n, s.findNode y = some n ∧ n'.attr.mode = n.attr.mode ∧ n'.parentIno = n.parentIno ∧
        n'.entries = n.entries := by
    intro h y n' hn'
    obtain ⟨n, hn, rfl⟩ := findNode_of_modifyNode hino hn'
    refine ⟨n, hn, ?_, ?_, ?_⟩ <;> split_ifs with hy
    · subst hy
      exact h.modes y n i hn hi
    all_goals rfl
  constructor
  case sound =>
    intro h
    refine ⟨by rw [syncNodeFromInode, modifyNode_keys hino]; exact h.keys, ?_⟩
    intro y n' j hn' hj
    obtain ⟨n, hn, hmode, -⟩ := hold h y n' hn'
    rw [hmode]
    exact h.modes y n j hn hj
  case node =>
    intro h y n' hn' _
    obtain ⟨n, hn, hmode, hpar, -⟩ := hold h y n' hn'
    exact ⟨n, hn, hmode, hpar⟩
  case named =>
    rintro h y ⟨d, n', hn', e, he, hey⟩
    obtain ⟨n, hn, -, -, hent⟩ := hold h d n' hn'
    exact .inl ⟨d, n, hn, e, hent ▸ he, hey⟩

theorem kept_destroyNode : Kept P N s (s.destroyNode x) := by
  unfold destroyNode
  by_cases hx : (s.findNode x).isSome = true
  case neg =>
    rw [if_neg hx]
    exact .refl ..
  rw [if_pos hx]
  have hold : s.Sound → ∀ y n, find Node.ino (erase Node.ino s.nodes x) y = some n →
      s.findNode y = some n := by
    intro h y n hn
    by_cases hy : y = x
    · subst hy
      rw [find_erase_self h.keys] at hn
      cases hn
    · rw [find_erase_of_ne hy] at hn
      exact hn
  constructor
  case sound =>
    intro h
    exact ⟨nodup_erase h.keys, fun y n i hn hi => h.modes y n i (hold h y n hn) hi⟩
  case node => exact fun h y n hn _ => ⟨n, hold h y n hn, rfl, rfl⟩
  case named =>
    rintro h y ⟨d, n, hn, he⟩
    exact .inl ⟨d, n, hold h d n hn, he⟩

theorem kept_clearInode : Kept P N s (s.clearInode x) where
  sound := fun h => ⟨h.keys, fun y n i hn hi => h.modes y n i hn (icache_of_clearInode hi).2⟩
  node := fun _ _ n hn _ => ⟨n, hn, rfl, rfl⟩
  named := fun _ _ h => .inl h

theorem kept_iput : Kept P N s (s.iput x) := by
  unfold iput
  cases hi : s.icache x with
  | none => exact .refl ..
  | some i =>
    dsimp only
    split_ifs
    · exact .refl ..
    · exact .modifyInode fun _ => rfl
    · exact (kept_syncNodeFromInode hi).trans (.modifyInode fun _ => rfl)
    · exact kept_destroyNode.trans kept_clearInode

theorem Kept.iput (h : Kept P N s t) : Kept P N s (t.iput x) := h.trans kept_iput
theorem Kept.iget (h : Kept P N s t) : Kept P N s (t.iget x) := h.trans kept_iget
theorem Kept.copyNlink (h : Kept P N s t) : Kept P N s (t.copyNlink x) := h.trans kept_copyNlink
theorem Kept.setNlink (h : Kept P N s t) (k : UInt16 → UInt16) : Kept P N s (t.setNlink x k) :=
  h.trans (kept_setNlink k)
theorem Kept.removeDirent (h : Kept P N s t) : Kept P N s (t.removeDirent x name) :=
  h.trans kept_removeDirent

theorem kept_tmpfsLookup : Kept P N s (s.tmpfsLookup dir name).state := by
  have hput : Kept P N s (s.iput dir) := kept_iput
  unfold tmpfsLookup
  cases s.findNode dir with
  | none => exact hput
  | some dnode =>
    dsimp only
    split_ifs
    · exact kept_iget.iput
    · exact hput
    · exact hput.iget
    · exact hput
    · exact hput.iget

theorem kept_tmpfsUnlink : Kept P N s (s.tmpfsUnlink c dir name).2 := by
  have hput : Kept P N s (s.iput dir) := kept_iput
  unfold tmpfsUnlink
  cases s.findNode dir with
  | none => exact hput
  | some dnode =>
    dsimp only
    cases dnode.findDirent name with
    | none => exact hput
    | some de =>
      dsimp only
      cases s.findNode de.ino with
      | none => exact hput
      | some target =>
        dsimp only
        split_ifs
        · exact hput
        · exact hput
        · exact ((kept_removeDirent.iget.setNlink _).copyNlink).iput.iput

theorem kept_tmpfsRmdir : Kept P N s (s.tmpfsRmdir c dir name).2 := by
  have hput : Kept P N s (s.iput dir) := kept_iput
  unfold tmpfsRmdir
  cases s.findNode dir with
  | none => exact hput
  | some dnode =>
    dsimp only
    cases dnode.findDirent name with
    | none => exact hput
    | some de =>
      dsimp only
      cases s.findNode de.ino with
      | none => exact hput
      | some target =>
        dsimp only
        split_ifs
        · exact hput
        · exact hput
        · exact hput
        · exact hput
        · exact kept_iget.iput.iput
        · exact (((kept_iget.removeDirent.setNlink _).copyNlink.setNlink _).copyNlink).iput.iput

theorem kept_tmpfsLink (hold : old ∈ N) : Kept P N s (s.tmpfsLink c old dir name).2 := by
  have hback : ∀ t, Kept P N s t → Kept P N s ((t.iput dir).iput old) := fun t ht => ht.iput.iput
  unfold tmpfsLink
  split_ifs
  · exact hback _ (.refl ..)
  · cases s.findNode dir with
    | none => exact hback _ (.refl ..)
    | some dnode =>
      cases ho : s.findNode old with
      | none => exact hback _ (.refl ..)
      | some onode =>
        dsimp only
        rw [ino_of_findNode ho]
        by_cases hexists : (dnode.findDirent name).isSome = true
        · rw [if_pos hexists]
          exact hback _ (.refl ..)
        · rw [if_neg hexists]
          obtain ⟨hne, -⟩ | hadd := addDirent_cases s c dir name old
          · rw [if_pos hne]
            exact hback _ (.refl ..)
          · rw [hadd]
            exact hback _ (((kept_addDirent hold).setNlink _).copyNlink)

theorem kept_tmpfsLink_of_dir (hs : s.Sound) (href : s.Referenced old)
    (hdir : s.isDirIno old = true) : Kept P N s (s.tmpfsLink c old dir name).2 := by
  obtain ⟨n, hn, hd⟩ := exists_of_isDirIno hdir
  obtain ⟨i, hi, -⟩ := href
  have hkind : (s.icache old).any (fun i => sIsdir i.attr.mode) = true := by
    rw [hi]
    show sIsdir i.attr.mode = true
    rw [hs.modes old n i hn hi]
    exact hd
  unfold tmpfsLink
  rw [if_pos hkind]
  exact kept_iput.iput

theorem kept_evict (h : s.evict x = some t) : Kept P N s t := by
  unfold evict at h
  cases hi : s.icache x with
  | none =>
    rw [hi] at h
    cases h
  | some i =>
    rw [hi] at h
    obtain ⟨-, ⟨⟩⟩ := Option.ite_none_right_eq_some.mp h
    exact kept_clearInode

/-- Like `Kept`, but for the node `x`, which has the parent `p` in `t`. -/
structure Adopted (x p : UInt32) (s t : TmpfsSb) : Prop where
  kept : Kept {x} {x} s t
  parent : s.Sound → ∀ n, t.findNode x = some n → n.parentIno = p

theorem Kept.mono (h : Kept ∅ N s t) : Kept P N s t where
  sound := h.sound
  node := fun hs y n hn _ => h.node hs y n hn (Set.notMem_empty y)
  named := h.named

theorem Adopted.trans (h1 : Adopted x p s t) (h2 : Kept ∅ {x} t u) :
    Adopted x p s u where
  kept := h1.kept.trans h2.mono
  parent := by
    intro hs n' hn'
    obtain ⟨n, hn, -, hpar⟩ := h2.node (h1.kept.sound hs) x n' hn' (Set.notMem_empty x)
    rw [hpar]
    exact h1.parent hs n hn

theorem adopted_addNode (hfind : s.findNode n.ino = none) (hcache : s.icache n.ino = none)
    (hempty : n.entries = []) : Adopted n.ino n.parentIno s (s.addNode n) := by
  have hold : ∀ y m, y ≠ n.ino → (s.addNode n).findNode y = some m → s.findNode y = some m := by
    intro y m hy hm
    rw [findNode_addNode, if_neg (Ne.symm hy)] at hm
    exact hm
  have hself : (s.addNode n).findNode n.ino = some n := by rw [findNode_addNode, if_pos rfl]
  refine ⟨⟨?_, ?_, ?_⟩, ?_⟩
  · intro h
    refine ⟨List.nodup_cons.mpr ⟨find_eq_none_iff.mp hfind, h.keys⟩, ?_⟩
    intro y m i hm hi
    by_cases hy : y = n.ino
    · rw [hy, show (s.addNode n).icache n.ino = s.icache n.ino from rfl, hcache] at hi
      cases hi
    · exact h.modes y m i (hold y m hy hm) hi
  · exact fun _ y m hm hy => ⟨m, hold y m hy hm, rfl, rfl⟩
  · rintro _ y ⟨d, m, hm, e, he, rfl⟩
    by_cases hd : d = n.ino
    · rw [hd, hself] at hm
      cases hm
      rw [hempty] at he
      cases he
    · exact .inl ⟨d, m, hold d m hd hm, e, he, rfl⟩
  · intro _ m hm
    rw [hself] at hm
    cases hm
    rfl

section

variable (hfind : s.findNode s.nextIno = none) (hcache : s.icache s.nextIno = none)
include hfind hcache

theorem adopted_makeNode
    (mode rdev : UInt16) (hinit : Initialises init) :
    Adopted s.nextIno dir s (s.makeNode c dir name mode rdev init).state := by
  have hnone : Adopted s.nextIno dir s s := by
    refine ⟨.refl .., ?_⟩
    intro _ n hn
    rw [hfind] at hn
    cases hn
  unfold makeNode
  cases hdir : s.findNode dir with
  | none => exact hnone
  | some dnode =>
    dsimp only
    by_cases hexists : (dnode.findDirent name).isSome = true
    · rw [if_pos hexists]
      exact hnone
    · rw [if_neg hexists]
      obtain halloc | halloc := allocNode_cases s c mode rdev
      · rw [halloc]
        exact hnone
      · rw [halloc]
        dsimp only
        have hnew : Adopted s.nextIno dir s (s.addNode (init dnode (s.newNode c mode rdev))) := by
          have hino : (init dnode (s.newNode c mode rdev)).ino = s.nextIno := hinit.ino _ _
          have hpar : (init dnode (s.newNode c mode rdev)).parentIno = dir :=
            (hinit.parent _ _).trans (ino_of_findNode hdir)
          have := adopted_addNode (n := init dnode (s.newNode c mode rdev)) (hino ▸ hfind)
            (hino ▸ hcache) (hinit.entries _ _)
          rw [hino, hpar] at this
          exact this
        rw [show s.nextIno = (s.newNode c mode rdev).ino from rfl, addNode_modifyNode]
        obtain ⟨hne, hsame⟩ | hadd := addDirent_cases
          (s.addNode (init dnode (s.newNode c mode rdev))) c dir name (s.newNode c mode rdev).ino
        · rw [if_pos hne, hsame]
          exact hnew.trans kept_destroyNode
        · rw [hadd]
          exact hnew.trans (kept_addDirent rfl)

theorem adopted_tmpfsCreate (mode : UInt16) :
    Adopted s.nextIno dir s (s.tmpfsCreate c dir name mode).state := by
  have hmade : Adopted s.nextIno dir s (s.makeNode c dir name _ 0 initFile).state :=
    adopted_makeNode hfind hcache ((mode &&& 0xfff) ||| sIfreg) 0 initialises_initFile
  unfold tmpfsCreate
  dsimp only
  split
  · exact hmade.trans kept_iput
  · exact hmade.trans kept_iput.iget

theorem adopted_tmpfsMkdir (mode : UInt16) :
    Adopted s.nextIno dir s (s.tmpfsMkdir c dir name mode).2 := by
  have hmade : Adopted s.nextIno dir s (s.makeNode c dir name _ 0 initDir).state :=
    adopted_makeNode hfind hcache ((mode &&& 0xfff) ||| sIfdir) 0 initialises_initDir
  unfold tmpfsMkdir
  dsimp only
  split_ifs
  · exact hmade.trans kept_iput
  · exact hmade.trans ((kept_setNlink _).copyNlink).iput

theorem adopted_tmpfsMknod (mode rdev : UInt16) :
    Adopted s.nextIno dir s (s.tmpfsMknod c dir name mode rdev).2 :=
  (adopted_makeNode hfind hcache mode rdev initialises_initFile).trans kept_iput

theorem adopted_tmpfsSymlink (symname : List UInt8) :
    Adopted s.nextIno dir s (s.tmpfsSymlink c dir name symname).2 := by
  unfold tmpfsSymlink
  split_ifs
  · refine ⟨kept_iput, ?_⟩
    intro hs n hn
    obtain ⟨m, hm, -⟩ := (kept_iput (P := ∅) (N := ∅)).node hs s.nextIno n hn (Set.notMem_empty _)
    rw [hfind] at hm
    cases hm
  · exact (adopted_makeNode hfind hcache _ 0 (initialises_initSymlink symname)).trans kept_iput

end

variable {oldDir newDir : UInt32} {oldName newName : Name} {ndnode src dst : Node}

theorem kept_replaceDirent (hsrc : src.ino ∈ N) :
    Kept P N s (s.replaceDirent oldDir oldName newDir newName src dst) := by
  have hmoved : Kept P N s
      (((s.redirectDirent newDir newName src.ino).removeDirent oldDir oldName).iget dst.ino) :=
    (kept_redirectDirent hsrc).removeDirent.iget
  unfold replaceDirent
  split_ifs
  · exact (((hmoved.setNlink _).copyNlink).setNlink _).iput
  · exact ((hmoved.setNlink _).copyNlink).iput

theorem adopted_moveParent (h : src.isDir = true ∧ oldDir ≠ newDir) :
    Adopted src.ino newDir s (s.moveParent oldDir newDir src) := by
  have hset : Adopted src.ino newDir s
      (s.modifyNode src.ino fun n => { n with parentIno := newDir }) := by
    constructor
    · apply Kept.modifyNode
      · exact fun _ => rfl
      · exact fun _ => rfl
      · exact .inl rfl
      · exact fun m e he => .inr ⟨e, he, rfl⟩
    · intro _ n hn
      obtain ⟨m, -, rfl⟩ := findNode_of_modifyNode (by exact fun _ => rfl) hn
      rw [if_pos rfl]
  unfold moveParent
  rw [if_pos h]
  exact hset.trans (((kept_setNlink _).setNlink _).copyNlink.copyNlink)

theorem Adopted.of_kept (h1 : Kept ∅ {x} s t) (h2 : Adopted x p t u) :
    Adopted x p s u where
  kept := h1.mono.trans h2.kept
  parent := fun hs n hn => h2.parent (h1.sound hs) n hn

/-- The change of entries in a rename names nothing but what is renamed, and gives it the new
directory as its parent if it is a directory that moves. -/
theorem renameEntry_parents (s : TmpfsSb) (c : Caller) (oldDir : UInt32) (oldName : Name)
    (newDir : UInt32) (newName : Name) (ndnode src : Node) :
    Kept ∅ {src.ino} s (s.renameEntry c oldDir oldName newDir newName ndnode src).2 ∨
    Adopted src.ino newDir s (s.renameEntry c oldDir oldName newDir newName ndnode src).2 := by
  have hmove : ∀ t, Kept ∅ {src.ino} s t →
      Kept ∅ {src.ino} s (t.moveParent oldDir newDir src) ∨
      Adopted src.ino newDir s (t.moveParent oldDir newDir src) := by
    intro t ht
    by_cases hmoves : src.isDir = true ∧ oldDir ≠ newDir
    · exact .inr (.of_kept ht (adopted_moveParent hmoves))
    · rw [moveParent, if_neg hmoves]
      exact .inl ht
  unfold renameEntry
  cases ndnode.findDirent newName with
  | none =>
    obtain ⟨hne, -⟩ | hadd := addDirent_cases s c newDir newName src.ino
    · rw [if_pos hne]
      exact .inl (.refl ..)
    · rw [hadd]
      exact hmove _ (kept_addDirent (Set.mem_singleton _)).removeDirent
  | some newDe =>
    dsimp only
    cases s.findNode newDe.ino with
    | none => exact .inl (.refl ..)
    | some dst =>
      dsimp only
      split_ifs
      · exact .inl (.refl ..)
      · exact hmove _ (kept_replaceDirent rfl)

theorem tmpfsRename_parents (mustBeDir : Bool) :
    Kept ∅ ∅ s (s.tmpfsRename c oldDir oldName newDir newName mustBeDir).2 ∨
    ∃ odnode oldDe, s.findNode oldDir = some odnode ∧ odnode.findDirent oldName = some oldDe ∧
      (Kept ∅ {oldDe.ino} s (s.tmpfsRename c oldDir oldName newDir newName mustBeDir).2 ∨
      Adopted oldDe.ino newDir s (s.tmpfsRename c oldDir oldName newDir newName mustBeDir).2) := by
  have hput : Kept ∅ ∅ s ((s.iput oldDir).iput newDir) := kept_iput.iput
  unfold tmpfsRename
  cases hod : s.findNode oldDir with
  | none => exact .inl hput
  | some odnode =>
    cases s.findNode newDir with
    | none => exact .inl hput
    | some ndnode =>
      dsimp only
      cases hde : odnode.findDirent oldName with
      | none => exact .inl hput
      | some oldDe =>
        dsimp only
        cases hsrc : s.findNode oldDe.ino with
        | none => exact .inl hput
        | some src =>
          dsimp only
          split_ifs
          · exact .inl hput
          · exact .inl hput
          · exact .inl hput
          · refine .inr ⟨odnode, oldDe, rfl, hde, ?_⟩
            rw [← ino_of_findNode hsrc]
            obtain hkept | hadopted := renameEntry_parents s c oldDir oldName newDir newName
              ndnode src
            · exact .inl hkept.iput.iput
            · exact .inr (hadopted.trans kept_iput.iput)

end Six.Tmpfs.TmpfsSb
