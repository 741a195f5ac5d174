import Mathlib.Algebra.BigOperators.Group.List.Basic
import Mathlib.Logic.Function.Basic
import Six.Lib.Run

/-! The in-core inodes of one FUSE mount.  The daemon names a node by 64 bits, and the inode cache
of the kernel finds an inode by 32 bits that are folded from them.  The attributes of an inode play
no part here, and no other file system is mounted below this one, so that `iget` returns an inode of
the mount. -/

namespace Six.Fuse

open Lib Function

def fuseRootId : UInt64 := 1

def fuseInoFromNodeid (nodeid : UInt64) : UInt32 :=
  if nodeid = fuseRootId then 1
  else
    let ino := nodeid.toUInt32 ^^^ (nodeid >>> 32).toUInt32
    if ino = 0 ∨ ino = 1 then 2 else ino

structure Inode where
  nodeid : UInt64
  generation : UInt64 := 0
  nlookup : UInt64 := 0
  count : Nat

def fuseGetNodeid (ino : UInt32) (inode : Inode) : UInt64 :=
  if inode.nodeid ≠ 0 then inode.nodeid else ino.toUInt64

structure EntryOut where
  nodeid : UInt64
  generation : UInt64 := 0

structure Forget where
  nodeid : UInt64
  nlookup : UInt64

/-- The inodes of the mount by number, and the forgets that the daemon has not read. -/
structure Mount where
  connected : Bool := true
  icache : UInt32 → Option Inode
  forgets : List Forget := []

namespace Mount

variable (m : Mount) {ino : UInt32} {n : UInt64}

def put (ino : UInt32) (inode : Option Inode) : Mount :=
  { m with icache := update m.icache ino inode }

def fuseReadInode (ino : UInt32) : Inode :=
  { nodeid := ino.toUInt64, nlookup := if ino = 1 then 1 else 0, count := 1 }

def iget (ino : UInt32) : Inode :=
  match m.icache ino with
  | some inode => { inode with count := inode.count + 1 }
  | none => fuseReadInode ino

def fuseIget (entry : EntryOut) : Mount :=
  if entry.nodeid = 0 then m
  else
    let ino := fuseInoFromNodeid entry.nodeid
    let inode := m.iget ino
    m.put ino (some { inode with
      nodeid := entry.nodeid
      generation := entry.generation
      nlookup := inode.nlookup + 1 })

/-- `fuse_queue_forget`; `memory` tells whether `kmalloc` succeeds. -/
def fuseQueueForget (memory : Bool) (nodeid nlookup : UInt64) : Mount :=
  if !m.connected ∨ nlookup = 0 ∨ nodeid = fuseRootId ∨ !memory then m
  else { m with forgets := m.forgets ++ [⟨nodeid, nlookup⟩] }

/-- `fuse_put_inode` for the last reference to an inode other than the root: the lookups are given
back, and the inode is cleared. -/
def fusePutInode (memory : Bool) (ino : UInt32) (inode : Inode) : Mount :=
  let m :=
    if inode.nlookup > 0 then m.fuseQueueForget memory (fuseGetNodeid ino inode) inode.nlookup
    else m
  m.put ino none

def iput (memory : Bool) (ino : UInt32) (inode : Inode) : Mount :=
  if inode.count ≠ 1 ∨ ino = 1 then m.put ino (some { inode with count := inode.count - 1 })
  else m.fusePutInode memory ino inode

/-- What happens on the mount: an entry reply, a new or a dropped reference to an inode, the daemon
that reads a forget, or the end of the connection. -/
inductive Op
  | entry (entry : EntryOut)
  | hold (ino : UInt32)
  | iput (memory : Bool) (ino : UInt32)
  | readForget
  | abort

/-- The mount after a step; a step that names an inode needs it in the cache. -/
def step : Op → Option Mount
  | .entry entry => some (m.fuseIget entry)
  | .hold ino => (m.icache ino).map fun inode =>
      m.put ino (some { inode with count := inode.count + 1 })
  | .iput memory ino => (m.icache ino).map fun inode => m.iput memory ino inode
  | .readForget => if m.forgets = [] then none else some { m with forgets := m.forgets.tail }
  | .abort => some { m with connected := false }

/-- The mount as `fuse_read_super` leaves it: the root is in the cache. -/
def start : Mount := put { icache := fun _ => none } 1 (some (fuseReadInode 1))

theorem put_icache_eq_some {m : Mount} :
    (m.put ino x).icache j = some inode ↔
      (j = ino ∧ x = some inode) ∨ (j ≠ ino ∧ m.icache j = some inode) := by
  unfold put
  by_cases hj : j = ino
  · subst hj
    simp
  · simp [hj]

end Mount

/-- A mount with what has gone over the connection: the entry replies for each node, the lookups
that the daemon was told to forget, and the node of the reply that made each inode. -/
structure History where
  mount : Mount
  replies : UInt64 → Nat := fun _ => 0
  read : UInt64 → Nat := fun _ => 0
  madeBy : UInt32 → Option UInt64 := fun _ => none

namespace History

def lookups (fs : List Forget) (n : UInt64) : Nat :=
  ((fs.filter fun f => f.nodeid = n).map fun f => f.nlookup.toNat).sum

/-- The forgets for a node that the kernel has sent, read by the daemon or not. -/
def forgotten (h : History) (n : UInt64) : Nat := h.read n + lookups h.mount.forgets n

def record (h : History) (m : Mount) : Mount.Op → History
  | .entry entry =>
    if entry.nodeid = 0 then { h with mount := m }
    else
      let ino := fuseInoFromNodeid entry.nodeid
      { h with
        mount := m
        replies := update h.replies entry.nodeid (h.replies entry.nodeid + 1)
        madeBy :=
          if (h.mount.icache ino).isSome then h.madeBy
          else update h.madeBy ino (some entry.nodeid) }
  | .readForget =>
      { h with mount := m, read := fun n => h.read n + lookups (h.mount.forgets.take 1) n }
  | _ => { h with mount := m }

def step (h : History) (op : Mount.Op) : Option History :=
  (h.mount.step op).map fun m => h.record m op

def start : History := { mount := Mount.start, madeBy := update (fun _ => none) 1 (some 1) }

def Live (h : History) (n : UInt64) : Prop := h.forgotten n < h.replies n

instance (h : History) (n : UInt64) : Decidable (h.Live n) :=
  inferInstanceAs (Decidable (h.forgotten n < h.replies n))

structure Balanced (h : History) : Prop where
  /-- Live nodes that differ have different inodes. -/
  distinct : ∀ n k, h.Live n → h.Live k → fuseInoFromNodeid n = fuseInoFromNodeid k → n = k
  /-- The requests for an inode name the node of the reply that made it. -/
  requests : ∀ ino inode, h.mount.icache ino = some inode →
    h.madeBy ino = some (fuseGetNodeid ino inode)
  /-- No more lookups are given back than were taken. -/
  le : ∀ n, h.forgotten n ≤ h.replies n
  /-- All lookups of a node are given back once its inode is evicted. -/
  evicted : ∀ n, n ≠ fuseRootId →
    (∀ inode, h.mount.icache (fuseInoFromNodeid n) = some inode → inode.nodeid ≠ n) →
    h.forgotten n = h.replies n

/-- A step that keeps the nodes apart and their lookups counted: an entry reply does not meet an
inode of another node in its place and does not overflow the count, and an inode is evicted while
the connection and the memory for the forget are there. -/
def Safe (h : History) : Mount.Op → Prop
  | .entry entry => ∀ inode, h.mount.icache (fuseInoFromNodeid entry.nodeid) = some inode →
      inode.nodeid = entry.nodeid ∧ inode.nlookup.toNat + 1 < 2 ^ 64
  | .iput memory ino => ∀ inode, h.mount.icache ino = some inode → inode.count = 1 → ino ≠ 1 →
      h.mount.connected = true ∧ memory = true
  | _ => True

theorem fuseInoFromNodeid_eq_one (h : fuseInoFromNodeid n = 1) : n = fuseRootId := by
  unfold fuseInoFromNodeid at h
  by_contra hroot
  rw [if_neg hroot] at h
  dsimp only at h
  split_ifs at h with hsmall
  · cases h
  · exact hsmall (.inr h)

theorem lookups_append (fs gs : List Forget) (n : UInt64) :
    lookups (fs ++ gs) n = lookups fs n + lookups gs n := by
  simp [lookups]

theorem lookups_single (f : Forget) (n : UInt64) :
    lookups [f] n = if f.nodeid = n then f.nlookup.toNat else 0 := by
  unfold lookups
  split_ifs with h <;> simp [h]

structure Slot (h : History) (ino : UInt32) (inode : Inode) : Prop where
  place : fuseInoFromNodeid inode.nodeid = ino
  nodeid_ne : inode.nodeid ≠ 0
  madeBy : h.madeBy ino = some inode.nodeid
  lookups : ino ≠ 1 →
    inode.nlookup.toNat + h.forgotten inode.nodeid = h.replies inode.nodeid

structure Inv (h : History) : Prop where
  slot : ∀ ino inode, h.mount.icache ino = some inode → h.Slot ino inode
  gone : ∀ n, n ≠ fuseRootId →
    (∀ inode, h.mount.icache (fuseInoFromNodeid n) = some inode → inode.nodeid ≠ n) →
    h.forgotten n = h.replies n
  root : h.forgotten fuseRootId = 0

variable {h h' : History} {op : Mount.Op} {inode : Inode}

theorem inv_start : start.Inv where
  slot := by
    intro ino inode hinode
    obtain ⟨rfl, ⟨⟩⟩ | ⟨-, ⟨⟩⟩ := Mount.put_icache_eq_some.mp hinode
    exact ⟨rfl, by decide, rfl, fun hne => absurd rfl hne⟩
  gone := fun _ _ _ => rfl
  root := rfl

section

variable (hi : h.Inv)
include hi

theorem Inv.recount (count : Nat) (hinode : h.mount.icache ino = some inode) :
    Inv { h with mount := h.mount.put ino (some { inode with count := count }) } where
  slot := by
    intro j i hj
    obtain ⟨rfl, ⟨⟩⟩ | ⟨-, hj⟩ := Mount.put_icache_eq_some.mp hj
    · obtain ⟨hplace, hne, hmade, hlook⟩ := hi.slot j inode hinode
      exact ⟨hplace, hne, hmade, hlook⟩
    · obtain ⟨hplace, hne, hmade, hlook⟩ := hi.slot j i hj
      exact ⟨hplace, hne, hmade, hlook⟩
  gone := by
    intro n hn hnone
    apply hi.gone n hn
    intro i hi'
    by_cases hplace : fuseInoFromNodeid n = ino
    · rw [hplace, hinode] at hi'
      cases hi'
      exact hnone { inode with count := count } (Mount.put_icache_eq_some.mpr (.inl ⟨hplace, rfl⟩))
    · exact hnone i (Mount.put_icache_eq_some.mpr (.inr ⟨hplace, hi'⟩))
  root := hi.root

theorem Inv.entry {entry : EntryOut} (hsafe : h.Safe (.entry entry)) :
    (h.record (h.mount.fuseIget entry) (.entry entry)).Inv := by
  unfold record Mount.fuseIget
  by_cases hzero : entry.nodeid = 0
  · simp only [hzero, if_true]
    exact hi
  simp only [hzero, if_false]
  generalize hino : fuseInoFromNodeid entry.nodeid = ino at hsafe ⊢
  -- the lookups of the inode before the reply
  have hbefore : ino ≠ 1 → (h.mount.iget ino).nlookup.toNat + h.forgotten entry.nodeid =
      h.replies entry.nodeid ∧ (h.mount.iget ino).nlookup.toNat + 1 < 2 ^ 64 := by
    intro hroot
    unfold Mount.iget
    cases hc : h.mount.icache ino with
    | some inode =>
      obtain ⟨hnode, hmax⟩ := hsafe inode (hino ▸ hc)
      have hslot := (hi.slot ino inode hc).lookups hroot
      rw [hnode] at hslot
      exact ⟨hslot, hmax⟩
    | none =>
      have hgone : h.forgotten entry.nodeid = h.replies entry.nodeid := by
        apply hi.gone
        · rintro hr
          exact hroot (hino.symm.trans (hr ▸ rfl))
        · intro i hi'
          rw [hino, hc] at hi'
          cases hi'
      rw [hgone]
      unfold Mount.fuseReadInode
      rw [if_neg hroot]
      exact ⟨Nat.zero_add _, show (0 : UInt64).toNat + 1 < 2 ^ 64 by decide⟩
  constructor
  · intro j i hj
    obtain ⟨rfl, ⟨⟩⟩ | ⟨hne, hj⟩ := Mount.put_icache_eq_some.mp hj
    · refine ⟨hino, hzero, ?_, fun hroot => ?_⟩
      · cases hc : h.mount.icache j with
        | some inode =>
          have hmade := (hi.slot j inode hc).madeBy
          rw [(hsafe inode (hino ▸ hc)).1] at hmade
          exact hmade
        | none => exact update_self ..
      · obtain ⟨hlook, hmax⟩ := hbefore hroot
        show ((h.mount.iget j).nlookup + 1).toNat + h.forgotten entry.nodeid =
          update h.replies entry.nodeid (h.replies entry.nodeid + 1) entry.nodeid
        rw [update_self, UInt64.toNat_add]
        simp only [UInt64.reduceToNat]
        omega
    · obtain ⟨hplace, hnode, hmade, hlook⟩ := hi.slot j i hj
      have hother : i.nodeid ≠ entry.nodeid := fun heq => hne (hplace.symm.trans (heq ▸ hino))
      refine ⟨hplace, hnode, ?_, fun hroot => ?_⟩
      · dsimp only
        split
        · exact hmade
        · exact (update_of_ne hne _ _).trans hmade
      · exact (hlook hroot).trans (update_of_ne hother _ _).symm
  · intro n hn hnone
    have hother : n ≠ entry.nodeid := by
      rintro rfl
      exact hnone _ (Mount.put_icache_eq_some.mpr (.inl ⟨hino, rfl⟩)) rfl
    show h.forgotten n = update h.replies entry.nodeid (h.replies entry.nodeid + 1) n
    rw [update_of_ne hother]
    apply hi.gone n hn
    intro inode hinode
    by_cases hplace : fuseInoFromNodeid n = ino
    · rw [(hsafe inode ((hplace.trans hino.symm) ▸ hinode)).1]
      exact hother.symm
    · exact hnone inode (Mount.put_icache_eq_some.mpr (.inr ⟨hplace, hinode⟩))
  · exact hi.root

theorem Inv.evict (hroot : ino ≠ 1) (hinode : h.mount.icache ino = some inode)
    (hconnected : h.mount.connected = true) :
    Inv { h with mount := h.mount.fusePutInode true ino inode } := by
  obtain ⟨hplace, hnode, hmade, hlook⟩ := hi.slot ino inode hinode
  have hnodeRoot : inode.nodeid ≠ fuseRootId := fun heq => hroot (hplace.symm.trans (heq ▸ rfl))
  unfold Mount.fusePutInode
  generalize hm : (if inode.nlookup > 0 then
    h.mount.fuseQueueForget true (fuseGetNodeid ino inode) inode.nlookup else h.mount) = m
  have hicache : m.icache = h.mount.icache := by
    rw [← hm]
    unfold Mount.fuseQueueForget
    split_ifs <;> rfl
  -- the forget adds the lookups of the inode to its node
  have hforgets : ∀ n, lookups m.forgets n =
      lookups h.mount.forgets n + if inode.nodeid = n then inode.nlookup.toNat else 0 := by
    intro n
    rw [← hm]
    by_cases hpos : inode.nlookup > 0
    · have hne : inode.nlookup ≠ 0 := by
        rintro heq
        rw [heq] at hpos
        exact absurd hpos (by decide)
      have hget : fuseGetNodeid ino inode = inode.nodeid := if_pos hnode
      rw [if_pos hpos, hget]
      unfold Mount.fuseQueueForget
      rw [if_neg (by simp [hconnected, hne, hnodeRoot])]
      rw [lookups_append, lookups_single]
    · have hzero : inode.nlookup.toNat = 0 := by simpa [UInt64.lt_iff_toNat_lt] using hpos
      rw [if_neg hpos, hzero, ite_self, Nat.add_zero]
  have hforgotten : ∀ n, forgotten { h with mount := m.put ino none } n =
      h.forgotten n + if inode.nodeid = n then inode.nlookup.toNat else 0 := by
    intro n
    show h.read n + lookups m.forgets n = _
    rw [hforgets, ← Nat.add_assoc]
    rfl
  constructor
  · intro j i hj
    obtain ⟨-, ⟨⟩⟩ | ⟨hne, hj⟩ := Mount.put_icache_eq_some.mp hj
    rw [hicache] at hj
    obtain ⟨hplace', hnode', hmade', hlook'⟩ := hi.slot j i hj
    have hother : inode.nodeid ≠ i.nodeid := fun heq => hne (hplace'.symm.trans (heq ▸ hplace))
    refine ⟨hplace', hnode', hmade', fun hj1 => ?_⟩
    rw [hforgotten, if_neg hother]
    exact hlook' hj1
  · intro n hn hnone
    rw [hforgotten]
    by_cases heq : inode.nodeid = n
    · subst heq
      have := hlook hroot
      rw [if_pos rfl]
      show _ = h.replies inode.nodeid
      omega
    · rw [if_neg heq]
      apply hi.gone n hn
      intro i hi'
      by_cases hplace' : fuseInoFromNodeid n = ino
      · rw [hplace', hinode] at hi'
        cases hi'
        exact heq
      · exact hnone i (Mount.put_icache_eq_some.mpr (.inr ⟨hplace', hicache ▸ hi'⟩))
  · rw [hforgotten, if_neg hnodeRoot]
    exact hi.root

theorem Inv.readForget :
    (h.record { h.mount with forgets := h.mount.forgets.tail } .readForget).Inv := by
  have hforgotten : ∀ n,
      (h.record { h.mount with forgets := h.mount.forgets.tail } .readForget).forgotten n =
        h.forgotten n := by
    intro n
    show h.read n + lookups (h.mount.forgets.take 1) n + lookups h.mount.forgets.tail n = _
    rw [Nat.add_assoc, ← lookups_append, ← List.drop_one, List.take_append_drop]
    rfl
  constructor
  · intro ino inode hinode
    obtain ⟨hplace, hnode, hmade, hlook⟩ := hi.slot ino inode hinode
    refine ⟨hplace, hnode, hmade, fun hroot => ?_⟩
    rw [hforgotten]
    exact hlook hroot
  · intro n hn hnone
    rw [hforgotten]
    exact hi.gone n hn hnone
  · rw [hforgotten]
    exact hi.root

theorem Inv.step (hsafe : h.Safe op) (hstep : h.step op = some h') : h'.Inv := by
  obtain ⟨m, hm, rfl⟩ := Option.map_eq_some_iff.mp hstep
  cases op with
  | entry entry =>
    cases hm
    exact hi.entry hsafe
  | hold ino =>
    obtain ⟨inode, hinode, rfl⟩ := Option.map_eq_some_iff.mp hm
    exact hi.recount _ hinode
  | iput memory ino =>
    obtain ⟨inode, hinode, rfl⟩ := Option.map_eq_some_iff.mp hm
    unfold Mount.iput
    by_cases hkeep : inode.count ≠ 1 ∨ ino = 1
    · rw [if_pos hkeep]
      exact hi.recount _ hinode
    · rw [if_neg hkeep]
      rw [not_or, not_not] at hkeep
      obtain ⟨hconnected, rfl⟩ := hsafe inode hinode hkeep.1 hkeep.2
      exact hi.evict hkeep.2 hinode hconnected
  | readForget =>
    obtain ⟨-, ⟨⟩⟩ := Option.ite_none_left_eq_some.mp hm
    exact hi.readForget
  | abort =>
    cases hm
    refine ⟨fun ino inode hinode => ?_, hi.gone, hi.root⟩
    obtain ⟨hplace, hnode, hmade, hlook⟩ := hi.slot ino inode hinode
    exact ⟨hplace, hnode, hmade, hlook⟩

theorem Inv.exists_of_live (hroot : n ≠ fuseRootId) (hlive : h.Live n) :
    ∃ inode, h.mount.icache (fuseInoFromNodeid n) = some inode ∧ inode.nodeid = n := by
  by_contra hnone
  have heq : h.forgotten n = h.replies n := by
    apply hi.gone n hroot
    exact fun inode hinode hnode => hnone ⟨inode, hinode, hnode⟩
  exact Nat.ne_of_lt hlive heq

theorem Inv.balanced : h.Balanced where
  distinct := by
    intro n k hn hk hplace
    by_cases hroot : n = fuseRootId
    · have hone : fuseInoFromNodeid k = 1 := hplace.symm.trans (hroot ▸ rfl)
      exact hroot.trans (fuseInoFromNodeid_eq_one hone).symm
    by_cases hroot' : k = fuseRootId
    · have hone : fuseInoFromNodeid n = 1 := hplace.trans (hroot' ▸ rfl)
      exact absurd (fuseInoFromNodeid_eq_one hone) hroot
    obtain ⟨inode, hinode, rfl⟩ := hi.exists_of_live hroot hn
    obtain ⟨inode', hinode', rfl⟩ := hi.exists_of_live hroot' hk
    rw [← hplace, hinode] at hinode'
    cases hinode'
    rfl
  requests := by
    intro ino inode hinode
    obtain ⟨-, hnode, hmade, -⟩ := hi.slot ino inode hinode
    rw [hmade]
    exact congrArg some (if_pos hnode).symm
  le := by
    intro n
    by_cases hroot : n = fuseRootId
    · rw [hroot, hi.root]
      exact Nat.zero_le _
    by_contra hlt
    have hne : h.forgotten n ≠ h.replies n := by omega
    apply hne
    apply hi.gone n hroot
    rintro inode hinode rfl
    have := (hi.slot _ inode hinode).lookups fun hone => hroot (fuseInoFromNodeid_eq_one hone)
    omega
  evicted := hi.gone

end

/-- Identity and balance hold in every state of a run of safe steps. -/
theorem balanced_of_reaches (hrun : Reaches step Safe start h) : h.Balanced := by
  have hinv : h.Inv := by
    apply hrun.invariant (P := Inv)
    · exact inv_start
    · exact fun h op h' hi hsafe hstep => hi.step hsafe hstep
  exact hinv.balanced

/-- Two replies for one node, whose inode is then evicted and whose forget the daemon reads. -/
theorem balanced_after_eviction :
    ∃ h, run step start
        [.entry ⟨5, 1⟩, .entry ⟨5, 1⟩, .iput true 5, .iput true 5, .readForget] = some h ∧
      h.read 5 = 2 ∧ h.Balanced := by
  have h0 : Reaches step Safe start start := .refl
  have h1 := h0.tail (i := Mount.Op.entry ⟨5, 1⟩) (by rintro inode ⟨⟩) rfl
  have h2 := h1.tail (i := Mount.Op.entry ⟨5, 1⟩) (by rintro inode ⟨⟩; decide) rfl
  have h3 := h2.tail (i := Mount.Op.iput true 5) (fun _ _ _ _ => ⟨rfl, rfl⟩) rfl
  have h4 := h3.tail (i := Mount.Op.iput true 5) (fun _ _ _ _ => ⟨rfl, rfl⟩) rfl
  have h5 := h4.tail (i := Mount.Op.readForget) trivial rfl
  exact ⟨_, rfl, rfl, balanced_of_reaches h5⟩

/-- Two nodes whose numbers fold to the same 32 bits share one inode.  The requests for it name the
second node, and the second node is forgotten more often than it was looked up. -/
theorem folded_nodes_collide :
    ∃ h h', run step start [.entry ⟨0x100000003, 1⟩, .entry ⟨2, 1⟩] = some h ∧
      (h.mount.icache 2).map (fuseGetNodeid 2) = some 2 ∧ h.madeBy 2 = some 0x100000003 ∧
      ¬ h.Balanced ∧
      run step h [.iput true 2, .iput true 2] = some h' ∧ h'.forgotten 2 = 2 ∧ h'.replies 2 = 1 ∧
      h'.forgotten 0x100000003 = 0 ∧ h'.replies 0x100000003 = 1 := by
  refine ⟨_, _, rfl, rfl, rfl, fun hb => ?_, rfl, rfl, rfl, rfl, rfl⟩
  have := hb.distinct 2 0x100000003 (by decide) (by decide) (by decide)
  exact absurd this (by decide)

end History

end Six.Fuse
