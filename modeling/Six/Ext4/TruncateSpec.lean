import Six.Ext4.File
import Six.Ext4.Truncate

/-! `ext4_ext_truncate` of a file with a valid tree: which logical blocks stay mapped, and which
blocks are given back. -/

namespace Six.Ext4

open List UInt32 Store Slot

def File.depth (f : File) : Nat := f.store.root.hdr.ehDepth.toNat

def File.extents (f : File) : List Slot := f.store.extentsOf f.depth .inode

def File.windowBlocks (f : File) : List UInt32 := f.windowCalls.flatMap FreeCall.blocks

def File.cutAt (g : Geometry) (f : File) : Nat := (firstFree g f.iSize).toNat

/-- A file with a valid tree: the nodes are those of a tree of the depth in the root, the extents
are sorted, disjoint and not empty, what they map and the nodes lie in the data zone, and no block
is owned twice.  The window is one that `ext4_new_block` may have left. -/
structure ValidFile (g : Geometry) (readable : UInt32 → Bool) (f : File) : Prop where
  fileType : f.fileType ≠ .other
  formed : f.store.Formed readable f.depth .inode
  sorted : f.extents.Pairwise fun a b => a.start + a.len ≤ b.start
  proper : ∀ e ∈ f.extents, e.Proper
  zone : ∀ e ∈ f.extents,
    g.firstDataBlock ≤ e.eeStartLo.toNat ∧ e.eeStartLo.toNat + e.len ≤ g.blocksCount
  nodes : ∀ b ∈ f.store.nodesOf f.depth .inode,
    g.firstDataBlock ≤ b.toNat ∧ b.toNat < g.blocksCount
  window : ∀ c ∈ f.windowCalls, g.Fits c ∧ 0 < c.count.toNat
  owned : (f.windowBlocks ++ f.store.ownedBy f.depth .inode).Nodup

def Store.Unused (s : Store) (ff : Nat) (b : UInt32) : Prop :=
  ∀ logical phys unwritten, s.Maps (.block b) logical phys unwritten → ff ≤ logical

/-- A truncation is right: below the first block that is freed every logical block is mapped as
before, in the same state, from it on none is mapped, and the blocks that are given back, each of
them once, are the window, the blocks that were mapped there, and the leaf and index blocks under
which nothing stays mapped. -/
structure TruncatesRight (g : Geometry) (f f' : File) (calls : List FreeCall) : Prop where
  below : ∀ logical < f.cutAt g, ∀ phys unwritten,
    f'.store.Maps .inode logical phys unwritten ↔ f.store.Maps .inode logical phys unwritten
  above : ∀ logical ≥ f.cutAt g, ∀ phys unwritten, ¬f'.store.Maps .inode logical phys unwritten
  accepted : ∀ c ∈ calls, g.freeOutcome c = .freed
  freed : ∀ b, b ∈ calls.flatMap FreeCall.blocks ↔
    b ∈ f.windowBlocks ∨
      (∃ logical ≥ f.cutAt g, ∃ unwritten, f.store.Maps .inode logical b unwritten) ∨
      b ∈ f.store.nodesOf f.depth .inode ∧ f.store.Unused (f.cutAt g) b
  once : (calls.flatMap FreeCall.blocks).Nodup

/-- An extent that a truncation handles well: it is written where it is cut, and what is cut off
lies in one group. -/
structure CutsCleanly (g : Geometry) (firstFree : Nat) (e : Slot) : Prop where
  written : e.start < firstFree → firstFree < e.start + e.len → e.isUnwritten = false
  one_group : firstFree - e.start < e.len →
    g.bit (e.eeStartLo.toNat + (firstFree - e.start)) + (e.len - (firstFree - e.start)) ≤
      g.blocksPerGroup

section

variable {s : Store} {d : Nat} {p : Place} {α β : Type} {unwritten : Bool}
  {k : UInt32 → List Slot → List α} {phys : UInt32}

theorem Store.mem_collect (h : x ∈ s.collect f k d p) :
    (∃ e ∈ s.extentsOf d p, x ∈ f e) ∨ ∃ b ∈ s.nodesOf d p, ∃ es, x ∈ k b es := by
  induction d generalizing p with
  | zero => exact .inl (mem_flatMap.mp h)
  | succ d ih =>
    obtain ⟨b, hb, hx⟩ := mem_flatMap.mp h
    rcases mem_append.mp hx with hx | hx
    · rcases ih hx with ⟨e, he, hx⟩ | ⟨c, hc, hx⟩
      · exact .inl ⟨e, mem_flatMap.mpr ⟨b, hb, he⟩, hx⟩
      · exact .inr ⟨c, mem_flatMap.mpr ⟨b, hb, mem_append_left _ hc⟩, hx⟩
    · exact .inr ⟨b, mem_nodesOf_child hb, _, hx⟩

theorem Store.mem_collect_of_extent
    (he : e ∈ s.extentsOf d p) (hx : x ∈ f e) : x ∈ s.collect f k d p := by
  induction d generalizing p with
  | zero => exact mem_flatMap.mpr ⟨e, he, hx⟩
  | succ d ih =>
    obtain ⟨b, hb, he⟩ := mem_flatMap.mp he
    exact mem_flatMap.mpr ⟨b, hb, mem_append_left _ (ih he)⟩

theorem Store.collect_flatMap (f : Slot → List α) (k : UInt32 → List Slot → List α)
    (m : α → List β) : (s.collect f k d p).flatMap m =
      s.collect (fun e => (f e).flatMap m) (fun b es => (k b es).flatMap m) d p := by
  induction d generalizing p with
  | zero => exact flatMap_assoc
  | succ d ih =>
    unfold collect
    rw [flatMap_assoc]
    refine flatMap_congr fun b _ => ?_
    rw [flatMap_append, ih]

end

namespace Slot

variable {ff : UInt32} {e : Slot}

theorem toNat_dropped (e : Slot) (ff : UInt32) :
    (ofNat (e.len - e.keep ff)).toNat = e.len - e.keep ff := by
  have hle := e.len_le
  rw [toNat_ofNat', Nat.mod_eq_of_lt (by omega)]

theorem mem_dropped_blocks :
    b ∈ (e.dropped ff).flatMap FreeCall.blocks ↔
      ∃ k, e.keep ff ≤ k ∧ k < e.len ∧ b = e.eeStartLo + ofNat k := by
  unfold dropped
  split
  · rename_i hlt
    simp only [flatMap_singleton, FreeCall.blocks, mem_map, mem_range, toNat_dropped]
    constructor
    · rintro ⟨k, hk, rfl⟩
      exact ⟨e.keep ff + k, by omega, by omega, by rw [ofNat_add, UInt32.add_assoc]⟩
    · rintro ⟨k, hlo, hhi, rfl⟩
      refine ⟨k - e.keep ff, by omega, ?_⟩
      rw [UInt32.add_assoc, ← ofNat_add, Nat.add_sub_cancel' hlo]
  · rename_i hge
    constructor
    · intro hmem
      cases hmem
    · rintro ⟨k, hlo, hhi, -⟩
      omega

theorem dropped_blocks_eq (e : Slot) (ff : UInt32) :
    (e.dropped ff).flatMap FreeCall.blocks = e.blocks.drop (e.keep ff) := by
  unfold dropped
  split
  · rw [flatMap_singleton, FreeCall.blocks, toNat_dropped, blocks, ← map_drop,
      range_eq_range' (n := e.len), drop_range', range'_eq_map_range, map_map]
    refine map_congr_left fun k _ => ?_
    simp [UInt32.add_assoc]
  · rw [flatMap_nil, drop_eq_nil_of_le]
    rw [blocks, length_map, length_range]
    omega

theorem dropped_blocks_sublist : ((e.dropped ff).flatMap FreeCall.blocks).Sublist e.blocks := by
  rw [dropped_blocks_eq]
  exact drop_sublist _ _

theorem mem_dropped_iff (hzone : e.eeStartLo.toNat + e.len < 2 ^ 32) :
    c ∈ e.dropped ff ↔ ff.toNat - e.start < e.len ∧
      c.block.toNat = e.eeStartLo.toNat + (ff.toNat - e.start) ∧
      c.count.toNat = e.len - (ff.toNat - e.start) := by
  have hkeep : e.keep ff = min (ff.toNat - e.start) e.len := rfl
  unfold dropped
  split
  · rename_i hlt
    have heq : e.keep ff = ff.toNat - e.start := by omega
    have hblock : (e.eeStartLo + ofNat (e.keep ff)).toNat = e.eeStartLo.toNat + e.keep ff := by
      rw [UInt32.toNat_add, toNat_ofNat', Nat.mod_eq_of_lt (a := e.keep ff) (by omega),
        Nat.mod_eq_of_lt (by omega)]
    have hcount := toNat_dropped e ff
    rw [mem_singleton, ← heq]
    constructor
    · rintro rfl
      exact ⟨hlt, hblock, hcount⟩
    · rintro ⟨-, hb, hc⟩
      obtain ⟨block, count⟩ := c
      rw [FreeCall.mk.injEq]
      exact ⟨UInt32.toNat_inj.mp (hb.trans hblock.symm), UInt32.toNat_inj.mp (hc.trans hcount.symm)⟩
  · rename_i hge
    constructor
    · intro hmem
      cases hmem
    · rintro ⟨hlt, -⟩
      omega

theorem maps_cut_iff :
    (e.cut ff).Maps logical phys unwritten ↔
      logical < ff.toNat ∧ e.Maps logical phys e.isUnwritten ∧
        (e.cut ff).isUnwritten = unwritten := by
  have hkeep : e.keep ff = min (ff.toNat - e.start) e.len := rfl
  constructor
  · rintro ⟨hlo, hhi, hphys, hstate⟩
    rw [start_cut] at hlo hhi hphys
    rw [len_cut] at hhi
    rw [eeStartLo_cut] at hphys
    exact ⟨by omega, ⟨hlo, by omega, hphys, rfl⟩, hstate⟩
  · rintro ⟨hlt, ⟨hlo, hhi, hphys, -⟩, hstate⟩
    refine ⟨?_, ?_, ?_, hstate⟩
    · rwa [start_cut]
    · rw [start_cut, len_cut]
      omega
    · rwa [start_cut, eeStartLo_cut]

theorem isUnwritten_cut
    (h : e.start < ff.toNat → ff.toNat < e.start + e.len → e.isUnwritten = false)
    (hstart : e.start < ff.toNat) : (e.cut ff).isUnwritten = e.isUnwritten := by
  have hkeep : e.keep ff = min (ff.toNat - e.start) e.len := rfl
  by_cases hlt : e.keep ff < e.len
  · rw [isUnwritten_cut_of_lt ff e hlt, h hstart (by omega)]
  · unfold cut
    rw [if_neg hlt]

end Slot

theorem mem_cutExtents : e' ∈ cutExtents ff es ↔ ∃ e ∈ es, e.start < ff.toNat ∧ e' = e.cut ff := by
  simp only [cutExtents, mem_map, mem_filter, decide_eq_true_eq]
  constructor
  · rintro ⟨e, ⟨he, hstart⟩, rfl⟩
    exact ⟨e, he, hstart, rfl⟩
  · rintro ⟨e, he, hstart, rfl⟩
    exact ⟨e, ⟨he, hstart⟩, rfl⟩

section

variable {g : Geometry} {readable : UInt32 → Bool} {f : File} {calls : List FreeCall} {b : UInt32}
  {f' : File} {logical : Nat} {ff : UInt32}

theorem firstFree_le (g : Geometry) (iSize : UInt32) : (firstFree g iSize).toNat ≤ 2 ^ 22 := by
  have hlo := g.blockSize_ge
  have hhi := g.blockSize_le
  have hsize : (ofNat g.blockSize).toNat = g.blockSize := by
    rw [toNat_ofNat', Nat.mod_eq_of_lt (by omega)]
  have hlt := (iSize + ofNat g.blockSize - 1).toNat_lt
  unfold firstFree
  rw [UInt32.toNat_div, hsize]
  calc (iSize + ofNat g.blockSize - 1).toNat / g.blockSize
      ≤ (iSize + ofNat g.blockSize - 1).toNat / 1024 := Nat.div_le_div_left hlo (by decide)
    _ ≤ 2 ^ 22 := by omega

theorem ValidFile.sound (h : ValidFile g readable f) :
    f.store.Sound readable f.depth .inode where
  formed := h.formed
  sorted := h.sorted
  proper := h.proper
  nodes := by
    have howned := (nodup_append.mp h.owned).2.1
    have hnodes := howned.sublist (f.store.nodesOf_sublist_ownedBy f.depth .inode)
    refine nodup_cons.mpr ⟨fun hmem => ?_, hnodes.map fun b c => Place.block.inj⟩
    obtain ⟨b, -, heq⟩ := mem_map.mp hmem
    cases heq

structure Truncated (g : Geometry) (readable : UInt32 → Bool) (f f' : File)
    (calls : List FreeCall) : Prop where
  calls : calls =
    f.windowCalls ++ f.store.freedCalls (firstFree g f.iSize) f.depth .inode
  emptied : (∀ e ∈ f.extents, f.cutAt g ≤ e.start) → (f'.store.node .inode).entries = 0
  formed : (∃ e ∈ f.extents, e.start < f.cutAt g) → f'.store.Formed readable f.depth .inode
  extents : (∃ e ∈ f.extents, e.start < f.cutAt g) →
    f'.store.extentsOf f.depth .inode = cutExtents (firstFree g f.iSize) f.extents

theorem extTruncate_truncated (h : ValidFile g readable f) :
    ∃ fuel f' calls, f.extTruncate g readable fuel = some (f', calls) ∧
      Truncated g readable f f' calls := by
  obtain ⟨fuel, w', hw', hcut⟩ := truncateSubtree_cut
    (t := ⟨readable, g.sectors, firstFree g f.iSize⟩) (w := ⟨f.store, f.iBlocks, f.windowCalls⟩)
    (firstFree_le g f.iSize) f.depth h.sound
  obtain ⟨-, -, hcalls, hresult⟩ := hcut
  refine ⟨fuel, f.afterWalk g w', w'.calls, ?_, ⟨hcalls, fun hall => ?_, fun hex => ?_,
    fun hex => ?_⟩⟩
  · unfold File.extTruncate
    rw [if_neg h.fileType, hw']
    rfl
  · exact (Node.entries_resetMax _).trans (hresult.emptied hall).1
  · rw [File.store_afterWalk (hresult.entries hex)]
    exact hresult.formed hex
  · rw [File.store_afterWalk (hresult.entries hex)]
    exact hresult.extents hex

theorem File.mem_freedCalls (hc : c ∈ f.store.freedCalls (firstFree g f.iSize) f.depth .inode) :
    (∃ e ∈ f.extents, c ∈ e.dropped (firstFree g f.iSize)) ∨
      ∃ b ∈ f.store.nodesOf f.depth .inode, c = ⟨b, 1⟩ := by
  rcases mem_collect hc with hext | ⟨b, hb, es, hc⟩
  · exact .inl hext
  · right
    split at hc
    · exact ⟨b, hb, mem_singleton.mp hc⟩
    · cases hc

theorem ValidFile.accepted (h : ValidFile g readable f)
    (hclean : ∀ e ∈ f.extents, CutsCleanly g (f.cutAt g) e) :
    ∀ c ∈ f.windowCalls ++ f.store.freedCalls (firstFree g f.iSize) f.depth .inode,
      g.freeOutcome c = .freed := by
  intro c hc
  have hsmall := g.small
  rcases mem_append.mp hc with hc | hc
  · exact (h.window c hc).1.freeOutcome (h.window c hc).2
  · rcases File.mem_freedCalls hc with ⟨e, he, hc⟩ | ⟨b, hb, rfl⟩
    · have hzone := h.zone e he
      obtain ⟨hlt, hblock, hcount⟩ := (mem_dropped_iff (by omega)).mp hc
      have hgroup := (hclean e he).one_group hlt
      have hfits : g.Fits c := by
        refine ⟨?_, ?_, ?_⟩
        · omega
        · omega
        · rw [hblock, hcount]
          exact hgroup
      exact hfits.freeOutcome (by omega)
    · have hzone := h.nodes b hb
      have hbit := g.bit_lt b.toNat
      refine Geometry.Fits.freeOutcome ⟨hzone.1, hzone.2, hbit⟩ Nat.one_pos

theorem ValidFile.one_group_of_accepted (h : ValidFile g readable f) (he : e ∈ f.extents)
    (hacc : ∀ c ∈ f.store.freedCalls (firstFree g f.iSize) f.depth .inode, g.freeOutcome c = .freed)
    (hlt : f.cutAt g - e.start < e.len) :
    g.bit (e.eeStartLo.toNat + (f.cutAt g - e.start)) + (e.len - (f.cutAt g - e.start)) ≤
      g.blocksPerGroup := by
  have hsmall := g.small
  have hzone := h.zone e he
  have hmem : ∀ c ∈ e.dropped (firstFree g f.iSize),
      c ∈ f.store.freedCalls (firstFree g f.iSize) f.depth .inode :=
    fun c hc => mem_collect_of_extent he hc
  set skip := f.cutAt g - e.start with hskip
  let c : FreeCall := ⟨ofNat (e.eeStartLo.toNat + skip), ofNat (e.len - skip)⟩
  have hblock : c.block.toNat = e.eeStartLo.toNat + skip := by
    rw [toNat_ofNat', Nat.mod_eq_of_lt (by omega)]
  have hcount : c.count.toNat = e.len - skip := by
    rw [toNat_ofNat', Nat.mod_eq_of_lt (by omega)]
  have hfreed := hacc c (hmem c ((mem_dropped_iff (by omega)).mpr ⟨hlt, hblock, hcount⟩))
  have hbit := g.bit_lt c.block.toNat
  unfold Geometry.freeOutcome at hfreed
  rw [Nat.mod_eq_of_lt (by omega)] at hfreed
  rw [← hblock, ← hcount]
  by_contra hover
  split at hfreed
  · cases hfreed
  · rw [if_pos (by omega)] at hfreed
    cases hfreed

theorem Store.freedBlocks_sublist (s : Store) (ff : UInt32) (d : Nat) (p : Place) :
    ((s.freedCalls ff d p).flatMap FreeCall.blocks).Sublist (s.ownedBy d p) := by
  unfold freedCalls
  rw [collect_flatMap]
  refine collect_sublist (fun e _ => dropped_blocks_sublist) fun b es => ?_
  split
  · rw [flatMap_singleton, FreeCall.blocks_one]
  · exact nil_sublist _

theorem ValidFile.once (h : ValidFile g readable f) :
    ((f.windowCalls ++ f.store.freedCalls (firstFree g f.iSize) f.depth .inode).flatMap
      FreeCall.blocks).Nodup := by
  rw [flatMap_append]
  refine h.owned.sublist (List.Sublist.append (List.Sublist.refl _) ?_)
  exact freedBlocks_sublist _ _ _ _

theorem Store.unused_iff {s : Store} {ff : Nat} (hformed : s.Formed readable d (.block b))
    (hproper : ∀ e ∈ s.extentsOf d (.block b), e.Proper) :
    s.Unused ff b ↔ ∀ e ∈ s.extentsOf d (.block b), ff ≤ e.start := by
  constructor
  · intro h e he
    have hpos := (hproper e he).len_pos
    have hmaps : e.Maps e.start (e.eeStartLo + ofNat (e.start - e.start)) e.isUnwritten :=
      ⟨le_refl _, by omega, rfl, rfl⟩
    exact h _ _ _ ((maps_iff hformed).mpr ⟨e, he, hmaps⟩)
  · intro h logical phys unwritten hmaps
    obtain ⟨e, he, hmaps⟩ := (maps_iff hformed).mp hmaps
    exact le_trans (h e he) hmaps.start_le

theorem Store.mem_freedBlocks {s : Store} (h : s.Sound readable d p) :
    b ∈ (s.freedCalls ff d p).flatMap FreeCall.blocks ↔
      (∃ e ∈ s.extentsOf d p, b ∈ (e.dropped ff).flatMap FreeCall.blocks) ∨
        b ∈ s.nodesOf d p ∧ s.Unused ff.toNat b := by
  induction d generalizing p with
  | zero =>
    rw [nodesOf_zero]
    simp only [not_mem_nil, false_and, or_false]
    unfold freedCalls collect extentsOf
    rw [flatMap_assoc]
    exact mem_flatMap
  | succ d ih =>
    have hnode : ∀ c ∈ (s.node p).children, ∀ x : UInt32,
        x ∈ (if ∀ e ∈ s.extentsOf d (.block c), ff.toNat ≤ e.start then
          [(⟨c, 1⟩ : FreeCall)] else []).flatMap FreeCall.blocks ↔
          x = c ∧ s.Unused ff.toNat c := by
      intro c hc x
      rw [unused_iff (h.child hc).formed (h.child hc).proper]
      split
      · rename_i hall
        rw [flatMap_singleton, FreeCall.blocks_one, mem_singleton]
        exact (and_iff_left hall).symm
      · rename_i hall
        simp only [flatMap_nil, not_mem_nil, false_iff]
        exact fun hand => hall hand.2
    have hstep : b ∈ (s.freedCalls ff (d + 1) p).flatMap FreeCall.blocks ↔
        ∃ c ∈ (s.node p).children, b ∈ (s.freedCalls ff d (.block c)).flatMap FreeCall.blocks ∨
          b = c ∧ s.Unused ff.toNat c := by
      rw [freedCalls_succ, flatMap_assoc, mem_flatMap]
      refine exists_congr fun c => and_congr_right fun hc => ?_
      rw [flatMap_append, mem_append, hnode c hc b]
    rw [hstep, nodesOf_succ]
    constructor
    · rintro ⟨c, hc, hb | ⟨rfl, hunused⟩⟩
      · rcases (ih (h.child hc)).mp hb with ⟨e, he, hb⟩ | ⟨hb, hunused⟩
        · exact .inl ⟨e, mem_flatMap.mpr ⟨c, hc, he⟩, hb⟩
        · exact .inr ⟨mem_flatMap.mpr ⟨c, hc, mem_append_left _ hb⟩, hunused⟩
      · refine .inr ⟨mem_flatMap.mpr ⟨b, hc, ?_⟩, hunused⟩
        exact mem_append_right _ (mem_singleton.mpr rfl)
    · rintro (⟨e, he, hb⟩ | ⟨hb, hunused⟩)
      · obtain ⟨c, hc, he⟩ := mem_flatMap.mp he
        exact ⟨c, hc, .inl ((ih (h.child hc)).mpr (.inl ⟨e, he, hb⟩))⟩
      · obtain ⟨c, hc, hb⟩ := mem_flatMap.mp hb
        rcases mem_append.mp hb with hb | hb
        · exact ⟨c, hc, .inl ((ih (h.child hc)).mpr (.inr ⟨hb, hunused⟩))⟩
        · obtain rfl := mem_singleton.mp hb
          exact ⟨b, hc, .inr ⟨rfl, hunused⟩⟩

theorem Slot.mem_dropped_blocks_iff_maps {e : Slot} :
    b ∈ (e.dropped ff).flatMap FreeCall.blocks ↔
      ∃ logical ≥ ff.toNat, ∃ unwritten, e.Maps logical b unwritten := by
  have hkeep : e.keep ff = min (ff.toNat - e.start) e.len := rfl
  rw [mem_dropped_blocks]
  constructor
  · rintro ⟨k, hlo, hhi, rfl⟩
    refine ⟨e.start + k, by omega, _, ⟨by omega, by omega, ?_, rfl⟩⟩
    rw [Nat.add_sub_cancel_left]
  · rintro ⟨logical, hge, unwritten, hlo, hhi, rfl, -⟩
    exact ⟨logical - e.start, by omega, by omega, rfl⟩

theorem Truncated.maps_iff (ht : Truncated g readable f f' calls) :
    f'.store.Maps .inode logical phys unwritten ↔
      ∃ e ∈ f.extents, logical < f.cutAt g ∧ e.Maps logical phys e.isUnwritten ∧
        (e.cut (firstFree g f.iSize)).isUnwritten = unwritten := by
  by_cases hex : ∃ e ∈ f.extents, e.start < f.cutAt g
  · rw [Store.maps_iff (ht.formed hex), ht.extents hex]
    constructor
    · rintro ⟨e', he', hmaps⟩
      obtain ⟨e, he, -, rfl⟩ := mem_cutExtents.mp he'
      exact ⟨e, he, maps_cut_iff.mp hmaps⟩
    · rintro ⟨e, he, hlt, hmaps, hstate⟩
      have hstart : e.start < f.cutAt g := lt_of_le_of_lt hmaps.start_le hlt
      exact ⟨_, mem_cutExtents.mpr ⟨e, he, hstart, rfl⟩, maps_cut_iff.mpr ⟨hlt, hmaps, hstate⟩⟩
  · have hall : ∀ e ∈ f.extents, f.cutAt g ≤ e.start :=
      fun e he => Nat.not_lt.mp fun hlt => hex ⟨e, he, hlt⟩
    constructor
    · intro hmaps
      exact absurd hmaps (not_maps_of_entries (ht.emptied hall))
    · rintro ⟨e, he, hlt, hmaps, -⟩
      have hge := hall e he
      have hle := hmaps.start_le
      omega

theorem ValidFile.unique (h : ValidFile g readable f) (he : e ∈ f.extents) (he' : e' ∈ f.extents)
    (hmaps : e.Maps logical phys unwritten) (hmaps' : e'.Maps logical phys' unwritten') :
    e = e' := by
  have h1 := hmaps.start_le
  have h2 := hmaps.lt_end
  have h3 := hmaps'.start_le
  have h4 := hmaps'.lt_end
  rcases eq_or_apart h.sorted he he' with heq | hapart
  · exact heq
  · omega

theorem extTruncate_unique
    (h : f.extTruncate g readable fuel = some r) (h' : f.extTruncate g readable fuel' = some r') :
    r = r' := by
  unfold File.extTruncate at h h'
  split at h
  · rename_i hother
    rw [if_pos hother] at h'
    exact (Option.some.inj h).symm.trans (Option.some.inj h')
  · rename_i hother
    rw [if_neg hother] at h'
    obtain ⟨w, hw, rfl⟩ := Option.map_eq_some_iff.mp h
    obtain ⟨w', hw', rfl⟩ := Option.map_eq_some_iff.mp h'
    have hsame := (truncateSubtree_le (le_max_left fuel fuel') hw).symm.trans
      (truncateSubtree_le (le_max_right fuel fuel') hw')
    rw [Option.some.inj hsame]

theorem ValidFile.truncatesRight (h : ValidFile g readable f)
    (hclean : ∀ e ∈ f.extents, CutsCleanly g (f.cutAt g) e) (ht : Truncated g readable f f' calls) :
    TruncatesRight g f f' calls where
  below := by
    intro logical hlt phys unwritten
    rw [ht.maps_iff, maps_iff h.formed]
    constructor
    · rintro ⟨e, he, -, hmaps, hstate⟩
      have hstart : e.start < f.cutAt g := lt_of_le_of_lt hmaps.start_le hlt
      rw [isUnwritten_cut (hclean e he).written hstart] at hstate
      exact ⟨e, he, hstate ▸ hmaps⟩
    · rintro ⟨e, he, hmaps⟩
      have hstart : e.start < f.cutAt g := lt_of_le_of_lt hmaps.start_le hlt
      have hstate := isUnwritten_cut (hclean e he).written hstart
      obtain rfl := hmaps.state
      exact ⟨e, he, hlt, hmaps, hstate⟩
  above := by
    intro logical hge phys unwritten hmaps
    obtain ⟨e, -, hlt, -⟩ := ht.maps_iff.mp hmaps
    omega
  accepted := ht.calls ▸ h.accepted hclean
  freed := by
    intro b
    rw [ht.calls, flatMap_append, mem_append, mem_freedBlocks h.sound]
    refine or_congr_right (or_congr_left ?_)
    simp only [mem_dropped_blocks_iff_maps, maps_iff h.formed]
    constructor
    · rintro ⟨e, he, logical, hge, unwritten, hmaps⟩
      exact ⟨logical, hge, unwritten, e, he, hmaps⟩
    · rintro ⟨logical, hge, unwritten, e, he, hmaps⟩
      exact ⟨e, he, logical, hge, unwritten, hmaps⟩
  once := ht.calls ▸ h.once

theorem ValidFile.cutsCleanly (h : ValidFile g readable f) (ht : Truncated g readable f f' calls)
    (hright : TruncatesRight g f f' calls) : ∀ e ∈ f.extents, CutsCleanly g (f.cutAt g) e := by
  intro e he
  refine ⟨fun hstart hend => ?_, h.one_group_of_accepted he fun c hc => ?_⟩
  · -- The first block of the extent stays mapped, in the state that the cut leaves.
    have hmaps : e.Maps e.start (e.eeStartLo + ofNat (e.start - e.start)) e.isUnwritten :=
      ⟨le_refl _, by omega, rfl, rfl⟩
    have hbefore := (maps_iff h.formed).mpr ⟨e, he, hmaps⟩
    obtain ⟨e', he', -, hmaps', hstate⟩ :=
      ht.maps_iff.mp ((hright.below e.start hstart _ _).mpr hbefore)
    obtain rfl := h.unique he he' hmaps hmaps'
    have hcut : e.keep (firstFree g f.iSize) < e.len := by
      have hkeep : e.keep (firstFree g f.iSize) = min (f.cutAt g - e.start) e.len := rfl
      omega
    rw [← hstate]
    exact isUnwritten_cut_of_lt _ e hcut
  · refine hright.accepted c ?_
    rw [ht.calls]
    exact mem_append_right _ hc

/-- `ext4_ext_truncate` of a file with a valid tree is right exactly when no unwritten extent is cut
and what is cut off an extent lies in one block group. -/
theorem truncates_right_iff_cuts_cleanly (g : Geometry) (readable : UInt32 → Bool) (f : File)
    (h : ValidFile g readable f) :
    (∃ fuel f' calls, f.extTruncate g readable fuel = some (f', calls) ∧
        TruncatesRight g f f' calls) ↔ ∀ e ∈ f.extents, CutsCleanly g (f.cutAt g) e := by
  obtain ⟨fuel, f', calls, hrun, ht⟩ := extTruncate_truncated h
  constructor
  · rintro ⟨fuel1, f1, calls1, hrun1, hright⟩
    obtain ⟨rfl, rfl⟩ := Prod.mk.inj (extTruncate_unique hrun hrun1)
    exact h.cutsCleanly ht hright
  · intro hclean
    exact ⟨fuel, f', calls, hrun, h.truncatesRight hclean ht⟩

end

def oneGroup : Geometry where
  firstDataBlock := 1
  blocksCount := 8193
  blocksPerGroup := 8192
  rBlocksCount := 0
  blockSize := 1024
  first_lt := by decide
  perGroup_pos := by decide
  aligned := by decide
  small := by decide
  blockSize_ge := by decide
  blockSize_le := by decide

def oneExtent (e : Slot) (iSize : UInt32) : File where
  fileType := .reg
  blockGroup := 0
  iSize := iSize
  iBlocks := 8
  preallocBlock := 0
  preallocCount := 0
  store := ⟨⟨⟨ext4ExtMagic, 1, 4, 0, 0⟩, fun _ => e⟩, fun _ => zeroNode⟩
  maps := ⟨fun _ _ => true, fun _ => 0, 0⟩

theorem Slot.nodup_blocks (e : Slot) : e.blocks.Nodup := by
  have hle := e.len_le
  refine List.Nodup.map_on (fun i hi j hj heq => ?_) nodup_range
  have heq := (UInt32.add_right_inj e.eeStartLo).mp heq
  have hi := mem_range.mp hi
  have hj := mem_range.mp hj
  have htoNat := congrArg toNat heq
  rw [toNat_ofNat', toNat_ofNat'] at htoNat
  omega

theorem valid_oneExtent (hproper : e.Proper) (hlo : 1 ≤ e.eeStartLo.toNat)
    (hhi : e.eeStartLo.toNat + e.len ≤ 8193) (iSize : UInt32) :
    ValidFile oneGroup (fun _ => true) (oneExtent e iSize) where
  fileType := fun hother => nomatch hother
  formed := ⟨rfl, rfl⟩
  sorted := pairwise_singleton _ e
  proper := fun e' he' => mem_singleton.mp he' ▸ hproper
  zone := fun e' he' => mem_singleton.mp he' ▸ ⟨hlo, hhi⟩
  nodes := fun b hb => absurd hb (by rw [show (oneExtent e iSize).depth = 0 from rfl]; simp)
  window := fun c hc => absurd hc not_mem_nil
  owned := by
    have howned : (oneExtent e iSize).store.ownedBy 0 .inode = e.blocks := append_nil _
    exact howned ▸ e.nodup_blocks

/-- A tree of depth 2: an index block and two leaves under it. -/
def indexedFile : File :=
  { oneExtent (Slot.index 0 50) 2048 with
    store :=
      { root := ⟨⟨ext4ExtMagic, 1, 4, 2, 0⟩, fun _ => Slot.index 0 50⟩
        block := fun b =>
          if b = 50 then
            ⟨⟨ext4ExtMagic, 2, 84, 1, 0⟩, fun i =>
              if i = 0 then Slot.index 0 51 else Slot.index 8 52⟩
          else if b = 51 then
            ⟨⟨ext4ExtMagic, 2, 84, 0, 0⟩, fun i =>
              if i = 0 then Slot.extent 0 4 100 else Slot.extent 4 4 200⟩
          else ⟨⟨ext4ExtMagic, 1, 84, 0, 0⟩, fun _ => Slot.extent 8 2 300⟩ } }

theorem indexedFile_extents :
    indexedFile.extents = [Slot.extent 0 4 100, Slot.extent 4 4 200, Slot.extent 8 2 300] := by
  decide

theorem valid_indexedFile : ValidFile oneGroup (fun _ => true) indexedFile where
  fileType := fun hother => nomatch hother
  formed := by
    have hroot : (indexedFile.store.node .inode).children = [50] := by decide
    have hindex : (indexedFile.store.node (.block 50)).children = [51, 52] := by decide
    refine ⟨rfl, rfl, fun b hb => ?_⟩
    obtain rfl : b = 50 := mem_singleton.mp (hroot ▸ hb)
    refine ⟨rfl, by decide, rfl, rfl, fun b hb => ?_⟩
    rw [hindex] at hb
    rcases mem_pair.mp hb with rfl | rfl <;> exact ⟨rfl, by decide, rfl, rfl⟩
  sorted := by
    rw [indexedFile_extents]
    decide
  proper := by
    rw [indexedFile_extents]
    intro e he
    simp only [mem_cons, not_mem_nil, or_false] at he
    rcases he with rfl | rfl | rfl <;> exact ⟨by decide, by decide⟩
  zone := by
    rw [indexedFile_extents]
    decide
  nodes := by
    have hnodes : indexedFile.store.nodesOf 2 .inode = [51, 52, 50] := by decide
    intro b hb
    rw [show indexedFile.depth = 2 from rfl, hnodes] at hb
    simp only [mem_cons, not_mem_nil, or_false] at hb
    rcases hb with rfl | rfl | rfl <;> decide
  window := fun c hc => absurd hc not_mem_nil
  owned := by decide

theorem indexed_file_truncates_right :
    ∃ fuel f' calls, indexedFile.extTruncate oneGroup (fun _ => true) fuel = some (f', calls) ∧
      TruncatesRight oneGroup indexedFile f' calls := by
  refine (truncates_right_iff_cuts_cleanly _ _ _ valid_indexedFile).mpr ?_
  rw [indexedFile_extents]
  intro e he
  simp only [mem_cons, not_mem_nil, or_false] at he
  rcases he with rfl | rfl | rfl <;> exact ⟨fun _ _ => rfl, fun _ => by decide⟩
/-- Four unwritten blocks are cut in the middle: the two that stay are written afterwards. -/
theorem cut_unwritten_extent_becomes_written :
    ValidFile oneGroup (fun _ => true) (oneExtent (Slot.extent 0 (2 ^ 15 + 4) 100) 2048) ∧
      ¬∃ fuel f' calls,
        (oneExtent (Slot.extent 0 (2 ^ 15 + 4) 100) 2048).extTruncate oneGroup
        (fun _ => true) fuel =
          some (f', calls) ∧
        TruncatesRight oneGroup (oneExtent (Slot.extent 0 (2 ^ 15 + 4) 100) 2048) f' calls := by
  have hvalid := valid_oneExtent (e := extent 0 (2 ^ 15 + 4) 100) ⟨by decide, by decide⟩
    (by decide) (by decide) 2048
  refine ⟨hvalid, ?_⟩
  rintro ⟨fuel, f', calls, hrun, hright⟩
  obtain ⟨fuel1, f1, calls1, hrun1, ht⟩ := extTruncate_truncated hvalid
  obtain ⟨rfl, rfl⟩ := Prod.mk.inj (extTruncate_unique hrun1 hrun)
  have hclean := hvalid.cutsCleanly ht hright _ (mem_singleton.mpr rfl)
  exact absurd (hclean.written (by decide) (by decide)) (by decide)

end Six.Ext4
