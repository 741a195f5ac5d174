import Six.Ext4.Tree
import Six.Ext4.Termination

/-! What `ext4_ext_truncate_subtree` does to a tree whose extents are sorted: every extent is cut at
the first block that is freed, and empty nodes are given back. -/

namespace Six.Ext4

open List UInt32 Store Node

namespace Slot

variable (firstFree : UInt32) (e : Slot)

def keep : Nat := min (firstFree.toNat - e.start) e.len

/-- The extent as it is left.  Its length is written as it is, so that a cut extent is a written
one. -/
def cut : Slot := if e.keep firstFree < e.len then e.setLen (UInt16.ofNat (e.keep firstFree)) else e

def dropped : List FreeCall :=
  if e.keep firstFree < e.len then
    [⟨e.eeStartLo + UInt32.ofNat (e.keep firstFree), UInt32.ofNat (e.len - e.keep firstFree)⟩]
  else []

structure Proper : Prop where
  len_pos : 0 < e.len
  end_le : e.start + e.len ≤ 2 ^ 32

@[simp] theorem start_cut : (e.cut firstFree).start = e.start := by
  unfold cut
  split <;> rfl

@[simp] theorem eeStartLo_cut : (e.cut firstFree).eeStartLo = e.eeStartLo := by
  unfold cut
  split <;> rfl

@[simp] theorem len_cut : (e.cut firstFree).len = e.keep firstFree := by
  have hle := e.len_le
  have hkeep : e.keep firstFree ≤ e.len := Nat.min_le_right _ _
  unfold cut
  split
  · rw [len_eq]
    unfold setLen eeLen extInitMaxLen
    rw [UInt16.toNat_ofNat', Nat.mod_eq_of_lt (by omega), if_pos (by omega)]
  · omega

theorem isUnwritten_cut_of_lt (h : e.keep firstFree < e.len) :
    (e.cut firstFree).isUnwritten = false := by
  have hle := e.len_le
  unfold cut
  rw [if_pos h]
  unfold isUnwritten setLen eeLen extInitMaxLen
  rw [UInt16.toNat_ofNat', Nat.mod_eq_of_lt (by omega)]
  simp
  omega

end Slot

variable (firstFree : UInt32)

def cutExtents (es : List Slot) : List Slot :=
  (es.filter fun e => e.start < firstFree.toNat).map (Slot.cut firstFree)

section

variable {t : TruncArgs} {p : Place} {w : Walk}

section

variable (w : Walk)

@[simp] theorem Walk.store_free (block count : UInt32) : (w.free block count).store = w.store := rfl

@[simp] theorem Walk.calls_free (block count : UInt32) :
    (w.free block count).calls = w.calls ++ [⟨block, count⟩] := rfl

@[simp] theorem Walk.store_uncharge (perBlock count : UInt32) :
    (w.uncharge perBlock count).store = w.store := rfl

@[simp] theorem Walk.calls_uncharge (perBlock count : UInt32) :
    (w.uncharge perBlock count).calls = w.calls := rfl

@[simp] theorem Walk.store_setNode (p : Place) (n : Node) :
    (w.setNode p n).store = w.store.setNode p n := rfl

@[simp] theorem Walk.calls_setNode (p : Place) (n : Node) : (w.setNode p n).calls = w.calls := rfl

@[simp] theorem Walk.calls_freeChild (b : UInt32) :
    (w.freeChild t b).calls = w.calls ++ [⟨b, 1⟩] := by
  unfold Walk.freeChild
  dsimp only
  split <;> rfl

@[simp] theorem Walk.calls_closeIndex (p : Place) (kept : Nat) :
    (w.closeIndex p kept).calls = w.calls := rfl

end

/-- What one turn of the loop over a leaf does with an extent that is not past the last block number
when it is cut. -/
structure ExtentCut (t : TruncArgs) (p : Place) (w w' : Walk) (i : Nat) : Prop where
  calls : w'.calls = w.calls ++ ((w.store.node p).slot i).dropped t.firstFree
  frame : ∀ q, q ≠ p → w'.store.node q = w.store.node q
  node : w'.store.node p =
    if ((w.store.node p).slot i).start < t.firstFree.toNat then
      (w.store.node p).setSlot i (((w.store.node p).slot i).cut t.firstFree)
    else w.store.node p

theorem truncateExtent_cut (hff : t.firstFree.toNat ≤ 2 ^ 22)
    (hproper : ((w.store.node p).slot i).Proper) :
    ExtentCut t p w (truncateExtent t p (w, kept) i).1 i ∧ (truncateExtent t p (w, kept) i).2 =
        if ((w.store.node p).slot i).start < t.firstFree.toNat then kept + 1 else kept := by
  set n := w.store.node p with hn
  set e := n.slot i with he
  have hpos := hproper.len_pos
  have hle := e.len_le
  have hkeepdef : e.keep t.firstFree = min (t.firstFree.toNat - e.start) e.len := rfl
  unfold truncateExtent
  dsimp only
  rw [← hn, ← he]
  by_cases hstart : e.start < t.firstFree.toNat
  · have hlt : ¬e.eeBlock ≥ t.firstFree := by
      rw [ge_iff_le, le_iff_toNat_le]
      exact Nat.not_le.mpr hstart
    have hend : (e.eeBlock + e.actualLen).toNat = e.start + e.len := by
      rw [UInt32.toNat_add]
      exact Nat.mod_eq_of_lt (by unfold Slot.start Slot.len at *; omega)
    rw [if_neg hlt, if_pos hstart]
    by_cases hpast : t.firstFree.toNat < e.start + e.len
    · have hkeep : (t.firstFree - e.eeBlock).toNat = e.keep t.firstFree := by
        rw [UInt32.toNat_sub_of_le _ _ (le_iff_toNat_le.mpr (Nat.le_of_lt hstart)), hkeepdef]
        change t.firstFree.toNat - e.start = _
        omega
      have hcut : e.keep t.firstFree < e.len := by omega
      have hkeep32 : t.firstFree - e.eeBlock = ofNat (e.keep t.firstFree) := by
        rw [← hkeep, UInt32.ofNat_toNat]
      have hdrop : e.actualLen - ofNat (e.keep t.firstFree) =
          ofNat (e.len - e.keep t.firstFree) := by
        apply UInt32.toNat_inj.mp
        have hk : (ofNat (e.keep t.firstFree)).toNat = e.keep t.firstFree := by
          rw [← hkeep32, hkeep]
        rw [UInt32.toNat_sub_of_le _ _ (le_iff_toNat_le.mpr (by
          rw [hk]; exact Nat.le_of_lt hcut)), hk, toNat_ofNat', Nat.mod_eq_of_lt (by omega)]
        rfl
      have hslot : e.setLen (ofNat (e.keep t.firstFree)).toUInt16 = e.cut t.firstFree := by
        unfold Slot.cut
        rw [if_pos hcut]
        congr 1
        apply UInt16.toNat_inj.mp
        rw [toNat_toUInt16, toNat_ofNat', UInt16.toNat_ofNat']
        omega
      rw [if_pos (by rw [gt_iff_lt, lt_iff_toNat_lt, hend]; exact hpast), hkeep32, hdrop, hslot]
      refine ⟨⟨?_, ?_, ?_⟩, rfl⟩
      · simp [← hn, ← he, Slot.dropped, hcut]
      · intro q hq
        exact node_setNode_ne hq
      · simp [← hn, ← he, hstart]
    · have hkeep : ¬e.keep t.firstFree < e.len := by omega
      rw [if_neg (by rw [gt_iff_lt, lt_iff_toNat_lt, hend]; exact hpast)]
      refine ⟨⟨?_, fun _ _ => rfl, ?_⟩, rfl⟩
      · simp [← hn, ← he, Slot.dropped, hkeep]
      · have hsame : n.setSlot i e = n := by
          unfold setSlot
          rw [he, Function.update_eq_self]
        simp [← hn, ← he, hstart, Slot.cut, hkeep, hsame]
  · have hge : e.eeBlock ≥ t.firstFree := le_iff_toNat_le.mpr (Nat.not_lt.mp hstart)
    have hkeep : e.keep t.firstFree = 0 := by omega
    rw [if_pos hge, if_neg hstart]
    refine ⟨⟨?_, fun _ _ => rfl, ?_⟩, rfl⟩
    · have hlen : ofNat e.len = e.actualLen := UInt32.ofNat_toNat
      simp [← hn, ← he, Slot.dropped, hkeep, hpos, hlen]
    · simp [← hn, ← he, hstart]

def Node.cutBefore (n : Node) (m : Nat) : Node :=
  { n with slot := fun i =>
      if i < m ∧ (n.slot i).start < firstFree.toNat then (n.slot i).cut firstFree else n.slot i }

theorem Node.cutBefore_succ (n : Node) (m : Nat) :
    n.cutBefore firstFree (m + 1) = if (n.slot m).start < firstFree.toNat then
        (n.cutBefore firstFree m).setSlot m ((n.slot m).cut firstFree)
      else n.cutBefore firstFree m := by
  split
  · rename_i hstart
    unfold cutBefore setSlot
    congr 1
    funext i
    by_cases hi : i = m
    · subst hi
      simp [hstart]
    · have hlt : i < m + 1 ↔ i < m := by omega
      simp [Function.update_of_ne hi, hlt]
  · rename_i hstart
    unfold cutBefore
    congr 1
    funext i
    by_cases hi : i = m
    · subst hi
      simp [hstart]
    · have hlt : i < m + 1 ↔ i < m := by omega
      simp [hlt]

theorem Node.slot_cutBefore_self (n : Node) (m : Nat) :
    (n.cutBefore firstFree m).slot m = n.slot m := by
  simp [cutBefore]

theorem foldl_truncateExtent (hff : t.firstFree.toNat ≤ 2 ^ 22) (m : Nat)
    (hproper : ∀ i < m, ((w.store.node p).slot i).Proper) :
    let r := (range m).foldl (truncateExtent t p) (w, 0)
    r.1.calls = w.calls ++
        (range m).flatMap (fun i => ((w.store.node p).slot i).dropped t.firstFree) ∧
      (∀ q, q ≠ p → r.1.store.node q = w.store.node q) ∧
      r.1.store.node p = (w.store.node p).cutBefore t.firstFree m ∧
      r.2 = ((range m).filter fun i =>
        ((w.store.node p).slot i).start < t.firstFree.toNat).length := by
  induction m with
  | zero =>
    refine ⟨(append_nil _).symm, fun _ _ => rfl, ?_, rfl⟩
    simp [cutBefore]
  | succ m ih =>
    obtain ⟨hcalls, hframe, hnode, hcount⟩ := ih fun i hi => hproper i (Nat.lt_succ_of_lt hi)
    rw [range_succ, foldl_append]
    generalize (range m).foldl (truncateExtent t p) (w, 0) = r at *
    obtain ⟨w1, kept⟩ := r
    dsimp only at *
    have hslot : (w1.store.node p).slot m = (w.store.node p).slot m := by
      rw [hnode, slot_cutBefore_self]
    obtain ⟨hone, hkept⟩ := truncateExtent_cut (p := p) (w := w1) (i := m) hff
      (hslot ▸ hproper m (Nat.lt_succ_self m))
    rw [foldl_cons, foldl_nil]
    refine ⟨?_, ?_, ?_, ?_⟩
    · rw [hone.calls, hcalls, hslot, flatMap_append, flatMap_singleton, append_assoc]
    · intro q hq
      rw [hone.frame q hq, hframe q hq]
    · rw [hone.node, hslot, hnode, cutBefore_succ]
    · rw [hkept, hslot, hcount, filter_append, length_append]
      by_cases hstart : ((w.store.node p).slot m).start < t.firstFree.toNat <;> simp [hstart]

theorem filter_eq_take {α : Type} {q : α → Bool} {l : List α}
    (h : l.Pairwise fun a b => q b = true → q a = true) :
    l.filter q = l.take (l.filter q).length := by
  induction l with
  | nil => rfl
  | cons a l ih =>
    obtain ⟨hhead, htail⟩ := pairwise_cons.mp h
    cases hq : q a with
    | true =>
      rw [filter_cons_of_pos hq, length_cons, take_succ_cons, ← ih htail]
    | false =>
      have hnone : l.filter q = [] := by
        refine filter_eq_nil_iff.mpr fun b hb hqb => ?_
        rw [hhead b hb hqb] at hq
        cases hq
      rw [filter_cons_of_neg (by simp [hq]), hnone]
      rfl

def Node.keptCount (n : Node) : Nat :=
  ((List.range n.entries).filter fun i => (n.slot i).start < firstFree.toNat).length

def Node.cutLeaf (n : Node) : Node :=
  (n.cutBefore firstFree n.entries).setEntries (n.keptCount firstFree)

theorem Node.keptCount_le (n : Node) : n.keptCount firstFree ≤ n.entries := by
  have hle := length_filter_le (fun i => (n.slot i).start < firstFree.toNat) (range n.entries)
  rwa [length_range] at hle

theorem Node.keptCount_eq_zero_iff (n : Node) :
    n.keptCount firstFree = 0 ↔ ∀ e ∈ n.extents, firstFree.toNat ≤ e.start := by
  unfold keptCount extents
  rw [length_eq_zero_iff, filter_eq_nil_iff]
  simp

@[simp] theorem Node.entries_cutLeaf (n : Node) :
    (n.cutLeaf firstFree).entries = n.keptCount firstFree := by
  have hle := n.keptCount_le firstFree
  have hlt := n.entries_lt
  exact entries_setEntries (by omega)

/-- The extents that start before `firstFree` come first, so that counting them is enough. -/
theorem Node.extents_cutLeaf {firstFree : UInt32} {n : Node}
    (h : n.extents.Pairwise fun a b => a.start + a.len ≤ b.start) :
    (n.cutLeaf firstFree).extents = cutExtents firstFree n.extents := by
  have hsorted : (range n.entries).Pairwise fun i j =>
      decide ((n.slot j).start < firstFree.toNat) = true →
        decide ((n.slot i).start < firstFree.toNat) = true := by
    refine (pairwise_map.mp h).imp fun {i j} hij => ?_
    simp only [decide_eq_true_eq]
    omega
  have hrange : range (n.keptCount firstFree) =
      (range n.entries).filter fun i => (n.slot i).start < firstFree.toNat := by
    rw [filter_eq_take hsorted, take_range]
    exact congrArg range (Nat.min_eq_left (n.keptCount_le firstFree)).symm
  rw [extents, entries_cutLeaf, hrange, cutExtents, extents, filter_map, map_map]
  refine map_congr_left fun i hi => ?_
  obtain ⟨hmem, hstart⟩ := mem_filter.mp hi
  have hstart : (n.slot i).start < firstFree.toNat := by simpa using hstart
  simp [cutLeaf, cutBefore, mem_range.mp hmem, hstart]

theorem truncateLeaf_spec (hff : t.firstFree.toNat ≤ 2 ^ 22)
    (hproper : ∀ e ∈ (w.store.node p).extents, e.Proper) : (truncateLeaf t p w).calls = w.calls ++
        (w.store.node p).extents.flatMap (Slot.dropped t.firstFree) ∧
      (∀ q, q ≠ p → (truncateLeaf t p w).store.node q = w.store.node q) ∧
      (truncateLeaf t p w).store.node p = (w.store.node p).cutLeaf t.firstFree := by
  obtain ⟨hcalls, hframe, hnode, hcount⟩ := foldl_truncateExtent (p := p) (w := w) hff
    (w.store.node p).entries
    fun i hi => hproper _ (mem_map.mpr ⟨i, mem_range.mpr hi, rfl⟩)
  refine ⟨hcalls.trans ?_, fun q hq => ?_, ?_⟩
  · rw [extents, flatMap_map]
  · exact (node_setNode_ne hq).trans (hframe q hq)
  · unfold truncateLeaf
    rw [Walk.store_setNode, node_setNode_same, hnode, hcount]
    rfl

def Store.freedCalls (s : Store) (firstFree : UInt32) : Nat → Place → List FreeCall :=
  s.collect (Slot.dropped firstFree) fun b es =>
    if ∀ e ∈ es, firstFree.toNat ≤ e.start then [⟨b, 1⟩] else []

theorem Store.freedCalls_succ (s : Store) (firstFree : UInt32) (d : Nat) (p : Place) :
    s.freedCalls firstFree (d + 1) p = (s.node p).children.flatMap fun b =>
      s.freedCalls firstFree d (.block b) ++
        if ∀ e ∈ s.extentsOf d (.block b), firstFree.toNat ≤ e.start then [⟨b, 1⟩] else [] := rfl

structure Store.Sound (s : Store) (readable : UInt32 → Bool) (d : Nat) (p : Place) : Prop where
  formed : s.Formed readable d p
  sorted : (s.extentsOf d p).Pairwise fun a b => a.start + a.len ≤ b.start
  proper : ∀ e ∈ s.extentsOf d p, e.Proper
  nodes : (s.placesOf d p).Nodup

/-- A node after a walk: the magic and the room are the same, and there are no more entries. -/
structure Node.Shrunk (n n' : Node) : Prop where
  magic : n'.hdr.ehMagic = n.hdr.ehMagic
  ehMax : n'.hdr.ehMax = n.hdr.ehMax
  entries : n'.entries ≤ n.entries

theorem Node.Shrunk.refl (n : Node) : n.Shrunk n := ⟨rfl, rfl, le_refl _⟩

theorem Node.Shrunk.trans {n n' n'' : Node} (h : n.Shrunk n') (h' : n'.Shrunk n'') : n.Shrunk n'' :=
  ⟨h'.magic.trans h.magic, h'.ehMax.trans h.ehMax, h'.entries.trans h.entries⟩

/-- What a walk leaves of a subtree: an empty node, or a subtree with the extents cut. -/
structure CutTo (t : TruncArgs) (d : Nat) (p : Place) (s s' : Store) : Prop where
  emptied : (∀ e ∈ s.extentsOf d p, t.firstFree.toNat ≤ e.start) →
    (s'.node p).entries = 0 ∧ (s'.node p).hdr.ehDepth = 0
  entries : (∃ e ∈ s.extentsOf d p, e.start < t.firstFree.toNat) → (s'.node p).entries ≠ 0
  formed : (∃ e ∈ s.extentsOf d p, e.start < t.firstFree.toNat) → s'.Formed t.readable d p
  extents : (∃ e ∈ s.extentsOf d p, e.start < t.firstFree.toNat) →
    s'.extentsOf d p = cutExtents t.firstFree (s.extentsOf d p)
  nodes : (∃ e ∈ s.extentsOf d p, e.start < t.firstFree.toNat) →
    s'.nodesOf d p ⊆ s.nodesOf d p

structure SubtreeCut (t : TruncArgs) (d : Nat) (p : Place) (w w' : Walk) : Prop where
  frame : ∀ q, q ∉ w.store.placesOf d p → w'.store.node q = w.store.node q
  shrunk : ∀ q, (w.store.node q).Shrunk (w'.store.node q)
  calls : w'.calls = w.calls ++ w.store.freedCalls t.firstFree d p
  cut : CutTo t d p w.store w'.store

theorem truncateLeaf_cut (hff : t.firstFree.toNat ≤ 2 ^ 22)
    (h : w.store.Sound t.readable 0 p) : SubtreeCut t 0 p w (truncateLeaf t p w) := by
  obtain ⟨hcalls, hframe, hnode⟩ := truncateLeaf_spec (p := p) (w := w) hff h.proper
  have hzero := keptCount_eq_zero_iff t.firstFree (w.store.node p)
  refine ⟨fun q hq => ?_, fun q => ?_, hcalls,
    ⟨fun hall => ?_, fun hex => ?_, fun _ => ?_, fun _ => ?_,
    fun _ => ?_⟩⟩
  · exact hframe q fun heq => hq (heq ▸ mem_cons_self)
  · by_cases hq : q = p
    · subst hq
      rw [hnode]
      exact ⟨rfl, rfl, by rw [entries_cutLeaf]; exact keptCount_le _ _⟩
    · rw [hframe q hq]
      exact .refl _
  · rw [hnode, entries_cutLeaf]
    exact ⟨hzero.mpr hall, UInt16.toNat_inj.mp h.formed.2⟩
  · obtain ⟨e, he, hstart⟩ := hex
    rw [hnode, entries_cutLeaf]
    exact fun hkept => Nat.not_lt.mpr (hzero.mp hkept e he) hstart
  · unfold Store.Formed
    rw [hnode]
    exact h.formed
  · unfold extentsOf
    rw [hnode]
    exact extents_cutLeaf h.sorted
  · rw [nodesOf_zero]
    exact nil_subset _

section

variable {s s' s'' : Store} {d : Nat} {readable : UInt32 → Bool} {b : UInt32} {firstFree : UInt32}
  {n : Node} {rest : List UInt32}

theorem Store.mem_placesOf_block :
    q ∈ s.placesOf d (.block b) ↔ ∃ c ∈ s.nodesOf d (.block b) ++ [b], q = .block c := by
  simp only [placesOf, mem_cons, mem_map, mem_append, not_mem_nil, or_false]
  constructor
  · rintro (rfl | ⟨c, hc, rfl⟩)
    · exact ⟨b, .inr rfl, rfl⟩
    · exact ⟨c, .inl hc, rfl⟩
  · rintro ⟨c, hc | rfl, rfl⟩
    · exact .inr ⟨c, hc, rfl⟩
    · exact .inl rfl

theorem Store.placesOf_congr (h : ∀ q ∈ s.placesOf d p, s'.node q = s.node q) :
    s'.placesOf d p = s.placesOf d p := by
  unfold placesOf nodesOf
  rw [collect_congr h]

theorem Store.Sound.congr (h : s.Sound readable d p)
    (hsame : ∀ q ∈ s.placesOf d p, s'.node q = s.node q) : s'.Sound readable d p where
  formed := h.formed.congr hsame
  sorted := by rw [extentsOf_congr hsame]; exact h.sorted
  proper := by rw [extentsOf_congr hsame]; exact h.proper
  nodes := by rw [placesOf_congr hsame]; exact h.nodes

section

variable (h : s.Sound readable (d + 1) p)
include h

theorem Store.Sound.child (hb : b ∈ (s.node p).children) :
    s.Sound readable d (.block b) where
  formed := (h.formed.2.2 b hb).2.2
  sorted := (pairwise_flatMap.mp h.sorted).1 b hb
  proper := fun e he => h.proper e (mem_flatMap.mpr ⟨b, hb, he⟩)
  nodes := by
    have hbelow := (nodup_cons.mp h.nodes).2
    have hnodes := (nodup_flatMap.mp (List.Nodup.of_map _ hbelow)).1 b hb
    have hperm : (s.nodesOf d (.block b) ++ [b]).Perm (b :: s.nodesOf d (.block b)) :=
      perm_append_singleton _ _
    exact (hperm.nodup_iff.mp hnodes).map fun c c' => Place.block.inj

theorem Store.Sound.apart :
    (s.node p).children.Pairwise fun b c =>
      ∀ q ∈ s.placesOf d (.block b), q ∉ s.placesOf d (.block c) := by
  have hbelow := (nodup_cons.mp h.nodes).2
  refine (nodup_flatMap.mp (List.Nodup.of_map _ hbelow)).2.imp fun {b c} hdisj q hq hq' => ?_
  obtain ⟨x, hx, rfl⟩ := mem_placesOf_block.mp hq
  obtain ⟨y, hy, heq⟩ := mem_placesOf_block.mp hq'
  exact hdisj hx (Place.block.inj heq ▸ hy)

theorem Store.Sound.not_mem_child (hb : b ∈ (s.node p).children) : p ∉ s.placesOf d (.block b) := by
  intro hp
  obtain ⟨c, hc, rfl⟩ := mem_placesOf_block.mp hp
  refine (nodup_cons.mp h.nodes).1 (mem_map.mpr ⟨c, ?_, rfl⟩)
  exact mem_flatMap.mpr ⟨b, hb, hc⟩

end

theorem CutTo.congr_left (h : CutTo t d p s' s'')
    (hsame : ∀ q ∈ s.placesOf d p, s'.node q = s.node q) : CutTo t d p s s'' := by
  obtain ⟨hemptied, hentries, hformed, hextents, hnodes⟩ := h
  rw [extentsOf_congr hsame] at *
  refine ⟨hemptied, hentries, hformed, hextents, fun hex => ?_⟩
  have := hnodes hex
  unfold nodesOf at *
  rwa [collect_congr hsame] at this

theorem CutTo.congr_right (h : CutTo t d p s s')
    (hsame : ∀ q ∈ s.placesOf d p, s''.node q = s'.node q) : CutTo t d p s s'' := by
  have hroot : s''.node p = s'.node p := hsame p mem_cons_self
  have hall : (∃ e ∈ s.extentsOf d p, e.start < t.firstFree.toNat) →
      ∀ q ∈ s'.placesOf d p, s''.node q = s'.node q := by
    intro hex q hq
    refine hsame q ?_
    rcases mem_cons.mp hq with rfl | hq
    · exact mem_cons_self
    · obtain ⟨c, hc, rfl⟩ := mem_map.mp hq
      exact mem_cons_of_mem _ (mem_map.mpr ⟨c, h.nodes hex hc, rfl⟩)
  refine ⟨?_, ?_, fun hex => ?_, fun hex => ?_, fun hex => ?_⟩
  · rw [hroot]
    exact h.emptied
  · rw [hroot]
    exact h.entries
  · exact (h.formed hex).congr (hall hex)
  · rw [extentsOf_congr (hall hex)]
    exact h.extents hex
  · unfold nodesOf
    rw [collect_congr (hall hex)]
    exact h.nodes hex

def Store.survives (s : Store) (firstFree : UInt32) (d : Nat) (b : UInt32) : Bool :=
  (s.extentsOf d (.block b)).any fun e => e.start < firstFree.toNat

theorem Store.survives_iff :
    s.survives firstFree d b = true ↔
      ∃ e ∈ s.extentsOf d (.block b), e.start < firstFree.toNat := by
  simp [survives]

theorem Store.not_survives_iff :
    s.survives firstFree d b = false ↔
      ∀ e ∈ s.extentsOf d (.block b), firstFree.toNat ≤ e.start := by
  simp [survives]

def Node.closed (n : Node) (kept : Nat) : Node :=
  if kept = 0 then (n.setEntries kept).setDepth 0 else n.setEntries kept

theorem Node.children_drop (h : n.children.drop i = b :: rest) :
    i < n.entries ∧ (n.slot i).eiLeafLo = b ∧ n.children.drop (i + 1) = rest := by
  have hlen : n.children.length = n.entries := by simp [children]
  have hi : i < n.children.length := by
    by_contra hge
    rw [drop_eq_nil_of_le (Nat.not_lt.mp hge)] at h
    cases h
  rw [drop_eq_getElem_cons hi] at h
  obtain ⟨hhead, hrest⟩ := cons.inj h
  exact ⟨hlen ▸ hi, by simpa [children] using hhead, hrest⟩

structure IndexCut (t : TruncArgs) (d : Nat) (p : Place) (rest : List UInt32) (kept : Nat)
    (w w' : Walk) : Prop where
  frame : ∀ q, q ≠ p → (∀ b ∈ rest, q ∉ w.store.placesOf d (.block b)) →
    w'.store.node q = w.store.node q
  node : w'.store.node p = (w.store.node p).closed
    (kept + (rest.filter (w.store.survives t.firstFree d)).length)
  shrunk : ∀ q, q ≠ p → (w.store.node q).Shrunk (w'.store.node q)
  calls : w'.calls = w.calls ++ rest.flatMap fun b =>
    w.store.freedCalls t.firstFree d (.block b) ++
      if ∀ e ∈ w.store.extentsOf d (.block b), t.firstFree.toNat ≤ e.start then [⟨b, 1⟩] else []
  cut : ∀ b ∈ rest, CutTo t d (.block b) w.store w'.store

theorem IndexCut.nil (t : TruncArgs) (d : Nat) (p : Place) (kept : Nat) (w : Walk) :
    IndexCut t d p [] kept w (w.closeIndex p kept) := by
  have hframe : ∀ q, q ≠ p → (w.closeIndex p kept).store.node q = w.store.node q :=
    fun q hq => node_setNode_ne hq
  refine ⟨fun q hq _ => hframe q hq, node_setNode_same _ _ _, fun q hq => ?_,
    (append_nil _).symm, fun b hb => absurd hb not_mem_nil⟩
  rw [hframe q hq]
  exact .refl _

theorem IndexCut.cons (hsub : SubtreeCut t d (.block b) w w1)
    (hp : p ∉ w.store.placesOf d (.block b))
    (hapart : ∀ c ∈ rest, ∀ q ∈ w.store.placesOf d (.block b), q ∉ w.store.placesOf d (.block c))
    (hstore : w2.store = w1.store)
    (hsame : ∀ c ∈ rest, ∀ q ∈ w.store.placesOf d (.block c), w2.store.node q = w.store.node q)
    (hcalls : w2.calls = w1.calls ++
      if ∀ e ∈ w.store.extentsOf d (.block b), t.firstFree.toNat ≤ e.start then [⟨b, 1⟩] else [])
    (hkept : kept' = if w.store.survives t.firstFree d b then kept + 1 else kept)
    (hrest : IndexCut t d p rest kept' w2 w') : IndexCut t d p (b :: rest) kept w w' := by
  have hplaces : ∀ c ∈ rest, w2.store.placesOf d (.block c) = w.store.placesOf d (.block c) :=
    fun c hc => placesOf_congr (hsame c hc)
  have hextents : ∀ c ∈ rest, w2.store.extentsOf d (.block c) = w.store.extentsOf d (.block c) :=
    fun c hc => extentsOf_congr (hsame c hc)
  refine ⟨fun q hq hout => ?_, ?_, fun q hq => ?_, ?_, fun c hc => ?_⟩
  · rw [hrest.frame q hq fun c hc => ?_, hstore, hsub.frame q (hout b mem_cons_self)]
    rw [hplaces c hc]
    exact hout c (mem_cons_of_mem _ hc)
  · have hfilter : rest.filter (w2.store.survives t.firstFree d) =
        rest.filter (w.store.survives t.firstFree d) := by
      refine filter_congr fun c hc => ?_
      unfold survives
      rw [hextents c hc]
    rw [hrest.node, hfilter, hstore, hsub.frame p hp, hkept]
    congr 1
    cases hb : w.store.survives t.firstFree d b with
    | true =>
      rw [filter_cons_of_pos hb, length_cons]
      simp only [if_true]
      omega
    | false => rw [filter_cons_of_neg (by simp [hb])]; rfl
  · exact (hsub.shrunk q).trans (hstore ▸ hrest.shrunk q hq)
  · rw [hrest.calls, hcalls, hsub.calls, flatMap_cons, append_assoc, append_assoc, append_assoc]
    congr 3
    refine flatMap_congr fun c hc => ?_
    unfold freedCalls
    rw [hextents c hc, collect_congr (hsame c hc)]
  · rcases mem_cons.mp hc with rfl | hc
    · refine hsub.cut.congr_right fun q hq => ?_
      rw [hrest.frame q (fun heq => hp (heq ▸ hq)) fun c' hc' => ?_, hstore]
      rw [hplaces c' hc']
      exact hapart c' hc' q hq
    · exact (hrest.cut c hc).congr_left (hsame c hc)

theorem truncateIndex_cut (rest : List UInt32) (ih : ∀ b w, w.store.Sound t.readable d (.block b) →
      ∃ fuel w', truncateSubtree t fuel (.block b) w = some w' ∧ SubtreeCut t d (.block b) w w')
    (hdrop : (w.store.node p).children.drop i = rest) (hread : ∀ b ∈ rest, t.readable b = true)
    (hsound : ∀ b ∈ rest, w.store.Sound t.readable d (.block b)) (hapart : rest.Pairwise fun b c =>
      ∀ q ∈ w.store.placesOf d (.block b), q ∉ w.store.placesOf d (.block c))
    (hp : ∀ b ∈ rest, p ∉ w.store.placesOf d (.block b)) :
    ∃ fuel w', truncateIndex t fuel p i kept w = some w' ∧ IndexCut t d p rest kept w w' := by
  induction rest generalizing i kept w with
  | nil =>
    have hlen : (w.store.node p).children.length = (w.store.node p).entries := by
      simp [children]
    have hge := drop_eq_nil_iff.mp hdrop
    refine ⟨1, w.closeIndex p kept, ?_, IndexCut.nil t d p kept w⟩
    rw [truncateIndex]
    exact if_neg (by omega)
  | cons b rest ihrest =>
    obtain ⟨hi, hslot, hdrop⟩ := children_drop hdrop
    obtain ⟨hhead, htail⟩ := pairwise_cons.mp hapart
    have hpb := hp b mem_cons_self
    obtain ⟨fuel1, w1, hw1, hsub⟩ := ih b w (hsound b mem_cons_self)
    have hcut := hsub.cut
    -- The child is given back when none of its extents is left.
    set kept' := if w.store.survives t.firstFree d b then kept + 1 else kept with hkept
    set w2 := if w.store.survives t.firstFree d b then w1 else w1.freeChild t b with hw2
    have hstore : w2.store = w1.store := by
      rw [hw2]
      split
      · rfl
      · exact store_freeChild w1 b
    have hcalls : w2.calls = w1.calls ++
        if ∀ e ∈ w.store.extentsOf d (.block b), t.firstFree.toNat ≤ e.start then [⟨b, 1⟩]
        else [] := by
      rw [hw2]
      cases hb : w.store.survives t.firstFree d b with
      | true =>
        obtain ⟨e, he, hstart⟩ := survives_iff.mp hb
        rw [if_pos rfl, if_neg fun hall => Nat.not_lt.mpr (hall e he) hstart, append_nil]
      | false =>
        rw [if_neg (by decide), if_pos (not_survives_iff.mp hb), Walk.calls_freeChild]
    -- The subtrees that come later are as they were.
    have hsame : ∀ c ∈ rest, ∀ q ∈ w.store.placesOf d (.block c),
        w2.store.node q = w.store.node q := by
      intro c hc q hq
      rw [hstore]
      exact hsub.frame q fun hq' => hhead c hc q hq' hq
    have hplaces : ∀ c ∈ rest, w2.store.placesOf d (.block c) = w.store.placesOf d (.block c) :=
      fun c hc => placesOf_congr (hsame c hc)
    have hnode : w2.store.node p = w.store.node p := by
      rw [hstore]
      exact hsub.frame p hpb
    obtain ⟨fuel2, w', hw', hrest⟩ := ihrest (w := w2)
      (by rw [hnode]; exact hdrop)
      (fun c hc => hread c (mem_cons_of_mem _ hc))
      (fun c hc => (hsound c (mem_cons_of_mem _ hc)).congr (hsame c hc))
      (htail.imp_of_mem fun {c c'} hc hc' hdisj => by
        rw [hplaces c hc, hplaces c' hc']
        exact hdisj)
      (fun c hc => by rw [hplaces c hc]; exact hp c (mem_cons_of_mem _ hc))
    refine ⟨max fuel1 fuel2 + 1, w', ?_,
      IndexCut.cons hsub hpb hhead hstore hsame hcalls hkept hrest⟩
    rw [truncateIndex]
    rw [if_pos hi, hslot, if_pos (hread b mem_cons_self),
      truncateSubtree_le (le_max_left fuel1 fuel2) hw1]
    have hw' := truncateIndex_le (le_max_right fuel1 fuel2) hw'
    cases hb : w.store.survives t.firstFree d b with
    | true =>
      rw [hb] at hw2 hkept
      have hentries : (w1.store.node (.block b)).entries ≠ 0 := hcut.entries (survives_iff.mp hb)
      rw [hkept, hw2] at hw'
      exact (if_neg hentries).trans hw'
    | false =>
      rw [hb] at hw2 hkept
      have hentries : (w1.store.node (.block b)).entries = 0 :=
        (hcut.emptied (not_survives_iff.mp hb)).1
      rw [hkept, hw2] at hw'
      exact (if_pos hentries).trans hw'

theorem Store.exists_mem_extentsOf (h : s.Formed readable d p) (hentries : (s.node p).entries ≠ 0) :
    ∃ e, e ∈ s.extentsOf d p := by
  have hzero : 0 ∈ range (s.node p).entries := mem_range.mpr (Nat.pos_of_ne_zero hentries)
  induction d generalizing p with
  | zero => exact ⟨_, mem_map.mpr ⟨0, hzero, rfl⟩⟩
  | succ d ih =>
    have hb : ((s.node p).slot 0).eiLeafLo ∈ (s.node p).children := mem_map.mpr ⟨0, hzero, rfl⟩
    obtain ⟨-, hne, hsub⟩ := h.2.2 _ hb
    obtain ⟨e, he⟩ := ih hsub hne (mem_range.mpr (Nat.pos_of_ne_zero hne))
    exact ⟨e, mem_flatMap.mpr ⟨_, hb, he⟩⟩

theorem Store.Sound.filter_survives (h : s.Sound readable (d + 1) p) (firstFree : UInt32) :
    (s.node p).children.filter (s.survives firstFree d) = (s.node p).children.take
        ((s.node p).children.filter (s.survives firstFree d)).length := by
  refine filter_eq_take ?_
  refine (pairwise_flatMap.mp h.sorted).2.imp_of_mem fun {b c} hb _ hle hc => ?_
  obtain ⟨e, he, hstart⟩ := survives_iff.mp hc
  obtain ⟨-, hne, hformed⟩ := h.formed.2.2 b hb
  obtain ⟨e', he'⟩ := exists_mem_extentsOf hformed hne
  have := hle e' he' e he
  exact survives_iff.mpr ⟨e', he', by omega⟩

theorem flatMap_filter_of_nil {α β : Type} {q : α → Bool} {f : α → List β} {l : List α}
    (h : ∀ x ∈ l, q x = false → f x = []) : (l.filter q).flatMap f = l.flatMap f := by
  induction l with
  | nil => rfl
  | cons x l ih =>
    have ih := ih fun y hy => h y (mem_cons_of_mem _ hy)
    cases hq : q x with
    | true => rw [filter_cons_of_pos hq, flatMap_cons, flatMap_cons, ih]
    | false =>
      rw [filter_cons_of_neg (by simp [hq]), flatMap_cons, h x mem_cons_self hq, ih, nil_append]

theorem cutExtents_eq_nil (h : ∀ e ∈ es, firstFree.toNat ≤ e.start) :
    cutExtents firstFree es = [] := by
  unfold cutExtents
  rw [filter_eq_nil_iff.mpr, map_nil]
  intro e he
  simpa using h e he

theorem Node.children_setEntries (h : k ≤ n.entries) :
    (n.setEntries k).children = n.children.take k := by
  have hlt := n.entries_lt
  unfold children
  rw [entries_setEntries (by omega), ← map_take, take_range, Nat.min_eq_left h]
  rfl

theorem Node.shrunk_closed (h : k ≤ n.entries) : n.Shrunk (n.closed k) := by
  have hlt := n.entries_lt
  have hentries : (n.setEntries k).entries ≤ n.entries := by
    rw [entries_setEntries (by omega)]
    exact h
  unfold closed
  split
  · exact ⟨rfl, rfl, hentries⟩
  · exact ⟨rfl, rfl, hentries⟩

theorem IndexCut.subtree {w' : Walk} (h : w.store.Sound t.readable (d + 1) p)
    (hcut : IndexCut t d p (w.store.node p).children 0 w w') : SubtreeCut t (d + 1) p w w' := by
  set n := w.store.node p with hn
  set k := (n.children.filter (w.store.survives t.firstFree d)).length with hk
  have hnode : w'.store.node p = n.closed k := by rw [hcut.node, Nat.zero_add]
  have hle : k ≤ n.entries := by
    have hlen : n.children.length = n.entries := by simp [children]
    exact hlen ▸ length_filter_le _ _
  have hlt := n.entries_lt
  have hsurvivor : (∃ e ∈ w.store.extentsOf (d + 1) p, e.start < t.firstFree.toNat) → k ≠ 0 := by
    rintro ⟨e, he, hstart⟩ hzero
    obtain ⟨b, hb, he⟩ := mem_flatMap.mp he
    have hmem : b ∈ n.children.filter (w.store.survives t.firstFree d) :=
      mem_filter.mpr ⟨hb, survives_iff.mpr ⟨e, he, hstart⟩⟩
    rw [length_eq_zero_iff.mp hzero] at hmem
    cases hmem
  have hclosed : k ≠ 0 → w'.store.node p = n.setEntries k := fun hne => hnode.trans (if_neg hne)
  have hchildren : k ≠ 0 → (w'.store.node p).children =
      n.children.filter (w.store.survives t.firstFree d) := by
    intro hne
    rw [hclosed hne, children_setEntries hle, h.filter_survives]
  refine ⟨fun q hq => ?_, fun q => ?_, hcut.calls, ⟨fun hall => ?_, fun hex => ?_, fun hex => ?_,
    fun hex => ?_, fun hex => ?_⟩⟩
  · refine hcut.frame q (fun heq => hq (heq ▸ mem_cons_self)) fun b hb hq' => ?_
    exact hq (mem_placesOf_child hb hq')
  · by_cases hq : q = p
    · subst hq
      rw [hnode]
      exact shrunk_closed hle
    · exact hcut.shrunk q hq
  · have hzero : k = 0 := by
      rw [hk, length_eq_zero_iff, filter_eq_nil_iff]
      intro b hb hsurvives
      obtain ⟨e, he, hstart⟩ := survives_iff.mp hsurvives
      exact Nat.not_lt.mpr (hall e (mem_flatMap.mpr ⟨b, hb, he⟩)) hstart
    rw [hnode, hzero]
    exact ⟨rfl, rfl⟩
  · rw [hclosed (hsurvivor hex), entries_setEntries (by omega)]
    exact hsurvivor hex
  · have hne := hsurvivor hex
    unfold Store.Formed
    rw [hchildren hne, hclosed hne]
    refine ⟨h.formed.1, h.formed.2.1, fun b hb => ?_⟩
    obtain ⟨hmem, hsurvives⟩ := mem_filter.mp hb
    have hex := survives_iff.mp hsurvives
    exact ⟨(h.formed.2.2 b hmem).1, (hcut.cut b hmem).entries hex, (hcut.cut b hmem).formed hex⟩
  · rw [extentsOf, hchildren (hsurvivor hex), extentsOf]
    have hsub : (n.children.filter (w.store.survives t.firstFree d)).flatMap
        (fun b => w'.store.extentsOf d (.block b)) =
        (n.children.filter (w.store.survives t.firstFree d)).flatMap
          fun b => cutExtents t.firstFree (w.store.extentsOf d (.block b)) := by
      refine flatMap_congr fun b hb => ?_
      obtain ⟨hmem, hsurvives⟩ := mem_filter.mp hb
      exact (hcut.cut b hmem).extents (survives_iff.mp hsurvives)
    rw [hsub, flatMap_filter_of_nil fun b _ hb => cutExtents_eq_nil (not_survives_iff.mp hb)]
    unfold cutExtents
    rw [filter_flatMap, map_flatMap]
  · intro c hc
    rw [nodesOf_succ, hchildren (hsurvivor hex)] at hc
    obtain ⟨b, hb, hc⟩ := mem_flatMap.mp hc
    obtain ⟨hmem, hsurvives⟩ := mem_filter.mp hb
    refine mem_flatMap.mpr ⟨b, hmem, ?_⟩
    rcases mem_append.mp hc with hc | hc
    · exact mem_append_left _ ((hcut.cut b hmem).nodes (survives_iff.mp hsurvives) hc)
    · exact mem_append_right _ hc

end

theorem truncateSubtree_cut (hff : t.firstFree.toNat ≤ 2 ^ 22) (d : Nat)
    (h : w.store.Sound t.readable d p) :
    ∃ fuel w', truncateSubtree t fuel p w = some w' ∧ SubtreeCut t d p w w' := by
  induction d generalizing p w with
  | zero =>
    have hdepth : (w.store.node p).hdr.ehDepth = 0 := UInt16.toNat_inj.mp h.formed.2
    refine ⟨1, truncateLeaf t p w, ?_, truncateLeaf_cut hff h⟩
    rw [truncateSubtree]
    rw [if_neg (not_not.mpr h.formed.1), if_pos hdepth]
  | succ d ih =>
    obtain ⟨hmagic, hdepth, hchild⟩ := h.formed
    have hne : (w.store.node p).hdr.ehDepth ≠ 0 := by
      intro hzero
      rw [hzero] at hdepth
      exact absurd hdepth (Nat.succ_ne_zero d).symm
    obtain ⟨fuel, w', hw', hcut⟩ := truncateIndex_cut (p := p) (w := w) (i := 0)
      (w.store.node p).children (fun b w hb => ih hb) rfl (fun b hb => (hchild b hb).1)
      (fun b hb => h.child hb) h.apart fun b hb => h.not_mem_child hb
    refine ⟨fuel + 1, w', ?_, hcut.subtree h⟩
    rw [truncateSubtree]
    rw [if_neg (not_not.mpr hmagic), if_neg hne]
    exact hw'

end

end Six.Ext4
