import Six.Ext4.Extent
import Mathlib.Data.Fintype.Option

/-! The walks over an extent tree end exactly when the index entries do not lead from the inode into
a cycle. -/

namespace Six.Ext4

open Lib Store Node

variable {s s' : Store} {p p' : Place} {readable : UInt32 → Bool} {iblock b : UInt32} {fuel : Nat}

def Store.Child (s : Store) (readable : UInt32 → Bool) (p p' : Place) : Prop :=
  (s.node p).isIndex = true ∧ ∃ i < (s.node p).entries, ∃ b, ((s.node p).slot i).eiLeafLo = b ∧
    readable b = true ∧ p' = .block b

structure WalksEnd (s : Store) (readable : UInt32 → Bool) : Prop where
  findLeaf : ∀ iblock, ∃ fuel r, s.findLeaf readable iblock fuel = some r
  truncate : ∀ perBlock firstFree iBlocks calls, ∃ fuel w,
    truncateSubtree ⟨readable, perBlock, firstFree⟩ fuel .inode ⟨s, iBlocks, calls⟩ = some w

theorem Store.child_of_descend (hmagic : (s.node p).hdr.ehMagic = ext4ExtMagic)
    (h : s.descend readable iblock p = .next b) : s.Child readable p (.block b) ∧
      (s.block b).hdr.ehMagic = ext4ExtMagic := by
  unfold descend at h
  dsimp only at h
  split at h
  · cases h
  · rename_i hdepth
    split at h
    · cases h
    · rename_i hentries
      split at h
      · cases h
      · rename_i hread
        split at h
        · cases h
        · rename_i hnext
          obtain rfl := Descent.next.inj h
          have hlen := (List.takeWhile_sublist (l := List.range (s.node p).entries)
            fun i => decide (((s.node p).slot i).eiBlock ≤ iblock)).length_le
          rw [List.length_range] at hlen
          refine ⟨⟨isIndex_iff.mpr ⟨hmagic, hdepth⟩, _, ?_, _,
            rfl, by simpa [target] using hread, rfl⟩,
            not_not.mp hnext⟩
          omega

theorem Store.findLeafFrom_ends (hmagic : (s.node p).hdr.ehMagic = ext4ExtMagic)
    (h : Ends (s.Child readable) p) (iblock : UInt32) :
    ∃ fuel r, s.findLeafFrom readable iblock fuel p = some r := by
  induction h with
  | intro p _ ih =>
    cases hstep : s.descend readable iblock p with
    | leaf => exact ⟨1, some p, by rw [findLeafFrom, hstep]⟩
    | failed => exact ⟨1, none, by rw [findLeafFrom, hstep]⟩
    | next b =>
      obtain ⟨hchild, hmagic'⟩ := child_of_descend hmagic hstep
      obtain ⟨fuel, r, hr⟩ := ih (.block b) hchild hmagic'
      exact ⟨fuel + 1, r, by rw [findLeafFrom, hstep]; exact hr⟩

theorem Store.findLeaf_ends (h : Ends (s.Child readable) .inode) (iblock : UInt32) :
    ∃ fuel r, s.findLeaf readable iblock fuel = some r := by
  by_cases hmagic : s.root.hdr.ehMagic = ext4ExtMagic
  · have hroot : (s.node .inode).hdr.ehMagic = ext4ExtMagic := hmagic
    obtain ⟨fuel, r, hr⟩ := findLeafFrom_ends hroot h iblock
    exact ⟨fuel, r, by rw [findLeaf, if_neg (not_not_intro hmagic)]; exact hr⟩
  · exact ⟨0, none, by rw [findLeaf, if_pos hmagic]⟩

/-- What a walk from `p` that has ended says about the nodes: every walk from `p` ends, no node has
got new children, and only nodes that a walk from `p` gets to have changed. -/
structure Walked (readable : UInt32 → Bool) (p : Place) (s s' : Store) : Prop where
  ends : Ends (s.Child readable) p
  sub : ∀ q q', s'.Child readable q q' → s.Child readable q q'
  kept : ∀ q, s'.node q = s.node q ∨ Relation.ReflTransGen (s.Child readable) p q

theorem Walked.refl (h : Ends (s.Child readable) p) : Walked readable p s s :=
  ⟨h, fun _ _ h => h, fun _ => .inl rfl⟩

theorem Store.child_congr (h : s'.node p = s.node p) :
    s'.Child readable p p' ↔ s.Child readable p p' := by
  unfold Store.Child
  rw [h]

theorem Store.ends_of_not_isIndex (h : (s.node p).isIndex = false) : Ends (s.Child readable) p :=
  ends_intro fun p' hchild => by
    rw [hchild.1] at h
    cases h

theorem Walked.setNode (h : Walked readable p s s')
    (hsub : n.isIndex = true → (s'.node p).isIndex = true ∧ n.entries ≤ (s'.node p).entries ∧
      n.slot = (s'.node p).slot) : Walked readable p s (s'.setNode p n) where
  ends := h.ends
  sub := by
    intro q q' hchild
    refine h.sub q q' ?_
    by_cases hq : q = p
    · subst hq
      obtain ⟨hindex, i, hi, b, hb, hread, rfl⟩ := hchild
      rw [node_setNode_same] at hindex hi hb
      obtain ⟨hindex', hle, hslot⟩ := hsub hindex
      exact ⟨hindex', i, by omega, b, by rw [← hslot]; exact hb, hread, rfl⟩
    · exact (child_congr (node_setNode_ne hq)).mp hchild
  kept := by
    intro q
    by_cases hq : q = p
    · subst hq
      exact .inr .refl
    · rw [node_setNode_ne hq]
      exact h.kept q

variable {t : TruncArgs} {w w' : Walk} {i kept : Nat}

theorem truncateExtents_walked (is : List Nat) (h : Walked t.readable p s r.1.store)
    (hleaf : (r.1.store.node p).isIndex = false) :
    Walked t.readable p s (is.foldl (truncateExtent t p) r).1.store ∧
      ((is.foldl (truncateExtent t p) r).1.store.node p).isIndex = false := by
  induction is generalizing r with
  | nil => exact ⟨h, hleaf⟩
  | cons i is ih =>
    rw [List.foldl_cons]
    refine ih ?_ ?_
    all_goals
      unfold truncateExtent
      dsimp only
      split
    · exact h
    · split
      · refine h.setNode fun hindex => ?_
        rw [isIndex_setSlot, hleaf] at hindex
        cases hindex
      · exact h
    · exact hleaf
    · split
      · show ((r.1.store.setNode p _).node p).isIndex = false
        rw [node_setNode_same]
        exact hleaf
      · exact hleaf

theorem truncateLeaf_walked (hleaf : (w.store.node p).isIndex = false) :
    Walked t.readable p w.store (truncateLeaf t p w).store := by
  have hstart : Walked t.readable p w.store w.store := .refl (ends_of_not_isIndex hleaf)
  obtain ⟨hwalked, hleaf'⟩ := truncateExtents_walked (List.range (w.store.node p).entries)
    (r := (w, 0)) hstart hleaf
  refine hwalked.setNode fun hindex => ?_
  rw [isIndex_setEntries, hleaf'] at hindex
  cases hindex

@[simp] theorem store_freeChild (w : Walk) (b : UInt32) : (w.freeChild t b).store = w.store := by
  unfold Walk.freeChild
  dsimp only
  split <;> rfl

/-- The loop over the entries of the index at `p` before entry `i`, from `s` on: the index is as it
was, and every walk from the children before entry `i` ends. -/
structure Looping (readable : UInt32 → Bool) (p : Place) (s : Store) (i kept : Nat) (s' : Store) :
    Prop where
  index : (s.node p).isIndex = true
  same : s'.node p = s.node p
  sub : ∀ q q', s'.Child readable q q' → s.Child readable q q'
  changed : ∀ q, s'.node q = s.node q ∨
    (Ends (s.Child readable) q ∧ Relation.ReflTransGen (s.Child readable) p q)
  done : ∀ j < i, readable ((s.node p).slot j).eiLeafLo = true →
    Ends (s.Child readable) (.block ((s.node p).slot j).eiLeafLo)
  le : kept ≤ i

theorem Looping.start (h : (s.node p).isIndex = true) : Looping readable p s 0 0 s :=
  ⟨h, rfl, fun _ _ h => h, fun _ => .inl rfl, fun j hj => absurd hj (Nat.not_lt_zero j), le_refl 0⟩

theorem Looping.skip (h : Looping readable p s i kept s')
    (hread : readable ((s.node p).slot i).eiLeafLo = false) :
    Looping readable p s (i + 1) kept s' :=
  { h with
    done := by
      intro j hj hr
      rcases Nat.lt_succ_iff_lt_or_eq.mp hj with hj | rfl
      · exact h.done j hj hr
      · rw [hread] at hr
        cases hr
    le := Nat.le_succ_of_le h.le }

theorem Looping.child (h : Looping readable p s i kept s') (hi : i < (s.node p).entries)
    (hb : ((s.node p).slot i).eiLeafLo = b) (hread : readable b = true) (hkept : kept' ≤ kept + 1)
    (hwalked : Walked readable (.block b) s' s'') : Looping readable p s (i + 1) kept' s'' := by
  have hchild : s.Child readable p (.block b) := ⟨h.index, i, hi, b, hb, hread, rfl⟩
  have hends : Ends (s.Child readable) (.block b) :=
    hwalked.ends.of_removed fun q => (h.changed q).symm.imp (·.1) fun heq q' hqq' =>
      (child_congr heq).mpr hqq'
  have hreach : ∀ q, Relation.ReflTransGen (s'.Child readable) (.block b) q →
      Relation.ReflTransGen (s.Child readable) (.block b) q := fun q hq =>
    Relation.ReflTransGen.mono (fun x y hxy => h.sub x y hxy) _ _ hq
  refine ⟨h.index, ?_, fun q q' hqq' => h.sub q q' (hwalked.sub q q' hqq'), fun q => ?_, ?_, ?_⟩
  · rcases hwalked.kept p with heq | hback
    · exact heq.trans h.same
    · exact absurd (Relation.TransGen.tail' (hreach p hback) hchild) hends.not_cycle
  · rcases hwalked.kept q with heq | hq
    · rw [heq]
      exact h.changed q
    · exact .inr ⟨hends.walk (hreach q hq), .head hchild (hreach q hq)⟩
  · intro j hj hr
    rcases Nat.lt_succ_iff_lt_or_eq.mp hj with hj | rfl
    · exact h.done j hj hr
    · rw [hb]
      exact hends
  · have := h.le
    omega

theorem Looping.close (h : Looping readable p s i kept w.store) (hi : ¬ i < (s.node p).entries)
    (hle : i ≤ (s.node p).entries) : Walked readable p s (w.closeIndex p kept).store := by
  have hends : Ends (s.Child readable) p := by
    refine ends_intro fun p' hchild => ?_
    obtain ⟨-, j, hj, b, hb, hread, rfl⟩ := hchild
    rw [← hb] at hread ⊢
    exact h.done j (by omega) hread
  have hwalked : Walked readable p s w.store :=
    ⟨hends, h.sub, fun q => (h.changed q).imp_right (·.2)⟩
  have hkept := h.le
  have hlt := (s.node p).entries_lt
  refine hwalked.setNode fun _ => ?_
  rw [h.same]
  have hentries : ((s.node p).setEntries kept).entries = kept := entries_setEntries (by omega)
  refine ⟨h.index, ?_, ?_⟩
  · split
    · rw [entries_setDepth]
      omega
    · omega
  · split <;> rfl

theorem truncate_walked (fuel : Nat) :
    (∀ p w w', truncateSubtree t fuel p w = some w' → Walked t.readable p w.store w'.store) ∧
    ∀ p s i kept w w', Looping t.readable p s i kept w.store → i ≤ (s.node p).entries →
      truncateIndex t fuel p i kept w = some w' → Walked t.readable p s w'.store := by
  induction fuel with
  | zero =>
    exact ⟨fun p w w' h => by simp [truncateSubtree] at h,
      fun p s i kept w w' _ _ h => by simp [truncateIndex] at h⟩
  | succ fuel ih =>
    obtain ⟨ihsub, ihindex⟩ := ih
    refine ⟨fun p w w' h => ?_, fun p s i kept w w' hloop hle h => ?_⟩
    · rw [truncateSubtree] at h
      split at h
      · rename_i hmagic
        obtain rfl := Option.some.inj h
        exact .refl (ends_of_not_isIndex (by simp [isIndex, hmagic]))
      · rename_i hmagic
        split at h
        · rename_i hdepth
          obtain rfl := Option.some.inj h
          exact truncateLeaf_walked (by simp [isIndex, hdepth])
        · rename_i hdepth
          have hindex := isIndex_iff.mpr ⟨not_not.mp hmagic, hdepth⟩
          exact ihindex p w.store 0 0 w w' (.start hindex) (Nat.zero_le _) h
    · rw [truncateIndex, hloop.same] at h
      split at h
      · rename_i hi
        dsimp only at h
        split at h
        · rename_i hread
          split at h
          · cases h
          · rename_i w1 hw1
            have hwalked := ihsub _ _ _ hw1
            split at h
            · refine ihindex p s (i + 1) kept _ w' ?_ hi h
              rw [store_freeChild]
              exact hloop.child hi rfl hread (Nat.le_succ _) hwalked
            · exact ihindex p s (i + 1) (kept + 1) _ w'
                (hloop.child hi rfl hread (le_refl _) hwalked) hi h
        · rename_i hread
          exact ihindex p s (i + 1) kept w w' (hloop.skip (by simpa using hread)) hi h
      · rename_i hi
        obtain rfl := Option.some.inj h
        exact hloop.close hi hle

theorem truncate_mono (fuel : Nat) :
    (∀ p w w', truncateSubtree t fuel p w = some w' → truncateSubtree t (fuel + 1) p w = some w') ∧
    ∀ p i kept w w', truncateIndex t fuel p i kept w = some w' →
      truncateIndex t (fuel + 1) p i kept w = some w' := by
  induction fuel with
  | zero =>
    exact ⟨fun p w w' h => by simp [truncateSubtree] at h,
      fun p i kept w w' h => by simp [truncateIndex] at h⟩
  | succ fuel ih =>
    obtain ⟨ihsub, ihindex⟩ := ih
    refine ⟨fun p w w' h => ?_, fun p i kept w w' h => ?_⟩
    · rw [truncateSubtree] at h ⊢
      split at h
      · rename_i hmagic
        rwa [if_pos hmagic]
      · rename_i hmagic
        rw [if_neg hmagic]
        split at h
        · rename_i hdepth
          rwa [if_pos hdepth]
        · rename_i hdepth
          rw [if_neg hdepth]
          exact ihindex _ _ _ _ _ h
    · rw [truncateIndex] at h ⊢
      dsimp only at h ⊢
      split at h
      · rename_i hi
        rw [if_pos hi]
        split at h
        · rename_i hread
          rw [if_pos hread]
          split at h
          · cases h
          · rename_i w1 hw1
            rw [ihsub _ _ _ hw1]
            dsimp only
            split at h
            · rename_i hempty
              rw [if_pos hempty]
              exact ihindex _ _ _ _ _ h
            · rename_i hempty
              rw [if_neg hempty]
              exact ihindex _ _ _ _ _ h
        · rename_i hread
          rw [if_neg hread]
          exact ihindex _ _ _ _ _ h
      · rename_i hi
        rwa [if_neg hi]

theorem truncateSubtree_le (hle : fuel ≤ fuel')
    (h : truncateSubtree t fuel p w = some w') : truncateSubtree t fuel' p w = some w' := by
  induction hle with
  | refl => exact h
  | step _ ih => exact (truncate_mono _).1 _ _ _ ih

theorem truncateIndex_le (hle : fuel ≤ fuel') (h : truncateIndex t fuel p i kept w = some w') :
    truncateIndex t fuel' p i kept w = some w' := by
  induction hle with
  | refl => exact h
  | step _ ih => exact (truncate_mono _).2 _ _ _ _ _ ih

/-- The loop over an index ends when the walks from its children do, in whatever state the nodes are
by then. -/
theorem truncateIndex_ends (n : Nat)
    (hloop : Looping t.readable p s i kept w.store) (hn : i + n = (s.node p).entries)
    (hsub : ∀ b w1, s.Child t.readable p (.block b) →
      (∀ q q', w1.store.Child t.readable q q' → s.Child t.readable q q') →
      ∃ fuel w', truncateSubtree t fuel (.block b) w1 = some w') :
    ∃ fuel w', truncateIndex t fuel p i kept w = some w' := by
  induction n generalizing i kept w with
  | zero =>
    refine ⟨1, w.closeIndex p kept, ?_⟩
    rw [truncateIndex, hloop.same, if_neg (by omega)]
  | succ n ih =>
    have hi : i < (s.node p).entries := by omega
    cases hread : t.readable ((s.node p).slot i).eiLeafLo with
    | false =>
      obtain ⟨fuel, w', hw'⟩ := ih (hloop.skip hread) (by omega)
      refine ⟨fuel + 1, w', ?_⟩
      rw [truncateIndex, hloop.same, if_pos hi, if_neg (by simp [hread])]
      exact hw'
    | true =>
      have hchild : s.Child t.readable p (.block ((s.node p).slot i).eiLeafLo) :=
        ⟨hloop.index, i, hi, _, rfl, hread, rfl⟩
      obtain ⟨fuel1, w1, hw1⟩ := hsub _ w hchild hloop.sub
      have hwalked := (truncate_walked fuel1).1 _ _ _ hw1
      have hnext : ∃ fuel w', (if (w1.store.block ((s.node p).slot i).eiLeafLo).entries = 0 then
          truncateIndex t fuel p (i + 1) kept (w1.freeChild t ((s.node p).slot i).eiLeafLo)
          else truncateIndex t fuel p (i + 1) (kept + 1) w1) = some w' := by
        split
        · refine ih ?_ (by omega)
          rw [store_freeChild]
          exact hloop.child hi rfl hread (Nat.le_succ _) hwalked
        · exact ih (hloop.child hi rfl hread (le_refl _) hwalked) (by omega)
      obtain ⟨fuel2, w', hw'⟩ := hnext
      refine ⟨max fuel1 fuel2 + 1, w', ?_⟩
      rw [truncateIndex, hloop.same, if_pos hi, if_pos hread,
        truncateSubtree_le (le_max_left fuel1 fuel2) hw1]
      dsimp only
      split at hw'
      · rename_i hempty
        rw [if_pos hempty]
        exact truncateIndex_le (le_max_right fuel1 fuel2) hw'
      · rename_i hempty
        rw [if_neg hempty]
        exact truncateIndex_le (le_max_right fuel1 fuel2) hw'

theorem truncateSubtree_ends (h : Ends (s.Child t.readable) p) (w : Walk)
    (hsub : ∀ q q', w.store.Child t.readable q q' → s.Child t.readable q q') :
    ∃ fuel w', truncateSubtree t fuel p w = some w' := by
  induction h generalizing w with
  | intro p _ ih =>
    by_cases hmagic : (w.store.node p).hdr.ehMagic = ext4ExtMagic
    · by_cases hdepth : (w.store.node p).hdr.ehDepth = 0
      · refine ⟨1, truncateLeaf t p w, ?_⟩
        rw [truncateSubtree]
        rw [if_neg (not_not_intro hmagic), if_pos hdepth]
      · have hindex := isIndex_iff.mpr ⟨hmagic, hdepth⟩
        obtain ⟨fuel, w', hw'⟩ := truncateIndex_ends (w.store.node p).entries (.start hindex)
          (Nat.zero_add _) fun b w1 hchild hsub1 =>
            ih (.block b) (hsub _ _ hchild) w1 fun q q' hqq' => hsub q q' (hsub1 q q' hqq')
        refine ⟨fuel + 1, w', ?_⟩
        rw [truncateSubtree]
        rw [if_neg (not_not_intro hmagic), if_neg hdepth]
        exact hw'
    · refine ⟨1, w, ?_⟩
      rw [truncateSubtree]
      rw [if_pos hmagic]

instance : Finite Place := by
  have hinj : Function.Injective fun p : Place => match p with
      | .inode => (none : Option (Fin (2 ^ 32)))
      | .block b => some b.toFin := by
    intro p p' h
    cases p with
    | inode =>
      cases p' with
      | inode => rfl
      | block b => cases h
    | block b =>
      cases p' with
      | inode => cases h
      | block b' => exact congrArg Place.block (UInt32.toFin_inj.mp (Option.some.inj h))
  exact Finite.of_injective _ hinj

/-- The walks end exactly when the index entries do not lead from the inode into a cycle. -/
theorem walks_end_iff_no_cycle (s : Store) (readable : UInt32 → Bool) :
    WalksEnd s readable ↔ ¬ MeetsCycle (s.Child readable) .inode := by
  rw [← ends_iff_not_meetsCycle]
  constructor
  · intro h
    obtain ⟨fuel, w, hw⟩ := h.truncate 0 0 0 []
    exact ((truncate_walked fuel).1 _ _ _ hw).ends
  · exact fun h => ⟨findLeaf_ends h, fun _ _ _ _ =>
      truncateSubtree_ends h _ fun _ _ hchild => hchild⟩

def selfIndex : Node where
  hdr := ⟨ext4ExtMagic, 1, 4, 1, 0⟩
  slot := fun _ => Slot.index 0 7

def selfStore : Store := ⟨selfIndex, fun _ => selfIndex⟩

theorem node_selfStore (p : Place) : selfStore.node p = selfIndex := by
  cases p <;> rfl

theorem descend_selfStore (p : Place) : selfStore.descend (fun _ => true) 0 p = .next 7 := by
  rw [descend, node_selfStore]
  decide

theorem findLeafFrom_selfStore (fuel : Nat) (p : Place) :
    selfStore.findLeafFrom (fun _ => true) 0 fuel p = none := by
  induction fuel generalizing p with
  | zero => rfl
  | succ fuel ih =>
    rw [findLeafFrom, descend_selfStore]
    exact ih (.block 7)

/-- The descent for block 0 never ends, and neither does a truncation. -/
theorem self_index_never_ends :
    (∀ fuel, selfStore.findLeaf (fun _ => true) 0 fuel = none) ∧
    (∀ t : TruncArgs, (∀ b, t.readable b = true) → ∀ fuel iBlocks calls,
      truncateSubtree t fuel .inode ⟨selfStore, iBlocks, calls⟩ = none) ∧
    ¬ WalksEnd selfStore fun _ => true := by
  have hfind : ∀ fuel, selfStore.findLeaf (fun _ => true) 0 fuel = none := by
    intro fuel
    rw [findLeaf, if_neg (by decide)]
    exact findLeafFrom_selfStore fuel .inode
  refine ⟨hfind, fun t hread fuel iBlocks calls => ?_, fun h => ?_⟩
  · rw [Option.eq_none_iff_forall_not_mem]
    intro w hw
    have hchild : ∀ p, selfStore.Child t.readable p (.block 7) := by
      intro p
      refine ⟨?_, 0, ?_, 7, ?_, hread 7, rfl⟩
      all_goals
        rw [node_selfStore]
        decide
    exact ((truncate_walked fuel).1 _ _ _ hw).ends.next (hchild _) |>.not_cycle
      (.single (hchild (.block 7)))
  · obtain ⟨fuel, r, hr⟩ := h.findLeaf 0
    rw [hfind fuel] at hr
    cases hr

end Six.Ext4
