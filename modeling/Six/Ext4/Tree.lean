import Mathlib.Data.List.Flatten
import Mathlib.Data.List.Pairwise
import Six.Ext4.Extent

/-! What an extent tree holds: the extents in the order of its leaves, the blocks that it owns, and
the logical blocks that it maps. -/

namespace Six.Ext4

open List Store

namespace Slot

def start (e : Slot) : Nat := e.eeBlock.toNat
def len (e : Slot) : Nat := e.actualLen.toNat

structure Maps (e : Slot) (logical : Nat) (phys : UInt32) (unwritten : Bool) : Prop where
  start_le : e.start ≤ logical
  lt_end : logical < e.start + e.len
  phys_eq : phys = e.eeStartLo + UInt32.ofNat (logical - e.start)
  state : e.isUnwritten = unwritten

def blocks (e : Slot) : List UInt32 :=
  (List.range e.len).map fun k => e.eeStartLo + UInt32.ofNat k

theorem len_eq (e : Slot) :
    e.len = if e.eeLen.toNat ≤ extInitMaxLen then e.eeLen.toNat
      else e.eeLen.toNat - extInitMaxLen := by
  have hlt := e.eeLen.toNat_lt
  unfold len actualLen
  rw [UInt32.toNat_ofNat', Nat.mod_eq_of_lt]
  split <;> omega

theorem len_le (e : Slot) : e.len ≤ 2 ^ 15 := by
  have hlt := e.eeLen.toNat_lt
  rw [len_eq]
  unfold extInitMaxLen
  split <;> omega

end Slot

theorem eq_or_apart {es : List Slot} (h : es.Pairwise fun a b => a.start + a.len ≤ b.start)
    (he : e ∈ es) (he' : e' ∈ es) :
    e = e' ∨ e.start + e.len ≤ e'.start ∨ e'.start + e'.len ≤ e.start := by
  let Apart (a b : Slot) : Prop := a.start + a.len ≤ b.start ∨ b.start + b.len ≤ a.start
  have hsym : Std.Symm Apart := ⟨fun a b hab => hab.symm⟩
  have hapart : es.Pairwise Apart := h.imp Or.inl
  by_cases heq : e = e'
  · exact .inl heq
  · exact .inr (hapart.forall he he' heq)

def Node.extents (n : Node) : List Slot := (List.range n.entries).map n.slot
def Node.children (n : Node) : List UInt32 :=
  (List.range n.entries).map fun i => (n.slot i).eiLeafLo

namespace Store

variable (s : Store) {g : UInt32 → List Slot → List α} {f : Slot → List α} {b : UInt32}

def extentsOf : Nat → Place → List Slot
  | 0, p => (s.node p).extents
  | d + 1, p => (s.node p).children.flatMap fun b => extentsOf d (.block b)

/-- What is collected from a subtree: something for every extent, and something for every block
below the node, which may depend on the extents under it, after what lies under it. -/
def collect {α : Type} (f : Slot → List α) (g : UInt32 → List Slot → List α) :
    Nat → Place → List α
  | 0, p => (s.node p).extents.flatMap f
  | d + 1, p => (s.node p).children.flatMap fun b =>
      collect f g d (.block b) ++ g b (s.extentsOf d (.block b))

def nodesOf : Nat → Place → List UInt32 := s.collect (fun _ => []) fun b _ => [b]

def ownedBy : Nat → Place → List UInt32 := s.collect Slot.blocks fun b _ => [b]

/-- A subtree of depth `d`: the headers say so, every block can be read, and no block is empty. -/
def Formed (readable : UInt32 → Bool) : Nat → Place → Prop
  | 0, p => (s.node p).hdr.ehMagic = ext4ExtMagic ∧ (s.node p).hdr.ehDepth.toNat = 0
  | d + 1, p => (s.node p).hdr.ehMagic = ext4ExtMagic ∧ (s.node p).hdr.ehDepth.toNat = d + 1 ∧
      ∀ b ∈ (s.node p).children,
        readable b = true ∧ (s.block b).entries ≠ 0 ∧ Formed readable d (.block b)

def placesOf (d : Nat) (p : Place) : List Place := p :: (s.nodesOf d p).map .block

end Store

inductive Store.Maps (s : Store) : Place → Nat → UInt32 → Bool → Prop
  | leaf {p : Place} {e : Slot} {logical : Nat} {phys : UInt32} {unwritten : Bool}
      (depth : (s.node p).hdr.ehDepth = 0) (mem : e ∈ (s.node p).extents)
      (maps : e.Maps logical phys unwritten) : Maps s p logical phys unwritten
  | index {p : Place} {b : UInt32} {logical : Nat} {phys : UInt32} {unwritten : Bool}
      (depth : (s.node p).hdr.ehDepth ≠ 0) (mem : b ∈ (s.node p).children)
      (maps : Maps s (.block b) logical phys unwritten) : Maps s p logical phys unwritten

section

variable {s s' : Store} {readable : UInt32 → Bool} {d : Nat} {p : Place} {α : Type}
  {unwritten : Bool} {logical : Nat} {phys : UInt32}

@[simp] theorem Store.nodesOf_zero (s : Store) (p : Place) : s.nodesOf 0 p = [] := by
  unfold nodesOf collect
  simp

theorem Store.nodesOf_succ (s : Store) (d : Nat) (p : Place) :
    s.nodesOf (d + 1) p = (s.node p).children.flatMap fun b => s.nodesOf d (.block b) ++ [b] := rfl

theorem Store.mem_nodesOf_child (h : b ∈ (s.node p).children) : b ∈ s.nodesOf (d + 1) p :=
  mem_flatMap.mpr ⟨b, h, mem_append_right _ (mem_singleton.mpr rfl)⟩

theorem Store.mem_placesOf_child (h : b ∈ (s.node p).children)
    (hq : q ∈ s.placesOf d (.block b)) : q ∈ s.placesOf (d + 1) p := by
  refine mem_cons_of_mem _ (mem_map.mpr ?_)
  rcases mem_cons.mp hq with rfl | hbelow
  · exact ⟨b, mem_nodesOf_child h, rfl⟩
  · obtain ⟨b', hb', rfl⟩ := mem_map.mp hbelow
    exact ⟨b', mem_flatMap.mpr ⟨b, h, mem_append_left _ hb'⟩, rfl⟩

theorem Store.maps_iff (h : s.Formed readable d p) :
    s.Maps p logical phys unwritten ↔ ∃ e ∈ s.extentsOf d p, e.Maps logical phys unwritten := by
  induction d generalizing p with
  | zero =>
    have hdepth : (s.node p).hdr.ehDepth = 0 := UInt16.toNat_inj.mp h.2
    constructor
    · rintro (⟨-, hmem, hmaps⟩ | ⟨hne, -, -⟩)
      · exact ⟨_, hmem, hmaps⟩
      · exact absurd hdepth hne
    · rintro ⟨e, hmem, hmaps⟩
      exact .leaf hdepth hmem hmaps
  | succ d ih =>
    obtain ⟨-, hdepth, hchild⟩ := h
    have hne : (s.node p).hdr.ehDepth ≠ 0 := by
      intro hzero
      rw [hzero] at hdepth
      exact absurd hdepth (Nat.succ_ne_zero d).symm
    constructor
    · rintro (⟨hzero, -, -⟩ | ⟨-, hmem, hmaps⟩)
      · exact absurd hzero hne
      · obtain ⟨e, he, hmaps⟩ := (ih (hchild _ hmem).2.2).mp hmaps
        exact ⟨e, mem_flatMap.mpr ⟨_, hmem, he⟩, hmaps⟩
    · rintro ⟨e, he, hmaps⟩
      obtain ⟨b, hmem, he⟩ := mem_flatMap.mp he
      exact .index hne hmem ((ih (hchild b hmem).2.2).mpr ⟨e, he, hmaps⟩)

theorem Store.not_maps_of_entries (h : (s.node p).entries = 0) :
    ¬s.Maps p logical phys unwritten := by
  rintro (⟨-, hmem, -⟩ | ⟨-, hmem, -⟩)
  · simp [Node.extents, h] at hmem
  · simp [Node.children, h] at hmem

theorem Store.extentsOf_congr (h : ∀ q ∈ s.placesOf d p, s'.node q = s.node q) :
    s'.extentsOf d p = s.extentsOf d p := by
  induction d generalizing p with
  | zero => exact congrArg Node.extents (h p mem_cons_self)
  | succ d ih =>
    unfold extentsOf
    rw [h p mem_cons_self]
    refine flatMap_congr fun b hb => ih fun q hq => ?_
    exact h q (mem_placesOf_child hb hq)

theorem Store.collect_congr (h : ∀ q ∈ s.placesOf d p, s'.node q = s.node q) :
    s'.collect f g d p = s.collect f g d p := by
  induction d generalizing p with
  | zero => exact congrArg (fun n => (Node.extents n).flatMap f) (h p mem_cons_self)
  | succ d ih =>
    unfold collect
    rw [h p mem_cons_self]
    refine flatMap_congr fun b hb => ?_
    have hsub : ∀ q ∈ s.placesOf d (.block b), s'.node q = s.node q :=
      fun q hq => h q (mem_placesOf_child hb hq)
    rw [ih hsub, extentsOf_congr hsub]

theorem Store.Formed.congr (hformed : s.Formed readable d p)
    (h : ∀ q ∈ s.placesOf d p, s'.node q = s.node q) : s'.Formed readable d p := by
  induction d generalizing p with
  | zero =>
    unfold Store.Formed at *
    rwa [h p mem_cons_self]
  | succ d ih =>
    obtain ⟨hmagic, hdepth, hchild⟩ := hformed
    unfold Store.Formed
    rw [h p mem_cons_self]
    refine ⟨hmagic, hdepth, fun b hb => ?_⟩
    obtain ⟨hread, hentries, hsub⟩ := hchild b hb
    have hsame : s'.node (.block b) = s.node (.block b) := h _ (mem_placesOf_child hb mem_cons_self)
    refine ⟨hread, ?_, ih hsub fun q hq => h q (mem_placesOf_child hb hq)⟩
    exact (congrArg Node.entries hsame).trans_ne hentries

theorem Store.collect_sublist {g' : UInt32 → List Slot → List α}
    (hf : ∀ e ∈ s.extentsOf d p, (f e).Sublist (f' e)) (hg : ∀ b es, (g b es).Sublist (g' b es)) :
    (s.collect f g d p).Sublist (s.collect f' g' d p) := by
  induction d generalizing p with
  | zero => exact List.Sublist.flatMap_right _ hf
  | succ d ih =>
    refine List.Sublist.flatMap_right _ fun b hb =>
      List.Sublist.append (ih fun e he => hf e ?_) (hg _ _)
    exact mem_flatMap.mpr ⟨b, hb, he⟩

theorem Store.nodesOf_sublist_ownedBy (s : Store) (d : Nat) (p : Place) :
    (s.nodesOf d p).Sublist (s.ownedBy d p) :=
  collect_sublist (fun _ _ => nil_sublist _) fun _ _ => List.Sublist.refl _

end

end Six.Ext4
