import Mathlib.Logic.Function.Basic

/-! One level of a hash tree over blocks.  A hash block has `w` slots, and the slots of block `j` of
a level hold the hashes of the blocks `j * w` to `j * w + w - 1` below. -/

namespace Six.Lib

open Function

section

variable {β δ : Type*} {w : Nat}

/-- Hash blocks made of slots: `pack` reads the first `w` slots, and `setSlot` replaces one. -/
structure Packing (β δ : Type*) (w : Nat) where
  pack : (Nat → δ) → β
  setSlot : β → Nat → δ → β
  pack_congr : ∀ {d d' : Nat → δ}, (∀ s < w, d s = d' s) → pack d = pack d'
  setSlot_pack : ∀ (d : Nat → δ) {s : Nat}, s < w →
    ∀ v, setSlot (pack d) s v = pack (update d s v)

/-- The hash block `j` over the blocks `f` below. -/
def Packing.level (P : Packing β δ w) (hash : β → δ) (f : Nat → β) (j : Nat) : β :=
  P.pack fun s => hash (f (j * w + s))

variable (P : Packing β δ w) (hash : β → δ) (f : Nat → β) {i j : Nat}

theorem Packing.level_congr (h : ∀ s < w, f (j * w + s) = f' (j * w + s)) :
    P.level hash f j = P.level hash f' j :=
  P.pack_congr fun s hs => congrArg hash (h s hs)

theorem Packing.level_update_ne (x : β) (hj : j ≠ i / w) :
    P.level hash (update f i x) j = P.level hash f j := by
  apply P.pack_congr
  intro s hs
  have hne : j * w + s ≠ i := by
    rintro rfl
    apply hj
    rw [Nat.add_comm, Nat.add_mul_div_right _ _ (by omega), Nat.div_eq_of_lt hs, Nat.zero_add]
  rw [update_of_ne hne]

theorem Packing.level_update_same (x : β) (hw : 0 < w) :
    P.level hash (update f i x) (i / w) = P.setSlot (P.level hash f (i / w)) (i % w) (hash x) := by
  rw [level, level, P.setSlot_pack _ (Nat.mod_lt i hw)]
  apply P.pack_congr
  intro s _
  have hpos : i / w * w + i % w = i := by rw [Nat.mul_comm]; exact Nat.div_add_mod i w
  by_cases hs : s = i % w
  · subst hs
    rw [hpos, update_self, update_self]
  · have hne : i / w * w + s ≠ i := by omega
    rw [update_of_ne hne, update_of_ne hs]

theorem Packing.level_update (x : β) (hw : 0 < w) :
    P.level hash (update f i x) = update (P.level hash f) (i / w)
      (P.setSlot (P.level hash f (i / w)) (i % w) (hash x)) := by
  funext j
  by_cases hj : j = i / w
  · subst hj
    rw [update_self, P.level_update_same hash f x hw]
  · rw [update_of_ne hj, P.level_update_ne hash f x hj]

end

end Six.Lib
