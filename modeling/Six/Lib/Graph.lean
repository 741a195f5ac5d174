import Mathlib.Data.Finite.Defs
import Six.Lib.Index
import Mathlib.Logic.Relation
import Mathlib.Order.WellFounded
import Mathlib.Data.Fintype.EquivFin

/-! Walks in a directed graph.  `Ends E a` says that every walk from `a` along the edges `E` comes
to an end; in a finite graph that means that no walk from `a` gets to a cycle. -/

namespace Six.Lib

variable {α : Type*} {E E' : α → α → Prop} {a b : α}

/-- Every walk from `a` ends. -/
def Ends (E : α → α → Prop) (a : α) : Prop := Acc (fun y x => E x y) a

/-- A walk from `a` gets to a node that lies on a cycle. -/
def MeetsCycle (E : α → α → Prop) (a : α) : Prop :=
  ∃ b, Relation.ReflTransGen E a b ∧ Relation.TransGen E b b

theorem ends_intro (h : ∀ b, E a b → Ends E b) : Ends E a := Acc.intro a h

theorem Ends.next (h : Ends E a) (hab : E a b) : Ends E b := h.inv hab

theorem Ends.walk (h : Ends E a) (hab : Relation.ReflTransGen E a b) : Ends E b := by
  induction hab with
  | refl => exact h
  | tail _ hstep ih => exact ih.next hstep

theorem Ends.not_cycle (h : Ends E a) : ¬ Relation.TransGen E a a := by
  induction h with
  | intro a _ ih =>
    intro hcycle
    obtain ⟨b, hab, hba⟩ := Relation.TransGen.head'_iff.mp hcycle
    exact ih b hab (Relation.TransGen.tail' hba hab)

theorem ends_iff_not_meetsCycle [Finite α] : Ends E a ↔ ¬ MeetsCycle E a := by
  constructor
  · rintro h ⟨b, hab, hcycle⟩
    exact (h.walk hab).not_cycle hcycle
  · intro hno
    -- the edges that a walk from `a` can take, the other way round
    let R : α → α → Prop := fun y x => Relation.ReflTransGen E a x ∧ E x y
    have hforth : ∀ {x y}, Relation.TransGen R y x → Relation.TransGen E x y := by
      intro x y h
      induction h with
      | single h => exact .single h.2
      | tail _ h ih => exact .head h.2 ih
    have hirrefl : Std.Irrefl (Relation.TransGen R) := ⟨fun x h => by
      obtain ⟨y, -, hy⟩ := Relation.TransGen.tail'_iff.mp h
      exact hno ⟨x, hy.1, hforth h⟩⟩
    have hwf : WellFounded (Relation.TransGen R) := Finite.wellFounded_of_trans_of_irrefl _
    have hends : ∀ x, Relation.ReflTransGen E a x → Ends E x := by
      intro x
      induction x using hwf.induction with
      | h x ih =>
        intro hx
        exact ends_intro fun y hxy => ih y (.single ⟨hx, hxy⟩) (hx.tail hxy)
    exact hends a .refl

/-- When edges are missing only at nodes from which every walk ends, walks that end without them end
with them. -/
theorem Ends.of_removed (h : Ends E' a) (hkept : ∀ x, Ends E x ∨ ∀ y, E x y → E' x y) :
    Ends E a := by
  induction h with
  | intro a _ ih =>
    rcases hkept a with hends | hsame
    · exact hends
    · exact ends_intro fun b hab => ih b (hsame b hab)

end Six.Lib
