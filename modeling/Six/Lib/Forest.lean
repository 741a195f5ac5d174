import Mathlib.Logic.Relation

/-! Trees that are given by the step from a node to its parent.  `Rooted up r a` says that the steps
from `a` lead to the root `r`. -/

namespace Six.Lib

open Relation

variable {α : Type*} {up up' : α → α → Prop} {r x a : α} {D : α → Prop}

/-- The steps from `a` lead to the root. -/
def Rooted (up : α → α → Prop) (r a : α) : Prop := ReflTransGen up a r

section

variable (hdet : ∀ a b c, up a b → up a c → b = c)
include hdet

theorem Rooted.of_avoids
    (hstep : ∀ a, D a → a ≠ r → ∃ b, D b ∧ up' a b) (hkeep : ∀ a b, D a → a ≠ x → up' a b → up a b)
    (h : Rooted up r a) (ha : D a) (hx : ¬ ReflTransGen up a x) : Rooted up' r a := by
  induction h using ReflTransGen.head_induction_on with
  | refl => exact .refl
  | @head a b hab _ ih =>
    by_cases hr : a = r
    · rw [hr]
      exact .refl
    · obtain ⟨b', hb', hup⟩ := hstep a ha hr
      have hax : a ≠ x := by
        rintro rfl
        exact hx .refl
      obtain rfl := hdet a b b' hab (hkeep a b' ha hax hup)
      exact .head hup (ih hb' fun hbx => hx (.head hab hbx))

theorem Rooted.reparent
    (hstep : ∀ a, D a → a ≠ r → ∃ b, D b ∧ up' a b) (hkeep : ∀ a b, D a → a ≠ x → up' a b → up a b)
    (hold : ∀ a, D a → a ≠ x → Rooted up r a)
    (hnew : ∀ b, D x → up' x b → Rooted up r b ∧ ¬ ReflTransGen up b x) (ha : D a) :
    Rooted up' r a := by
  have hx : D x → Rooted up' r x := by
    intro hx
    by_cases hr : x = r
    · rw [hr]
      exact .refl
    · obtain ⟨b, hb, hup⟩ := hstep x hx hr
      obtain ⟨hrooted, hbelow⟩ := hnew b hx hup
      exact .head hup (hrooted.of_avoids hdet hstep hkeep hb hbelow)
  by_cases hax : a = x
  · rw [hax] at ha ⊢
    exact hx ha
  · have hrooted := hold a ha hax
    -- along the way to the root, up to `x` if it is met
    induction hrooted using ReflTransGen.head_induction_on with
    | refl => exact .refl
    | @head a b hab _ ih =>
      by_cases hr : a = r
      · rw [hr]
        exact .refl
      · obtain ⟨b', hb', hup⟩ := hstep a ha hr
        obtain rfl := hdet a b b' hab (hkeep a b' ha hax hup)
        by_cases hbx : b = x
        · rw [hbx] at hup hb'
          exact .head hup (hx hb')
        · exact .head hup (ih hb' hbx)

theorem Rooted.not_cyclic (hroot : ∀ b, ¬ up r b) (h : Rooted up r a) : ¬ TransGen up a a := by
  induction h using ReflTransGen.head_induction_on with
  | refl =>
    intro hcycle
    obtain ⟨b, hb, -⟩ := TransGen.head'_iff.mp hcycle
    exact hroot b hb
  | @head a b hab _ ih =>
    intro hcycle
    obtain ⟨c, hac, hca⟩ := TransGen.head'_iff.mp hcycle
    obtain rfl := hdet a b c hab hac
    exact ih (TransGen.tail'_iff.mpr ⟨a, hca, hab⟩)

end

end Six.Lib
