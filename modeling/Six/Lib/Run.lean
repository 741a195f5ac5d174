import Six.Lib.Index
import Mathlib.Data.Option.Basic

/-! Runs of a transition system.  A step takes a state and a label to the next state, or to `none`
when the label is not enabled.  `Reaches` is the set of states of the runs whose steps all meet a
guard, and `run` follows one given list of labels. -/

namespace Six.Lib

variable {σ ι : Type*}

/-- `Reaches step Guard s t`: a run from `s` ends in `t`, and each of its steps meets `Guard` in
the state before it. -/
inductive Reaches (step : σ → ι → Option σ) (Guard : σ → ι → Prop) (s : σ) : σ → Prop
  | refl : Reaches step Guard s s
  | tail {t u : σ} {i : ι} : Reaches step Guard s t → Guard t i → step t i = some u →
      Reaches step Guard s u

/-- The state after the labels `is`, in order, when each of them is enabled. -/
def run (step : σ → ι → Option σ) : σ → List ι → Option σ
  | s, [] => some s
  | s, i :: is => (step s i).bind fun t => run step t is

variable {step : σ → ι → Option σ} {Guard : σ → ι → Prop} {s t u : σ}

theorem Reaches.trans (h1 : Reaches step Guard s t) (h2 : Reaches step Guard t u) :
    Reaches step Guard s u := by
  induction h2 with
  | refl => exact h1
  | tail _ hg hs ih => exact ih.tail hg hs

/-- The steps that a test lets through. -/
def guarded (test : σ → ι → Bool) (step : σ → ι → Option σ) (s : σ) (i : ι) : Option σ :=
  if test s i then step s i else none

theorem reaches_of_guarded_run (is : List ι)
    (h : run (guarded test step) s is = some t) :
      Reaches step (fun s i => test s i = true) s t := by
  induction is generalizing s with
  | nil =>
    obtain rfl : s = t := by simpa [run] using h
    exact .refl
  | cons i is ih =>
    obtain ⟨u, hu, hrun⟩ := Option.bind_eq_some_iff.mp h
    unfold guarded at hu
    split at hu
    · rename_i htest
      have first : Reaches step (fun s i => test s i = true) s u := .tail .refl htest hu
      exact first.trans (ih hrun)
    · cases hu

theorem reaches_of_run (is : List ι) (h : run step s is = some t) :
    Reaches step (fun _ _ => True) s t := by
  have hall : guarded (fun _ _ => true) step = step := rfl
  rw [← hall] at h
  simpa using reaches_of_guarded_run is h

theorem Reaches.mono {Guard' : σ → ι → Prop} (h : Reaches step Guard s t)
    (hle : ∀ s i, Guard s i → Guard' s i) : Reaches step Guard' s t := by
  induction h with
  | refl => exact .refl
  | tail _ hg hs ih => exact ih.tail (hle _ _ hg) hs

/-- A property of the first state that every guarded step preserves holds of every state of the
run. -/
theorem Reaches.invariant {P : σ → Prop} (h : Reaches step Guard s t) (init : P s)
    (preserved : ∀ a i b, P a → Guard a i → step a i = some b → P b) : P t := by
  induction h with
  | refl => exact init
  | tail _ hg hs ih => exact preserved _ _ _ ih hg hs

section Update

variable {α β : Type*} [DecidableEq ι] {f : ι → α} {i : ι} {v : α}

theorem rel_update {r : α → α → Prop} (hr : ∀ a, r a a) (h : r v (f i)) (j : ι) :
    r (Function.update f i v j) (f j) := by
  by_cases hj : j = i
  · subst hj
    rwa [Function.update_self]
  · rw [Function.update_of_ne hj]
    exact hr _

/-- What the new value keeps is kept at every place. -/
theorem proj_update {g : α → β} (h : g v = g (f i)) : ∀ j, g (Function.update f i v j) = g (f j) :=
  rel_update (r := fun a b => g a = g b) (fun _ => rfl) h

end Update

end Six.Lib
