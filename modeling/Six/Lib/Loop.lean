import Six.Lib.Run
import Mathlib.Data.List.Range

/-! Loops that may stop early.  `runLoop` runs a body over a list of indices until the body fails;
the state that a failed iteration leaves is kept. -/

namespace Six.Lib

variable {ι σ : Type*}

/-- The result of a computation that may fail: whether it succeeded, and the state it leaves. -/
structure Outcome (σ : Type*) where
  ok : Bool
  state : σ

/-- The body `f` for each index in turn, as long as it succeeds. -/
def runLoop (f : ι → σ → Outcome σ) : List ι → σ → Outcome σ
  | [], s => ⟨true, s⟩
  | i :: is, s => if (f i s).ok then runLoop f is (f i s).state else f i s

theorem runLoop_append (f : ι → σ → Outcome σ) (is js : List ι) (s : σ) :
    runLoop f (is ++ js) s =
      if (runLoop f is s).ok then runLoop f js (runLoop f is s).state else runLoop f is s := by
  induction is generalizing s with
  | nil => simp [runLoop]
  | cons i is ih =>
    simp only [List.cons_append, runLoop]
    split
    · exact ih _
    · simp [*]

/-- What each iteration preserves, failed or not, the loop preserves. -/
theorem runLoop_invariant {P : σ → Prop} (h : P s)
    (body : ∀ i ∈ is, ∀ s, P s → P (f i s).state) : P (runLoop f is s).state := by
  induction is generalizing s with
  | nil => exact h
  | cons i is ih =>
    rw [List.forall_mem_cons] at body
    simp only [runLoop]
    split
    · exact ih (body.1 s h) body.2
    · exact body.1 s h

/-- A loop over `n` counters whose iteration `k` takes `P k` to `P (k + 1)` or fails with `Q` ends
with `P n` or fails with `Q`. -/
theorem runLoop_range {P : Nat → σ → Prop} {Q : σ → Prop} (h : P 0 s)
    (body : ∀ k < n, ∀ s, P k s → ((f k s).ok = true ∧ P (k + 1) (f k s).state) ∨
      ((f k s).ok = false ∧ Q (f k s).state)) :
    ((runLoop f (List.range n) s).ok = true ∧ P n (runLoop f (List.range n) s).state) ∨
    ((runLoop f (List.range n) s).ok = false ∧ Q (runLoop f (List.range n) s).state) := by
  have hfrom : ∀ m k s, k + m = n → P k s →
      ((runLoop f (List.range' k m) s).ok = true ∧ P n (runLoop f (List.range' k m) s).state) ∨
      ((runLoop f (List.range' k m) s).ok = false ∧ Q (runLoop f (List.range' k m) s).state) := by
    intro m
    induction m with
    | zero =>
      intro k s hk hp
      obtain rfl : k = n := by omega
      exact .inl ⟨rfl, hp⟩
    | succ m ih =>
      intro k s hk hp
      rw [List.range'_succ]
      rcases body k (by omega) s hp with ⟨hok, hnext⟩ | ⟨hfail, hq⟩
      · simp only [runLoop, hok, if_true]
        exact ih (k + 1) _ (by omega) hnext
      · simp only [runLoop, hfail, Bool.false_eq_true, if_false]
        exact .inr ⟨trivial, hq⟩
  rw [List.range_eq_range']
  exact hfrom n 0 s (by omega) h

/-- A loop over `n` counters as a transition system: the next counter and the outcome so far. -/
def loopStep (f : Nat → σ → Outcome σ) (n : Nat) (s : Nat × Outcome σ) (_ : Unit) :
    Option (Nat × Outcome σ) :=
  if s.2.ok = true ∧ s.1 < n then some (s.1 + 1, f s.1 s.2.state) else none

theorem loopStep_eq_some :
    loopStep f n s u = some t ↔ s.2.ok = true ∧ s.1 < n ∧ t = (s.1 + 1, f s.1 s.2.state) := by
  unfold loopStep
  split
  · rename_i h
    simp only [Option.some.injEq, h.1, h.2, true_and]
    exact eq_comm
  · rename_i h
    simp only [reduceCtorEq, false_iff]
    exact fun hs => h ⟨hs.1, hs.2.1⟩

end Six.Lib
