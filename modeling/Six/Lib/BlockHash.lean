import Mathlib.Data.List.Range
import Six.Lib.Index

/-! Hashing by blocks of `n` elements.  A receiver that gets the message piece by piece keeps the
state after the last whole block and the elements since then; what it has computed does not depend
on the pieces. -/

namespace Six.Lib.BlockHash

open List

variable {σ α : Type*} (n : Nat) (compress : σ → List α → σ)

def block (m : List α) (i : Nat) : List α := (m.drop (n * i)).take n

def hashBlocks (s : σ) (m : List α) : σ :=
  (List.range (m.length / n)).foldl (fun s i => compress s (block n m i)) s

/-- One element more for a receiver. -/
def push (r : σ × List α) (a : α) : σ × List α :=
  if r.2.length + 1 = n then (compress r.1 (r.2 ++ [a]), []) else (r.1, r.2 ++ [a])

def absorb (r : σ × List α) (l : List α) : σ × List α := l.foldl (push n compress) r

variable {n compress} {s : σ} {r : σ × List α} {rest l m b : List α}

@[simp] theorem absorb_nil : absorb n compress r [] = r := rfl

theorem absorb_append :
    absorb n compress r (l ++ m) = absorb n compress (absorb n compress r l) m :=
  foldl_append

/-- A receiver that is right after each piece is right after all of them. -/
theorem foldl_pieces {ρ : Type*} {P : ρ → List α → Prop} {f : ρ → List α → ρ} {c : ρ}
    (step : ∀ c m l, P c m → P (f c l) (m ++ l)) (pieces : List (List α)) (h : P c m) :
    P (pieces.foldl f c) (m ++ pieces.flatten) := by
  induction pieces generalizing c m with
  | nil =>
    rw [flatten_nil, append_nil]
    exact h
  | cons l pieces ih =>
    have rest := ih (step c m l h)
    rw [append_assoc] at rest
    exact rest

theorem absorb_short (h : rest.length + l.length < n) :
    absorb n compress (s, rest) l = (s, rest ++ l) := by
  induction l generalizing rest with
  | nil => rw [absorb_nil, append_nil]
  | cons a l ih =>
    have hlen : (a :: l).length = l.length + 1 := length_cons
    have hpush : push n compress (s, rest) a = (s, rest ++ [a]) := if_neg (by dsimp only; omega)
    have hrest : (rest ++ [a]).length + l.length < n := by
      rw [length_append, length_singleton]
      omega
    rw [absorb, foldl_cons, hpush]
    exact (ih hrest).trans (by rw [append_assoc, singleton_append])

theorem absorb_fill (h : rest.length + l.length = n) (hl : l ≠ []) :
    absorb n compress (s, rest) l = (compress s (rest ++ l), []) := by
  obtain ⟨init, a, rfl⟩ := (eq_nil_or_concat l).resolve_left hl
  rw [concat_eq_append] at h ⊢
  rw [length_append, length_singleton] at h
  have hinit : absorb n compress (s, rest) init = (s, rest ++ init) := absorb_short (by omega)
  have hfull : (rest ++ init).length + 1 = n := by
    rw [length_append]
    omega
  rw [absorb_append, hinit, ← append_assoc]
  exact if_pos hfull

theorem absorb_block (hn : 0 < n) (hb : b.length = n) :
    absorb n compress (s, []) (b ++ m) = absorb n compress (compress s b, []) m := by
  have hne : b ≠ [] := by
    rintro rfl
    exact absurd hb (Nat.ne_of_lt hn)
  rw [absorb_append, absorb_fill (by simpa using hb) hne, nil_append]

theorem length_absorb_lt (h : r.2.length < n) : (absorb n compress r l).2.length < n := by
  induction l generalizing r with
  | nil => exact h
  | cons a l ih =>
    refine ih ?_
    unfold push
    split
    · exact Nat.lt_of_le_of_lt (Nat.zero_le _) h
    · rename_i hfull
      rw [length_append, length_singleton]
      omega

theorem block_append (h : n * (i + 1) ≤ l.length) : block n (l ++ m) i = block n l i := by
  have hle : n * i + n ≤ l.length := by
    rw [Nat.mul_succ] at h
    exact h
  rw [block, block, drop_append_of_le_length (by omega),
    take_append_of_le_length (by rw [length_drop]; omega)]

theorem foldl_block_append (hk : k ≤ l.length / n) :
    (range k).foldl (fun s i => compress s (block n (l ++ m) i)) s =
      (range k).foldl (fun s i => compress s (block n l i)) s := by
  refine foldl_ext _ _ _ fun s i hi => ?_
  have hlt : i + 1 ≤ l.length / n := Nat.le_trans (mem_range.mp hi) hk
  rw [block_append ((Nat.mul_le_mul_left n hlt).trans (Nat.mul_div_le l.length n))]

/-- A receiver has the state after the whole blocks of the message, and the elements since then. -/
theorem absorb_eq (hn : 0 < n) (m : List α) :
    absorb n compress (s, []) m = (hashBlocks n compress s m, m.drop (n * (m.length / n))) := by
  induction m using reverseRecOn with
  | nil => simp [absorb, hashBlocks]
  | append_singleton m a ih =>
    have hdiv := Nat.div_add_mod m.length n
    have hmod := Nat.mod_lt m.length hn
    have hkept : (m.drop (n * (m.length / n))).length = m.length % n := by
      rw [length_drop]
      omega
    have hlen : (m ++ [a]).length = m.length + 1 := by simp
    rw [absorb_append, ih, absorb, foldl_cons, foldl_nil, push]
    rw [hkept]
    by_cases hfull : m.length % n + 1 = n
    · -- the element completes block `m.length / n`
      have hnext : (m ++ [a]).length = n * (m.length / n + 1) := by
        rw [hlen, Nat.mul_succ]
        omega
      have hcount : (m ++ [a]).length / n = m.length / n + 1 := by
        rw [hnext, Nat.mul_div_cancel_left _ hn]
      have hlast : block n (m ++ [a]) (m.length / n) = m.drop (n * (m.length / n)) ++ [a] := by
        rw [block, drop_append_of_le_length (Nat.mul_div_le _ _), take_of_length_le]
        rw [length_append, hkept, length_singleton]
        omega
      have hstate : hashBlocks n compress s (m ++ [a]) =
          compress (hashBlocks n compress s m) (m.drop (n * (m.length / n)) ++ [a]) := by
        rw [← hlast, hashBlocks, hcount, range_succ, foldl_append,
          foldl_block_append (Nat.le_refl _)]
        rfl
      rw [if_pos hfull, hstate, hcount, ← hnext, drop_length]
    · have hcount : (m ++ [a]).length / n = m.length / n := by
        rw [hlen]
        exact Nat.div_eq_of_lt_le (by rw [Nat.mul_comm]; omega)
          (by rw [Nat.mul_comm, Nat.mul_succ]; omega)
      have hstate : hashBlocks n compress s (m ++ [a]) = hashBlocks n compress s m := by
        rw [hashBlocks, hcount]
        exact foldl_block_append (Nat.le_refl _)
      rw [if_neg hfull, hstate, hcount, drop_append_of_le_length (Nat.mul_div_le _ _)]

theorem absorb_fst (hn : 0 < n) (m : List α) :
    (absorb n compress (s, []) m).1 = hashBlocks n compress s m := by
  rw [absorb_eq hn]

end Six.Lib.BlockHash
