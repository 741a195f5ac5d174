import Six.Lib.Codec

/-! Buffers that are filled piece by piece.  `Agree` follows a copy that can stop half way, and
`Codec.fetch_of_agree` reads the record back once the copy is complete. -/

namespace Six.Lib

open List

abbrev Buffer := Nat → UInt8

namespace Buffer

variable {dst src : Buffer} {lo hi : Nat}

def ofList (bs : List UInt8) : Buffer := fun i => bs.getD i 0

def load (b : Buffer) (off : Nat) : Nat → List UInt8
  | 0 => []
  | n + 1 => b off :: load b (off + 1) n

def blit (dst src : Buffer) (lo hi : Nat) : Buffer :=
  fun i => if lo ≤ i ∧ i < hi then src i else dst i

def Agree (n : Nat) (a b : Buffer) : Prop := ∀ i < n, a i = b i

theorem Agree.zero (a b : Buffer) : Agree 0 a b := fun _ hi => absurd hi (Nat.not_lt_zero _)

theorem Agree.blit (h : Agree lo dst src) : Agree hi (dst.blit src lo hi) src := by
  intro i hi'
  unfold Buffer.blit
  split
  · rfl
  · exact h i (by omega)

theorem load_congr {a b : Buffer} (h : ∀ i < n, a (off + i) = b (off + i)) :
    a.load off n = b.load off n := by
  induction n generalizing off with
  | zero => rfl
  | succ n ih =>
    have head : a off = b off := h 0 (by omega)
    have tail : a.load (off + 1) n = b.load (off + 1) n := by
      apply ih
      intro i hi
      have := h (i + 1) (by omega)
      rwa [show off + (i + 1) = off + 1 + i by omega] at this
    simp only [load, head, tail]

theorem load_ofList (pre bs : List UInt8) :
    (ofList (pre ++ bs)).load pre.length bs.length = bs := by
  induction bs generalizing pre with
  | nil => rfl
  | cons x xs ih =>
    have head : ofList (pre ++ x :: xs) pre.length = x := by simp [ofList]
    have tail := ih (pre ++ [x])
    simp only [append_assoc, singleton_append, length_append, length_singleton] at tail
    simp only [length_cons, load, head, tail]

end Buffer

namespace Codec

variable {α : Type*} (c : Codec α)

def store (a : α) : Buffer := .ofList (c.enc a)

def fetch (b : Buffer) : α := c.dec (b.load 0 c.width)

theorem fetch_store (a : α) : c.fetch (c.store a) = a := by
  have bytes : (Buffer.ofList (c.enc a)).load 0 c.width = c.enc a := by
    rw [← c.length_enc a]
    exact Buffer.load_ofList [] (c.enc a)
  have back := c.dec_enc a []
  rw [append_nil] at back
  rw [fetch, store, bytes, back]

theorem fetch_congr {a b : Buffer} (h : Buffer.Agree c.width a b) : c.fetch a = c.fetch b := by
  rw [fetch, fetch]
  congr 1
  apply Buffer.load_congr
  intro i hi
  rw [Nat.zero_add]
  exact h i hi

theorem fetch_of_agree (h : Buffer.Agree c.width b (c.store a)) : c.fetch b = a :=
  (c.fetch_congr h).trans (c.fetch_store a)

end Codec

end Six.Lib
