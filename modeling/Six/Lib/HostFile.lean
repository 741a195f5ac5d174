import Six.Lib.File

/-! Regular files of the host.  A read stops at the end of the file; a write past the end makes the
file longer, up to the size that the host lets it have. -/

namespace Six.Lib

structure HostFile where
  size : Nat
  limit : Nat
  byte : Nat → UInt8
  size_le : size ≤ limit
  limit_lt : limit < 2 ^ 31
  -- a gap that a later write leaves reads as zero
  past : ∀ i, size ≤ i → byte i = 0

namespace HostFile

variable {f : HostFile} {pos n i : Nat} {src : Nat → UInt8}

def readCount (f : HostFile) (pos n : Nat) : Nat := min n (f.size - pos)

def writeCount (f : HostFile) (pos n : Nat) : Nat := min n (f.limit - pos)

def bytes (f : HostFile) (off n : Nat) : List UInt8 := (List.range n).map fun i => f.byte (off + i)

def write (f : HostFile) (pos n : Nat) (src : Nat → UInt8) : HostFile where
  size := if f.writeCount pos n = 0 then f.size else max f.size (pos + f.writeCount pos n)
  limit := f.limit
  byte := fun i => if pos ≤ i ∧ i < pos + f.writeCount pos n then src (i - pos) else f.byte i
  size_le := by
    have := f.size_le
    unfold writeCount
    split <;> omega
  limit_lt := f.limit_lt
  past := by
    intro i hi
    split at hi <;> rw [if_neg (by omega), f.past i (by omega)]

theorem writeCount_le : f.writeCount pos n ≤ n := Nat.min_le_left _ _

theorem writeCount_of_le (h : pos + n ≤ f.limit) : f.writeCount pos n = n := by
  unfold writeCount
  omega

theorem writeCount_of_readCount (h : f.readCount pos n = n) : f.writeCount pos n = n := by
  have := f.size_le
  unfold readCount at h
  unfold writeCount
  omega

@[simp] theorem write_limit (f : HostFile) (pos n : Nat) (src : Nat → UInt8) :
    (f.write pos n src).limit = f.limit := rfl

theorem write_byte_outside (h : i < pos ∨ pos + n ≤ i) : (f.write pos n src).byte i = f.byte i := by
  have hcount : f.writeCount pos n ≤ n := writeCount_le
  exact if_neg (by omega)

theorem write_byte_inside (h : pos + n ≤ f.limit) (hlo : pos ≤ i) (hhi : i < pos + n) :
    (f.write pos n src).byte i = src (i - pos) :=
  if_pos (by rw [writeCount_of_le h]; exact ⟨hlo, hhi⟩)

theorem write_byte_of_lt (h : i < f.limit) :
    (f.write pos n src).byte i = if pos ≤ i ∧ i < pos + n then src (i - pos) else f.byte i := by
  have hcount : (pos ≤ i ∧ i < pos + f.writeCount pos n) ↔ (pos ≤ i ∧ i < pos + n) := by
    unfold writeCount
    omega
  exact if_congr hcount rfl rfl

theorem size_le_write : f.size ≤ (f.write pos n src).size := by
  show f.size ≤ if f.writeCount pos n = 0 then f.size else max f.size (pos + f.writeCount pos n)
  split <;> omega

@[simp] theorem length_bytes (f : HostFile) (off n : Nat) : (f.bytes off n).length = n := by
  simp [bytes]

theorem bytes_congr {f g : HostFile} (h : ∀ i < n, f.byte (off + i) = g.byte (off + i)) :
    f.bytes off n = g.bytes off n :=
  List.map_congr_left fun i hi => h i (List.mem_range.mp hi)

theorem bytes_write (bs : List UInt8) (h : pos + bs.length ≤ f.limit) :
    (f.write pos bs.length fun i => bs.getD i 0).bytes pos bs.length = bs := by
  refine List.ext_getElem (by simp) fun i hi hi' => ?_
  have hlt : pos + i < pos + bs.length := by omega
  simp [bytes, write_byte_inside h (Nat.le_add_right pos i) hlt, List.getElem?_eq_getElem hi']

theorem readCount_write (h : pos + n ≤ f.limit) : (f.write pos n src).readCount pos n = n := by
  unfold readCount write
  dsimp only
  rw [writeCount_of_le h]
  split <;> omega

end HostFile

end Six.Lib
