import Six.Lib.Bytes
import Mathlib.Data.List.Range

/-! Files and devices as byte arrays of fixed size.  Offsets are signed 32-bit numbers, so a file is
smaller than `2^31` bytes and a seek to a larger offset fails and leaves the position alone. -/

namespace Six.Lib

open List

structure File where
  size : Nat
  byte : Nat → UInt8
  size_lt : size < 2 ^ 31

def seek (pos : Nat) (off : UInt32) : Nat := if off.toNat < 2 ^ 31 then off.toNat else pos

theorem seek_of_lt (h : off.toNat < 2 ^ 31) : seek pos off = off.toNat := if_pos h

namespace File

variable {f : File} {pos n off : Nat} {i : Nat} {src : Nat → UInt8} {bs : List UInt8}

def count (f : File) (pos n : Nat) : Nat := min n (f.size - pos)

def bytes (f : File) (off n : Nat) : List UInt8 := (List.range n).map fun i => f.byte (off + i)

def write (f : File) (pos n : Nat) (src : Nat → UInt8) : File :=
  { f with byte := fun i => if pos ≤ i ∧ i < pos + f.count pos n then src (i - pos) else f.byte i }

theorem count_of_le (h : pos + n ≤ f.size) : f.count pos n = n := by
  unfold count
  omega

theorem le_of_count (h : f.count pos n = n) (hn : 0 < n) : pos + n ≤ f.size := by
  unfold count at h
  omega

theorem write_byte_inside (h : pos + n ≤ f.size) (hlo : pos ≤ i) (hhi : i < pos + n) :
    (f.write pos n src).byte i = src (i - pos) := by
  simp [write, count_of_le h, hlo, hhi]

theorem write_byte_outside (h : i < pos ∨ pos + n ≤ i) : (f.write pos n src).byte i = f.byte i := by
  have hcount : f.count pos n ≤ n := by
    unfold count
    omega
  have hout : ¬(pos ≤ i ∧ i < pos + f.count pos n) := by omega
  simp [write, hout]

@[simp] theorem length_bytes (f : File) (off n : Nat) : (f.bytes off n).length = n := by
  simp [bytes]

/-- The file has the bytes `bs` from `off` on. -/
def Holds (f : File) (off : Nat) (bs : List UInt8) : Prop :=
  off + bs.length ≤ f.size ∧ f.bytes off bs.length = bs

theorem bytes_append (f : File) (off m n : Nat) :
    f.bytes off (m + n) = f.bytes off m ++ f.bytes (off + m) n := by
  simp [bytes, range_add, Nat.add_assoc]

theorem holds_append : f.Holds off (as ++ bs) ↔ f.Holds off as ∧ f.Holds (off + as.length) bs := by
  unfold Holds
  rw [length_append, bytes_append]
  constructor
  · rintro ⟨hsize, heq⟩
    obtain ⟨ha, hb⟩ := append_inj heq (by simp)
    exact ⟨⟨by omega, ha⟩, by omega, hb⟩
  · rintro ⟨⟨-, ha⟩, hsize, hb⟩
    exact ⟨by omega, by rw [ha, hb]⟩

theorem Holds.byte (h : f.Holds off bs) (hi : i < bs.length) : f.byte (off + i) = bs[i] := by
  have hget : (f.bytes off bs.length)[i]? = some (f.byte (off + i)) := by
    simp [bytes, hi]
  rw [h.2, getElem?_eq_getElem hi] at hget
  exact (Option.some.inj hget).symm

def ofList (bs : List UInt8) (h : bs.length < 2 ^ 31) : File := ⟨bs.length, fun i => bs.getD i 0, h⟩

theorem holds_ofList (h : bs.length < 2 ^ 31) : (ofList bs h).Holds 0 bs := by
  refine ⟨by simp [ofList], ext_getElem (by simp) fun i hi hi' => ?_⟩
  simp [bytes, ofList, getElem?_eq_getElem hi']

end File

end Six.Lib
