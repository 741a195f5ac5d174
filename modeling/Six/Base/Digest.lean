import Mathlib.Data.List.FinRange
import Six.Lib.Index

/-! The 32-byte arrays that SHA-256 digests and salts are kept in. -/

namespace Six

open List

abbrev Digest := Fin 32 → UInt8

def Digest.bytes (d : Digest) : List UInt8 := (List.finRange 32).map d

@[simp] theorem Digest.length_bytes (d : Digest) : d.bytes.length = 32 := by
  simp [bytes]

def Digest.at (bs : List UInt8) (off : Nat) : Digest := fun i => bs.getD (off + i) 0

theorem Digest.at_append (h : as.length = off)
    (rest : List UInt8) : Digest.at (as ++ (d.bytes ++ rest)) off = d := by
  funext i
  have hget : d.bytes[i.val]? = some (d i) := by
    rw [bytes, getElem?_map, getElem?_eq_getElem (by simp), getElem_finRange]
    rfl
  rw [Digest.at, getD_eq_getElem?_getD, ← h, getElem?_append_right (by omega),
    Nat.add_sub_cancel_left, getElem?_append_left (by simp), hget]
  rfl

end Six
