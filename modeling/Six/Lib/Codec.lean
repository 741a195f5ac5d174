import Six.Lib.Bytes
import Mathlib.Data.List.FinRange

/-! Records of fixed width.  A codec writes a value in a fixed number of bytes and reads it back
from any list that starts with those bytes. -/

namespace Six.Lib

open List

variable {α β : Type*}

structure Codec (α : Type*) where
  width : Nat
  enc : α → List UInt8
  dec : List UInt8 → α
  length_enc : ∀ a, (enc a).length = width
  dec_enc : ∀ a rest, dec (enc a ++ rest) = a

namespace Codec

attribute [simp] length_enc

def pair (c : Codec α) (d : Codec β) : Codec (α × β) where
  width := c.width + d.width
  enc := fun p => c.enc p.1 ++ d.enc p.2
  dec := fun bs => (c.dec bs, d.dec (bs.drop c.width))
  length_enc := by simp
  dec_enc := by
    rintro ⟨a, b⟩ rest
    have hdrop : (c.enc a ++ (d.enc b ++ rest)).drop c.width = d.enc b ++ rest := by
      rw [← c.length_enc a, drop_left]
    simp only [append_assoc, hdrop, c.dec_enc, d.dec_enc]

/-- The same bytes, for a type that `α` represents. -/
def imap (c : Codec α) (f : α → β) (g : β → α) (h : ∀ b, f (g b) = b) : Codec β where
  width := c.width
  enc := fun b => c.enc (g b)
  dec := fun bs => f (c.dec bs)
  length_enc := fun b => c.length_enc (g b)
  dec_enc := fun b rest => by rw [c.dec_enc, h]

theorem leNat_take_leBytes (h : n < 256 ^ w) (rest : List UInt8) :
    leNat ((leBytes w n ++ rest).take w) = n := by
  rw [take_left' (length_leBytes w n), leNat_leBytes, Nat.mod_eq_of_lt h]

def u8 : Codec UInt8 where
  width := 1
  enc := fun x => [x]
  dec := fun bs => bs.headD 0
  length_enc := fun _ => rfl
  dec_enc := fun _ _ => rfl

def u16 : Codec UInt16 where
  width := 2
  enc := fun x => leBytes 2 x.toNat
  dec := fun bs => UInt16.ofNat (leNat (bs.take 2))
  length_enc := by simp
  dec_enc := by
    intro x rest
    rw [leNat_take_leBytes x.toNat_lt, UInt16.ofNat_toNat]

def u32 : Codec UInt32 where
  width := 4
  enc := fun x => leBytes 4 x.toNat
  dec := fun bs => UInt32.ofNat (leNat (bs.take 4))
  length_enc := by simp
  dec_enc := by
    intro x rest
    rw [leNat_take_leBytes x.toNat_lt, UInt32.ofNat_toNat]

def u64 : Codec UInt64 where
  width := 8
  enc := fun x => leBytes 8 x.toNat
  dec := fun bs => UInt64.ofNat (leNat (bs.take 8))
  length_enc := by simp
  dec_enc := by
    intro x rest
    rw [leNat_take_leBytes x.toNat_lt, UInt64.ofNat_toNat]

def i32 : Codec Int32 := u32.imap UInt32.toInt32 Int32.toUInt32 Int32.toInt32_toUInt32

def array (n : Nat) : Codec (Fin n → UInt8) where
  width := n
  enc := fun a => (List.finRange n).map a
  dec := fun bs i => bs.getD i 0
  length_enc := by simp
  dec_enc := by
    intro a rest
    funext i
    have hget : ((List.finRange n).map a)[i.val]? = some (a i) := by
      rw [getElem?_map, getElem?_eq_getElem (by simp), getElem_finRange]
      rfl
    rw [getD_eq_getElem?_getD, getElem?_append_left (by simp), hget]
    rfl

end Codec

end Six.Lib
