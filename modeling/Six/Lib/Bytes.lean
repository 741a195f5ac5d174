import Mathlib.Tactic.Ring
import Six.Lib.Index

/-! Little-endian numbers and fields of byte records.  A record is a list of bytes, and a field is
the bytes from an offset on; `leBytes` and `leNat` convert between numbers and their bytes. -/

namespace Six.Lib

/-- The `w` low bytes of `n`, the lowest first. -/
def leBytes : Nat → Nat → List UInt8
  | 0, _ => []
  | w + 1, n => UInt8.ofNat (n % 256) :: leBytes w (n / 256)

def leNat : List UInt8 → Nat
  | [] => 0
  | b :: bs => b.toNat + 256 * leNat bs

def fieldAt (bs : List UInt8) (off n : Nat) : List UInt8 := (bs.drop off).take n

/-- The first `n` bytes of `x` and `y` are the same. -/
def sameBytes : Nat → (Nat → UInt8) → (Nat → UInt8) → Bool
  | 0, _, _ => true
  | n + 1, x, y => x 0 == y 0 && sameBytes n (fun i => x (i + 1)) fun i => y (i + 1)

theorem sameBytes_iff : sameBytes n x y = true ↔ ∀ i < n, x i = y i := by
  induction n generalizing x y with
  | zero => simp [sameBytes]
  | succ n ih =>
    simp only [sameBytes, Bool.and_eq_true, beq_iff_eq, ih]
    constructor
    · rintro ⟨h0, h⟩ i hi
      cases i with
      | zero => exact h0
      | succ i => exact h i (by omega)
    · intro h
      exact ⟨h 0 (by omega), fun i hi => h (i + 1) (by omega)⟩

@[simp] theorem length_leBytes (w n : Nat) : (leBytes w n).length = w := by
  induction w generalizing n with
  | zero => rfl
  | succ w ih => simp [leBytes, ih]

theorem leNat_leBytes (w n : Nat) : leNat (leBytes w n) = n % 256 ^ w := by
  induction w generalizing n with
  | zero => simp [leBytes, leNat, Nat.mod_one]
  | succ w ih =>
    have hbyte : n % 256 % 2 ^ 8 = n % 256 := by omega
    rw [leBytes, leNat, ih, UInt8.toNat_ofNat', hbyte, pow_succ', Nat.mod_mul]

@[simp] theorem ofNat_leNat_leBytes16 (x : UInt16) :
    UInt16.ofNat (leNat (leBytes 2 x.toNat)) = x := by
  rw [leNat_leBytes, Nat.mod_eq_of_lt (by simpa using x.toNat_lt), UInt16.ofNat_toNat]

@[simp] theorem ofNat_leNat_leBytes32 (n : Nat) :
    UInt32.ofNat (leNat (leBytes 4 n)) = UInt32.ofNat n := by
  rw [leNat_leBytes, ← UInt32.toNat_inj, UInt32.toNat_ofNat', UInt32.toNat_ofNat']
  omega

theorem fieldAt_append_right (h : as.length ≤ off) :
    fieldAt (as ++ bs) off n = fieldAt bs (off - as.length) n := by
  simp [fieldAt, List.drop_append, List.drop_eq_nil_of_le h]

theorem fieldAt_append_left (h : as.length = n) : fieldAt (as ++ bs) 0 n = as := by
  simp [fieldAt, ← h]

end Six.Lib
