import Six.Lib.Index
import Mathlib.Logic.Function.Basic

/-! The crypt target of the device mapper (`drivers/block/dm.c`): the derivation of a 256-bit key
from the key string of a table line, and the ChaCha20 stream that a 512-byte sector is combined
with. -/

namespace Six.Dm

open Function

abbrev Sector := Fin 512 → UInt8

/-- `hex_nibble`, with `none` for its result -1. -/
def hexNibble (c : UInt8) : Option UInt8 :=
  if 0x30 ≤ c ∧ c ≤ 0x39 then some (c - 0x30)
  else if 0x61 ≤ c ∧ c ≤ 0x66 then some (c - 0x61 + 10)
  else if 0x41 ≤ c ∧ c ≤ 0x46 then some (c - 0x41 + 10)
  else none

def rotl32 (v c : UInt32) : UInt32 := (v <<< c) ||| (v >>> (32 - c))

/-- The word `h` after the inner loop of the FNV branch of `dm_derive_key` over the key string. -/
def fnvFold (h : UInt32) (key : List UInt8) : UInt32 :=
  key.foldl (fun h c => (h ^^^ c.toUInt32) * 0x01000193) h

/-- The word `h` of the FNV branch of `dm_derive_key` after the rounds 0 to `i`. -/
def fnvRound (key : List UInt8) : Nat → UInt32
  | 0 => fnvFold ((0x811c9dc5 ^^^ (key.getD 0 0).toUInt32) * 0x01000193) key
  | i + 1 =>
    let c := key.getD ((i + 1) % (if key.length = 0 then 1 else key.length)) 0
    fnvFold ((fnvRound key i ^^^ c.toUInt32) * 0x01000193 ^^^
      UInt32.ofNat (i + 1) * 0x9e3779b9) key

def hexByte (key : List UInt8) (i : Nat) : UInt8 :=
  ((hexNibble (key.getD (2 * i) 0)).getD 0 <<< 4) ||| (hexNibble (key.getD (2 * i + 1) 0)).getD 0

/-- Byte `i` of the array `raw` of `dm_derive_key`, for the key string `key` without its
terminator. -/
def rawKeyByte (key : List UInt8) (i : Nat) : UInt8 :=
  if 16 ≤ key.length ∧ key.length % 2 = 0 ∧ key.all (fun c => (hexNibble c).isSome) then
    if 2 * i + 1 < key.length then hexByte key i
    else hexByte key (i % (key.length / 2)) ^^^ UInt8.ofNat (i * 0x9e)
  else (fnvRound key i >>> UInt32.ofNat (i % 4 * 8)).toUInt8

def dmDeriveKey (key : List UInt8) : Fin 8 → UInt32 := fun i =>
  (rawKeyByte key (i * 4)).toUInt32 ||| ((rawKeyByte key (i * 4 + 1)).toUInt32 <<< 8) |||
    ((rawKeyByte key (i * 4 + 2)).toUInt32 <<< 16) |||
    ((rawKeyByte key (i * 4 + 3)).toUInt32 <<< 24)

def chachaQR (x : Fin 16 → UInt32) (a b c d : Fin 16) : Fin 16 → UInt32 :=
  let x := update x a (x a + x b)
  let x := update x d (rotl32 (x d ^^^ x a) 16)
  let x := update x c (x c + x d)
  let x := update x b (rotl32 (x b ^^^ x c) 12)
  let x := update x a (x a + x b)
  let x := update x d (rotl32 (x d ^^^ x a) 8)
  let x := update x c (x c + x d)
  update x b (rotl32 (x b ^^^ x c) 7)

def chachaDoubleRound (x : Fin 16 → UInt32) : Fin 16 → UInt32 :=
  let x := chachaQR x 0 4 8 12
  let x := chachaQR x 1 5 9 13
  let x := chachaQR x 2 6 10 14
  let x := chachaQR x 3 7 11 15
  let x := chachaQR x 0 5 10 15
  let x := chachaQR x 1 6 11 12
  let x := chachaQR x 2 7 8 13
  chachaQR x 3 4 9 14

variable (key : Fin 8 → UInt32)

/-- The initial state of ChaCha20 for block `blk` of the sector with initial vector `ivSector`. -/
def chachaInit (ivSector : UInt32) (blk : Nat) (i : Fin 16) : UInt32 :=
  match i with
  | 0 => 0x61707865
  | 1 => 0x3320646e
  | 2 => 0x79622d32
  | 3 => 0x6b206574
  | 12 => UInt32.ofNat blk
  | 13 => ivSector
  | 14 => 0
  | 15 => 0x444d5349
  | ⟨j, _⟩ => key ⟨(j - 4) % 8, Nat.mod_lt _ (by decide)⟩

def chachaWord (ivSector : UInt32) (blk : Nat) (i : Fin 16) : UInt32 :=
  let st := chachaInit key ivSector blk
  Nat.iterate chachaDoubleRound 10 st i + st i

def keystream (ivSector : UInt32) (p : Fin 512) : UInt8 :=
  let word := chachaWord key ivSector (p / 64) ⟨p % 64 / 4, by omega⟩
  (word >>> UInt32.ofNat (p % 4 * 8)).toUInt8

def dmCryptSector (ivSector : UInt32) (src : Sector) : Sector :=
  fun p => src p ^^^ keystream key ivSector p

@[simp] theorem dmCryptSector_dmCryptSector (iv : UInt32) (src : Sector) :
    dmCryptSector key iv (dmCryptSector key iv src) = src := by
  funext p
  simp only [dmCryptSector, UInt8.xor_assoc, UInt8.xor_self, UInt8.xor_zero]

end Six.Dm
