import Six.Lib.Bytes
import Mathlib.Data.List.Basic

/-! `fuse_readdir` (`fs/fuse/dir.c`) once the daemon has answered.  The length of a name is not
checked, and the size of an entry is computed from it modulo `2^32`. -/

namespace Six.Fuse

open Lib

/-- The reply to `FUSE_READDIR`, which has at most a page. -/
structure Reply where
  bytes : List UInt8
  room : bytes.length ≤ 4096

/-- A call of `filldir`: where the name starts in the reply, and the other arguments. -/
structure Filled where
  start : Nat
  namelen : UInt32
  fPos : UInt64
  ino : UInt32
  deriving DecidableEq

/-- `FUSE_DIRENT_SIZE`: the next multiple of 8. -/
def direntSize (namelen : UInt32) : UInt32 := (24 + namelen + 7) / 8 * 8

namespace Reply

variable (r : Reply)

def actual : UInt32 := UInt32.ofNat r.bytes.length

def field (off n : Nat) : Nat := leNat (fieldAt r.bytes off n)

def ino (pos : UInt32) : UInt32 :=
  let ino := UInt32.ofNat (r.field pos.toNat 8)
  if ino = 0 then 1 else ino

def off (pos : UInt32) : UInt64 := UInt64.ofNat (r.field (pos.toNat + 8) 8)

def namelen (pos : UInt32) : UInt32 := UInt32.ofNat (r.field (pos.toNat + 16) 4)

/-- The loop does not end before the entry at `pos` is passed to `filldir`. -/
def takes (pos : UInt32) : Bool :=
  pos + 24 ≤ r.actual ∧ r.namelen pos ≠ 0 ∧ pos + direntSize (r.namelen pos) ≤ r.actual

/-- The loop from `pos` on: what is passed to `filldir`, which takes or refuses the last of what it
has got, and `f_pos`.  There is no result when it has not ended after the given number of turns. -/
def readdir (r : Reply) (filldir : List Filled → Bool) :
    Nat → UInt32 → UInt64 → List Filled → Option (List Filled × UInt64)
  | 0, _, _, _ => none
  | n + 1, pos, fPos, out =>
    if r.takes pos then
      let out := out ++ [⟨pos.toNat + 24, r.namelen pos, fPos, r.ino pos⟩]
      if filldir out then r.readdir filldir n (pos + direntSize (r.namelen pos)) (r.off pos) out
      else some (out, fPos)
    else some (out, fPos)

def Inside (e : Filled) : Prop := e.start + e.namelen.toNat ≤ r.bytes.length

/-- Whatever `filldir` does, the loop ends, and every name lies in the reply. -/
def Safe : Prop := ∀ filldir fPos, ∃ n res,
  r.readdir filldir n 0 fPos [] = some res ∧ ∀ e ∈ res.1, r.Inside e

/-- The positions that the loop comes to when `filldir` takes everything. -/
inductive Starts (r : Reply) : UInt32 → Prop
  | first : Starts r 0
  | next {pos : UInt32} : Starts r pos → r.takes pos = true →
      Starts r (pos + direntSize (r.namelen pos))

variable {r : Reply} {pos : UInt32} {n : Nat} {fPos : UInt64} {out : List Filled}
  {res : List Filled × UInt64} {filldir : List Filled → Bool}

theorem toNat_actual : r.actual.toNat = r.bytes.length := by
  have hroom := r.room
  rw [actual, UInt32.toNat_ofNat', Nat.mod_eq_of_lt (by omega)]

theorem toNat_direntSize {namelen : UInt32} (h : namelen.toNat + 31 < 2 ^ 32) :
    (direntSize namelen).toNat = (namelen.toNat + 31) / 8 * 8 := by
  simp only [direntSize, UInt32.toNat_mul, UInt32.toNat_div, UInt32.toNat_add, UInt32.reduceToNat]
  omega

/-- An entry whose size does not wrap lies in the reply, behind the one before it. -/
theorem next_inside (htakes : r.takes pos = true)
    (h : pos.toNat + (r.namelen pos).toNat + 31 < 2 ^ 32) :
    pos.toNat < (pos + direntSize (r.namelen pos)).toNat ∧
      (pos + direntSize (r.namelen pos)).toNat ≤ r.bytes.length ∧
      pos.toNat + 24 + (r.namelen pos).toNat ≤ r.bytes.length := by
  have hsize : (direntSize (r.namelen pos)).toNat = _ := toNat_direntSize (by omega)
  simp only [takes, decide_eq_true_eq, UInt32.le_iff_toNat_le, toNat_actual, UInt32.toNat_add,
    UInt32.reduceToNat, hsize] at htakes
  rw [UInt32.toNat_add, hsize]
  omega

theorem readdir_inside (h : ∀ pos, r.Starts pos → r.takes pos = true →
      pos.toNat + (r.namelen pos).toNat + 31 < 2 ^ 32) (hstart : r.Starts pos)
    (hpos : pos.toNat ≤ r.bytes.length) (hn : r.bytes.length < pos.toNat + n)
    (hout : ∀ e ∈ out, r.Inside e) :
    ∃ res, r.readdir filldir n pos fPos out = some res ∧ ∀ e ∈ res.1, r.Inside e := by
  induction n generalizing pos fPos out with
  | zero => omega
  | succ n ih =>
    unfold readdir
    by_cases htakes : r.takes pos = true
    · obtain ⟨hlt, hle, hname⟩ := next_inside htakes (h pos hstart htakes)
      have hout' : ∀ e ∈ out ++ [⟨pos.toNat + 24, r.namelen pos, fPos, r.ino pos⟩], r.Inside e := by
        intro e he
        rcases List.mem_append.mp he with hold | hnew
        · exact hout e hold
        · rw [List.mem_singleton.mp hnew]
          exact hname
      rw [if_pos htakes]
      dsimp only
      split
      · exact ih (hstart.next htakes) hle (by omega) hout'
      · exact ⟨_, rfl, hout'⟩
    · rw [if_neg htakes]
      exact ⟨_, rfl, hout⟩

theorem mem_of_readdir (h : r.readdir filldir n pos fPos out = some res)
    (he : e ∈ out) : e ∈ res.1 := by
  induction n generalizing pos fPos out with
  | zero => cases h
  | succ n ih =>
    unfold readdir at h
    dsimp only at h
    split at h
    · split at h
      · exact ih h (List.mem_append_left _ he)
      · cases h
        exact List.mem_append_left _ he
    · cases h
      exact he

theorem readdir_passes (h : r.readdir (fun _ => true) n 0 fPos [] = some res)
    (hstart : r.Starts pos) :
    ∃ n fPos out, r.readdir (fun _ => true) n pos fPos out = some res := by
  induction hstart with
  | first => exact ⟨n, fPos, [], h⟩
  | next _ htakes ih =>
    obtain ⟨n, fPos, out, h⟩ := ih
    cases n with
    | zero => cases h
    | succ n =>
      rw [readdir, if_pos htakes] at h
      exact ⟨n, _, _, h⟩

theorem Safe.namelen_lt (h : r.Safe) (hstart : r.Starts pos) (htakes : r.takes pos = true) :
    pos.toNat + (r.namelen pos).toNat + 31 < 2 ^ 32 := by
  obtain ⟨n, res, hres, hinside⟩ := h (fun _ => true) 0
  obtain ⟨n, fPos, out, hpos⟩ := readdir_passes hres hstart
  cases n with
  | zero => cases hpos
  | succ n =>
    rw [readdir, if_pos htakes] at hpos
    have hname :=
      hinside _ (mem_of_readdir hpos (List.mem_append_right _ (List.mem_singleton_self _)))
    have hroom := r.room
    unfold Inside at hname
    dsimp only at hname
    omega

/-- `fuse_readdir` ends and passes on only names in the reply exactly when the end of no entry that
it comes to wraps around. -/
theorem readdir_safe_iff (r : Reply) : r.Safe ↔ ∀ pos, r.Starts pos → r.takes pos = true →
    pos.toNat + (r.namelen pos).toNat + 31 < 2 ^ 32 :=
  ⟨fun h _ hstart htakes => h.namelen_lt hstart htakes, fun h _ _ =>
    ⟨_, readdir_inside h .first (Nat.zero_le _) (Nat.lt_add_left 0 (Nat.lt_succ_self _)) nofun⟩⟩

/-- One entry with a name of `2^32 - 24` bytes, which has the size 0. -/
def loopingReply : Reply := ⟨List.replicate 16 0 ++ [0xe8, 0xff, 0xff, 0xff, 0, 0, 0, 0], by decide⟩

theorem looping_reply_unsafe : ¬ loopingReply.Safe :=
  fun h => absurd (h.namelen_lt .first (by decide)) (by decide)

end Reply

end Six.Fuse
