import Mathlib.Tactic.Tauto

/-!
The address ranges of sed (`sed.c`). `selected` is the answer of `cmd_matches` for each line of a
file that a two-address command reads, and `Standard` the rule for such commands. Lines are counted
from 0, so that line `i` has the number `i + 1`. `in_range` goes from one file to the next.
-/

namespace Six.Sed

variable {α : Type}

/-- An address. The program of a pattern is missing when `regcomp` has refused the pattern. -/
inductive Addr (α : Type)
  | num (num : Int32)
  | last
  | re (re : Option (α → Bool))

def addrMatch (a : Addr α) (lineno : Int32) (isLast : Bool) (line : α) : Bool :=
  match a with
  | .num num => lineno == num
  | .last => isLast
  | .re none => false
  | .re (some regexec) => regexec line

/-- `a1` is `none` for `ADDR_NONE`, and `a2` is `none` when `has_a2` is not set. -/
structure SedCmd (α : Type) where
  a1 : Option (Addr α)
  a2 : Option (Addr α)
  inRange : Bool := false

/-- `cmd_matches`: whether the line is selected, and `in_range` after it. -/
def cmdMatches (c : SedCmd α) (lineno : Int32) (isLast : Bool) (line : α) : Bool × Bool :=
  match c.a1, c.a2 with
  | none, _ => (true, c.inRange)
  | some a1, none => (addrMatch a1 lineno isLast line, c.inRange)
  | some a1, some a2 =>
    if !c.inRange then
      if addrMatch a1 lineno isLast line then (true, true) else (false, c.inRange)
    else (true, if addrMatch a2 lineno isLast line then false else c.inRange)

/-- A file of `n` lines, few enough for a `long`. -/
structure Stream (α : Type) where
  n : Nat
  n_lt : n < 0x80000000
  line : Nat → α

/-- A file with the addresses of the command that reads it and `in_range` at its start. -/
structure Input (α : Type) extends Stream α where
  a1 : Addr α
  a2 : Addr α
  start : Bool

namespace Input

variable (x : Input α)

def lineno (i : Nat) : Int32 := .ofNat (i + 1)

def Hit (a : Addr α) (i : Nat) : Prop := addrMatch a (lineno i) (i + 1 == x.n) (x.line i) = true

/-- `in_range` before line `i`. -/
def inRange : Nat → Bool
  | 0 => x.start
  | i + 1 => (cmdMatches ⟨x.a1, x.a2, inRange i⟩ (lineno i) (i + 1 == x.n) (x.line i)).2

def selected (i : Nat) : Bool :=
  (cmdMatches ⟨x.a1, x.a2, x.inRange i⟩ (lineno i) (i + 1 == x.n) (x.line i)).1

/-- A range from line `s` is only that line: the second address is a number up to the line's. -/
def Short (s : Nat) : Prop := ∃ num, x.a2 = .num num ∧ num.toInt ≤ s + 1

/-- A range that starts at line `s` has not ended before line `i`. -/
def Covers (s i : Nat) : Prop :=
  s ≤ i ∧ (s < i → ¬ x.Short s) ∧ ∀ j, s < j → j < i → ¬ x.Hit x.a2 j

/-- A range starts at each line that matches the first address and is in no earlier range. -/
def Starts (s : Nat) : Prop := x.Hit x.a1 s ∧ ∀ r < s, Starts r → ¬ x.Covers r s

/-- The lines that the standard rule selects. -/
def Standard (i : Nat) : Prop := ∃ s, x.Starts s ∧ x.Covers s i

/-- Line `i` is in a range that started before it. -/
def Inside (i : Nat) : Prop := ∃ s < i, x.Starts s ∧ x.Covers s i

variable {x} {i s : Nat}

theorem lineno_eq_iff {num : Int32} (h : i < 0x7fffffff) :
    lineno i = num ↔ (i : Int) + 1 = num.toInt := by
  rw [← Int32.toInt_inj, lineno, Int32.toInt_ofNat_of_lt (by omega)]
  norm_cast

/-- After a line that reaches the number of the second address every range has ended, and no line
matches that address. -/
theorem Short.after (h : x.Short s) (hsi : s < i) (hi : i ≤ x.n) :
    ¬ x.Inside i ∧ (i < x.n → ¬ x.Hit x.a2 i) := by
  obtain ⟨num, ha2, hle⟩ := h
  have hn := x.n_lt
  have hit (j : Nat) (hj : j < x.n) : x.Hit x.a2 j ↔ (j : Int) + 1 = num.toInt := by
    rw [Hit, ha2, addrMatch, beq_iff_eq, lineno_eq_iff (by omega)]
  refine ⟨fun ⟨r, hri, _, _, hshort, hc⟩ => ?_, fun hlt hm => ?_⟩
  · have hr : (r : Int) + 1 < num.toInt := Int.not_le.mp fun hle => hshort hri ⟨num, ha2, hle⟩
    have hlast := hit (num.toInt.toNat - 1) (by omega)
    exact hc (num.toInt.toNat - 1) (by omega) (by omega) (hlast.mpr (by omega))
  · have := (hit i hlt).mp hm
    omega

end Input

/-- The files of one call: `in_range` is not cleared between them. -/
def inputs (a1 a2 : Addr α) : Bool → List (Stream α) → List (Input α)
  | _, [] => []
  | start, f :: fs =>
    let x : Input α := ⟨f, a1, a2, start⟩
    x :: inputs a1 a2 (x.inRange x.n) fs

/-- The code selects the standard lines of each file. -/
def Agrees (a1 a2 : Addr α) (files : List (Stream α)) : Prop :=
  ∀ x ∈ inputs a1 a2 false files, ∀ i < x.n, x.selected i = true ↔ x.Standard i

variable {a1 a2 : Addr α} {files : List (Stream α)} {x : Input α}

/-- A file whose lines are their own contents. -/
def plain (n : Nat) (h : n < 0x80000000) : Stream Nat := ⟨n, h, id⟩

end Six.Sed
