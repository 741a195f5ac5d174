import Mathlib.Data.List.Basic
import Mathlib.Logic.Function.Basic

/-! Rings whose entries carry a phase, which the producer changes each time its index wraps and the
consumer checks.  `Holds` says that a ring has some entries outstanding. -/

namespace Six.Lib

open List

structure PhaseRing (α : Type*) where
  slot : Nat → α
  head : Nat
  headPhase : Bool
  tail : Nat
  tailPhase : Bool

namespace PhaseRing

variable {α : Type*} (depth : Nat) (phase : α → Bool)

def next (i : Nat) (p : Bool) : Nat × Bool := if i + 1 ≥ depth then (0, !p) else (i + 1, p)

def post (r : PhaseRing α) (e : α) : PhaseRing α :=
  { r with
    slot := Function.update r.slot r.tail e
    tail := (next depth r.tail r.tailPhase).1
    tailPhase := (next depth r.tail r.tailPhase).2 }

def poll (r : PhaseRing α) : Option (α × PhaseRing α) :=
  if phase (r.slot r.head) = r.headPhase then
    some (r.slot r.head, { r with
      head := (next depth r.head r.headPhase).1
      headPhase := (next depth r.head r.headPhase).2 })
  else none

/-- The phase of the entry with number `k`, counted from the first one. -/
def phaseOf (k : Nat) : Bool := k / depth % 2 = 0

variable {depth}

theorem succ_div_mod (hd : 0 < depth) (k : Nat) :
    ((k + 1) % depth = 0 ∧ (k + 1) / depth = k / depth + 1 ∧ k % depth + 1 = depth) ∨
    ((k + 1) % depth = k % depth + 1 ∧ (k + 1) / depth = k / depth ∧ k % depth + 1 < depth) := by
  have hk := Nat.div_add_mod k depth
  have hlt := Nat.mod_lt k hd
  by_cases hwrap : k % depth + 1 = depth
  · have hk1 : k + 1 = depth * (k / depth + 1) := by rw [Nat.mul_add]; omega
    refine .inl ⟨?_, ?_, hwrap⟩
    · rw [hk1, Nat.mul_mod_right]
    · rw [hk1, Nat.mul_div_cancel_left _ hd]
  · have hk1 : k + 1 = k % depth + 1 + depth * (k / depth) := by omega
    have hsmall : k % depth + 1 < depth := by omega
    refine .inr ⟨?_, ?_, hsmall⟩
    · rw [hk1, Nat.add_mul_mod_self_left, Nat.mod_eq_of_lt hsmall]
    · rw [hk1, Nat.add_mul_div_left _ _ hd, Nat.div_eq_of_lt hsmall, Nat.zero_add]

theorem next_eq (hd : 0 < depth) (k : Nat) :
    next depth (k % depth) (phaseOf depth k) = ((k + 1) % depth, phaseOf depth (k + 1)) := by
  unfold next phaseOf
  obtain ⟨hmod, hdiv, hwrap⟩ | ⟨hmod, hdiv, hsmall⟩ := succ_div_mod hd k
  · rw [if_pos (by omega), hmod, hdiv]
    congr 1
    by_cases heven : k / depth % 2 = 0
    · simp [heven, show (k / depth + 1) % 2 ≠ 0 by omega]
    · simp [heven, show (k / depth + 1) % 2 = 0 by omega]
  · rw [if_neg (by omega), hmod, hdiv]

theorem phaseOf_add_depth (hd : 0 < depth) (k : Nat) :
    phaseOf depth (k + depth) = !phaseOf depth k := by
  unfold phaseOf
  rw [Nat.add_div_right k hd]
  by_cases heven : k / depth % 2 = 0
  · simp [heven, show (k / depth + 1) % 2 ≠ 0 by omega]
  · simp [heven, show (k / depth + 1) % 2 = 0 by omega]

theorem mod_ne_of_lt (hij : i < j) (hj : j < i + depth) : (k + i) % depth ≠ (k + j) % depth := by
  intro heq
  have hzero := Nat.sub_mod_eq_zero_of_mod_eq heq.symm
  rw [Nat.mod_eq_of_lt (by omega)] at hzero
  omega

/-- The entries `es` are outstanding: `c` entries were taken, the next slots hold `es`, and every
other slot has a phase that neither the consumer nor a later round takes for a new entry. -/
structure Holds (depth : Nat) (phase : α → Bool) (r : PhaseRing α) (c : Nat) (es : List α) :
    Prop where
  fits : es.length ≤ depth
  pos : 0 < depth
  head : r.head = c % depth
  headPhase : r.headPhase = phaseOf depth c
  tail : r.tail = (c + es.length) % depth
  tailPhase : r.tailPhase = phaseOf depth (c + es.length)
  outstanding : ∀ k (h : k < es.length), r.slot ((c + k) % depth) = es[k] ∧
    phase es[k] = phaseOf depth (c + k)
  old : ∀ k, es.length ≤ k → k < depth →
    phase (r.slot ((c + k) % depth)) = !phaseOf depth (c + k)

variable {phase} {r : PhaseRing α} {c : Nat} {e : α} {es : List α}

theorem holds_empty (hd : 0 < depth) (hhead : r.head = 0) (htail : r.tail = 0)
    (hheadPhase : r.headPhase = true) (htailPhase : r.tailPhase = true)
    (hslots : ∀ i < depth, phase (r.slot i) = false) : Holds depth phase r 0 [] where
  fits := Nat.zero_le _
  pos := hd
  head := by rw [hhead, Nat.zero_mod]
  headPhase := by simp [hheadPhase, phaseOf]
  tail := by simp [htail]
  tailPhase := by simp [htailPhase, phaseOf]
  outstanding := by simp
  old := by
    intro k _ hk
    rw [Nat.zero_add, Nat.mod_eq_of_lt hk, hslots k hk]
    simp [phaseOf, Nat.div_eq_of_lt hk]

theorem Holds.post (h : Holds depth phase r c es) (hroom : es.length < depth)
    (he : phase e = r.tailPhase) : Holds depth phase (r.post depth e) c (es ++ [e]) := by
  have hnext := next_eq h.pos (c + es.length)
  rw [← h.tail, ← h.tailPhase] at hnext
  have hother : ∀ k < depth, k ≠ es.length →
      (r.post depth e).slot ((c + k) % depth) = r.slot ((c + k) % depth) := by
    intro k hk hne
    apply Function.update_of_ne
    rw [h.tail]
    rcases Nat.lt_or_gt_of_ne hne with hlt | hgt
    · exact mod_ne_of_lt hlt (by omega)
    · exact Ne.symm (mod_ne_of_lt hgt (by omega))
  have hself : (r.post depth e).slot ((c + es.length) % depth) = e := by
    rw [← h.tail]
    exact Function.update_self _ _ _
  constructor
  case fits =>
    rw [length_append, length_singleton]
    exact hroom
  case pos => exact h.pos
  case head => exact h.head
  case headPhase => exact h.headPhase
  case tail => simp [PhaseRing.post, hnext, Nat.add_assoc]
  case tailPhase => simp [PhaseRing.post, hnext, Nat.add_assoc]
  case outstanding =>
    intro k hk
    by_cases hlast : k < es.length
    · rw [getElem_append_left hlast, hother k (by omega) (by omega)]
      exact h.outstanding k hlast
    · obtain rfl : k = es.length := by simp at hk; omega
      simp only [getElem_concat_length]
      exact ⟨hself, by rw [he, h.tailPhase]⟩
  case old =>
    intro k hk hlt
    simp only [length_append, length_singleton] at hk
    rw [hother k hlt (by omega)]
    exact h.old k (by omega) hlt

theorem Holds.poll_nil (h : Holds depth phase r c []) : r.poll depth phase = none := by
  have hold := h.old 0 (Nat.le_refl 0) h.pos
  rw [Nat.add_zero] at hold
  unfold poll
  rw [h.head, h.headPhase, hold, if_neg (by simp)]

theorem Holds.poll_cons (h : Holds depth phase r c (e :: es)) :
    ∃ r', r.poll depth phase = some (e, r') ∧ Holds depth phase r' (c + 1) es := by
  have hfits := h.fits
  simp only [length_cons] at hfits
  obtain ⟨hslot, hphase⟩ := h.outstanding 0 (by simp)
  simp only [Nat.add_zero, getElem_cons_zero] at hslot hphase
  have hnext := next_eq h.pos c
  rw [← h.head, ← h.headPhase] at hnext
  refine ⟨{ r with head := (c + 1) % depth, headPhase := phaseOf depth (c + 1) }, ?_, ?_⟩
  · unfold poll
    rw [hnext, h.head, hslot, hphase, h.headPhase, if_pos rfl]
  · constructor
    case fits => exact Nat.le_of_succ_le hfits
    case pos => exact h.pos
    case head => rfl
    case headPhase => rfl
    case tail =>
      rw [show c + 1 + es.length = c + (e :: es).length by simp; omega]
      exact h.tail
    case tailPhase =>
      rw [show c + 1 + es.length = c + (e :: es).length by simp; omega]
      exact h.tailPhase
    case outstanding =>
      intro k hk
      have hk1 := h.outstanding (k + 1) (by simpa using hk)
      rw [show c + 1 + k = c + (k + 1) by omega]
      exact hk1
    case old =>
      intro k hk hlt
      rw [show c + 1 + k = c + (k + 1) by omega]
      by_cases hlast : k + 1 < depth
      · exact h.old (k + 1) (by simpa using hk) hlast
      · -- the slot of the entry that was taken
        obtain rfl : k + 1 = depth := by omega
        rw [Nat.add_mod_right, phaseOf_add_depth h.pos]
        rw [hslot, hphase, Bool.not_not]

end PhaseRing

end Six.Lib
