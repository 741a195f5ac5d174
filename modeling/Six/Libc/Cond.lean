import Six.Lib.Run
import Mathlib.Data.Finset.Card

/-! Condition variables (`library/libc/pthread.c`).  A section under the global lock is one step.
`tickets` and `waiters` count threads and do not wrap around; `bcast_gen` does. -/

namespace Six.Libc

open Lib Finset

/-- A call of `pthread_cond_wait` that has reached its loop. -/
structure Waiter where
  call : Nat
  myBcast : UInt32
  deriving DecidableEq

/-- `calls` numbers the calls of `pthread_cond_wait`, and `blocked` has those in the loop. -/
structure Cond where
  tickets : Nat := 0
  waiters : Nat := 0
  bcastGen : UInt32 := 0
  blocked : Finset Waiter := ∅
  calls : Nat := 0

namespace Cond

inductive Op
  | wait | check (w : Waiter) | signal | broadcast

/-- `pthread_cond_wait` up to its loop. -/
def wait (c : Cond) : Cond :=
  { c with
    waiters := c.waiters + 1
    blocked := insert ⟨c.calls, c.bcastGen⟩ c.blocked
    calls := c.calls + 1 }

def leave (c : Cond) (w : Waiter) : Cond :=
  { c with waiters := c.waiters - 1, blocked := c.blocked.erase w }

/-- One pass of the loop. -/
def check (c : Cond) (w : Waiter) : Cond :=
  if c.bcastGen ≠ w.myBcast then c.leave w
  else if 0 < c.tickets then { c with tickets := c.tickets - 1 }.leave w
  else c

def signal (c : Cond) : Cond :=
  if c.tickets < c.waiters then { c with tickets := c.tickets + 1 } else c

def broadcast (c : Cond) : Cond :=
  if 0 < c.waiters then { c with bcastGen := c.bcastGen + 1, tickets := 0 } else c

def step (c : Cond) : Op → Option Cond
  | .wait => some c.wait
  | .check w => if w ∈ c.blocked then some (c.check w) else none
  | .signal => some c.signal
  | .broadcast => some c.broadcast

/-- The thread has left the loop, or its next pass ends it. -/
def Released (c : Cond) (w : Waiter) : Prop := w ∉ (c.check w).blocked

/-- Nobody starts to wait while a ticket lies there, and no broadcast brings back the generation
that a blocked thread remembers. -/
def Orderly (c : Cond) : Op → Prop
  | .wait => c.tickets = 0
  | .broadcast => ∀ w ∈ c.blocked, w.myBcast ≠ c.bcastGen + 1
  | _ => True

structure Counted (c : Cond) : Prop where
  waiters : c.waiters = c.blocked.card
  calls : ∀ w ∈ c.blocked, w.call < c.calls

/-- A call that no ticket is needed for. -/
structure Freed (w : Waiter) (c : Cond) : Prop where
  call : w.call < c.calls
  free : w ∈ c.blocked → c.bcastGen ≠ w.myBcast

variable {s t c c' : Cond} {w : Waiter} {i : Op}

theorem step_cases (hs : c.step i = some c') :
    i = .wait ∧ c' = c.wait ∨
    (∃ w ∈ c.blocked, ∃ k ≤ c.tickets, (c.bcastGen = w.myBcast → 0 < c.tickets) ∧
      c' = { c with tickets := k }.leave w) ∨
    (∃ k, c.tickets ≤ k ∧ (i ≠ .signal → k = c.tickets) ∧ c' = { c with tickets := k }) ∨
    i = .broadcast ∧ c' = { c with bcastGen := c.bcastGen + 1, tickets := 0 } := by
  cases i with
  | wait => exact .inl ⟨rfl, (Option.some.inj hs).symm⟩
  | check w =>
    obtain ⟨hw, ⟨⟩⟩ := Option.ite_none_right_eq_some.mp hs
    unfold check
    split_ifs with hgen htickets
    · exact .inr (.inl ⟨w, hw, _, le_rfl, fun heq => absurd heq hgen, rfl⟩)
    · exact .inr (.inl ⟨w, hw, _, Nat.sub_le .., fun _ => htickets, rfl⟩)
    · exact .inr (.inr (.inl ⟨_, le_rfl, fun _ => rfl, rfl⟩))
  | signal =>
    cases hs
    unfold signal
    split_ifs
    · exact .inr (.inr (.inl ⟨_, Nat.le_succ _, by simp, rfl⟩))
    · exact .inr (.inr (.inl ⟨_, le_rfl, by simp, rfl⟩))
  | broadcast =>
    cases hs
    unfold broadcast
    split_ifs
    · exact .inr (.inr (.inr ⟨rfl, rfl⟩))
    · exact .inr (.inr (.inl ⟨_, le_rfl, fun _ => rfl, rfl⟩))

theorem released_of_wakes (h : w ∈ c.blocked → c.bcastGen ≠ w.myBcast ∨ 0 < c.tickets) :
    c.Released w := by
  unfold Released check
  split_ifs with hgen htickets
  · exact notMem_erase w _
  · exact notMem_erase w _
  · exact fun hw => (h hw).elim hgen htickets

theorem Counted.step (h : c.Counted) (hs : c.step i = some c') : c'.Counted := by
  obtain ⟨-, rfl⟩ | ⟨w, hw, k, -, -, rfl⟩ | ⟨k, -, -, rfl⟩ | ⟨-, rfl⟩ := step_cases hs
  · have hnew : ⟨c.calls, c.bcastGen⟩ ∉ c.blocked := fun hw => (h.calls _ hw).false
    refine ⟨?_, fun w hw => ?_⟩
    · rw [wait, card_insert_of_notMem hnew, h.waiters]
    · obtain rfl | hw := mem_insert.mp hw
      · exact Nat.lt_succ_self _
      · exact Nat.lt_succ_of_lt (h.calls w hw)
  · refine ⟨?_, fun v hv => h.calls v (mem_of_mem_erase hv)⟩
    rw [leave, card_erase_of_mem hw, h.waiters]
  · exact ⟨h.waiters, h.calls⟩
  · exact ⟨h.waiters, h.calls⟩

theorem Freed.step (h : Freed w c) (hg : c.Orderly i) (hs : c.step i = some c') : Freed w c' := by
  obtain ⟨-, rfl⟩ | ⟨v, -, k, -, -, rfl⟩ | ⟨k, -, -, rfl⟩ | ⟨rfl, rfl⟩ := step_cases hs
  · refine ⟨Nat.lt_succ_of_lt h.call, fun hw => h.free ?_⟩
    obtain rfl | hw := mem_insert.mp hw
    · exact absurd h.call (lt_irrefl _)
    · exact hw
  · exact ⟨h.call, fun hw => h.free (mem_of_mem_erase hw)⟩
  · exact ⟨h.call, h.free⟩
  · exact ⟨h.call, fun hw => (hg w hw).symm⟩

/-- After a signal in `s` a ticket lies there until one of the threads blocked in `s` is freed. -/
def Signalled (s c : Cond) : Prop :=
  (∃ w ∈ s.blocked, Freed w c) ∨ 0 < c.tickets ∧ c.blocked = s.blocked

theorem Signalled.step (h : Signalled s c) (hne : s.blocked.Nonempty) (hc : c.Counted)
    (hg : c.Orderly i) (hs : c.step i = some c') : Signalled s c' := by
  obtain ⟨w, hw, hfreed⟩ | ⟨htickets, hblocked⟩ := h
  · exact .inl ⟨w, hw, hfreed.step hg hs⟩
  obtain ⟨rfl, -⟩ | ⟨v, hv, k, -, -, rfl⟩ | ⟨k, hk, -, rfl⟩ | ⟨rfl, rfl⟩ := step_cases hs
  · exact absurd hg htickets.ne'
  · exact .inl ⟨v, hblocked ▸ hv, hc.calls v hv, fun hm => absurd hm (notMem_erase v _)⟩
  · exact .inr ⟨htickets.trans_le hk, hblocked⟩
  · obtain ⟨w, hw⟩ := hne
    rw [← hblocked] at hw
    exact .inl ⟨w, hblocked ▸ hw, hc.calls w hw, fun _ => (hg w hw).symm⟩

/-- The calls after `t` are still blocked, and nothing is there that would wake them. -/
def Late (t c : Cond) : Prop :=
  ∀ n, t.calls ≤ n → n < c.calls → ⟨n, c.bcastGen⟩ ∈ c.blocked ∧ c.tickets = 0

theorem Late.step (h : Late t c) (hg : c.Orderly i) (hop : i ≠ .signal ∧ i ≠ .broadcast)
    (hs : c.step i = some c') : Late t c' := by
  intro n hlo hhi
  obtain ⟨rfl, rfl⟩ | ⟨v, -, k, hk, hwakes, rfl⟩ | ⟨k, -, hk, rfl⟩ | ⟨rfl, -⟩ := step_cases hs
  · obtain hn | rfl := Nat.lt_succ_iff_lt_or_eq.mp hhi
    · obtain ⟨hmem, hzero⟩ := h n hlo hn
      exact ⟨mem_insert_of_mem hmem, hzero⟩
    · exact ⟨mem_insert_self .., hg⟩
  · obtain ⟨hmem, hzero⟩ := h n hlo hhi
    refine ⟨mem_erase.mpr ⟨?_, hmem⟩, Nat.eq_zero_of_le_zero (hzero ▸ hk)⟩
    intro heq
    exact absurd (hwakes (congrArg Waiter.myBcast heq)) (by omega)
  · obtain rfl := hk hop.1
    exact h n hlo hhi
  · exact absurd rfl hop.2

/-- A signal releases a thread that was blocked when it came, whoever waits later; a broadcast
releases all of them and nobody who starts to wait later. -/
theorem cond_releases (hs : Reaches step Orderly {} s) :
    (s.blocked.Nonempty → ∀ u, Reaches step Orderly s.signal u → ∃ w ∈ s.blocked, u.Released w) ∧
    (s.Orderly .broadcast → ∀ u, Reaches step Orderly s.broadcast u →
      ∀ w ∈ s.blocked, u.Released w) ∧
    ∀ u, Reaches step (fun c i => c.Orderly i ∧ i ≠ .signal ∧ i ≠ .broadcast) s.broadcast u →
      ∀ n, s.calls ≤ n → n < u.calls → ∃ w ∈ u.blocked, w.call = n ∧ ¬ u.Released w := by
  have hc : s.Counted := hs.invariant (P := Counted) ⟨rfl, by simp⟩ fun _ _ _ hc _ => hc.step
  have hpos (hne : s.blocked.Nonempty) : 0 < s.waiters := hc.waiters ▸ card_pos.mpr hne
  refine ⟨fun hne u hu => ?_, fun hg u hu w hw => ?_, fun u hu n hlo hhi => ?_⟩
  · have hsignal : Signalled s s.signal := by
      have := hpos hne
      unfold signal
      split_ifs
      · exact .inr ⟨Nat.succ_pos _, rfl⟩
      · exact .inr ⟨by omega, rfl⟩
    have hboth := hu.invariant (P := fun c => c.Counted ∧ Signalled s c)
      ⟨hc.step (i := .signal) rfl, hsignal⟩
      fun _ _ _ h hg hs => ⟨h.1.step hs, h.2.step hne h.1 hg hs⟩
    obtain ⟨w, hw, hfreed⟩ | ⟨htickets, -⟩ := hboth.2
    · exact ⟨w, hw, released_of_wakes fun hm => .inl (hfreed.free hm)⟩
    · exact ⟨_, hne.choose_spec, released_of_wakes fun _ => .inr htickets⟩
  · have hfreed : Freed w s.broadcast := by
      rw [broadcast, if_pos (hpos ⟨w, hw⟩)]
      exact ⟨hc.calls w hw, fun _ => (hg w hw).symm⟩
    have hfreed := hu.invariant (P := Freed w) hfreed fun _ _ _ h hg => h.step hg
    exact released_of_wakes fun hm => .inl (hfreed.free hm)
  · have hcalls : s.broadcast.calls = s.calls := by
      unfold broadcast
      split_ifs <;> rfl
    have hlate := hu.invariant (P := Late s.broadcast) (fun _ _ _ => by omega)
      fun _ _ _ h hg => h.step hg.1 hg.2
    obtain ⟨hmem, hzero⟩ := hlate n (hcalls ▸ hlo) hhi
    refine ⟨_, hmem, rfl, ?_⟩
    simpa [Released, check, hzero] using hmem

theorem two_waiters_signalled :
    ∃ w ∈ ({} : Cond).wait.wait.blocked, ({} : Cond).wait.wait.signal.Released w :=
  (cond_releases (.tail (i := .wait) (.tail (i := .wait) .refl rfl rfl) rfl rfl)).1
    ⟨⟨0, 0⟩, by decide⟩ _ .refl

/-- The signal comes for the first thread, and a second one that waits after it takes the ticket. -/
theorem later_waiter_takes_ticket :
    ∃ s u, run step {} [.wait] = some s ∧ s.blocked.Nonempty ∧
      run step s [.signal, .wait, .check ⟨1, 0⟩] = some u ∧ ∀ w ∈ s.blocked, ¬ u.Released w :=
  ⟨_, _, rfl, by decide, rfl, by unfold Released; decide⟩

end Cond

end Six.Libc
