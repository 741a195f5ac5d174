import Six.Binder.Driver
import Six.Lib.Trace

/-! What becomes of a transaction: its events drive the automaton `Life`, and `bad` is reached by
any event out of place. -/

namespace Six.Binder

open Six.Lib

inductive Life
  | fresh
  /-- synchronous, in `todo` -/
  | queued (p : Slot)
  /-- synchronous, in `in_flight` -/
  | flying (p : Slot)
  /-- completed, its caller not woken -/
  | answered
  | awake
  | replied
  /-- taken back by a caller that found its target dead -/
  | aborted
  /-- one-way, in `todo` -/
  | posted (p : Slot)
  /-- one-way, with a receiver -/
  | taken
  | spent
  | dropped
  | bad
deriving DecidableEq

namespace Event

def txn : Event → Option Nat
  | created n _ _ _ => some n
  | delivered n _ => some n
  | received _ _ => none
  | completed n => some n
  | woken n => some n
  | freed n => some n
  | lost n => some n
  | notified _ _ => none
  | returned _ _ => none

end Event

namespace Life

def next : Life → Event → Life
  | fresh, .created _ p oneWay _ => if oneWay then posted p else queued p
  | queued p, .delivered _ _ => flying p
  | posted _, .delivered _ _ => taken
  | queued _, .completed _ => answered
  | flying _, .completed _ => answered
  | answered, .woken _ => awake
  | answered, .freed _ => aborted
  | awake, .freed _ => replied
  | posted _, .freed _ => spent
  | taken, .freed _ => spent
  | posted _, .lost _ => dropped
  | _, _ => bad

def Pending : Life → Prop
  | queued _ => True
  | flying _ => True
  | answered => True
  | awake => True
  | _ => False

instance : DecidablePred Pending := fun l => by cases l <;> unfold Pending <;> infer_instance

end Life

namespace State

def life (s : State) (n : Nat) : Life := follow Event.txn Life.next .fresh s.log n

def count (s : State) (kind : Event → Bool) (n : Nat) : Nat :=
  s.log.countP fun e => e.txn = some n ∧ kind e

end State

namespace Event

def isCreated : Event → Bool
  | created _ _ _ _ => true
  | _ => false

def isDelivered : Event → Bool
  | delivered _ _ => true
  | _ => false

def isCompleted : Event → Bool
  | completed _ => true
  | _ => false

def isWoken : Event → Bool
  | woken _ => true
  | _ => false

def isFreed : Event → Bool
  | freed _ => true
  | _ => false

def deliveredTo (p : Slot) : Event → Option Nat
  | delivered n q => if q = p then some n else none
  | _ => none

def createdTo (p : Slot) : Event → Option Nat
  | created n q _ _ => if q = p then some n else none
  | _ => none

end Event

namespace Life

variable {l : Life} {e : Event} {oneWay : Bool}

def completions : Life → Nat
  | answered => 1
  | awake => 1
  | replied => 1
  | aborted => 1
  | _ => 0

def frees : Life → Nat
  | replied => 1
  | aborted => 1
  | spent => 1
  | _ => 0

-- the most deliveries that the state allows
def deliveries : Life → Nat
  | fresh => 0
  | queued _ => 0
  | posted _ => 0
  | _ => 1

-- the most wake-ups that the state allows
def wakes : Life → Nat
  | awake => 1
  | replied => 1
  | _ => 0

def Born (p : Slot) (oneWay : Bool) : Life → Prop
  | queued q => oneWay = false ∧ q = p
  | flying q => oneWay = false ∧ q = p
  | answered => oneWay = false
  | awake => oneWay = false
  | replied => oneWay = false
  | aborted => oneWay = false
  | posted q => oneWay = true ∧ q = p
  | taken => oneWay = true
  | spent => oneWay = true
  | dropped => oneWay = true
  | fresh => False
  | bad => True

theorem next_born (e : Event) (h : l.Born p oneWay) : (l.next e).Born p oneWay := by
  fun_cases next l e <;> simp_all [Born]

section

variable (h : l.next e ≠ bad)
include h

theorem ne_bad_of_next : l ≠ bad := by
  rintro rfl
  exact h rfl

theorem completions_next :
    (l.next e).completions = l.completions + if e.isCompleted then 1 else 0 := by
  fun_cases next l e <;> simp_all [completions, Event.isCompleted, next]

theorem frees_next : (l.next e).frees = l.frees + if e.isFreed then 1 else 0 := by
  fun_cases next l e <;> simp_all [frees, Event.isFreed, next]

theorem deliveries_next :
    l.deliveries + (if e.isDelivered then 1 else 0) ≤ (l.next e).deliveries := by
  fun_cases next l e <;> simp_all [deliveries, Event.isDelivered, next]

theorem wakes_next : l.wakes + (if e.isWoken then 1 else 0) ≤ (l.next e).wakes := by
  fun_cases next l e <;> simp_all [wakes, Event.isWoken, next]

end

theorem born_created (l : Life) (n : Nat) (call : Call) :
    (l.next (.created n p oneWay call)).Born p oneWay := by
  cases l <;> cases oneWay <;> simp [next, Born]

end Life

namespace State

variable {s : State} {n : Nat}

theorem count_life {R : Life → Nat → Prop} (start : R .fresh 0)
    (step : ∀ l e c, l.next e ≠ .bad → R l c → R (l.next e) (c + if kind e then 1 else 0))
    (h : s.life n ≠ .bad) : R (s.life n) (s.count kind n) := by
  have counted : s.life n ≠ Life.bad → R (s.life n) (s.count kind n) := by
    apply follow_countP (p := kind) (R := fun l c => l ≠ Life.bad → R l c)
    · exact fun _ => start
    intro l e c hl hbad
    exact step l e c hbad (hl (Life.ne_bad_of_next hbad))
  exact counted h

section

variable (h : s.life n ≠ .bad)
include h

theorem count_completed : s.count Event.isCompleted n = (s.life n).completions := by
  refine count_life (R := fun l c => c = l.completions) rfl ?_ h
  intro l e c hbad hl
  rw [Life.completions_next hbad, hl]

theorem count_freed : s.count Event.isFreed n = (s.life n).frees := by
  refine count_life (R := fun l c => c = l.frees) rfl ?_ h
  intro l e c hbad hl
  rw [Life.frees_next hbad, hl]

theorem count_delivered_le : s.count Event.isDelivered n ≤ (s.life n).deliveries := by
  refine count_life (R := fun l c => c ≤ l.deliveries) (Nat.le_refl _) ?_ h
  intro l e c hbad hl
  exact (Nat.add_le_add_right hl _).trans (Life.deliveries_next hbad)

theorem count_woken_le : s.count Event.isWoken n ≤ (s.life n).wakes := by
  refine count_life (R := fun l c => c ≤ l.wakes) (Nat.le_refl _) ?_ h
  intro l e c hbad hl
  exact (Nat.add_le_add_right hl _).trans (Life.wakes_next hbad)

end

theorem life_born (h : .created n p oneWay call ∈ s.log) : (s.life n).Born p oneWay :=
  follow_of_mem h rfl (fun l => l.born_created n call) fun _ e hl => Life.next_born e hl

end State

end Six.Binder
