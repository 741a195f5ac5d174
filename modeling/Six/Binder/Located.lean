import Six.Binder.Lifecycle

/-! Where the transactions are.  `Located` ties the life of one transaction to the lists, the heap
and the processes; `Lin` says so of all of them, in the order of the lists. -/

namespace Six.Binder

open Six.Lib List Function Event State

variable {es : List Event} {ph : Phase}

inductive Role
  | caller
  | reader
  | receiver

def Phase.hold : Phase → Option (Role × Nat)
  | .asleep _ n => some (.caller, n)
  | .copyReply _ n _ => some (.reader, n)
  | .copyOut _ n _ _ => some (.receiver, n)
  | _ => none

namespace Life

variable {l : Life}

def todo : Life → Option Slot
  | queued p => some p
  | posted p => some p
  | _ => none

def inFlight : Life → Option Slot
  | flying p => some p
  | _ => none

def Allows : Life → Role → Prop
  | queued _, .caller => True
  | flying _, .caller => True
  | awake, .caller => True
  | awake, .reader => True
  | taken, .receiver => True
  | _, _ => False

def Waits (l : Life) (p : Slot) : Prop := l = queued p ∨ l = flying p

def Fits : Life → Option Txn → Prop
  | queued _, x => ∃ txn, x = some txn ∧ txn.msg.oneWay = false ∧ txn.done = false
  | flying _, x => ∃ txn, x = some txn ∧ txn.msg.oneWay = false ∧ txn.done = false
  | awake, x => ∃ txn, x = some txn ∧ txn.msg.oneWay = false ∧ txn.done = true
  | posted _, x => ∃ txn, x = some txn ∧ txn.msg.oneWay = true
  | taken, x => ∃ txn, x = some txn ∧ txn.msg.oneWay = true
  | answered, _ => False
  | bad, _ => False
  | _, _ => True

def Over : Life → Prop
  | replied => True
  | aborted => True
  | spent => True
  | dropped => True
  | _ => False

theorem todo_eq_some : l.todo = some p ↔ l = queued p ∨ l = posted p := by
  cases l <;> simp [todo]

theorem inFlight_eq_some : l.inFlight = some p ↔ l = flying p := by
  cases l <;> simp [inFlight]

theorem awake_of_done {txn : Txn} (allowed : l.Allows .caller) (fits : l.Fits (some txn))
    (hdone : txn.done = true) : l = awake := by
  cases l <;> simp_all [Allows, Fits]

theorem taken_of_receiver (allowed : l.Allows .receiver) : l = taken := by
  cases l <;> simp_all [Allows]

theorem awake_of_reader (allowed : l.Allows .reader) : l = awake := by
  cases l <;> simp_all [Allows]

theorem Fits.ne_bad (h : l.Fits x) : l ≠ bad := by
  rintro rfl
  exact h

end Life

structure Located (s : State) (n : Nat) : Prop where
  todo : ∀ p, n ∈ (s.procs p).todo ↔ (s.life n).todo = some p
  inFlight : ∀ p, n ∈ (s.procs p).inFlight ↔ (s.life n).inFlight = some p
  heap : (s.life n).Fits (s.txns n)
  role : ∀ t r, (s.tasks t).hold = some (r, n) → (s.life n).Allows r
  unique : ∀ t t' r r', (s.tasks t).hold = some (r, n) → (s.tasks t').hold = some (r', n) → t = t'
  held : (s.life n).Pending → ∃ t r, (s.tasks t).hold = some (r, n)
  served : ∀ p, (s.life n).Waits p → (s.procs p).inUse = true

structure Lin (s : State) : Prop where
  located : ∀ n, Located s n
  fresh : ∀ n, s.next ≤ n → s.life n = .fresh
  todo_nodup : ∀ p, (s.procs p).todo.Nodup
  inFlight_nodup : ∀ p, (s.procs p).inFlight.Nodup
  fifo : ∀ p, (s.log.filterMap (Event.deliveredTo p) ++ (s.procs p).todo).Sublist
    (s.log.filterMap (Event.createdTo p))

theorem lin_init : Lin {} where
  located := fun n =>
    { todo := fun p => by simp [life, Life.todo]
      inFlight := fun p => by simp [life, Life.inFlight]
      heap := trivial
      role := fun t r h => by simp [Phase.hold] at h
      unique := fun t t' r r' h => by simp [Phase.hold] at h
      held := fun h => h.elim
      served := fun p h => by rcases h with h | h <;> simp [life] at h }
  fresh := fun _ _ => rfl
  todo_nodup := fun _ => nodup_nil
  inFlight_nodup := fun _ => nodup_nil
  fifo := fun _ => .slnil

structure Untouched (s s' : State) (m : Nat) : Prop where
  life : s'.life m = s.life m
  todo : ∀ p, m ∈ (s'.procs p).todo ↔ m ∈ (s.procs p).todo
  inFlight : ∀ p, m ∈ (s'.procs p).inFlight ↔ m ∈ (s.procs p).inFlight
  txns : s'.txns m = s.txns m
  hold : ∀ t r, (s'.tasks t).hold = some (r, m) ↔ (s.tasks t).hold = some (r, m)
  inUse : ∀ p, (s.life m).Waits p → (s.procs p).inUse = true → (s'.procs p).inUse = true

variable {s s' s'' : State} {n m : Nat} {p : Slot} {t : Tid} {f : Proc → Proc}

theorem Located.untouched (h : Located s m) (u : Untouched s s' m) : Located s' m where
  todo := fun p => by rw [u.todo, u.life]; exact h.todo p
  inFlight := fun p => by rw [u.inFlight, u.life]; exact h.inFlight p
  heap := by rw [u.life, u.txns]; exact h.heap
  role := fun t r ht => by rw [u.life]; exact h.role t r ((u.hold t r).mp ht)
  unique := fun t t' r r' ht ht' =>
    h.unique t t' r r' ((u.hold t r).mp ht) ((u.hold t' r').mp ht')
  held := fun hp => by
    rw [u.life] at hp
    obtain ⟨t, r, ht⟩ := h.held hp
    exact ⟨t, r, (u.hold t r).mpr ht⟩
  served := fun p hp => by
    rw [u.life] at hp
    exact u.inUse p hp (h.served p hp)

theorem Untouched.refl (s : State) (m : Nat) : Untouched s s m :=
  ⟨rfl, fun _ => .rfl, fun _ => .rfl, rfl, fun _ _ => .rfl, fun _ _ h => h⟩

theorem Untouched.trans (h1 : Untouched s s' m) (h2 : Untouched s' s'' m) : Untouched s s'' m where
  life := h2.life.trans h1.life
  todo := fun p => (h2.todo p).trans (h1.todo p)
  inFlight := fun p => (h2.inFlight p).trans (h1.inFlight p)
  txns := h2.txns.trans h1.txns
  hold := fun t r => (h2.hold t r).trans (h1.hold t r)
  inUse := fun p hw hu => h2.inUse p (by rw [h1.life]; exact hw) (h1.inUse p hw hu)

theorem life_of_log (h : s'.log = s.log ++ l) (m : Nat) :
    s'.life m = follow txn Life.next (s.life m) l m := by
  rw [life, h, follow_append]
  rfl

theorem untouched_note (h : ∀ e ∈ es, e.txn ≠ some m) : Untouched s (s.note es) m :=
  { Untouched.refl s m with
    life := by rw [life_of_log (s := s) (l := es) rfl, follow_of_forall_ne h] }

theorem untouched_setPhase (old : ∀ r, (s.tasks t).hold ≠ some (r, m))
    (new : ∀ r, ph.hold ≠ some (r, m)) : Untouched s (s.setPhase t ph) m :=
  { Untouched.refl s m with
    hold := fun t' r => rel_update
      (r := fun (x y : Phase) => x.hold = some (r, m) ↔ y.hold = some (r, m)) (fun _ => .rfl)
      (iff_of_false (new r) (old r)) t' }

theorem untouched_setTxn {f : Txn → Txn} (h : m ≠ n) : Untouched s (s.setTxn n f) m :=
  { Untouched.refl s m with
    txns := by simp only [setTxn, update_of_ne h] }

theorem untouched_kfree (h : m ≠ n) : Untouched s (s.kfree n) m := by
  have cleared : Untouched s { s with txns := update s.txns n none } m :=
    { Untouched.refl s m with txns := update_of_ne h _ _ }
  refine cleared.trans (untouched_note ?_)
  simp [txn, Ne.symm h]

theorem untouched_setProc (todo : m ∈ (f (s.procs p)).todo ↔ m ∈ (s.procs p).todo)
    (inFlight : m ∈ (f (s.procs p)).inFlight ↔ m ∈ (s.procs p).inFlight)
    (inUse : (f (s.procs p)).inUse = (s.procs p).inUse) : Untouched s (s.setProc p f) m :=
  { Untouched.refl s m with
    todo := rel_update (r := fun (x y : Proc) => m ∈ x.todo ↔ m ∈ y.todo) (fun _ => .rfl) todo
    inFlight :=
      rel_update (r := fun (x y : Proc) => m ∈ x.inFlight ↔ m ∈ y.inFlight) (fun _ => .rfl) inFlight
    inUse := fun q _ hq => (proj_update inUse q).trans hq }

structure Quiet (s s' : State) : Prop where
  todo : ∀ p, (s'.procs p).todo = (s.procs p).todo
  inFlight : ∀ p, (s'.procs p).inFlight = (s.procs p).inFlight
  inUse : ∀ p, (s'.procs p).inUse = (s.procs p).inUse
  txns : s'.txns = s.txns
  next : s'.next = s.next
  hold : ∀ t, (s'.tasks t).hold = (s.tasks t).hold
  log : ∃ es, s'.log = s.log ++ es ∧ ∀ e ∈ es, e.txn = none

theorem Quiet.refl (s : State) : Quiet s s :=
  ⟨fun _ => rfl, fun _ => rfl, fun _ => rfl, rfl, rfl, fun _ => rfl, [], by simp, by simp⟩

theorem Quiet.trans (h1 : Quiet s s') (h2 : Quiet s' s'') : Quiet s s'' where
  todo := fun p => (h2.todo p).trans (h1.todo p)
  inFlight := fun p => (h2.inFlight p).trans (h1.inFlight p)
  inUse := fun p => (h2.inUse p).trans (h1.inUse p)
  txns := h2.txns.trans h1.txns
  next := h2.next.trans h1.next
  hold := fun t => (h2.hold t).trans (h1.hold t)
  log := by
    obtain ⟨es1, hlog1, hes1⟩ := h1.log
    obtain ⟨es2, hlog2, hes2⟩ := h2.log
    refine ⟨es1 ++ es2, by rw [hlog2, hlog1, append_assoc], ?_⟩
    intro e he
    rcases mem_append.mp he with he | he
    · exact hes1 e he
    · exact hes2 e he

theorem quiet_note (h : ∀ e ∈ es, e.txn = none) : Quiet s (s.note es) :=
  { Quiet.refl s with log := ⟨es, rfl, h⟩ }

theorem quiet_setPhase (h : ph.hold = (s.tasks t).hold) : Quiet s (s.setPhase t ph) :=
  { Quiet.refl s with
    hold := proj_update h }

theorem quiet_ret (h : (s.tasks t).hold = none) : Quiet s (s.ret t err) :=
  (quiet_setPhase (by rw [h]; rfl)).trans (quiet_note (by simp [txn]))

theorem Quiet.ret (q : Quiet s s') (h : (s.tasks t).hold = none) : Quiet s (s'.ret t err) :=
  q.trans (quiet_ret ((q.hold t).trans h))

theorem Quiet.setPhase (q : Quiet s s') (h : ph.hold = (s.tasks t).hold) :
    Quiet s (s'.setPhase t ph) :=
  q.trans (quiet_setPhase (h.trans (q.hold t).symm))

theorem quiet_setProc (todo : (f (s.procs p)).todo = (s.procs p).todo)
    (inFlight : (f (s.procs p)).inFlight = (s.procs p).inFlight)
    (inUse : (f (s.procs p)).inUse = (s.procs p).inUse) : Quiet s (s.setProc p f) :=
  { Quiet.refl s with
    todo := proj_update todo
    inFlight := proj_update inFlight
    inUse := proj_update inUse }

theorem Quiet.untouched (h : Quiet s s') (m : Nat) : Untouched s s' m where
  life := by
    obtain ⟨es, hlog, hes⟩ := h.log
    rw [life_of_log hlog]
    apply follow_of_forall_ne
    intro e he
    rw [hes e he]
    exact Option.some_ne_none _ |>.symm
  todo := fun p => by rw [h.todo]
  inFlight := fun p => by rw [h.inFlight]
  txns := by rw [h.txns]
  hold := fun t r => by rw [h.hold]
  inUse := fun p _ hu => by rw [h.inUse]; exact hu

theorem filterMap_eq_nil {f : Event → Option Nat} (h : ∀ e ∈ es, f e = none) :
    es.filterMap f = [] :=
  filterMap_eq_nil_iff.mpr h

theorem deliveredTo_eq_none {e : Event} (h : e.isDelivered = false) : e.deliveredTo p = none := by
  cases e <;> simp_all [deliveredTo, isDelivered]

theorem createdTo_eq_none {e : Event} (h : e.isCreated = false) : e.createdTo p = none := by
  cases e <;> simp_all [createdTo, isCreated]

/-- The order is kept by anything that neither queues nor delivers and only shortens the lists. -/
theorem fifo_of_log (h : Lin s) (hlog : s'.log = s.log ++ es)
    (hes : ∀ e ∈ es, e.isDelivered = false ∧ e.isCreated = false)
    (shorter : ((s'.procs p).todo).Sublist (s.procs p).todo) :
    (s'.log.filterMap (deliveredTo p) ++ (s'.procs p).todo).Sublist
      (s'.log.filterMap (createdTo p)) := by
  have hd := filterMap_eq_nil fun e he => deliveredTo_eq_none (p := p) (hes e he).1
  have hc := filterMap_eq_nil fun e he => createdTo_eq_none (p := p) (hes e he).2
  rw [hlog, filterMap_append, filterMap_append, hd, hc, append_nil, append_nil]
  exact ((List.Sublist.refl _).append shorter).trans (h.fifo p)

theorem Lin.quiet (h : Lin s) (q : Quiet s s') : Lin s' where
  located := fun m => (h.located m).untouched (q.untouched m)
  fresh := fun m hm => by
    rw [(q.untouched m).life]
    exact h.fresh m (by rw [← q.next]; exact hm)
  todo_nodup := fun p => by rw [q.todo]; exact h.todo_nodup p
  inFlight_nodup := fun p => by rw [q.inFlight]; exact h.inFlight_nodup p
  fifo := fun p => by
    obtain ⟨es, hlog, hes⟩ := q.log
    refine fifo_of_log h hlog (fun e he => ?_) (by rw [q.todo])
    have := hes e he
    cases e <;> simp_all [txn, isDelivered, isCreated]

theorem Lin.change (h : Lin s) (n : Nat) (others : ∀ m, m ≠ n → Untouched s s' m)
    (self : Located s' n) (next : s.next ≤ s'.next) (old : n < s'.next)
    (todo : ∀ p, (s'.procs p).todo.Nodup) (inFlight : ∀ p, (s'.procs p).inFlight.Nodup)
    (fifo : ∀ p, (s'.log.filterMap (deliveredTo p) ++ (s'.procs p).todo).Sublist
      (s'.log.filterMap (createdTo p))) : Lin s' where
  located := fun m => by
    by_cases hm : m = n
    · rw [hm]; exact self
    · exact (h.located m).untouched (others m hm)
  fresh := fun m hm => by
    rw [(others m (by omega)).life]
    exact h.fresh m (by omega)
  todo_nodup := todo
  inFlight_nodup := inFlight
  fifo := fifo

theorem located_over (ended : (s.life n).Over) (todo : ∀ p, n ∉ (s.procs p).todo)
    (inFlight : ∀ p, n ∉ (s.procs p).inFlight) (free : ∀ t r, (s.tasks t).hold ≠ some (r, n)) :
    Located s n := by
  constructor
  case todo =>
    intro p
    refine iff_of_false (todo p) fun h => ?_
    rcases Life.todo_eq_some.mp h with h | h <;> (rw [h] at ended; exact ended)
  case inFlight =>
    intro p
    refine iff_of_false (inFlight p) fun h => ?_
    rw [Life.inFlight_eq_some.mp h] at ended
    exact ended
  case heap => cases hl : s.life n <;> simp_all [Life.Over, Life.Fits]
  case role => exact fun t r ht => absurd ht (free t r)
  case unique => exact fun t _ r _ ht => absurd ht (free t r)
  case held => cases hl : s.life n <;> simp_all [Life.Over, Life.Pending]
  case served =>
    rintro p (h | h) <;> (rw [h] at ended; exact ended.elim)

theorem Located.wake (h : Located s n) (hw : (s.life n).Waits p) (hlife : s'.life n = .awake)
    (todo : ∀ q, n ∉ (s'.procs q).todo) (inFlight : ∀ q, n ∉ (s'.procs q).inFlight)
    (heap : Life.awake.Fits (s'.txns n)) (tasks : s'.tasks = s.tasks) : Located s' n := by
  constructor
  case todo =>
    intro q
    rw [hlife]
    exact iff_of_false (todo q) (by simp [Life.todo])
  case inFlight =>
    intro q
    rw [hlife]
    exact iff_of_false (inFlight q) (by simp [Life.inFlight])
  case heap => rw [hlife]; exact heap
  case role =>
    intro t r ht
    rw [tasks] at ht
    have allowed := h.role t r ht
    rw [hlife]
    rcases hw with hl | hl <;> rw [hl] at allowed <;> cases r <;> trivial
  case unique => rw [tasks]; exact h.unique
  case held =>
    intro _
    rw [tasks]
    apply h.held
    rcases hw with hl | hl <;> (rw [hl]; trivial)
  case served =>
    rintro q (hq | hq) <;> (rw [hlife] at hq; cases hq)

theorem Lin.lt_next (h : Lin s) (hn : s.life n ≠ .fresh) : n < s.next := by
  by_contra hle
  exact hn (h.fresh n (by omega))

end Six.Binder
