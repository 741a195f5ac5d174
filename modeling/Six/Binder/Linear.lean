import Six.Binder.Moves

/-! Linearity of binder transactions. -/

namespace Six.Binder

open Six.Lib State Option List Life

variable {s s' : State} {n k : Nat} {p : Slot} {t : Tid} {call : Call} {l : Label} {env : Env}
  {copied : Nat} {cred : Cred} {name descriptor : Fin 64 → UInt8} {user : Buffer} {r : Role}
  {f : Fid} {txn : Option Nat} {mode : RecvMode}

theorem quiet_transactReturn (h : (s.tasks t).hold = none) :
    Quiet s (s.transactReturn t call err) := by
  unfold transactReturn
  split
  · exact quiet_setPhase h.symm
  · exact quiet_ret h

theorem quiet_transactCopied (h : (s.tasks t).hold = none) :
    Quiet s (s.transactCopied env t call) := by
  unfold transactCopied
  dsimp only
  split
  · exact Quiet.ret { Quiet.refl s with } h
  · exact Quiet.setPhase { Quiet.refl s with } h.symm

theorem Quiet.transactCopied (q : Quiet s s') (h : (s.tasks t).hold = none) :
    Quiet s (s'.transactCopied env t call) :=
  q.trans (quiet_transactCopied ((q.hold t).trans h))

theorem quiet_transactCopyIn (h : (s.tasks t).hold = none) :
    Quiet s (s.transactCopyIn env t call copied k) := by
  unfold transactCopyIn
  dsimp only
  split
  · exact Quiet.setPhase { Quiet.refl s with } h.symm
  · exact Quiet.transactCopied { Quiet.refl s with } h

theorem quiet_transactCopyBack (h : (s.tasks t).hold = none) :
    Quiet s (s.transactCopyBack t call copied k) := by
  unfold transactCopyBack
  split
  · exact quiet_setPhase h.symm
  · exact quiet_transactReturn h

theorem quiet_waitCopyEvent (h : (s.tasks t).hold = none) :
    Quiet s (s.waitCopyEvent t txn copied user k) := by
  unfold waitCopyEvent
  dsimp only
  split
  · exact quiet_setPhase h.symm
  · refine (quiet_note ?_).trans (quiet_ret h)
    cases txn <;> simp [Event.txn]

theorem Quiet.waitCopyEvent (q : Quiet s s') (h : (s.tasks t).hold = none) :
    Quiet s (s'.waitCopyEvent t txn copied user k) :=
  q.trans (quiet_waitCopyEvent ((q.hold t).trans h))

theorem quiet_takeUevent : Quiet s (s.takeUevent p) := quiet_setProc rfl rfl rfl

section

variable (h : (s.tasks t).hold = none)
include h

theorem quiet_setContextMgr : Quiet s (s.setContextMgr env t p cred) := by
  unfold setContextMgr
  split_ifs
  · exact quiet_ret h
  · exact quiet_ret h
  · exact quiet_ret h
  · have named : Quiet s { s with contextMgr := some p } := { Quiet.refl s with }
    exact (named.trans (quiet_setProc rfl rfl rfl)).ret h

theorem quiet_registerSvc : Quiet s (s.registerSvc env t p cred name descriptor) := by
  unfold registerSvc
  split
  · exact quiet_ret h
  · split
    · exact quiet_ret h
    · exact Quiet.ret { Quiet.refl s with } h

theorem quiet_lookupSvc : Quiet s (s.lookupSvc env t cred handle name descriptor) := by
  unfold lookupSvc
  dsimp only
  split
  · exact quiet_ret h
  · exact quiet_ret h

theorem quiet_ueventEmit : Quiet s (s.ueventEmit env t kev) := by
  unfold ueventEmit
  split
  · exact quiet_ret h
  · exact Quiet.ret { Quiet.refl s with } h

theorem quiet_ueventPoll : Quiet s (s.ueventPoll t p) := by
  unfold ueventPoll
  split
  · exact quiet_ret h
  · exact (quiet_takeUevent.trans (quiet_note (by simp [Event.txn]))).ret h

theorem quiet_binderIoctl : Quiet s (s.binderIoctl env t f cred cmd) := by
  unfold binderIoctl
  split
  · exact quiet_ret h
  · cases cmd with
    | setContextMgr => exact quiet_setContextMgr h
    | lookupSvc handle name descriptor => exact quiet_lookupSvc h
    | ueventEmit kev => exact quiet_ueventEmit h
    | ueventPoll => exact quiet_ueventPoll h
    | _ => exact quiet_setPhase h.symm

end

theorem lin_transactCreate (h : Lin s) (ht : (s.tasks t).hold = none) :
    Lin (s.transactCreate t call p) := by
  unfold transactCreate
  split
  · rename_i hone
    exact (lin_post h hone).quiet (quiet_setPhase ht.symm)
  · rename_i hone
    rw [Bool.not_eq_true] at hone
    split
    · rename_i huse
      exact lin_call h hone huse ht
    · exact (lin_abandon h hone).quiet (quiet_ret ht)

theorem only_of_hold (ht : (s.tasks t).hold = some (r, n)) :
    ∀ r' m, (s.tasks t).hold = some (r', m) → m = n := by
  intro r' m hm
  rw [ht] at hm
  exact (congrArg Prod.snd (some.inj hm)).symm

section

variable (h : Lin s)
include h

theorem lin_transactCopyReply (ht : (s.tasks t).hold = some (r, n))
    (hlife : s.life n = .awake) (hs : s.transactCopyReply t call n copied k = some s') :
    Lin s' := by
  have own : ∀ t' r', (s.tasks t').hold = some (r', n) → t' = t :=
    fun t' r' ht' => (h.located n).unique t' t r' r ht' ht
  obtain ⟨txn, -, rfl⟩ := map_eq_some_iff.mp hs
  split
  · exact lin_hold h rfl (by rw [hlife]; trivial) own (only_of_hold ht)
  · unfold transactReturn
    split
    · exact lin_free h (.inr hlife) own (only_of_hold ht) rfl
    · exact (lin_free h (.inr hlife) own (only_of_hold ht) rfl).quiet
        (quiet_note (by simp [Event.txn]))

theorem lin_transactWake (ht : s.tasks t = .asleep call n)
    (hs : s.transactWake t call n k = some s') : Lin s' := by
  have hold : (s.tasks t).hold = some (.caller, n) := by rw [ht]; rfl
  have hn := h.located n
  unfold transactWake at hs
  split at hs
  · rename_i txn htxn
    split at hs
    · rename_i hdone
      have hlife := awake_of_done (hn.role t _ hold) (htxn ▸ hn.heap) hdone
      exact lin_transactCopyReply h hold hlife hs
    · cases hs
  · cases hs

theorem lin_recvCopyOut (hlife : s.life n = .taken)
    (own : ∀ t' r, (s.tasks t').hold = some (r, n) → t' = t)
    (only : ∀ r m, (s.tasks t).hold = some (r, m) → m = n)
    (hs : s.recvCopyOut t p n copied user k = some s') : Lin s' := by
  obtain ⟨txn, htxn, rfl⟩ := map_eq_some_iff.mp hs
  have hone : txn.msg.oneWay = true := by
    have heap := (h.located n).heap
    rw [hlife, htxn] at heap
    obtain ⟨txn', heq, hone⟩ := heap
    cases heq
    exact hone
  dsimp only
  split
  · exact lin_hold h rfl (by rw [hlife]; trivial) own only
  · rw [handOver, if_pos hone]
    -- the log takes the event before the process returns, which touches another field
    exact ((lin_free h (.inl hlife) own only rfl).quiet (quiet_note (by simp [Event.txn]))).quiet
      (quiet_note (by simp [Event.txn]))

theorem lin_recv (ht : s.tasks t = .receiving p mode)
    (prompt : ∀ n rest txn, (s.procs p).todo = n :: rest → s.txns n = some txn →
      txn.msg.oneWay = false → msgSize ≤ k)
    (hs : s.recv t p mode k = some s') : Lin s' := by
  have hold : (s.tasks t).hold = none := by rw [ht]; rfl
  unfold recv at hs
  split at hs
  · cases mode with
    | blocking => cases hs
    | _ => cases hs; exact h.quiet (quiet_ret hold)
  · rename_i n rest htodo
    have hn := h.located n
    have heap := hn.heap
    have only : ∀ r m, (s.tasks t).hold = some (r, m) → m = n := by
      intro r m hr
      rw [hold] at hr
      cases hr
    rcases todo_eq_some.mp ((hn.todo p).mp (by rw [htodo]; exact mem_cons_self))
      with hl | hl
    · rw [hl] at heap
      obtain ⟨txn, htxn, hone, -⟩ := heap
      -- the copy is made in one go, so the transaction is in flight when the step ends
      have full := prompt n rest txn htodo htxn hone
      obtain ⟨txn', htxn', rfl⟩ := map_eq_some_iff.mp hs
      rw [popTxn_txns_self, htxn] at htxn'
      obtain rfl : { txn with delivered := true } = txn' := some.inj htxn'
      rw [if_neg (by omega), handOver, if_neg (by rw [hone]; exact Bool.false_ne_true)]
      refine (lin_takeSync h htodo hl).quiet (Quiet.ret (quiet_note ?_) hold)
      simp [Event.txn]
    · have hl' : (s.popTxn p n).life n = .taken := by rw [life_popTxn, hl]; rfl
      refine lin_recvCopyOut (lin_popTxn h htodo hl) hl' (fun t' r hr => ?_) only hs
      have := hn.role t' r hr
      rw [hl] at this
      exact this.elim

theorem lin_waitEvent (ht : s.tasks t = .waiting p)
    (hs : s.waitEvent t p k = some s') : Lin s' := by
  have hold : (s.tasks t).hold = none := by rw [ht]; rfl
  unfold waitEvent at hs
  split at hs
  · cases hs
    exact h.quiet (Quiet.waitCopyEvent (quiet_takeUevent.trans { Quiet.refl _ with }) hold)
  · split at hs
    · cases hs
    · rename_i n rest htodo
      have hn := h.located n
      have heap := hn.heap
      obtain ⟨txn, htxn, rfl⟩ := map_eq_some_iff.mp hs
      rcases todo_eq_some.mp ((hn.todo p).mp (by rw [htodo]; exact mem_cons_self))
        with hl | hl
      · rw [hl, htxn] at heap
        obtain ⟨txn', heq, hone, -⟩ := heap
        cases heq
        rw [handOver, if_neg (by rw [hone]; exact Bool.false_ne_true)]
        exact (lin_takeSync h htodo hl).quiet (Quiet.waitCopyEvent { Quiet.refl _ with } hold)
      · rw [hl, htxn] at heap
        obtain ⟨txn', heq, hone⟩ := heap
        cases heq
        have hl' : (s.popTxn p n).life n = .taken := by rw [life_popTxn, hl]; rfl
        have free : ∀ t' r, (s.tasks t').hold ≠ some (r, n) := by
          intro t' r hr
          have := hn.role t' r hr
          rw [hl] at this
          exact this
        rw [handOver, if_pos hone]
        refine (lin_kfree (t := t) (lin_popTxn h htodo hl) hl' free hold).quiet
          (Quiet.waitCopyEvent { Quiet.refl _ with } hold)

theorem lin_replyCopied (hold : (s.tasks t).hold = none) : Lin (s.replyCopied t p) := by
  unfold replyCopied
  dsimp only
  split
  · exact h.quiet (quiet_ret hold)
  · rename_i n hfind
    exact (lin_completeTxn h _ (mem_of_find?_eq_some hfind)).quiet (quiet_ret hold)

theorem lin_replyCopyIn (hold : (s.tasks t).hold = none) :
    Lin (s.replyCopyIn t p umsg copied k) := by
  have filled : ∀ b, Lin { s with rmsg := b } := fun b =>
    h.quiet { Quiet.refl s with }
  unfold replyCopyIn
  dsimp only
  split
  · exact (filled _).quiet (quiet_setPhase hold.symm)
  · exact lin_replyCopied (filled _) hold

theorem lin_binderOpen (hold : (s.tasks t).hold = none) : Lin (s.binderOpen t f cred) := by
  unfold binderOpen
  split
  · exact h.quiet (quiet_ret hold)
  · rename_i p hfind
    have hfree := find?_some hfind
    rw [Bool.not_eq_true'] at hfree
    refine Lin.quiet ?_ (quiet_ret hold)
    exact lin_open h hfree rfl rfl rfl rfl rfl rfl rfl

theorem lin_binderRelease : Lin (s.binderRelease f) := by
  unfold binderRelease
  split
  · exact h
  · rename_i p hf
    exact lin_release h rfl rfl failAll_tasks rfl failAll_next

end

/-- A receive that takes a synchronous transaction from its list makes the copy in one go. -/
def prompt (s : State) (l : Label) : Bool :=
  match l.act, s.tasks l.tid with
  | .go k, .receiving p _ =>
    (s.procs p).todo.head?.all fun n =>
      (s.txns n).all fun txn => txn.msg.oneWay || decide (msgSize ≤ k)
  | _, _ => true

theorem prompt_receiving {txn : Txn} (h : prompt s l = true)
    (hact : l.act = .go k) (ht : s.tasks l.tid = .receiving p mode)
    (htodo : (s.procs p).todo = n :: rest) (htxn : s.txns n = some txn)
    (hone : txn.msg.oneWay = false) : msgSize ≤ k := by
  simpa [prompt, hact, ht, htodo, htxn, hone] using h

theorem lin_resume (h : Lin s) (ht : s.tasks t = phase)
    (hprompt : ∀ p mode n rest txn, phase = .receiving p mode → (s.procs p).todo = n :: rest →
      s.txns n = some txn → txn.msg.oneWay = false → msgSize ≤ k)
    (hs : s.resume env t k phase = some s') : Lin s' := by
  cases phase with
  | copyIn call copied =>
    cases hs
    exact h.quiet (quiet_transactCopyIn (by rw [ht]; rfl))
  | copyBack call copied =>
    cases hs
    exact h.quiet (quiet_transactCopyBack (by rw [ht]; rfl))
  | asleep call n => exact lin_transactWake h ht hs
  | copyReply call n copied =>
    have hold : (s.tasks t).hold = some (.reader, n) := by rw [ht]; rfl
    exact lin_transactCopyReply h hold (awake_of_reader ((h.located n).role t _ hold)) hs
  | receiving p mode =>
    exact lin_recv h ht (fun n rest txn => hprompt p mode n rest txn rfl) hs
  | copyOut p n copied user =>
    have hold : (s.tasks t).hold = some (.receiver, n) := by rw [ht]; rfl
    exact lin_recvCopyOut h (taken_of_receiver ((h.located n).role t _ hold))
      (fun t' r ht' => (h.located n).unique t' t r _ ht' hold) (only_of_hold hold) hs
  | waiting p => exact lin_waitEvent h ht hs
  | copyEvent txn copied user =>
    cases hs
    exact h.quiet (quiet_waitCopyEvent (by rw [ht]; rfl))
  | copyAnswer p umsg copied =>
    cases hs
    exact lin_replyCopyIn h (by rw [ht]; rfl)
  | copyInfo p cred name descriptor =>
    cases hs
    exact h.quiet (quiet_registerSvc (by rw [ht]; rfl))
  | _ => cases hs

/-- A step resumes a process that is inside a call, or it is that of a process that holds no
transaction. -/
theorem step_cases (hs : step s l = some s') :
    (∃ k, l.act = .go k ∧ s.resume l.env l.tid k (s.tasks l.tid) = some s') ∨
      (∀ k, l.act ≠ .go k) ∧ (s.tasks l.tid).hold = none ∧
        ((∃ f cred, (l.act = .open f cred ∧ s.tasks l.tid = .idle) ∧
            s' = s.binderOpen l.tid f cred) ∨
          (∃ f, l.act = .release f ∧ s' = s.binderRelease f) ∨
          (∃ f cred cmd, (l.act = .ioctl f cred cmd ∧ s.tasks l.tid = .idle) ∧
            s' = s.binderIoctl l.env l.tid f cred cmd) ∨
          ((∃ ok, l.act = .kmalloc ok) ∨ l.act = .signal) ∧
            ((∃ call p, s.tasks l.tid = .kmalloc call p ∧ s' = s.transactCreate l.tid call p) ∨
              ∃ err, s' = s.ret l.tid err)) := by
  unfold step at hs
  split at hs
  case h_4 k hact => exact .inl ⟨k, hact, hs⟩
  all_goals
    rename_i hact ht
    try split at hs
  all_goals cases hs
  all_goals
    rw [hact, ht]
    refine .inr ⟨nofun, rfl, ?_⟩
  · exact .inl ⟨_, _, ⟨rfl, rfl⟩, rfl⟩
  · exact .inr (.inl ⟨_, rfl, rfl⟩)
  · exact .inr (.inr (.inl ⟨_, _, _, ⟨rfl, rfl⟩, rfl⟩))
  · exact .inr (.inr (.inr ⟨.inl ⟨_, rfl⟩, .inl ⟨_, _, rfl, rfl⟩⟩))
  · exact .inr (.inr (.inr ⟨.inl ⟨_, rfl⟩, .inr ⟨_, rfl⟩⟩))
  all_goals exact .inr (.inr (.inr ⟨.inr rfl, .inr ⟨_, rfl⟩⟩))

theorem lin_step (h : Lin s) (hg : prompt s l = true) (hs : step s l = some s') : Lin s' := by
  obtain ⟨k, hact, hs⟩ | ⟨-, none, hs⟩ := step_cases hs
  · refine lin_resume h rfl ?_ hs
    intro p mode n rest txn ht
    exact prompt_receiving hg hact ht
  · obtain ⟨f, cred, -, rfl⟩ | ⟨f, -, rfl⟩ | ⟨f, cred, cmd, -, rfl⟩ |
      ⟨-, ⟨call, p, -, rfl⟩ | ⟨err, rfl⟩⟩ := hs
    · exact lin_binderOpen h none
    · exact lin_binderRelease h
    · exact h.quiet (quiet_binderIoctl none)
    · exact lin_transactCreate h none
    · exact h.quiet (quiet_ret none)

/-- The transaction whose caller the process is, from the moment it is queued until the call
returns. -/
def Phase.awaits : Phase → Option Nat
  | .asleep _ n => some n
  | .copyReply _ n _ => some n
  | _ => none

/-- A synchronous transaction `n` for the slot `p`: it is in exactly one place, and it is completed
and freed once by the time its caller has returned. -/
structure LinearSync (s : State) (n : Nat) (p : Slot) : Prop where
  place :
    (n ∈ (s.procs p).todo ∧ n ∉ (s.procs p).inFlight ∧ s.count Event.isCompleted n = 0) ∨
    (n ∉ (s.procs p).todo ∧ n ∈ (s.procs p).inFlight ∧ s.count Event.isCompleted n = 0) ∨
    (n ∉ (s.procs p).todo ∧ n ∉ (s.procs p).inFlight ∧ s.count Event.isCompleted n = 1)
  elsewhere : ∀ q, q ≠ p → n ∉ (s.procs q).todo ∧ n ∉ (s.procs q).inFlight
  woken : s.count Event.isWoken n ≤ 1
  waiting : (∃ t, (s.tasks t).awaits = some n) →
    s.count Event.isFreed n = 0 ∧ (s.txns n).isSome = true
  returned : (¬ ∃ t, (s.tasks t).awaits = some n) →
    s.count Event.isCompleted n = 1 ∧ s.count Event.isFreed n = 1

structure Linear (s : State) : Prop where
  sync : ∀ n p call, .created n p false call ∈ s.log → LinearSync s n p
  oneWay : ∀ n p call, .created n p true call ∈ s.log →
    s.count Event.isDelivered n ≤ 1 ∧ s.count Event.isFreed n ≤ 1
  nodup : ∀ p, (s.procs p).todo.Nodup ∧ (s.procs p).inFlight.Nodup
  order : ∀ p, (s.log.filterMap (Event.deliveredTo p)).Sublist
    (s.log.filterMap (Event.createdTo p))

theorem hold_of_awaits {ph : Phase} (h : ph.awaits = some n) :
    ∃ r, ph.hold = some (r, n) ∧ r ≠ .receiver := by
  cases ph <;> simp_all [Phase.awaits, Phase.hold]

theorem awaits_of_hold {ph : Phase} (h : ph.hold = some (r, n)) (hr : r ≠ .receiver) :
    ph.awaits = some n := by
  cases ph <;> simp_all [Phase.awaits, Phase.hold]

theorem Lin.pending_iff (h : Lin s) : (s.life n).Pending ↔ ∃ t, (s.tasks t).awaits = some n := by
  have hn := h.located n
  constructor
  · intro hp
    obtain ⟨t, r, ht⟩ := hn.held hp
    refine ⟨t, awaits_of_hold ht ?_⟩
    rintro rfl
    rw [taken_of_receiver (hn.role t _ ht)] at hp
    exact hp
  · rintro ⟨t, ht⟩
    obtain ⟨r, hold, hr⟩ := hold_of_awaits ht
    have allowed := hn.role t r hold
    cases hl : s.life n <;> rw [hl] at allowed <;> cases r <;> trivial

theorem Lin.linearSync (h : Lin s) (hc : .created n p false call ∈ s.log) : LinearSync s n p := by
  have hn := h.located n
  have hbad := hn.heap.ne_bad
  have born := life_born hc
  have hcompleted := count_completed hbad
  have hfreed := count_freed hbad
  constructor
  case place =>
    rw [hcompleted, hn.todo, hn.inFlight]
    cases hl : s.life n <;>
      simp_all [Life.Born, todo, inFlight, completions]
  case elsewhere =>
    intro q hq
    rw [hn.todo, hn.inFlight]
    cases hl : s.life n <;> simp_all [Life.Born, todo, inFlight, Ne.symm hq]
  case woken =>
    refine (count_woken_le hbad).trans ?_
    cases s.life n <;> simp [wakes]
  case waiting =>
    intro hw
    have hp := h.pending_iff.mpr hw
    have heap := hn.heap
    rw [hfreed]
    cases hl : s.life n <;> rw [hl] at hp heap <;> first | exact hp.elim | skip
    case answered => exact heap.elim
    all_goals
      obtain ⟨txn, htxn, -⟩ := heap
      exact ⟨rfl, by rw [htxn]; rfl⟩
  case returned =>
    intro hw
    have hp := mt h.pending_iff.mp hw
    rw [hcompleted, hfreed]
    cases hl : s.life n <;> simp_all [Life.Born, Life.Pending, completions, frees]

theorem Lin.linear (h : Lin s) : Linear s where
  sync := fun _ _ _ hc => h.linearSync hc
  oneWay := fun n p call _ => by
    have hbad := (h.located n).heap.ne_bad
    refine ⟨(count_delivered_le hbad).trans ?_, ?_⟩
    · cases s.life n <;> simp [deliveries]
    · rw [count_freed hbad]
      cases s.life n <;> simp [frees]
  nodup := fun p => ⟨h.todo_nodup p, h.inFlight_nodup p⟩
  order := fun p => (sublist_append_left _ _).trans (h.fifo p)

/-- Every interleaving of any number of processes keeps transactions linear, as long as no receive
is suspended between taking a synchronous transaction from `todo` and putting it in `in_flight`. -/
theorem binder_linear (h : Reaches step (fun s l => prompt s l = true) {} s) : Linear s :=
  (h.invariant lin_init fun _ _ _ hi hg hs => lin_step hi hg hs).linear

def permissive : Env where
  serviceCheck := fun _ _ _ => 0
  binderTransaction := fun _ _ => 0
  setContextMgr := fun _ => 0
  emitted := fun _ _ => none

def act (t : Tid) (a : Act) : Label := ⟨permissive, t, a⟩

/-- Process 1 opens the device and becomes the context manager; process 2 opens it and calls it. -/
def callManager : List Label :=
  [act 1 (.open 0 ⟨1, 0, fun _ => 0⟩), act 1 (.ioctl 0 ⟨1, 0, fun _ => 0⟩ .setContextMgr),
    act 2 (.open 1 ⟨2, 7, fun _ => 0⟩), act 2 (.ioctl 1 ⟨2, 7, fun _ => 0⟩ (.transact {} false)),
    act 2 (.go msgSize), act 2 (.kmalloc true)]

def answeredCall : List Label :=
  callManager ++ [act 1 (.ioctl 0 ⟨1, 0, fun _ => 0⟩ (.recv .blocking)), act 1 (.go msgSize),
    act 1 (.ioctl 0 ⟨1, 0, fun _ => 0⟩ (.reply {})), act 1 (.go msgSize), act 2 (.go msgSize)]

theorem answered_call_linear : ∃ s, run (guarded prompt step) {} answeredCall = some s ∧
    s.count Event.isFreed 0 = 1 ∧ Linear s := by
  have runs : (run (guarded prompt step) {} answeredCall).any
      (fun s => s.count Event.isFreed 0 == 1) = true := by
    decide
  obtain ⟨s, hs, hfreed⟩ := any_eq_true _ _ |>.mp runs
  exact ⟨s, hs, beq_iff_eq.mp hfreed, binder_linear (reaches_of_guarded_run _ hs)⟩

end Six.Binder
