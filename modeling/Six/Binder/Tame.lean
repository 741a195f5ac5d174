import Six.Binder.Lifecycle

/-! What a message must carry.  `Auth` ties every message under way to the call that created its
transaction, and `Tame` steps keep it. -/

namespace Six.Binder

open Six.Lib State List Phase

structure Carries (m : Msg) (call : Call) : Prop where
  dataSize : m.dataSize = call.umsg.dataSize
  data : m.data = call.umsg.data
  code : m.code = call.umsg.code
  senderPid : m.senderPid = call.cred.pid
  senderEuid : m.senderEuid = call.cred.euid
  senderSecontext : m.senderSecontext = call.cred.secontext

/-- `m` is the message of the one call that created transaction `n`. -/
structure Authentic (log : List Event) (n : Nat) (m : Msg) : Prop where
  created : ∃ p oneWay call, .created n p oneWay call ∈ log
  carries : ∀ p oneWay call, .created n p oneWay call ∈ log → Carries m call

inductive Place
  | nowhere
  | todo (p : Slot)
  | held (t : Tid)
  | inFlight (p : Slot)

def Place.Undelivered : Place → Prop
  | .todo _ => True
  | .held _ => True
  | _ => False

def Phase.inKmsg : Phase → Bool
  | .copyIn _ copied => copied != 0
  | .kmalloc _ _ => true
  | _ => false

def Phase.inWev : Phase → Bool
  | .copyEvent _ _ _ => true
  | _ => false

def TaskOk (s : State) (place : Nat → Place) (t : Tid) : Phase → Prop
  | .copyIn call copied => Buffer.Agree copied s.kmsg (Msg.codec.store call.umsg)
  | .kmalloc call _ => Carries (Msg.codec.fetch s.kmsg) call
  | .copyOut _ n copied user => place n = .held t ∧
      ∀ txn, s.txns n = some txn → Buffer.Agree copied user (Msg.codec.store txn.msg)
  | .copyEvent x copied user => Buffer.Agree copied user s.wev ∧
      ∀ n, x = some n → Authentic s.log n (WaitEvent.codec.fetch s.wev).txn
  | _ => True

structure Auth (s : State) (place : Nat → Place) : Prop where
  todo : ∀ p n, n ∈ (s.procs p).todo → place n = .todo p
  inFlight : ∀ p n, n ∈ (s.procs p).inFlight → place n = .inFlight p
  nodup : ∀ p, (s.procs p).todo.Nodup
  fresh : ∀ n, s.next ≤ n → place n = .nowhere
  created : ∀ n p oneWay call, .created n p oneWay call ∈ s.log → n < s.next
  received : ∀ n m, .received n m ∈ s.log → Authentic s.log n m
  message : ∀ n txn, s.txns n = some txn → (place n).Undelivered → Authentic s.log n txn.msg
  task : ∀ t, TaskOk s place t (s.tasks t)
  kmsg_alone : ∀ t t', (s.tasks t).inKmsg = true → (s.tasks t').inKmsg = true → t = t'
  wev_alone : ∀ t t', (s.tasks t).inWev = true → (s.tasks t').inWev = true → t = t'

theorem auth_init : Auth {} fun _ => .nowhere where
  todo := fun _ _ h => absurd h not_mem_nil
  inFlight := fun _ _ h => absurd h not_mem_nil
  nodup := fun _ => nodup_nil
  fresh := fun _ _ => rfl
  created := fun _ _ _ _ h => absurd h not_mem_nil
  received := fun _ _ h => absurd h not_mem_nil
  message := fun _ _ h => by cases h
  task := fun _ => trivial
  kmsg_alone := fun _ _ h => by cases h
  wev_alone := fun _ _ h => by cases h

variable {s s' s'' : State} {place place' : Nat → Place} {n : Nat} {p : Slot} {t : Tid}
  {m m' : Msg} {l : List Event} {ph : Phase} {log : List Event}

def Event.isReceived : Event → Bool
  | received _ _ => true
  | _ => false

def Event.Elsewhere (n : Nat) : Event → Prop
  | created n' _ _ _ => n' ≠ n
  | _ => True

theorem Auth.taskOk (h : Auth s place) (ht : s.tasks t = ph) : TaskOk s place t ph :=
  ht ▸ h.task t

theorem Authentic.extend (h : Authentic log n m) (hes : ∀ e ∈ l, e.Elsewhere n) :
    Authentic (log ++ l) n m := by
  obtain ⟨⟨p, oneWay, call, hcreated⟩, carries⟩ := h
  refine ⟨⟨p, oneWay, call, mem_append_left _ hcreated⟩, fun p' oneWay' call' h' => ?_⟩
  rcases mem_append.mp h' with h' | h'
  · exact carries p' oneWay' call' h'
  · exact absurd rfl (hes _ h')

structure SameRequest (m' m : Msg) : Prop where
  dataSize : m'.dataSize = m.dataSize
  data : m'.data = m.data
  code : m'.code = m.code
  senderPid : m'.senderPid = m.senderPid
  senderEuid : m'.senderEuid = m.senderEuid
  senderSecontext : m'.senderSecontext = m.senderSecontext

theorem SameRequest.refl (m : Msg) : SameRequest m m := ⟨rfl, rfl, rfl, rfl, rfl, rfl⟩

theorem SameRequest.trans {m''} (h1 : SameRequest m' m) (h2 : SameRequest m'' m') :
    SameRequest m'' m :=
  ⟨h2.dataSize.trans h1.dataSize, h2.data.trans h1.data, h2.code.trans h1.code,
    h2.senderPid.trans h1.senderPid, h2.senderEuid.trans h1.senderEuid,
    h2.senderSecontext.trans h1.senderSecontext⟩

theorem Carries.same (h : Carries m call) (hs : SameRequest m' m) : Carries m' call :=
  ⟨hs.dataSize.trans h.dataSize, hs.data.trans h.data, hs.code.trans h.code,
    hs.senderPid.trans h.senderPid, hs.senderEuid.trans h.senderEuid,
    hs.senderSecontext.trans h.senderSecontext⟩

theorem Authentic.same (h : Authentic log n m) (hs : SameRequest m' m) : Authentic log n m' :=
  ⟨h.created, fun p oneWay call hc => (h.carries p oneWay call hc).same hs⟩

theorem Auth.elsewhere (h : Auth s place) (hm : Authentic s.log n m)
    (hes : ∀ n' p oneWay call, .created n' p oneWay call ∈ l → s.next ≤ n') :
    ∀ e ∈ l, e.Elsewhere n := by
  obtain ⟨p, oneWay, call, hcreated⟩ := hm.created
  have hlt := h.created n p oneWay call hcreated
  intro e he
  cases e with
  | created n' p' oneWay' call' =>
    have := hes n' p' oneWay' call' he
    show n' ≠ n
    omega
  | _ => trivial

theorem TaskOk.keep (h : Auth s place) (ok : TaskOk s place t ph)
    (kmsg : s'.kmsg = s.kmsg ∨ ph.inKmsg = false) (wev : s'.wev = s.wev ∨ ph.inWev = false)
    (hlog : s'.log = s.log ++ l)
    (hes : ∀ n' p oneWay call, .created n' p oneWay call ∈ l → s.next ≤ n')
    (held : ∀ p n copied user, ph = .copyOut p n copied user → place' n = place n ∧
      ∀ txn', s'.txns n = some txn' → ∃ txn, s.txns n = some txn ∧ txn.msg = txn'.msg) :
    TaskOk s' place' t ph := by
  cases ph with
  | copyIn call copied =>
    rcases kmsg with hk | hk
    · show Buffer.Agree _ _ _
      rw [hk]
      exact ok
    · have : copied = 0 := by simpa [inKmsg] using hk
      subst this
      exact .zero _ _
  | kmalloc call p =>
    rcases kmsg with hk | hk
    · show Carries _ _
      rw [hk]
      exact ok
    · cases hk
  | copyOut p n copied user =>
    obtain ⟨hplace, hmsg⟩ := held p n copied user rfl
    refine ⟨hplace.trans ok.1, fun txn' htxn' => ?_⟩
    obtain ⟨txn, htxn, heq⟩ := hmsg txn' htxn'
    rw [← heq]
    exact ok.2 txn htxn
  | copyEvent x copied user =>
    rcases wev with hw | hw
    · refine ⟨by rw [hw]; exact ok.1, fun n hn => ?_⟩
      have hauth := ok.2 n hn
      rw [hw, hlog]
      exact hauth.extend (h.elsewhere hauth hes)
    · cases hw
  | _ => trivial

theorem others_off {f : Phase → Bool}
    (alone : ∀ t t', f (s.tasks t) = true → f (s.tasks t') = true → t = t')
    (ht : f (s.tasks t) = true) : ∀ t', t' ≠ t → f (s.tasks t') = false := by
  intro t' hne
  by_contra h
  exact hne (alone t' t (Bool.not_eq_false _ ▸ h) ht)

theorem alone_advance {uses : Phase → Bool}
    (alone : ∀ t t', uses (s.tasks t) = true → uses (s.tasks t') = true → t = t')
    (tasks : ∀ t', t' ≠ t → s'.tasks t' = s.tasks t')
    (self : uses (s'.tasks t) = true → ∀ t', t' ≠ t → uses (s.tasks t') = false) (t1 t2 : Tid)
    (h1 : uses (s'.tasks t1) = true) (h2 : uses (s'.tasks t2) = true) : t1 = t2 := by
  by_contra hne
  by_cases ht1 : t1 = t
  · subst ht1
    rw [tasks t2 (Ne.symm hne), self h1 t2 (Ne.symm hne)] at h2
    cases h2
  · rw [tasks t1 ht1] at h1
    by_cases ht2 : t2 = t
    · subst ht2
      rw [self h2 t1 ht1] at h1
      cases h1
    · rw [tasks t2 ht2] at h2
      exact hne (alone t1 t2 h1 h2)

theorem Auth.advance (h : Auth s place) (tasks : ∀ t', t' ≠ t → s'.tasks t' = s.tasks t')
    (hlog : s'.log = s.log ++ l) (next : s.next ≤ s'.next)
    (hes : ∀ n' p oneWay call, .created n' p oneWay call ∈ l → s.next ≤ n' ∧ n' < s'.next)
    (kmsg : s'.kmsg = s.kmsg ∨ ∀ t', t' ≠ t → (s.tasks t').inKmsg = false)
    (wev : s'.wev = s.wev ∨ ∀ t', t' ≠ t → (s.tasks t').inWev = false)
    (kmsg_self : (s'.tasks t).inKmsg = true → ∀ t', t' ≠ t → (s.tasks t').inKmsg = false)
    (wev_self : (s'.tasks t).inWev = true → ∀ t', t' ≠ t → (s.tasks t').inWev = false)
    (held : ∀ t', t' ≠ t → ∀ p n copied user, s.tasks t' = .copyOut p n copied user →
      place' n = place n ∧
      ∀ txn', s'.txns n = some txn' → ∃ txn, s.txns n = some txn ∧ txn.msg = txn'.msg)
    (self : TaskOk s' place' t (s'.tasks t))
    (todo : ∀ p n, n ∈ (s'.procs p).todo → place' n = .todo p)
    (inFlight : ∀ p n, n ∈ (s'.procs p).inFlight → place' n = .inFlight p)
    (nodup : ∀ p, (s'.procs p).todo.Nodup) (fresh : ∀ n, s'.next ≤ n → place' n = .nowhere)
    (received : ∀ n m, .received n m ∈ l → Authentic s'.log n m)
    (message : ∀ n txn, s'.txns n = some txn → (place' n).Undelivered →
      Authentic s'.log n txn.msg) : Auth s' place' := by
  have later : ∀ n' p oneWay call, .created n' p oneWay call ∈ l → s.next ≤ n' :=
    fun n' p oneWay call he => (hes n' p oneWay call he).1
  refine ⟨todo, inFlight, nodup, fresh, ?_, ?_, message, ?_, ?_, ?_⟩
  · intro n p oneWay call hc
    rw [hlog] at hc
    rcases mem_append.mp hc with hc | hc
    · exact Nat.lt_of_lt_of_le (h.created n p oneWay call hc) next
    · exact (hes n p oneWay call hc).2
  · intro n m hr
    rw [hlog] at hr
    rcases mem_append.mp hr with hr | hr
    · have hauth := h.received n m hr
      rw [hlog]
      exact hauth.extend (h.elsewhere hauth later)
    · exact received n m hr
  · intro t'
    by_cases ht : t' = t
    · subst ht
      exact self
    · rw [tasks t' ht]
      exact (h.task t').keep h (kmsg.imp_right fun hk => hk t' ht)
        (wev.imp_right fun hw => hw t' ht) hlog later (held t' ht)
  · exact alone_advance h.kmsg_alone tasks kmsg_self
  · exact alone_advance h.wev_alone tasks wev_self

def Phase.plain : Phase → Bool
  | .copyIn _ copied => copied == 0
  | .kmalloc _ _ => false
  | .copyOut _ _ _ _ => false
  | .copyEvent _ _ _ => false
  | _ => true

/-- How the message of transaction `n` may change: not at all, or only its status while it is
queued, or in any way once it is in flight. -/
inductive Altered (s : State) (n : Nat) (m m' : Msg) : Prop
  | same : m' = m → Altered s n m m'
  | queued (p : Slot) : n ∈ (s.procs p).todo → SameRequest m' m → Altered s n m m'
  | inFlight (p : Slot) : n ∈ (s.procs p).inFlight → Altered s n m m'

structure Tame (s s' : State) (t : Tid) : Prop where
  tasks : ∀ t', t' ≠ t → s'.tasks t' = s.tasks t'
  phase : s'.tasks t = s.tasks t ∨ (s'.tasks t).plain = true
  log : ∃ l, s'.log = s.log ++ l ∧ ∀ e ∈ l, e.isCreated = false ∧ e.isReceived = false
  next : s'.next = s.next
  kmsg : s'.kmsg = s.kmsg
  wev : s'.wev = s.wev
  todo : ∀ p, (s'.procs p).todo.Sublist (s.procs p).todo
  inFlight : ∀ p n, n ∈ (s'.procs p).inFlight → n ∈ (s.procs p).inFlight
  txns : ∀ n txn', s'.txns n = some txn' →
    ∃ txn, s.txns n = some txn ∧ Altered s n txn.msg txn'.msg

theorem Tame.refl (s : State) (t : Tid) : Tame s s t :=
  ⟨fun _ _ => rfl, .inl rfl, ⟨[], by simp, by simp⟩, rfl, rfl, rfl, fun _ => .refl _,
    fun _ _ h => h, fun _ txn h => ⟨txn, h, .same rfl⟩⟩

theorem Altered.trans (tame : Tame s s' t) (h1 : Altered s n m m')
    (h2 : Altered s' n m' m'') : Altered s n m m'' := by
  cases h2 with
  | same h2 => rw [h2]; exact h1
  | queued p hp h2 =>
    have hp := (tame.todo p).subset hp
    cases h1 with
    | same h1 => rw [h1] at h2; exact .queued p hp h2
    | queued _ _ h1 => exact .queued p hp (h1.trans h2)
    | inFlight q hq => exact .inFlight q hq
  | inFlight p hp => exact .inFlight p (tame.inFlight p n hp)

theorem Tame.trans (h1 : Tame s s' t) (h2 : Tame s' s'' t) : Tame s s'' t where
  tasks := fun t' ht => (h2.tasks t' ht).trans (h1.tasks t' ht)
  phase := by
    rcases h2.phase with h | h
    · rw [h]; exact h1.phase
    · exact .inr h
  log := by
    obtain ⟨es1, hlog1, hes1⟩ := h1.log
    obtain ⟨es2, hlog2, hes2⟩ := h2.log
    refine ⟨es1 ++ es2, by rw [hlog2, hlog1, append_assoc], fun e he => ?_⟩
    rcases mem_append.mp he with he | he
    · exact hes1 e he
    · exact hes2 e he
  next := h2.next.trans h1.next
  kmsg := h2.kmsg.trans h1.kmsg
  wev := h2.wev.trans h1.wev
  todo := fun p => (h2.todo p).trans (h1.todo p)
  inFlight := fun p n h => h1.inFlight p n (h2.inFlight p n h)
  txns := fun n txn'' h => by
    obtain ⟨txn', h', alt2⟩ := h2.txns n txn'' h
    obtain ⟨txn, h'', alt1⟩ := h1.txns n txn' h'
    exact ⟨txn, h'', alt1.trans h1 alt2⟩

structure Keeps (s s' : State) : Prop where
  reg : s'.reg = s.reg
  inUse : ∀ p, (s'.procs p).inUse = (s.procs p).inUse

variable {p : Slot} {f : Proc → Proc} {err : Int}

theorem Keeps.refl (s : State) : Keeps s s := ⟨rfl, fun _ => rfl⟩

theorem Keeps.trans (h1 : Keeps s s') (h2 : Keeps s' s'') : Keeps s s'' :=
  ⟨h2.reg.trans h1.reg, fun p => (h2.inUse p).trans (h1.inUse p)⟩

theorem Keeps.ret (h : Keeps s s') : Keeps s (s'.ret t err) := ⟨h.reg, h.inUse⟩

theorem keeps_setProc (inUse : (f (s.procs p)).inUse = (s.procs p).inUse) :
    Keeps s (s.setProc p f) :=
  ⟨rfl, proj_update inUse⟩

/-- A step that touches neither a message under way nor a service. -/
structure Mild (s s' : State) (t : Tid) : Prop where
  tame : Tame s s' t
  keeps : Keeps s s'

theorem Mild.refl (s : State) (t : Tid) : Mild s s t := ⟨.refl s t, .refl s⟩

theorem Mild.trans (h1 : Mild s s' t) (h2 : Mild s' s'' t) : Mild s s'' t :=
  ⟨h1.tame.trans h2.tame, h1.keeps.trans h2.keeps⟩

theorem Phase.plain_inKmsg (h : ph.plain = true) : ph.inKmsg = false := by
  cases ph <;> simp_all [plain, inKmsg]

theorem Phase.plain_inWev (h : ph.plain = true) : ph.inWev = false := by
  cases ph <;> simp_all [plain, inWev]

theorem taskOk_plain (h : ph.plain = true) : TaskOk s place t ph := by
  cases ph with
  | copyIn call copied =>
    obtain rfl : copied = 0 := by simpa [plain] using h
    exact .zero _ _
  | kmalloc | copyOut | copyEvent => cases h
  | _ => trivial

theorem Auth.held_same (h : Auth s place) {txn txn' : Txn} (hplace : place n = .held t)
    (alt : Altered s n txn.msg txn'.msg) : txn.msg = txn'.msg := by
  cases alt with
  | same heq => exact heq.symm
  | queued p hp _ =>
    have := h.todo p n hp
    rw [hplace] at this
    cases this
  | inFlight p hp =>
    have := h.inFlight p n hp
    rw [hplace] at this
    cases this

theorem Auth.tame (h : Auth s place) (tame : Tame s s' t) : Auth s' place := by
  obtain ⟨l, hlog, hes⟩ := tame.log
  have none_created : ∀ n p oneWay call, .created n p oneWay call ∉ l := by
    intro n p oneWay call he
    cases (hes _ he).1
  have heldKept : ∀ t' p n copied user, s.tasks t' = .copyOut p n copied user →
      ∀ txn', s'.txns n = some txn' → ∃ txn, s.txns n = some txn ∧ txn.msg = txn'.msg := by
    intro t' p n copied user ht txn' htxn'
    obtain ⟨txn, htxn, alt⟩ := tame.txns n txn' htxn'
    exact ⟨txn, htxn, h.held_same (h.taskOk ht).1 alt⟩
  refine h.advance tame.tasks hlog (by rw [tame.next]) ?_ (.inl tame.kmsg) (.inl tame.wev) ?_ ?_
    (fun t' _ p n copied user ht => ⟨rfl, heldKept t' p n copied user ht⟩) ?_ ?_ ?_ ?_ ?_ ?_ ?_
  · exact fun n p oneWay call he => absurd he (none_created n p oneWay call)
  · intro hk
    rcases tame.phase with hp | hp
    · exact others_off h.kmsg_alone (by rw [← hp]; exact hk)
    · rw [plain_inKmsg hp] at hk
      cases hk
  · intro hw
    rcases tame.phase with hp | hp
    · exact others_off h.wev_alone (by rw [← hp]; exact hw)
    · rw [plain_inWev hp] at hw
      cases hw
  · rcases tame.phase with hp | hp
    · rw [hp]
      exact (h.task t).keep h (.inl tame.kmsg) (.inl tame.wev) hlog
        (fun n p oneWay call he => absurd he (none_created n p oneWay call))
        fun p n copied user ht => ⟨rfl, heldKept t p n copied user ht⟩
    · exact taskOk_plain hp
  · exact fun p n hn => h.todo p n ((tame.todo p).subset hn)
  · exact fun p n hn => h.inFlight p n (tame.inFlight p n hn)
  · exact fun p => (h.nodup p).sublist (tame.todo p)
  · rw [tame.next]; exact h.fresh
  · intro n m hr
    cases (hes _ hr).2
  · intro n txn' htxn' hplace
    obtain ⟨txn, htxn, alt⟩ := tame.txns n txn' htxn'
    have hauth := h.message n txn htxn hplace
    have extended : Authentic s'.log n txn.msg := by
      rw [hlog]
      exact hauth.extend (h.elsewhere hauth
        fun n p oneWay call he => absurd he (none_created n p oneWay call))
    cases alt with
    | same heq => rw [heq]; exact extended
    | queued p _ hs => exact extended.same hs
    | inFlight p hp =>
      rw [h.inFlight p n hp] at hplace
      exact hplace.elim

end Six.Binder
