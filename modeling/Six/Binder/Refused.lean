import Six.Binder.Effect

/-! Requests that `binder_do_transact` refuses.  A request takes several steps of its process, with
steps of others in between. -/

namespace Six.Binder

open Six.Lib Errno State List Function Registry

/-- The services, the processes with their lists, the transactions, the context manager and the open
files are as before. -/
structure Unchanged (s s' : State) : Prop where
  reg : s'.reg = s.reg
  procs : s'.procs = s.procs
  txns : s'.txns = s.txns
  contextMgr : s'.contextMgr = s.contextMgr
  files : s'.files = s.files

/-- A request of process `t` that has not yet been copied in as a whole: its own steps so far, each
with the state before and after it, and the state now. -/
inductive Underway (t : Tid) (call : Call) : List (State × State) → State → Prop
  | begun {s s' : State} {env : Env} {f : Fid} (file : s.files f = some call.sender)
      (hs : step s ⟨env, t, .ioctl f call.cred (.transact call.umsg call.thenRecv)⟩ = some s') :
      Underway t call [(s, s')] s'
  | others {own : List (State × State)} {s s' : State} (h : Underway t call own s)
      (hs : Reaches step (fun _ l => l.tid ≠ t) s s') : Underway t call own s'
  | copied {own : List (State × State)} {s s' : State} {env : Env} {n k : Nat}
      (h : Underway t call own s) (phase : s.tasks t = .copyIn call n) (part : n + k < msgSize)
      (hs : step s ⟨env, t, .go k⟩ = some s') : Underway t call (own ++ [(s, s')]) s'

/-- A request of process `t` that returns the error `e` before a transaction is queued.  In the
state `s`, where `n` bytes of it have been copied, the rest is copied and the target is chosen; when
there is one, the request fails later on, in `kmalloc`. -/
inductive Refused (t : Tid) (call : Call) (env : Env) (s : State) (n : Nat) :
    List (State × State) → Int → Prop
  | routed {own : List (State × State)} {s' : State} {k : Nat} {e : Int}
      (h : Underway t call own s) (phase : s.tasks t = .copyIn call n) (all : msgSize ≤ n + k)
      (hs : step s ⟨env, t, .go k⟩ = some s') (returns : s'.log = s.log ++ [.returned t e]) :
      Refused t call env s n (own ++ [(s, s')]) e
  | noMemory {own : List (State × State)} {s' u u' : State} {env' : Env} {k : Nat}
      (h : Underway t call own s) (phase : s.tasks t = .copyIn call n) (all : msgSize ≤ n + k)
      (hs : step s ⟨env, t, .go k⟩ = some s') (between : Reaches step (fun _ l => l.tid ≠ t) s' u)
      (hu : step u ⟨env', t, .kmalloc false⟩ = some u') :
      Refused t call env s n (own ++ [(s, s'), (u, u')]) (-enomem)

/-- Choosing a target for the message changes nothing: it is not addressed to a service that is
registered, and it registers nothing, or only what the entry of the service says already. -/
structure LeavesNoTrace (env : Env) (s : State) (call : Call) (m : Msg) : Prop where
  registers : addsService env call.cred m → ∀ i, s.reg.place (cstr m.data) = some i →
    s.reg.findSvcByName (cstr m.data) ≠ none ∧
      Registry.reregistered (s.reg.svcs i) call.sender (s.procs call.sender)
        (cstr m.interfaceToken) call.cred = s.reg.svcs i
  addresses : m.targetHandle ≠ 0 → s.reg.findSvcByHandle m.targetHandle = none

section Refused

variable {t : Tid} {call : Call} {env : Env} {s s' : State} {n k : Nat} {e : Int}
  {own : List (State × State)} {cred : Cred}

theorem step_transact (file : s.files f = some call.sender)
    (hs : step s ⟨env, t, .ioctl f call.cred (.transact call.umsg call.thenRecv)⟩ = some s') :
    s' = s.setPhase t (.copyIn call 0) := by
  cases ht : s.tasks t with
  | idle =>
    simp only [step, ht, binderIoctl, file] at hs
    exact (Option.some.inj hs).symm
  | _ => simp [step, ht] at hs

theorem step_copyIn (phase : s.tasks t = .copyIn call n)
    (hs : step s ⟨env, t, .go k⟩ = some s') : s' = s.transactCopyIn env t call n k := by
  simp only [step, phase, resume] at hs
  exact (Option.some.inj hs).symm

theorem step_noMemory (hs : step s ⟨env, t, .kmalloc false⟩ = some s') :
    s' = s.ret t (-enomem) := by
  cases ht : s.tasks t with
  | kmalloc call p =>
    simp only [step, ht] at hs
    exact (Option.some.inj hs).symm
  | _ => simp [step, ht] at hs

theorem Underway.unchanged (h : Underway t call own s) : ∀ ab ∈ own, Unchanged ab.1 ab.2 := by
  induction h with
  | begun file hs =>
    intro ab hab
    rw [mem_singleton] at hab
    subst hab
    rw [step_transact file hs]
    exact ⟨rfl, rfl, rfl, rfl, rfl⟩
  | others h hs ih => exact ih
  | copied h phase part hs ih =>
    intro ab hab
    rcases mem_append.mp hab with hab | hab
    · exact ih ab hab
    · rw [mem_singleton] at hab
      subst hab
      rw [step_copyIn phase hs, transactCopyIn_of_lt part]
      exact ⟨rfl, rfl, rfl, rfl, rfl⟩

theorem unchanged_transactCopyIn (all : msgSize ≤ n + k) :
    Unchanged s (s.transactCopyIn env t call n k) ↔
      (route env s.procs call.sender call.cred s.reg s.contextMgr (s.incoming call n)).reg =
        s.reg := by
  obtain ⟨_, _, _, heq⟩ := transactCopyIn_eq s env t call all
  rw [heq]
  exact ⟨fun h => h.reg, fun h => ⟨h, rfl, rfl, rfl, rfl⟩⟩

theorem log_transactCopyIn (all : msgSize ≤ n + k)
    (htarget : (route env s.procs call.sender call.cred s.reg s.contextMgr
      (s.incoming call n)).target = .error e) :
    (s.transactCopyIn env t call n k).log = s.log ++ [.returned t e] := by
  rw [transactCopyIn_of_le all]
  unfold transactCopied
  dsimp only
  rw [incoming] at htarget
  rw [htarget]
  rfl

theorem target_of_no_manager {procs : Slot → Proc} {reg : Registry}
    (hhandle : m.targetHandle = 0) (hcheck : serviceManagerCheck env cred m = 0) :
    (route env procs sender cred reg none m).target = .error (-econnrefused) := by
  rw [route, if_pos hhandle, if_neg (not_not.mpr hcheck)]
  rfl

theorem registerService_eq_self_iff {r : Registry}
    : (r.registerService p proc name descriptor cred).1 = r ↔
      ∀ i, r.place name = some i → r.findSvcByName name ≠ none ∧
        reregistered (r.svcs i) p proc descriptor cred = r.svcs i := by
  rw [registerService_eq]
  cases hplace : r.place name with
  | none => simp
  | some i =>
    by_cases hnew : r.findSvcByName name = none
    · simp only [hnew, if_true]
      constructor
      · intro h
        have hnext := congrArg nextSvcHandle h
        simp at hnext
      · intro h
        exact absurd rfl (h i rfl).1
    · simp only [if_neg hnew, entry]
      constructor
      · intro h j hj
        obtain rfl := Option.some.inj hj
        have hsvc := congrFun (congrArg svcs h) i
        rw [setSvc] at hsvc
        dsimp only at hsvc
        rw [update_self] at hsvc
        exact ⟨hnew, hsvc⟩
      · intro h
        rw [(h i rfl).2, setSvc, update_eq_self]

theorem reg_route_eq_iff (m : Msg) :
    (route env s.procs call.sender call.cred s.reg s.contextMgr m).reg = s.reg ↔
      LeavesNoTrace env s call m := by
  rw [reg_route]
  by_cases hadds : addsService env call.cred m
  · rw [if_pos hadds, registerService_eq_self_iff]
    exact ⟨fun h => ⟨fun _ => h, fun hne => absurd hadds.1 hne⟩, fun h => h.registers hadds⟩
  · rw [if_neg hadds]
    by_cases hhandle : m.targetHandle = 0
    · rw [if_pos hhandle]
      exact ⟨fun _ => ⟨fun h => absurd h hadds, fun h => absurd hhandle h⟩, fun _ => rfl⟩
    · rw [if_neg hhandle]
      cases hfind : s.reg.findSvcByHandle m.targetHandle with
      | none => exact ⟨fun _ => ⟨fun h => absurd h hadds, fun _ => hfind⟩, fun _ => rfl⟩
      | some i =>
        constructor
        · intro h
          have hcount := congrArg SvcEntry.txnCount (congrFun (congrArg svcs h) i)
          dsimp only [setSvc] at hcount
          rw [update_self] at hcount
          simp at hcount
        · intro h
          rw [h.addresses hhandle] at hfind
          cases hfind

theorem unchanged_iff_leavesNoTrace (all : msgSize ≤ n + k) :
    Unchanged s (s.transactCopyIn env t call n k) ↔
      LeavesNoTrace env s call (s.incoming call n) := by
  rw [unchanged_transactCopyIn all, reg_route_eq_iff]

end Refused

/-- A refused request leaves everything as it was exactly when the choice of its target leaves no
trace. -/
theorem refused_unchanged_iff {t : Tid} {call : Call} {env : Env} {s : State} {n : Nat}
    {own : List (State × State)} {e : Int} (h : Refused t call env s n own e) :
    (∀ ab ∈ own, Unchanged ab.1 ab.2) ↔ LeavesNoTrace env s call (s.incoming call n) := by
  cases h with
  | routed h phase all hs returns =>
    obtain rfl := step_copyIn phase hs
    rw [← unchanged_iff_leavesNoTrace all (t := t)]
    constructor
    · intro hown
      exact hown _ (mem_append_right _ (mem_singleton_self _))
    · intro hlast ab hab
      rcases mem_append.mp hab with hab | hab
      · exact h.unchanged ab hab
      · rw [mem_singleton] at hab
        subst hab
        exact hlast
  | noMemory h phase all hs between hu =>
    obtain rfl := step_copyIn phase hs
    obtain rfl := step_noMemory hu
    rw [← unchanged_iff_leavesNoTrace all (t := t)]
    constructor
    · intro hown
      exact hown _ (mem_append_right _ (mem_cons_self ..))
    · intro hlast ab hab
      rcases mem_append.mp hab with hab | hab
      · exact h.unchanged ab hab
      · rcases mem_cons.mp hab with rfl | hab
        · exact hlast
        · rw [mem_singleton] at hab
          subst hab
          exact ⟨rfl, rfl, rfl, rfl, rfl⟩

section Example

variable {s : State}

theorem incoming_zero (call : Call) : s.incoming call 0 = call.umsg.stamp call.cred := by
  rw [incoming, Msg.codec.fetch_of_agree]
  exact (Buffer.Agree.zero _ _).blit

def deviceOpen : State := ({} : State).binderOpen 1 0 ⟨1, 0, fun _ => 0⟩

def requestOf (code : UInt32) : Call :=
  ⟨0, ⟨1, 0, fun _ => 0⟩,
    { code, dataSize := 2, data := fun i => if i = 0 then 0x61 else 0 }, false⟩

def awaiting (code : UInt32) : State := deviceOpen.setPhase 1 (.copyIn (requestOf code) 0)

theorem refused_requestOf (code : UInt32) :
    Refused 1 (requestOf code) permissive (awaiting code) 0
      [(deviceOpen, awaiting code), (awaiting code,
        (awaiting code).transactCopyIn permissive 1 (requestOf code) 0 msgSize)]
          (-econnrefused) := by
  have hcalls : step deviceOpen ⟨permissive, 1, .ioctl 0 (requestOf code).cred
      (.transact (requestOf code).umsg (requestOf code).thenRecv)⟩ = some (awaiting code) := rfl
  have hunder : Underway 1 (requestOf code) [(deviceOpen, awaiting code)] (awaiting code) :=
    .begun rfl hcalls
  refine .routed (k := msgSize) hunder rfl (Nat.le_add_left ..) rfl ?_
  refine log_transactCopyIn (Nat.le_add_left ..) ?_
  rw [incoming_zero]
  refine target_of_no_manager rfl ?_
  unfold serviceManagerCheck
  split_ifs <;> rfl

theorem cstr_single (hb : b ≠ 0) : cstr (fun i : Fin (n + 2) => if i = 0 then b else 0) = [b] := by
  rw [cstr, ofFn_succ, ofFn_succ, takeWhile_cons_of_pos (by simpa using hb),
    takeWhile_cons_of_neg (by simp)]
  rfl

theorem not_leavesNoTrace_add : ¬ LeavesNoTrace permissive (awaiting svcMgrAddService)
    (requestOf svcMgrAddService)
    ((awaiting svcMgrAddService).incoming (requestOf svcMgrAddService) 0) := by
  have hadds : addsService permissive (requestOf svcMgrAddService).cred
      ((requestOf svcMgrAddService).umsg.stamp (requestOf svcMgrAddService).cred) :=
    ⟨rfl, rfl, by decide, rfl⟩
  rw [incoming_zero]
  intro htrace
  have h := htrace.registers hadds
  have hname : cstr ((requestOf svcMgrAddService).umsg.stamp
      (requestOf svcMgrAddService).cred).data = [0x61] := cstr_single (n := 2046) (by decide)
  rw [hname] at h
  exact (h 0 (by decide)).1 (by decide)

theorem leavesNoTrace_check : LeavesNoTrace permissive (awaiting svcMgrCheckService)
    (requestOf svcMgrCheckService)
    ((awaiting svcMgrCheckService).incoming (requestOf svcMgrCheckService) 0) := by
  have hadds : ¬ addsService permissive (requestOf svcMgrCheckService).cred
      ((requestOf svcMgrCheckService).umsg.stamp (requestOf svcMgrCheckService).cred) :=
    fun h => absurd h.2.1 (by decide)
  rw [incoming_zero]
  exact ⟨fun h => absurd h hadds, fun h => absurd rfl h⟩

theorem not_unchanged_add : ¬ Unchanged (awaiting svcMgrAddService)
    ((awaiting svcMgrAddService).transactCopyIn permissive 1 (requestOf svcMgrAddService) 0
      msgSize) := by
  intro h
  exact not_leavesNoTrace_add ((unchanged_iff_leavesNoTrace (Nat.le_add_left ..)).mp h)

theorem not_all_unchanged (h : ¬ Unchanged c d) :
    ¬ ∀ ab ∈ [(a, b), (c, d)], Unchanged ab.1 ab.2 :=
  fun hall => h (hall (c, d) (by simp))

end Example

/-- A refused question for a service leaves everything as it was. -/
theorem refused_check_unchanged : ∃ own, Refused 1 (requestOf svcMgrCheckService) permissive
    (awaiting svcMgrCheckService) 0 own (-econnrefused) ∧ ∀ ab ∈ own, Unchanged ab.1 ab.2 :=
  ⟨_, refused_requestOf _, (refused_unchanged_iff (refused_requestOf _)).mpr leavesNoTrace_check⟩

/-- A refused registration has registered the service. -/
theorem refused_add_registers : ∃ own, Refused 1 (requestOf svcMgrAddService) permissive
    (awaiting svcMgrAddService) 0 own (-econnrefused) ∧ ¬ ∀ ab ∈ own, Unchanged ab.1 ab.2 := by
  exact ⟨_, refused_requestOf _, not_all_unchanged not_unchanged_add⟩

end Six.Binder
