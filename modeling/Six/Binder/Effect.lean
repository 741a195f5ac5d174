import Six.Binder.Authentic

/-! What the steps of the driver do to the services and to the slots in use. -/

namespace Six.Binder

open Six.Lib Errno State Function Option Registry

namespace Registry

variable {r : Registry} {i j : Fin 32} {name : List UInt8} {p : Slot}

def place (r : Registry) (name : List UInt8) : Option (Fin 32) :=
  if name = [] then none
  else (r.findSvcByName name).or ((List.finRange 32).find? fun i => !(r.svcs i).inUse)

def entry (r : Registry) (name : List UInt8) (i : Fin 32) : SvcEntry :=
  if r.findSvcByName name = none then
    { inUse := true, handle := r.nextSvcHandle, name := clip name, descriptor := defaultDescriptor }
  else r.svcs i

theorem findSvcByName_eq_some (h : r.findSvcByName name = some i) :
    (r.svcs i).inUse = true ∧ (r.svcs i).name = name := by
  unfold findSvcByName at h
  split at h
  · cases h
  · have hat := List.find?_some h
    rw [Bool.and_eq_true, beq_iff_eq] at hat
    exact hat

theorem findSvcByName_eq_none (hname : name ≠ []) (h : r.findSvcByName name = none)
    (hi : (r.svcs i).inUse = true) : (r.svcs i).name ≠ name := by
  rw [findSvcByName, if_neg hname, List.find?_eq_none] at h
  have hat := h i (List.mem_finRange i)
  rw [hi, Bool.true_and, beq_iff_eq] at hat
  exact hat

theorem place_ne_nil (h : r.place name = some i) : name ≠ [] := by
  rintro rfl
  rw [place, if_pos rfl] at h
  cases h

theorem place_of_found (h : r.place name = some i) (hfound : r.findSvcByName name = some j) :
    i = j := by
  rw [place, if_neg (place_ne_nil h), hfound, some_or] at h
  exact (some.inj h).symm

theorem registerService_eq (proc : Proc) (descriptor : List UInt8) (cred : Cred) :
    (r.registerService p proc name descriptor cred).1 = match r.place name with
      | none => r
      | some i =>
        { r.setSvc i (reregistered (r.entry name i) p proc descriptor cred) with
          nextSvcHandle :=
            if r.findSvcByName name = none then r.nextSvcHandle + 1 else r.nextSvcHandle } := by
  unfold registerService place entry
  by_cases hname : name = []
  · rw [if_pos hname, if_pos hname]
  · rw [if_neg hname, if_neg hname]
    cases hfind : r.findSvcByName name with
    | some i =>
      simp only [some_or, reduceCtorEq, if_false]
      rfl
    | none =>
      simp only [none_or, if_true]
      cases (List.finRange 32).find? fun i => !(r.svcs i).inUse <;> rfl

end Registry

section Keeps

variable {s s' : State} {t : Tid} {p : Slot} {n k : Nat} {call : Call} {copied : Nat}
  {env : Env} {cred : Cred} {user : Buffer}

theorem keeps_transactCreate : Keeps s (s.transactCreate t call p) := by
  have queued : Keeps s (s.enqueueTxn call p) := ⟨rfl, enqueueTxn_inUse⟩
  unfold transactCreate
  split
  · exact { queued with }
  · split
    · exact { queued with }
    · exact (queued.trans (mild_abandonTxn (t := t)).keeps).ret

theorem keeps_popTxn : Keeps s (s.popTxn p n) := ⟨rfl, proj_update (by rfl)⟩

theorem keeps_handOver : Keeps s (s.handOver p n txn) := by
  unfold handOver
  split
  · exact { Keeps.refl s with }
  · exact keeps_setProc rfl

theorem keeps_recvCopyOut (hs : s.recvCopyOut t p n copied user k = some s') : Keeps s s' := by
  obtain ⟨txn, -, rfl⟩ := map_eq_some_iff.mp hs
  have taken : Keeps s (s.handOver p n txn) := keeps_handOver
  dsimp only
  split
  · exact { Keeps.refl s with }
  · exact { taken with }

theorem keeps_recv (hs : s.recv t p mode k = some s') : Keeps s s' := by
  unfold recv at hs
  split at hs
  · cases mode with
    | blocking => cases hs
    | _ => cases hs; exact (Keeps.refl s).ret
  · exact keeps_popTxn.trans (keeps_recvCopyOut hs)

theorem keeps_waitCopyEvent : Keeps s (s.waitCopyEvent t txn copied user k) := by
  unfold waitCopyEvent
  dsimp only
  split <;> exact { Keeps.refl s with }

theorem keeps_takeUevent : Keeps s (s.takeUevent p) := ⟨rfl, proj_update (by rfl)⟩

theorem keeps_waitEvent (hs : s.waitEvent t p k = some s') : Keeps s s' := by
  have filled : ∀ (s : State) b, Keeps s { s with wev := b } := fun s _ => { Keeps.refl s with }
  unfold waitEvent at hs
  split at hs
  · cases hs
    exact (keeps_takeUevent.trans (filled _ _)).trans keeps_waitCopyEvent
  · split at hs
    · cases hs
    · rename_i n rest _
      obtain ⟨txn, -, rfl⟩ := map_eq_some_iff.mp hs
      have taken : Keeps s ((s.popTxn p n).handOver p n txn) :=
        keeps_popTxn.trans keeps_handOver
      exact (taken.trans (filled _ _)).trans keeps_waitCopyEvent

theorem keeps_ueventEmit : Keeps s (s.ueventEmit env t kev) := by
  unfold ueventEmit
  split
  · exact (Keeps.refl s).ret
  · exact { Keeps.refl s with }

theorem keeps_ueventPoll : Keeps s (s.ueventPoll t p) := by
  unfold ueventPoll
  split
  · exact (Keeps.refl s).ret
  · have taken : Keeps s (s.takeUevent p) := keeps_takeUevent
    exact { taken with }

theorem keeps_binderIoctl {f : Fid} : Keeps s (s.binderIoctl env t f cred cmd) := by
  unfold binderIoctl
  split
  · exact (Keeps.refl s).ret
  · rename_i p hf
    cases cmd with
    | setContextMgr => exact (mild_setContextMgr (t := t)).keeps
    | lookupSvc handle name descriptor => exact (mild_lookupSvc (t := t)).keeps
    | ueventEmit kev => exact keeps_ueventEmit
    | ueventPoll => exact keeps_ueventPoll
    | _ => exact { Keeps.refl s with }

end Keeps

structure Registration where
  sender : Slot
  cred : Cred
  name : List UInt8
  descriptor : List UInt8

/-- The message in the hands of `binder_do_transact` once the copy from user memory, which has come
to `copied`, is complete. -/
def State.incoming (s : State) (call : Call) (copied : Nat) : Msg :=
  (Msg.codec.fetch (s.kmsg.blit (Msg.codec.store call.umsg) copied msgSize)).stamp call.cred

def addsService (env : Env) (cred : Cred) (m : Msg) : Prop :=
  m.targetHandle = 0 ∧ m.code = svcMgrAddService ∧ 0 < m.dataSize ∧
    env.serviceCheck cred (cstr m.data) .add = 0

instance (env : Env) (cred : Cred) (m : Msg) : Decidable (addsService env cred m) :=
  inferInstanceAs (Decidable (_ ∧ _))

def registration (s : State) (l : Label) : Option Registration :=
  match l.act, s.tasks l.tid with
  | .go _, .copyInfo p cred name descriptor =>
    if l.env.serviceCheck cred (infoName name descriptor) .add = 0 ∧
        s.managerCheck l.env p cred = 0 then
      some ⟨p, cred, infoName name descriptor, cstr descriptor⟩
    else none
  | .go k, .copyIn call copied =>
    let m := s.incoming call copied
    if msgSize ≤ copied + k ∧ addsService l.env call.cred m then
      some ⟨call.sender, call.cred, cstr m.data, cstr m.interfaceToken⟩
    else none
  | _, _ => none

def State.registered (s : State) (a : Registration) : Registry :=
  (s.reg.registerService a.sender (s.procs a.sender) a.name a.descriptor a.cred).1

inductive Effect (s : State) (l : Label) (s' : State) : Prop
  | kept (none : registration s l = none) (keeps : Keeps s s')
  | counted (none : registration s l = none) (i : Fin 32)
      (reg : s'.reg = s.reg.setSvc i
        { s.reg.svcs i with txnCount := (s.reg.svcs i).txnCount + 1 })
      (inUse : ∀ p, (s'.procs p).inUse = (s.procs p).inUse)
  | registered (a : Registration) (some : registration s l = some a)
      (reg : s'.reg = s.registered a) (inUse : ∀ p, (s'.procs p).inUse = (s.procs p).inUse)
  | opened (none : registration s l = none) (reg : s'.reg = s.reg)
      (inUse : ∀ p, (s.procs p).inUse = true → (s'.procs p).inUse = true)
  | released (none : registration s l = none) (p : Slot) (reg : s'.reg = s.reg.unbind p)
      (inUse : ∀ q, q ≠ p → (s'.procs q).inUse = (s.procs q).inUse)

section Effect

variable {s s' : State} {l : Label} {t : Tid} {p : Slot} {k copied : Nat} {call : Call} {env : Env}
  {phase : Phase} {cred : Cred}

theorem transactCopyIn_of_lt (h : copied + k < msgSize) : s.transactCopyIn env t call copied k =
    ({ s with kmsg := s.kmsg.blit (Msg.codec.store call.umsg) copied (copied + k) }).setPhase t
      (.copyIn call (copied + k)) := by
  unfold transactCopyIn
  rw [Nat.min_eq_left (Nat.le_of_lt h), if_pos h]

theorem transactCopyIn_of_le (h : msgSize ≤ copied + k) : s.transactCopyIn env t call copied k =
    ({ s with kmsg := s.kmsg.blit (Msg.codec.store call.umsg) copied msgSize }).transactCopied env t
      call := by
  unfold transactCopyIn
  rw [Nat.min_eq_right h, if_neg (Nat.lt_irrefl _)]

theorem transactCopyIn_eq (s : State) (env : Env) (t : Tid) (call : Call)
    (h : msgSize ≤ copied + k) :
    ∃ kmsg tasks log, s.transactCopyIn env t call copied k =
      { s with kmsg, tasks, log, reg := (route env s.procs call.sender call.cred s.reg s.contextMgr
        (s.incoming call copied)).reg } := by
  rw [transactCopyIn_of_le h]
  unfold transactCopied
  dsimp only
  split <;> exact ⟨_, _, _, rfl⟩

theorem reg_transactCopyIn (h : msgSize ≤ copied + k) :
    (s.transactCopyIn env t call copied k).reg =
      (route env s.procs call.sender call.cred s.reg s.contextMgr
        (s.incoming call copied)).reg := by
  obtain ⟨_, _, _, heq⟩ := transactCopyIn_eq s env t call h
  rw [heq]

theorem procs_transactCopyIn : (s.transactCopyIn env t call copied k).procs = s.procs := by
  rcases Nat.lt_or_ge (copied + k) msgSize with h | h
  · rw [transactCopyIn_of_lt h]
    rfl
  · obtain ⟨_, _, _, heq⟩ := transactCopyIn_eq s env t call h
    rw [heq]

theorem registration_copyIn (hact : l.act = .go k) (ht : s.tasks l.tid = .copyIn call copied) :
    registration s l =
      if msgSize ≤ copied + k ∧ addsService l.env call.cred (s.incoming call copied) then
        some ⟨call.sender, call.cred, cstr (s.incoming call copied).data,
          cstr (s.incoming call copied).interfaceToken⟩ else none := by
  unfold registration
  rw [hact, ht]

theorem reg_route {procs : Slot → Proc} {reg : Registry} {contextMgr : Option Slot}
    (m : Msg) : (route env procs sender cred reg contextMgr m).reg = if addsService env cred m then
        (reg.registerService sender (procs sender) (cstr m.data) (cstr m.interfaceToken) cred).1
      else if m.targetHandle = 0 then reg else match reg.findSvcByHandle m.targetHandle with
        | none => reg
        | some i => reg.setSvc i { reg.svcs i with txnCount := (reg.svcs i).txnCount + 1 } := by
  unfold route
  by_cases hhandle : m.targetHandle = 0
  · rw [if_pos hhandle]
    by_cases hadd : m.code = svcMgrAddService ∧ 0 < m.dataSize
    · have hcheck : serviceManagerCheck env cred m = env.serviceCheck cred (cstr m.data) .add :=
        if_pos hadd
      by_cases hok : env.serviceCheck cred (cstr m.data) .add = 0
      · have hadds : addsService env cred m := ⟨hhandle, hadd.1, hadd.2, hok⟩
        rw [if_neg (by rw [hcheck]; exact not_not.mpr hok), if_pos hadds]
        simp only [serviceManagerCall, if_pos hadd]
      · have hadds : ¬ addsService env cred m := fun h => hok h.2.2.2
        rw [if_pos (by rw [hcheck]; exact hok), if_neg hadds, if_pos hhandle]
    · have hadds : ¬ addsService env cred m := fun h => hadd ⟨h.2.1, h.2.2.1⟩
      rw [if_neg hadds, if_pos hhandle]
      split
      · rfl
      · simp only [serviceManagerCall, if_neg hadd]
  · have hadds : ¬ addsService env cred m := fun h => hhandle h.1
    rw [if_neg hhandle, if_neg hadds, if_neg hhandle]
    cases reg.findSvcByHandle m.targetHandle <;> rfl

theorem effect_transactCopyIn (hact : l.act = .go k) (ht : s.tasks l.tid = .copyIn call copied) :
    Effect s l (s.transactCopyIn l.env l.tid call copied k) := by
  have hreg := registration_copyIn hact ht
  have inUse : ∀ p, ((s.transactCopyIn l.env l.tid call copied k).procs p).inUse =
      (s.procs p).inUse := fun p => by rw [procs_transactCopyIn]
  by_cases hall : msgSize ≤ copied + k
  · have hroute : (s.transactCopyIn l.env l.tid call copied k).reg = _ := reg_transactCopyIn hall
    rw [reg_route] at hroute
    generalize s.incoming call copied = m at hreg hroute
    by_cases hadds : addsService l.env call.cred m
    · rw [if_pos ⟨hall, hadds⟩] at hreg
      rw [if_pos hadds] at hroute
      refine .registered _ hreg ?_ inUse
      rw [hroute, registered]
    · rw [if_neg (fun h => hadds h.2)] at hreg
      rw [if_neg hadds] at hroute
      split at hroute
      · exact .kept hreg ⟨hroute, inUse⟩
      · split at hroute
        · exact .kept hreg ⟨hroute, inUse⟩
        · exact .counted hreg _ hroute inUse
  · rw [if_neg (fun h => hall h.1)] at hreg
    rw [transactCopyIn_of_lt (by omega)]
    exact .kept hreg ({ Keeps.refl s with })

theorem effect_registerSvc (hact : l.act = .go k)
    (ht : s.tasks l.tid = .copyInfo p cred name descriptor) :
    Effect s l (s.registerSvc l.env l.tid p cred name descriptor) := by
  have hreg : registration s l =
      if l.env.serviceCheck cred (infoName name descriptor) .add = 0 ∧
          s.managerCheck l.env p cred = 0 then
        some ⟨p, cred, infoName name descriptor, cstr descriptor⟩
      else none := by
    unfold registration
    rw [hact, ht]
  unfold registerSvc
  by_cases hcheck : l.env.serviceCheck cred (infoName name descriptor) .add = 0
  · rw [if_neg (not_not.mpr hcheck)]
    by_cases hmanager : s.managerCheck l.env p cred = 0
    · rw [if_neg (not_not.mpr hmanager)]
      rw [if_pos ⟨hcheck, hmanager⟩] at hreg
      exact .registered _ hreg rfl fun _ => rfl
    · rw [if_pos hmanager]
      rw [if_neg (fun h => hmanager h.2)] at hreg
      exact .kept hreg (Keeps.refl s).ret
  · rw [if_pos hcheck]
    rw [if_neg (fun h => hcheck h.1)] at hreg
    exact .kept hreg (Keeps.refl s).ret

theorem registration_eq_none (hinfo : ∀ k p cred name descriptor, l.act = .go k →
      s.tasks l.tid ≠ .copyInfo p cred name descriptor)
    (hcopy : ∀ k call copied, l.act = .go k → s.tasks l.tid ≠ .copyIn call copied) :
    registration s l = none := by
  unfold registration
  split
  · rename_i k p cred name descriptor hact ht
    exact absurd ht (hinfo k p cred name descriptor hact)
  · rename_i k call copied hact ht
    exact absurd ht (hcopy k call copied hact)
  · rfl

theorem Effect.of_phase (ht : s.tasks l.tid = phase)
    (hinfo : ∀ p cred name descriptor, phase ≠ .copyInfo p cred name descriptor)
    (hcopy : ∀ call copied, phase ≠ .copyIn call copied) (hkeeps : Keeps s s') : Effect s l s' := by
  subst ht
  refine .kept (registration_eq_none ?_ fun _ call copied _ => hcopy call copied) hkeeps
  exact fun _ p cred name descriptor _ => hinfo p cred name descriptor

theorem registration_of_act (hact : ∀ k, l.act ≠ .go k) : registration s l = none :=
  registration_eq_none (fun k _ _ _ _ h => absurd h (hact k)) fun k _ _ h => absurd h (hact k)

theorem effect_resume (hact : l.act = .go k) (ht : s.tasks l.tid = phase)
    (hs : s.resume l.env l.tid k phase = some s') : Effect s l s' := by
  cases phase with
  | copyIn call copied =>
    cases hs
    exact effect_transactCopyIn hact ht
  | copyInfo p cred name descriptor =>
    cases hs
    exact effect_registerSvc hact ht
  | copyBack call copied =>
    cases hs
    exact .of_phase ht nofun nofun (mild_transactCopyBack (t := l.tid)).keeps
  | asleep call n => exact .of_phase ht nofun nofun (mild_transactWake hs).keeps
  | copyReply call n copied =>
    exact .of_phase ht nofun nofun (mild_transactCopyReply hs).keeps
  | receiving p mode => exact .of_phase ht nofun nofun (keeps_recv hs)
  | copyOut p n copied user =>
    exact .of_phase ht nofun nofun (keeps_recvCopyOut hs)
  | waiting p => exact .of_phase ht nofun nofun (keeps_waitEvent hs)
  | copyEvent txn copied user =>
    cases hs
    exact .of_phase ht nofun nofun keeps_waitCopyEvent
  | copyAnswer p umsg copied =>
    cases hs
    exact .of_phase ht nofun nofun (mild_replyCopyIn (t := l.tid)).keeps
  | _ => cases hs

theorem effect_of_step (hs : step s l = some s') : Effect s l s' := by
  obtain ⟨k, hact, hs⟩ | ⟨hact, -, hs⟩ := step_cases hs
  · exact effect_resume hact rfl hs
  have hnone : registration s l = none := registration_of_act hact
  obtain ⟨f, cred, -, rfl⟩ | ⟨f, -, rfl⟩ | ⟨f, cred, cmd, -, rfl⟩ |
    ⟨-, ⟨call, p, -, rfl⟩ | ⟨err, rfl⟩⟩ := hs
  · unfold binderOpen
    split
    · exact .kept hnone (Keeps.refl s).ret
    · rename_i p hp
      refine .opened hnone rfl fun q hq => ?_
      show ((update s.procs p _) q).inUse = true
      rw [update_apply]
      split
      · rfl
      · exact hq
  · unfold binderRelease
    split
    · exact .kept hnone (.refl s)
    · rename_i p hp
      refine .released hnone p rfl fun q hq => ?_
      show ((update s.procs p _) q).inUse = _
      rw [update_of_ne hq]
  · exact .kept hnone keeps_binderIoctl
  · exact .kept hnone keeps_transactCreate
  · exact .kept hnone (Keeps.refl s).ret

def written (s : State) (l : Label) : Option (Registration × Fin 32) :=
  (registration s l).bind fun a => (s.reg.place a.name).map fun i => (a, i)

/-- The services are at most those of before, with the same names, handles and owners, and no owner
that is left goes away. -/
structure NoMore (s s' : State) : Prop where
  inUse : ∀ i, (s'.reg.svcs i).inUse = true → (s.reg.svcs i).inUse = true
  name : ∀ i, (s'.reg.svcs i).name = (s.reg.svcs i).name
  handle : ∀ i, (s'.reg.svcs i).handle = (s.reg.svcs i).handle
  owner : ∀ i, (s'.reg.svcs i).inUse = true →
    (s'.reg.svcs i).ownerProc = (s.reg.svcs i).ownerProc
  live : ∀ i p, (s'.reg.svcs i).inUse = true → (s'.reg.svcs i).ownerProc = some p →
    (s.procs p).inUse = true → (s'.procs p).inUse = true
  next : s'.reg.nextSvcHandle = s.reg.nextSvcHandle

theorem noMore_of_reg (reg : s'.reg = s.reg)
    (inUse : ∀ p, (s.procs p).inUse = true → (s'.procs p).inUse = true) : NoMore s s' where
  inUse i hi := by rw [← reg]; exact hi
  name i := by rw [reg]
  handle i := by rw [reg]
  owner i _ := by rw [reg]
  live _ p _ _ := inUse p
  next := by rw [reg]

theorem noMore_counted
    (reg : s'.reg = s.reg.setSvc i { s.reg.svcs i with txnCount := (s.reg.svcs i).txnCount + 1 })
    (inUse : ∀ p, (s'.procs p).inUse = (s.procs p).inUse) : NoMore s s' := by
  have hsvcs : s'.reg.svcs = update s.reg.svcs i _ := congrArg svcs reg
  refine ⟨fun j hj => ?_, fun j => ?_, fun j => ?_, fun j _ => ?_, fun j p _ _ hp => ?_, ?_⟩
  · rw [hsvcs] at hj
    exact (proj_update (g := SvcEntry.inUse) (by rfl) j).symm.trans hj
  · rw [hsvcs]
    exact proj_update (by rfl) j
  · rw [hsvcs]
    exact proj_update (by rfl) j
  · rw [hsvcs]
    exact proj_update (by rfl) j
  · rw [inUse]
    exact hp
  · rw [reg]
    rfl

theorem noMore_released (reg : s'.reg = s.reg.unbind p)
    (inUse : ∀ q, q ≠ p → (s'.procs q).inUse = (s.procs q).inUse) : NoMore s s' := by
  have hsvc : ∀ j, (s'.reg.svcs j).inUse = true →
      s'.reg.svcs j = s.reg.svcs j ∧ (s.reg.svcs j).ownerProc ≠ some p := by
    intro j hj
    rw [reg, unbind] at hj ⊢
    dsimp only at hj ⊢
    split at hj
    · cases hj
    · rename_i hkept
      rw [if_neg hkept]
      exact ⟨rfl, fun howner => hkept ⟨hj, howner⟩⟩
  refine ⟨fun j hj => ?_, fun j => ?_, fun j => ?_, fun j hj => ?_, fun j q hj hq hlive => ?_, ?_⟩
  · rw [← (hsvc j hj).1]
    exact hj
  · rw [reg, unbind]
    dsimp only
    split <;> rfl
  · rw [reg, unbind]
    dsimp only
    split <;> rfl
  · rw [(hsvc j hj).1]
  · obtain ⟨heq, hother⟩ := hsvc j hj
    rw [heq] at hq
    have hne : q ≠ p := by
      rintro rfl
      exact hother hq
    rw [inUse q hne]
    exact hlive
  · rw [reg]
    rfl

theorem noMore_of_step (hs : step s l = some s') (hw : written s l = none) : NoMore s s' := by
  cases effect_of_step hs with
  | kept _ keeps => exact noMore_of_reg keeps.reg fun p hp => by rw [keeps.inUse]; exact hp
  | counted _ i reg inUse => exact noMore_counted reg inUse
  | registered a ha reg inUse =>
    have hplace : s.reg.place a.name = none := by
      rw [written, ha, bind_some, map_eq_none_iff] at hw
      exact hw
    rw [registered, registerService_eq, hplace] at reg
    exact noMore_of_reg reg fun p hp => by rw [inUse]; exact hp
  | opened _ reg inUse => exact noMore_of_reg reg inUse
  | released _ p reg inUse => exact noMore_released reg inUse

theorem reg_of_written (hs : step s l = some s') (hw : written s l = some (a, i)) :
    s.reg.place a.name = some i ∧ (∀ p, (s'.procs p).inUse = (s.procs p).inUse) ∧
      s'.reg = { s.reg.setSvc i (reregistered (s.reg.entry a.name i) a.sender
          (s.procs a.sender) a.descriptor a.cred) with
        nextSvcHandle := if s.reg.findSvcByName a.name = none then s.reg.nextSvcHandle + 1
          else s.reg.nextSvcHandle } := by
  obtain ⟨b, hb, hplace⟩ := bind_eq_some_iff.mp hw
  obtain ⟨j, hj, heq⟩ := map_eq_some_iff.mp hplace
  obtain ⟨rfl, rfl⟩ := Prod.mk.inj heq
  have hnot : registration s l ≠ none := by rw [hb]; exact some_ne_none _
  cases effect_of_step hs with
  | kept hnone | counted hnone | opened hnone | released hnone => exact absurd hnone hnot
  | registered c hc reg inUse =>
    obtain rfl : c = b := some.inj (hc.symm.trans hb)
    rw [registered, registerService_eq, hj] at reg
    exact ⟨hj, inUse, reg⟩

end Effect

end Six.Binder
