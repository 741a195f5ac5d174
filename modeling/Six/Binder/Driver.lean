import Six.Binder.Message
import Six.Lib.Run

/-! The binder driver as a state machine.  The kernel is not preemptive, so a process runs until it
sleeps: in a copy from or to user memory, which can fault at any byte, in `kmalloc(GFP_KERNEL)`, or
on a wait queue.  A step lets one process run from one such point to the next.  Transactions are
named by the number of transactions created before them.  The log records what happens to each of
them; no function of the driver reads it.  `verify_area` is taken to succeed. -/

namespace Six.Binder

open Six.Lib Errno Function

abbrev Slot := Fin 32

abbrev Tid := Nat

abbrev Fid := Nat

/-- `struct binder_txn`.  The only process that sleeps on its `reply_wait` is its caller. -/
structure Txn where
  txnId : UInt32
  sender : Slot
  target : Slot
  msg : Msg
  done : Bool := false
  delivered : Bool := false

/-- `struct binder_proc`, with `todo` and `in_flight` as the lists that they head. -/
structure Proc where
  inUse : Bool := false
  pid : Int32 := 0
  uid : Int32 := 0
  isContextMgr : Bool := false
  lastUeventSeq : UInt32 := 0
  todo : List Nat := []
  inFlight : List Nat := []

inductive ServicePerm
  | add
  | find
  | list

/-- What other parts of the kernel answer during one step: the three checks of the security module,
with 0 for yes, and the record that `BINDER_IOC_UEVENT_EMIT` makes of its caller's for a sequence
number, if it emits one.  `binderTransaction` takes the pid of the target and answers 0 when no such
process is left. -/
structure Env where
  serviceCheck : Cred → List UInt8 → ServicePerm → Int
  binderTransaction : Cred → Int32 → Int
  setContextMgr : Cred → Int
  emitted : UInt32 → Uevent → Option Uevent

def cstr {n : Nat} (a : Fin n → UInt8) : List UInt8 := (List.ofFn a).takeWhile (· != 0)

/-- `strncpy` into an array of 64 with a NUL at the end. -/
def clip (text : List UInt8) : List UInt8 := text.take 63

structure SvcEntry where
  inUse : Bool := false
  handle : Int32 := 0
  ownerPid : Int32 := 0
  ownerUid : Int32 := 0
  ownerSecontext : List UInt8 := []
  ownerProc : Option Slot := none
  txnCount : UInt32 := 0
  name : List UInt8 := []
  descriptor : List UInt8 := []

structure Registry where
  svcs : Fin 32 → SvcEntry := fun _ => {}
  nextSvcHandle : Int32 := 1

namespace Registry

def findSvcByName (r : Registry) (name : List UInt8) : Option (Fin 32) :=
  if name = [] then none
  else (List.finRange 32).find? fun i => (r.svcs i).inUse && (r.svcs i).name == name

def findSvcByHandle (r : Registry) (handle : Int32) : Option (Fin 32) :=
  if handle ≤ 0 then none
  else (List.finRange 32).find? fun i => (r.svcs i).inUse && (r.svcs i).handle == handle

def setSvc (r : Registry) (i : Fin 32) (e : SvcEntry) : Registry :=
  { r with svcs := update r.svcs i e }

def defaultDescriptor : List UInt8 :=
  "android.os.IBinder".toList.map fun c => UInt8.ofNat c.toNat

def reregistered (e : SvcEntry) (p : Slot) (proc : Proc) (descriptor : List UInt8) (cred : Cred) :
    SvcEntry :=
  { e with
    ownerPid := if cred.pid ≠ 0 then cred.pid else proc.pid
    ownerUid := if cred.euid ≠ 0 then cred.euid else proc.uid
    ownerSecontext := clip (cstr cred.secontext)
    ownerProc := some p
    descriptor := if descriptor ≠ [] then clip descriptor else e.descriptor }

/-- `binder_register_service_internal`, which the driver calls with the caller's own slot, pid and
euid. -/
def registerService (r : Registry) (p : Slot) (proc : Proc) (name descriptor : List UInt8)
    (cred : Cred) : Registry × Int :=
  if name = [] then (r, -einval)
  else
    match r.findSvcByName name with
    | some i =>
      (r.setSvc i (reregistered (r.svcs i) p proc descriptor cred), (r.svcs i).handle.toInt)
    | none =>
      match (List.finRange 32).find? fun i => !(r.svcs i).inUse with
      | none => (r, -enomem)
      | some i =>
        let blank : SvcEntry :=
          { inUse := true, handle := r.nextSvcHandle, name := clip name,
            descriptor := defaultDescriptor }
        ({ r.setSvc i (reregistered blank p proc descriptor cred) with
            nextSvcHandle := r.nextSvcHandle + 1 }, r.nextSvcHandle.toInt)

def unbind (r : Registry) (p : Slot) : Registry :=
  { r with
    svcs := fun i =>
      if (r.svcs i).inUse ∧ (r.svcs i).ownerProc = some p then
        { r.svcs i with inUse := false, ownerProc := none }
      else r.svcs i }

end Registry

/-- What `binder_do_transact` has before it allocates: the services, the message in its buffer, and
the slot of the target or the error. -/
structure Routed where
  reg : Registry
  msg : Msg
  target : Except Int Slot

section Route

variable (env : Env) (procs : Slot → Proc) (sender : Slot) (cred : Cred)

def allowed (m : Msg) : Option Slot → Except Int Slot
  | none => .error (-econnrefused)
  | some p =>
    if !(procs p).inUse then .error (-econnrefused)
    else if p = sender ∧ !m.oneWay then .error (-edeadlk)
    else if env.binderTransaction cred (procs p).pid ≠ 0 then
      .error (env.binderTransaction cred (procs p).pid)
    else .ok p

def svcMgrGetService : UInt32 := 1
def svcMgrCheckService : UInt32 := 2
def svcMgrAddService : UInt32 := 3
def svcMgrListServices : UInt32 := 4

def serviceManagerCheck (m : Msg) : Int :=
  if m.code = svcMgrAddService ∧ 0 < m.dataSize then env.serviceCheck cred (cstr m.data) .add
  else if (m.code = svcMgrGetService ∨ m.code = svcMgrCheckService) ∧ 0 < m.dataSize then
    env.serviceCheck cred (cstr m.data) .find
  else if m.code = svcMgrListServices then env.serviceCheck cred [42] .list
  else 0

/-- A call of the service manager that the check lets through registers the service it adds. -/
def serviceManagerCall (reg : Registry) (m : Msg) : Registry × Msg :=
  if m.code = svcMgrAddService ∧ 0 < m.dataSize then
    let r := reg.registerService sender (procs sender) (cstr m.data) (cstr m.interfaceToken) cred
    (r.1, if 0 < r.2 then { m with replyHandle := Int32.ofInt r.2 } else m)
  else (reg, m)

def findProcByPid (pid : Int32) : Option Slot :=
  (List.finRange 32).find? fun p => (procs p).inUse && (procs p).pid == pid

def ownerOf (e : SvcEntry) : Option Slot :=
  match e.ownerProc with
  | some p => some p
  | none => if 0 < e.ownerPid then findProcByPid procs e.ownerPid else none

def route (reg : Registry) (contextMgr : Option Slot) (m : Msg) : Routed :=
  if m.targetHandle = 0 then
    if serviceManagerCheck env cred m ≠ 0 then ⟨reg, m, .error (serviceManagerCheck env cred m)⟩
    else
      let r := serviceManagerCall procs sender cred reg m
      ⟨r.1, r.2, allowed env procs sender cred r.2 contextMgr⟩
  else
    match reg.findSvcByHandle m.targetHandle with
    | none => ⟨reg, m, .error (-enoent)⟩
    | some i =>
      let e := reg.svcs i
      ⟨reg.setSvc i { e with txnCount := e.txnCount + 1 }, m,
        allowed env procs sender cred m (ownerOf procs e)⟩

end Route

/-- A call of `binder_do_transact`: the slot of the file, the identity of the process, the message
in its memory, and whether the call is the write half of a `BINDER_WRITE_READ` that also reads. -/
structure Call where
  sender : Slot
  cred : Cred
  umsg : Msg
  thenRecv : Bool := false

inductive RecvMode
  | blocking
  | nonblock
  | writeRead
deriving DecidableEq

/-- Where a process stands.  Each phase but the first is inside one `ioctl`, at a point where the
process can be suspended; `copied` counts the bytes that its copy has moved. -/
inductive Phase
  | idle
  /-- `memcpy_fromfs(&kmsg, umsg)` of `binder_do_transact` -/
  | copyIn (call : Call) (copied : Nat)
  | kmalloc (call : Call) (target : Slot)
  /-- `memcpy_tofs(umsg, &kmsg)` after a one-way transaction was queued -/
  | copyBack (call : Call) (copied : Nat)
  /-- `sleep_on(&txn->reply_wait)` -/
  | asleep (call : Call) (txn : Nat)
  /-- `memcpy_tofs(umsg, &txn->msg)` of the caller -/
  | copyReply (call : Call) (txn : Nat) (copied : Nat)
  /-- the loop of `binder_do_recv` -/
  | receiving (proc : Slot) (mode : RecvMode)
  /-- `memcpy_tofs(umsg, &txn->msg)` of `binder_do_recv` -/
  | copyOut (proc : Slot) (txn : Nat) (copied : Nat) (user : Buffer)
  /-- the loop of `BINDER_IOC_WAIT_EVENT` -/
  | waiting (proc : Slot)
  /-- `memcpy_tofs(arg, &wev)`; the transaction is the one that `wev` was filled from -/
  | copyEvent (txn : Option Nat) (copied : Nat) (user : Buffer)
  /-- `memcpy_fromfs(&kmsg, umsg)` of `binder_do_reply` -/
  | copyAnswer (proc : Slot) (umsg : Msg) (copied : Nat)
  /-- `memcpy_fromfs(&info, arg)` of `BINDER_IOC_REGISTER_SVC`; `info` is on the process's stack -/
  | copyInfo (proc : Slot) (cred : Cred) (name descriptor : Fin 64 → UInt8)

inductive Event
  | created (txn : Nat) (target : Slot) (oneWay : Bool) (call : Call)
  | delivered (txn : Nat) (target : Slot)
  /-- the whole message has reached the user memory of a receiver -/
  | received (txn : Nat) (msg : Msg)
  /-- a whole uevent has reached the user memory of a listener -/
  | notified (tid : Tid) (uevent : Uevent)
  | completed (txn : Nat)
  | woken (txn : Nat)
  | freed (txn : Nat)
  /-- `binder_open` has cleared the list that the transaction was on -/
  | lost (txn : Nat)
  | returned (tid : Tid) (err : Int)

/-- The static variables of the driver with the open files and the processes.  `kmsg` and `rmsg`
are the buffers of `binder_do_transact` and `binder_do_reply`. -/
structure State where
  procs : Slot → Proc := fun _ => {}
  files : Fid → Option Slot := fun _ => none
  reg : Registry := {}
  contextMgr : Option Slot := none
  txns : Nat → Option Txn := fun _ => none
  next : Nat := 0
  kmsg : Buffer := fun _ => 0
  rmsg : Buffer := fun _ => 0
  wev : Buffer := fun _ => 0
  ueventRing : Fin 8 → Uevent := fun _ _ => 0
  ueventSeq : UInt32 := 1000
  tasks : Tid → Phase := fun _ => .idle
  log : List Event := []

namespace State

variable (s : State)

def setPhase (t : Tid) (ph : Phase) : State :=
  { s with tasks := update s.tasks t ph }

def setProc (p : Slot) (f : Proc → Proc) : State :=
  { s with procs := update s.procs p (f (s.procs p)) }

def setTxn (n : Nat) (f : Txn → Txn) : State :=
  { s with txns := update s.txns n ((s.txns n).map f) }

def note (es : List Event) : State := { s with log := s.log ++ es }

def ret (t : Tid) (err : Int) : State :=
  (s.setPhase t .idle).note [.returned t err]

def kfree (n : Nat) : State :=
  { s with txns := update s.txns n none }.note [.freed n]

def msgSize : Nat := Msg.codec.width

variable (env : Env)

/-- After the copy from user memory: stamp the identity, find the target and ask for memory. -/
def transactCopied (s : State) (t : Tid) (call : Call) : State :=
  let r := route env s.procs call.sender call.cred s.reg s.contextMgr
    ((Msg.codec.fetch s.kmsg).stamp call.cred)
  let s' := { s with reg := r.reg, kmsg := Msg.codec.store r.msg }
  match r.target with
  | .error e => s'.ret t e
  | .ok p => s'.setPhase t (.kmalloc call p)

def transactCopyIn (s : State) (t : Tid) (call : Call) (copied k : Nat) : State :=
  let upto := min (copied + k) msgSize
  let s' := { s with kmsg := s.kmsg.blit (Msg.codec.store call.umsg) copied upto }
  if upto < msgSize then s'.setPhase t (.copyIn call upto) else s'.transactCopied env t call

def transactReturn (t : Tid) (call : Call) (err : Int) : State :=
  if err = 0 ∧ call.thenRecv then s.setPhase t (.receiving call.sender .writeRead)
  else s.ret t err

def enqueueTxn (call : Call) (target : Slot) : State :=
  let m := { Msg.codec.fetch s.kmsg with txnId := UInt32.ofNat (s.next + 1) }
  { s with
    next := s.next + 1
    kmsg := Msg.codec.store m
    txns := update s.txns s.next
      (some { txnId := m.txnId, sender := call.sender, target, msg := m })
    procs := update s.procs target
      { s.procs target with todo := (s.procs target).todo ++ [s.next] }
    log := s.log ++ [.created s.next target m.oneWay call] }

/-- The target died before its caller slept: the caller takes the transaction back. -/
def abandonTxn (target : Slot) (n : Nat) : State :=
  ((s.setProc target fun p =>
    { p with todo := p.todo.erase n, inFlight := p.inFlight.erase n }).note [.completed n]).kfree n

/-- After `kmalloc`, up to the next point where the caller sleeps. -/
def transactCreate (t : Tid) (call : Call) (target : Slot) : State :=
  let s' := s.enqueueTxn call target
  if (Msg.codec.fetch s.kmsg).oneWay then s'.setPhase t (.copyBack call 0)
  else if (s.procs target).inUse then s'.setPhase t (.asleep call s.next)
  else (s'.abandonTxn target s.next).ret t (-epipe)

def transactCopyBack (t : Tid) (call : Call) (copied k : Nat) : State :=
  if copied + k < msgSize then s.setPhase t (.copyBack call (copied + k))
  else s.transactReturn t call 0

def transactCopyReply (t : Tid) (call : Call) (n copied k : Nat) : Option State :=
  (s.txns n).map fun txn =>
    if copied + k < msgSize then s.setPhase t (.copyReply call n (copied + k))
    else (s.kfree n).transactReturn t call txn.msg.status.toInt

/-- `wake_up` makes the caller look at `done` again; nothing else ends its sleep. -/
def transactWake (t : Tid) (call : Call) (n k : Nat) : Option State :=
  match s.txns n with
  | some txn => if txn.done then s.transactCopyReply t call n 0 k else none
  | none => none

def popTxn (p : Slot) (n : Nat) : State :=
  ((s.setProc p fun proc => { proc with todo := proc.todo.tail }).setTxn n fun txn =>
    { txn with delivered := true }).note [.delivered n p]

def pushInFlight (p : Slot) (n : Nat) : State :=
  s.setProc p fun proc => { proc with inFlight := n :: proc.inFlight }

/-- A transaction that has been handed over: a one-way one is freed, another one waits in
`in_flight` for the reply. -/
def handOver (p : Slot) (n : Nat) (txn : Txn) : State :=
  if txn.msg.oneWay then s.kfree n else s.pushInFlight p n

def recvCopyOut (t : Tid) (p : Slot) (n copied : Nat) (user : Buffer) (k : Nat) :
    Option State :=
  (s.txns n).map fun txn =>
    let upto := min (copied + k) msgSize
    let user' := user.blit (Msg.codec.store txn.msg) copied upto
    if upto < msgSize then s.setPhase t (.copyOut p n upto user')
    else ((s.handOver p n txn).note [.received n (Msg.codec.fetch user')]).ret t 0

def recv (t : Tid) (p : Slot) (mode : RecvMode) (k : Nat) : Option State :=
  match (s.procs p).todo with
  | [] =>
    match mode with
    | .blocking => none
    | .nonblock => some (s.ret t (-eagain))
    | .writeRead => some (s.ret t 0)
  | n :: _ => (s.popTxn p n).recvCopyOut t p n 0 (fun _ => 0) k

def waitCopyEvent (t : Tid) (txn : Option Nat) (copied : Nat) (user : Buffer)
    (k : Nat) : State :=
  let upto := min (copied + k) WaitEvent.codec.width
  let user' := user.blit s.wev copied upto
  if upto < WaitEvent.codec.width then s.setPhase t (.copyEvent txn upto user')
  else
    let e := WaitEvent.codec.fetch user'
    (s.note [txn.elim (.notified t e.uevent) (.received · e.txn)]).ret t 0

/-- The next sequence number that a process sees; one that lags behind the ring jumps ahead. -/
def nextUevent (last seq : UInt32) : UInt32 := if seq - (last + 1) ≥ 8 then seq else last + 1

def ueventAt (seq : UInt32) : Uevent :=
  s.ueventRing ⟨seq.toNat % 8, Nat.mod_lt _ (by decide)⟩

def takeUevent (p : Slot) : State :=
  s.setProc p fun proc =>
    { proc with lastUeventSeq := nextUevent proc.lastUeventSeq s.ueventSeq }

def waitEvent (t : Tid) (p : Slot) (k : Nat) : Option State :=
  if (s.procs p).lastUeventSeq < s.ueventSeq then
    let s' := s.takeUevent p
    let e : WaitEvent :=
      { eventType := .uevent, uevent := s'.ueventAt (s'.procs p).lastUeventSeq }
    some ({ s' with wev := WaitEvent.codec.store e }.waitCopyEvent t none 0 (fun _ => 0) k)
  else
    match (s.procs p).todo with
    | [] => none
    | n :: _ =>
      (s.txns n).map fun txn =>
        let s' := (s.popTxn p n).handOver p n txn
        let e : WaitEvent := { eventType := .txn, txn := txn.msg }
        { s' with wev := WaitEvent.codec.store e }.waitCopyEvent t (some n) 0 (fun _ => 0) k

def completeTxn (p : Slot) (n : Nat) (r : Msg) : State :=
  ((s.setProc p fun proc => { proc with inFlight := proc.inFlight.erase n }).setTxn n fun txn =>
    { txn with msg := txn.msg.answer r, done := true }).note [.completed n, .woken n]

/-- The first transaction in flight that the reply names; 0 names any. -/
def findInFlight (p : Slot) (id : UInt32) : Option Nat :=
  (s.procs p).inFlight.find? fun n => (s.txns n).any (·.txnId == id) || id == 0

def replyCopied (t : Tid) (p : Slot) : State :=
  let r := Msg.codec.fetch s.rmsg
  match s.findInFlight p r.txnId with
  | none => s.ret t (-enoent)
  | some n => (s.completeTxn p n r).ret t 0

def replyCopyIn (t : Tid) (p : Slot) (umsg : Msg) (copied k : Nat) : State :=
  let upto := min (copied + k) msgSize
  let s' := { s with rmsg := s.rmsg.blit (Msg.codec.store umsg) copied upto }
  if upto < msgSize then s'.setPhase t (.copyAnswer p umsg upto) else s'.replyCopied t p

/-- The first free slot is cleared, whatever its lists still hold. -/
def binderOpen (t : Tid) (f : Fid) (cred : Cred) : State :=
  match (List.finRange 32).find? fun p => !(s.procs p).inUse with
  | none => s.ret t (-enomem)
  | some p =>
    ({ s with
        procs := update s.procs p
          { inUse := true, pid := cred.pid, uid := cred.euid, lastUeventSeq := s.ueventSeq }
        files := update s.files f (some p) }.note
      (((s.procs p).todo ++ (s.procs p).inFlight).map .lost)).ret t 0

def failTxn (n : Nat) : State :=
  (s.setTxn n fun txn => { txn with msg := txn.msg.fail, done := true }).note
    [.completed n, .woken n]

def dropQueued (n : Nat) : State :=
  if (s.txns n).any (·.msg.oneWay) then s.kfree n else s.failTxn n

def failAll (p : Slot) : State :=
  (s.procs p).inFlight.foldl failTxn ((s.procs p).todo.foldl dropQueued s)

def binderRelease (f : Fid) : State :=
  match s.files f with
  | none => s
  | some p =>
    let s' := s.failAll p
    { s' with
      contextMgr := if s.contextMgr = some p then none else s.contextMgr
      procs := update s.procs p
        { s.procs p with inUse := false, todo := [], inFlight := [] }
      reg := s.reg.unbind p
      files := update s.files f none }

def setContextMgr (s : State) (t : Tid) (p : Slot) (cred : Cred) : State :=
  if cred.euid ≠ 0 then s.ret t (-eperm)
  else if env.setContextMgr cred ≠ 0 then s.ret t (env.setContextMgr cred)
  else if s.contextMgr ≠ none ∧ s.contextMgr ≠ some p then s.ret t (-ebusy)
  else
    ({ s with contextMgr := some p }.setProc p fun proc => { proc with isContextMgr := true }).ret
      t 0

def managerCheck (s : State) (p : Slot) (cred : Cred) : Int :=
  match s.contextMgr with
  | none => 0
  | some q => if q = p then 0 else env.binderTransaction cred (s.procs q).pid

/-- The text at `info.name`, which goes on in `info.descriptor` when it has no NUL. -/
def infoName (name descriptor : Fin 64 → UInt8) : List UInt8 :=
  (List.ofFn name ++ List.ofFn descriptor).takeWhile (· != 0)

def registerSvc (s : State) (t : Tid) (p : Slot) (cred : Cred)
    (name descriptor : Fin 64 → UInt8) : State :=
  if env.serviceCheck cred (infoName name descriptor) .add ≠ 0 then
    s.ret t (env.serviceCheck cred (infoName name descriptor) .add)
  else if s.managerCheck env p cred ≠ 0 then s.ret t (s.managerCheck env p cred)
  else
    let r := s.reg.registerService p (s.procs p) (infoName name descriptor) (cstr descriptor) cred
    { s with reg := r.1 }.ret t (if r.2 < 0 then r.2 else 0)

def lookupSvc (s : State) (t : Tid) (cred : Cred) (handle : Int32)
    (name descriptor : Fin 64 → UInt8) : State :=
  let svc :=
    if name 0 ≠ 0 then s.reg.findSvcByName (infoName name descriptor)
    else s.reg.findSvcByHandle handle
  match svc with
  | none => s.ret t (-enoent)
  | some i => s.ret t (env.serviceCheck cred (s.reg.svcs i).name .find)

def ueventEmit (s : State) (t : Tid) (kev : Uevent) : State :=
  match env.emitted (s.ueventSeq + 1) kev with
  | none => s.ret t 0
  | some kev' =>
    { s with
      ueventSeq := s.ueventSeq + 1
      ueventRing := update s.ueventRing
        ⟨(s.ueventSeq + 1).toNat % 8, Nat.mod_lt _ (by decide)⟩ kev' }.ret t 0

def ueventPoll (t : Tid) (p : Slot) : State :=
  if (s.procs p).lastUeventSeq ≥ s.ueventSeq then s.ret t (-eagain)
  else
    let s' := s.takeUevent p
    (s'.note [.notified t (s'.ueventAt (s'.procs p).lastUeventSeq)]).ret t 0

end State

inductive Cmd
  | setContextMgr
  | transact (umsg : Msg) (thenRecv : Bool)
  | recv (mode : RecvMode)
  | reply (umsg : Msg)
  | waitEvent
  | registerSvc (name descriptor : Fin 64 → UInt8)
  | lookupSvc (handle : Int32) (name descriptor : Fin 64 → UInt8)
  | ueventEmit (kev : Uevent)
  | ueventPoll

def State.binderIoctl (env : Env) (s : State) (t : Tid) (f : Fid) (cred : Cred) (cmd : Cmd) :
    State :=
  match s.files f with
  | none => s.ret t (-ebadf)
  | some p =>
    match cmd with
    | .setContextMgr => s.setContextMgr env t p cred
    | .transact umsg thenRecv => s.setPhase t (.copyIn ⟨p, cred, umsg, thenRecv⟩ 0)
    | .recv mode => s.setPhase t (.receiving p mode)
    | .reply umsg => s.setPhase t (.copyAnswer p umsg 0)
    | .waitEvent => s.setPhase t (.waiting p)
    | .registerSvc name descriptor => s.setPhase t (.copyInfo p cred name descriptor)
    | .lookupSvc handle name descriptor => s.lookupSvc env t cred handle name descriptor
    | .ueventEmit kev => s.ueventEmit env t kev
    | .ueventPoll => s.ueventPoll t p

inductive Act
  | open (f : Fid) (cred : Cred)
  | release (f : Fid)
  | ioctl (f : Fid) (cred : Cred) (cmd : Cmd)
  /-- run on from where the process stands; a copy moves at most `k` bytes and is then suspended -/
  | go (k : Nat)
  | kmalloc (ok : Bool)
  | signal

structure Label where
  env : Env
  tid : Tid
  act : Act

def State.resume (env : Env) (s : State) (t : Tid) (k : Nat) : Phase → Option State
  | .copyIn call copied => some (s.transactCopyIn env t call copied k)
  | .copyBack call copied => some (s.transactCopyBack t call copied k)
  | .asleep call n => s.transactWake t call n k
  | .copyReply call n copied => s.transactCopyReply t call n copied k
  | .receiving p mode => s.recv t p mode k
  | .copyOut p n copied user => s.recvCopyOut t p n copied user k
  | .waiting p => s.waitEvent t p k
  | .copyEvent txn copied user => some (s.waitCopyEvent t txn copied user k)
  | .copyAnswer p umsg copied => some (s.replyCopyIn t p umsg copied k)
  | .copyInfo p cred name descriptor => some (s.registerSvc env t p cred name descriptor)
  | .idle => none
  | .kmalloc _ _ => none

/-- `none` where the process cannot take the step: it is at another point, or it sleeps. -/
def step (s : State) (l : Label) : Option State :=
  match l.act, s.tasks l.tid with
  | .open f cred, .idle => if s.files f = none then some (s.binderOpen l.tid f cred) else none
  | .release f, .idle => some (s.binderRelease f)
  | .ioctl f cred cmd, .idle => some (s.binderIoctl l.env l.tid f cred cmd)
  | .go k, phase => s.resume l.env l.tid k phase
  | .kmalloc true, .kmalloc call target => some (s.transactCreate l.tid call target)
  | .kmalloc false, .kmalloc _ _ => some (s.ret l.tid (-enomem))
  | .signal, .receiving p .blocking =>
    if (s.procs p).todo = [] then some (s.ret l.tid (-erestartsys)) else none
  | .signal, .waiting p =>
    if (s.procs p).todo = [] ∧ (s.procs p).lastUeventSeq ≥ s.ueventSeq then
      some (s.ret l.tid (-erestartsys))
    else none
  | _, _ => none

end Six.Binder
