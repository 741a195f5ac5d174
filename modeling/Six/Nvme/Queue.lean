import Six.Base.Errno
import Six.Lib.Run
import Six.Nvme.Controller

/-! The queues of the NVMe driver: `nvme_submit_sync_cmd` puts a command in a submission queue,
rings its doorbell, upon which the controller executes what the queue holds and posts completions,
and polls the completion queue.  The driver's queues are reset by `NVME_IOCTL_RESET`. -/

namespace Six.Nvme

open Lib Errno

/-- `struct nvme_completion`, without its reserved word. -/
structure Completion where
  result : UInt32 := 0
  sqHead : UInt16 := 0
  sqId : UInt16 := 0
  commandId : UInt16 := 0
  status : UInt16 := 0

/-- The queue pairs of the driver, the admin queue 0 and the I/O queue 1. -/
inductive QueueId
  | admin | io
  deriving DecidableEq, Repr

structure Queue where
  qid : QueueId
  qDepth : UInt16
  sqHead : UInt16 := 0
  sqTail : UInt16 := 0
  cqHead : UInt16 := 0
  cqTail : UInt16 := 0
  cqPhase : UInt8 := 1
  cqExpectedPhase : UInt8 := 1
  nextCid : UInt16 := 1
  sqDoorbellWrites : UInt32 := 0
  cqDoorbellWrites : UInt32 := 0
  completedCmds : UInt32 := 0
  sq : Nat → Command := fun _ => { opcode := 0 }
  cq : Nat → Completion := fun _ => {}

def QueueId.number : QueueId → UInt16
  | .admin => 0
  | .io => 1

def QueueId.depth : QueueId → UInt16
  | .admin => 32
  | .io => 64

def initQueue (k : QueueId) : Queue := { qid := k, qDepth := k.depth }

def Ctrl.exec (env : Env) (c : Ctrl) (k : QueueId) (cmd : Command) : Executed :=
  match k with
  | .admin => c.execAdminSqe env cmd
  | .io => c.execIoSqe cmd

namespace Queue

variable (env : Env) (q : Queue) (c : Ctrl)

def nextIndex (i depth : UInt16) : UInt16 := UInt16.ofNat ((i.toNat + 1) % depth.toNat)

def completion (e : Executed) : Completion :=
  { result := e.result
    sqHead := nextIndex q.sqHead q.qDepth
    sqId := q.qid.number
    commandId := (q.sq q.sqHead.toNat).commandId
    status := ((e.status &&& 0x7fff) <<< 1) ||| (q.cqPhase &&& 1).toUInt16 }

def execHead : Executed := c.exec env q.qid (q.sq q.sqHead.toNat)

def postHead (e : Executed) : Queue :=
  { q with
    sqHead := nextIndex q.sqHead q.qDepth
    cq := Function.update q.cq q.cqTail.toNat (q.completion e)
    cqTail := if q.cqTail + 1 ≥ q.qDepth then 0 else q.cqTail + 1
    cqPhase := if q.cqTail + 1 ≥ q.qDepth then q.cqPhase ^^^ 1 else q.cqPhase
    completedCmds := q.completedCmds + 1 }

/-- The loop of `nvme_ring_sq_doorbell`, for at most `n` commands: the queue, the controller and
what was executed.  `none` is a loop that goes on. -/
def doorbellLoop : Nat → Queue → Ctrl → Option (Queue × Ctrl × List Executed)
  | n, q, c =>
    if q.sqHead = q.sqTail then some (q, c, [])
    else
      match n with
      | 0 => none
      | n + 1 =>
        let e := q.execHead env c
        (doorbellLoop n (q.postHead e) e.state).map fun r => (r.1, r.2.1, e :: r.2.2)

/-- `nvme_ring_sq_doorbell`.  After `q_depth` commands the head is where it was, so that a loop of
more commands never ends. -/
def ringSqDoorbell : Option (Queue × Ctrl × List Executed) :=
  doorbellLoop env q.qDepth.toNat { q with sqDoorbellWrites := q.sqDoorbellWrites + 1 } c

def popHead : Queue :=
  { q with
    cqHead := if q.cqHead + 1 ≥ q.qDepth then 0 else q.cqHead + 1
    cqExpectedPhase :=
      if q.cqHead + 1 ≥ q.qDepth then q.cqExpectedPhase ^^^ 1 else q.cqExpectedPhase
    cqDoorbellWrites := q.cqDoorbellWrites + 1 }

def pollCq : Option (Completion × Queue) :=
  let cqe := q.cq q.cqHead.toNat
  if cqe.status &&& 1 ≠ q.cqExpectedPhase.toUInt16 then none else some (cqe, q.popHead)

def stamp (cmd : Command) : Command := { cmd with commandId := q.nextCid }

def enqueue (cmd : Command) : Queue :=
  { q with
    nextCid := if q.nextCid + 1 = 0 then 1 else q.nextCid + 1
    sq := Function.update q.sq q.sqTail.toNat (q.stamp cmd)
    sqTail := nextIndex q.sqTail q.qDepth }

/-- What a call of `nvme_submit_sync_cmd` comes to: the return value, the completion that it polled,
what the controller executed, the queue and the controller. -/
structure Submitted where
  code : Int
  cqe : Option Completion
  executed : List Executed
  queue : Queue
  ctrl : Ctrl

/-- `nvme_submit_sync_cmd`.  `*out_result` is the `result` of the completion. -/
def submitSyncCmd (cmd : Command) : Option Submitted :=
  ((q.enqueue cmd).ringSqDoorbell env c).map fun r =>
    match r.1.pollCq with
    | none => { code := -eio, cqe := none, executed := r.2.2, queue := r.1, ctrl := r.2.1 }
    | some (cqe, q) =>
      { code := ((cqe.status >>> 1) &&& 0x7fff).toNat
        cqe := some cqe
        executed := r.2.2
        queue := q
        ctrl := r.2.1 }

end Queue

structure Driver where
  adminQ : Queue
  ioQ : Queue
  ctrl : Ctrl

namespace Driver

variable (env : Env) (d : Driver)

def queue : QueueId → Queue
  | .admin => d.adminQ
  | .io => d.ioQ

def setQueue (k : QueueId) (q : Queue) : Driver :=
  match k with
  | .admin => { d with adminQ := q }
  | .io => { d with ioQ := q }

def submit (k : QueueId) (cmd : Command) : Option Queue.Submitted :=
  (d.queue k).submitSyncCmd env d.ctrl cmd

def reset : Driver :=
  { adminQ := initQueue .admin
    ioQ := initQueue .io
    ctrl := { d.ctrl with
      smart := { d.ctrl.smart with powerCycles := d.ctrl.smart.powerCycles + 1 } } }

inductive Op
  | submit (k : QueueId) (cmd : Command)
  | reset

def step : Op → Option Driver
  | .submit k cmd =>
    (d.submit env k cmd).map fun r => { d.setQueue k r.queue with ctrl := r.ctrl }
  | .reset => some d.reset

def start (c : Ctrl) : Driver := { adminQ := initQueue .admin, ioQ := initQueue .io, ctrl := c }

end Driver

end Six.Nvme
