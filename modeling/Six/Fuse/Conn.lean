import Mathlib.Logic.Function.Basic
import Six.Base.Errno
import Six.Lib.Bytes
import Six.Lib.Run

/-! The request queue of `/dev/fuse`.  A request lives in the frame of the task that calls
`fuse_request_send`, so that one number names the request and its sender.  A step runs until the
task sleeps, returns, or copies from or to the memory of a user.  A thread of the daemon is between
two copies when it has an entry in `reader` or `writer`. -/

namespace Six.Fuse

open Lib Errno Function

inductive ReqState
  | init
  | pending
  | sent
  | finished
  deriving DecidableEq

structure OutHeader where
  len : Nat := 0
  error : Int := 0
  unique : UInt64 := 0

/-- The fields of `struct fuse_req` that the queue uses.  `outBuf` is what has been copied to the
buffer for the reply, and `outBufMax` its size, if there is one. -/
structure Req where
  unique : UInt64 := 0
  inArgLen : Nat := 0
  inPayloadLen : Nat := 0
  out : OutHeader := {}
  outBufMax : Option Nat := none
  outBuf : List UInt8 := []
  state : ReqState := .init
  isAsync : Bool := false

/-- Where the sender of a request is: it has not called yet, it waits for `FUSE_INIT` or for its
reply, asleep or woken, or it has returned.  Nobody waits for the request that `fuse_send_init`
queues. -/
inductive Sender
  | idle
  | waitInit (asleep : Bool)
  | waiting (asleep : Bool)
  | returned (rc : Int)
  | nobody
  deriving DecidableEq

structure Reading where
  req : Nat
  left : Nat
  deriving DecidableEq

/-- A write that copies the header of a reply in, or `len` bytes for the buffer of a request. -/
inductive Writing
  | header (count : Nat)
  | payload (req len : Nat)
  deriving DecidableEq

structure Conn where
  mounted : Bool := false
  connected : Bool := true
  initialized : Bool := false
  initError : Int := 0
  major : UInt32 := 7
  minor : UInt32 := 23
  maxWrite : UInt32 := 65536
  initFlags : UInt32 := 0
  noOpen : Bool := false
  lastUnique : UInt64 := 0
  pending : List Nat := []
  processing : List Nat := []
  req : Nat → Req := fun _ => {}
  sender : Nat → Sender := fun _ => .idle
  reader : Nat → Option Reading := fun _ => none
  writer : Nat → Option Writing := fun _ => none

namespace Conn

variable (c : Conn)

def setReq (r : Nat) (q : Req) : Conn := { c with req := update c.req r q }

def setSender (r : Nat) (x : Sender) : Conn := { c with sender := update c.sender r x }

def wakeUp (r : Nat) : Conn :=
  match c.sender r with
  | .waiting _ => c.setSender r (.waiting false)
  | _ => c

def wakeInit : Sender → Sender
  | .waitInit _ => .waitInit false
  | x => x

def wakeUpInit : Conn := { c with sender := fun r => wakeInit (c.sender r) }

def initField (buf : List UInt8) (off : Nat) : UInt32 := UInt32.ofNat (leNat (fieldAt buf off 4))

def fuseNoOpenSupport : UInt32 := 131072

def takeInitReply (q : Req) : Conn :=
  if q.out.error ≠ 0 ∨ q.outBuf.length < 24 then
    { c with initError := if q.out.error ≠ 0 then q.out.error else -eproto }
  else if initField q.outBuf 0 ≠ 7 then { c with initError := -eproto }
  else
    let maxWrite := initField q.outBuf 20
    let flags := initField q.outBuf 12
    { c with
      major := initField q.outBuf 0
      minor := initField q.outBuf 4
      initFlags := flags
      maxWrite := if maxWrite ≥ 4096 ∧ maxWrite < c.maxWrite then maxWrite else c.maxWrite
      noOpen := if flags &&& fuseNoOpenSupport ≠ 0 then true else c.noOpen
      initialized := true }

def fuseProcessInitReply (q : Req) : Conn := (c.takeInitReply q).wakeUpInit

def finish (r : Nat) (q : Req) : Conn :=
  let q := { q with state := .finished }
  let c := c.setReq r q
  if q.isAsync then c.fuseProcessInitReply q else c.wakeUp r

def abortAll (c : Conn) : List Nat → Conn
  | [] => c
  | r :: rs =>
    abortAll (c.finish r { c.req r with out := { (c.req r).out with error := -enotconn } }) rs

def fuseConnAbort : Conn :=
  let c := { c with connected := false }
  let c := abortAll { c with pending := [] } c.pending
  let c := abortAll { c with processing := [] } c.processing
  c.wakeUpInit

def fuseEnqueueReq (r : Nat) (q : Req) (atHead : Bool) : Conn :=
  { c.setReq r { q with state := .pending } with
    pending := if atHead then r :: c.pending else c.pending ++ [r] }

/-- `fuse_send_init`, during the mount; `memReq` and `memOut` tell whether `kmalloc` succeeds. -/
def fuseSendInit (r : Nat) (memReq memOut : Bool) : Conn :=
  if !memReq ∨ !memOut then { c with initError := -enomem }
  else
    ({ c with lastUnique := c.lastUnique + 1 }.setSender r .nobody).fuseEnqueueReq r
      { unique := c.lastUnique + 1, inArgLen := 16, outBufMax := some 64, isAsync := true } true

def awaitReply (r : Nat) : Conn :=
  if (c.req r).state ≠ .finished ∧ c.connected then c.setSender r (.waiting true)
  else if (c.req r).state ≠ .finished then c.setSender r (.returned (-enotconn))
  else c.setSender r (.returned (c.req r).out.error)

def awaitInit (r : Nat) : Conn :=
  if !c.initialized ∧ c.initError = 0 ∧ c.connected then c.setSender r (.waitInit true)
  else if !c.connected then c.setSender r (.returned (-enotconn))
  else if c.initError ≠ 0 then c.setSender r (.returned c.initError)
  else
    ({ c with lastUnique := c.lastUnique + 1 }.fuseEnqueueReq r
      { c.req r with unique := c.lastUnique + 1 } false).awaitReply r

/-- `fuse_request_send`, up to the point where the task sleeps or returns.  No caller passes
`FUSE_INIT`. -/
def fuseRequestSend (r : Nat) (q : Req) : Conn :=
  if !c.connected then c.setSender r (.returned (-enotconn)) else (c.setReq r q).awaitInit r

def inHeaderSize : Nat := 40
def outHeaderSize : Nat := 16

def copies (q : Req) : Nat :=
  1 + (if q.inArgLen ≠ 0 then 1 else 0) + if q.inPayloadLen ≠ 0 then 1 else 0

def readTake (t count : Nat) : Option Conn :=
  match c.pending with
  | [] => none
  | r :: rest =>
    if !c.connected then none
    else if count < inHeaderSize + (c.req r).inArgLen + (c.req r).inPayloadLen then none
    else
      some { c with
        pending := rest
        reader := update c.reader t (some ⟨r, copies (c.req r)⟩) }

/-- The next copy of a read is done; after the last one the request is processed. -/
def readCopy (t : Nat) (x : Reading) : Conn :=
  if x.left > 1 then { c with reader := update c.reader t (some ⟨x.req, x.left - 1⟩) }
  else
    { c.setReq x.req { c.req x.req with state := .sent } with
      processing := x.req :: c.processing
      reader := update c.reader t none }

def setWriter (t : Nat) (x : Option Writing) : Conn :=
  { c with writer := update c.writer t x }

def findProcessing (unique : UInt64) : Option Nat :=
  c.processing.find? fun r => (c.req r).unique = unique

/-- A daemon may forget the minus sign of an error. -/
def OutHeader.normalise (oh : OutHeader) : OutHeader :=
  { oh with error := if oh.error > 0 then -oh.error else oh.error }

/-- A reply without a payload finishes the request `r`; a payload has to be copied first. -/
def deliver (t r payloadLen : Nat) (q : Req) : Conn :=
  match q.outBufMax with
  | none => c.finish r q
  | some max =>
    if q.out.error = 0 ∧ payloadLen > 0 then
      (c.setReq r q).setWriter t (some (.payload r (min payloadLen max)))
    else c.finish r q

def writeHeader (t count : Nat) (oh : OutHeader) : Conn :=
  let c := c.setWriter t none
  if oh.len ≠ count ∨ oh.unique = 0 then c
  else
    match c.findProcessing oh.unique with
    | none => c
    | some r =>
      { c with processing := c.processing.erase r }.deliver t r (count - outHeaderSize)
        { c.req r with out := OutHeader.normalise oh, outBuf := [] }

def writePayload (t r : Nat) (data : List UInt8) : Conn :=
  (c.setWriter t none).finish r { c.req r with outBuf := data }

/-- What happens on the connection.  `sendInit` is `fuse_read_super`, and `root` tells whether it
gets the root inode; a mount without it is taken back, and can be tried again.  Unmounting and
closing the device both abort. -/
inductive Op
  | sendInit (r : Nat) (memReq memOut root : Bool)
  | send (r inArgLen inPayloadLen : Nat) (outBufMax : Option Nat)
  | resume (r : Nat)
  | readTake (t count : Nat)
  | readCopy (t : Nat)
  | readForget
  | writeBegin (t count : Nat)
  | writeHeader (t : Nat) (oh : OutHeader)
  | writePayload (t : Nat) (data : List UInt8)
  | abort

def Free (t : Nat) : Prop := c.reader t = none ∧ c.writer t = none

instance (t : Nat) : Decidable (c.Free t) :=
  inferInstanceAs (Decidable (c.reader t = none ∧ c.writer t = none))

/-- The connection after a step.  The calls that change nothing are left out: a read that finds
nothing or has no room, and a write to a connection that has ended. -/
def step : Op → Option Conn
  | .sendInit r memReq memOut root =>
    if c.connected ∧ !c.mounted ∧ c.sender r = .idle then
      some { c.fuseSendInit r memReq memOut with mounted := root }
    else none
  | .send r inArgLen inPayloadLen outBufMax =>
    if c.mounted ∧ c.sender r = .idle then
      some (c.fuseRequestSend r { inArgLen, inPayloadLen, outBufMax })
    else none
  | .resume r =>
    match c.sender r with
    | .waitInit false => some (c.awaitInit r)
    | .waiting false => some (c.awaitReply r)
    | _ => none
  | .readTake t count => if c.Free t then c.readTake t count else none
  | .readCopy t => (c.reader t).map (c.readCopy t)
  | .readForget =>
    if c.connected ∧ c.pending = [] then some { c with lastUnique := c.lastUnique + 1 } else none
  | .writeBegin t count =>
    if c.Free t ∧ c.connected ∧ outHeaderSize ≤ count then
      some (c.setWriter t (some (.header count)))
    else none
  | .writeHeader t oh =>
    match c.writer t with
    | some (.header count) => some (c.writeHeader t count oh)
    | _ => none
  | .writePayload t data =>
    match c.writer t with
    | some (.payload r len) => if data.length = len then some (c.writePayload t r data) else none
    | _ => none
  | .abort => some c.fuseConnAbort

def start : Conn := {}

end Conn

end Six.Fuse
