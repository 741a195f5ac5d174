import Six.Lib.Buffer
import Six.Base.Errno

/-! The messages of the binder driver as records with their bytes, and what the kernel writes into
them. -/

namespace Six.Binder

open Six.Lib Codec

/-- The identity of a process as the driver reads it: `current->pid`, `current->euid` and the
context that `selinux_task_get_context` gives. -/
structure Cred where
  pid : Int32
  euid : Int32
  secontext : Fin 64 → UInt8 := fun _ => 0

structure Msg where
  targetHandle : Int32 := 0
  code : UInt32 := 0
  flags : UInt32 := 0
  senderPid : Int32 := 0
  senderEuid : Int32 := 0
  senderSecontext : Fin 64 → UInt8 := fun _ => 0
  status : Int32 := 0
  replyHandle : Int32 := 0
  txnId : UInt32 := 0
  interfaceToken : Fin 64 → UInt8 := fun _ => 0
  dataSize : UInt32 := 0
  data : Fin 2048 → UInt8 := fun _ => 0

namespace Msg

def codec : Codec Msg :=
  (i32.pair <| u32.pair <| u32.pair <| i32.pair <| i32.pair <| (array 64).pair <| i32.pair <|
    i32.pair <| u32.pair <| (array 64).pair <| u32.pair <| array 2048).imap
    (fun ⟨targetHandle, code, flags, senderPid, senderEuid, senderSecontext, status, replyHandle,
        txnId, interfaceToken, dataSize, data⟩ =>
      ⟨targetHandle, code, flags, senderPid, senderEuid, senderSecontext, status, replyHandle,
        txnId, interfaceToken, dataSize, data⟩)
    (fun m => ⟨m.targetHandle, m.code, m.flags, m.senderPid, m.senderEuid, m.senderSecontext,
      m.status, m.replyHandle, m.txnId, m.interfaceToken, m.dataSize, m.data⟩)
    fun _ => rfl

def oneWay (m : Msg) : Bool := m.flags &&& 1 != 0

def stamp (m : Msg) (cred : Cred) : Msg :=
  { m with
    senderPid := cred.pid
    senderEuid := cred.euid
    senderSecontext := cred.secontext
    status := 0 }

def answer (m r : Msg) : Msg :=
  { m with
    status := r.status
    replyHandle := r.replyHandle
    dataSize := r.dataSize
    data := fun i =>
      if 0 < r.dataSize ∧ r.dataSize ≤ 2048 ∧ i.val < r.dataSize.toNat then r.data i
      else m.data i }

def fail (m : Msg) : Msg := { m with status := Int32.ofInt (-Errno.epipe) }

end Msg

abbrev Uevent := Fin 468 → UInt8

inductive EventType
  | none
  | uevent
  | txn
deriving DecidableEq

namespace EventType

/-- `BINDER_WAIT_NONE`, `BINDER_WAIT_UEVENT` and `BINDER_WAIT_TXN`. -/
def toWord : EventType → UInt32
  | none => 0
  | uevent => 1
  | txn => 2

def ofWord (w : UInt32) : EventType := if w = 1 then uevent else if w = 2 then txn else none

theorem ofWord_toWord (e : EventType) : ofWord e.toWord = e := by
  cases e <;> rfl

end EventType

structure WaitEvent where
  eventType : EventType := .none
  uevent : Uevent := fun _ => 0
  txn : Msg := {}

namespace WaitEvent

def codec : Codec WaitEvent :=
  ((u32.imap EventType.ofWord EventType.toWord EventType.ofWord_toWord).pair <|
    (array 468).pair Msg.codec).imap
    (fun ⟨eventType, uevent, txn⟩ => ⟨eventType, uevent, txn⟩)
    (fun e => ⟨e.eventType, e.uevent, e.txn⟩)
    fun _ => rfl

end WaitEvent

end Six.Binder
