import Mathlib.Data.BitVec
import Six.Base.Errno
import Six.Selinux.Types

/-! The tables of a policy and the functions of `selinux.c` that extend them, with the check that no
access vector breaks a `neverallow` rule.  The texts for the log and `selinux_load_err` are left
out; so are the service contexts, which no policy text changes. -/

namespace Six.Selinux

open Errno

def maxSids : Nat := 128
def maxXpermRules : Nat := 128
def maxNeverallowRules : Nat := 96
def maxTransRules : Nat := 64

structure SidSet where
  bits : BitVec 128 := 0
  deriving DecidableEq

namespace SidSet

def add (s : SidSet) (sid : Nat) : SidSet :=
  if sid < maxSids then ⟨s.bits ||| BitVec.twoPow 128 sid⟩ else s

def del (s : SidSet) (sid : Nat) : SidSet :=
  if sid < maxSids then ⟨s.bits &&& ~~~BitVec.twoPow 128 sid⟩ else s

def test (s : SidSet) (sid : Nat) : Bool := if sid < maxSids then s.bits.getLsbD sid else false

@[simp] theorem test_empty (i : Nat) : test {} i = false := by
  simp [test]

theorem test_add (s : SidSet) (i j : Nat) :
    (s.add i).test j = (s.test j || decide (j = i ∧ i < maxSids)) := by
  unfold add test maxSids
  by_cases hi : i < 128 <;> by_cases hj : j < 128 <;> simp [hi, hj]
  grind

theorem test_del (s : SidSet) (i j : Nat) : (s.del i).test j = (s.test j && !decide (j = i)) := by
  unfold del test maxSids
  by_cases hi : i < 128 <;> by_cases hj : j < 128 <;> simp [hi, hj]
  all_goals grind

end SidSet

structure TypeEntry where
  name : String
  isDomain : Bool
  tier : Tier
  attrs : UInt32
  deriving DecidableEq

structure XpermRule where
  ssid : Nat
  tsid : Nat
  tclass : Option SecClass
  isNeverallow : Bool
  lo : UInt16
  hi : UInt16
  deriving DecidableEq

structure NeverallowRule where
  src : SidSet
  tgt : SidSet
  isSelf : Bool
  tclass : SecClass
  perms : UInt32
  deriving DecidableEq

structure TransRule where
  ssid : Nat
  tsid : Nat
  tclass : SecClass
  newSid : Nat

/-- A rule that labels a path.  Without `exact` it labels everything below its pattern too. -/
structure FileContext where
  pattern : String
  exact : Bool
  sid : Nat

structure Policy where
  types : List TypeEntry := []
  av : Nat → Nat → SecClass → UInt32 := fun _ _ _ => 0
  xperms : List XpermRule := []
  xpermActive : Nat → Option SecClass → Bool := fun _ _ => false
  neverallows : List NeverallowRule := []
  trans : List TransRule := []
  fileContexts : List FileContext := []

namespace Policy

variable (st : Policy)

def nrTypes : Nat := st.types.length

def typeIndex (name : String) : Option Nat := st.types.findIdx? (·.name = name)

/-- A second declaration of a type adds its attributes. -/
def redeclare (tier : Tier) (attrs : UInt32) (e : TypeEntry) : TypeEntry :=
  { e with
    attrs := e.attrs ||| attrs
    tier := if tier = .systemPublic then .systemPublic else e.tier }

/-- The callers' names fit in the table. -/
def registerType (name : String) (isDomain : Bool) (tier : Tier) (attrs : UInt32) : Policy :=
  match st.typeIndex name with
  | some i => { st with types := st.types.modify i (redeclare tier attrs) }
  | none =>
    if st.nrTypes ≥ maxSids then st
    else { st with types := st.types ++ [{ name, isDomain, tier, attrs }] }

def typeToSid (name : String) : Nat :=
  if name = "" then 0
  else if name = "security" then sid .selinuxfs
  else if name = "suspend_service" then sid .suspendService
  else (st.typeIndex name).getD 0

def sidToType (s : Nat) : String :=
  match st.types[s]? with
  | some e => if e.name = "" then "unlabeled" else e.name
  | none => "unlabeled"

def tierOf (s : Nat) : Option Tier := (st.types[s]?).map (·.tier)

def hasAttr (s : Nat) (attr : UInt32) : Bool :=
  match st.types[s]? with
  | some e => e.attrs &&& attr = attr
  | none => false

def sids : List Nat := List.range' 1 (st.nrTypes - 1)

def sidsWith (attr : UInt32) : List Nat := st.sids.filter (st.hasAttr · attr)

def sidSetAddAttr (s : SidSet) (attr : UInt32) : SidSet := (st.sidsWith attr).foldl SidSet.add s

def sidSetDelAttr (s : SidSet) (attr : UInt32) : SidSet := (st.sidsWith attr).foldl SidSet.del s

def allowSid (ssid tsid : Nat) (tclass : SecClass) (perms : UInt32) : Policy :=
  if ssid < maxSids ∧ tsid < maxSids then
    { st with av := fun s t c =>
        if s = ssid ∧ t = tsid ∧ c = tclass then st.av s t c ||| perms else st.av s t c }
  else st

def allowAttr (ssid : Nat) (attr : UInt32) (tclass : SecClass) (perms : UInt32) : Policy :=
  (st.sidsWith attr).foldl (fun st t => st.allowSid ssid t tclass perms) st

def addXperm (ssid tsid : Nat) (tclass : Option SecClass) (lo hi : UInt16) (isNeverallow : Bool) :
    Policy :=
  let st :=
    if st.xperms.length < maxXpermRules then
      { st with xperms := st.xperms ++ [{ ssid, tsid, tclass, isNeverallow, lo, hi }] }
    else st
  if !isNeverallow ∧ tsid < maxSids then
    { st with xpermActive := fun t c => (t = tsid ∧ c = tclass) || st.xpermActive t c }
  else st

def addTrans (ssid tsid : Nat) (tclass : SecClass) (newSid : Nat) : Policy :=
  match st.trans.findIdx? fun r => r.ssid = ssid ∧ r.tsid = tsid ∧ r.tclass = tclass with
  | some i => { st with trans := st.trans.modify i fun r => { r with newSid } }
  | none =>
    if st.trans.length < maxTransRules then
      { st with trans := st.trans ++ [{ ssid, tsid, tclass, newSid }] }
    else st

def addDomainAutoTrans (parentDom execSid childDom : Nat) : Policy :=
  let st := st.addTrans parentDom execSid .process childDom
  let st := st.allowSid parentDom execSid .file
    (sepermRead ||| sepermOpen ||| sepermExecute ||| sepermGetattr)
  let st := st.allowSid parentDom childDom .process
    (sepermProcTransition ||| sepermProcSigchld ||| sepermProcSigkill ||| sepermProcSigstop |||
      sepermProcSignal)
  let st := st.allowSid childDom parentDom .process sepermProcSigchld
  let st := st.allowSid childDom parentDom .fd sepermUse
  st.allowSid childDom execSid .file
    (sepermRead ||| sepermOpen ||| sepermExecute ||| sepermGetattr ||| sepermEntrypoint)

def addNeverallow (r : NeverallowRule) : Policy :=
  if st.neverallows.length < maxNeverallowRules then
    { st with neverallows := st.neverallows ++ [r] }
  else st

def keepsRule (r : NeverallowRule) : Bool :=
  st.sids.all fun s => !r.src.test s ||
    if r.isSelf then st.av s s r.tclass &&& r.perms = 0
    else st.sids.all fun t => !r.tgt.test t || st.av s t r.tclass &&& r.perms = 0

def conflicts (never allowed : XpermRule) : Bool :=
  never.isNeverallow && !allowed.isNeverallow && never.ssid == allowed.ssid &&
    never.tsid == allowed.tsid && never.tclass == allowed.tclass && allowed.lo ≤ never.hi &&
    allowed.hi ≥ never.lo

def selinuxVerifyNeverallows : Int :=
  if !st.neverallows.all st.keepsRule then -eacces
  else if st.xperms.any fun a => st.xperms.any fun b => conflicts a b then -eacces
  else 0

end Policy

end Six.Selinux
