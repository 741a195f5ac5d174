import Six.Overlay.Namespace

/-! `ovl_notify_change`, which changes the attributes of an overlay inode, and the checks of
`inode_change_ok`, which it does not make.  The inodes of the model have no change time: no check
reads it, and everyone may set it. -/

namespace Six.Overlay

open Lib Errno

/-- The task that asks for a change; `groups` has its `fsgid` too. -/
structure Caller where
  fsuid : UInt32
  groups : List UInt32

namespace Caller

def fsuser (c : Caller) : Bool := c.fsuid == 0

def inGroup (c : Caller) (gid : UInt32) : Bool := c.groups.contains gid

/-- A mode as the caller may set it: only a member of the group sets the setgid bit. -/
def maySet (c : Caller) (gid mode : UInt32) : UInt32 :=
  if c.fsuser || c.inGroup gid then mode else mode &&& ~~~0o2000

end Caller

/-- `struct iattr`: a field without a value is one whose bit in `ia_valid` is clear. -/
structure Iattr where
  force : Bool := false
  mode : Option UInt32 := none
  uid : Option UInt32 := none
  gid : Option UInt32 := none
  size : Option Nat := none
  atime : Option UInt32 := none
  mtime : Option UInt32 := none
  atimeSet : Bool := false
  mtimeSet : Bool := false

/-- The return value, and the attributes with the mode that the function leaves in them. -/
def inodeChangeOk (c : Caller) (n : Attr) (a : Iattr) : Int × Iattr :=
  let foreign := c.fsuid != n.uid && !c.fsuser
  if a.force then (0, a)
  else if a.uid.any fun uid => (c.fsuid != n.uid || uid != n.uid) && !c.fsuser then (-eperm, a)
  else if a.gid.any fun gid => !c.inGroup gid && gid != n.gid && !c.fsuser then (-eperm, a)
  else if a.mode.isSome && foreign then (-eperm, a)
  else
    let a := { a with mode := a.mode.map (c.maySet (a.gid.getD n.gid)) }
    if (a.atimeSet || a.mtimeSet) && foreign then (-eperm, a) else (0, a)

namespace OvlSb

/-- The attributes of an overlay inode, and its size. -/
def attrOf (s : OvlSb) (ino : Nat) : Option (Attr × Nat) :=
  ((s.findNode ino).bind fun n =>
    match n.upper with
    | some u => s.upper.inodes u
    | none => n.lower.bind s.lower.inodes).map fun n =>
      (n.attr, match n.body with
        | .file data => data.length
        | _ => 0)

def Permits (s : OvlSb) (c : Caller) (ino : Nat) (a : Iattr) : Prop :=
  ∃ n ∈ s.attrOf ino, (inodeChangeOk c n.1 a).1 = 0

def copies : Body → Bool
  | .file _ => true
  | .dir _ _ => true
  | _ => false

variable {s : OvlSb} {c : Caller} {ino : Nat} {a : Iattr}

end OvlSb

end Six.Overlay
