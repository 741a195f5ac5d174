import Six.Base.Errno
import Six.Lib.Run
import Six.Lib.Table

/-! The in-memory filesystem (`fs/tmpfs/inode.c`): its nodes and directory entries, the inode cache
above them (`iget` and `iput` of `fs/inode.c`), and the directory operations.  `unsigned long` is 32
bits wide and `nlink_t` 16 bits.  The pages of regular files, the times and the version counters are
left out, and so are mount points.  `iget` does not fail: `get_empty_inode` waits until an inode is
free. -/

namespace Six.Tmpfs

open Errno Lib Function

structure Attr where
  mode : UInt16
  uid : UInt16
  gid : UInt16
  nlink : UInt16
  rdev : UInt16
  size : Int
  deriving DecidableEq

def sIfmt : UInt16 := 0xf000
def sIfdir : UInt16 := 0x4000
def sIfreg : UInt16 := 0x8000
def sIflnk : UInt16 := 0xa000
def sIsgid : UInt16 := 0x400
def sIsvtx : UInt16 := 0x200

def sIsdir (mode : UInt16) : Bool := mode &&& sIfmt == sIfdir

abbrev Name := List UInt8

structure Dirent where
  name : Name
  ino : UInt32
  deriving DecidableEq

structure Node where
  ino : UInt32
  parentIno : UInt32
  attr : Attr
  symlinkTarget : List UInt8 := []
  entries : List Dirent := []
  deriving DecidableEq

def Node.isDir (n : Node) : Bool := sIsdir n.attr.mode

def Node.withNlink (n : Node) (k : UInt16) : Node := { n with attr := { n.attr with nlink := k } }

def Node.withEntries (n : Node) (es : List Dirent) : Node := { n with entries := es }

def Node.findDirent (dir : Node) (name : Name) : Option Dirent :=
  Table.find Dirent.name dir.entries name

def checkSticky (fsuid : UInt16) (suser : Bool) (dir victim : Node) : Int :=
  if dir.attr.mode &&& sIsvtx = 0 then 0
  else if suser then 0
  else if fsuid = victim.attr.uid ∨ fsuid = dir.attr.uid then 0
  else -eperm

structure Inode where
  attr : Attr
  count : Nat
  deriving DecidableEq

def Inode.withNlink (i : Inode) (k : UInt16) : Inode :=
  { i with attr := { i.attr with nlink := k } }

/-- `struct tmpfs_sb`, with the cached inodes of the mount. -/
structure TmpfsSb where
  maxInodes : UInt32
  nrInodes : UInt32
  nextIno : UInt32
  nodes : List Node
  icache : UInt32 → Option Inode

def tmpfsRootIno : UInt32 := 1
def tmpfsNameLen : Nat := 255

/-- The process that an operation runs for, and whether the allocations of a node, of an entry and
of a copy of a link target succeed. -/
structure Caller where
  fsuid : UInt16 := 0
  fsgid : UInt16 := 0
  suser : Bool := true
  nodeMem : Bool := true
  direntMem : Bool := true
  targetMem : Bool := true

namespace TmpfsSb

variable (s : TmpfsSb) (c : Caller)

/-- `tmpfs_find_node`, and `tmpfs_get_node` of an inode with this number. -/
def findNode (ino : UInt32) : Option Node := Table.find Node.ino s.nodes ino

def modifyNode (ino : UInt32) (f : Node → Node) : TmpfsSb :=
  { s with nodes := Table.update Node.ino s.nodes ino f }

def modifyInode (ino : UInt32) (f : Inode → Inode) : TmpfsSb :=
  { s with icache := update s.icache ino ((s.icache ino).map f) }

def allocNode (mode rdev : UInt16) : Option (UInt32 × TmpfsSb) :=
  if s.nrInodes ≥ s.maxInodes ∨ !c.nodeMem then none
  else
    let n : Node :=
      { ino := s.nextIno
        parentIno := tmpfsRootIno
        attr :=
          { mode := mode
            uid := c.fsuid
            gid := c.fsgid
            nlink := if sIsdir mode then 2 else 1
            rdev := rdev
            size := if sIsdir mode then 64 else 0 } }
    some (n.ino, { s with
      nodes := n :: s.nodes, nextIno := s.nextIno + 1, nrInodes := s.nrInodes + 1 })

def destroyNode (ino : UInt32) : TmpfsSb :=
  if (s.findNode ino).isSome then
    { s with
      nodes := Table.erase Node.ino s.nodes ino
      nrInodes := if s.nrInodes > 0 then s.nrInodes - 1 else s.nrInodes }
  else s

/-- The fields of an inode that `tmpfs_read_inode` finds no node for. -/
def clearedAttr : Attr := { mode := 0, uid := 0, gid := 0, nlink := 1, rdev := 0, size := 0 }

def iget (ino : UInt32) : TmpfsSb :=
  match s.icache ino with
  | some i => { s with icache := update s.icache ino (some { i with count := i.count + 1 }) }
  | none =>
    let attr := ((s.findNode ino).map Node.attr).getD clearedAttr
    { s with icache := update s.icache ino (some ⟨attr, 1⟩) }

def clearInode (ino : UInt32) : TmpfsSb :=
  { s with icache := update s.icache ino none }

def syncNodeFromInode (ino : UInt32) (i : Inode) : TmpfsSb :=
  s.modifyNode ino fun n => { n with attr := i.attr }

def iput (ino : UInt32) : TmpfsSb :=
  match s.icache ino with
  | none => s
  | some i =>
    if i.count = 0 then s
    else if i.count > 1 then s.modifyInode ino fun i => { i with count := i.count - 1 }
    else if i.attr.nlink ≠ 0 then
      (s.syncNodeFromInode ino i).modifyInode ino fun i => { i with count := 0 }
    else
      -- the node goes with its inode
      (s.destroyNode ino).clearInode ino

/-- The assignment `inode->i_nlink = node->nlink`. -/
def copyNlink (ino : UInt32) : TmpfsSb :=
  match s.findNode ino with
  | none => s
  | some n => s.modifyInode ino fun i => i.withNlink n.attr.nlink

def setNlink (ino : UInt32) (f : UInt16 → UInt16) : TmpfsSb :=
  s.modifyNode ino fun n => n.withNlink (f n.attr.nlink)

def setEntries (ino : UInt32) (f : List Dirent → List Dirent) : TmpfsSb :=
  s.modifyNode ino fun n => n.withEntries (f n.entries)

/-- `if (node->nlink > 2) node->nlink--`, and the same for the bound 0. -/
def dropLink (above n : UInt16) : UInt16 := if n > above then n - 1 else n

def addDirent (dir : UInt32) (name : Name) (ino : UInt32) : Int × TmpfsSb :=
  if name.length = 0 ∨ name.length > tmpfsNameLen then (-enametoolong, s)
  else if !c.direntMem then (-enomem, s)
  else (0, s.setEntries dir (⟨name, ino⟩ :: ·))

def removeDirent (dir : UInt32) (name : Name) : TmpfsSb :=
  s.setEntries dir fun es => Table.erase Dirent.name es name

def redirectDirent (dir : UInt32) (name : Name) (ino : UInt32) : TmpfsSb :=
  s.setEntries dir fun es => Table.update Dirent.name es name fun e => { e with ino := ino }

/-! ### Operations on a directory

Each of them is called with a reference to the inode of the directory, and gives it back. -/

structure Result where
  err : Int
  ino : Option UInt32 := none
  state : TmpfsSb

/-- `tmpfs_lookup`.  A successful call hands out a reference to the inode that it found. -/
def tmpfsLookup (dir : UInt32) (name : Name) : Result :=
  match s.findNode dir with
  | none => ⟨-enoent, none, s.iput dir⟩
  | some dnode =>
    if name = [0x2e] then ⟨0, some dir, (s.iget dir).iput dir⟩
    else
      let ino :=
        if name = [0x2e, 0x2e] then dnode.parentIno
        else ((dnode.findDirent name).map Dirent.ino).getD 0
      if ino = 0 then ⟨-enoent, none, s.iput dir⟩
      else ⟨0, some ino, (s.iput dir).iget ino⟩

/-- What `tmpfs_create`, `tmpfs_mkdir`, `tmpfs_symlink` and `tmpfs_mknod` share: a node is
allocated, initialised by `init` from the node of the directory, and entered under `name`. -/
def makeNode (dir : UInt32) (name : Name) (mode rdev : UInt16) (init : Node → Node → Node) :
    Result :=
  match s.findNode dir with
  | none => ⟨-einval, none, s⟩
  | some dnode =>
    if (dnode.findDirent name).isSome then ⟨-eexist, none, s⟩
    else
      match s.allocNode c mode rdev with
      | none => ⟨-enospc, none, s⟩
      | some (ino, s) =>
        let r := (s.modifyNode ino (init dnode)).addDirent c dir name ino
        if r.1 ≠ 0 then ⟨r.1, none, r.2.destroyNode ino⟩ else ⟨0, some ino, r.2⟩

def initFile (dnode n : Node) : Node :=
  { n with
    parentIno := dnode.ino
    attr := { n.attr with
      gid := if dnode.attr.mode &&& sIsgid ≠ 0 then dnode.attr.gid else n.attr.gid } }

def initDir (dnode n : Node) : Node :=
  if dnode.attr.mode &&& sIsgid ≠ 0 then
    { n with
      parentIno := dnode.ino
      attr := { n.attr with gid := dnode.attr.gid, mode := n.attr.mode ||| sIsgid } }
  else { n with parentIno := dnode.ino }

def initSymlink (symname : List UInt8) (dnode n : Node) : Node :=
  { n with
    parentIno := dnode.ino
    symlinkTarget := symname
    attr := { n.attr with size := symname.length } }

/-- `tmpfs_create`.  A successful call hands out a reference to the new inode. -/
def tmpfsCreate (dir : UInt32) (name : Name) (mode : UInt16) : Result :=
  let r := s.makeNode c dir name ((mode &&& 0xfff) ||| sIfreg) 0 initFile
  match r.ino with
  | none => { r with state := r.state.iput dir }
  | some ino => { r with state := (r.state.iput dir).iget ino }

def tmpfsMkdir (dir : UInt32) (name : Name) (mode : UInt16) : Int × TmpfsSb :=
  let r := s.makeNode c dir name ((mode &&& 0xfff) ||| sIfdir) 0 initDir
  if r.err ≠ 0 then (r.err, r.state.iput dir)
  else (0, ((r.state.setNlink dir (· + 1)).copyNlink dir).iput dir)

/-- `tmpfs_symlink`.  The target is copied after the check for an entry of the same name. -/
def tmpfsSymlink (dir : UInt32) (name : Name) (symname : List UInt8) : Int × TmpfsSb :=
  if !c.targetMem ∧ (s.findNode dir).any fun dnode => (dnode.findDirent name).isNone then
    (-enomem, s.iput dir)
  else
    let r := s.makeNode c dir name (sIflnk ||| 0x1ff) 0 (initSymlink symname)
    (r.err, r.state.iput dir)

def tmpfsMknod (dir : UInt32) (name : Name) (mode rdev : UInt16) : Int × TmpfsSb :=
  let r := s.makeNode c dir name mode rdev initFile
  (r.err, r.state.iput dir)

def tmpfsRmdir (dir : UInt32) (name : Name) : Int × TmpfsSb :=
  match s.findNode dir with
  | none => (-einval, s.iput dir)
  | some dnode =>
    match dnode.findDirent name with
    | none => (-enoent, s.iput dir)
    | some de =>
      match s.findNode de.ino with
      | none => (-enotdir, s.iput dir)
      | some target =>
        if !target.isDir then (-enotdir, s.iput dir)
        else if target.ino = dnode.ino then (-eperm, s.iput dir)
        else if target.entries ≠ [] then (-enotempty, s.iput dir)
        else if checkSticky c.fsuid c.suser dnode target ≠ 0 then
          (checkSticky c.fsuid c.suser dnode target, s.iput dir)
        else
          let s := s.iget target.ino
          if (s.icache target.ino).any (·.count > 1) then (-ebusy, (s.iput target.ino).iput dir)
          else
            let s := s.removeDirent dir name
            let s := (s.setNlink target.ino fun _ => 0).copyNlink target.ino
            let s := (s.setNlink dir (dropLink 2)).copyNlink dir
            (0, (s.iput target.ino).iput dir)

def tmpfsUnlink (dir : UInt32) (name : Name) : Int × TmpfsSb :=
  match s.findNode dir with
  | none => (-einval, s.iput dir)
  | some dnode =>
    match dnode.findDirent name with
    | none => (-enoent, s.iput dir)
    | some de =>
      match s.findNode de.ino with
      | none => (-enoent, s.iput dir)
      | some target =>
        if target.isDir then (-eperm, s.iput dir)
        else if checkSticky c.fsuid c.suser dnode target ≠ 0 then
          (checkSticky c.fsuid c.suser dnode target, s.iput dir)
        else
          let s := (s.removeDirent dir name).iget target.ino
          let s := (s.setNlink target.ino (dropLink 0)).copyNlink target.ino
          (0, (s.iput target.ino).iput dir)

def tmpfsLink (old dir : UInt32) (name : Name) : Int × TmpfsSb :=
  let giveBack (s : TmpfsSb) := (s.iput dir).iput old
  if (s.icache old).any fun i => sIsdir i.attr.mode then (-eperm, giveBack s)
  else
    match s.findNode dir, s.findNode old with
    | some dnode, some onode =>
      if (dnode.findDirent name).isSome then (-eexist, giveBack s)
      else
        let r := s.addDirent c dir name onode.ino
        if r.1 ≠ 0 then (r.1, giveBack s)
        else (0, giveBack ((r.2.setNlink old (· + 1)).copyNlink old))
    | _, _ => (-einval, giveBack s)

/-- The entry `newName` is made to name `src` in place of `dst`, and `dst` loses a link. -/
def replaceDirent (oldDir : UInt32) (oldName : Name) (newDir : UInt32) (newName : Name)
    (src dst : Node) : TmpfsSb :=
  let s := (s.redirectDirent newDir newName src.ino).removeDirent oldDir oldName
  let s := s.iget dst.ino
  let s :=
    if dst.isDir then
      ((s.setNlink dst.ino fun _ => 0).copyNlink dst.ino).setNlink newDir (dropLink 2)
    else (s.setNlink dst.ino (dropLink 0)).copyNlink dst.ino
  s.iput dst.ino

/-- A directory that was moved to another directory gets its new parent, and the two parents get
their new counts. -/
def moveParent (oldDir newDir : UInt32) (src : Node) : TmpfsSb :=
  if src.isDir ∧ oldDir ≠ newDir then
    let s := s.modifyNode src.ino fun n => { n with parentIno := newDir }
    let s := (s.setNlink oldDir (dropLink 2)).setNlink newDir (· + 1)
    (s.copyNlink oldDir).copyNlink newDir
  else s

def checkReplaced (ndnode src dst : Node) : Int :=
  if checkSticky c.fsuid c.suser ndnode dst ≠ 0 then checkSticky c.fsuid c.suser ndnode dst
  else if src.isDir ∧ !dst.isDir then -enotdir
  else if !src.isDir ∧ dst.isDir then -eisdir
  else if dst.isDir ∧ dst.entries ≠ [] then -enotempty
  else 0

/-- `tmpfs_rename` after its checks of the entry that is renamed, up to the counts of the two
directories. -/
def renameEntry (oldDir : UInt32) (oldName : Name) (newDir : UInt32) (newName : Name)
    (ndnode src : Node) : Int × TmpfsSb :=
  match ndnode.findDirent newName with
  | some newDe =>
    match s.findNode newDe.ino with
    | none => (-enoent, s)
    | some dst =>
      if checkReplaced c ndnode src dst ≠ 0 then (checkReplaced c ndnode src dst, s)
      else (0, (s.replaceDirent oldDir oldName newDir newName src dst).moveParent oldDir newDir src)
  | none =>
    let r := s.addDirent c newDir newName src.ino
    if r.1 ≠ 0 then (r.1, s)
    else (0, (r.2.removeDirent oldDir oldName).moveParent oldDir newDir src)

def tmpfsRename (oldDir : UInt32) (oldName : Name) (newDir : UInt32) (newName : Name)
    (mustBeDir : Bool) : Int × TmpfsSb :=
  let giveBack (s : TmpfsSb) := (s.iput oldDir).iput newDir
  match s.findNode oldDir, s.findNode newDir with
  | some odnode, some ndnode =>
    match odnode.findDirent oldName with
    | none => (-enoent, giveBack s)
    | some oldDe =>
      match s.findNode oldDe.ino with
      | none => (-enoent, giveBack s)
      | some src =>
        if mustBeDir ∧ !src.isDir then (-enotdir, giveBack s)
        else if checkSticky c.fsuid c.suser odnode src ≠ 0 then
          (checkSticky c.fsuid c.suser odnode src, giveBack s)
        else if oldDir = newDir ∧ oldName = newName then (0, giveBack s)
        else
          let r := s.renameEntry c oldDir oldName newDir newName ndnode src
          (r.1, giveBack r.2)
  | _, _ => (-einval, giveBack s)

end TmpfsSb

/-- What happens to a mount.  The operations are each for an inode that was looked up before. -/
inductive Op
  | lookup (dir : UInt32) (name : Name)
  | create (dir : UInt32) (name : Name) (mode : UInt16)
  | mkdir (dir : UInt32) (name : Name) (mode : UInt16)
  | symlink (dir : UInt32) (name : Name) (symname : List UInt8)
  | mknod (dir : UInt32) (name : Name) (mode rdev : UInt16)
  | link (old dir : UInt32) (name : Name)
  | unlink (dir : UInt32) (name : Name)
  | rmdir (dir : UInt32) (name : Name)
  | rename (oldDir : UInt32) (oldName : Name) (newDir : UInt32) (newName : Name) (mustBeDir : Bool)
  | release (ino : UInt32)
  | writeInode (ino : UInt32)
  | evict (ino : UInt32)

namespace TmpfsSb

def isDirIno (s : TmpfsSb) (ino : UInt32) : Bool := (s.findNode ino).any Node.isDir

/-- The number of references to an inode that outlive an operation.  The mount keeps one to the
root. -/
def held (s : TmpfsSb) (ino : UInt32) : Nat :=
  ((s.icache ino).map Inode.count).getD 0 - if ino = tmpfsRootIno then 1 else 0

def writeInode (s : TmpfsSb) (ino : UInt32) : Option TmpfsSb :=
  (s.icache ino).map fun i => s.syncNodeFromInode ino i

/-- A cached inode without references is dropped, as `get_empty_inode` does after it has written the
inode back. -/
def evict (s : TmpfsSb) (ino : UInt32) : Option TmpfsSb :=
  match s.icache ino with
  | some i =>
    if i.count = 0 then some (s.clearInode ino) else none
  | none => none

/-- The mount after one step.  An operation on a directory starts with a reference to its inode.
`sys_mknod` refuses to make a directory. -/
def step (s : TmpfsSb) (l : Caller × Op) : Option TmpfsSb :=
  match l.2 with
  | .lookup dir name =>
    if s.isDirIno dir then some ((s.iget dir).tmpfsLookup dir name).state else none
  | .create dir name mode =>
    if s.isDirIno dir then some ((s.iget dir).tmpfsCreate l.1 dir name mode).state else none
  | .mkdir dir name mode =>
    if s.isDirIno dir then some ((s.iget dir).tmpfsMkdir l.1 dir name mode).2 else none
  | .symlink dir name symname =>
    if s.isDirIno dir then some ((s.iget dir).tmpfsSymlink l.1 dir name symname).2 else none
  | .mknod dir name mode rdev =>
    if s.isDirIno dir ∧ !sIsdir mode then
      some ((s.iget dir).tmpfsMknod l.1 dir name mode rdev).2
    else none
  | .link old dir name =>
    if s.isDirIno dir ∧ (s.findNode old).isSome then
      some (((s.iget old).iget dir).tmpfsLink l.1 old dir name).2
    else none
  | .unlink dir name =>
    if s.isDirIno dir then some ((s.iget dir).tmpfsUnlink l.1 dir name).2 else none
  | .rmdir dir name =>
    if s.isDirIno dir then some ((s.iget dir).tmpfsRmdir l.1 dir name).2 else none
  | .rename oldDir oldName newDir newName mustBeDir =>
    if s.isDirIno oldDir ∧ s.isDirIno newDir then
      some (((s.iget oldDir).iget newDir).tmpfsRename l.1 oldDir oldName newDir newName
        mustBeDir).2
    else none
  | .release ino => if s.held ino > 0 then some (s.iput ino) else none
  | .writeInode ino => s.writeInode ino
  | .evict ino => s.evict ino

/-- The mount that `tmpfs_read_super` makes, for the options `nr_inodes` and `mode`. -/
def mount (maxInodes : UInt32) (rootMode : UInt16) : TmpfsSb :=
  let root : Node :=
    { ino := tmpfsRootIno
      parentIno := tmpfsRootIno
      attr :=
        { mode := sIfdir ||| (rootMode &&& 0xfff), uid := 0, gid := 0, nlink := 2, rdev := 0
          size := 64 } }
  { maxInodes := maxInodes
    nrInodes := 1
    nextIno := tmpfsRootIno + 1
    nodes := [root]
    icache := update (fun _ => none) tmpfsRootIno (some ⟨root.attr, 1⟩) }

end TmpfsSb

end Six.Tmpfs
