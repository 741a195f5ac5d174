import Six.Lib.DirFs

/-! The overlay filesystem: a writable upper tree over a read-only lower one.  `OvlSb` is a mounted
overlay.  Its nodes are the inodes that the overlay has handed out, each with the real inodes that
it stands for; the attributes of an overlay inode are those of its upper inode or, without one, of
its lower inode.  At most one call into the filesystems fails in each operation besides those that
have to, and `fault` says which.  Memory for nodes and inodes is taken to be there. -/

namespace Six.Overlay

open Lib Errno

def rootIno : Nat := 1

def pageSize : Nat := 4096

structure OvlNode where
  ino : Nat
  parentIno : Nat
  name : Name
  upper : Option Nat
  lower : Option Nat
  deriving DecidableEq

inductive Fault
  | none
  | lookup (k : Nat) (err : Int)
  | update (k : Nat) (err : Int)
  | read (k : Nat) (err : Int)
  deriving DecidableEq

structure OvlSb where
  upper : DirFs
  lower : DirFs
  nodes : List OvlNode
  nextIno : Nat
  rdonly : Bool
  fault : Fault
  -- the number of bytes past the first that each read of a lower file returns at most
  grain : Nat → Nat
  -- calls made by the operation that is running
  lookups : Nat
  updates : Nat
  reads : Nat
  -- owner and time of what the operation that is running creates
  stamp : Attr

def whPrefix : Name := [46, 119, 104, 46]

def isWhiteoutName (name : Name) : Bool := 4 < name.length && name.take 4 == whPrefix

def makeWhiteoutName (name : Name) : Except Int Name :=
  if name.length = 0 ∨ 263 ≤ name.length + 4 then .error (-enametoolong) else .ok (whPrefix ++ name)

namespace OvlSb

variable (s : OvlSb)

def findNode (ino : Nat) : Option OvlNode := s.nodes.find? (·.ino = ino)

def findChildNode (parentIno : Nat) (name : Name) : Option OvlNode :=
  s.nodes.find? fun n => n.parentIno = parentIno ∧ n.name = name

def setNode (ino : Nat) (f : OvlNode → OvlNode) : OvlSb :=
  { s with nodes := s.nodes.map fun n => if n.ino = ino then f n else n }

def setUpper (ino : Nat) (upper : Option Nat) : OvlSb :=
  s.setNode ino fun n => { n with upper := upper }

def getOrCreateChildNode (parentIno : Nat) (name : Name) (upper lower : Option Nat) :
    OvlSb × Nat :=
  match s.findChildNode parentIno name with
  | some n => (s.setNode n.ino fun n => { n with upper := upper, lower := lower }, n.ino)
  | none =>
    ({ s with
        nodes := ⟨s.nextIno, parentIno, name, upper, lower⟩ :: s.nodes
        nextIno := s.nextIno + 1 }, s.nextIno)

def isDir (n : OvlNode) : Bool :=
  match n.upper with
  | some u => s.upper.isDir u
  | none => n.lower.any s.lower.isDir

def faulty (fails : Bool) (err : Int) {α : Type} (r : Except Int α) : Except Int α :=
  if fails then .error err else r

def onLookup {α : Type} (r : Except Int α) : Except Int α :=
  match s.fault with
  | .lookup k err => faulty (k == s.lookups) err r
  | _ => r

def onUpdate {α : Type} (r : Except Int α) : Except Int α :=
  match s.fault with
  | .update k err => faulty (k == s.updates) err r
  | _ => r

def onRead {α : Type} (r : Except Int α) : Except Int α :=
  match s.fault with
  | .read k err => faulty (k == s.reads) err r
  | _ => r

def setUpperFs (upper : DirFs) : OvlSb := { s with upper := upper }

def update {α : Type} (r : Except Int (DirFs × α)) : OvlSb × Except Int α :=
  match s.onUpdate r with
  | .error e => ({ s with updates := s.updates + 1 }, .error e)
  | .ok (upper, a) => ({ s with updates := s.updates + 1, upper := upper }, .ok a)

def upperLookup (dir : Option Nat) (name : Name) : OvlSb × Except Int Nat :=
  match dir with
  | none => (s, .error (-enoent))
  | some d =>
    if s.upper.isDir d then
      ({ s with lookups := s.lookups + 1 }, s.onLookup (s.upper.lookup d name))
    else (s, .error (-enoent))

def lowerLookup (dir : Option Nat) (name : Name) : Option Nat :=
  dir.bind (s.lower.find · name)

/-- A change of a directory of the upper filesystem, which a file has no method for. -/
def onDir (dir : Option Nat) {α : Type} (f : Nat → Except Int (DirFs × α)) :
    OvlSb × Except Int α :=
  match dir with
  | none => (s, .error (-erofs))
  | some d => if s.upper.isDir d then s.update (f d) else (s, .error (-erofs))

def realCreate (dir : Option Nat) (name : Name) (mode : UInt32) :
    OvlSb × Except Int Nat :=
  s.onDir dir fun d => s.upper.create d name { s.stamp with mode := mode }

def realMkdir (dir : Option Nat) (name : Name) (mode : UInt32) :
    OvlSb × Except Int Nat :=
  s.onDir dir fun d => s.upper.mkdir d name { s.stamp with mode := mode }

def realUnlink (dir : Option Nat) (name : Name) : OvlSb × Except Int Unit :=
  s.onDir dir fun d => (s.upper.unlink d name).map (·, ())

def realRmdir (dir : Option Nat) (name : Name) : OvlSb × Except Int Unit :=
  s.onDir dir fun d => (s.upper.rmdir d name).map (·, ())

def hasWhiteout (dir : Option Nat) (name : Name) : OvlSb × Bool :=
  match makeWhiteoutName name with
  | .error _ => (s, false)
  | .ok wh =>
    let r := s.upperLookup dir wh
    (r.1, r.2.isOk)

def removeWhiteout (dir : Option Nat) (name : Name) : OvlSb :=
  match makeWhiteoutName name with
  | .error _ => s
  | .ok wh =>
    let r := s.upperLookup dir wh
    if r.2.isOk then (r.1.realUnlink dir wh).1 else r.1

def createWhiteout (dir : Option Nat) (name : Name) : OvlSb × Except Int Unit :=
  if dir = none then (s, .error (-erofs))
  else match makeWhiteoutName name with
    | .error e => (s, .error e)
    | .ok wh =>
      let r := s.upperLookup dir wh
      if r.2.isOk then (r.1, .ok ())
      else
        let c := r.1.realCreate dir wh 0o100000
        (c.1, c.2.map fun _ => ())

def refreshNode (n : OvlNode) : OvlSb :=
  if n.ino = rootIno then s
  else match s.findNode n.parentIno with
    | none => s
    | some parent =>
      if parent.upper = none then s
      else
        let r := s.upperLookup parent.upper n.name
        r.1.setUpper n.ino r.2.toOption

def attachUpper (n : OvlNode) (dir : Option Nat) : OvlSb × Except Int Unit :=
  let r := s.upperLookup dir n.name
  match r.2 with
  | .error e => (r.1, .error e)
  | .ok u => (r.1.setUpper n.ino (some u), .ok ())

def dirMode (n : OvlNode) : UInt32 :=
  match n.lower.bind s.lower.inodes with
  | some l => l.attr.mode &&& 0o7777
  | none => 0o755

def makeUpperDir (n : OvlNode) (dir : Option Nat) : OvlSb × Except Int Unit :=
  let m := (s.removeWhiteout dir n.name).realMkdir dir n.name (s.dirMode n)
  match m.2 with
  | .error e => if e = -eexist then m.1.attachUpper n dir else (m.1, .error e)
  | .ok _ => m.1.attachUpper n dir

def upperOf (ino : Nat) : Option Nat := (s.findNode ino).bind (·.upper)

/-- The directory of a node, once there is an answer for its parent. -/
def belowParent (r : OvlSb × Except Int Unit) (n : OvlNode) : OvlSb × Except Int Unit :=
  match r.2 with
  | .error e => (r.1, .error e)
  | .ok () => r.1.makeUpperDir n (r.1.upperOf n.parentIno)

/-- The recursion goes from a node to its parent, whose number is smaller. -/
def ensureUpperDirFrom : Nat → OvlSb → Nat → OvlSb × Except Int Unit
  | 0, s, _ => (s, .error (-enoent))
  | fuel + 1, s, ino =>
    match s.findNode ino with
    | none => (s, .error (-enoent))
    | some n =>
      if n.upper.isSome then (s, .ok ())
      else if n.ino = rootIno then (s, .error (-erofs))
      else if (s.findNode n.parentIno).isNone then (s, .error (-enoent))
      else belowParent (ensureUpperDirFrom fuel s n.parentIno) n

def ensureUpperDir (ino : Nat) : OvlSb × Except Int Unit :=
  ensureUpperDirFrom ino s ino

def copyData : Nat → OvlSb → Nat → Nat → List UInt8 → OvlSb × Except Int Unit
  | 0, s, _, _, _ => (s, .ok ())
  | fuel + 1, s, u, pos, rest =>
    if rest = [] then (s, .ok ())
    else
      let chunk := rest.take (min pageSize (s.grain s.reads + 1))
      match s.onRead (.ok ()) with
      | .error e => ({ s with reads := s.reads + 1 }, .error e)
      | .ok () =>
        let w := OvlSb.update { s with reads := s.reads + 1 } (.ok (s.upper.write u pos chunk, ()))
        match w.2 with
        | .error e => (w.1, .error e)
        | .ok () => copyData fuel w.1 u (pos + chunk.length) (rest.drop chunk.length)

/-- An entry that is already there makes room for the copy. -/
def clearUpper (dir : Option Nat) (name : Name) : OvlSb :=
  let old := s.upperLookup dir name
  if old.2.isOk then (old.1.realUnlink dir name).1 else old.1

/-- A regular file with the bytes `data` and the attributes `attr` is copied into the upper
directory `dir`. -/
def copyUpFile (n : OvlNode) (dir : Option Nat) (data : List UInt8) (attr : Attr) :
    OvlSb × Except Int Unit :=
  let c := ((s.removeWhiteout dir n.name).clearUpper dir n.name).realCreate dir n.name attr.mode
  match c.2 with
  | .error e => (c.1, .error e)
  | .ok u =>
    let w := copyData data.length c.1 u 0 data
    match w.2 with
    | .error e => ((w.1.realUnlink dir n.name).1, .error e)
    | .ok () => ((w.1.setUpperFs (w.1.upper.setAttr u attr)).setUpper n.ino (some u), .ok ())

def copyUp (ino : Nat) : OvlSb × Except Int Unit :=
  if s.rdonly then (s, .error (-erofs))
  else match s.findNode ino with
    | none => (s, .error (-enoent))
    | some n =>
      let s := s.refreshNode n
      if (s.upperOf ino).isSome then (s, .ok ())
      else match n.lower.bind s.lower.inodes with
        | none => (s, .error (-enoent))
        | some ⟨.dir _ _, _, _⟩ => s.ensureUpperDir ino
        | some ⟨.file data, attr, _⟩ =>
          if (s.findNode n.parentIno).isNone then (s, .error (-enoent))
          else
            let r := s.ensureUpperDir n.parentIno
            match r.2 with
            | .error e => (r.1, .error e)
            | .ok () => r.1.copyUpFile n (r.1.upperOf n.parentIno) data attr
        | some _ => (s, .error (-eperm))

def realChild (upper lower : Option Nat) (name : Name) :
    OvlSb × Option Nat × Option Nat :=
  let r := s.upperLookup upper name
  let wh := r.1.hasWhiteout upper name
  (wh.1, r.2.toOption, if wh.2 then none else wh.1.lowerLookup lower name)

def ovlLookup (dir : Nat) (name : Name) : OvlSb × Except Int Nat :=
  match s.findNode dir with
  | none => (s, .error (-enoent))
  | some n =>
    if !s.isDir n then (s, .error (-enotdir))
    else if name = [] ∨ name = .dot then (s, .ok dir)
    else if name = .dotdot then
      (s, if (s.findNode n.parentIno).isSome then .ok n.parentIno else .error (-enoent))
    else if 255 < name.length ∨ isWhiteoutName name then (s, .error (-enoent))
    else
      let s := s.refreshNode n
      let r := s.realChild (s.upperOf dir) n.lower name
      if r.2.1 = none ∧ r.2.2 = none then (r.1, .error (-enoent))
      else
        let c := r.1.getOrCreateChildNode dir name r.2.1 r.2.2
        (c.1, .ok c.2)

def ovlCreate (dir : Nat) (name : Name) (mode : UInt32) : OvlSb × Except Int Nat :=
  if s.rdonly then (s, .error (-erofs))
  else if name = [] ∨ 255 < name.length ∨ isWhiteoutName name then (s, .error (-einval))
  else match s.findNode dir with
    | none => (s, .error (-enoent))
    | some n =>
      let r := s.ensureUpperDir dir
      match r.2 with
      | .error e => (r.1, .error e)
      | .ok () =>
        let upper := r.1.upperOf dir
        let c := (r.1.removeWhiteout upper name).realCreate upper name mode
        match c.2 with
        | .error e => (c.1, .error e)
        | .ok u =>
          let child := c.1.getOrCreateChildNode dir name (some u) (c.1.lowerLookup n.lower name)
          (child.1, .ok child.2)

def ovlMkdir (dir : Nat) (name : Name) (mode : UInt32) : OvlSb × Except Int Unit :=
  if s.rdonly then (s, .error (-erofs))
  else match s.findNode dir with
    | none => (s, .error (-enoent))
    | some _ =>
      let r := s.ensureUpperDir dir
      match r.2 with
      | .error e => (r.1, .error e)
      | .ok () =>
        let upper := r.1.upperOf dir
        let m := (r.1.removeWhiteout upper name).realMkdir upper name mode
        (m.1, m.2.map fun _ => ())

def plantWhiteout (dir : Nat) (name : Name) : OvlSb × Except Int Unit :=
  let r := s.ensureUpperDir dir
  match r.2 with
  | .error e => (r.1, .error e)
  | .ok () => r.1.createWhiteout (r.1.upperOf dir) name

def hideLower (dir : Nat) (name : Name) (l : Option Nat) : OvlSb × Except Int Unit :=
  if l.isSome then s.plantWhiteout dir name else (s, .ok ())

/-- The result `u` of a lookup in an upper directory is followed by the removal of what it found. -/
def dropUpper (u : OvlSb × Except Int Nat) (dir : Option Nat)
    (remove : OvlSb → Option Nat → OvlSb × Except Int Unit) : OvlSb × Except Int Unit :=
  if u.2.isOk then remove u.1 dir else (u.1, .ok ())

/-- The part that `ovlUnlink` and `ovlRmdir` share: `remove` takes the entry out of the upper
directory, an entry of the lower directory is hidden, and `finish` follows. -/
def removeEntry (dir : Nat) (name : Name)
    (remove : OvlSb → Option Nat → OvlSb × Except Int Unit) (finish : OvlSb → OvlSb) :
    OvlSb × Except Int Unit :=
  if s.rdonly then (s, .error (-erofs))
  else match s.findNode dir with
    | none => (s, .error (-enoent))
    | some n =>
      let u := s.upperLookup n.upper name
      let l := u.1.lowerLookup n.lower name
      if u.2.isOk = false ∧ l = none then (u.1, .error (-enoent))
      else
        let r := dropUpper u n.upper remove
        match r.2 with
        | .error e => (r.1, .error e)
        | .ok () =>
          let h := r.1.hideLower dir name l
          (finish h.1, h.2)

def forgetChild (dir : Nat) (name : Name) : OvlSb :=
  match s.findChildNode dir name with
  | some n => s.setUpper n.ino none
  | none => s

def ovlUnlink (dir : Nat) (name : Name) : OvlSb × Except Int Unit :=
  s.removeEntry dir name (fun s upper => s.realUnlink upper name) (·.forgetChild dir name)

def ovlRmdir (dir : Nat) (name : Name) : OvlSb × Except Int Unit :=
  s.removeEntry dir name (fun s upper => s.realRmdir upper name) id

end OvlSb

inductive Op
  | lookup (dir : Nat) (name : Name)
  | create (dir : Nat) (name : Name) (mode : UInt32)
  | mkdir (dir : Nat) (name : Name) (mode : UInt32)
  | unlink (dir : Nat) (name : Name)
  | rmdir (dir : Nat) (name : Name)
  | copyUp (ino : Nat)
  deriving DecidableEq

/-- An operation, with the call that fails in it and the owner and time of what it creates. -/
structure Call where
  op : Op
  fault : Fault
  stamp : Attr
  deriving DecidableEq

namespace OvlSb

def begin (s : OvlSb) (c : Call) : OvlSb :=
  { s with fault := c.fault, stamp := c.stamp, lookups := 0, updates := 0, reads := 0 }

/-- The result of an operation: the number of the inode that it returns, or 0. -/
def exec (s : OvlSb) (c : Call) : OvlSb × Except Int Nat :=
  let quiet (r : OvlSb × Except Int Unit) : OvlSb × Except Int Nat := (r.1, r.2.map fun _ => 0)
  match c.op with
  | .lookup dir name => (s.begin c).ovlLookup dir name
  | .create dir name mode => (s.begin c).ovlCreate dir name mode
  | .mkdir dir name mode => quiet ((s.begin c).ovlMkdir dir name mode)
  | .unlink dir name => quiet ((s.begin c).ovlUnlink dir name)
  | .rmdir dir name => quiet ((s.begin c).ovlRmdir dir name)
  | .copyUp ino => quiet ((s.begin c).copyUp ino)

def step (s : OvlSb) (c : Call) : Option OvlSb := some (s.exec c).1

def mount (upper lower : DirFs) (upperRoot lowerRoot : Nat) (rdonly : Bool)
    (grain : Nat → Nat := fun _ => pageSize) : OvlSb where
  upper := upper
  lower := lower
  nodes := [⟨rootIno, rootIno, [], some upperRoot, some lowerRoot⟩]
  nextIno := 2
  rdonly := rdonly
  fault := .none
  grain := grain
  lookups := 0
  updates := 0
  reads := 0
  stamp := ⟨0, 0, 0, 0, 0⟩

end OvlSb

end Six.Overlay
