import Mathlib.Data.List.Perm.Basic
import Six.Fuse.Node

/-! The file handles of a FUSE mount.  `fuse_create` parks the handle of its FUSE_CREATE in the
inode, and the next `fuse_file_open` of the inode takes it.  Requests for a file name the node of
its inode, which every reply with an entry sets.  Other tasks may run between any two steps; an open
that fails before it takes the handle is a step that does not come.  Left out are the fallback to
FUSE_MKNOD, which returns no handle, and FUSE_FLUSH, which keeps it. -/

namespace Six.Fuse

open Lib List Function

/-- A handle that the daemon has returned to a call. -/
structure Handle where
  fh : UInt64
  node : UInt64
  call : Nat
  deriving DecidableEq

/-- An open file, and the call that opened it.  Without a handle `fh` is 0. -/
structure OpenFile where
  call : Nat
  ino : UInt32
  handle : Option Handle
  deriving DecidableEq

/-- A call that waits for the reply to the FUSE_OPEN that it has sent for `node`. -/
structure OpenCall where
  call : Nat
  ino : UInt32
  node : UInt64
  deriving DecidableEq

/-- `nodeid` is that of each inode, and `parked` the inodes in which `has_create_fh` is set.
`returned` and `released` record all handles and FUSE_RELEASE requests. -/
structure Handles where
  noOpen : Bool
  connected : Bool := true
  nodeid : UInt32 → UInt64 := fun ino => (Mount.fuseReadInode ino).nodeid
  parked : List (UInt32 × Handle) := []
  waiting : List OpenCall := []
  files : List OpenFile := []
  returned : List Handle := []
  released : List (UInt64 × Handle) := []

inductive OpenReply
  | opened (fh : UInt64)
  | short
  | enosys
  | failed

inductive HandleOp
  | created (call : Nat) (node fh : UInt64) (iget : Bool)
  /-- another reply with an entry for `node` -/
  | entry (node : UInt64)
  | open (call : Nat) (ino : UInt32)
  | opened (w : OpenCall) (reply : OpenReply)
  | release (f : OpenFile)
  | putInode (ino : UInt32)
  | abort

namespace Handles

variable (s : Handles)

def getNodeid (ino : UInt32) : UInt64 := fuseGetNodeid ino { nodeid := s.nodeid ino, count := 1 }

def parkedIn (ino : UInt32) : Option Handle := (s.parked.find? (·.1 = ino)).map (·.2)

def clear (ino : UInt32) : List (UInt32 × Handle) := s.parked.filter (·.1 ≠ ino)

def addFile (call : Nat) (ino : UInt32) (handle : Option Handle) : Handles :=
  { s with files := ⟨call, ino, handle⟩ :: s.files }

/-- `fuse_iget` finds the inode by its folded number and sets its node. -/
def fuseIget (node : UInt64) : Handles :=
  { s with
    nodeid := if node = 0 then s.nodeid else update s.nodeid (fuseInoFromNodeid node) node }

/-- `fuse_create` when FUSE_CREATE has succeeded. -/
def fuseCreate (call : Nat) (node fh : UInt64) (iget : Bool) : Handles :=
  let s := { s with returned := ⟨fh, node, call⟩ :: s.returned }
  let ino := fuseInoFromNodeid node
  if iget ∧ node ≠ 0 then
    { s.fuseIget node with parked := (ino, ⟨fh, node, call⟩) :: s.clear ino }
  else s

/-- `fuse_file_open` up to its request. -/
def fuseFileOpen (call : Nat) (ino : UInt32) : Handles :=
  match s.parkedIn ino with
  | some h => { s with parked := s.parked.erase (ino, h) }.addFile call ino (some h)
  | none =>
    if s.noOpen then s.addFile call ino none
    else { s with waiting := ⟨call, ino, s.getNodeid ino⟩ :: s.waiting }

/-- The rest of `fuse_file_open`. -/
def fuseFileOpened (w : OpenCall) : OpenReply → Handles
  | .opened fh =>
    { s with returned := ⟨fh, w.node, w.call⟩ :: s.returned }.addFile w.call w.ino
      (some ⟨fh, w.node, w.call⟩)
  | .short => s.addFile w.call w.ino none
  | .enosys => { s with noOpen := true }.addFile w.call w.ino none
  | .failed => s

/-- `fuse_file_release` names the node that the inode has by now. -/
def fuseFileRelease (f : OpenFile) : Handles :=
  { s with
    files := s.files.erase f
    released := if s.connected && !s.noOpen then
      (f.handle.toList.map fun h => (s.getNodeid f.ino, h)) ++ s.released else s.released }

/-- `fuse_put_inode` clears an inode other than the root with its last reference. -/
def fusePutInode (ino : UInt32) : Handles :=
  { s with
    parked := s.clear ino
    nodeid := update s.nodeid ino (Mount.fuseReadInode ino).nodeid }

def step : HandleOp → Option Handles
  | .created call node fh iget => some (s.fuseCreate call node fh iget)
  | .entry node => some (s.fuseIget node)
  | .open call ino => some (s.fuseFileOpen call ino)
  | .opened w reply =>
    if w ∈ s.waiting then some ({ s with waiting := s.waiting.erase w }.fuseFileOpened w reply)
    else none
  | .release f => if f ∈ s.files then some (s.fuseFileRelease f) else none
  | .putInode ino =>
    if ino ≠ 1 ∧ (∀ f ∈ s.files, f.ino ≠ ino) ∧ ∀ w ∈ s.waiting, w.ino ≠ ino then
      some (s.fusePutInode ino)
    else none
  | .abort => some { s with connected := false }

def held : List Handle := s.files.filterMap (·.handle)

/-- A handle is in a file of its own call only, goes back for its own node only, and, while the
mount is connected, every handle is in one place: parked, in an open file, or given back. -/
structure Good : Prop where
  own : ∀ f ∈ s.files, ∀ h ∈ f.handle, h.call = f.call
  same : ∀ r ∈ s.released, r.1 = r.2.node
  once : s.connected = true → s.parked.map (·.2) ++ s.held ++ s.released.map (·.2) ~ s.returned

/-- The inode is open, is being opened or has a handle parked in it. -/
def InUse (ino : UInt32) : Prop :=
  (∃ f ∈ s.files, f.ino = ino) ∨ (∃ w ∈ s.waiting, w.ino = ino) ∨ ∃ q ∈ s.parked, q.1 = ino

/-- An entry for `node` leaves an inode in use with the node that it has. -/
def NoCollision (node : UInt64) : Prop :=
  s.InUse (fuseInoFromNodeid node) → s.getNodeid (fuseInoFromNodeid node) = node

/-- No two nodes share an inode in use.  A create gets its inode, in which nothing is parked; the
handle that an open takes is of its own call; no inode is cleared with a handle; no handle is
returned without FUSE_OPEN support. -/
def Orderly : HandleOp → Prop
  | .created _ node _ iget => iget = true ∧ node ≠ 0 ∧ s.NoCollision node ∧
      s.parkedIn (fuseInoFromNodeid node) = none ∧ s.noOpen = false
  | .entry node => s.NoCollision node
  | .open call ino => ∀ h ∈ s.parkedIn ino, h.call = call
  | .opened _ (.opened _) => s.noOpen = false
  | .opened _ .enosys => s.returned = []
  | .putInode ino => s.parkedIn ino = none
  | _ => True

structure Inv : Prop extends Good s where
  file : ∀ f ∈ s.files, ∀ h ∈ f.handle, h.node = s.getNodeid f.ino
  sent : ∀ w ∈ s.waiting, w.node = s.getNodeid w.ino
  park : ∀ q ∈ s.parked, q.2.node = s.getNodeid q.1
  noOpen : s.connected = true → s.noOpen = true → s.returned = []

variable {s} {t : Handles} {call : Nat} {node fh : UInt64} {ino : UInt32} {h : Handle}
  {f : OpenFile} {w : OpenCall} {op : HandleOp}

theorem mem_parked (hparked : s.parkedIn ino = some h) : (ino, h) ∈ s.parked := by
  obtain ⟨q, hq, rfl⟩ := Option.map_eq_some_iff.mp hparked
  obtain rfl : q.1 = ino := by simpa using find?_some hq
  exact mem_of_find?_eq_some hq

theorem not_mem_parked (hnone : s.parkedIn ino = none) : ∀ q ∈ s.parked, q.1 ≠ ino :=
  fun q hq => by simpa using find?_eq_none.mp (Option.map_eq_none_iff.mp hnone) q hq

theorem clear_eq (hnone : s.parkedIn ino = none) : s.clear ino = s.parked :=
  filter_eq_self.mpr fun q hq => by simpa using not_mem_parked hnone q hq

theorem getNodeid_fuseIget_self (hnode : node ≠ 0) :
    (s.fuseIget node).getNodeid (fuseInoFromNodeid node) = node := by
  simp [fuseIget, getNodeid, fuseGetNodeid, hnode]

theorem getNodeid_fuseIget (hsame : s.NoCollision node) (huse : s.InUse ino) :
    (s.fuseIget node).getNodeid ino = s.getNodeid ino := by
  by_cases hnode : node = 0
  · simp [fuseIget, getNodeid, hnode]
  · by_cases hino : ino = fuseInoFromNodeid node
    · subst hino
      rw [getNodeid_fuseIget_self hnode, hsame huse]
    · simp [fuseIget, getNodeid, hnode, hino]

/-- The nodes of the inodes that are not in use do not matter. -/
theorem Inv.renode (inv : Inv s) {nodeid : UInt32 → UInt64}
    (keep : ∀ ino, s.InUse ino → { s with nodeid }.getNodeid ino = s.getNodeid ino) :
    Inv { s with nodeid } where
  own := inv.own
  same := inv.same
  once := inv.once
  file f hf h hh := (inv.file f hf h hh).trans (keep _ (.inl ⟨f, hf, rfl⟩)).symm
  sent w hw := (inv.sent w hw).trans (keep _ (.inr (.inl ⟨w, hw, rfl⟩))).symm
  park q hq := (inv.park q hq).trans (keep _ (.inr (.inr ⟨q, hq, rfl⟩))).symm
  noOpen := inv.noOpen

theorem Inv.addNone (inv : Inv s) : Inv (s.addFile call ino none) :=
  { inv with
    own := forall_mem_cons.mpr ⟨nofun, inv.own⟩
    once := inv.once
    file := forall_mem_cons.mpr ⟨nofun, inv.file⟩ }

theorem Inv.created (inv : Inv s) (hnode : node ≠ 0) (hsame : s.NoCollision node)
    (hnone : s.parkedIn (fuseInoFromNodeid node) = none) (hopen : s.noOpen = false) :
    Inv (s.fuseCreate call node fh true) := by
  have inv' : Inv (s.fuseIget node) := inv.renode fun _ huse => getNodeid_fuseIget hsame huse
  rw [fuseCreate, if_pos ⟨rfl, hnode⟩]
  refine { inv' with once := fun hc => ?_, park := ?_, noOpen := fun _ hno => ?_ }
  · show (_ :: (s.clear _).map (·.2) ++ s.held ++ s.released.map (·.2)).Perm _
    rw [clear_eq hnone]
    exact (inv.once hc).cons _
  · refine forall_mem_cons.mpr ⟨(getNodeid_fuseIget_self hnode).symm, ?_⟩
    show ∀ q ∈ s.clear _, _
    rw [clear_eq hnone]
    exact inv'.park
  · exact absurd (hopen.symm.trans hno) Bool.false_ne_true

theorem Inv.take (inv : Inv s) (hparked : s.parkedIn ino = some h) (hcall : h.call = call) :
    Inv ({ s with parked := s.parked.erase (ino, h) }.addFile call ino (some h)) where
  own := forall_mem_cons.mpr ⟨fun _ hh => Option.some.inj hh ▸ hcall, inv.own⟩
  same := inv.same
  once hc := by
    have hperm := (perm_cons_erase (mem_parked hparked)).map (·.2)
    refine .trans (.append_right _ ?_) (inv.once hc)
    exact perm_middle.trans (hperm.symm.append_right _)
  file := forall_mem_cons.mpr
    ⟨fun _ hh => Option.some.inj hh ▸ inv.park _ (mem_parked hparked), inv.file⟩
  sent := inv.sent
  park q hq := inv.park q (mem_of_mem_erase hq)
  noOpen := inv.noOpen

theorem Inv.opened (inv : Inv s) (hsent : w.node = s.getNodeid w.ino) (hopen : s.noOpen = false) :
    Inv (s.fuseFileOpened w (.opened fh)) where
  own := forall_mem_cons.mpr ⟨fun _ hh => Option.some.inj hh ▸ rfl, inv.own⟩
  same := inv.same
  once hc := .trans (.append_right _ perm_middle) ((inv.once hc).cons _)
  file := forall_mem_cons.mpr ⟨fun _ hh => Option.some.inj hh ▸ hsent, inv.file⟩
  sent := inv.sent
  park := inv.park
  noOpen _ hno := by simp [fuseFileOpened, addFile, hopen] at hno

theorem Inv.release (inv : Inv s) (hf : f ∈ s.files) :
    Inv (s.fuseFileRelease f) where
  own g hg := inv.own g (mem_of_mem_erase hg)
  same r hr := by
    simp only [fuseFileRelease] at hr
    split_ifs at hr
    · obtain hr | hr := mem_append.mp hr
      · obtain ⟨h, hh, rfl⟩ := mem_map.mp hr
        exact (inv.file f hf h (Option.mem_toList.mp hh)).symm
      · exact inv.same r hr
    · exact inv.same r hr
  once hc := by
    have hheld : s.held ~ f.handle.toList ++ (s.fuseFileRelease f).held := by
      refine ((perm_cons_erase hf).filterMap _).trans ?_
      cases hh : f.handle <;> simp [hh, held, fuseFileRelease]
    have hsent : (s.fuseFileRelease f).released.map (·.2) =
        f.handle.toList ++ s.released.map (·.2) := by
      cases hno : s.noOpen with
      | false => simp [fuseFileRelease, show s.connected = true from hc, hno, Function.comp_def]
      | true =>
        -- without FUSE_OPEN support no handle was returned
        have hnone := inv.once hc
        simp only [inv.noOpen hc hno, perm_nil, append_eq_nil_iff] at hnone
        rw [hnone.1.2, nil_perm, append_eq_nil_iff] at hheld
        simp [fuseFileRelease, hno, hheld.1]
    refine .trans ?_ (inv.once hc)
    rw [hsent, ← append_assoc, append_assoc ((s.fuseFileRelease f).parked.map _)]
    exact .append_right _ (.append_left _ (perm_append_comm.trans hheld.symm))
  file g hg := inv.file g (mem_of_mem_erase hg)
  sent := inv.sent
  park := inv.park
  noOpen := inv.noOpen

theorem Inv.putInode (inv : Inv s) (hfiles : ∀ f ∈ s.files, f.ino ≠ ino)
    (hwaiting : ∀ w ∈ s.waiting, w.ino ≠ ino) (hnone : s.parkedIn ino = none) :
    Inv (s.fusePutInode ino) := by
  rw [fusePutInode, clear_eq hnone]
  refine inv.renode fun ino' huse => ?_
  have hne : ino' ≠ ino := by
    rintro rfl
    obtain ⟨f, hf, heq⟩ | ⟨w, hw, heq⟩ | ⟨q, hq, heq⟩ := huse
    · exact hfiles f hf heq
    · exact hwaiting w hw heq
    · exact not_mem_parked hnone q hq heq
  simp [getNodeid, hne]

theorem Inv.step (inv : Inv s) (ho : s.Orderly op) (h : s.step op = some t) : Inv t := by
  cases op with
  | created call node fh iget =>
    obtain ⟨rfl, hnode, hsame, hnone, hopen⟩ := ho
    cases h
    exact inv.created hnode hsame hnone hopen
  | entry node =>
    cases h
    exact inv.renode fun _ huse => getNodeid_fuseIget ho huse
  | «open» call ino =>
    cases h
    unfold fuseFileOpen
    cases hparked : s.parkedIn ino with
    | some h => exact inv.take hparked (ho h hparked)
    | none =>
      split_ifs
      · exact inv.addNone
      · exact { inv with sent := forall_mem_cons.mpr ⟨rfl, inv.sent⟩ }
  | opened w reply =>
    obtain ⟨hw, ⟨⟩⟩ := Option.ite_none_right_eq_some.mp h
    have inv' : Inv { s with waiting := s.waiting.erase w } :=
      { inv with sent := fun v hv => inv.sent v (mem_of_mem_erase hv) }
    cases reply with
    | opened fh => exact inv'.opened (inv.sent w hw) ho
    | short => exact inv'.addNone
    | enosys => exact Inv.addNone { inv' with noOpen := fun _ _ => ho }
    | failed => exact inv'
  | release f =>
    obtain ⟨hf, ⟨⟩⟩ := Option.ite_none_right_eq_some.mp h
    exact inv.release hf
  | putInode ino =>
    obtain ⟨⟨-, hfiles, hwaiting⟩, ⟨⟩⟩ := Option.ite_none_right_eq_some.mp h
    exact inv.putInode hfiles hwaiting ho
  | abort =>
    cases h
    exact { inv with once := nofun, noOpen := nofun }

end Handles

end Six.Fuse
