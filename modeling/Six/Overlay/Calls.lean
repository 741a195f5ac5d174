import Six.Overlay.Super
import Six.Lib.Run

/-! What the functions of the overlay leave as it was, and what each call into the upper filesystem
does when it succeeds. -/

namespace Six.Overlay

open Lib Errno List DirFs

def OvlNode.key (n : OvlNode) : Nat × Nat × Name := (n.ino, n.parentIno, n.name)

namespace OvlSb

variable {s s' : OvlSb} {d ino : Nat} {dir : Option Nat} {name m : Name} {n : OvlNode} {α : Type}
  {remove : OvlSb → Option Nat → OvlSb × Except Int Unit} {mode : UInt32} {e : Int}
  {f : OvlNode → OvlNode} {s1 s2 s3 : OvlSb} {r : Except Int (DirFs × α)} {a : α} {fs : DirFs}
  {i u : Nat}

structure Kept (s s' : OvlSb) : Prop where
  lower : s'.lower = s.lower
  rdonly : s'.rdonly = s.rdonly
  fault : s'.fault = s.fault
  nextIno : s'.nextIno = s.nextIno
  keys : s'.nodes.map OvlNode.key = s.nodes.map OvlNode.key

theorem Kept.refl (s : OvlSb) : Kept s s := ⟨rfl, rfl, rfl, rfl, rfl⟩

theorem Kept.trans (h1 : Kept s1 s2) (h2 : Kept s2 s3) : Kept s1 s3 :=
  ⟨h2.lower.trans h1.lower, h2.rdonly.trans h1.rdonly, h2.fault.trans h1.fault,
    h2.nextIno.trans h1.nextIno, h2.keys.trans h1.keys⟩

theorem findNode_ino (h : s.findNode ino = some n) : n.ino = ino := by
  simpa using find?_some h

theorem findNode_setNode (hf : ∀ n, (f n).ino = n.ino) (i j : Nat) :
    (s.setNode i f).findNode j = if j = i then (s.findNode j).map f else s.findNode j := by
  unfold findNode setNode
  rw [find?_map]
  have same : ((fun n : OvlNode => decide (n.ino = j)) ∘ fun n => if n.ino = i then f n else n) =
      fun n => decide (n.ino = j) := by
    funext n
    simp only [Function.comp_apply]
    split
    · rw [hf]
    · rfl
  rw [same]
  cases h : s.nodes.find? fun n => n.ino = j with
  | none => simp
  | some n =>
    obtain rfl : n.ino = j := by simpa using find?_some h
    simp only [Option.map_some]
    split <;> rfl

theorem findNode_setUpper (i j : Nat) (u : Option Nat) :
    (s.setUpper i u).findNode j =
      if j = i then (s.findNode j).map (fun n => { n with upper := u }) else s.findNode j := by
  unfold setUpper
  apply findNode_setNode
  exact fun _ => rfl

theorem kept_setNode (hf : ∀ n, (f n).key = n.key) (i : Nat) : Kept s (s.setNode i f) := by
  refine ⟨rfl, rfl, rfl, rfl, ?_⟩
  simp only [setNode, map_map]
  apply map_congr_left
  intro n _
  simp only [Function.comp_apply]
  split
  · exact hf n
  · rfl

theorem kept_setUpper (i : Nat) (u : Option Nat) : Kept s (s.setUpper i u) := by
  unfold setUpper
  apply kept_setNode
  exact fun _ => rfl

/-- A call moves the counters and, when it changes anything, the upper filesystem. -/
structure Called (s s' : OvlSb) : Prop extends Kept s s' where
  nodes : s'.nodes = s.nodes

theorem Called.refl (s : OvlSb) : Called s s := ⟨.refl s, rfl⟩

theorem Called.trans (h1 : Called s1 s2) (h2 : Called s2 s3) : Called s1 s3 :=
  ⟨h1.toKept.trans h2.toKept, h2.nodes.trans h1.nodes⟩

theorem Called.findNode (h : Called s s') (i : Nat) : s'.findNode i = s.findNode i := by
  unfold OvlSb.findNode
  rw [h.nodes]

theorem upperLookup_called : Called s (s.upperLookup dir name).1 := by
  unfold upperLookup
  split
  · exact .refl s
  split
  · exact ⟨⟨rfl, rfl, rfl, rfl, rfl⟩, rfl⟩
  · exact .refl s

theorem upperLookup_upper : (s.upperLookup dir name).1.upper = s.upper := by
  unfold upperLookup
  split
  · rfl
  split <;> rfl

theorem update_called : Called s (s.update r).1 := by
  unfold update
  split <;> exact ⟨⟨rfl, rfl, rfl, rfl, rfl⟩, rfl⟩

theorem onDir_called {f : Nat → Except Int (DirFs × α)} : Called s (s.onDir dir f).1 := by
  unfold onDir
  split
  · exact .refl s
  split
  · exact update_called
  · exact .refl s

theorem realUnlink_called : Called s (s.realUnlink dir name).1 := onDir_called

theorem realRmdir_called : Called s (s.realRmdir dir name).1 := onDir_called

theorem realCreate_called : Called s (s.realCreate dir name mode).1 := onDir_called

theorem realMkdir_called : Called s (s.realMkdir dir name mode).1 := onDir_called

theorem hasWhiteout_called : Called s (s.hasWhiteout dir name).1 := by
  unfold hasWhiteout
  split
  · exact .refl s
  · exact upperLookup_called

theorem removeWhiteout_called : Called s (s.removeWhiteout dir name) := by
  unfold removeWhiteout
  split
  · exact .refl s
  dsimp only
  split
  · exact upperLookup_called.trans realUnlink_called
  · exact upperLookup_called

theorem createWhiteout_called : Called s (s.createWhiteout dir name).1 := by
  unfold createWhiteout
  split
  · exact .refl s
  split
  · exact .refl s
  dsimp only
  split
  · exact upperLookup_called
  · exact upperLookup_called.trans realCreate_called

def entry (fs : DirFs) (dir : Option Nat) (name : Name) : Option Nat := dir.bind (fs.find · name)

theorem lookup_eq_ok : fs.lookup d name = .ok i ↔ fs.find d name = some i := by
  unfold DirFs.lookup
  split
  · rename_i hlen
    simp [find, hlen]
  · cases h : fs.find d name <;> simp

theorem onLookup_ok {r : Except Int α} (h : s.onLookup r = .ok a) : r = .ok a := by
  unfold onLookup faulty at h
  split at h
  · split at h
    · cases h
    · exact h
  · exact h

theorem upperLookup_ok (h : (s.upperLookup dir name).2 = .ok i) :
    entry s.upper dir name = some i := by
  unfold upperLookup at h
  split at h
  · cases h
  split at h
  · exact lookup_eq_ok.mp (onLookup_ok h)
  · cases h

def LooksUp (s : OvlSb) : Prop := ∀ k err, s.fault ≠ .lookup k err

theorem LooksUp.kept (h : LooksUp s) (k : Kept s s') : LooksUp s' := by
  intro j err
  rw [k.fault]
  exact h j err

theorem upperLookup_toOption (h : LooksUp s) :
    (s.upperLookup dir name).2.toOption = entry s.upper dir name := by
  have same : ∀ r : Except Int Nat, s.onLookup r = r := by
    intro r
    unfold onLookup
    split
    · rename_i k err hf
      exact absurd hf (h k err)
    · rfl
  unfold upperLookup
  split
  · rfl
  rename_i d
  split
  · rw [same, entry, Option.bind_some]
    cases hfind : s.upper.find d name with
    | none =>
      cases hl : s.upper.lookup d name with
      | error e => rfl
      | ok i => simp [lookup_eq_ok.mp hl] at hfind
    | some i => rw [lookup_eq_ok.mpr hfind]; rfl
  · rename_i hdir
    rw [entry, Option.bind_some, find_eq_none (by simpa using hdir)]
    rfl

theorem toOption_isSome (r : Except Int α) : r.toOption.isSome = r.isOk := by
  cases r <;> rfl

theorem upperLookup_isOk (h : LooksUp s) (dir : Option Nat) (name : Name) :
    (s.upperLookup dir name).2.isOk = (entry s.upper dir name).isSome := by
  rw [← toOption_isSome, upperLookup_toOption h]

theorem update_ok (h : (s.update r).2 = .ok a) : r = .ok ((s.update r).1.upper, a) := by
  unfold update at h ⊢
  cases hr : s.onUpdate r with
  | error e => simp [hr] at h
  | ok p =>
    obtain ⟨upper, b⟩ := p
    obtain rfl : b = a := by simpa [hr] using h
    have unhurt : r = .ok (upper, b) := by
      unfold onUpdate faulty at hr
      split at hr
      · split at hr
        · cases hr
        · exact hr
      · exact hr
    exact unhurt

theorem update_error (h : (s.update r).2 = .error e) : (s.update r).1.upper = s.upper := by
  unfold update at h ⊢
  cases hr : s.onUpdate r with
  | error e => rfl
  | ok p => simp [hr] at h

theorem onDir_ok {f : Nat → Except Int (DirFs × α)} (h : (s.onDir dir f).2 = .ok a) :
    ∃ d, dir = some d ∧ s.upper.isDir d = true ∧ f d = .ok ((s.onDir dir f).1.upper, a) := by
  unfold onDir at h ⊢
  cases dir with
  | none => cases h
  | some d =>
    simp only at h ⊢
    split at h
    · rename_i hdir
      rw [if_pos hdir]
      exact ⟨d, rfl, hdir, update_ok h⟩
    · cases h

theorem onDir_error {f : Nat → Except Int (DirFs × α)} (h : (s.onDir dir f).2 = .error e) :
    (s.onDir dir f).1.upper = s.upper := by
  unfold onDir at h ⊢
  cases dir with
  | none => rfl
  | some d =>
    simp only at h ⊢
    split at h
    · rename_i hdir
      rw [if_pos hdir]
      exact update_error h
    · rename_i hdir
      rw [if_neg hdir]

theorem map_unit_ok {r : Except Int DirFs} (h : r.map (·, ()) = .ok (fs, ())) : r = .ok fs := by
  cases r with
  | error e => cases h
  | ok fs' =>
    cases h
    rfl

theorem realUnlink_ok (h : (s.realUnlink dir name).2 = .ok ()) :
    ∃ d i, dir = some d ∧ DirFs.Dropped s.upper (s.realUnlink dir name).1.upper d name ∧
      s.upper.find d name = some i ∧ s.upper.isDir i = false := by
  obtain ⟨d, hd, -, hun⟩ := onDir_ok h
  obtain ⟨dropped, i, hi, hfile⟩ := dropped_of_unlink (map_unit_ok hun)
  exact ⟨d, i, hd, dropped, hi, hfile⟩

theorem realUnlink_error (h : (s.realUnlink dir name).2 = .error e) :
    (s.realUnlink dir name).1.upper = s.upper :=
  onDir_error h

theorem realRmdir_ok (h : (s.realRmdir dir name).2 = .ok ()) :
    ∃ d i, dir = some d ∧ DirFs.Dropped s.upper (s.realRmdir dir name).1.upper d name ∧
      s.upper.find d name = some i ∧ i ≠ d ∧ s.upper.isDir i = true ∧ s.upper.entries i = [] := by
  obtain ⟨d, hd, -, hun⟩ := onDir_ok h
  obtain ⟨dropped, i, hi, hne, hdir, hempty⟩ := dropped_of_rmdir (map_unit_ok hun)
  exact ⟨d, i, hd, dropped, hi, hne, hdir, hempty⟩

theorem realCreate_ok (h : (s.realCreate dir name mode).2 = .ok u) :
    ∃ d, dir = some d ∧ u = s.upper.next ∧ DirFs.Added s.upper
      (s.realCreate dir name mode).1.upper d name
        ⟨.file [], { s.stamp with mode := mode }, false⟩ := by
  obtain ⟨d, hd, -, hadd⟩ := onDir_ok h
  obtain ⟨hu, added⟩ := added_of_add hadd
  exact ⟨d, hd, hu, added⟩

theorem realMkdir_ok (h : (s.realMkdir dir name mode).2 = .ok u) :
    ∃ d, dir = some d ∧ u = s.upper.next ∧ DirFs.Added s.upper
      (s.realMkdir dir name mode).1.upper d name
        ⟨.dir d [], { s.stamp with mode := mode }, false⟩ := by
  obtain ⟨d, hd, -, hadd⟩ := onDir_ok h
  obtain ⟨hu, added⟩ := added_of_add hadd
  exact ⟨d, hd, hu, added⟩

theorem refreshNode_kept : Kept s (s.refreshNode n) := by
  unfold refreshNode
  split
  · exact .refl s
  split
  · exact .refl s
  split
  · exact .refl s
  · exact upperLookup_called.toKept.trans (kept_setUpper _ _)

theorem attachUpper_kept : Kept s (s.attachUpper n dir).1 := by
  unfold attachUpper
  dsimp only
  split
  · exact upperLookup_called.toKept
  · exact upperLookup_called.toKept.trans (kept_setUpper _ _)

theorem makeUpperDir_kept : Kept s (s.makeUpperDir n dir).1 := by
  have made : Kept s ((s.removeWhiteout dir n.name).realMkdir dir n.name (s.dirMode n)).1 :=
    (removeWhiteout_called.trans realMkdir_called).toKept
  unfold makeUpperDir
  dsimp only
  split
  · split
    · exact made.trans attachUpper_kept
    · exact made
  · exact made.trans attachUpper_kept

theorem ensureUpperDirFrom_kept (fuel : Nat) : Kept s (ensureUpperDirFrom fuel s ino).1 := by
  induction fuel generalizing ino with
  | zero => exact .refl s
  | succ fuel ih =>
    unfold ensureUpperDirFrom
    split
    · exact .refl s
    split
    · exact .refl s
    split
    · exact .refl s
    split
    · exact .refl s
    unfold belowParent
    split
    · exact ih
    · exact ih.trans makeUpperDir_kept

theorem ensureUpperDir_kept : Kept s (s.ensureUpperDir ino).1 := ensureUpperDirFrom_kept ino

theorem plantWhiteout_kept : Kept s (s.plantWhiteout ino name).1 := by
  unfold plantWhiteout
  dsimp only
  split
  · exact ensureUpperDir_kept
  · exact ensureUpperDir_kept.trans createWhiteout_called.toKept

theorem forgetChild_kept : Kept s (s.forgetChild ino name) := by
  unfold forgetChild
  split
  · exact kept_setUpper _ _
  · exact .refl s

theorem hideLower_kept : Kept s (s.hideLower ino name l).1 := by
  unfold hideLower
  split
  · exact plantWhiteout_kept
  · exact .refl s

theorem dropUpper_kept (hr : ∀ s dir, Kept s (remove s dir).1) {u : OvlSb × Except Int Nat}
    (hu : Kept s u.1) : Kept s (dropUpper u dir remove).1 := by
  unfold dropUpper
  split
  · exact hu.trans (hr _ _)
  · exact hu

theorem removeEntry_kept (hr : ∀ s dir, Kept s (remove s dir).1)
    (hf : ∀ s, Kept s (finish s)) : Kept s (s.removeEntry ino name remove finish).1 := by
  unfold removeEntry
  split
  · exact .refl s
  split
  · exact .refl s
  rename_i n hn
  dsimp only
  split
  · exact upperLookup_called.toKept
  have removed : Kept s (dropUpper (s.upperLookup n.upper name) n.upper remove).1 :=
    dropUpper_kept hr upperLookup_called.toKept
  split
  · exact removed
  · exact (removed.trans hideLower_kept).trans (hf _)

theorem copyData_called (fuel : Nat) (u pos : Nat) (rest : List UInt8) :
    Called s (copyData fuel s u pos rest).1 := by
  induction fuel generalizing s pos rest with
  | zero => exact .refl s
  | succ fuel ih =>
    have read : Called s { s with reads := s.reads + 1 } := ⟨⟨rfl, rfl, rfl, rfl, rfl⟩, rfl⟩
    unfold copyData
    split
    · exact .refl s
    dsimp only
    split
    · exact read
    split
    · exact read.trans update_called
    · exact (read.trans update_called).trans (ih _ _)

theorem clearUpper_called : Called s (s.clearUpper dir name) := by
  unfold clearUpper
  dsimp only
  split
  · exact upperLookup_called.trans realUnlink_called
  · exact upperLookup_called

theorem copyUpFile_kept : Kept s (s.copyUpFile n dir data attr).1 := by
  unfold copyUpFile
  dsimp only
  have created : Called s (((s.removeWhiteout dir n.name).clearUpper dir n.name).realCreate dir
      n.name attr.mode).1 :=
    (removeWhiteout_called.trans clearUpper_called).trans realCreate_called
  split
  · exact created.toKept
  have copied := created.trans (copyData_called data.length ‹Nat› 0 data)
  split
  · exact (copied.trans realUnlink_called).toKept
  · refine copied.toKept.trans (Kept.trans ?_ (kept_setUpper _ _))
    exact ⟨rfl, rfl, rfl, rfl, rfl⟩

theorem copyUp_kept : Kept s (s.copyUp ino).1 := by
  unfold copyUp
  split
  · exact .refl s
  split
  · exact .refl s
  rename_i n hn
  dsimp only
  have refreshed : Kept s (s.refreshNode n) := refreshNode_kept
  split
  · exact refreshed
  split
  · exact refreshed
  · exact refreshed.trans ensureUpperDir_kept
  · split
    · exact refreshed
    split
    · exact refreshed.trans ensureUpperDir_kept
    · exact (refreshed.trans ensureUpperDir_kept).trans copyUpFile_kept
  · exact refreshed

end OvlSb

end Six.Overlay
