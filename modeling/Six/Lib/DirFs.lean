import Six.Base.Errno
import Mathlib.Logic.Function.Basic
import Mathlib.Data.List.Lookmap

/-! Filesystems as the operations on directories see them: a table of inodes, in which a directory
maps names to inode numbers.  The entries `.` and `..` are not in its list. -/

namespace Six.Lib

open Errno List Function Option

abbrev Name := List UInt8

def Name.dot : Name := [46]

def Name.dotdot : Name := [46, 46]

structure Attr where
  mode : UInt32
  uid : UInt32
  gid : UInt32
  atime : UInt32
  mtime : UInt32
  deriving DecidableEq

inductive Body
  | file (data : List UInt8)
  | dir (parent : Nat) (entries : List (Name × Nat))
  | symlink (target : List UInt8)
  | special
  deriving DecidableEq

structure Inode where
  body : Body
  attr : Attr
  removed : Bool
  deriving DecidableEq

inductive Content
  | file (data : List UInt8)
  | dir
  | symlink (target : List UInt8)
  | special
  deriving DecidableEq

def dropName (name : Name) (es : List (Name × Nat)) : List (Name × Nat) := es.filter (·.1 ≠ name)

namespace Body

def entries : Body → List (Name × Nat)
  | .dir _ es => es
  | _ => []

def mapEntries (f : List (Name × Nat) → List (Name × Nat)) : Body → Body
  | .dir parent es => .dir parent (f es)
  | b => b

def mapData (f : List UInt8 → List UInt8) : Body → Body
  | .file data => .file (f data)
  | b => b

def content : Body → Content
  | .file data => .file data
  | .dir _ _ => .dir
  | .symlink target => .symlink target
  | .special => .special

/-- The inode that a name stands for in directory `self`. -/
def find (self : Nat) (name : Name) : Body → Option Nat
  | .dir parent es =>
    if name = .dot then some self
    else if name = .dotdot then some parent
    else es.lookup name
  | _ => none

theorem mem_entries_append {b : Body}
    (h : e ∈ (b.mapEntries (· ++ [x])).entries) : e ∈ b.entries ∨ e = x := by
  cases b with
  | dir parent es => simpa [mapEntries, entries] using h
  | _ => cases h

@[simp] theorem content_mapEntries (f : List (Name × Nat) → List (Name × Nat)) (b : Body) :
    (b.mapEntries f).content = b.content := by
  cases b <;> rfl

end Body

structure DirFs where
  inodes : Nat → Option Inode
  next : Nat
  fresh : ∀ i, next ≤ i → inodes i = none
  bound : ∀ d n, inodes d = some n → ∀ e ∈ n.body.entries, e.2 < next
  -- a walk down the tree does not come back
  acyclic : ∃ rank : Nat → Nat,
    ∀ d n, inodes d = some n → ∀ e ∈ n.body.entries, rank d < rank e.2
  dead : ∀ d n, inodes d = some n → n.removed = true → n.body.entries = []

namespace DirFs

/-- The filesystem whose inodes are the members of a list, numbered from 0, in which entries stand
for later members. -/
def ofList (l : List Inode)
    (h : ∀ p ∈ l.zipIdx, ∀ e ∈ p.1.body.entries, p.2 < e.2 ∧ e.2 < l.length)
    (hdead : ∀ n ∈ l, n.removed = true → n.body.entries = []) : DirFs where
  inodes := fun i => l[i]?
  next := l.length
  fresh := fun _ hi => getElem?_eq_none hi
  bound := fun i n hn e he => (h (n, i) (mk_mem_zipIdx_iff_getElem?.mpr hn) e he).2
  acyclic := ⟨id, fun i n hn e he => (h (n, i) (mk_mem_zipIdx_iff_getElem?.mpr hn) e he).1⟩
  dead := fun _ n hn => hdead n (mem_of_getElem? hn)

variable (fs : DirFs)

def content (i : Nat) : Option Content := (fs.inodes i).map (·.body.content)

def isDir (i : Nat) : Bool := fs.content i == some .dir

def entries (d : Nat) : List (Name × Nat) := (fs.inodes d).elim [] (·.body.entries)

def find (d : Nat) (name : Name) : Option Nat :=
  if 255 < name.length then none else (fs.inodes d).bind (·.body.find d name)

def lookup (d : Nat) (name : Name) : Except Int Nat :=
  if 255 < name.length then .error (-enametoolong)
  else match fs.find d name with
    | some i => .ok i
    | none => .error (-enoent)

/-- An inode with one more entry; one that has been removed takes none. -/
def addEntry (e : Name × Nat) (n : Inode) : Inode :=
  if n.removed then n else { n with body := n.body.mapEntries (· ++ [e]) }

theorem mem_entries_addEntry {n : Inode} (h : e ∈ (addEntry x n).body.entries) :
    e ∈ n.body.entries ∨ e = x := by
  unfold addEntry at h
  split at h
  · exact .inl h
  · exact Body.mem_entries_append h

def insert (d : Nat) (name : Name) (n : Inode) (h : n.body.entries = []) : DirFs where
  inodes := fun x =>
    if x = fs.next then some n
    else if x = d then (fs.inodes d).map (addEntry (name, fs.next))
    else fs.inodes x
  next := fs.next + 1
  fresh := by
    intro i hi
    rw [if_neg (by omega)]
    split
    · rename_i hid
      rw [← hid, fs.fresh i (by omega)]
      rfl
    · exact fs.fresh i (by omega)
  bound := by
    intro x m hm e he
    split at hm
    · cases hm
      simp [h] at he
    split at hm
    · obtain ⟨k, hk, rfl⟩ := map_eq_some_iff.mp hm
      rcases mem_entries_addEntry he with old | rfl
      · exact Nat.lt_succ_of_lt (fs.bound d k hk e old)
      · exact Nat.lt_succ_self _
    · exact Nat.lt_succ_of_lt (fs.bound x m hm e he)
  acyclic := by
    obtain ⟨rank, hrank⟩ := fs.acyclic
    refine ⟨update rank fs.next (rank d + 1), ?_⟩
    intro x m hm e he
    split at hm
    · cases hm
      simp [h] at he
    rename_i hx
    rw [update_of_ne hx]
    split at hm
    · rename_i hxd
      obtain ⟨k, hk, rfl⟩ := map_eq_some_iff.mp hm
      rcases mem_entries_addEntry he with old | rfl
      · rw [update_of_ne (Nat.ne_of_lt (fs.bound d k hk e old)), hxd]
        exact hrank d k hk e old
      · simp [hxd]
    · rw [update_of_ne (Nat.ne_of_lt (fs.bound x m hm e he))]
      exact hrank x m hm e he
  dead := by
    intro x m hm hr
    split at hm
    · cases hm
      exact h
    split at hm
    · obtain ⟨k, hk, rfl⟩ := map_eq_some_iff.mp hm
      unfold addEntry at hr ⊢
      split
      · exact fs.dead d k hk ‹_›
      · simp_all
    · exact fs.dead x m hm hr

/-- A change of one inode that gives it no entries. -/
structure Shrinks (f : Inode → Inode) : Prop where
  entries : ∀ n, ∀ e ∈ (f n).body.entries, e ∈ n.body.entries
  dead : ∀ n, (f n).removed = true → n.removed = true ∨ n.body.entries = []

def modify (i : Nat) (f : Inode → Inode) (h : Shrinks f) : DirFs where
  inodes := update fs.inodes i ((fs.inodes i).map f)
  next := fs.next
  fresh := by
    intro j hj
    rw [update_apply]
    split
    · rename_i hji
      rw [← hji, fs.fresh j hj]
      rfl
    · exact fs.fresh j hj
  bound := by
    intro d m hm e he
    rw [update_apply] at hm
    split at hm
    · obtain ⟨n, hn, rfl⟩ := map_eq_some_iff.mp hm
      exact fs.bound i n hn e (h.entries n e he)
    · exact fs.bound d m hm e he
  acyclic := by
    obtain ⟨rank, hrank⟩ := fs.acyclic
    refine ⟨rank, ?_⟩
    intro d m hm e he
    rw [update_apply] at hm
    split at hm
    · rename_i hdi
      obtain ⟨n, hn, rfl⟩ := map_eq_some_iff.mp hm
      rw [hdi]
      exact hrank i n hn e (h.entries n e he)
    · exact hrank d m hm e he
  dead := by
    intro d m hm hr
    rw [update_apply] at hm
    split at hm
    · obtain ⟨n, hn, rfl⟩ := map_eq_some_iff.mp hm
      have empty : n.body.entries = [] := by
        rcases h.dead n hr with hr | empty
        · exact fs.dead i n hn hr
        · exact empty
      apply eq_nil_iff_forall_not_mem.mpr
      intro e he
      simpa [empty] using h.entries n e he
    · exact fs.dead d m hm hr

def dropEntry (d : Nat) (name : Name) : DirFs :=
  fs.modify d (fun n => { n with body := n.body.mapEntries (dropName name) }) {
    entries := by
      intro n e he
      cases hn : n.body <;> simp_all [Body.mapEntries, Body.entries, dropName]
    dead := fun _ hr => .inl hr }

def setRemoved (i : Nat) : DirFs :=
  fs.modify i (fun n => if n.body.entries = [] then { n with removed := true } else n) {
    entries := by
      intro n e he
      split at he <;> exact he
    dead := by
      intro n hr
      split at hr
      · exact .inr ‹_›
      · exact .inl hr }

/-- The bytes of a file after a write at `pos`; a gap that the write leaves reads as zero. -/
def overwrite (data : List UInt8) (pos : Nat) (bytes : List UInt8) : List UInt8 :=
  data.take pos ++ List.replicate (pos - data.length) 0 ++ bytes ++ data.drop (pos + bytes.length)

def write (i pos : Nat) (bytes : List UInt8) : DirFs :=
  fs.modify i (fun n => { n with body := n.body.mapData (overwrite · pos bytes) }) {
    entries := by
      intro n e he
      cases hn : n.body <;> simp_all [Body.mapData, Body.entries]
    dead := fun _ hr => .inl hr }

def setAttr (i : Nat) (attr : Attr) : DirFs :=
  fs.modify i (fun n => { n with attr := attr }) ⟨fun _ _ he => he, fun _ hr => .inl hr⟩

def add (d : Nat) (name : Name) (n : Inode) (h : n.body.entries = []) :
    Except Int (DirFs × Nat) :=
  if 255 < name.length then .error (-enametoolong)
  else match fs.inodes d with
    | some ⟨.dir _ _, _, removed⟩ =>
      if removed then .error (-enoent)
      else if (fs.find d name).isSome then .error (-eexist)
      else .ok (fs.insert d name n h, fs.next)
    | _ => .error (-enotdir)

def create (d : Nat) (name : Name) (attr : Attr) : Except Int (DirFs × Nat) :=
  fs.add d name ⟨.file [], attr, false⟩ rfl

def mkdir (d : Nat) (name : Name) (attr : Attr) : Except Int (DirFs × Nat) :=
  fs.add d name ⟨.dir d [], attr, false⟩ rfl

def unlink (d : Nat) (name : Name) : Except Int DirFs :=
  match fs.find d name with
  | none => .error (-enoent)
  | some i =>
    if name = .dot ∨ name = .dotdot ∨ fs.isDir i then .error (-eperm)
    else .ok (fs.dropEntry d name)

def rmdir (d : Nat) (name : Name) : Except Int DirFs :=
  match fs.find d name with
  | none => .error (-enoent)
  | some i =>
    if i = d then .error (-eperm)
    else if !fs.isDir i then .error (-enotdir)
    else if name = .dotdot ∨ fs.entries i ≠ [] then .error (-enotempty)
    else .ok ((fs.dropEntry d name).setRemoved i)

section Changes

variable {fs fs' : DirFs} {d i x : Nat} {name m : Name} {n : Inode} {f : Inode → Inode}
  {bytes : List UInt8} {pos : Nat}

theorem find_of_inodes (h : fs'.inodes x = fs.inodes x) (m : Name) :
    fs'.find x m = fs.find x m := by
  simp only [find, h]

theorem content_of_inodes (h : fs'.inodes x = fs.inodes x) : fs'.content x = fs.content x := by
  simp only [content, h]

theorem find_lt_next (h : fs.find d name = some i) (hdot : name ≠ .dot) (hdotdot : name ≠ .dotdot) :
    i < fs.next := by
  unfold find at h
  split at h
  · cases h
  · obtain ⟨n, hn, hfind⟩ := bind_eq_some_iff.mp h
    cases hb : n.body with
    | dir parent es =>
      rw [hb] at hfind
      simp only [Body.find, hdot, hdotdot, if_false] at hfind
      refine fs.bound d n hn (name, i) ?_
      obtain ⟨l₁, l₂, hes, -⟩ := lookup_eq_some_iff.mp hfind
      rw [hb, Body.entries, hes]
      exact mem_append_right _ mem_cons_self
    | _ => simp [hb, Body.find] at hfind

theorem lt_next_of_content (h : fs.content i = some c) : i < fs.next := by
  by_contra hi
  simp [content, fs.fresh i (by omega)] at h

theorem isDir_iff : fs.isDir i = true ↔ fs.content i = some .dir := by
  simp [isDir]

theorem find_eq_none (h : fs.isDir d = false) : fs.find d name = none := by
  unfold find
  split
  · rfl
  · cases hn : fs.inodes d with
    | none => rfl
    | some n => cases hb : n.body <;> simp_all [isDir, content, Body.content, Body.find]

theorem modify_inodes_self : (fs.modify i f h).inodes i = (fs.inodes i).map f := by
  simp [modify]

theorem modify_inodes_of_ne (hx : x ≠ i) : (fs.modify i f h).inodes x = fs.inodes x := by
  simp [modify, hx]

theorem content_modify (hf : ∀ n, (f n).body.content = n.body.content) (x : Nat) :
    (fs.modify i f h).content x = fs.content x := by
  by_cases hx : x = i
  · subst x
    simp [content, modify_inodes_self, hf, comp_def]
  · exact content_of_inodes (modify_inodes_of_ne hx)

theorem find_modify_of_ne (hx : x ≠ i) (m : Name) : (fs.modify i f h).find x m = fs.find x m :=
  find_of_inodes (modify_inodes_of_ne hx) m

structure Added (fs fs' : DirFs) (d : Nat) (name : Name) (n : Inode) : Prop where
  absent : fs.find d name = none
  isDir : fs.isDir d = true
  next : fs'.next = fs.next + 1
  find_self : fs'.find d name = some fs.next
  find_other : ∀ x m, x ≠ fs.next → (x ≠ d ∨ m ≠ name) → fs'.find x m = fs.find x m
  content_old : ∀ x, x ≠ fs.next → fs'.content x = fs.content x
  content_new : fs'.content fs.next = some n.body.content
  entries_new : fs'.entries fs.next = []
  find_new : ∀ m, m ≠ .dot → m ≠ .dotdot → fs'.find fs.next m = none

theorem lookup_append_singleton_of_ne (es : List (Name × Nat)) (h : m ≠ name) :
    (es ++ [(name, i)]).lookup m = es.lookup m := by
  have hm : (m == name) = false := by simpa using h
  simp [lookup_append, lookup_cons, hm]

theorem lookup_append_singleton_self (es : List (Name × Nat)) (h : es.lookup name = none) :
    (es ++ [(name, i)]).lookup name = some i := by
  simp [lookup_append, h]

theorem find_addEntry_of_ne (h : m ≠ name) :
    (addEntry (name, i) n).body.find d m = n.body.find d m := by
  unfold addEntry
  split
  · rfl
  · cases hb : n.body <;> simp [Body.mapEntries, Body.find, lookup_append_singleton_of_ne _ h]

@[simp] theorem content_addEntry : (addEntry e n).body.content = n.body.content := by
  unfold addEntry
  split <;> simp

theorem find_insert_of_ne {hn : n.body.entries = []} (hx : x ≠ fs.next) (h : x ≠ d ∨ m ≠ name) :
    (fs.insert d name n hn).find x m = fs.find x m := by
  by_cases hxd : x = d
  · subst x
    have hm : m ≠ name := by simpa using h
    simp only [find, insert, if_neg hx, if_true]
    cases hi : fs.inodes d with
    | none => rfl
    | some i => simp only [map_some, bind_some, find_addEntry_of_ne hm]
  · apply find_of_inodes
    simp [insert, hx, hxd]

theorem content_insert_of_ne {hn : n.body.entries = []} (hx : x ≠ fs.next) :
    (fs.insert d name n hn).content x = fs.content x := by
  simp only [content, insert, if_neg hx]
  split
  · rename_i hxd
    simp [hxd, comp_def]
  · rfl

theorem added_of_add {hn : n.body.entries = []} (h : fs.add d name n hn = .ok (fs', i)) :
    i = fs.next ∧ Added fs fs' d name n := by
  unfold add at h
  split at h
  · cases h
  rename_i hlen
  split at h
  · rename_i parent es attr removed hd
    split at h
    · cases h
    rename_i hlive
    split at h
    · cases h
    rename_i hfind
    have absent : fs.find d name = none := by simpa using hfind
    have hne : d ≠ fs.next := by
      rintro rfl
      simp [fs.fresh _ (Nat.le_refl _)] at hd
    have plain : name ≠ .dot ∧ name ≠ .dotdot ∧ es.lookup name = none := by
      simp only [find, if_neg hlen, hd, bind_some, Body.find] at absent
      split at absent
      · cases absent
      split at absent
      · cases absent
      exact ⟨‹_›, ‹_›, absent⟩
    cases h
    refine ⟨rfl, absent, by simp [isDir, content, hd, Body.content], rfl, ?_,
      fun x m => find_insert_of_ne, fun x => content_insert_of_ne, by simp [content, insert],
      by simp [entries, insert, hn], ?_⟩
    · simp [find, hlen, insert, hne, hd, addEntry, hlive, Body.mapEntries, Body.find, plain,
        lookup_append_singleton_self]
    · intro m hdot hdotdot
      simp only [find, insert, if_true, bind_some]
      cases hb : n.body with
      | dir parent es =>
        rw [hb] at hn
        obtain rfl : es = [] := hn
        simp [Body.find, hdot, hdotdot]
      | _ => simp [Body.find]
  · cases h

theorem add_isOk {hn : n.body.entries = []} (hlen : name.length ≤ 255) (hdir : fs.isDir d = true)
    (hlive : ∀ n, fs.inodes d = some n → n.removed = false) (habsent : fs.find d name = none) :
    ∃ r, fs.add d name n hn = .ok r := by
  obtain ⟨k, hk, hc⟩ := map_eq_some_iff.mp (isDir_iff.mp hdir)
  obtain ⟨body, attr, removed⟩ := k
  obtain rfl : removed = false := hlive _ hk
  cases body with
  | dir parent es => simp [add, Nat.not_lt.mpr hlen, hk, habsent]
  | _ => cases hc

theorem lookup_dropName_of_ne (es : List (Name × Nat)) (h : m ≠ name) :
    (dropName name es).lookup m = es.lookup m := by
  unfold dropName
  induction es with
  | nil => rfl
  | cons e es ih =>
    by_cases he : e.1 = name
    · have hm : (m == e.1) = false := by simpa [he] using h
      rw [filter_cons_of_neg (by simp [he]), ih, lookup_cons, hm]
    · rw [filter_cons_of_pos (by simp [he]), lookup_cons, lookup_cons, ih]

theorem lookup_dropName_self (es : List (Name × Nat)) : (dropName name es).lookup name = none := by
  rw [lookup_eq_none_iff]
  intro e he
  have hne : e.1 ≠ name := by simpa using (mem_filter.mp he).2
  simpa using hne.symm

theorem find_dropEntry_of_ne (h : x ≠ d ∨ m ≠ name) :
    (fs.dropEntry d name).find x m = fs.find x m := by
  by_cases hx : x = d
  · subst x
    have hm : m ≠ name := by simpa using h
    unfold find dropEntry
    rw [modify_inodes_self]
    cases hn : fs.inodes d with
    | none => rfl
    | some n =>
      cases hb : n.body <;> simp [hb, Body.mapEntries, Body.find, lookup_dropName_of_ne _ hm]
  · exact find_modify_of_ne hx m

theorem find_dropEntry_self (hdot : name ≠ .dot) (hdotdot : name ≠ .dotdot) :
    (fs.dropEntry d name).find d name = none := by
  unfold find dropEntry
  rw [modify_inodes_self]
  cases hn : fs.inodes d with
  | none => simp
  | some n =>
    cases hb : n.body <;> simp [hb, Body.mapEntries, Body.find, hdot, hdotdot, lookup_dropName_self]

theorem content_dropEntry (x : Nat) : (fs.dropEntry d name).content x = fs.content x :=
  content_modify (fun n => by simp) x

structure Dropped (fs fs' : DirFs) (d : Nat) (name : Name) : Prop where
  present : (fs.find d name).isSome = true
  plain : name ≠ .dot ∧ name ≠ .dotdot
  next : fs'.next = fs.next
  find_self : fs'.find d name = none
  find_other : ∀ x m, x ≠ d ∨ m ≠ name → fs'.find x m = fs.find x m
  content : ∀ x, fs'.content x = fs.content x
  live : ∀ n, fs'.inodes d = some n → n.removed = false

theorem live_of_find (h : fs.find d name = some i) (hdot : name ≠ .dot) (hdotdot : name ≠ .dotdot)
    (hn : fs.inodes d = some n) : n.removed = false := by
  by_contra hr
  have empty := fs.dead d n hn (by simpa using hr)
  unfold find at h
  split at h
  · cases h
  rw [hn, bind_some] at h
  cases hb : n.body with
  | dir parent es =>
    obtain rfl : es = [] := by simpa [hb, Body.entries] using empty
    simp [hb, Body.find, hdot, hdotdot] at h
  | _ => simp [hb, Body.find] at h

theorem live_dropEntry (h : fs.find d name = some i) (hdot : name ≠ .dot) (hdotdot : name ≠ .dotdot)
    (hn : (fs.dropEntry d name).inodes d = some n) : n.removed = false := by
  rw [dropEntry, modify_inodes_self] at hn
  obtain ⟨k, hk, rfl⟩ := map_eq_some_iff.mp hn
  have live : k.removed = false := live_of_find h hdot hdotdot hk
  exact live

theorem dropped_of_unlink (h : fs.unlink d name = .ok fs') :
    Dropped fs fs' d name ∧ ∃ i, fs.find d name = some i ∧ fs.isDir i = false := by
  unfold unlink at h
  split at h
  · cases h
  rename_i i hfind
  split at h
  · cases h
  rename_i hdir
  simp only [not_or, Bool.not_eq_true] at hdir
  obtain ⟨hdot, hdotdot, file⟩ := hdir
  cases h
  exact ⟨⟨by simp [hfind], ⟨hdot, hdotdot⟩, rfl, find_dropEntry_self hdot hdotdot,
    fun x m => find_dropEntry_of_ne, content_dropEntry, fun _ => live_dropEntry hfind hdot hdotdot⟩,
    i, hfind, file⟩

theorem dropped_of_rmdir (h : fs.rmdir d name = .ok fs') :
    Dropped fs fs' d name ∧
      ∃ i, fs.find d name = some i ∧ i ≠ d ∧ fs.isDir i = true ∧ fs.entries i = [] := by
  unfold rmdir at h
  split at h
  · cases h
  rename_i i hfind
  split at h
  · cases h
  rename_i hself
  split at h
  · cases h
  rename_i hdir
  split at h
  · cases h
  rename_i hempty
  simp only [not_or, not_not] at hempty
  have hdot : name ≠ .dot := by
    rintro rfl
    obtain ⟨n, hn, hbody⟩ : ∃ n, fs.inodes d = some n ∧ n.body.find d .dot = some i := by
      simpa [find, Name.dot, bind_eq_some_iff] using hfind
    cases hb : n.body <;> simp [hb, Body.find] at hbody
    exact hself hbody.symm
  cases h
  have same : ∀ x m, ((fs.dropEntry d name).setRemoved i).find x m =
      (fs.dropEntry d name).find x m := by
    intro x m
    by_cases hx : x = i
    · subst x
      simp only [find, setRemoved, modify_inodes_self]
      cases (fs.dropEntry d name).inodes i with
      | none => rfl
      | some n =>
        simp only [map_some, bind_some]
        by_cases hn : n.body.entries = [] <;> simp [hn]
    · exact find_modify_of_ne hx m
  refine ⟨⟨by simp [hfind], ⟨hdot, hempty.1⟩, rfl, ?_, ?_, ?_, ?_⟩, i, hfind, hself,
    by simpa using hdir,
    hempty.2⟩
  · rw [same, find_dropEntry_self hdot hempty.1]
  · intro x m hxm
    rw [same, find_dropEntry_of_ne hxm]
  · intro x
    have kept :
        ((fs.dropEntry d name).setRemoved i).content x = (fs.dropEntry d name).content x := by
      unfold setRemoved
      apply content_modify
      intro n
      split <;> rfl
    rw [kept, content_dropEntry]
  · intro n hn
    rw [setRemoved, modify_inodes_of_ne (Ne.symm hself)] at hn
    exact live_dropEntry hfind hdot hempty.1 hn

theorem find_write : (fs.write i pos bytes).find x m = fs.find x m := by
  by_cases hx : x = i
  · subst x
    simp only [find, write, modify_inodes_self]
    cases fs.inodes i with
    | none => rfl
    | some n => cases hb : n.body <;> simp [hb, Body.mapData, Body.find]
  · exact find_modify_of_ne hx m

theorem content_write_of_ne (hx : x ≠ i) : (fs.write i pos bytes).content x = fs.content x :=
  content_of_inodes (modify_inodes_of_ne hx)

theorem content_write_self (h : fs.content i = some (.file data)) :
    (fs.write i pos bytes).content i = some (.file (overwrite data pos bytes)) := by
  obtain ⟨n, hn, hbody⟩ := map_eq_some_iff.mp h
  cases hb : n.body <;> rw [hb] at hbody <;> cases hbody
  simp [content, write, modify_inodes_self, hn, hb, Body.mapData, Body.content]

theorem isDir_write : (fs.write i pos bytes).isDir x = fs.isDir x := by
  by_cases hx : x = i
  · subst x
    simp only [isDir, content, write, modify_inodes_self]
    cases fs.inodes i with
    | none => rfl
    | some n => cases hb : n.body <;> simp [hb, Body.mapData, Body.content]
  · simp only [isDir, content_write_of_ne hx]

end Changes

end DirFs

end Six.Lib
