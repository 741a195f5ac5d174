import Six.Tmpfs.Super
import Mathlib.Data.List.Count

/-! `tmpfs_readdir` on one open file, between creations and removals of entries in the directory.
The position in the file counts entries from the head of the list, and `tmpfs_add_dirent` puts new
entries at the head.  A directory has less than 2^31 entries, so the index does not wrap. -/

namespace Six.Tmpfs

open Lib List

/-- What a call returns: the directory itself, its parent, or an entry. -/
inductive Row
  | dot
  | dotdot
  | entry (d : Dirent)
  deriving DecidableEq

def Node.rows (dir : Node) : List Row := .dot :: .dotdot :: dir.entries.map .entry

/-- The directory, the position in the open file, what was returned so far, and the rows that have
been in the directory since the listing began. -/
structure Listing where
  dir : Node
  fPos : Nat
  shown : List Row
  kept : List Row

namespace Listing

def start (dir : Node) : Listing := ⟨dir, 0, [], dir.rows⟩

/-- `tmpfs_readdir`, with a `filldir` that takes `room` rows. -/
def tmpfsReaddir (room : Nat) (l : Listing) : Listing :=
  let taken := (l.dir.rows.drop l.fPos).take room
  { l with fPos := l.fPos + taken.length, shown := l.shown ++ taken }

def create (name : Name) (ino : UInt32) (l : Listing) : Listing :=
  match l.dir.findDirent name with
  | some _ => l
  | none => { l with dir := l.dir.withEntries (⟨name, ino⟩ :: l.dir.entries) }

def remove (name : Name) (l : Listing) : Listing :=
  match l.dir.findDirent name with
  | none => l
  | some d =>
    { l with
      dir := l.dir.withEntries (Table.erase Dirent.name l.dir.entries name)
      kept := l.kept.filter (· ≠ .entry d) }

inductive Call
  | readdir (room : Nat)
  | create (name : Name) (ino : UInt32)
  | remove (name : Name)

def step (l : Listing) : Call → Option Listing
  | .readdir room => some (l.tmpfsReaddir room)
  | .create name ino => some (l.create name ino)
  | .remove name => some (l.remove name)

/-- No row that was there all the time is returned twice, and at the end all of them have been
returned. -/
def EachOnce (l : Listing) : Prop :=
  ∀ r ∈ l.kept, l.shown.count r ≤ 1 ∧ (l.dir.rows.length ≤ l.fPos → l.shown.count r = 1)

/-- Entries are created before the first entry is returned, and a removed entry has not been
returned yet, or nothing is left to return. -/
def quiet (l : Listing) : Call → Bool
  | .readdir _ => true
  | .create _ _ => l.fPos ≤ 2
  | .remove name => match l.dir.findDirent name with
    | none => true
    | some d => .entry d ∉ l.dir.rows.take l.fPos ∨ l.dir.rows.length ≤ l.fPos

/-- The rows up to the position have been returned once, and the others not. -/
structure Placed (l : Listing) : Prop where
  names : (l.dir.entries.map Dirent.name).Nodup
  row : ∀ r ∈ l.kept, (r ∈ l.dir.rows.take l.fPos ∧ l.shown.count r = 1) ∨
    (r ∈ l.dir.rows.drop l.fPos ∧ l.shown.count r = 0)

theorem nodup_rows {dir : Node} (h : (dir.entries.map Dirent.name).Nodup) : dir.rows.Nodup := by
  have hrows : (dir.entries.map Row.entry).Nodup :=
    (List.Nodup.of_map Dirent.name h).map fun _ _ heq => Row.entry.inj heq
  simpa [Node.rows] using hrows

variable {l : Listing}

theorem Placed.eachOnce (h : l.Placed) : l.EachOnce := by
  intro r hr
  rcases h.row r hr with ⟨-, hcount⟩ | ⟨hmem, hcount⟩
  · exact ⟨by omega, fun _ => hcount⟩
  · refine ⟨by omega, fun hend => ?_⟩
    rw [drop_eq_nil_of_le hend] at hmem
    cases hmem

theorem Placed.tmpfsReaddir (h : l.Placed) (room : Nat) : (l.tmpfsReaddir room).Placed := by
  refine ⟨h.names, fun r hr => ?_⟩
  have hnodup := nodup_rows h.names
  have hrow := h.row r hr
  unfold Listing.tmpfsReaddir
  rw [take_add, ← drop_drop, count_append]
  rw [← take_append_drop l.fPos l.dir.rows] at hnodup
  generalize l.dir.rows.take l.fPos = passed at *
  generalize l.dir.rows.drop l.fPos = rest at *
  -- `rest` is what is taken now and what is left
  have hsplit := take_append_drop room rest
  generalize rest.take room = taken at *
  generalize rest.drop room = left at *
  subst hsplit
  rw [take_left, drop_left, mem_append]
  obtain ⟨-, hrest, hdisjoint⟩ := nodup_append.mp hnodup
  rcases hrow with ⟨hmem, hcount⟩ | ⟨hmem, hcount⟩
  · have hnot : taken.count r = 0 :=
      count_eq_zero.mpr fun hin => hdisjoint r hmem r (mem_append_left _ hin) rfl
    exact .inl ⟨.inl hmem, by omega⟩
  · rcases mem_append.mp hmem with hin | hin
    · have hone := count_eq_one_of_mem (nodup_append.mp hrest).1 hin
      exact .inl ⟨.inr hin, by omega⟩
    · have hnot : taken.count r = 0 :=
        count_eq_zero.mpr fun hin' => (nodup_append.mp hrest).2.2 r hin' r hin rfl
      exact .inr ⟨hin, by omega⟩

theorem Placed.create (h : l.Placed) (hpos : l.fPos ≤ 2) (name : Name) (ino : UInt32) :
    (l.create name ino).Placed := by
  unfold Listing.create
  cases hfind : l.dir.findDirent name with
  | some d => exact h
  | none =>
    refine ⟨nodup_cons.mpr ⟨Table.find_eq_none_iff.mp hfind, h.names⟩, fun r hr => ?_⟩
    refine (h.row r hr).imp (fun ⟨hmem, hcount⟩ => ⟨?_, hcount⟩) fun ⟨hmem, hcount⟩ => ⟨?_, hcount⟩
    all_goals
      dsimp only [Node.rows, Node.withEntries] at hmem ⊢
      rcases (by omega : l.fPos = 0 ∨ l.fPos = 1 ∨ l.fPos = 2) with hp | hp | hp <;>
        rw [hp] at hmem ⊢ <;> simp at hmem ⊢ <;> tauto

theorem Placed.remove (h : l.Placed) (hquiet : l.quiet (.remove name) = true) :
    (l.remove name).Placed := by
  unfold Listing.remove
  cases hfind : l.dir.findDirent name with
  | none => exact h
  | some d =>
    simp only [quiet, hfind, decide_eq_true_eq] at hquiet
    obtain ⟨before, after, hentries, herase⟩ := Table.erase_of_find hfind
    refine ⟨Table.nodup_erase h.names, fun r hr => ?_⟩
    obtain ⟨hkept, hne⟩ : r ∈ l.kept ∧ r ≠ .entry d := by simpa using hr
    have hrow := h.row r hkept
    have hold :
        l.dir.rows = (.dot :: .dotdot :: before.map .entry) ++ .entry d :: after.map .entry := by
      simp [Node.rows, hentries]
    have hnew : (l.dir.withEntries (Table.erase Dirent.name l.dir.entries name)).rows =
        (.dot :: .dotdot :: before.map .entry) ++ after.map .entry := by
      simp [Node.rows, Node.withEntries, herase]
    rw [hold] at hrow hquiet
    rw [hnew]
    generalize (.dot :: .dotdot :: before.map Row.entry) = pre at *
    generalize after.map Row.entry = post at *
    rcases hquiet with hunseen | hend
    · -- the rows up to the position stand before the entry
      have hle : l.fPos ≤ pre.length := by
        by_contra hlt
        rw [take_append, mem_append] at hunseen
        refine hunseen (.inr ?_)
        rw [show l.fPos - pre.length = (l.fPos - pre.length - 1) + 1 by omega]
        exact mem_cons_self
      rw [take_append_of_le_length hle, drop_append_of_le_length hle] at hrow ⊢
      simpa [hne] using hrow
    · rw [take_of_length_le hend, drop_eq_nil_of_le hend] at hrow
      rw [take_of_length_le (by simp at hend ⊢; omega)]
      refine .inl ?_
      simpa [hne] using hrow

theorem Placed.step (h : l.Placed) (hquiet : l.quiet c = true)
    (hstep : l.step c = some m) : m.Placed := by
  cases c with
  | readdir room =>
    obtain rfl := Option.some.inj hstep
    exact h.tmpfsReaddir room
  | create name ino =>
    obtain rfl := Option.some.inj hstep
    exact h.create (of_decide_eq_true hquiet) name ino
  | remove name =>
    obtain rfl := Option.some.inj hstep
    exact h.remove hquiet

/-- In a run of calls, creations and removals that are all quiet, every entry that is in the
directory during the whole listing is returned once. -/
theorem readdir_each_once {dir : Node} (hnames : (dir.entries.map Dirent.name).Nodup)
    (hrun : Reaches step (fun l c => l.quiet c = true) (start dir) l) : l.EachOnce :=
  Placed.eachOnce <|
    hrun.invariant ⟨hnames, fun _ hr => .inr ⟨hr, rfl⟩⟩ fun _ _ _ h hquiet hstep =>
      h.step hquiet hstep

def threeEntries : Node where
  ino := 1
  parentIno := 1
  attr := { mode := sIfdir, uid := 0, gid := 0, nlink := 2, rdev := 0, size := 0 }
  entries := [⟨[1], 11⟩, ⟨[2], 12⟩, ⟨[3], 13⟩]

theorem three_entries_each_once : ∃ l, run (guarded quiet step) (start threeEntries)
      [.readdir 2, .create [4] 14, .readdir 2, .remove [3], .readdir 8] = some l ∧
    l.shown = [.dot, .dotdot, .entry ⟨[4], 14⟩, .entry ⟨[1], 11⟩, .entry ⟨[2], 12⟩] ∧
      l.EachOnce := by
  have hnames : (threeEntries.entries.map Dirent.name).Nodup := by decide
  exact ⟨_, rfl, rfl, readdir_each_once hnames (reaches_of_guarded_run
    [.readdir 2, .create [4] 14, .readdir 2, .remove [3], .readdir 8] rfl)⟩

/-- Entry 1 is returned again after a creation, and entry 2 is left out after the removal of entry
1. -/
theorem three_entries_moved :
    (∃ l, run step (start threeEntries) [.readdir 3, .create [4] 14, .readdir 8] = some l ∧
      l.shown.count (.entry ⟨[1], 11⟩) = 2 ∧ ¬ l.EachOnce) ∧
    ∃ l, run step (start threeEntries) [.readdir 3, .remove [1], .readdir 8] = some l ∧
      l.shown.count (.entry ⟨[2], 12⟩) = 0 ∧ ¬ l.EachOnce :=
  ⟨⟨_, rfl, rfl, fun h => absurd (h (.entry ⟨[1], 11⟩) (by decide)).1 (by decide)⟩,
    ⟨_, rfl, rfl, fun h => absurd ((h (.entry ⟨[2], 12⟩) (by decide)).2 (by decide)) (by decide)⟩⟩

end Listing

end Six.Tmpfs
