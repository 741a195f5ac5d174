import Six.Overlay.CopyUp
import Mathlib.Data.List.Nodup

/-! `ovl_readdir` against `ovl_lookup`.  A call collects the entries of both directories in a table
of 256 items, where the first mark of a name counts.  The calls of `readdir` on the two directories
are taken to succeed and to pass all entries to the callback; the rows `.` and `..`, which the
callback passes over, are not among the entries. -/

namespace Six.Overlay

open Lib Errno List

def maxDirEntries : Nat := 256

structure DirItem where
  name : Name
  ino : Nat
  isWhiteout : Bool

def DirItem.mark (i : DirItem) : Name × Bool := (i.name, i.isWhiteout)

def markOf (scanningUpper : Bool) (name : Name) : Option (Name × Bool) :=
  if name = [] ∨ 255 < name.length ∨ name = .dot ∨ name = .dotdot then none
  else if isWhiteoutName name then
    if scanningUpper then some (name.drop 4, true) else none
  else some (name, false)

def ovlCollectFilldir (scanningUpper : Bool) (items : List DirItem) (e : Name × Nat) :
    List DirItem :=
  match markOf scanningUpper e.1 with
  | none => items
  | some (name, isWhiteout) =>
    if items.any (·.name = name) ∨ maxDirEntries ≤ items.length then items
    else
      let ino := if isWhiteout then 0 else if e.2 = 0 then items.length + 10 else e.2
      items ++ [⟨name, ino, isWhiteout⟩]

namespace OvlSb

variable {s : OvlSb} {n : OvlNode} {name : Name} {dir : Option Nat}

def dirItems (s : OvlSb) (upper lower : Option Nat) : List DirItem :=
  let items := (upper.elim [] s.upper.entries).foldl (ovlCollectFilldir true) []
  (lower.elim [] s.lower.entries).foldl (ovlCollectFilldir false) items

def dirRows (s : OvlSb) (n : OvlNode) (upper : Option Nat) : List (Name × Nat) :=
  (.dot, n.ino) :: (.dotdot, n.parentIno) ::
    ((s.dirItems upper n.lower).filter (!·.isWhiteout)).map fun i => (i.name, i.ino)

/-- A call from position `fPos` on, with a `filldir` that takes `room` rows. -/
def ovlReaddir (s : OvlSb) (dir fPos room : Nat) : OvlSb × Except Int (List (Name × Nat)) :=
  match s.findNode dir with
  | none => (s, .error (-enoent))
  | some n =>
    if !s.isDir n then (s, .error (-enotdir))
    else
      let s := s.refreshNode n
      (s, .ok (((s.dirRows n (s.upperOf dir)).drop fPos).take room))

/-- The rows that calls with the given room return one after another. -/
def listing (dir : Nat) : OvlSb → Nat → List Nat → List (Name × Nat)
  | _, _, [] => []
  | s, fPos, room :: rooms =>
    match s.ovlReaddir dir fPos room with
    | (_, .error _) => []
    | (s, .ok rows) => rows ++ listing dir s (fPos + rows.length) rooms

/-- Every name that a lookup resolves is listed once, and no other name. -/
def Agrees (s : OvlSb) (dir : Nat) (rows : List (Name × Nat)) : Prop :=
  (rows.map Prod.fst).Nodup ∧
    ∀ name, name ≠ [] → (name ∈ rows.map Prod.fst ↔ (s.ovlLookup dir name).2.isOk = true)

def marks (scanningUpper : Bool) (fs : DirFs) (dir : Option Nat) : List (Name × Bool) :=
  (dir.elim [] fs.entries).filterMap fun e => markOf scanningUpper e.1

def upperMarks (s : OvlSb) (n : OvlNode) : List (Name × Bool) := marks true s.upper n.upper

def allMarks (s : OvlSb) (n : OvlNode) : List (Name × Bool) :=
  s.upperMarks n ++ marks false s.lower n.lower

def firsts : List (Name × Bool) → List (Name × Bool)
  | [] => []
  | m :: ms => m :: (firsts ms).filter (·.1 ≠ m.1)

structure Listable (s : OvlSb) (n : OvlNode) : Prop where
  -- no whiteout comes before the upper entry of its name
  ordered : ∀ name, (s.upperMarks n).find? (·.1 = name) = some (name, true) →
    (name, false) ∉ s.upperMarks n
  -- names that come after 256 others are hidden
  fits : ∀ m ∈ (firsts (s.allMarks n)).drop maxDirEntries, m.2 = true

section Table

variable {up : Bool} {items : List DirItem} {ms : List (Name × Bool)} {m : Name × Bool}

theorem mem_firsts_iff : m ∈ firsts ms ↔ ms.find? (·.1 = m.1) = some m := by
  induction ms with
  | nil => simp [firsts]
  | cons x ms ih =>
    by_cases hx : x.1 = m.1
    · simp [firsts, hx, eq_comm]
    · have hne : m ≠ x := fun h => hx (by rw [h])
      have hne' : m.1 ≠ x.1 := fun h => hx h.symm
      simp [firsts, hx, hne, hne', ih]

theorem nodup_firsts (ms : List (Name × Bool)) : ((firsts ms).map Prod.fst).Nodup := by
  induction ms with
  | nil => exact .nil
  | cons x ms ih =>
    exact nodup_cons.mpr ⟨by simp, ih.sublist (filter_sublist.map _)⟩

theorem firsts_concat : firsts (ms ++ [m]) =
    if m.1 ∈ (firsts ms).map Prod.fst then firsts ms else firsts ms ++ [m] := by
  induction ms with
  | nil => simp [firsts]
  | cons x ms ih =>
    rw [cons_append, firsts, ih, firsts]
    have hiff : m.1 ∈ (x :: (firsts ms).filter (·.1 ≠ x.1)).map Prod.fst ↔
        m.1 = x.1 ∨ m.1 ∈ (firsts ms).map Prod.fst := by
      by_cases hx : m.1 = x.1 <;> simp [hx]
    rw [if_congr hiff rfl rfl]
    by_cases hx : m.1 = x.1
    · have hor : m.1 = x.1 ∨ m.1 ∈ (firsts ms).map Prod.fst := .inl hx
      rw [if_pos hor]
      split <;> simp [hx]
    · simp only [hx, false_or]
      split <;> simp [hx]

def Tabled (items : List DirItem) (ms : List (Name × Bool)) : Prop :=
  items.map DirItem.mark = (firsts ms).take maxDirEntries

theorem Tabled.collect (h : Tabled items ms) (up : Bool) (e : Name × Nat) :
    Tabled (ovlCollectFilldir up items e) (ms ++ (markOf up e.1).toList) := by
  unfold ovlCollectFilldir
  cases markOf up e.1 with
  | none => simpa using h
  | some m =>
    obtain ⟨name, wh⟩ := m
    unfold Tabled at h ⊢
    have hlen : items.length = min maxDirEntries (firsts ms).length := by
      rw [← length_take, ← h, length_map]
    have hany : items.any (·.name = name) = true ↔
        name ∈ ((firsts ms).take maxDirEntries).map Prod.fst := by
      rw [← h]
      simp [DirItem.mark]
    dsimp only [Option.toList_some]
    rw [firsts_concat]
    by_cases hfull : maxDirEntries ≤ items.length
    · rw [if_pos (.inr hfull)]
      split
      · exact h
      · rw [take_append_of_le_length (by omega)]
        exact h
    · have hall : (firsts ms).take maxDirEntries = firsts ms := take_of_length_le (by omega)
      rw [hall] at h hany
      by_cases hseen : name ∈ (firsts ms).map Prod.fst
      · rw [if_pos hseen, if_pos (.inl (hany.mpr hseen)), hall]
        exact h
      · rw [if_neg hseen, if_neg (not_or.mpr ⟨fun h' => hseen (hany.mp h'), hfull⟩),
          take_of_length_le (by simp; omega), map_append, h]
        rfl

theorem Tabled.foldl (h : Tabled items ms) (es : List (Name × Nat)) :
    Tabled (es.foldl (ovlCollectFilldir up) items) (ms ++ es.filterMap fun e => markOf up e.1) := by
  induction es generalizing items ms with
  | nil => simpa using h
  | cons e es ih =>
    have hrest := ih (h.collect up e)
    rw [append_assoc] at hrest
    rw [foldl_cons, filterMap_cons]
    cases hm : markOf up e.1 <;> rw [hm] at hrest <;> exact hrest

end Table

theorem map_dirRows : (s.dirRows n n.upper).map Prod.fst = .dot :: .dotdot ::
    (((firsts (s.allMarks n)).take maxDirEntries).filter (!·.2)).map Prod.fst := by
  have hempty : Tabled [] [] := rfl
  have htable : Tabled (s.dirItems n.upper n.lower) (s.allMarks n) := (hempty.foldl _).foldl _
  unfold dirRows
  rw [← htable, filter_map, map_map]
  simp only [map_cons, map_map]
  rfl

structure Plain (name : Name) : Prop where
  nonempty : name ≠ []
  short : name.length ≤ 255
  dot : name ≠ .dot
  dotdot : name ≠ .dotdot
  unreserved : isWhiteoutName name = false

theorem markOf_eq_shown : markOf up m = some (name, false) ↔ m = name ∧ Plain name := by
  unfold markOf
  constructor
  · intro h
    grind [Plain]
  · rintro ⟨rfl, h⟩
    simp [h.nonempty, Nat.not_lt.mpr h.short, h.dot, h.dotdot, h.unreserved]

theorem markOf_eq_hidden (h : name ≠ []) :
    markOf true m = some (name, true) ↔ m = whPrefix ++ name ∧ (whPrefix ++ name).length ≤ 255 := by
  have hname : isWhiteoutName m = true ∧ m.drop 4 = name ↔ m = whPrefix ++ name := by
    constructor
    · rintro ⟨hwh, rfl⟩
      have htake : m.take 4 = whPrefix := eq_of_beq (Bool.and_eq_true_iff.mp hwh).2
      rw [← htake, take_append_drop]
    · rintro rfl
      have hpos := length_pos_iff.mpr h
      simp [isWhiteoutName, whPrefix, hpos]
  obtain ⟨hdot, hdotdot⟩ := whPrefix_append_ne_dot name
  unfold markOf
  grind

theorem entry_isSome_iff (hdot : name ≠ .dot) (hdotdot : name ≠ .dotdot) :
    (entry fs dir name).isSome ↔
      name.length ≤ 255 ∧ name ∈ (dir.elim [] fs.entries).map Prod.fst := by
  cases dir with
  | none => simp [entry]
  | some d =>
    unfold entry DirFs.find DirFs.entries
    rw [Option.bind_some, Option.elim_some]
    split
    · simp only [Option.isSome_none, Bool.false_eq_true, false_iff]
      omega
    · rename_i hlen
      cases fs.inodes d with
      | none => simp
      | some i =>
        cases hb : i.body <;> simp [hb, Body.find, Body.entries, hdot, hdotdot, Nat.not_lt.mp hlen]

theorem mem_marks_shown :
    (name, false) ∈ marks up fs dir ↔ Plain name ∧ (entry fs dir name).isSome := by
  unfold marks
  simp only [mem_filterMap, markOf_eq_shown]
  constructor
  · rintro ⟨e, he, rfl, hplain⟩
    exact ⟨hplain, (entry_isSome_iff hplain.dot hplain.dotdot).mpr
      ⟨hplain.short, mem_map_of_mem he⟩⟩
  · rintro ⟨hplain, hentry⟩
    obtain ⟨-, hmem⟩ := (entry_isSome_iff hplain.dot hplain.dotdot).mp hentry
    obtain ⟨e, he, rfl⟩ := mem_map.mp hmem
    exact ⟨e, he, rfl, hplain⟩

theorem mem_marks_hidden (h : name ≠ []) :
    (name, true) ∈ s.upperMarks n ↔ s.hidden n.upper name = true := by
  obtain ⟨hdot, hdotdot⟩ := whPrefix_append_ne_dot name
  unfold upperMarks marks hidden
  rw [entry_isSome_iff hdot hdotdot]
  simp only [mem_filterMap, markOf_eq_hidden h, mem_map]
  constructor
  · rintro ⟨e, he, hname, hlen⟩
    exact ⟨hlen, e, he, hname⟩
  · rintro ⟨hlen, e, he, hname⟩
    exact ⟨e, he, hname, hlen⟩

theorem visible_iff (h : Plain name) : s.visible n name = true ↔ (name, false) ∈ s.upperMarks n ∨
    (name, true) ∉ s.upperMarks n ∧ (name, false) ∈ marks false s.lower n.lower := by
  rw [mem_marks_hidden h.nonempty, upperMarks, mem_marks_shown, mem_marks_shown]
  unfold visible lowerEntry
  cases s.hidden n.upper name <;> simp [h]

theorem ovlLookup_isOk_iff (inv : Inv s) (looks : LooksUp s) (att : Attached s n)
    (hdir : s.isDir n = true) (hne : name ≠ []) : (s.ovlLookup n.ino name).2.isOk = true ↔
      name = .dot ∨ name = .dotdot ∨ Plain name ∧ s.visible n name = true := by
  cases hwh : isWhiteoutName name with
  | true =>
    have hdot : name ≠ .dot ∧ name ≠ .dotdot := by
      constructor <;> rintro rfl <;> cases hwh
    have hplain : ¬ Plain name := fun h => by simp [h.unreserved] at hwh
    simp [ovlLookup, att.found, hdir, hne, hdot, hwh, hplain, Except.isOk, Except.toBool]
  | false =>
    rw [ovlLookup_isOk inv looks att hdir hne hwh]
    by_cases hdot : name = .dot
    · simp [hdot, visible_dot hdir (.inl rfl)]
    by_cases hdotdot : name = .dotdot
    · simp [hdotdot, visible_dot hdir (.inr rfl)]
    rcases Nat.lt_or_ge 255 name.length with hlong | hshort
    · simp [hdot, hdotdot, visible_of_long hlong]
    · have hplain : Plain name := ⟨hne, hshort, hdot, hdotdot, hwh⟩
      simp [hdot, hdotdot, hplain]

theorem visible_of_shown (h : (name, false) ∈ firsts (s.allMarks n)) :
    Plain name ∧ s.visible n name = true := by
  have hfind := mem_firsts_iff.mp h
  rw [allMarks, find?_append, Option.or_eq_some_iff] at hfind
  rcases hfind with hfind | ⟨hnone, hfind⟩
  · have hmem := mem_of_find?_eq_some hfind
    have hplain := (mem_marks_shown.mp hmem).1
    exact ⟨hplain, (visible_iff hplain).mpr (.inl hmem)⟩
  · have hmem := mem_of_find?_eq_some hfind
    have hplain := (mem_marks_shown.mp hmem).1
    refine ⟨hplain, (visible_iff hplain).mpr (.inr ⟨fun hwh => ?_, hmem⟩)⟩
    simpa using find?_eq_none.mp hnone _ hwh

theorem Listable.shown (hl : Listable s n) (hplain : Plain name) (h : s.visible n name = true) :
    (name, false) ∈ firsts (s.allMarks n) := by
  rw [visible_iff hplain] at h
  rw [mem_firsts_iff, allMarks, find?_append]
  cases hfirst : (s.upperMarks n).find? (·.1 = name) with
  | some m =>
    obtain ⟨m, wh⟩ := m
    obtain rfl : m = name := by simpa using find?_some hfirst
    cases wh with
    | false => rfl
    | true =>
      have hnot := hl.ordered m hfirst
      exact absurd (mem_of_find?_eq_some hfirst) (h.resolve_left hnot).1
  | none =>
    have hnone := find?_eq_none.mp hfirst
    obtain ⟨-, hlow⟩ := h.resolve_left fun hmem => by simpa using hnone _ hmem
    have hsome : ((marks false s.lower n.lower).find? (·.1 = name)).isSome :=
      find?_isSome.mpr ⟨_, hlow, decide_eq_true rfl⟩
    obtain ⟨m, hm⟩ := Option.isSome_iff_exists.mp hsome
    obtain rfl : m.1 = name := by simpa using find?_some hm
    -- the lower directory hides nothing
    obtain ⟨e, -, he⟩ := mem_filterMap.mp (mem_of_find?_eq_some hm)
    have hshown : m.2 = false := by grind [markOf]
    rw [Option.none_or, hm, ← hshown]

theorem mem_dirRows_iff : name ∈ (s.dirRows n n.upper).map Prod.fst ↔ name = .dot ∨ name = .dotdot ∨
    (name, false) ∈ (firsts (s.allMarks n)).take maxDirEntries := by
  simp [map_dirRows]

theorem nodup_dirRows : ((s.dirRows n n.upper).map Prod.fst).Nodup := by
  rw [map_dirRows]
  have hplain : ∀ name ∈ (((firsts (s.allMarks n)).take maxDirEntries).filter (!·.2)).map Prod.fst,
      Plain name := by
    intro name hin
    have hshown : (name, false) ∈ (firsts (s.allMarks n)).take maxDirEntries := by simpa using hin
    exact (visible_of_shown (mem_of_mem_take hshown)).1
  refine nodup_cons.mpr ⟨?_, nodup_cons.mpr ⟨fun h => (hplain _ h).dotdot rfl, ?_⟩⟩
  · rw [mem_cons, not_or]
    exact ⟨by decide, fun h => (hplain _ h).dot rfl⟩
  · exact (nodup_firsts (s.allMarks n)).sublist
      ((filter_sublist.trans (take_sublist ..)).map Prod.fst)

theorem Attached.refreshed (att : Attached s n) (looks : LooksUp s) (i : Nat) :
    (s.refreshNode n).findNode i = s.findNode i := by
  cases att with
  | root _ hroot => rw [refreshNode, if_pos hroot]
  | child found hroot hp _ _ _ hup =>
    obtain ⟨-, hother, x, hself, hx, -⟩ := refreshNode_spec found hp hup hroot
    by_cases hi : i = n.ino
    · rw [hi, hself, hx looks, found]
    · exact hother i hi

theorem listing_eq (inv : Inv s) (looks : LooksUp s) (att : Attached s n) (hdir : s.isDir n = true)
    (fPos : Nat) (rooms : List Nat) :
    listing n.ino s fPos rooms = ((s.dirRows n n.upper).drop fPos).take rooms.sum := by
  induction rooms generalizing s fPos with
  | nil => simp [listing]
  | cons room rooms ih =>
    obtain ⟨hupper, hof⟩ := att.refresh looks
    have hkept : Kept s (s.refreshNode n) := refreshNode_kept
    have hrows : (s.refreshNode n).dirRows n n.upper = s.dirRows n n.upper := by
      unfold dirRows dirItems
      rw [hupper, hkept.lower]
    have hdir' : (s.refreshNode n).isDir n = true := by
      simpa only [isDir, hupper, hkept.lower] using hdir
    have hrest := ih (inv.kept hkept) (looks.kept hkept)
      (att.congr inv (fun i _ => att.refreshed looks i) hupper hkept.lower) hdir'
    rw [listing, ovlReaddir, att.found]
    simp only [hdir, Bool.not_true, Bool.false_eq_true, if_false, hof, hrows, hrest]
    rw [sum_cons, take_add, ← drop_drop]
    congr 2
    rw [length_take, ← drop_eq_drop_min]

/-- In every run from a new mount, a full listing of a directory agrees with the lookups in it
exactly if no whiteout of its upper directory comes before the entry of the same name and the names
that come after 256 others are hidden. -/
theorem ovl_readdir_agrees_iff {upper lower : DirFs} {u l : Nat} {rdonly : Bool} {c : Call}
    (run : Reaches step (fun _ _ => True) (mount upper lower u l rdonly) s)
    (hfault : ∀ k err, c.fault ≠ .lookup k err) (att : Attached s n) (hdir : s.isDir n = true)
    {rooms : List Nat}
    (hfull : listing n.ino (s.begin c) 0 (rooms ++ [1]) = listing n.ino (s.begin c) 0 rooms) :
    Agrees (s.begin c) n.ino (listing n.ino (s.begin c) 0 rooms) ↔ Listable s n := by
  have inv : Inv (s.begin c) := (reaches_inv run).begin c
  have att := att.begin c
  have hmarks : Listable s n ↔ Listable (s.begin c) n := ⟨fun h => ⟨h.1, h.2⟩, fun h => ⟨h.1, h.2⟩⟩
  rw [hmarks]
  change (s.begin c).isDir n = true at hdir
  change LooksUp (s.begin c) at hfault
  generalize s.begin c = t at *
  have hrows : listing n.ino t 0 rooms = t.dirRows n n.upper := by
    rw [listing_eq inv hfault att hdir, listing_eq inv hfault att hdir, drop_zero] at hfull
    rw [listing_eq inv hfault att hdir, drop_zero]
    have hlen := congrArg length hfull
    simp only [length_take, sum_append, sum_singleton] at hlen
    exact take_of_length_le (by omega)
  have hsplit := take_append_drop maxDirEntries (firsts (t.allMarks n))
  rw [hrows]
  constructor
  · rintro ⟨-, hagree⟩
    have hlisted : ∀ name, Plain name → t.visible n name = true →
        (name, false) ∈ (firsts (t.allMarks n)).take maxDirEntries := by
      intro name hplain hvis
      have hin := (hagree name hplain.nonempty).mpr
        ((ovlLookup_isOk_iff inv hfault att hdir hplain.nonempty).mpr (.inr (.inr ⟨hplain, hvis⟩)))
      exact ((mem_dirRows_iff.mp hin).resolve_left hplain.dot).resolve_left hplain.dotdot
    refine ⟨fun name hfirst hin => ?_, fun m hm => ?_⟩
    · have hplain := (mem_marks_shown.mp hin).1
      have hshown := mem_of_mem_take (hlisted name hplain ((visible_iff hplain).mpr (.inl hin)))
      rw [mem_firsts_iff, allMarks, find?_append, hfirst] at hshown
      cases hshown
    · by_contra hshown
      obtain ⟨name, wh⟩ := m
      obtain rfl : wh = false := by simpa using hshown
      obtain ⟨hplain, hvis⟩ := visible_of_shown (mem_of_mem_drop hm)
      have hnodup := List.Nodup.of_map Prod.fst (nodup_firsts (t.allMarks n))
      rw [← hsplit] at hnodup
      exact (nodup_append.mp hnodup).2.2 _ (hlisted name hplain hvis) _ hm rfl
  · intro hlistable
    refine ⟨nodup_dirRows, fun name hne => ?_⟩
    rw [mem_dirRows_iff, ovlLookup_isOk_iff inv hfault att hdir hne]
    refine or_congr Iff.rfl (or_congr Iff.rfl ⟨fun hin => ?_, fun ⟨hplain, hvis⟩ => ?_⟩)
    · exact visible_of_shown (mem_of_mem_take hin)
    · have hin := hlistable.shown hplain hvis
      rw [← hsplit] at hin
      refine (mem_append.mp hin).resolve_right fun hdrop => ?_
      cases hlistable.fits _ hdrop

theorem small_mount_listed : Agrees (smallMount.begin ⟨.lookup 1 [], .none, zeroAttr⟩) 1
    (listing 1 (smallMount.begin ⟨.lookup 1 [], .none, zeroAttr⟩) 0 [2, 1, 8]) := by
  refine (ovl_readdir_agrees_iff .refl (by simp) smallMount_root.attached smallMount_root.isDir
    (by decide)).mpr ⟨?_, by decide⟩
  intro name h
  cases h

def whiteoutFirst : DirFs :=
  .ofList [⟨.dir 0 [([46, 119, 104, 46, 97], 1), ([97], 2)], zeroAttr, false⟩,
    ⟨.file [], zeroAttr, false⟩, ⟨.file [1], zeroAttr, false⟩] (by decide) (by decide)

theorem whiteout_first_not_listed : ¬ Agrees (mount whiteoutFirst smallTree 0 0 false) 1
    (listing 1 (mount whiteoutFirst smallTree 0 0 false) 0 [8, 8]) := by
  intro h
  have hlisted := (h.2 [97] (by decide)).mpr (by decide)
  exact absurd hlisted (by decide)

end OvlSb

end Six.Overlay
