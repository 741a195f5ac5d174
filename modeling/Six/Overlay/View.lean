import Six.Overlay.Emptiness

/-! What a reader sees of the merged tree.  `see path n` is the content at the end of a path from
the merged directory of node `n`, or nothing. -/

namespace Six.Overlay

open Lib Errno DirFs

namespace OvlSb

variable {s s' t : OvlSb} {d ino : Nat} {dir : Option Nat} {name m : Name} {n n' p a b : OvlNode}
  {rank : Nat → Nat}

def isProper (name : Name) : Bool :=
  name != [] && name != .dot && name != .dotdot && !isWhiteoutName name

theorem isProper_iff : isProper name = true ↔ Proper name := by
  constructor
  · intro h
    simp only [isProper, Bool.and_eq_true, bne_iff_ne, Bool.not_eq_true'] at h
    exact ⟨h.1.1.1, h.1.1.2, h.1.2, h.2⟩
  · intro h
    simp [isProper, h.nonempty, h.dot, h.dotdot, h.unreserved]

def contentOf (s : OvlSb) (n : OvlNode) : Option Content :=
  match n.upper with
  | some u => s.upper.content u
  | none => n.lower.bind s.lower.content

def see (s : OvlSb) : List Name → OvlNode → Option Content
  | [], n => s.contentOf n
  | name :: path, n => if s.isDir n && isProper name then see s path (s.childOf n name) else none

theorem isDir_eq : s.isDir n = (s.contentOf n == some .dir) := by
  unfold isDir contentOf
  cases n.upper with
  | some u => rfl
  | none => cases n.lower <;> rfl

theorem see_congr {R : OvlNode → OvlNode → Prop}
    (content : ∀ a b, R a b → s'.contentOf b = s.contentOf a)
    (child : ∀ a b m, R a b → s.isDir a = true → Proper m → R (s.childOf a m) (s'.childOf b m))
    (h : R a b) (path : List Name) : s'.see path b = s.see path a := by
  induction path generalizing a b with
  | nil => exact content a b h
  | cons m path ih =>
    have hdir : s'.isDir b = s.isDir a := by rw [isDir_eq, isDir_eq, content a b h]
    simp only [see, hdir]
    split
    · rename_i hm
      simp only [Bool.and_eq_true] at hm
      exact ih (child a b m h hm.1 (isProper_iff.mp hm.2))
    · rfl

theorem see_dir_iff (name : Name) (content : s'.contentOf n' = s.contentOf n)
    (hdir : s.isDir n = true) (other : ∀ m, Proper m → m ≠ name → ∀ path,
      s'.see path (s'.childOf n' m) = s.see path (s.childOf n m)) :
    (∀ path, s'.see path n' = s.see path n) ↔
      (Proper name → ∀ path, s'.see path (s'.childOf n' name) = s.see path (s.childOf n name)) := by
  have hdir' : s'.isDir n' = true := by rw [isDir_eq, content, ← isDir_eq, hdir]
  constructor
  · intro h hname path
    have := h (name :: path)
    simpa only [see, hdir, hdir', isProper_iff.mpr hname, Bool.and_self, if_true] using this
  · intro h path
    cases path with
    | nil => exact content
    | cons m path =>
      simp only [see, hdir, hdir', Bool.true_and]
      split
      · rename_i hm
        by_cases hmn : m = name
        · subst m
          exact h (isProper_iff.mp hm) path
        · exact other m (isProper_iff.mp hm) hmn path
      · rfl

theorem see_lower (hlower : s'.lower = s.lower) (ha : a.upper = none) (hb : b.upper = none)
    (hl : b.lower = a.lower) (path : List Name) : s'.see path b = s.see path a := by
  refine see_congr (R := fun a b => a.upper = none ∧ b.upper = none ∧ b.lower = a.lower) ?_ ?_
    ⟨ha, hb, hl⟩ path
  · intro a b h
    simp only [contentOf, h.1, h.2.1, h.2.2, hlower]
  · intro a b m h _ _
    simp [childOf, lowerEntry, hidden, entry, h, hlower]

theorem rank_lt_of_find {fs : DirFs}
    (hrank : ∀ d n, fs.inodes d = some n → ∀ e ∈ n.body.entries, rank d < rank e.2)
    (hm : Proper m) (h : fs.find d m = some i) : rank d < rank i := by
  unfold find at h
  split at h
  · cases h
  obtain ⟨n, hn, hfind⟩ := Option.bind_eq_some_iff.mp h
  cases hb : n.body with
  | dir parent es =>
    simp only [hb, Body.find, hm.dot, hm.dotdot, if_false] at hfind
    obtain ⟨l₁, l₂, hes, -⟩ := List.lookup_eq_some_iff.mp hfind
    refine hrank d n hn (m, i) ?_
    rw [hb, Body.entries, hes]
    exact List.mem_append_right _ List.mem_cons_self
  | _ => simp [hb, Body.find] at hfind

/-- Only directory `d` of the upper tree has changed, and new inodes have come. -/
structure ChangedAt (s s' : OvlSb) (d : Nat) : Prop where
  lower : s'.lower = s.lower
  find : ∀ x m, x ≠ d → x < s.upper.next → s'.upper.find x m = s.upper.find x m
  content : ∀ x, x < s.upper.next → s'.upper.content x = s.upper.content x

theorem ChangedAt.see_below (h : ChangedAt s s' d)
    (hrank : ∀ d n, s.upper.inodes d = some n → ∀ e ∈ n.body.entries, rank d < rank e.2)
    (hu : b.upper = a.upper) (hl : b.lower = a.lower)
    (ha : ∀ x, a.upper = some x → rank d < rank x ∧ x < s.upper.next) (path : List Name) :
    s'.see path b = s.see path a := by
  refine see_congr (R := fun a b => b.upper = a.upper ∧ b.lower = a.lower ∧
    ∀ x, a.upper = some x → rank d < rank x ∧ x < s.upper.next) ?_ ?_ ⟨hu, hl, ha⟩ path
  · rintro a b ⟨hu, hl, ha⟩
    unfold contentOf
    rw [hu, hl, h.lower]
    cases hx : a.upper with
    | none => rfl
    | some x => exact h.content x (ha x hx).2
  · rintro a b m ⟨hu, hl, ha⟩ - hm
    have same : ∀ m', entry s'.upper b.upper m' = entry s.upper a.upper m' := by
      intro m'
      rw [hu]
      cases hx : a.upper with
      | none => rfl
      | some x =>
        have hxd : x ≠ d := by
          rintro rfl
          exact Nat.lt_irrefl _ (ha x hx).1
        exact h.find x m' hxd (ha x hx).2
    refine ⟨same m, ?_, ?_⟩
    · simp only [childOf, lowerEntry, hidden, same, hl, h.lower]
      rfl
    · intro x hx
      have hx : entry s.upper a.upper m = some x := hx
      obtain ⟨y, hy, hfind⟩ := Option.bind_eq_some_iff.mp hx
      exact ⟨Nat.lt_trans (ha y hy).1 (rank_lt_of_find hrank hm hfind),
        find_lt_next hfind hm.dot hm.dotdot⟩

theorem ChangedAt.see_iff (h : ChangedAt s s' d) (hn : n.upper = some d)
    (hd : s.upper.isDir d = true)
    (entries : ∀ m, Proper m → m ≠ name → s'.upper.find d m = s.upper.find d m)
    (markers : ∀ m, Proper m → m ≠ name → s'.hidden (some d) m = s.hidden (some d) m) :
    (∀ path, s'.see path n = s.see path n) ↔
      (Proper name → ∀ path, s'.see path (s'.childOf n name) = s.see path (s.childOf n name)) := by
  obtain ⟨rank, hrank⟩ := s.upper.acyclic
  have hlt : d < s.upper.next := lt_next_of_content (isDir_iff.mp hd)
  apply see_dir_iff
  · simp only [contentOf, hn, h.content d hlt]
  · simpa only [isDir, hn] using hd
  · intro m hm hmn path
    refine h.see_below hrank ?_ ?_ ?_ path
    · simp only [childOf, entry, hn, Option.bind_some, entries m hm hmn]
    · simp only [childOf, lowerEntry, hn, markers m hm hmn, h.lower]
    · intro x hx
      have hx : s.upper.find d m = some x := by
        simpa only [childOf, entry, hn, Option.bind_some] using hx
      exact ⟨rank_lt_of_find hrank hm hx, find_lt_next hx hm.dot hm.dotdot⟩

theorem see_of_eq (hu : s'.upper = s.upper) (hl : s'.lower = s.lower) (path : List Name)
    (n : OvlNode) : s'.see path n = s.see path n := by
  refine see_congr (R := Eq) ?_ ?_ rfl path
  · rintro a _ rfl
    simp only [contentOf, hu, hl]
  · rintro a _ m rfl - -
    simp only [childOf, lowerEntry, hidden, hu, hl]
    rfl

theorem see_empty (hlower : s'.lower = s.lower) (hn : n.upper = none) (hdir : s.isDir n = true)
    (hn' : n'.upper = some d) (hl : n'.lower = n.lower) (hd : s'.upper.isDir d = true)
    (empty : ∀ m, m ≠ .dot → m ≠ .dotdot → s'.upper.find d m = none) (path : List Name) :
    s'.see path n' = s.see path n := by
  refine (see_dir_iff [] ?_ hdir ?_).mpr (fun h => absurd rfl h.nonempty) path
  · rw [isDir_eq] at hdir
    have hd := isDir_iff.mp hd
    simp only [contentOf, hn', hd]
    exact (by simpa using hdir : s.contentOf n = some .dir).symm
  · intro m hm _ path
    obtain ⟨h1, h2⟩ := whPrefix_append_ne_dot m
    refine see_lower hlower (by simp [childOf, hn, entry]) ?_ ?_ path
    · simp [childOf, hn', entry, empty m hm.dot hm.dotdot]
    · simp [childOf, lowerEntry, hidden, hn, hn', entry, empty _ h1 h2, hl, hlower]

structure SameOld (s s' : OvlSb) : Prop where
  lower : s'.lower = s.lower
  find : ∀ x m, x < s.upper.next → s'.upper.find x m = s.upper.find x m
  content : ∀ x, x < s.upper.next → s'.upper.content x = s.upper.content x

theorem SameOld.see (h : SameOld s s') (hn : ∀ x, n.upper = some x → x < s.upper.next)
    (path : List Name) : s'.see path n = s.see path n := by
  refine see_congr (R := fun a b => b = a ∧ ∀ x, a.upper = some x → x < s.upper.next) ?_ ?_
    ⟨rfl, hn⟩ path
  · rintro _ a ⟨rfl, ha⟩
    unfold contentOf
    rw [h.lower]
    cases hx : a.upper with
    | none => rfl
    | some x => exact h.content x (ha x hx)
  · rintro _ a m ⟨rfl, ha⟩ - hm
    have same : ∀ m', entry s'.upper a.upper m' = entry s.upper a.upper m' := by
      intro m'
      cases hx : a.upper with
      | none => rfl
      | some x => exact h.find x m' (ha x hx)
    refine ⟨?_, ?_⟩
    · simp only [childOf, lowerEntry, hidden, same, h.lower]
      rfl
    · intro x hx
      have hx : entry s.upper a.upper m = some x := hx
      obtain ⟨y, -, hfind⟩ := Option.bind_eq_some_iff.mp hx
      exact find_lt_next hfind hm.dot hm.dotdot

end OvlSb

end Six.Overlay
