import Six.Overlay.View

/-! Operations that fail after they have removed a whiteout or an upper entry. -/

namespace Six.Overlay

open Lib Errno Option

namespace OvlSb

variable {s s' t : OvlSb} {d ino : Nat} {dir : Option Nat} {name m : Name} {n n' p : OvlNode}
  {e : Int} {mode : UInt32}

theorem attachUpper_error (h : (s.attachUpper n dir).2 = .error e) :
    Called s (s.attachUpper n dir).1 ∧ (s.attachUpper n dir).1.upper = s.upper := by
  unfold attachUpper at h ⊢
  cases hl : (s.upperLookup dir n.name).2 with
  | error e =>
    simp only [hl]
    exact ⟨upperLookup_called, upperLookup_upper⟩
  | ok u => simp [hl] at h

theorem makeUpperDir_error (h : (s.makeUpperDir n dir).2 = .error e) :
    Called s (s.makeUpperDir n dir).1 := by
  have made : Called s ((s.removeWhiteout dir n.name).realMkdir dir n.name (s.dirMode n)).1 :=
    removeWhiteout_called.trans realMkdir_called
  unfold makeUpperDir at h ⊢
  dsimp only at h ⊢
  split
  · split
    · rename_i hm he
      simp only [hm, he, if_true] at h
      exact made.trans (attachUpper_error h).1
    · exact made
  · rename_i hm
    simp only [hm] at h
    exact made.trans (attachUpper_error h).1

theorem ensureUpperDirFrom_error (inv : Inv s) (found : s.findNode n.ino = some n) (fuel : Nat)
    (h : (ensureUpperDirFrom fuel s n.ino).2 = .error e) :
    (ensureUpperDirFrom fuel s n.ino).1.findNode n.ino = some n := by
  cases fuel with
  | zero => exact found
  | succ fuel =>
    by_cases hu : n.upper.isSome
    · rw [ensureUpperDirFrom_of_upper found hu] at h
      cases h
    have hnone : n.upper = none := by simpa using hu
    by_cases hr : n.ino = rootIno
    · have same : ensureUpperDirFrom (fuel + 1) s n.ino = (s, .error (-erofs)) := by
        simp only [ensureUpperDirFrom, found, hnone, isSome_none, Bool.false_eq_true, if_false,
          if_pos hr]
      rw [same, found]
    · obtain ⟨p, hp⟩ := isSome_iff_exists.mp (inv.parent_found found)
      rw [ensureUpperDirFrom_of_none found hnone hr hp, belowParent] at h ⊢
      have keep := ensureUpperDirFrom_findNode inv fuel (inv.parent_lt found hr)
      cases hens : (ensureUpperDirFrom fuel s n.parentIno).2 with
      | error e => simp only [keep, found]
      | ok a =>
        simp only [hens] at h ⊢
        rw [(makeUpperDir_error h).findNode, keep, found]

theorem ensureUpperDir_error (inv : Inv s) (found : s.findNode n.ino = some n)
    (h : (s.ensureUpperDir n.ino).2 = .error e) :
    (s.ensureUpperDir n.ino).1.findNode n.ino = some n :=
  ensureUpperDirFrom_error inv found n.ino h

theorem see_ensureUpperDir (inv : Inv s) (att : Attached s n) (hdir : s.isDir n = true) :
    ∃ n', (s.ensureUpperDir n.ino).1.findNode n.ino = some n' ∧ n'.lower = n.lower ∧
      ((s.ensureUpperDir n.ino).2 = .ok () → n'.upper.isSome) ∧
      ∀ path, (s.ensureUpperDir n.ino).1.see path n' = s.see path n := by
  have hlower : (s.ensureUpperDir n.ino).1.lower = s.lower := ensureUpperDir_kept.lower
  cases hu : n.upper with
  | some u =>
    rw [ensureUpperDir_of_upper att.found (att.ino_pos inv) (by rw [hu]; rfl)]
    exact ⟨n, att.found, rfl, fun _ => by rw [hu]; rfl, fun _ => rfl⟩
  | none =>
    cases hens : (s.ensureUpperDir n.ino).2 with
    | error e =>
      exact ⟨n, ensureUpperDir_error inv att.found hens, rfl, nofun, see_lower hlower hu hu rfl⟩
    | ok a =>
      obtain ⟨d, hfound, hd, hempty⟩ := (att.ensureUpperDir inv hens).new hu
      exact ⟨_, hfound, rfl, fun _ => rfl, see_empty hlower hu hdir rfl rfl hd hempty⟩

def Clears (s : OvlSb) (n : OvlNode) (name : Name) : Prop :=
  (s.upperLookup n.upper (whPrefix ++ name)).2.isOk = true ∧
    (s.realUnlink n.upper (whPrefix ++ name)).2.isOk = true

def Uncovers (s : OvlSb) (n : OvlNode) (name : Name) : Prop :=
  ∃ path, s.see path ⟨0, n.ino, name, entry s.upper n.upper name, entry s.lower n.lower name⟩ ≠
    s.see path (s.childOf n name)

theorem isOk_iff {α : Type} {r : Except Int α} : r.isOk = true ↔ ∃ a, r = .ok a := by
  cases r <;> simp [Except.isOk, Except.toBool]

theorem removeWhiteout_cases (hne : name ≠ []) :
    (Clears s n name ∧ ∃ d, n.upper = some d ∧
      DirFs.Dropped s.upper (s.removeWhiteout n.upper name).upper d (whPrefix ++ name)) ∨
    ¬ Clears s n name ∧ (s.removeWhiteout n.upper name).upper = s.upper := by
  obtain ⟨hres, hupper⟩ := realUnlink_congr (s := s)
    (t := (s.upperLookup n.upper (whPrefix ++ name)).1) upperLookup_upper upperLookup_called.fault
    upperLookup_updates n.upper (whPrefix ++ name)
  by_cases hl : (s.upperLookup n.upper (whPrefix ++ name)).2.isOk = true
  · have hlen : name.length ≤ 255 := by
      obtain ⟨i, hi⟩ := isOk_iff.mp hl
      obtain ⟨d, -, hfind⟩ := bind_eq_some_iff.mp (upperLookup_ok hi)
      by_contra hlong
      rw [find_of_long (by simp; omega)] at hfind
      cases hfind
    have eq : (s.removeWhiteout n.upper name).upper =
        (s.realUnlink n.upper (whPrefix ++ name)).1.upper := by
      simp only [removeWhiteout, makeWhiteoutName_of_le hne hlen, hl, if_true, hupper]
    rw [eq]
    cases hr : (s.realUnlink n.upper (whPrefix ++ name)).2 with
    | ok a =>
      obtain ⟨d, i, hd, dropped, -⟩ := realUnlink_ok hr
      exact .inl ⟨⟨hl, by rw [hr]; rfl⟩, d, hd, dropped⟩
    | error e =>
      exact .inr ⟨fun h => by simpa [hr, Except.isOk, Except.toBool] using h.2, realUnlink_error hr⟩
  · refine .inr ⟨fun h => hl h.1, ?_⟩
    unfold removeWhiteout
    split
    · rfl
    rename_i wh hwh
    obtain rfl := makeWhiteoutName_ok hwh
    simp only [hl, Bool.false_eq_true, if_false]
    exact upperLookup_upper

theorem Proper.ne_marker (hm : Proper m) (hne : name ≠ []) : m ≠ whPrefix ++ name := by
  rintro rfl
  have := hm.unreserved
  simp [isWhiteoutName_append hne] at this

theorem changedAt_of_dropped (hlower : s'.lower = s.lower)
    (h : DirFs.Dropped s.upper s'.upper d name) :
    ChangedAt s s' d :=
  ⟨hlower, fun x m hx _ => h.find_other x m (.inl hx), fun x _ => h.content x⟩

theorem see_uncovered (hlower : s'.lower = s.lower) (hn : n.upper = some d)
    (hd : s.upper.isDir d = true) (hne : name ≠ [])
    (h : DirFs.Dropped s.upper s'.upper d (whPrefix ++ name)) :
    (∀ path, s'.see path n = s.see path n) ↔ ¬ (Proper name ∧ Uncovers s n name) := by
  have changed := changedAt_of_dropped hlower h
  have entries : ∀ m, Proper m → m ≠ name → s'.upper.find d m = s.upper.find d m :=
    fun m hm _ => h.find_other d m (.inr (hm.ne_marker hne))
  have markers : ∀ m, Proper m → m ≠ name → s'.hidden (some d) m = s.hidden (some d) m := by
    intro m hm hmn
    simp only [hidden, entry, bind_some]
    rw [h.find_other d _ (.inr (by simpa using hmn))]
  rw [changed.see_iff hn hd entries markers]
  have child : ∀ path, Proper name → s'.see path (s'.childOf n name) = s.see path
      ⟨0, n.ino, name, entry s.upper n.upper name, entry s.lower n.lower name⟩ := by
    intro path hname
    obtain ⟨rank, hrank⟩ := s.upper.acyclic
    refine changed.see_below hrank ?_ ?_ ?_ path
    · simp only [childOf, entry, hn, bind_some]
      exact h.find_other d name (.inr (hname.ne_marker hne))
    · simp [childOf, lowerEntry, hidden, entry, hn, h.find_self, hlower]
    · intro x hx
      have hx : s.upper.find d name = some x := by simpa only [entry, hn, bind_some] using hx
      exact ⟨rank_lt_of_find hrank hname hx, DirFs.find_lt_next hx hname.dot hname.dotdot⟩
  constructor
  · rintro hall ⟨hname, path, hdiff⟩
    exact hdiff ((child path hname).symm.trans (hall hname path))
  · intro hnot hname path
    rw [child path hname]
    by_contra hdiff
    exact hnot ⟨hname, path, hdiff⟩

theorem see_cleared_iff (hn : n.upper = some d) (hd : s.upper.isDir d = true) (hne : name ≠ [])
    (hupper : s'.upper = (s.removeWhiteout n.upper name).upper) (hlower : s'.lower = s.lower) :
    (∀ path, s'.see path n = s.see path n) ↔
      ¬ (Clears s n name ∧ Proper name ∧ Uncovers s n name) := by
  rcases removeWhiteout_cases (s := s) (n := n) hne with ⟨hclears, d', hd', dropped⟩ | ⟨hnot, same⟩
  · obtain rfl : d = d' := some_inj.mp (hn.symm.trans hd')
    rw [← hupper] at dropped
    rw [see_uncovered hlower hn hd hne dropped]
    simp only [hclears, true_and]
  · exact iff_of_true (see_of_eq (hupper.trans same) hlower · n) fun hc => hnot hc.1

theorem hidden_of_clears (h : Clears s n name) : s.hidden n.upper name = true := by
  obtain ⟨i, hi⟩ := isOk_iff.mp h.1
  simp [hidden, upperLookup_ok hi]

theorem not_clears (h : n.upper = none) : ¬ Clears s n name := by
  intro hc
  simpa [h, upperLookup, Except.isOk, Except.toBool] using hc.1

/-- The state in which `ovlCreate` or `ovlMkdir` fails: the upper directory could not be made, or
the call that makes the entry has failed. -/
def FailedMake (s s' : OvlSb) (n : OvlNode) (name : Name) : Prop :=
  (∃ e, (s.ensureUpperDir n.ino).2 = .error e ∧ s' = (s.ensureUpperDir n.ino).1) ∨
    ((s.ensureUpperDir n.ino).2 = .ok () ∧
      let t := (s.ensureUpperDir n.ino).1
      Called (t.removeWhiteout (t.upperOf n.ino) name) s' ∧
        s'.upper = (t.removeWhiteout (t.upperOf n.ino) name).upper)

theorem FailedMake.see_iff (h : FailedMake s s' n name) (inv : Inv s) (att : Attached s n)
    (hdir : s.isDir n = true) (hne : name ≠ []) :
    ∃ n', s'.findNode n.ino = some n' ∧ ((∀ path, s'.see path n' = s.see path n) ↔
      ¬ (Clears s n name ∧ Proper name ∧ Uncovers s n name)) := by
  obtain ⟨n1, hfound, -, -, hsee⟩ := see_ensureUpperDir inv att hdir
  cases hu : n.upper with
  | none =>
    have never : ¬ (Clears s n name ∧ Proper name ∧ Uncovers s n name) :=
      fun hc => not_clears hu hc.1
    rcases h with ⟨e, -, rfl⟩ | ⟨hok, called, upper⟩
    · exact ⟨n1, hfound, iff_of_true hsee never⟩
    · obtain ⟨d, hd, -, hempty⟩ := (att.ensureUpperDir inv hok).new hu
      generalize (s.ensureUpperDir n.ino).1 = t at *
      obtain rfl : n1 = { n with upper := some d } := some_inj.mp (hfound.symm.trans hd)
      have hof : t.upperOf n.ino = some d := by simp [upperOf, hd]
      obtain ⟨h1, h2⟩ := whPrefix_append_ne_dot name
      have shown : t.hidden (t.upperOf n.ino) name = false := by
        simp [hof, hidden, entry, hempty _ h1 h2]
      rw [removeWhiteout_of_not_hidden shown] at upper
      have all := removeWhiteout_called.trans called
      refine ⟨_, by rw [all.findNode, hd], iff_of_true (fun path => ?_) never⟩
      rw [see_of_eq upper all.lower, hsee]
  | some d =>
    have hsome : n.upper.isSome := by rw [hu]; rfl
    rw [FailedMake, ensureUpperDir_of_upper att.found (att.ino_pos inv) hsome] at h
    rcases h with ⟨e, he, -⟩ | ⟨-, called, upper⟩
    · cases he
    have hof : s.upperOf n.ino = n.upper := by simp [upperOf, att.found]
    simp only [hof] at called upper
    have all := removeWhiteout_called.trans called
    have hd : s.upper.isDir d = true := by simpa only [isDir, hu] using hdir
    exact ⟨n, by rw [all.findNode, att.found], see_cleared_iff hu hd hne upper all.lower⟩

theorem Attached.congr (att : Attached s n) (inv : Inv s)
    (hfind : ∀ i, i ≤ n.ino → t.findNode i = s.findNode i) (hu : t.upper = s.upper)
    (hl : t.lower = s.lower) : Attached t n := by
  induction att with
  | root found hroot hup => exact .root (by rw [hfind _ (Nat.le_refl _), found]) hroot hup
  | @child n p found hroot hp att hdot hdotdot hup hlow hsome ih =>
    have hlt := inv.parent_lt found hroot
    have hpi := findNode_ino hp
    refine .child (by rw [hfind _ (Nat.le_refl _), found]) hroot
      (by rw [hfind _ (Nat.le_of_lt hlt), hp]) (ih fun i hi => hfind i (by omega)) hdot hdotdot
      (by rw [hu]; exact hup) ?_ hsome
    rw [hlow]
    simp only [lowerEntry, hidden, hu, hl]
    rfl

section Removal

variable {remove : OvlSb → Option Nat → OvlSb × Except Int Unit} {finish : OvlSb → OvlSb}

end Removal

end OvlSb

end Six.Overlay
