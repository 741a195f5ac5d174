import Six.Overlay.Atomic

/-! A copy-up that fails. -/

namespace Six.Overlay

open Lib Errno Option DirFs

namespace OvlSb

variable {s s' t : OvlSb} {d u ino : Nat} {dir : Option Nat} {name m : Name} {n n' p : OvlNode}
  {e : Int} {α : Type} {attr : Attr} {l : Nat} {data : List UInt8}

structure Wrote (s s' : OvlSb) (u : Nat) : Prop extends Called s s' where
  find : ∀ x m, s'.upper.find x m = s.upper.find x m
  content : ∀ x, x ≠ u → s'.upper.content x = s.upper.content x
  isDir : ∀ x, s'.upper.isDir x = s.upper.isDir x

theorem Wrote.refl (s : OvlSb) (u : Nat) : Wrote s s u :=
  ⟨.refl s, fun _ _ => rfl, fun _ _ => rfl, fun _ => rfl⟩

theorem Wrote.trans (h1 : Wrote s1 s2 u) (h2 : Wrote s2 s3 u) : Wrote s1 s3 u :=
  ⟨h1.toCalled.trans h2.toCalled, fun x m => (h2.find x m).trans (h1.find x m),
    fun x hx => (h2.content x hx).trans (h1.content x hx), fun x => (h2.isDir x).trans (h1.isDir x)⟩

theorem wrote_of_upper (called : Called s s') (h : s'.upper = s.upper) : Wrote s s' u :=
  ⟨called, fun _ _ => by rw [h], fun _ _ => by rw [h], fun _ => by rw [h]⟩

theorem wrote_write : Wrote s (s.update (.ok (s.upper.write u pos bytes, ()))).1 u := by
  cases hr : (s.update (.ok (s.upper.write u pos bytes, ()))).2 with
  | error e => exact wrote_of_upper update_called (update_error hr)
  | ok a =>
    have written := update_ok hr
    simp only [Except.ok.injEq, Prod.mk.injEq] at written
    refine ⟨update_called, fun x m => ?_, fun x hx => ?_, fun x => ?_⟩ <;> rw [← written.1]
    · exact find_write
    · exact content_write_of_ne hx
    · exact isDir_write

theorem wrote_copyData (fuel pos : Nat) (rest : List UInt8) :
    Wrote s (copyData fuel s u pos rest).1 u := by
  induction fuel generalizing s pos rest with
  | zero => exact .refl s u
  | succ fuel ih =>
    have read : Wrote s { s with reads := s.reads + 1 } u :=
      wrote_of_upper ⟨⟨rfl, rfl, rfl, rfl, rfl⟩, rfl⟩ rfl
    unfold copyData
    split
    · exact .refl s u
    dsimp only
    split
    · exact read
    have wrote : ∀ chunk, Wrote s (update { s with reads := s.reads + 1 }
        (.ok (s.upper.write u pos chunk, ()))).1 u :=
      fun _ => read.trans wrote_write
    split
    · exact wrote _
    · exact (wrote _).trans (ih _ _)

def Spent (s : OvlSb) : Prop := LooksUp s ∧ ∀ {α : Type} (r : Except Int α), s.onUpdate r = r

theorem onUpdate_error (h : s.onUpdate (.ok a) = .error e) : s.fault = .update s.updates e := by
  unfold onUpdate faulty at h
  split at h
  · rename_i k err hf
    split at h
    · rename_i hk
      obtain rfl := Except.error.inj h
      rw [hf, beq_iff_eq.mp hk]
    · cases h
  · cases h

theorem spent_of_copyData (fuel pos : Nat) (rest : List UInt8)
    (h : (copyData fuel s u pos rest).2 = .error e) : Spent (copyData fuel s u pos rest).1 := by
  induction fuel generalizing s pos rest with
  | zero => cases h
  | succ fuel ih =>
    unfold copyData at h ⊢
    split at h
    · cases h
    rename_i hrest
    rw [if_neg hrest]
    cases hread : s.onRead (.ok ()) with
    | error e' =>
      -- a read of the lower filesystem
      obtain ⟨k, err, hf⟩ : ∃ k err, s.fault = .read k err := by
        unfold onRead at hread
        split at hread
        · exact ⟨_, _, ‹_›⟩
        · cases hread
      refine ⟨fun k err => ?_, fun r => ?_⟩
      · simp [hf]
      · simp [onUpdate, hf]
    | ok a =>
      simp only [hread] at h ⊢
      generalize rest.take (min pageSize (s.grain s.reads + 1)) = chunk at h ⊢
      cases hw : (update { s with reads := s.reads + 1 }
          (.ok (s.upper.write u pos chunk, ()))).2 with
      | ok a =>
        simp only [hw] at h ⊢
        exact ih _ _ h
      | error e' =>
        simp only [hw] at h ⊢
        unfold update at hw ⊢
        split at hw
        · rename_i e'' he
          have hf := onUpdate_error he
          simp only at hf
          refine ⟨fun k err => ?_, fun r => ?_⟩
          · simp [hf]
          · simp [onUpdate, hf, faulty]
        · cases hw

theorem copyData_ok (h : ¬ LooksUp s) (fuel pos : Nat) (rest : List UInt8) :
    (copyData fuel s u pos rest).2 = .ok () := by
  by_contra hne
  cases hr : (copyData fuel s u pos rest).2 with
  | ok a => exact hne hr
  | error e =>
    have spent := (spent_of_copyData fuel pos rest hr).1
    refine h fun k err hf => spent k err ?_
    rw [(copyData_called fuel u pos rest).fault, hf]

theorem onUpdate_of_not_looksUp (h : ¬ LooksUp s) (r : Except Int α) : s.onUpdate r = r := by
  simp only [LooksUp, not_forall, not_not] at h
  obtain ⟨k, err, hf⟩ := h
  simp [onUpdate, hf]

theorem onDir_of_spent {r : DirFs × α}
    (h : ∀ r : Except Int (DirFs × α), s.onUpdate r = r) (hd : s.upper.isDir d = true)
    (hf : f d = .ok r) : (s.onDir (some d) f).2 = .ok r.2 := by
  simp only [onDir, hd, if_true, update, h, hf]

theorem clearUpper_cases (d : Nat) (name : Name) :
    (s.clearUpper (some d) name).upper = s.upper ∨
      DirFs.Dropped s.upper (s.clearUpper (some d) name).upper d name := by
  unfold clearUpper
  dsimp only
  split
  · cases hr : ((s.upperLookup (some d) name).1.realUnlink (some d) name).2 with
    | error e => exact .inl ((realUnlink_error hr).trans upperLookup_upper)
    | ok a =>
      obtain ⟨d', i, hd, dropped, -⟩ := realUnlink_ok hr
      obtain rfl := some_inj.mp hd
      rw [upperLookup_upper] at dropped
      exact .inr dropped
  · exact .inl upperLookup_upper

theorem realCreate_of_dropped {fs : DirFs} (mode : UInt32) (hlooks : ¬ LooksUp s)
    (hd : s.upper.isDir d = true) (h : DirFs.Dropped fs s.upper d name) :
    ∃ u, (s.realCreate (some d) name mode).2 = .ok u := by
  have hlen : name.length ≤ 255 := by
    by_contra hlong
    have := h.present
    simp [find_of_long (show 255 < name.length by omega)] at this
  obtain ⟨r, hr⟩ : ∃ r, s.upper.create d name { s.stamp with mode := mode } = .ok r :=
    add_isOk hlen hd h.live h.find_self
  exact ⟨r.2, onDir_of_spent (onUpdate_of_not_looksUp hlooks) hd hr⟩

theorem realUnlink_of_wrote {n : Inode} (spent : Spent t) (wrote : Wrote s' t s.upper.next)
    (added : DirFs.Added s.upper s'.upper d name n) (hfile : n.body.content ≠ .dir)
    (hname : Proper name) : (t.realUnlink (some d) name).2 = .ok () := by
  have hne : d ≠ s.upper.next := Nat.ne_of_lt (lt_next_of_content (isDir_iff.mp added.isDir))
  have hd : t.upper.isDir d = true := by
    rw [wrote.isDir, DirFs.isDir, added.content_old d hne]
    exact added.isDir
  have hfind : t.upper.find d name = some s.upper.next := by rw [wrote.find, added.find_self]
  have hnew : t.upper.isDir s.upper.next = false := by
    rw [wrote.isDir, DirFs.isDir, added.content_new]
    simpa using hfile
  have hun : t.upper.unlink d name = .ok (t.upper.dropEntry d name) := by
    simp [unlink, hfind, hname.dot, hname.dotdot, hnew]
  exact onDir_of_spent spent.2 hd (r := (t.upper.dropEntry d name, ())) (by rw [hun]; rfl)

theorem removeWhiteout_keeps (hname : Proper name) (d : Nat) :
    (s.removeWhiteout (some d) name).upper.find d name = s.upper.find d name ∧
      ∀ x, (s.removeWhiteout (some d) name).upper.content x = s.upper.content x := by
  rcases removeWhiteout_cases (s := s) (n := ⟨0, 0, [], some d, none⟩) hname.nonempty with
    ⟨-, d', -, dropped⟩ | ⟨-, same⟩
  · exact ⟨dropped.find_other d name (.inr (hname.ne_marker hname.nonempty)), dropped.content⟩
  · exact ⟨congrArg (·.find d name) same, fun x => congrArg (·.content x) same⟩

/-- A copy that fails has removed at most the whiteout. -/
theorem copyUpFile_failed (hd : s.upper.isDir d = true) (hname : Proper n.name)
    (habsent : LooksUp s → s.upper.find d n.name = none)
    (h : (s.copyUpFile n (some d) data attr).2 = .error e) :
    Called s (s.copyUpFile n (some d) data attr).1 ∧
      SameOld (s.removeWhiteout (some d) n.name) (s.copyUpFile n (some d) data attr).1 := by
  have called1 : Called s (s.removeWhiteout (some d) n.name) := removeWhiteout_called
  obtain ⟨hfind, hcontent⟩ := removeWhiteout_keeps (s := s) hname d
  unfold copyUpFile at h ⊢
  dsimp only at h ⊢
  generalize s.removeWhiteout (some d) n.name = c at h called1 hfind hcontent ⊢
  have called2 : Called s (c.clearUpper (some d) n.name) := called1.trans clearUpper_called
  have cases2 := clearUpper_cases (s := c) d n.name
  generalize c.clearUpper (some d) n.name = t at h called2 cases2 ⊢
  have created : Called s (t.realCreate (some d) n.name attr.mode).1 :=
    called2.trans realCreate_called
  rcases cases2 with same | dropped
  · cases hc : (t.realCreate (some d) n.name attr.mode).2 with
    | error e =>
      have upper : (t.realCreate (some d) n.name attr.mode).1.upper = c.upper :=
        (onDir_error hc).trans same
      exact ⟨created, created.lower.trans called1.lower.symm,
        fun x m _ => congrArg (·.find x m) upper, fun x _ => congrArg (·.content x) upper⟩
    | ok u =>
      obtain ⟨d', hd', rfl, added⟩ := realCreate_ok hc
      obtain rfl := some_inj.mp hd'
      rw [same] at added
      simp only [hc] at h ⊢
      have wrote := wrote_copyData (s := (t.realCreate (some d) n.name attr.mode).1)
        (u := t.upper.next) data.length 0 data
      have spent (e : Int) := spent_of_copyData (s := (t.realCreate (some d) n.name attr.mode).1)
        (u := t.upper.next) data.length 0 data (e := e)
      generalize copyData data.length (t.realCreate (some d) n.name attr.mode).1 t.upper.next 0 data
        = w at h wrote spent ⊢
      cases hw : w.2 with
      | ok a => simp [hw] at h
      | error e =>
        simp only [same] at wrote
        have hun := realUnlink_of_wrote (spent e hw) wrote added (by simp [Body.content]) hname
        obtain ⟨d', i, hd', dropped, -⟩ := realUnlink_ok hun
        obtain rfl := some_inj.mp hd'
        have called : Called s (w.1.realUnlink (some d) n.name).1 :=
          (created.trans wrote.toCalled).trans realUnlink_called
        refine ⟨called, called.lower.trans called1.lower.symm, fun x m hx => ?_, fun x hx => ?_⟩
        · by_cases hxm : x = d ∧ m = n.name
          · obtain ⟨rfl, rfl⟩ := hxm
            rw [dropped.find_self, added.absent]
          · have hor : x ≠ d ∨ m ≠ n.name := by
              by_contra hcon
              simp only [not_or, not_not] at hcon
              exact hxm hcon
            rw [dropped.find_other x m hor, wrote.find, added.find_other x m (by omega) hor]
        · rw [dropped.content, wrote.content x (by omega), added.content_old x (by omega)]
  · -- an entry that the first lookup had missed: that lookup failed, and nothing else does
    have hlooks : ¬ LooksUp s := by
      intro looks
      have := dropped.present
      rw [hfind, habsent looks] at this
      cases this
    have hlooks2 : ¬ LooksUp t := fun h => hlooks fun k err => called2.fault ▸ h k err
    have hd2 : t.upper.isDir d = true := by
      rw [DirFs.isDir, dropped.content, hcontent]
      exact hd
    obtain ⟨u, hu⟩ := realCreate_of_dropped attr.mode hlooks2 hd2 dropped
    have hlooks3 : ¬ LooksUp (t.realCreate (some d) n.name attr.mode).1 :=
      fun h => hlooks fun k err => created.fault ▸ h k err
    simp only [hu, copyData_ok hlooks3] at h
    cases h

theorem changedAt_of_added (hlower : s'.lower = s.lower)
    (h : DirFs.Added s.upper s'.upper d name k) : ChangedAt s s' d :=
  ⟨hlower, fun x m hxd hx => h.find_other x m (by omega) (.inl hxd),
    fun x hx => h.content_old x (by omega)⟩

theorem see_left_behind (hlower : s'.lower = s.lower) (hp : p.upper = some d)
    (shown : s.hidden (some d) name = false) (hname : Proper name)
    (hl : entry s.lower p.lower name = some l) (hldir : s.lower.isDir l = true)
    (added : DirFs.Added s.upper s'.upper d name ⟨.dir d [], attr, false⟩) (path : List Name) :
    s'.see path p = s.see path p := by
  have hne : d ≠ s.upper.next := Nat.ne_of_lt (lt_next_of_content (isDir_iff.mp added.isDir))
  have marker : ∀ m, m ≠ [] → whPrefix ++ m ≠ name := by
    rintro m hm rfl
    have := hname.unreserved
    simp [isWhiteoutName_append hm] at this
  have hidden_same : ∀ m, m ≠ [] → s'.hidden (some d) m = s.hidden (some d) m := by
    intro m hm
    simp only [hidden, entry, bind_some]
    rw [added.find_other d _ hne (.inr (marker m hm))]
  refine ((changedAt_of_added hlower added).see_iff hp added.isDir
    (fun m _ hm => added.find_other d m hne (.inr hm))
    fun m hm _ => hidden_same m hm.nonempty).mpr (fun _ => ?_) path
  have low : s.lowerEntry p name = some l := by simp [lowerEntry, hp, shown, hl]
  refine see_empty hlower ?_ ?_ ?_ ?_ ?_ added.find_new
  · simp [childOf, hp, entry, added.absent]
  · simp [isDir, childOf, hp, entry, added.absent, low, hldir]
  · simp [childOf, hp, entry, added.find_self]
  · simp only [childOf, lowerEntry, hp, hidden_same name hname.nonempty, hlower]
  · rw [isDir_iff, added.content_new]
    rfl

/-- The directory of `n` is made in the upper directory `dir`. -/
def MakesDir (s : OvlSb) (n : OvlNode) (dir : Option Nat) : Prop :=
  ((s.removeWhiteout dir n.name).realMkdir dir n.name (s.dirMode n)).2.isOk = true

theorem see_name (hdir : s.isDir p = true) (hname : Proper name) :
    s.see [name] p = s.contentOf (s.childOf p name) := by
  simp [see, hdir, isProper_iff.mpr hname]

theorem see_makeUpperDir_iff (hp : p.upper = some d) (hd : s.upper.isDir d = true)
    (hname : Proper n.name) (h : (s.makeUpperDir n (some d)).2 = .error e) :
    (∀ path, (s.makeUpperDir n (some d)).1.see path p = s.see path p) ↔
      ¬ (Clears s p n.name ∧ Uncovers s p n.name ∨
        MakesDir s n (some d) ∧ s.see [n.name] p ≠ some .dir) := by
  have called := makeUpperDir_error h
  have hisDir : s.isDir p = true := by simpa only [isDir, hp] using hd
  unfold makeUpperDir at h called ⊢
  cases hm : ((s.removeWhiteout (some d) n.name).realMkdir (some d) n.name (s.dirMode n)).2 with
  | error e' =>
    -- nothing was made: only the whiteout can be gone
    have hnot : ¬ MakesDir s n (some d) := by
      unfold MakesDir
      rw [hm]
      exact Bool.false_ne_true
    have same : ((s.removeWhiteout (some d) n.name).realMkdir (some d) n.name
        (s.dirMode n)).1.upper = (s.removeWhiteout p.upper n.name).upper := by
      rw [hp]
      exact onDir_error hm
    simp only [hm] at h called ⊢
    simp only [hnot, false_and, or_false]
    split at h
    · rename_i he
      rw [if_pos he] at called ⊢
      simpa only [hname, true_and] using see_cleared_iff hp hd hname.nonempty
        ((attachUpper_error h).2.trans same) called.lower
    · rename_i he
      rw [if_neg he] at called ⊢
      simpa only [hname, true_and] using
        see_cleared_iff hp hd hname.nonempty same called.lower
  | ok u =>
    have made : MakesDir s n (some d) := by
      unfold MakesDir
      rw [hm]
      rfl
    simp only [hm] at h called ⊢
    obtain ⟨d', hd', -, added⟩ := realMkdir_ok hm
    obtain rfl := some_inj.mp hd'
    rw [← (attachUpper_error h).2] at added
    generalize ((s.removeWhiteout (some d) n.name).realMkdir (some d) n.name
      (s.dirMode n)).1.attachUpper n (some d) = w at called added ⊢
    obtain ⟨hfind, hcontent⟩ := removeWhiteout_keeps (s := s) hname d
    have habsent : s.upper.find d n.name = none := hfind.symm.trans added.absent
    have hbefore : s.see [n.name] p = (s.lowerEntry p n.name).bind s.lower.content := by
      rw [see_name hisDir hname]
      simp [contentOf, childOf, hp, entry, habsent]
    constructor
    · intro hall
      have hdir' : w.1.isDir p = true := by
        rw [isDir_eq, show w.1.contentOf p = s.contentOf p from hall [], ← isDir_eq]
        exact hisDir
      have hafter : w.1.see [n.name] p = some .dir := by
        rw [see_name hdir' hname]
        simp [contentOf, childOf, hp, entry, added.find_self, added.content_new, Body.content]
      rw [hall] at hafter
      rintro (⟨hclears, -⟩ | ⟨-, hne⟩)
      · rw [hbefore, lowerEntry, if_pos (hidden_of_clears hclears)] at hafter
        cases hafter
      · exact hne hafter
    · intro hnot path
      have hdir : s.see [n.name] p = some .dir := by
        by_contra hne
        exact hnot (.inr ⟨made, hne⟩)
      rw [hbefore] at hdir
      obtain ⟨l, hl, hldir⟩ := bind_eq_some_iff.mp hdir
      have shown : s.hidden (some d) n.name = false := by
        by_contra hh
        rw [lowerEntry, hp, if_pos (by simpa using hh)] at hl
        cases hl
      rw [lowerEntry, hp, shown] at hl
      rw [removeWhiteout_of_not_hidden shown] at added
      exact see_left_behind called.lower hp shown hname hl (isDir_iff.mpr hldir) added path

theorem Ensured.sameEntries (ens : Ensured s t p) (found : s.findNode p.ino = some p)
    (hdir : s.isDir p = true) :
    ∃ d, t.findNode p.ino = some { p with upper := some d } ∧ t.upper.isDir d = true ∧
      ∀ m, m ≠ .dot → m ≠ .dotdot → t.upper.find d m = entry s.upper p.upper m := by
  cases hu : p.upper with
  | some d =>
    obtain rfl := ens.old (by rw [hu]; rfl)
    have hp : { p with upper := some d } = p := by rw [← hu]
    exact ⟨d, by rw [hp, found], by simpa only [isDir, hu] using hdir, fun _ _ _ => rfl⟩
  | none =>
    obtain ⟨d, hfound, hd, hempty⟩ := ens.new hu
    exact ⟨d, hfound, hd, hempty⟩

theorem refreshNode_found (found : s.findNode n.ino = some n)
    (hp : s.findNode n.parentIno = some p) (hroot : n.ino ≠ rootIno) :
    (s.refreshNode n).upper = s.upper ∧
      (∀ i, i ≠ n.ino → (s.refreshNode n).findNode i = s.findNode i) ∧
      (s.refreshNode n).findNode n.ino = some { n with
        upper := if p.upper = none then n.upper
          else (s.upperLookup p.upper n.name).2.toOption } := by
  unfold refreshNode
  simp only [if_neg hroot, hp]
  split
  · exact ⟨rfl, fun _ _ => rfl, found⟩
  · refine ⟨upperLookup_upper, fun i hi => ?_, ?_⟩
    · rw [findNode_setUpper, if_neg hi, upperLookup_called.findNode]
    · rw [findNode_setUpper, if_pos rfl, upperLookup_called.findNode, found]
      rfl

theorem refreshNode_spec (found : s.findNode n.ino = some n) (hp : s.findNode n.parentIno = some p)
    (hup : n.upper = entry s.upper p.upper n.name) (hroot : n.ino ≠ rootIno) :
    (s.refreshNode n).upper = s.upper ∧
      (∀ i, i ≠ n.ino → (s.refreshNode n).findNode i = s.findNode i) ∧
      ∃ x, (s.refreshNode n).findNode n.ino = some { n with upper := x } ∧
        (LooksUp s → x = n.upper) ∧ (n.upper = none → x = none) := by
  obtain ⟨upper, others, node⟩ := refreshNode_found found hp hroot
  refine ⟨upper, others, _, node, fun looks => ?_, fun hnone => ?_⟩ <;> split
  · rfl
  · rw [upperLookup_toOption looks, hup]
  · exact hnone
  · cases hl : (s.upperLookup p.upper n.name).2 with
    | error e => rfl
    | ok u => cases (hup.symm.trans hnone).symm.trans (upperLookup_ok hl)

/-- The state of a copy-up once the node has been looked up again and has no upper inode. -/
structure Refreshed (s t : OvlSb) (n p : OvlNode) : Prop where
  kept : Kept s t
  upper : t.upper = s.upper
  parent : t.findNode n.parentIno = some p
  attached : Attached t p
  node : t.findNode n.ino = some { n with upper := none }
  absent : LooksUp s → entry s.upper p.upper n.name = none

theorem refreshed (inv : Inv s) (found : s.findNode n.ino = some n)
    (hp : s.findNode n.parentIno = some p) (att : Attached s p) (hroot : n.ino ≠ rootIno)
    (hnone : (s.refreshNode n).upperOf n.ino = none) : Refreshed s (s.refreshNode n) n p := by
  have hlt := inv.parent_lt found hroot
  have hpi := findNode_ino hp
  obtain ⟨upper, others, node⟩ := refreshNode_found found hp hroot
  have kept : Kept s (s.refreshNode n) := refreshNode_kept
  have hx : (if p.upper = none then n.upper
      else (s.upperLookup p.upper n.name).2.toOption) = none := by
    simpa only [upperOf, node, bind_some] using hnone
  rw [hx] at node
  exact {
    kept := kept
    upper := upper
    parent := by rw [others _ (by omega), hp]
    attached := att.congr inv (fun i hi => others i (by omega)) upper kept.lower
    node := node
    absent := fun looks => by
      by_cases hpu : p.upper = none
      · rw [hpu]
        rfl
      · rwa [if_neg hpu, upperLookup_toOption looks] at hx }

theorem uncovers_congr (hu : t.upper = s.upper) (hl : t.lower = s.lower) :
    Uncovers t p name ↔ Uncovers s p name := by
  have child : t.childOf p name = s.childOf p name := by
    simp only [childOf, lowerEntry, hidden, hu, hl]
    rfl
  simp only [Uncovers, see_of_eq hu hl, child, hu, hl]

/-- The directory of `n` is made in the upper directory of its parent. -/
def Leaves (s : OvlSb) (n : OvlNode) : Prop :=
  let r := s.ensureUpperDir n.parentIno
  r.2 = .ok () ∧ MakesDir r.1 n (r.1.upperOf n.parentIno)

/-- The parent of `n` has the upper directory `d`, in the state `v` that `ensureUpperDir` leaves,
and shows what it showed. -/
structure UpperDir (s t v : OvlSb) (n p : OvlNode) (d : Nat) : Prop where
  found : v.findNode n.parentIno = some { p with upper := some d }
  isDir : v.upper.isDir d = true
  find : v.upper.find d n.name = entry s.upper p.upper n.name
  looks : LooksUp v → LooksUp s
  exposed : Clears v { p with upper := some d } n.name ∧
      Uncovers v { p with upper := some d } n.name ↔ Clears t p n.name ∧ Uncovers s p n.name
  see : ∀ path, v.see path { p with upper := some d } = s.see path p

theorem UpperDir.upperOf (h : UpperDir s t v n p d) : v.upperOf n.parentIno = some d := by
  simp [OvlSb.upperOf, h.found]

section

variable (r : Refreshed s t n p)
include r

theorem Refreshed.isDir (st : Standing s n.parentIno n.name p) : t.isDir p = true := by
  simpa only [OvlSb.isDir, r.upper, r.kept.lower] using st.isDir

theorem Refreshed.upperDir (inv : Inv s) (st : Standing s n.parentIno n.name p)
    (hname : Proper n.name) (hok : (t.ensureUpperDir n.parentIno).2 = .ok ()) :
    ∃ d, UpperDir s t (t.ensureUpperDir n.parentIno).1 n p d := by
  have invT := inv.kept r.kept
  have kept : Kept t (t.ensureUpperDir n.parentIno).1 := ensureUpperDir_kept
  rw [← findNode_ino st.found] at hok kept ⊢
  obtain ⟨d, hfound, hd, hsame⟩ :=
    (r.attached.ensureUpperDir invT hok).sameEntries r.attached.found (r.isDir st)
  obtain ⟨p', hfound', -, -, hsee⟩ := see_ensureUpperDir invT r.attached (r.isDir st)
  obtain rfl : p' = { p with upper := some d } := some_inj.mp (hfound'.symm.trans hfound)
  have hold : p.upper.isSome → (t.ensureUpperDir p.ino).1 = t := fun h =>
    congrArg Prod.fst (ensureUpperDir_of_upper r.attached.found (r.attached.ino_pos invT) h)
  generalize (t.ensureUpperDir p.ino).1 = v at *
  refine ⟨d, by rw [← findNode_ino st.found]; exact hfound, hd, ?_, fun looks k err => ?_, ?_,
    fun path => ?_⟩
  · rw [hsame _ hname.dot hname.dotdot, r.upper]
  · have := looks k err
    rwa [kept.fault, r.kept.fault] at this
  · cases hpu : p.upper with
    | none =>
      -- a directory that was just made has no whiteout
      obtain ⟨h1, h2⟩ := whPrefix_append_ne_dot n.name
      have hnew : ¬ Clears v { p with upper := some d } n.name := by
        intro hclears
        have hyes : v.hidden (some d) n.name = true := hidden_of_clears hclears
        simp [hidden, entry, hsame _ h1 h2, hpu] at hyes
      exact iff_of_false (fun hc => hnew hc.1) fun hc => not_clears hpu hc.1
    | some x =>
      obtain rfl := hold (by rw [hpu]; rfl)
      have hp : p = { p with upper := some d } :=
        some_inj.mp (r.attached.found.symm.trans hfound)
      rw [← hp, uncovers_congr r.upper r.kept.lower]
  · rw [hsee path, see_of_eq r.upper r.kept.lower]

theorem Refreshed.see_ensure (inv : Inv s) (st : Standing s n.parentIno n.name p) :
    ∃ p', (t.ensureUpperDir n.parentIno).1.findNode n.parentIno = some p' ∧
      ∀ path, (t.ensureUpperDir n.parentIno).1.see path p' = s.see path p := by
  obtain ⟨p', hfound, -, -, hsee⟩ :=
    see_ensureUpperDir (inv.kept r.kept) r.attached (r.isDir st)
  rw [findNode_ino st.found] at hfound hsee
  refine ⟨p', hfound, fun path => ?_⟩
  rw [hsee, see_of_eq r.upper r.kept.lower]

/-- A parent whose upper directory cannot be made has none, and so no whiteout in it. -/
theorem Refreshed.not_clears (inv : Inv s)
    (h : (t.ensureUpperDir n.parentIno).2 = .error e) : ¬ Clears t p n.name := by
  refine OvlSb.not_clears (eq_none_iff_forall_ne_some.mpr fun x hx => ?_)
  have hens := ensureUpperDir_of_upper r.attached.found (r.attached.ino_pos (inv.kept r.kept))
    (by rw [hx]; rfl)
  rw [findNode_ino r.parent] at hens
  rw [hens] at h
  cases h

theorem Refreshed.file_failed (hv : UpperDir s t v n p d) (hname : Proper n.name)
    (h : (v.copyUpFile n (some d) data attr).2 = .error e) :
    ∃ p', (v.copyUpFile n (some d) data attr).1.findNode n.parentIno = some p' ∧
      ((∀ path, (v.copyUpFile n (some d) data attr).1.see path p' = s.see path p) ↔
        ¬ (Clears t p n.name ∧ Uncovers s p n.name)) := by
  have habsent : LooksUp v → v.upper.find d n.name = none := fun looks =>
    hv.find.trans (r.absent (hv.looks looks))
  obtain ⟨called, same⟩ := copyUpFile_failed hv.isDir hname habsent h
  obtain ⟨-, hcontent⟩ := removeWhiteout_keeps (s := v) hname d
  refine ⟨_, by rw [called.findNode, hv.found], ?_⟩
  have hlast := same.see (n := { p with upper := some d }) fun x hx => by
    obtain rfl := some_inj.mp hx
    exact lt_next_of_content ((hcontent d).trans (isDir_iff.mp hv.isDir))
  have hiff := see_cleared_iff (n := { p with upper := some d }) rfl hv.isDir hname.nonempty rfl
    removeWhiteout_called.lower
  simp only [hlast, ← hv.see, ← hv.exposed]
  simpa only [hname, true_and] using hiff

theorem Refreshed.dir_failed (inv : Inv s)
    (st : Standing s n.parentIno n.name p) (hname : Proper n.name) (hroot : n.ino ≠ rootIno)
    (h : (t.ensureUpperDir n.ino).2 = .error e) :
    ∃ p', (t.ensureUpperDir n.ino).1.findNode n.parentIno = some p' ∧
      ((∀ path, (t.ensureUpperDir n.ino).1.see path p' = s.see path p) ↔
        ¬ (Clears t p n.name ∧ Uncovers s p n.name ∨
          Leaves t n ∧ s.see [n.name] p ≠ some .dir)) := by
  have invT := inv.kept r.kept
  have hlt : n.parentIno < n.ino := invT.parent_lt (n := { n with upper := none }) r.node hroot
  -- one step of the recursion; the rest of the fuel is enough for the parent
  have step : t.ensureUpperDir n.ino =
      belowParent (t.ensureUpperDir n.parentIno) { n with upper := none } := by
    obtain ⟨k, hk⟩ : ∃ k, n.ino = k + 1 := ⟨n.ino - 1, by omega⟩
    have one :=
      ensureUpperDirFrom_of_none (n := { n with upper := none }) r.node rfl hroot r.parent k
    rw [ensureUpperDirFrom_fuel invT (show n.parentIno ≤ k by omega) (Nat.le_refl _), ← hk] at one
    exact one
  rw [step, belowParent] at h ⊢
  cases hens : (t.ensureUpperDir n.parentIno).2 with
  | error e =>
    obtain ⟨p', hfound, hsee⟩ := r.see_ensure inv st
    refine ⟨p', hfound, iff_of_true hsee ?_⟩
    rintro (⟨hclears, -⟩ | ⟨⟨hok, -⟩, -⟩)
    · exact r.not_clears inv hens hclears
    · rw [hens] at hok
      cases hok
  | ok a =>
    simp only [hens] at h ⊢
    obtain ⟨d, hv⟩ := r.upperDir inv st hname hens
    have hleaves : Leaves t n ↔ MakesDir (t.ensureUpperDir n.parentIno).1 n (some d) := by
      rw [Leaves, hens, hv.upperOf]
      exact and_iff_right rfl
    rw [hv.upperOf] at h ⊢
    refine ⟨_, by rw [(makeUpperDir_error h).findNode, hv.found], ?_⟩
    simp only [← hv.see, ← hv.exposed, hleaves]
    exact see_makeUpperDir_iff (n := { n with upper := none }) (p := { p with upper := some d })
      rfl hv.isDir hname h

end

/-- A failed copy-up of `n` shows in the directory of its parent `p`: the whiteout of the name is
gone and hid something, or an empty directory is left where the merged tree had none.  The node can
be that of a file or directory that was removed after it was looked up. -/
def Exposes (s : OvlSb) (n p : OvlNode) : Prop :=
  match n.lower.bind s.lower.content with
  | some (.file _) => Clears (s.refreshNode n) p n.name ∧ Uncovers s p n.name
  | some .dir => Clears (s.refreshNode n) p n.name ∧ Uncovers s p n.name ∨
      Leaves (s.refreshNode n) n ∧ s.see [n.name] p ≠ some .dir
  | _ => False

theorem Inv.ne_root (inv : Inv s) (found : s.findNode n.ino = some n)
    (hp : s.findNode n.parentIno = some p) (hne : n.name ≠ []) : n.ino ≠ rootIno := by
  intro hroot
  rcases inv.ordered _ (key_mem found) with ⟨-, -, hnil⟩ | hlt
  · exact hne hnil
  · -- the parent would be number 0
    have hpi := findNode_ino hp
    have hzero : p.ino = 0 := by
      simp only [OvlNode.key, hroot, rootIno] at hlt
      omega
    have := inv.parent_lt hp (by rw [hzero]; decide)
    omega

theorem copyUp_see_iff (inv : Inv s) (hro : s.rdonly = false) (found : s.findNode n.ino = some n)
    (st : Standing s n.parentIno n.name p) (h : (s.copyUp n.ino).2 = .error e) :
    ∃ p', (s.copyUp n.ino).1.findNode n.parentIno = some p' ∧
      ((∀ path, (s.copyUp n.ino).1.see path p' = s.see path p) ↔ ¬ Exposes s n p) := by
  have hroot := inv.ne_root found st.found st.nonempty
  have hname : Proper n.name :=
    ⟨st.nonempty, (inv.named _ (key_mem found)).1, (inv.named _ (key_mem found)).2, st.unreserved⟩
  have hlower : n.lower.bind s.lower.content =
      (n.lower.bind s.lower.inodes).map (·.body.content) := by
    cases n.lower <;> rfl
  unfold copyUp at h ⊢
  simp only [hro, Bool.false_eq_true, if_false, found] at h ⊢
  cases hof : (s.refreshNode n).upperOf n.ino with
  | some x =>
    rw [hof] at h
    cases h
  | none =>
    have r := refreshed inv found st.found st.attached hroot hof
    rw [hof] at h
    unfold Exposes
    generalize s.refreshNode n = t at h r ⊢
    simp only [isSome_none, Bool.false_eq_true, if_false] at h ⊢
    have quiet : ∀ path, t.see path p = s.see path p := fun path =>
      see_of_eq r.upper r.kept.lower path p
    rw [hlower, ← r.kept.lower]
    cases hl : n.lower.bind t.lower.inodes with
    | none => exact ⟨p, r.parent, iff_of_true quiet not_false⟩
    | some k =>
      obtain ⟨body, attr, removed⟩ := k
      simp only [hl] at h ⊢
      cases body with
      | file data =>
        simp only [r.parent, isNone_some, Bool.false_eq_true, if_false] at h ⊢
        cases hens : (t.ensureUpperDir n.parentIno).2 with
        | error e =>
          obtain ⟨p', hfound, hsee⟩ := r.see_ensure inv st
          exact ⟨p', hfound, iff_of_true hsee fun hc => r.not_clears inv hens hc.1⟩
        | ok a =>
          obtain ⟨d, hv⟩ := r.upperDir inv st hname hens
          simp only [hens, hv.upperOf] at h ⊢
          exact r.file_failed hv hname h
      | dir parent es => exact r.dir_failed inv st hname hroot h
      | symlink | special => exact ⟨p, r.parent, iff_of_true quiet not_false⟩

def Unchanged (s : OvlSb) (c : Call) : Prop :=
  let shows (dir : Nat) : Prop := ∃ n n', s.findNode dir = some n ∧
    (s.exec c).1.findNode dir = some n' ∧ ∀ path, (s.exec c).1.see path n' = s.see path n
  match c.op with
  | .create dir _ _ | .mkdir dir _ _ | .unlink dir _ | .rmdir dir _ => shows dir
  | .copyUp ino => ∃ n, s.findNode ino = some n ∧ shows n.parentIno
  | .lookup _ _ => True

theorem eq_error_of_isOk {r : Except Int α} (h : r.isOk = false) : ∃ e, r = .error e := by
  cases r with
  | error e => exact ⟨e, rfl⟩
  | ok a => cases h

theorem see_begin (c : Call) (path : List Name) (n : OvlNode) :
    (s.begin c).see path n = s.see path n := by
  apply see_of_eq <;> rfl

end OvlSb

end Six.Overlay
