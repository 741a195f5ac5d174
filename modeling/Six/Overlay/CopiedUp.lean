import Six.Overlay.CopyUp

/-! A copy-up that succeeds. -/

namespace Six.Overlay

open Lib Errno List DirFs

namespace OvlSb

variable {s : OvlSb} {u : Nat} {dir : Option Nat} {n p : OvlNode} {data : List UInt8} {attr : Attr}
  {removed : Bool}

theorem copyData_content (fuel : Nat) (rest : List UInt8)
    (hfuel : rest.length ≤ fuel) (hu : s.upper.content u = some (.file done))
    (h : (copyData fuel s u done.length rest).2 = .ok ()) :
    (copyData fuel s u done.length rest).1.upper.content u = some (.file (done ++ rest)) := by
  induction fuel generalizing s done rest with
  | zero =>
    obtain rfl := eq_nil_of_length_eq_zero (Nat.le_zero.mp hfuel)
    rw [append_nil]
    exact hu
  | succ fuel ih =>
    unfold copyData at h ⊢
    by_cases hrest : rest = []
    · rw [if_pos hrest, hrest, append_nil]
      exact hu
    rw [if_neg hrest] at h ⊢
    obtain ⟨k, hk, hchunk⟩ : ∃ k, 0 < k ∧
        rest.take (min pageSize (s.grain s.reads + 1)) = rest.take k :=
      ⟨_, by unfold pageSize; omega, rfl⟩
    rw [hchunk] at h ⊢
    cases hread : s.onRead (.ok ()) with
    | error e =>
      rw [hread] at h
      cases h
    | ok a =>
      simp only [hread] at h ⊢
      cases hw : (update { s with reads := s.reads + 1 }
          (.ok (s.upper.write u done.length (rest.take k), ()))).2 with
      | error e =>
        rw [hw] at h
        cases h
      | ok a =>
        simp only [hw] at h ⊢
        have written := update_ok hw
        simp only [Except.ok.injEq, Prod.mk.injEq] at written
        generalize (update { s with reads := s.reads + 1 }
          (.ok (s.upper.write u done.length (rest.take k), ()))).1 = t at h written ⊢
        have hnew : t.upper.content u = some (.file (done ++ rest.take k)) := by
          rw [← written.1, content_write_self hu]
          simp [overwrite]
        have hleft : (rest.drop (rest.take k).length).length ≤ fuel := by
          rw [length_drop, length_take]
          omega
        have hsplit : rest.take k ++ rest.drop (rest.take k).length = rest := by
          rw [length_take, ← drop_eq_drop_min, take_append_drop]
        rw [← length_append] at h ⊢
        rw [ih _ hleft hnew h, append_assoc, hsplit]

theorem copyUpFile_ok (hn : s.findNode n.ino = some n)
    (h : (s.copyUpFile n dir data attr).2 = .ok ()) : ∃ d u, dir = some d ∧
      (∀ i, i ≠ n.ino → (s.copyUpFile n dir data attr).1.findNode i = s.findNode i) ∧
      (s.copyUpFile n dir data attr).1.findNode n.ino = some { n with upper := some u } ∧
      (s.copyUpFile n dir data attr).1.upper.find d n.name = some u ∧
      (s.copyUpFile n dir data attr).1.upper.content u = some (.file data) ∧
      ((s.copyUpFile n dir data attr).1.upper.inodes u).map Inode.attr = some attr := by
  have cleared : Called s ((s.removeWhiteout dir n.name).clearUpper dir n.name) :=
    removeWhiteout_called.trans clearUpper_called
  unfold copyUpFile at h ⊢
  dsimp only at h ⊢
  generalize (s.removeWhiteout dir n.name).clearUpper dir n.name = t at h cleared ⊢
  cases hc : (t.realCreate dir n.name attr.mode).2 with
  | error e =>
    rw [hc] at h
    cases h
  | ok u =>
    obtain ⟨d, rfl, rfl, added⟩ := realCreate_ok hc
    simp only [hc] at h ⊢
    have created : Called s (t.realCreate (some d) n.name attr.mode).1 :=
      cleared.trans realCreate_called
    have wrote := wrote_copyData (s := (t.realCreate (some d) n.name attr.mode).1)
      (u := t.upper.next) data.length 0 data
    have content := copyData_content data.length data (Nat.le_refl _) added.content_new
    rw [nil_append] at content
    generalize copyData data.length (t.realCreate (some d) n.name attr.mode).1 t.upper.next 0 data
      = w at h wrote content ⊢
    cases hw : w.2 with
    | error e =>
      rw [hw] at h
      cases h
    | ok a =>
      have hcontent := content hw
      have hne : d ≠ t.upper.next := Nat.ne_of_lt (lt_next_of_content (isDir_iff.mp added.isDir))
      have hfound : ∀ i, w.1.findNode i = s.findNode i := (created.trans wrote.toCalled).findNode
      refine ⟨d, t.upper.next, rfl, fun i hi => ?_, ?_, ?_, ?_, ?_⟩
      · rw [findNode_setUpper, if_neg hi]
        exact hfound i
      · rw [findNode_setUpper, if_pos rfl]
        exact congrArg (Option.map _) ((hfound n.ino).trans hn)
      · show (w.1.upper.setAttr t.upper.next attr).find d n.name = _
        rw [setAttr, find_modify_of_ne hne, wrote.find, added.find_self]
      · show (w.1.upper.setAttr t.upper.next attr).content t.upper.next = _
        rw [setAttr, content_modify (f := fun n => { n with attr := attr }) fun _ => rfl, hcontent]
      · obtain ⟨i, hi, -⟩ := Option.map_eq_some_iff.mp hcontent
        simp [setUpper, setNode, setUpperFs, setAttr, modify_inodes_self, hi]

/-- The upper file `u` of a node, in the upper directory `d` of its parent, has the bytes and the
attributes of the lower file, and a reader of the node gets the same bytes. -/
structure CopiedUp (s s' : OvlSb) (n : OvlNode) (data : List UInt8) (attr : Attr) (d u : Nat) :
    Prop where
  parent : s'.upperOf n.parentIno = some d
  linked : s'.upper.find d n.name = some u
  node : s'.findNode n.ino = some { n with upper := some u }
  content : s'.upper.content u = some (.file data)
  attrs : (s'.upper.inodes u).map Inode.attr = some attr
  read : s'.contentOf { n with upper := some u } = s.contentOf n

theorem copyUp_file (inv : Inv s) (hro : s.rdonly = false) (found : s.findNode n.ino = some n)
    (hp : s.findNode n.parentIno = some p) (att : Attached s p)
    (hup : n.upper = entry s.upper p.upper n.name) (hroot : n.ino ≠ rootIno)
    (hnone : n.upper = none)
    (hlower : n.lower.bind s.lower.inodes = some ⟨.file data, attr, removed⟩) :
    ∃ t, Refreshed s t n p ∧ (((t.ensureUpperDir n.parentIno).2 = .ok () ∧
        s.copyUp n.ino = (t.ensureUpperDir n.parentIno).1.copyUpFile n
          ((t.ensureUpperDir n.parentIno).1.upperOf n.parentIno) data attr) ∨
      ∃ e, (t.ensureUpperDir n.parentIno).2 = .error e ∧
        s.copyUp n.ino = ((t.ensureUpperDir n.parentIno).1, .error e)) := by
  obtain ⟨-, -, x, hx, -, hkept⟩ := refreshNode_spec found hp hup hroot
  have hof : (s.refreshNode n).upperOf n.ino = none := by simp [upperOf, hx, hkept hnone]
  have r := refreshed inv found hp att hroot hof
  refine ⟨s.refreshNode n, r, ?_⟩
  unfold copyUp
  simp only [hro, found, hof, r.kept.lower, hlower, r.parent, Option.isSome_none,
    Option.isNone_some,
    Bool.false_eq_true, if_false]
  cases (s.refreshNode n).ensureUpperDir n.parentIno |>.2 with
  | ok a => exact .inl ⟨rfl, rfl⟩
  | error e => exact .inr ⟨e, rfl, rfl⟩

theorem copyUp_ok (inv : Inv s) (att : Attached s n) (hnone : n.upper = none)
    (hlower : n.lower.bind s.lower.inodes = some ⟨.file data, attr, removed⟩)
    (h : (s.copyUp n.ino).2 = .ok ()) :
    ∃ d u, CopiedUp s (s.copyUp n.ino).1 n data attr d u := by
  have hreads : s.contentOf n = some (.file data) := by
    obtain ⟨l, hl, hi⟩ := Option.bind_eq_some_iff.mp hlower
    simp [contentOf, hnone, hl, content, hi, Body.content]
  have hro : s.rdonly = false := by
    by_contra hro
    rw [copyUp, if_pos (by simpa using hro)] at h
    cases h
  cases att with
  | root found hroot hup => simp [hnone] at hup
  | @child n p found hroot hp att hdot hdotdot hup =>
    have hlt := inv.parent_lt found hroot
    obtain ⟨t, r, ⟨-, hcopy⟩ | ⟨e, -, hcopy⟩⟩ :=
      copyUp_file inv hro found hp att hup hroot hnone hlower
    · have hn : (t.ensureUpperDir n.parentIno).1.findNode n.ino = some n := by
        rw [ensureUpperDir, ensureUpperDirFrom_findNode (inv.kept r.kept) _ hlt, r.node, ← hnone]
      rw [hcopy] at h ⊢
      obtain ⟨d, u, hd, hsame, hnode, hfind, hcontent, hattr⟩ := copyUpFile_ok hn h
      refine ⟨d, u, ?_, hfind, hnode, hcontent, hattr, ?_⟩
      · rw [upperOf, hsame _ (Nat.ne_of_lt hlt)]
        exact hd
      · rw [hreads, ← hcontent]
        rfl
    · rw [hcopy] at h
      cases h

theorem copyUp_absent (inv : Inv s) (att : Attached s n)
    (st : Standing s n.parentIno n.name p) (hnone : n.upper = none)
    (hlower : n.lower.bind s.lower.inodes = some ⟨.file data, attr, removed⟩)
    (h : (s.copyUp n.ino).2 = .error e) (hd : (s.copyUp n.ino).1.upperOf n.parentIno = some d) :
    (s.copyUp n.ino).1.upper.find d n.name = none := by
  cases att with
  | root found hroot hup => simp [hnone] at hup
  | @child n p' found hroot hp att hdot hdotdot hup hlow =>
    obtain rfl : p = p' := Option.some_inj.mp (st.found.symm.trans hp)
    by_cases hro : s.rdonly = true
    · rw [copyUp, if_pos hro] at hd ⊢
      have hpd : p.upper = some d := by simpa [upperOf, hp] using hd
      simpa [hpd, entry, hnone] using hup.symm
    obtain ⟨t, r, ⟨hok, hcopy⟩ | ⟨e, herr, hcopy⟩⟩ :=
      copyUp_file inv (by simpa using hro) found hp att hup hroot hnone hlower
    · have hname : Proper n.name := ⟨st.nonempty, hdot, hdotdot, st.unreserved⟩
      obtain ⟨x, hv⟩ := r.upperDir inv st hname hok
      have hfind := hv.find
      rw [← hup, hnone] at hfind
      rw [hcopy, hv.upperOf] at h hd ⊢
      obtain ⟨called, same⟩ := copyUpFile_failed hv.isDir hname (fun _ => hfind) h
      obtain rfl : x = d := by simpa [upperOf, called.findNode, hv.found] using hd
      obtain ⟨hkept, hcontent⟩ :=
        removeWhiteout_keeps (s := (t.ensureUpperDir n.parentIno).1) hname x
      have hlt := lt_next_of_content ((hcontent x).trans (isDir_iff.mp hv.isDir))
      rw [same.find _ _ hlt, hkept, hfind]
    · -- the directory of the parent could not be made, so there was none
      have hpi := findNode_ino hp
      rw [hcopy] at hd
      rw [← hpi] at herr hd
      have invT := inv.kept r.kept
      have hpd : p.upper = some d := by
        simpa [upperOf, ensureUpperDir_error invT r.attached.found herr] using hd
      rw [ensureUpperDir_of_upper r.attached.found (r.attached.ino_pos invT)
        (by simp [hpd])] at herr
      cases herr

/-- A node that is where a walk from the root finds it has no whiteout in its way. -/
theorem not_exposes (att : Attached s n) (hp : s.findNode n.parentIno = some p)
    (hlower : n.lower.bind s.lower.inodes = some ⟨.file data, attr, removed⟩)
    (hnone : n.upper = none) : ¬ Exposes s n p := by
  obtain ⟨l, hl, hi⟩ := Option.bind_eq_some_iff.mp hlower
  have hfile : n.lower.bind s.lower.content = some (.file data) := by
    simp [hl, content, hi, Body.content]
  unfold Exposes
  rw [hfile]
  rintro ⟨hclears, -⟩
  cases att with
  | root found hroot hup => simp [hnone] at hup
  | @child n p' found hroot hp' att hdot hdotdot hup hlow =>
    obtain rfl : p = p' := Option.some_inj.mp (hp.symm.trans hp')
    have hhid : s.hidden p.upper n.name = true := by
      have hhid := hidden_of_clears hclears
      rwa [hidden, (refreshNode_found found hp hroot).1] at hhid
    rw [hlow, lowerEntry, if_pos hhid] at hl
    cases hl

/-- In every run from a new mount, a copy-up of a file that only the lower tree has copies the file
or fails, and then the upper directory has no file of the name, and the merged directory shows what
it showed; the lower tree is the same. -/
theorem copy_up_copies {upper lower : DirFs} {u l : Nat} {rdonly removed : Bool} {grain : Nat → Nat}
    {c : Call} (run : Reaches step (fun _ _ => True) (mount upper lower u l rdonly grain) s)
    (hop : c.op = .copyUp n.ino) (att : Attached s n) (st : Standing s n.parentIno n.name p)
    (hnone : n.upper = none)
    (hlower : n.lower.bind s.lower.inodes = some ⟨.file data, attr, removed⟩) :
    (s.exec c).1.lower = s.lower ∧
      ((s.exec c).2.isOk = true → ∃ d u, CopiedUp s (s.exec c).1 n data attr d u) ∧
      ((s.exec c).2.isOk = false →
        (∀ d, (s.exec c).1.upperOf n.parentIno = some d → (s.exec c).1.upper.find d n.name = none) ∧
        ∃ p', (s.exec c).1.findNode n.parentIno = some p' ∧
          ∀ path, (s.exec c).1.see path p' = s.see path p) := by
  have inv : Inv (s.begin c) := (reaches_inv run).begin c
  simp only [exec, hop, map_isOk]
  refine ⟨copyUp_kept.lower, fun hok => ?_, fun hfail => ?_⟩
  · obtain ⟨a, ha⟩ := isOk_iff.mp hok
    obtain ⟨d, u, copied⟩ := copyUp_ok inv (att.begin c) hnone hlower ha
    exact ⟨d, u, { copied with }⟩
  · obtain ⟨e, he⟩ := eq_error_of_isOk hfail
    refine ⟨fun d => copyUp_absent inv (att.begin c) (st.begin c) hnone hlower he, ?_⟩
    by_cases hro : s.rdonly = true
    · have same : (s.begin c).copyUp n.ino = (s.begin c, .error (-erofs)) := if_pos hro
      rw [same]
      exact ⟨p, st.found, fun path => see_begin c path p⟩
    · obtain ⟨p', hfound, hiff⟩ :=
        copyUp_see_iff inv (Bool.eq_false_iff.mpr hro) att.found (st.begin c) he
      have hsee := hiff.mpr (not_exposes (att.begin c) st.found hlower hnone)
      exact ⟨p', hfound, fun path => (hsee path).trans (see_begin c path p)⟩

/-- One file, a byte longer than a page. -/
def longFile : DirFs :=
  .ofList [⟨.dir 0 [([97], 1)], zeroAttr, false⟩,
    ⟨.file (List.replicate 4097 7), ⟨0o644, 7, 8, 9, 10⟩, false⟩] (by decide) (by decide)

theorem long_file_copied :
    ∃ s, run step (mount emptyTree longFile 0 0 false) [⟨.lookup 1 [97], .none, zeroAttr⟩] =
        some s ∧
      ∃ d u, CopiedUp s (s.exec ⟨.copyUp 2, .none, zeroAttr⟩).1 ⟨2, 1, [97], none, some 1⟩
        (List.replicate 4097 7) ⟨0o644, 7, 8, 9, 10⟩ d u := by
  refine ⟨_, rfl,
    (copy_up_copies (n := ⟨2, 1, [97], none, some 1⟩) (p := ⟨1, 1, [], some 0, some 0⟩)
    (reaches_of_run [⟨.lookup 1 [97], .none, zeroAttr⟩] rfl) rfl ?_ ?_ rfl rfl).2.1
    (by decide +kernel)⟩
  · exact .child rfl (by decide) rfl (.root rfl rfl rfl) (by decide) (by decide) (by decide)
      (by decide) (by decide)
  · exact ⟨rfl, .root rfl rfl rfl, by decide, by decide, by decide⟩

end OvlSb

end Six.Overlay
