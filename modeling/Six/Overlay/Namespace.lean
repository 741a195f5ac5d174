import Six.Overlay.Merged

/-! The directory operations against the merged tree: what `ovlLookup` finds, and what `ovlUnlink`
and `ovlRmdir` remove. -/

namespace Six.Overlay

open Lib Errno Option DirFs

namespace OvlSb

variable {s s' : OvlSb} {d ino : Nat} {dir : Option Nat} {name m : Name} {n n' p : OvlNode}
  {wantDir : Bool}

theorem visible_dot (h : s.isDir n = true) (hm : m = .dot ∨ m = .dotdot) :
    s.visible n m = true := by
  unfold isDir at h
  cases hu : n.upper with
  | some u =>
    rw [hu] at h
    simp [visible, hu, entry, find_dot h hm]
  | none =>
    rw [hu] at h
    obtain ⟨l, hl, hdir⟩ := (any_eq_true _ _).mp h
    simp [visible, lowerEntry, hidden, hu, entry, hl, find_dot hdir hm]

theorem Attached.refresh (att : Attached s n) (looks : LooksUp s) :
    (s.refreshNode n).upper = s.upper ∧ (s.refreshNode n).upperOf n.ino = n.upper := by
  have here : s.upperOf n.ino = n.upper := by simp [upperOf, att.found]
  unfold refreshNode
  split
  · exact ⟨rfl, here⟩
  rename_i hroot
  cases att with
  | root _ h => exact absurd h hroot
  | @child n p found _ hp _ _ _ hup =>
    simp only [hp]
    split
    · exact ⟨rfl, here⟩
    refine ⟨upperLookup_upper, ?_⟩
    simp [upperOf, findNode_setUpper, upperLookup_called.findNode, found,
      upperLookup_toOption looks, hup]

theorem hasWhiteout_eq (looks : LooksUp s) (hne : name ≠ []) (hlen : name.length ≤ 255) :
    (s.hasWhiteout dir name).2 = s.hidden dir name := by
  have hwh : makeWhiteoutName name = .ok (whPrefix ++ name) := by
    have : name.length ≠ 0 := by simpa using hne
    unfold makeWhiteoutName
    rw [if_neg (by omega)]
  simp only [hasWhiteout, hwh]
  exact upperLookup_isOk looks _ _

theorem find_of_long {fs : DirFs} (h : 255 < name.length) : fs.find d name = none := by
  simp [find, h]

theorem visible_of_long (h : 255 < name.length) : s.visible n name = false := by
  have none_found : ∀ (fs : DirFs) dir, entry fs dir name = none := by
    intro fs dir
    cases dir <;> simp [entry, find_of_long h]
  simp [visible, lowerEntry, none_found]

theorem realChild_eq (looks : LooksUp s) (hne : name ≠ []) (hlen : name.length ≤ 255) :
    (s.realChild n.upper n.lower name).2 = (entry s.upper n.upper name, s.lowerEntry n name) := by
  have looks' : LooksUp (s.upperLookup n.upper name).1 := looks.kept upperLookup_called.toKept
  unfold realChild
  dsimp only
  rw [upperLookup_toOption looks, hasWhiteout_eq looks' hne hlen]
  simp only [hidden, upperLookup_upper, lowerEntry, lowerLookup, entry, hasWhiteout_called.lower,
    upperLookup_called.lower]
  rfl

theorem ovlLookup_isOk (inv : Inv s) (looks : LooksUp s) (att : Attached s n)
    (hdir : s.isDir n = true) (hne : name ≠ []) (hw : isWhiteoutName name = false) :
    (s.ovlLookup n.ino name).2.isOk = s.visible n name := by
  unfold ovlLookup
  simp only [att.found, hdir, Bool.not_true, Bool.false_eq_true, if_false, hne, false_or]
  split
  · rename_i hdot
    rw [visible_dot hdir (.inl hdot)]
    rfl
  split
  · rename_i hdotdot
    rw [visible_dot hdir (.inr hdotdot), if_pos (inv.parent_found att.found)]
    rfl
  split
  · rename_i hlong
    rw [visible_of_long (by simpa [hw] using hlong)]
    rfl
  rename_i hlen
  have hlen : name.length ≤ 255 := by simpa [hw] using hlen
  obtain ⟨upper, hof⟩ := att.refresh looks
  have child : ((s.refreshNode n).realChild n.upper n.lower name).2 =
      (entry s.upper n.upper name, s.lowerEntry n name) := by
    rw [realChild_eq (looks.kept refreshNode_kept) hne hlen]
    simp only [lowerEntry, hidden, upper, refreshNode_kept.lower]
    rfl
  rw [hof, child]
  unfold visible
  cases entry s.upper n.upper name <;> cases s.lowerEntry n name <;> rfl

theorem createWhiteout_ok (h : (s.createWhiteout dir name).2 = .ok ()) :
    ∃ d, dir = some d ∧ ((s.createWhiteout dir name).1.upper.find d (whPrefix ++ name)).isSome ∧
      (∀ m, m ≠ whPrefix ++ name →
        (s.createWhiteout dir name).1.upper.find d m = s.upper.find d m) ∧
      ∀ x, s.upper.isDir x = true → (s.createWhiteout dir name).1.upper.isDir x = true := by
  cases dir with
  | none => simp [createWhiteout] at h
  | some d =>
    refine ⟨d, rfl, ?_⟩
    cases hwh : makeWhiteoutName name with
    | error e => simp [createWhiteout, hwh] at h
    | ok wh =>
      obtain rfl := makeWhiteoutName_ok hwh
      simp only [createWhiteout, hwh] at h ⊢
      generalize hr : s.upperLookup (some d) (whPrefix ++ name) = r at h ⊢
      have upper : r.1.upper = s.upper := by rw [← hr]; exact upperLookup_upper
      cases hl : r.2 with
      | ok i =>
        have found : entry s.upper (some d) (whPrefix ++ name) = some i :=
          upperLookup_ok (by rw [hr, hl])
        rw [entry, bind_some] at found
        simp [Except.isOk, Except.toBool, upper, found]
      | error e =>
        simp only [hl, reduceCtorEq, if_false, Except.isOk, Except.toBool,
          Bool.false_eq_true] at h ⊢
        cases hc : (r.1.realCreate (some d) (whPrefix ++ name) 0o100000).2 with
        | error e => simp [hc, Except.map] at h
        | ok u =>
          obtain ⟨d', hd, -, added⟩ := realCreate_ok hc
          obtain rfl : d = d' := some_inj.mp hd
          rw [upper] at added
          have old : ∀ x, s.upper.isDir x = true → x ≠ s.upper.next := fun x hx =>
            Nat.ne_of_lt (lt_next_of_content (isDir_iff.mp hx))
          refine ⟨by rw [added.find_self]; rfl, fun m hm => ?_, fun x hx => ?_⟩
          · exact added.find_other d m (old d added.isDir) (.inr hm)
          · rw [isDir_iff, added.content_old x (old x hx)]
            exact isDir_iff.mp hx

structure Planted (s s' : OvlSb) (n n' : OvlNode) (name : Name) : Prop where
  found : s'.findNode n.ino = some n'
  lower : n'.lower = n.lower
  dir : s.isDir n = true → s'.isDir n' = true
  covered : s'.hidden n'.upper name = true
  other : ∀ m, m ≠ whPrefix ++ name → m ≠ .dot → m ≠ .dotdot →
    entry s'.upper n'.upper m = entry s.upper n.upper m

theorem plantWhiteout_ok (found : s.findNode n.ino = some n)
    (ens : (s.ensureUpperDir n.ino).2 = .ok () → Ensured s (s.ensureUpperDir n.ino).1 n)
    (h : (s.plantWhiteout n.ino name).2 = .ok ()) :
    ∃ n', Planted s (s.plantWhiteout n.ino name).1 n n' name := by
  unfold plantWhiteout at h ⊢
  cases hr : (s.ensureUpperDir n.ino).2 with
  | error e => simp [hr] at h
  | ok a =>
    simp only [hr] at h ⊢
    have ens := ens hr
    generalize (s.ensureUpperDir n.ino).1 = t at h ens ⊢
    obtain ⟨d, hof, hidden', other, dirs⟩ := createWhiteout_ok h
    cases hu : n.upper with
    | some u =>
      obtain rfl := ens.old (by rw [hu]; rfl)
      obtain rfl : u = d := by simpa [upperOf, found, hu] using hof
      refine ⟨n, ?_, rfl, fun hdir => ?_, ?_, fun m hm _ _ => ?_⟩
      · rw [createWhiteout_called.findNode, found]
      · simp only [isDir, hu] at hdir ⊢
        exact dirs u hdir
      · simpa [hidden, entry, hu] using hidden'
      · simpa [entry, hu] using other m hm
    | none =>
      obtain ⟨u, hfound, hdir, hempty⟩ := ens.new hu
      obtain rfl : u = d := by simpa [upperOf, hfound] using hof
      refine ⟨{ n with upper := some u }, ?_, rfl, fun _ => ?_, ?_, fun m hm h1 h2 => ?_⟩
      · rw [createWhiteout_called.findNode, hfound]
      · simp only [isDir]
        exact dirs u hdir
      · simpa [hidden, entry] using hidden'
      · simp [entry, hu, other m hm, hempty m h1 h2]

structure Removed (s s' : OvlSb) (n n' : OvlNode) (name : Name) : Prop where
  found : s'.findNode n.ino = some n'
  lower : n'.lower = n.lower
  lowerFs : s'.lower = s.lower
  dir : s.isDir n = true → s'.isDir n' = true
  gone : entry s'.upper n'.upper name = none
  covered : (entry s.lower n.lower name).isSome → s'.hidden n'.upper name = true
  other : ∀ m, m ≠ name → m ≠ whPrefix ++ name → m ≠ .dot → m ≠ .dotdot →
    entry s'.upper n'.upper m = entry s.upper n.upper m

theorem isWhiteoutName_append (h : name ≠ []) : isWhiteoutName (whPrefix ++ name) = true := by
  have : 0 < name.length := List.length_pos_iff.mpr h
  simp [isWhiteoutName, whPrefix]
  omega

theorem Removed.visible_self (h : Removed s s' n n' name) : s'.visible n' name = false := by
  unfold visible lowerEntry
  rw [h.gone, h.lowerFs, h.lower]
  by_cases hl : (entry s.lower n.lower name).isSome
  · simp [h.covered hl]
  · have hnone : entry s.lower n.lower name = none := by simpa using hl
    simp [hnone]

theorem Removed.visible_other (h : Removed s s' n n' name) (hdir : s.isDir n = true)
    (hw : isWhiteoutName name = false) (hm : m ≠ name) (hne : m ≠ [])
    (hmw : isWhiteoutName m = false) (hname : name ≠ []) : s'.visible n' m = s.visible n m := by
  by_cases hdot : m = .dot ∨ m = .dotdot
  · rw [visible_dot hdir hdot, visible_dot (h.dir hdir) hdot]
  simp only [not_or] at hdot
  have hmark : m ≠ whPrefix ++ name := by
    rintro rfl
    simp [isWhiteoutName_append hname] at hmw
  have hmark' : whPrefix ++ m ≠ name := by
    rintro rfl
    simp [isWhiteoutName_append hne] at hw
  obtain ⟨h1, h2⟩ := whPrefix_append_ne_dot m
  have same : s'.hidden n'.upper m = s.hidden n.upper m := by
    unfold hidden
    rw [h.other _ hmark' (by simpa using hm) h1 h2]
  unfold visible lowerEntry
  rw [h.other m hm hmark hdot.1 hdot.2, same, h.lowerFs, h.lower]

theorem forgetChild_findNode (inv : Inv s) (hname : name ≠ []) :
    (s.forgetChild ino name).findNode ino = s.findNode ino := by
  unfold forgetChild
  split
  · rename_i c hc
    rw [findNode_setUpper, if_neg]
    intro heq
    have mem : c.key ∈ s.nodes.map OvlNode.key := List.mem_map_of_mem (List.mem_of_find?_eq_some hc)
    have child : c.parentIno = ino ∧ c.name = name := by simpa using List.find?_some hc
    rcases inv.ordered _ mem with root | lt
    · exact hname (child.2.symm.trans root.2.2)
    · simp only [OvlNode.key] at lt
      omega
  · rfl

theorem Attached.ino_pos (att : Attached s n) (inv : Inv s) : 0 < n.ino := by
  cases att with
  | root _ h => rw [h]; decide
  | child found hroot => exact Nat.lt_of_le_of_lt (Nat.zero_le _) (inv.parent_lt found hroot)

theorem ensureUpperDir_of_upper (found : s.findNode n.ino = some n) (hpos : 0 < n.ino)
    (h : n.upper.isSome) : s.ensureUpperDir n.ino = (s, .ok ()) := by
  obtain ⟨k, hk⟩ : ∃ k, n.ino = k + 1 := ⟨n.ino - 1, by omega⟩
  have := ensureUpperDirFrom_of_upper found h k
  rwa [← hk] at this

theorem ensured_of_upper (found : s.findNode n.ino = some n) (hpos : 0 < n.ino)
    (h : n.upper.isSome) : Ensured s (s.ensureUpperDir n.ino).1 n := by
  rw [ensureUpperDir_of_upper found hpos h]
  exact ⟨fun _ => rfl, fun hnone => by simp [hnone] at h⟩

structure Remover (name : Name) (remove : OvlSb → Option Nat → OvlSb × Except Int Unit)
    (finish : OvlSb → OvlSb) (ino : Nat) : Prop where
  called : ∀ t upper, Called t (remove t upper).1
  dropped : ∀ t upper, (remove t upper).2 = .ok () →
    ∃ d, upper = some d ∧ DirFs.Dropped t.upper (remove t upper).1.upper d name
  failed : ∀ t upper e, (remove t upper).2 = .error e → (remove t upper).1.upper = t.upper
  finish : ∀ t, Inv t → (finish t).findNode ino = t.findNode ino ∧ (finish t).upper = t.upper ∧
    (finish t).lower = t.lower

section Removal

variable {remove : OvlSb → Option Nat → OvlSb × Except Int Unit} {finish : OvlSb → OvlSb}

structure Cleared (s t : OvlSb) (n : OvlNode) (name : Name) : Prop where
  kept : Kept s t
  found : t.findNode n.ino = some n
  same : n.upper = none → t = s
  dir : s.isDir n = true → t.isDir n = true
  gone : entry t.upper n.upper name = none
  other : ∀ m, m ≠ name → entry t.upper n.upper m = entry s.upper n.upper m

theorem Cleared.hide (c : Cleared s t n name) (rem : Remover name remove finish n.ino)
    (inv : Inv s) (att : Attached s n) (hdot : name ≠ .dot) (hdotdot : name ≠ .dotdot)
    (h : (t.hideLower n.ino name (entry s.lower n.lower name)).2 = .ok ()) :
    ∃ n', Removed s (finish (t.hideLower n.ino name (entry s.lower n.lower name)).1) n n' name := by
  have kept : Kept s (t.hideLower n.ino name (entry s.lower n.lower name)).1 :=
    c.kept.trans hideLower_kept
  obtain ⟨ffind, fupper, flower⟩ := rem.finish _ (inv.kept kept)
  unfold hideLower at h kept ffind fupper flower ⊢
  split at h
  · rename_i hsome
    simp only [hsome, if_true] at kept ffind fupper flower ⊢
    have ens : (t.ensureUpperDir n.ino).2 = .ok () → Ensured t (t.ensureUpperDir n.ino).1 n := by
      intro hens
      cases hu : n.upper with
      | some u => exact ensured_of_upper c.found (att.ino_pos inv) (by rw [hu]; rfl)
      | none =>
        obtain rfl := c.same hu
        exact att.ensureUpperDir inv hens
    obtain ⟨n', pl⟩ := plantWhiteout_ok c.found ens h
    have hmark : name ≠ whPrefix ++ name := by
      intro heq
      have := congrArg List.length heq
      simp [whPrefix] at this
      omega
    refine ⟨n', by rw [ffind, pl.found], pl.lower, by rw [flower, kept.lower], fun hd => ?_, ?_,
      fun _ => ?_, fun m hm hmw h1 h2 => ?_⟩
    · have := pl.dir (c.dir hd)
      simpa only [isDir, fupper, flower] using this
    · rw [fupper, pl.other name hmark hdot hdotdot, c.gone]
    · have := pl.covered
      simpa only [hidden, fupper] using this
    · rw [fupper, pl.other m hmw h1 h2, c.other m hm]
  · rename_i hnone
    simp only [hnone, Bool.false_eq_true, if_false] at kept ffind fupper flower ⊢
    refine ⟨n, by rw [ffind, c.found], rfl, by rw [flower, kept.lower], fun hd => ?_,
      by rw [fupper, c.gone], fun hsome => absurd hsome hnone, fun m hm _ _ _ => ?_⟩
    · have := c.dir hd
      simpa only [isDir, fupper, flower] using this
    · rw [fupper, c.other m hm]

theorem cleared_of_dropped (hd : n.upper = some d) (called : Called s t)
    (att : Attached s n) (dropped : DirFs.Dropped s.upper t.upper d name) : Cleared s t n name where
  kept := called.toKept
  found := by rw [called.findNode, att.found]
  same := fun hnone => by simp [hd] at hnone
  dir := by simp only [isDir, hd, DirFs.isDir, dropped.content, imp_self]
  gone := by rw [hd, entry, bind_some, dropped.find_self]
  other := fun m hm => by
    rw [hd, entry, entry, bind_some, bind_some, dropped.find_other d m (.inr hm)]

theorem cleared_of_absent (att : Attached s n) (habsent : entry s.upper n.upper name = none) :
    Cleared s (s.upperLookup n.upper name).1 n name where
  kept := upperLookup_called.toKept
  found := by rw [upperLookup_called.findNode, att.found]
  same := fun hu => by rw [hu]; rfl
  dir := by simp only [isDir, upperLookup_upper, upperLookup_called.lower, imp_self]
  gone := by rw [upperLookup_upper, habsent]
  other := fun m _ => by rw [upperLookup_upper]

/-- A removal that succeeds takes the name away; it has removed an entry of the upper directory, or
hidden one of the lower directory. -/
theorem removeEntry_ok (rem : Remover name remove finish n.ino) (inv : Inv s) (looks : LooksUp s)
    (att : Attached s n) (hplain : entry s.upper n.upper name = none →
      (entry s.lower n.lower name).isSome → name ≠ .dot ∧ name ≠ .dotdot)
    (h : (s.removeEntry n.ino name remove finish).2 = .ok ()) :
    (∃ n', Removed s (s.removeEntry n.ino name remove finish).1 n n' name) ∧
      ((∃ t, t.upper = s.upper ∧ (remove t n.upper).2 = .ok ()) ∨
        entry s.upper n.upper name = none ∧ (entry s.lower n.lower name).isSome) := by
  have hok := upperLookup_isOk looks n.upper name
  have upper : (s.upperLookup n.upper name).1.upper = s.upper := upperLookup_upper
  have hl : (s.upperLookup n.upper name).1.lowerLookup n.lower name =
      entry s.lower n.lower name := by
    simp only [lowerLookup, entry, upperLookup_called.lower]
  unfold removeEntry at h ⊢
  split at h
  · cases h
  rename_i hro
  simp only [att.found, hl] at h ⊢
  split at h
  · cases h
  rename_i hthere
  rw [if_neg hro, if_neg hthere]
  unfold dropUpper at h ⊢
  by_cases hentry : (entry s.upper n.upper name).isSome
  · simp only [hok, hentry, if_true] at h ⊢
    have called : Called s (remove (s.upperLookup n.upper name).1 n.upper).1 :=
      upperLookup_called.trans (rem.called _ _)
    have dropped := rem.dropped (s.upperLookup n.upper name).1 n.upper
    cases hrem : (remove (s.upperLookup n.upper name).1 n.upper).2 with
    | error e => simp [hrem] at h
    | ok a =>
      simp only [hrem] at h ⊢
      obtain ⟨d, hd, dropped⟩ := dropped hrem
      rw [upper] at dropped
      exact ⟨(cleared_of_dropped hd called att dropped).hide rem inv att dropped.plain.1
        dropped.plain.2 h, .inl ⟨_, upper, hrem⟩⟩
  · have hnone : entry s.upper n.upper name = none := by simpa using hentry
    simp only [hok, hentry, Bool.false_eq_true, if_false] at h ⊢
    have hlow : (entry s.lower n.lower name).isSome := by
      by_contra hlow
      exact hthere ⟨by rw [hok]; simpa using hnone, by simpa using hlow⟩
    obtain ⟨hdot, hdotdot⟩ := hplain hnone hlow
    exact ⟨(cleared_of_absent att hnone).hide rem inv att hdot hdotdot h, .inr ⟨hnone, hlow⟩⟩

end Removal

theorem unlink_remover (hname : name ≠ []) :
    Remover name (fun s upper => s.realUnlink upper name) (·.forgetChild ino name) ino where
  called := fun _ _ => realUnlink_called
  dropped := fun _ _ h => by
    obtain ⟨d, _, hd, dropped, -⟩ := realUnlink_ok h
    exact ⟨d, hd, dropped⟩
  failed := fun _ _ _ h => onDir_error h
  finish := fun t inv => by
    refine ⟨forgetChild_findNode inv hname, ?_⟩
    unfold forgetChild
    split <;> exact ⟨rfl, rfl⟩

theorem rmdir_remover : Remover name (fun s upper => s.realRmdir upper name) id ino where
  called := fun _ _ => realRmdir_called
  dropped := fun _ _ h => by
    obtain ⟨d, _, hd, dropped, -⟩ := realRmdir_ok h
    exact ⟨d, hd, dropped⟩
  failed := fun _ _ _ h => onDir_error h
  finish := fun _ _ => ⟨rfl, rfl, rfl⟩

theorem Attached.begin (att : Attached s n) (c : Call) : Attached (s.begin c) n := by
  induction att with
  | root found hroot hup => exact .root found hroot hup
  | child found hroot hp _ hdot hdotdot hup hlow hsome ih =>
    exact .child found hroot hp ih hdot hdotdot hup hlow hsome

structure Standing (s : OvlSb) (dir : Nat) (name : Name) (n : OvlNode) : Prop where
  found : s.findNode dir = some n
  attached : Attached s n
  isDir : s.isDir n = true
  nonempty : name ≠ []
  unreserved : isWhiteoutName name = false

/-- An entry that only the lower directory has is visible, and a directory exactly when it has to
be one. -/
def Removable (s : OvlSb) (n : OvlNode) (name : Name) (wantDir : Bool) : Prop :=
  (entry s.upper n.upper name).isSome ∨ entry s.lower n.lower name = none ∨
    (s.hidden n.upper name = false ∧ name ≠ .dot ∧ name ≠ .dotdot ∧
      (entry s.lower n.lower name).any s.lower.isDir = wantDir)

def Meets (s : OvlSb) (c : Call) : Prop :=
  (∀ k err, c.fault ≠ .lookup k err) ∧
    match c.op with
    | .lookup dir name => ∃ n, Standing s dir name n
    | .unlink dir name => ∃ n, Standing s dir name n ∧ Removable s n name false
    | .rmdir dir name => ∃ n, Standing s dir name n ∧ Removable s n name true
    | _ => True

/-- A visible name, of a directory or of something else, has been removed from a merged directory
and nothing else has changed there. -/
structure Takes (s s' : OvlSb) (dir : Nat) (name : Name) (wantDir : Bool)
    (n n' : OvlNode) : Prop where
  before : s.findNode dir = some n
  after : s'.findNode dir = some n'
  visible : s.visible n name = true
  kind : s.visibleDir n name = wantDir
  gone : s'.visible n' name = false
  other : ∀ m, m ≠ [] → isWhiteoutName m = false → m ≠ name → s'.visible n' m = s.visible n m

def Refines (s : OvlSb) (c : Call) : Prop :=
  match c.op with
  | .lookup dir name => ∃ n, s.findNode dir = some n ∧ (s.exec c).2.isOk = s.visible n name
  | .unlink dir name => (s.exec c).2.isOk → ∃ n n', Takes s (s.exec c).1 dir name false n n'
  | .rmdir dir name => (s.exec c).2.isOk → ∃ n n', Takes s (s.exec c).1 dir name true n n'
  | _ => True

theorem Removed.takes (rem : Removed s s' n n' name) (st : Standing s ino name n)
    (kind : (∃ i, entry s.upper n.upper name = some i ∧ s.upper.isDir i = wantDir) ∨
      entry s.upper n.upper name = none ∧ (entry s.lower n.lower name).isSome)
    (can : Removable s n name wantDir) : Takes s s' ino name wantDir n n' where
  before := st.found
  after := by rw [← findNode_ino st.found]; exact rem.found
  gone := rem.visible_self
  other := fun m hne hmw hm =>
    rem.visible_other st.isDir st.unreserved hm hne hmw st.nonempty
  visible := by
    rcases kind with ⟨i, hi, -⟩ | ⟨hnone, hlow⟩
    · simp [visible, hi]
    · rcases can with hup | hl | ⟨hshown, -⟩
      · simp [hnone] at hup
      · simp [hl] at hlow
      · simpa [visible, lowerEntry, hshown] using .inr hlow
  kind := by
    rcases kind with ⟨i, hi, hdir⟩ | ⟨hnone, hlow⟩
    · simpa [visibleDir, hi] using hdir
    · rcases can with hup | hl | ⟨hshown, -, -, hdir⟩
      · simp [hnone] at hup
      · simp [hl] at hlow
      · simpa [visibleDir, hnone, lowerEntry, hshown] using hdir

theorem Standing.begin (st : Standing s ino name n) (c : Call) : Standing (s.begin c) ino name n :=
  { st with attached := st.attached.begin c }

theorem map_isOk {α β : Type} (r : Except Int α) (f : α → β) : (r.map f).isOk = r.isOk := by
  cases r <;> rfl

theorem eq_ok_of_isOk {r : Except Int Unit} (h : r.isOk = true) : r = .ok () := by
  cases r with
  | error e => simp [Except.isOk, Except.toBool] at h
  | ok a => rfl

theorem Removable.plain (can : Removable s n name wantDir)
    (hnone : entry s.upper n.upper name = none) (hlow : (entry s.lower n.lower name).isSome) :
    name ≠ .dot ∧ name ≠ .dotdot := by
  rcases can with hup | hl | ⟨-, hdot, hdotdot, -⟩
  · simp [hnone] at hup
  · simp [hl] at hlow
  · exact ⟨hdot, hdotdot⟩

theorem ovlUnlink_takes (inv : Inv s) (looks : LooksUp s) (st : Standing s ino name n)
    (can : Removable s n name false) (h : (s.ovlUnlink ino name).2.isOk = true) :
    ∃ n', Takes s (s.ovlUnlink ino name).1 ino name false n n' := by
  obtain rfl := findNode_ino st.found
  obtain ⟨⟨n', rem⟩, kind⟩ := removeEntry_ok (unlink_remover st.nonempty) inv looks st.attached
    can.plain (eq_ok_of_isOk h)
  refine ⟨n', rem.takes st ?_ can⟩
  rcases kind with ⟨t, ht, hrem⟩ | low
  · obtain ⟨d, i, hd, -, hi, hfile⟩ := realUnlink_ok hrem
    rw [ht] at hi hfile
    exact .inl ⟨i, by rw [hd]; exact hi, hfile⟩
  · exact .inr low

theorem ovlRmdir_takes (inv : Inv s) (looks : LooksUp s) (st : Standing s ino name n)
    (can : Removable s n name true) (h : (s.ovlRmdir ino name).2.isOk = true) :
    ∃ n', Takes s (s.ovlRmdir ino name).1 ino name true n n' := by
  obtain rfl := findNode_ino st.found
  obtain ⟨⟨n', rem⟩, kind⟩ := removeEntry_ok rmdir_remover inv looks st.attached can.plain
    (eq_ok_of_isOk h)
  refine ⟨n', rem.takes st ?_ can⟩
  rcases kind with ⟨t, ht, hrem⟩ | low
  · obtain ⟨d, i, hd, -, hi, -, hdir, -⟩ := realRmdir_ok hrem
    rw [ht] at hi hdir
    exact .inl ⟨i, by rw [hd]; exact hi, hdir⟩
  · exact .inr low

/-- In every run from a new mount, an operation that meets the condition treats the merged
directory as one directory: a lookup finds the visible names, and a removal that succeeds removes
one visible name of its kind. -/
theorem overlay_refines {upper lower : DirFs} {u l : Nat} {rdonly : Bool} {c : Call}
    (run : Reaches step (fun _ _ => True) (mount upper lower u l rdonly) s) (hc : Meets s c) :
    Refines s c := by
  have inv : Inv (s.begin c) := (reaches_inv run).begin c
  obtain ⟨hfault, hop⟩ := hc
  have looks : LooksUp (s.begin c) := hfault
  unfold Refines
  cases hcop : c.op with
  | lookup dir name =>
    simp only [hcop] at hop
    obtain ⟨n, st⟩ := hop
    refine ⟨n, st.found, ?_⟩
    have found := ovlLookup_isOk inv looks (st.attached.begin c) st.isDir st.nonempty st.unreserved
    rw [findNode_ino st.found] at found
    simp only [exec, hcop]
    exact found
  | unlink dir name =>
    simp only [hcop] at hop
    obtain ⟨n, st, can⟩ := hop
    intro hok
    simp only [exec, hcop, map_isOk] at hok ⊢
    obtain ⟨n', takes⟩ := ovlUnlink_takes inv looks (st.begin c) can hok
    exact ⟨n, n', { takes with }⟩
  | rmdir dir name =>
    simp only [hcop] at hop
    obtain ⟨n, st, can⟩ := hop
    intro hok
    simp only [exec, hcop, map_isOk] at hok ⊢
    obtain ⟨n', takes⟩ := ovlRmdir_takes inv looks (st.begin c) can hok
    exact ⟨n, n', { takes with }⟩
  | create | mkdir | copyUp => trivial

def zeroAttr : Attr := ⟨0, 0, 0, 0, 0⟩

def emptyTree : DirFs := .ofList [⟨.dir 0 [], zeroAttr, false⟩] (by decide) (by decide)

/-- A tree with a file `a` and a directory `b`, which has a file `a` too. -/
def smallTree : DirFs :=
  .ofList [⟨.dir 0 [([97], 1), ([98], 2)], zeroAttr, false⟩, ⟨.file [1, 2, 3], zeroAttr, false⟩,
    ⟨.dir 0 [([97], 3)], zeroAttr, false⟩, ⟨.file [2], zeroAttr, false⟩] (by decide) (by decide)

def smallMount : OvlSb := mount emptyTree smallTree 0 0 false

theorem smallMount_root : Standing smallMount 1 [97] ⟨1, 1, [], some 0, some 0⟩ where
  found := rfl
  attached := .root rfl rfl rfl
  isDir := by decide
  nonempty := by decide
  unreserved := by decide

theorem unlink_lower_file_refines : Refines smallMount ⟨.unlink 1 [97], .none, zeroAttr⟩ :=
  overlay_refines .refl ⟨by simp, _, smallMount_root, .inr (.inr (by decide))⟩

/-- A directory that only the lower tree has is unlinked like a file. -/
theorem unlink_lower_directory_breaks : ¬ Refines smallMount ⟨.unlink 1 [98], .none, zeroAttr⟩ := by
  intro h
  obtain ⟨n, n', takes⟩ := h (by decide)
  obtain rfl : (⟨1, 1, [], some 0, some 0⟩ : OvlNode) = n := some_inj.mp takes.before
  exact absurd takes.kind (by decide)

end OvlSb

end Six.Overlay
