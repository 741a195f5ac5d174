import Six.Overlay.Namespace

/-! Empty directories of the merged tree. -/

namespace Six.Overlay

open Lib Errno Option

namespace OvlSb

variable {s s' t : OvlSb} {d ino : Nat} {dir : Option Nat} {name m : Name} {n n' p : OvlNode}
  {mode : UInt32}

structure Proper (m : Name) : Prop where
  nonempty : m ≠ []
  dot : m ≠ .dot
  dotdot : m ≠ .dotdot
  unreserved : isWhiteoutName m = false

def childOf (s : OvlSb) (n : OvlNode) (name : Name) : OvlNode :=
  ⟨0, n.ino, name, entry s.upper n.upper name, s.lowerEntry n name⟩

def EmptyDir (s : OvlSb) (n : OvlNode) : Prop := ∀ m, Proper m → s.visible n m = false

def NoEntries (fs : DirFs) (dir : Option Nat) : Prop := ∀ m, Proper m → entry fs dir m = none

theorem emptyDir_iff (h : ∀ m, m ≠ .dot → m ≠ .dotdot → entry s.upper n.upper m = none) :
    EmptyDir s n ↔ NoEntries s.lower n.lower := by
  have shows : ∀ m, Proper m → s.visible n m = (entry s.lower n.lower m).isSome := by
    intro m hm
    obtain ⟨h1, h2⟩ := whPrefix_append_ne_dot m
    simp [visible, lowerEntry, hidden, h m hm.dot hm.dotdot, h _ h1 h2]
  constructor
  · intro hempty m hm
    have := hempty m hm
    rw [shows m hm] at this
    simpa using this
  · intro hnone m hm
    rw [shows m hm, hnone m hm]
    rfl

theorem find_of_entries_nil {fs : DirFs} (h : fs.entries d = []) (hdot : m ≠ .dot)
    (hdotdot : m ≠ .dotdot) : fs.find d m = none := by
  unfold DirFs.entries at h
  unfold DirFs.find
  split
  · rfl
  cases hi : fs.inodes d with
  | none => rfl
  | some i =>
    rw [hi] at h
    cases hb : i.body with
    | dir parent es =>
      obtain rfl : es = [] := by simpa [hb, Body.entries] using h
      simp [hb, Body.find, hdot, hdotdot]
    | _ => simp [hb, Body.find]

section Removal

variable {remove : OvlSb → Option Nat → OvlSb × Except Int Unit} {finish : OvlSb → OvlSb}

theorem removeEntry_removes (looks : LooksUp s) (found : s.findNode n.ino = some n)
    (h : (s.removeEntry n.ino name remove finish).2 = .ok ()) :
    (∃ t, t.upper = s.upper ∧ (remove t n.upper).2 = .ok ()) ∨
      entry s.upper n.upper name = none := by
  unfold removeEntry at h
  split at h
  · cases h
  simp only [found] at h
  split at h
  · cases h
  have hok := upperLookup_isOk looks n.upper name
  unfold dropUpper at h
  by_cases hentry : (entry s.upper n.upper name).isSome
  · simp only [hok, hentry, if_true] at h
    cases hrem : (remove (s.upperLookup n.upper name).1 n.upper).2 with
    | error e => simp [hrem] at h
    | ok a => exact .inl ⟨_, upperLookup_upper, hrem⟩
  · exact .inr (by simpa using hentry)

end Removal

theorem ovlRmdir_empty_iff (looks : LooksUp s) (found : s.findNode n.ino = some n)
    (h : (s.ovlRmdir n.ino name).2 = .ok ()) :
    EmptyDir s (s.childOf n name) ↔ NoEntries s.lower (s.lowerEntry n name) := by
  apply emptyDir_iff
  intro m hdot hdotdot
  show entry s.upper (entry s.upper n.upper name) m = none
  rcases removeEntry_removes looks found h with ⟨t, ht, hrem⟩ | hnone
  · obtain ⟨d, i, hd, -, hi, -, -, hempty⟩ := realRmdir_ok hrem
    rw [ht] at hi hempty
    rw [hd, entry, entry, bind_some, hi, bind_some, find_of_entries_nil hempty hdot hdotdot]
  · rw [hnone]
    rfl

theorem onDir_congr {α : Type} {f : Nat → Except Int (DirFs × α)} (hu : t.upper = s.upper)
    (hf : t.fault = s.fault) (hc : t.updates = s.updates) :
    (t.onDir dir f).2 = (s.onDir dir f).2 ∧ (t.onDir dir f).1.upper = (s.onDir dir f).1.upper := by
  have same : ∀ r : Except Int (DirFs × α), t.onUpdate r = s.onUpdate r := by
    intro r
    unfold onUpdate
    rw [hf, hc]
  unfold onDir
  cases dir with
  | none => exact ⟨rfl, hu⟩
  | some d =>
    simp only [hu]
    split
    · simp only [update, same]
      split
      · exact ⟨rfl, hu⟩
      · exact ⟨rfl, rfl⟩
    · exact ⟨rfl, hu⟩

theorem realUnlink_congr (hu : t.upper = s.upper) (hf : t.fault = s.fault)
    (hc : t.updates = s.updates) (dir : Option Nat) (name : Name) :
    (t.realUnlink dir name).2 = (s.realUnlink dir name).2 ∧
      (t.realUnlink dir name).1.upper = (s.realUnlink dir name).1.upper := by
  unfold realUnlink
  rw [hu]
  exact onDir_congr hu hf hc

theorem upperLookup_updates : (s.upperLookup dir name).1.updates = s.updates := by
  unfold upperLookup
  split
  · rfl
  split <;> rfl

/-- The whiteout of a name that is not removed when it has to be. -/
def Sticks (s : OvlSb) (n : OvlNode) (name : Name) : Prop :=
  s.hidden n.upper name = true ∧ (s.realUnlink n.upper (whPrefix ++ name)).2.isOk = false

theorem makeWhiteoutName_of_le (hne : name ≠ []) (hlen : name.length ≤ 255) :
    makeWhiteoutName name = .ok (whPrefix ++ name) := by
  have : name.length ≠ 0 := by simpa using hne
  unfold makeWhiteoutName
  rw [if_neg (by omega)]

theorem removeWhiteout_spec (looks : LooksUp s) (hne : name ≠ []) (hlen : name.length ≤ 255)
    (dir : Option Nat) : (∀ m, m ≠ whPrefix ++ name →
      entry (s.removeWhiteout dir name).upper dir m = entry s.upper dir m) ∧
    ((s.removeWhiteout dir name).hidden dir name = true ↔
      s.hidden dir name = true ∧ (s.realUnlink dir (whPrefix ++ name)).2.isOk = false) := by
  by_cases hh : s.hidden dir name = true
  · have hok : (s.upperLookup dir (whPrefix ++ name)).2.isOk = true := by
      rw [upperLookup_isOk looks]
      exact hh
    have eq : s.removeWhiteout dir name =
        ((s.upperLookup dir (whPrefix ++ name)).1.realUnlink dir (whPrefix ++ name)).1 := by
      simp only [removeWhiteout, makeWhiteoutName_of_le hne hlen, hok, if_true]
    obtain ⟨-, upper⟩ := realUnlink_congr (s := s) (t := (s.upperLookup dir (whPrefix ++ name)).1)
      upperLookup_upper upperLookup_called.fault upperLookup_updates dir (whPrefix ++ name)
    rw [hidden, eq, upper]
    cases hr : (s.realUnlink dir (whPrefix ++ name)).2 with
    | ok a =>
      obtain ⟨d, i, hd, dropped, -⟩ := realUnlink_ok hr
      subst hd
      refine ⟨fun m hm => dropped.find_other d m (.inr hm), ?_⟩
      simp [entry, dropped.find_self, Except.isOk, Except.toBool]
    | error e =>
      rw [realUnlink_error hr]
      exact ⟨fun _ _ => rfl, by simp [Except.isOk, Except.toBool, hidden]⟩
  · have hh : s.hidden dir name = false := by simpa using hh
    have upper := removeWhiteout_of_not_hidden hh
    rw [upper]
    refine ⟨fun _ _ => rfl, ?_⟩
    have still : (s.removeWhiteout dir name).hidden dir name = false := by
      rw [hidden, upper]
      exact hh
    simp [still, hh]

theorem append_whPrefix_ne (name : Name) : whPrefix ++ name ≠ name := by
  intro heq
  have := congrArg List.length heq
  simp [whPrefix] at this
  omega

theorem mkdir_ok (looks : LooksUp s) (hne : name ≠ [])
    (h : ((s.removeWhiteout (some d) name).realMkdir (some d) name mode).2 = .ok u) :
    entry s.upper (some d) name = none ∧
      (let s' := ((s.removeWhiteout (some d) name).realMkdir (some d) name mode).1
       entry s'.upper (some d) name = some u ∧
       (∀ m, m ≠ .dot → m ≠ .dotdot → s'.upper.find u m = none) ∧
       (s'.hidden (some d) name = true ↔ s.hidden (some d) name = true ∧
        (s.realUnlink (some d) (whPrefix ++ name)).2.isOk = false)) := by
  obtain ⟨d', hd, hu, added⟩ := realMkdir_ok h
  obtain rfl := some_inj.mp hd
  have hlen : name.length ≤ 255 := by
    by_contra hlong
    have := added.find_self
    rw [find_of_long (by omega)] at this
    cases this
  obtain ⟨other, hidden_iff⟩ := removeWhiteout_spec looks hne hlen (some d)
  have hne_mark := append_whPrefix_ne name
  have hdn : d ≠ (s.removeWhiteout (some d) name).upper.next :=
    Nat.ne_of_lt (DirFs.lt_next_of_content (DirFs.isDir_iff.mp added.isDir))
  refine ⟨?_, ?_, ?_, ?_⟩
  · rw [← other name hne_mark.symm]
    exact added.absent
  · rw [hu]
    exact added.find_self
  · rw [hu]
    exact added.find_new
  · rw [← hidden_iff]
    simp only [hidden, entry, bind_some]
    rw [added.find_other d _ hdn (.inr hne_mark)]

/-- What `ovlMkdir` makes: the name was not in the upper directory, and the new directory there is
empty. -/
structure Made (s s' : OvlSb) (n n' : OvlNode) (name : Name) : Prop where
  found : s'.findNode n.ino = some n'
  lower : n'.lower = n.lower
  lowerFs : s'.lower = s.lower
  absent : entry s.upper n.upper name = none
  empty : ∀ m, m ≠ .dot → m ≠ .dotdot → entry s'.upper (entry s'.upper n'.upper name) m = none
  hidden : s'.hidden n'.upper name = true ↔ Sticks s n name

theorem Ensured.upperDir (ens : Ensured s t n) (found : s.findNode n.ino = some n) (name : Name) :
    ∃ d, t.upperOf n.ino = some d ∧ t.findNode n.ino = some { n with upper := some d } ∧
      (entry t.upper (some d) name = none → entry s.upper n.upper name = none) ∧
      (t.hidden (some d) name = true ∧ (t.realUnlink (some d) (whPrefix ++ name)).2.isOk = false ↔
        Sticks s n name) := by
  cases hu : n.upper with
  | some d =>
    obtain rfl := ens.old (by rw [hu]; rfl)
    have hn : { n with upper := some d } = n := by rw [← hu]
    refine ⟨d, by simp [upperOf, found, hu], by rw [hn, found], id, ?_⟩
    rw [Sticks, hu]
  | none =>
    obtain ⟨d, hd, -, hempty⟩ := ens.new hu
    obtain ⟨h1, h2⟩ := whPrefix_append_ne_dot name
    refine ⟨d, by simp [upperOf, hd], hd, fun _ => rfl, ?_⟩
    simp [Sticks, hidden, entry, hu, hempty _ h1 h2]

theorem ovlMkdir_ok (inv : Inv s) (looks : LooksUp s) (att : Attached s n) (hne : name ≠ [])
    (h : (s.ovlMkdir n.ino name mode).2 = .ok ()) :
    ∃ n', Made s (s.ovlMkdir n.ino name mode).1 n n' name := by
  unfold ovlMkdir at h ⊢
  split at h
  · cases h
  rename_i hro
  rw [if_neg hro]
  simp only [att.found] at h ⊢
  cases hr : (s.ensureUpperDir n.ino).2 with
  | error e => simp [hr] at h
  | ok a =>
    simp only [hr] at h ⊢
    have ens := att.ensureUpperDir inv hr
    have kept : Kept s (s.ensureUpperDir n.ino).1 := ensureUpperDir_kept
    generalize (s.ensureUpperDir n.ino).1 = t at h ens kept ⊢
    obtain ⟨d, hof, hfound, habsent, hsticks⟩ := ens.upperDir att.found name
    rw [hof] at h ⊢
    cases hm : ((t.removeWhiteout (some d) name).realMkdir (some d) name mode).2 with
    | error e => simp [hm, Except.map] at h
    | ok u =>
      obtain ⟨absent, new, empty, hidden⟩ := mkdir_ok (looks.kept kept) hne hm
      have called : Called t ((t.removeWhiteout (some d) name).realMkdir (some d) name mode).1 :=
        removeWhiteout_called.trans realMkdir_called
      refine ⟨{ n with upper := some d }, by rw [called.findNode, hfound], rfl, ?_,
        habsent absent, ?_,
        hidden.trans hsticks⟩
      · rw [called.lower, kept.lower]
      · intro m h1 h2
        rw [new]
        exact empty m h1 h2

theorem Made.childOf_empty_iff (made : Made s s' n n' name) : EmptyDir s' (s'.childOf n' name) ↔
    NoEntries s.lower (entry s.lower n.lower name) ∨ Sticks s n name := by
  have iff : EmptyDir s' (s'.childOf n' name) ↔ NoEntries s'.lower (s'.lowerEntry n' name) :=
    emptyDir_iff made.empty
  rw [iff, made.lowerFs, lowerEntry, made.lower, made.lowerFs]
  split
  · rename_i hh
    exact iff_of_true (fun _ _ => rfl) (.inr (made.hidden.mp hh))
  · rename_i hh
    refine ⟨.inl, fun h => h.resolve_right fun hs => hh (made.hidden.mpr hs)⟩

theorem Made.visible_iff (made : Made s s' n n' name) :
    s.visible n name = false ↔ s.lowerEntry n name = none := by
  simp [visible, made.absent]

def KeepsEmpty (s : OvlSb) (c : Call) : Prop :=
  match c.op with
  | .rmdir dir name =>
    (s.exec c).2.isOk → ∃ n, s.findNode dir = some n ∧ EmptyDir s (s.childOf n name)
  | .mkdir dir name _ =>
    (s.exec c).2.isOk → ∃ n n', s.findNode dir = some n ∧ (s.exec c).1.findNode dir = some n' ∧
      s.visible n name = false ∧ EmptyDir (s.exec c).1 ((s.exec c).1.childOf n' name)
  | _ => True

def BareBelow (s : OvlSb) (c : Call) : Prop :=
  match c.op with
  | .rmdir dir name => ∃ n, s.findNode dir = some n ∧ NoEntries s.lower (s.lowerEntry n name)
  | .mkdir dir name _ =>
    ∃ n, s.findNode dir = some n ∧ s.lowerEntry n name = none ∧
      (NoEntries s.lower (entry s.lower n.lower name) ∨ Sticks (s.begin c) n name)
  | _ => True

def InTree (s : OvlSb) (c : Call) : Prop :=
  match c.op with
  | .rmdir dir name | .mkdir dir name _ => ∃ n, Standing s dir name n
  | _ => True

/-- A call that succeeds treats empty directories as it should exactly when the lower tree has
nothing under the name. -/
theorem overlay_keepsEmpty_iff {upper lower : DirFs} {u l : Nat} {rdonly : Bool} {c : Call}
    (run : Reaches step (fun _ _ => True) (mount upper lower u l rdonly) s)
    (hfault : ∀ k err, c.fault ≠ .lookup k err) (tree : InTree s c) (ok : (s.exec c).2.isOk) :
    KeepsEmpty s c ↔ BareBelow s c := by
  have inv : Inv (s.begin c) := (reaches_inv run).begin c
  have looks : LooksUp (s.begin c) := hfault
  unfold KeepsEmpty BareBelow
  unfold InTree at tree
  cases hop : c.op with
  | rmdir dir name =>
    simp only [hop] at tree ⊢
    obtain ⟨n, st⟩ := tree
    simp only [ok, true_imp_iff, st.found, some_inj, exists_eq_left']
    simp only [exec, hop, map_isOk] at ok
    obtain rfl := findNode_ino st.found
    exact ovlRmdir_empty_iff (s := s.begin c) looks st.found (eq_ok_of_isOk ok)
  | mkdir dir name mode =>
    simp only [hop] at tree ⊢
    obtain ⟨n, st⟩ := tree
    simp only [ok, true_imp_iff, st.found, some_inj, exists_eq_left', exists_and_left]
    simp only [exec, hop, map_isOk] at ok ⊢
    obtain rfl := findNode_ino st.found
    obtain ⟨n', made⟩ := ovlMkdir_ok inv looks (st.attached.begin c) st.nonempty (eq_ok_of_isOk ok)
    simp only [made.found, some_inj, exists_eq_left']
    exact and_congr made.visible_iff made.childOf_empty_iff
  | lookup | create | unlink | copyUp => simp

theorem mkdir_new_name_keepsEmpty :
    KeepsEmpty (mount smallTree emptyTree 2 0 false) ⟨.mkdir 1 [98] 0o755, .none, zeroAttr⟩ := by
  refine (overlay_keepsEmpty_iff .refl (by simp) ?_ (by decide)).mpr ?_
  · exact ⟨⟨1, 1, [], some 2, some 0⟩, rfl, .root rfl rfl rfl, by decide, by decide, by decide⟩
  · refine ⟨_, rfl, by decide, .inl fun m hm => ?_⟩
    have : entry emptyTree (some 0) [98] = none := by decide
    exact congrArg (entry emptyTree · m) this

/-- The directory `b` of the lower tree still has its file when it is removed. -/
theorem rmdir_lower_directory_breaks :
    ¬ KeepsEmpty smallMount ⟨.rmdir 1 [98], .none, zeroAttr⟩ := by
  intro h
  obtain ⟨n, hn, hempty⟩ := h (by decide)
  obtain rfl : (⟨1, 1, [], some 0, some 0⟩ : OvlNode) = n := some_inj.mp hn
  exact absurd (hempty [97] ⟨by decide, by decide, by decide, by decide⟩) (by decide)

end OvlSb

end Six.Overlay
