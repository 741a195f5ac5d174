import Six.Selinux.Neverallow

/-! The names of the SIDs that tasks and inode labels hold, over a sequence of loads.  A SID is an
index in the table of types. -/

namespace Six.Selinux

open Lib Policy List

variable {st st' : Policy} {cur cur' : Tier} {common : List String} {ss : List Statement}
  {s : Statement} {w : Holders}

namespace Policy

variable {text : List Char} {name : String} {attrs : List String}

def names (st : Policy) : List String := st.types.map (·.name)

def baseNames : List String := baseEntries.map (·.name)

theorem names_seed : selinuxSeedBaselinePolicy.names = baseNames := by
  rw [names, seed_types, baseNames]

theorem length_baseNames : baseNames.length = 99 := by decide

@[simp] theorem length_names : st.names.length = st.nrTypes := by simp [names, nrTypes]

theorem sidToType_eq (s : Nat) :
    st.sidToType s = (st.names[s]?.map fun n => if n = "" then "unlabeled" else n).getD
      "unlabeled" := by
  rw [sidToType, names, getElem?_map]
  cases st.types[s]? <;> rfl

theorem sidToType_of_names {s : Nat} (h : common <+: st.names) (h' : common <+: st'.names)
    (hs : s < common.length) : st'.sidToType s = st.sidToType s := by
  obtain ⟨rest, hrest⟩ := h
  obtain ⟨rest', hrest'⟩ := h'
  rw [sidToType_eq, sidToType_eq, ← hrest, ← hrest', getElem?_append_left hs,
    getElem?_append_left hs]

theorem names_modify (hf : ∀ e, (f e).name = e.name) :
    ({ st with types := st.types.modify i f } : Policy).names = st.names := by
  apply ext_getElem?
  intro j
  simp only [names, getElem?_map, getElem?_modify]
  cases st.types[j]? with
  | none => rfl
  | some e =>
    by_cases hij : i = j
    · simp [hij, hf]
    · simp [hij]

theorem names_registerType (name : String) (isDomain : Bool) (tier : Tier) (attrs : UInt32) :
    st.names <+: (st.registerType name isDomain tier attrs).names := by
  unfold registerType
  split
  · rw [names_modify]
    exact fun _ => rfl
  · split_ifs
    · exact prefix_rfl
    · exact ⟨[name], by simp [names]⟩

theorem names_execTypeattribute (name : String) (attrs : List String) :
    (st.execTypeattribute name attrs).names = st.names := by
  simp only [execTypeattribute]
  split_ifs
  · rfl
  · exact names_modify fun _ => rfl

theorem names_exec (h : st.exec cur s = .ok (cur', st')) (hs : s ≠ .reset) :
    st.names <+: st'.names := by
  cases s with
  | reset => exact absurd rfl hs
  | type name attrs =>
    cases h
    exact names_registerType ..
  | typeattribute name attrs =>
    cases h
    rw [names_execTypeattribute]
  | _ =>
    rw [names, names, (exec_edited h rfl).types_eq]

theorem baseNames_exec (hst : baseNames <+: st.names) (h : st.exec cur s = .ok (cur', st')) :
    baseNames <+: st'.names := by
  by_cases hs : s = .reset
  · subst hs
    cases h
    rw [names_seed]
  · exact hst.trans (names_exec h hs)

/-- The statements execute `@reset` before one is refused. -/
def rebuilds (cur : Tier) (st : Policy) : List Statement → Bool
  | [] => false
  | s :: ss =>
    match st.exec cur s with
    | .error _ => false
    | .ok (cur', st') => s = .reset || rebuilds cur' st' ss

/-- All statements are accepted, and what they did breaks a rule. -/
def rollsBack (st : Policy) (text : List Char) : Bool :=
  let (st', rc) := execAll .systemPublic st (statements text)
  rc = 0 && st'.selinuxVerifyNeverallows ≠ 0

theorem baseNames_execAll (hst : baseNames <+: st.names) :
    baseNames <+: (execAll cur st ss).1.names := by
  induction ss generalizing cur st with
  | nil => exact hst
  | cons s ss ih =>
    rw [execAll]
    split
    · exact hst
    · rename_i hok
      exact ih (baseNames_exec hst hok)

theorem names_execAll (h : rebuilds cur st ss = false) :
    st.names <+: (execAll cur st ss).1.names := by
  induction ss generalizing cur st with
  | nil => exact prefix_rfl
  | cons s ss ih =>
    rw [rebuilds] at h
    rw [execAll]
    cases hexec : st.exec cur s with
    | error rc => exact prefix_rfl
    | ok next =>
      rw [hexec, Bool.or_eq_false_iff, decide_eq_false_iff_not] at h
      exact (names_exec hexec h.1).trans (ih h.2)

theorem baseNames_load (hst : baseNames <+: st.names) (text : List Char) :
    baseNames <+: (st.selinuxParseAndLoadPolicy text).1.names := by
  simp only [selinuxParseAndLoadPolicy]
  split_ifs
  · exact baseNames_execAll hst
  · rw [names_seed]
  · exact baseNames_execAll hst

theorem names_load (hreset : rebuilds .systemPublic st (statements text) = false)
    (hback : st.rollsBack text = false) :
    st.names <+: (st.selinuxParseAndLoadPolicy text).1.names := by
  simp only [selinuxParseAndLoadPolicy]
  split_ifs with hrc hbroken
  · exact names_execAll hreset
  · refine absurd hback ?_
    simp only [rollsBack, Bool.not_eq_false, Bool.and_eq_true, decide_eq_true_eq]
    exact ⟨not_not.mp hrc, hbroken⟩
  · exact names_execAll hreset

theorem names_registerType_new {attrs : UInt32}
    (hnew : name ∉ st.names) (hroom : st.nrTypes < maxSids) :
    (st.registerType name isDomain tier attrs).names = st.names ++ [name] := by
  have habsent : st.typeIndex name = none := by
    simp only [typeIndex, findIdx?_eq_none_iff, decide_eq_false_iff_not]
    exact fun e he heq => hnew (mem_map.mpr ⟨e, he, heq⟩)
  simp [registerType, habsent, Nat.not_le.mpr hroom, names]

theorem load_of_ok (h : execAll .systemPublic st (statements text) = (st', 0))
    (hpass : st'.selinuxVerifyNeverallows = 0) :
    st.rollsBack text = false ∧ (st.selinuxParseAndLoadPolicy text).1 = st' := by
  simp [rollsBack, selinuxParseAndLoadPolicy, h, hpass]

theorem Shape.registerType (h : st.Shape) (name : String) (isDomain : Bool) (tier : Tier)
    (attrs : UInt32) : (st.registerType name isDomain tier attrs).Shape := by
  rw [registerType_eq]
  exact h.setTypes (registerType_length ..)

theorem Clean.registerType (h : st.Clean) (name : String) (isDomain : Bool) (tier : Tier)
    (attrs : UInt32) : (st.registerType name isDomain tier attrs).Clean := by
  rw [registerType_eq]
  exact h.setTypes

theorem verified_registerType (hshape : st.Shape) (hclean : st.Clean) (isDomain : Bool) :
    (st.registerType name isDomain .systemPublic (attrsOf attrs)).selinuxVerifyNeverallows = 0 :=
  (hshape.registerType ..).verified_iff.mpr (hclean.registerType ..)

theorem load_type (hshape : st.Shape) (hclean : st.Clean)
    (htext : statements text = [.type name attrs]) :
    rebuilds .systemPublic st (statements text) = false ∧ st.rollsBack text = false ∧
    (st.selinuxParseAndLoadPolicy text).1 =
      st.registerType name (attrs.contains "domain") .systemPublic (attrsOf attrs) := by
  refine ⟨?_, load_of_ok ?_ (verified_registerType hshape hclean _)⟩
  · rw [htext]
    rfl
  · rw [htext]
    rfl

theorem load_reset_type (htext : statements text = [.reset, .type name attrs]) :
    (st.selinuxParseAndLoadPolicy text).1 = selinuxSeedBaselinePolicy.registerType name
      (attrs.contains "domain") .systemPublic (attrsOf attrs) := by
  refine (load_of_ok ?_ (verified_registerType seed_shape seed_clean _)).2
  rw [htext]
  rfl

theorem sidToType_new (hnames : baseNames ++ [name] <+: st.names) (hname : name ≠ "") :
    st.sidToType 99 = name := by
  obtain ⟨rest, hrest⟩ := hnames
  have hget : (baseNames ++ [name])[99]? = some name := by
    rw [getElem?_append_right length_baseNames.le, length_baseNames]
    rfl
  rw [sidToType_eq, ← hrest, getElem?_append_left (by simp [length_baseNames]), hget]
  simp [hname]

end Policy

/-- The policy, and the SIDs that tasks and inode labels hold, each with the name of its type when
it was taken. -/
structure Holders where
  policy : Policy
  held : List (Nat × String) := []

inductive SidOp
  | acquire (s : Nat)
  | release (s : Nat)
  | load (text : List Char)

/-- A task or a label takes the SID of a type of the policy or gives its SID up, or a text is
loaded. -/
def Holders.step (w : Holders) : SidOp → Option Holders
  | .acquire s =>
    if s < w.policy.nrTypes then some { w with held := (s, w.policy.sidToType s) :: w.held }
    else none
  | .release s => some { w with held := w.held.filter (·.1 ≠ s) }
  | .load text => some { w with policy := (w.policy.selinuxParseAndLoadPolicy text).1 }

/-- The condition on a load: only types of the baseline policy are held, or the table of types is
not built anew. -/
def Holders.Stable (w : Holders) : SidOp → Prop
  | .load text => (∀ p ∈ w.held, p.1 < 99) ∨
      rebuilds .systemPublic w.policy (statements text) = false ∧ w.policy.rollsBack text = false
  | _ => True

structure Holders.Named (w : Holders) : Prop where
  base : baseNames <+: w.policy.names
  lt : ∀ p ∈ w.held, p.1 < w.policy.nrTypes
  name : ∀ p ∈ w.held, w.policy.sidToType p.1 = p.2

theorem Holders.Named.setPolicy (h : w.Named) (hbase : baseNames <+: st.names)
    (hold : common <+: w.policy.names) (hnew : common <+: st.names)
    (hheld : ∀ p ∈ w.held, p.1 < common.length) : ({ w with policy := st } : Holders).Named where
  base := hbase
  lt p hp := (hheld p hp).trans_le (hnew.length_le.trans_eq length_names)
  name p hp := (sidToType_of_names hold hnew (hheld p hp)).trans (h.name p hp)

theorem Holders.Named.step (h : w.Named) (hstable : w.Stable op)
    (hstep : w.step op = some w') : w'.Named := by
  cases op with
  | acquire s =>
    simp only [Holders.step, Option.ite_none_right_eq_some, Option.some.injEq] at hstep
    obtain ⟨hs, rfl⟩ := hstep
    refine ⟨h.base, fun p hp => ?_, fun p hp => ?_⟩
    · obtain rfl | hp := mem_cons.mp hp
      · exact hs
      · exact h.lt p hp
    · obtain rfl | hp := mem_cons.mp hp
      · rfl
      · exact h.name p hp
  | release s =>
    obtain rfl := Option.some.inj hstep
    exact ⟨h.base, fun p hp => h.lt p (mem_filter.mp hp).1,
      fun p hp => h.name p (mem_filter.mp hp).1⟩
  | load text =>
    obtain rfl := Option.some.inj hstep
    have hbase := baseNames_load h.base text
    obtain hheld | ⟨hreset, hback⟩ := hstable
    · exact h.setPolicy hbase h.base hbase (by simpa only [length_baseNames] using hheld)
    · refine h.setPolicy hbase prefix_rfl (names_load hreset hback) fun p hp => ?_
      simpa using h.lt p hp

/-- Over every sequence of loads that meet the condition, a SID that is held denotes the type that
it denoted when it was taken. -/
theorem sid_names_stable {w : Holders}
    (h : Reaches Holders.step Holders.Stable { policy := selinuxSeedBaselinePolicy } w) :
    ∀ p ∈ w.held, w.policy.sidToType p.1 = p.2 := by
  have hinit : ({ policy := selinuxSeedBaselinePolicy } : Holders).Named :=
    { base := by rw [names_seed]
      lt := fun p hp => absurd hp not_mem_nil
      name := fun p hp => absurd hp not_mem_nil }
  exact (h.invariant (P := Holders.Named) hinit fun _ _ _ ha hg hs => ha.step hg hs).name

def declareCamera : List Char := "type camera domain;".toList

def declareModem : List Char := "type modem domain;".toList

def resetModem : List Char := "@reset type modem domain;".toList

theorem statements_declareCamera : statements declareCamera = [.type "camera" ["domain"]] := by
  decide

def withCamera : Policy :=
  selinuxSeedBaselinePolicy.registerType "camera" true .systemPublic (attrsOf ["domain"])

theorem load_declareCamera :
    (selinuxSeedBaselinePolicy.selinuxParseAndLoadPolicy declareCamera).1 = withCamera :=
  (load_type seed_shape seed_clean statements_declareCamera).2.2

theorem names_withCamera : withCamera.names = baseNames ++ ["camera"] := by
  rw [withCamera, names_registerType_new, names_seed]
  · rw [names_seed]
    decide
  · rw [seed_nrTypes]
    decide

def cameraTask : Holders := { policy := withCamera, held := [(99, "camera")] }

theorem reaches_cameraTask (Guard : Holders → SidOp → Prop)
    (hload : Guard { policy := selinuxSeedBaselinePolicy } (.load declareCamera))
    (hacquire : Guard { policy := withCamera } (.acquire 99)) :
    Reaches Holders.step Guard { policy := selinuxSeedBaselinePolicy } cameraTask := by
  have hname : withCamera.sidToType 99 = "camera" :=
    sidToType_new (by rw [names_withCamera]) (by decide)
  have hlt : 99 < withCamera.nrTypes := by
    rw [← length_names, names_withCamera, length_append, length_baseNames]
    decide
  have hfirst : Holders.step { policy := selinuxSeedBaselinePolicy } (.load declareCamera) =
      some { policy := withCamera } := by
    rw [Holders.step, load_declareCamera]
  have hsecond : Holders.step { policy := withCamera } (.acquire 99) = some cameraTask := by
    simp only [Holders.step, hlt, if_true, hname, cameraTask]
  exact (Reaches.refl.tail hload hfirst).tail hacquire hsecond

/-- A load keeps what is held.  The state after it is kept apart from the text that was loaded, so
that nothing evaluates the load. -/
theorem Holders.exists_load (w : Holders) (text : List Char) :
    ∃ w', w.step (.load text) = some w' ∧ w'.held = w.held ∧
      w'.policy = (w.policy.selinuxParseAndLoadPolicy text).1 := ⟨_, rfl, rfl, rfl⟩

/-- A task runs in a new type, and a second type is declared. -/
theorem camera_named_after_declareModem :
    ∃ w, cameraTask.step (.load declareModem) = some w ∧ w.held = [(99, "camera")] ∧
      w.policy.sidToType 99 = "camera" := by
  have htext : statements declareModem = [.type "modem" ["domain"]] := by decide
  have hstable : cameraTask.Stable (.load declareModem) := by
    obtain ⟨hreset, hback, -⟩ :=
      load_type (seed_shape.registerType ..) (seed_clean.registerType ..) htext
    exact .inr ⟨hreset, hback⟩
  have hstart := reaches_cameraTask Holders.Stable (.inl fun p hp => absurd hp not_mem_nil) trivial
  obtain ⟨w, hstep, hheld, -⟩ := cameraTask.exists_load declareModem
  exact ⟨w, hstep, hheld, sid_names_stable (hstart.tail hstable hstep) (99, "camera")
    (by rw [hheld]; exact mem_cons_self)⟩

/-- The source numbers the types anew after `@reset`: the SID of a task then denotes another
type. -/
theorem reset_renames_sid :
    ∃ w, Reaches Holders.step (fun _ _ => True) { policy := selinuxSeedBaselinePolicy } w ∧
      w.held = [(99, "camera")] ∧ w.policy.sidToType 99 = "modem" := by
  have htext : statements resetModem = [.reset, .type "modem" ["domain"]] := by decide
  have hstart := reaches_cameraTask (fun _ _ => True) trivial trivial
  obtain ⟨w, hstep, hheld, hpolicy⟩ := cameraTask.exists_load resetModem
  refine ⟨w, hstart.tail trivial hstep, hheld, sidToType_new ?_ (by decide)⟩
  rw [hpolicy, load_reset_type htext, names_registerType_new, names_seed]
  · rw [names_seed]
    decide
  · rw [seed_nrTypes]
    decide

end Six.Selinux
