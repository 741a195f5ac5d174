import Six.Selinux.Sids

/-! What a `neverallow` statement of an accepted text guarantees.  Its meaning is taken at the end
of the load; the source records the sets when it reads the statement. -/

namespace Six.Selinux

open Lib Policy List

variable {st st' : Policy} {cur cur' : Tier} {rc : Int} {perms : UInt32} {tclass : SecClass}
  {src tgt : SidExpr} {l : List Nat} {f : TypeEntry → TypeEntry} {hasSelf isSelf : Bool}
  {sset tset : SidSet} {calls : List Call} {text : List Char} {α β : Type} {c : SecClass}
  {ss post : List Statement} {names classes : List String} {s : Statement} {a m b : UInt32}
  {set : SidSet} {ssid tsid i t : Nat} {acc' : SidSet × Bool} {r : NeverallowRule}
  {x : Except Int α} {name : String} {mid : Policy} {e : SidExpr}

/-- The domains that the baseline policy gives every permission. -/
def privileged : List Nat := [sid .kernel, sid .init, sid .su]

/-- Nothing is granted to or from SID 0, the privileged domains apart. -/
def Policy.Unlabeled (st : Policy) : Prop :=
  ∀ s t c, s = 0 ∨ t = 0 ∧ s ∉ privileged → st.av s t c = 0

theorem Policy.Unlabeled.allowSid (h : st.Unlabeled) (hs : ssid ≠ 0) (ht : tsid ≠ 0) :
    (st.allowSid ssid tsid tclass perms).Unlabeled := by
  intro s t c hzero
  have hother : ¬ (s = ssid ∧ t = tsid ∧ c = tclass) := by
    rintro ⟨rfl, rfl, -⟩
    exact hzero.elim hs fun hz => ht hz.1
  unfold Policy.allowSid
  split_ifs
  · exact (if_neg hother).trans (h s t c hzero)
  · exact h s t c hzero

theorem Policy.Unlabeled.foldl (h : st.Unlabeled) (hs : ssid ≠ 0) (hl : ∀ t ∈ l, t ≠ 0) :
    (l.foldl (fun st t => st.allowSid ssid t tclass perms) st).Unlabeled := by
  induction l generalizing st with
  | nil => exact h
  | cons t l ih =>
    exact ih (h.allowSid hs (hl t (by simp))) fun t' ht' => hl t' (by simp [ht'])

theorem Policy.Unlabeled.of_av (h : st.Unlabeled) (hav : st'.av = st.av) : st'.Unlabeled := by
  intro s t c hzero
  rw [hav]
  exact h s t c hzero

def Call.avoidsZero : Call → Bool
  | .allow ssid tsid _ _ => ssid ≠ 0 && tsid ≠ 0
  | .allowAttr ssid _ _ _ => ssid ≠ 0
  | .autoTrans parentDom execSid childDom => parentDom ≠ 0 && execSid ≠ 0 && childDom ≠ 0
  | .privilege pd => pd ∈ privileged
  | .xperm .. => true

theorem Policy.Unlabeled.addDomainAutoTrans (h : st.Unlabeled)
    (hp : parentDom ≠ 0) (he : execSid ≠ 0) (hc : childDom ≠ 0) :
    (st.addDomainAutoTrans parentDom execSid childDom).Unlabeled := by
  have htrans : (st.addTrans parentDom execSid .process childDom).Unlabeled :=
    h.of_av (addTrans_av ..)
  exact ((((htrans.allowSid hp he).allowSid hp hc).allowSid hc hp).allowSid hc hp).allowSid hc he

theorem Call.run_unlabeled {call : Call} (h : st.Unlabeled) (hcall : call.avoidsZero = true) :
    (call.run st).Unlabeled := by
  cases call with
  | allow ssid tsid tclass perms =>
    simp only [Call.avoidsZero, Bool.and_eq_true, decide_eq_true_eq] at hcall
    exact h.allowSid hcall.1 hcall.2
  | allowAttr ssid attr tclass perms =>
    have hs : ssid ≠ 0 := by simpa [Call.avoidsZero] using hcall
    exact h.foldl hs fun t ht => Nat.one_le_iff_ne_zero.mp (mem_sidsWith ht).1
  | autoTrans parentDom execSid childDom =>
    simp only [Call.avoidsZero, Bool.and_eq_true, decide_eq_true_eq] at hcall
    exact h.addDomainAutoTrans hcall.1.1 hcall.1.2 hcall.2
  | privilege pd =>
    have hpd : pd ∈ privileged := by simpa [Call.avoidsZero] using hcall
    intro s t c hzero
    have hne : s ≠ pd := by
      rintro rfl
      obtain rfl | ⟨-, hs⟩ := hzero
      · exact absurd hpd (by decide)
      · exact hs hpd
    simpa [Call.run, givePrivilege, hne] using h s t c hzero
  | xperm ssid tsid tclass lo hi never => exact h.of_av (addXperm_av ..)

theorem foldl_run_unlabeled (h : st.Unlabeled) (hcalls : ∀ call ∈ calls, call.avoidsZero = true) :
    (calls.foldl Call.run st).Unlabeled := by
  induction calls generalizing st with
  | nil => exact h
  | cons call calls ih =>
    exact ih (call.run_unlabeled h (hcalls call (by simp))) fun c hc => hcalls c (by simp [hc])

theorem finish_unlabeled (h : st.Unlabeled) (hcalls : ∀ call ∈ calls, call.avoidsZero = true) :
    (finish st rules calls contexts).Unlabeled := by
  have hstart : ({ st with neverallows := rules } : Policy).Unlabeled := h
  exact foldl_run_unlabeled hstart hcalls

theorem seed_unlabeled : selinuxSeedBaselinePolicy.Unlabeled := by
  have hcalls : ∀ call ∈ baseCalls, call.avoidsZero = true := by
    rw [baseCalls_eq]
    decide +kernel
  have hempty : baseTable.Unlabeled := fun s t c _ => rfl
  rw [seed_eq]
  refine finish_unlabeled (foldl_run_unlabeled hempty hcalls) ?_
  decide

theorem ne_zero_of_autoTransEdits (hp : parentDom ≠ 0) (he : execSid ≠ 0) (hc : childDom ≠ 0)
    (h : .allow ssid tsid tclass perms ∈ autoTransEdits parentDom execSid childDom) :
    ssid ≠ 0 ∧ tsid ≠ 0 := by
  simp only [autoTransEdits, mem_cons, Edit.allow.injEq, reduceCtorEq, false_or, not_mem_nil,
    or_false] at h
  obtain ⟨rfl, rfl, -⟩ | ⟨rfl, rfl, -⟩ | ⟨rfl, rfl, -⟩ | ⟨rfl, rfl, -⟩ | ⟨rfl, rfl, -⟩ := h
  all_goals exact ⟨by assumption, by assumption⟩

theorem edits_allow_ne_zero (hbase : 99 ≤ st.nrTypes)
    (h : s.Edits cur st (.allow ssid tsid tclass perms)) : ssid ≠ 0 ∧ tsid ≠ 0 := by
  cases s with
  | rule isNever src tgt classes names =>
    obtain ⟨sset, hasSelf, tset, isSelf, hsrc, htgt, -, -, -, hs, ht⟩ := h
    have hone := (parseSidExpr_within hbase hsrc ssid hs).1
    refine ⟨Nat.one_le_iff_ne_zero.mp hone, ?_⟩
    obtain ht | ⟨-, rfl⟩ := ht
    · exact Nat.one_le_iff_ne_zero.mp (parseSidExpr_within hbase htgt tsid ht).1
    · exact Nat.one_le_iff_ne_zero.mp hone
  | xpermRule isNever src tgt tclass ranges =>
    obtain ⟨sset, hasSelf, tset, isSelf, -, -, hfalse⟩ := h
    exact hfalse.elim
  | transition isMacro sname tname dname =>
    obtain ⟨h1, h2, h3, h⟩ := h
    split_ifs at h
    exact ne_zero_of_autoTransEdits h1 h2 h3 h
  | initDaemonDomain dname =>
    obtain ⟨h1, h2, h⟩ := h
    exact ne_zero_of_autoTransEdits (by decide) h2 h1 h
  | _ => exact h.elim

namespace Policy

structure Sound (st : Policy) : Prop where
  shape : st.Shape
  sized : st.nrTypes ≤ maxSids
  unlabeled : st.Unlabeled

theorem seed_sound : selinuxSeedBaselinePolicy.Sound :=
  ⟨seed_shape, by rw [seed_nrTypes]; decide, seed_unlabeled⟩

theorem registerType_sized (h : st.nrTypes ≤ maxSids) (name : String) (isDomain : Bool)
    (tier : Tier) (attrs : UInt32) :
    (st.registerType name isDomain tier attrs).nrTypes ≤ maxSids := by
  unfold registerType
  split
  · simpa [nrTypes] using h
  · split_ifs with hfull
    · exact h
    · simp only [nrTypes, length_append, length_cons, length_nil] at hfull ⊢
      omega

theorem Sound.exec (hst : st.Sound) (h : st.exec cur s = .ok (cur', st')) : st'.Sound := by
  have hshape := hst.shape.exec h
  by_cases hs : s.declares = true
  · cases s with
    | reset =>
      cases h
      exact seed_sound
    | type name attrs =>
      cases h
      refine ⟨hshape, registerType_sized hst.sized .., hst.unlabeled.of_av ?_⟩
      rw [registerType_eq]
    | typeattribute name attrs =>
      cases h
      refine ⟨hshape, (execTypeattribute_length ..).trans_le hst.sized, hst.unlabeled.of_av ?_⟩
      rw [execTypeattribute_eq]
    | _ => cases hs
  · have hedited := exec_edited h (by simpa using hs)
    refine ⟨hshape, ?_, ?_⟩
    · rw [nrTypes, hedited.types_eq]
      exact hst.sized
    · refine hedited.invariant (Q := Unlabeled) hst.unlabeled fun a e ha he => ?_
      cases e with
      | allow ssid tsid tclass perms =>
        obtain ⟨hssid, htsid⟩ := edits_allow_ne_zero hst.shape.base he
        exact ha.allowSid hssid htsid
      | xperm x => exact ha.of_av (addXperm_av ..)
      | trans ssid tsid tclass newSid => exact ha.of_av (addTrans_av ..)
      | never r => exact ha.of_av (by rw [Edit.run, addNeverallow_eq])

theorem Sound.execAll (hst : st.Sound) : (execAll cur st ss).1.Sound := by
  induction ss generalizing cur st with
  | nil => exact hst
  | cons s ss ih =>
    rw [execAll]
    split
    · exact hst
    · rename_i hok
      exact ih (hst.exec hok)

theorem Sound.load (hst : st.Sound) (text : List Char) :
    (st.selinuxParseAndLoadPolicy text).1.Sound := by
  simp only [selinuxParseAndLoadPolicy]
  split_ifs
  · exact hst.execAll
  · exact seed_sound
  · exact hst.execAll

theorem sound_of_loads (h : Reaches loadStep (fun _ _ => True) selinuxSeedBaselinePolicy st) :
    st.Sound :=
  h.invariant (P := Sound) seed_sound fun _ text _ ha _ hb => Option.some.inj hb ▸ ha.load text

end Policy

/-- The attribute that a name stands for, and 0 for the name of a type. -/
def attrNamed (name : String) : UInt32 := if name = "*" then attrDomain else nameToAttr name

def Policy.meets (st : Policy) (name : String) (s : Nat) : Bool :=
  if attrNamed name ≠ 0 then st.hasAttr s (attrNamed name)
  else st.typeToSid name ≠ 0 && s = st.typeToSid name

/-- One name of a set: its types come to the set or, after a sign, are taken out. -/
def Policy.denotesStep (st : Policy) (s : Nat) (acc : Bool) (tok : String) : Bool :=
  let (neg, name) := splitSign tok
  if name = "self" then acc
  else if neg then acc && !st.meets name s
  else acc || st.meets name s

def Policy.Denotes (st : Policy) (e : SidExpr) (s : Nat) : Prop :=
  ∃ names, e = some names ∧ names.foldl (st.denotesStep s) false = true

def namesSelf (e : SidExpr) : Bool := (e.getD []).any fun tok => (splitSign tok).2 = "self"

theorem test_foldl_add {s : Nat} (hs : s < maxSids) :
    (l.foldl SidSet.add set).test s = (set.test s || decide (s ∈ l)) := by
  induction l generalizing set with
  | nil => simp
  | cons i l ih =>
    rw [foldl_cons, ih, SidSet.test_add]
    by_cases hsi : s = i
    · subst hsi
      simp [hs]
    · simp [hsi]

theorem test_foldl_del {s : Nat} :
    (l.foldl SidSet.del set).test s = (set.test s && decide (s ∉ l)) := by
  induction l generalizing set with
  | nil => simp
  | cons i l ih =>
    rw [foldl_cons, ih, SidSet.test_del]
    by_cases hsi : s = i
    · subst hsi
      simp
    · simp [hsi]

namespace Policy

variable {s : Nat} {acc acc' : SidSet × Bool} {tok : String} {set : SidSet} {names : List String}
  {attr : UInt32} {name : String} {e : SidExpr} {b : Bool}

theorem mem_sidsWith_iff (hs : 1 ≤ s ∧ s < st.nrTypes) :
    s ∈ st.sidsWith attr ↔ st.hasAttr s attr = true := by
  rw [sidsWith, mem_filter, and_iff_right (mem_sids.mpr hs)]

theorem meets_attr (hattr : attrNamed name ≠ 0) :
    st.meets name s = st.hasAttr s (attrNamed name) := if_pos hattr

theorem meets_type (hattr : attrNamed name = 0) (hsid : st.typeToSid name ≠ 0) :
    st.meets name s = decide (s = st.typeToSid name) := by
  simp [meets, hattr, hsid]

theorem denotesStep_eq_true (h : st.denotesStep s b tok = true) :
    (splitSign tok).2 = "self" ∧ b = true ∨
    (splitSign tok).2 ≠ "self" ∧ (splitSign tok).1 = true ∧ b = true ∧
      st.meets (splitSign tok).2 s = false ∨
    (splitSign tok).2 ≠ "self" ∧ (splitSign tok).1 = false ∧
      (b = true ∨ st.meets (splitSign tok).2 s = true) := by
  simp only [denotesStep] at h
  split_ifs at h with hself hneg
  · exact .inl ⟨hself, h⟩
  · simp only [Bool.and_eq_true, Bool.not_eq_true'] at h
    exact .inr (.inl ⟨hself, hneg, h.1, h.2⟩)
  · exact .inr (.inr ⟨hself, by simpa using hneg, by simpa using h⟩)

/-- A name that is not refused: `self`, an attribute, or a type of the policy. -/
def resolved (st : Policy) (tok : String) : Prop :=
  (splitSign tok).2 = "self" ∨ attrNamed (splitSign tok).2 ≠ 0 ∨ st.typeToSid (splitSign tok).2 ≠ 0

theorem test_sidSetAddAttr (hs : 1 ≤ s ∧ s < st.nrTypes) (hlt : s < maxSids) :
    (st.sidSetAddAttr set attr).test s = (set.test s || st.hasAttr s attr) := by
  rw [sidSetAddAttr, test_foldl_add hlt, Bool.eq_iff_iff, Bool.or_eq_true, Bool.or_eq_true,
    decide_eq_true_eq, mem_sidsWith_iff hs]

theorem test_sidSetDelAttr (hs : 1 ≤ s ∧ s < st.nrTypes) :
    (st.sidSetDelAttr set attr).test s = (set.test s && !st.hasAttr s attr) := by
  rw [sidSetDelAttr, test_foldl_del, Bool.eq_iff_iff, Bool.and_eq_true, Bool.and_eq_true,
    decide_eq_true_eq, mem_sidsWith_iff hs, Bool.not_eq_true', Bool.not_eq_true]

theorem sidName_resolved (hok : st.sidName cur acc tok = .ok acc') : st.resolved tok := by
  have hdomain : attrDomain ≠ 0 := by decide
  simp only [sidName] at hok
  split_ifs at hok with hself hstar hattr hneg hzero
  · exact .inl hself
  · exact .inr (.inl (by rwa [attrNamed, if_pos hstar]))
  · exact .inr (.inl (by rwa [attrNamed, if_neg hstar]))
  · exact .inr (.inl (by rwa [attrNamed, if_neg hstar]))
  · exact .inr (.inr hzero)
  · exact .inr (.inr hzero)

theorem sidName_self (hok : st.sidName cur acc tok = .ok acc') :
    acc'.2 = (acc.2 || decide ((splitSign tok).2 = "self")) := by
  simp only [sidName] at hok
  split_ifs at hok with hself hstar hattr hneg hzero hhidden hneg <;>
    obtain rfl := Except.ok.inj hok <;> simp [hself]

theorem sidName_of_self (hself : (splitSign tok).2 = "self")
    (hok : st.sidName cur acc tok = .ok acc') : acc'.1 = acc.1 := by
  simp only [sidName, if_pos hself] at hok
  rw [← Except.ok.inj hok]

theorem sidName_test (hs : 1 ≤ s ∧ s < st.nrTypes) (hlt : s < maxSids)
    (hself : (splitSign tok).2 ≠ "self") (hok : st.sidName cur acc tok = .ok acc') :
    acc'.1.test s = (acc.1.test s || st.meets (splitSign tok).2 s) ∨ (splitSign tok).1 = true ∧
      acc'.1.test s = (acc.1.test s && !st.meets (splitSign tok).2 s) := by
  have hdomain : attrDomain ≠ 0 := by decide
  simp only [sidName, if_neg hself] at hok
  split_ifs at hok with hstar hattr hneg hzero hhidden hneg
  · obtain rfl := Except.ok.inj hok
    have hnamed : attrNamed (splitSign tok).2 = attrDomain := if_pos hstar
    rw [meets_attr (hnamed ▸ hdomain), hnamed]
    exact .inl (test_sidSetAddAttr hs hlt)
  · obtain rfl := Except.ok.inj hok
    have hnamed : attrNamed (splitSign tok).2 = nameToAttr (splitSign tok).2 := if_neg hstar
    rw [meets_attr (hnamed ▸ hattr), hnamed]
    exact .inr ⟨hneg, test_sidSetDelAttr hs⟩
  · obtain rfl := Except.ok.inj hok
    have hnamed : attrNamed (splitSign tok).2 = nameToAttr (splitSign tok).2 := if_neg hstar
    rw [meets_attr (hnamed ▸ hattr), hnamed]
    exact .inl (test_sidSetAddAttr hs hlt)
  · obtain rfl := Except.ok.inj hok
    have hnamed : attrNamed (splitSign tok).2 = 0 := (if_neg hstar).trans (not_not.mp hattr)
    rw [meets_type hnamed hzero]
    exact .inr ⟨hneg, SidSet.test_del ..⟩
  · obtain rfl := Except.ok.inj hok
    have hnamed : attrNamed (splitSign tok).2 = 0 := (if_neg hstar).trans (not_not.mp hattr)
    rw [meets_type hnamed hzero]
    left
    rw [SidSet.test_add]
    congr 1
    rw [Bool.eq_iff_iff, decide_eq_true_eq, decide_eq_true_eq, and_iff_left_iff_imp]
    rintro rfl
    exact hlt

theorem foldlM_sidName_covers (acc : SidSet × Bool) (hs : 1 ≤ s ∧ s < st.nrTypes)
    (hlt : s < maxSids) (h : b = true → acc.1.test s = true)
    (hok : names.foldlM (st.sidName cur) acc = .ok acc')
    (hb : names.foldl (st.denotesStep s) b = true) : acc'.1.test s = true := by
  induction names generalizing acc b with
  | nil =>
    obtain rfl : acc = acc' := by simpa [pure, Except.pure] using hok
    exact h hb
  | cons tok names ih =>
    rw [foldlM_cons] at hok
    obtain ⟨next, hname, hok⟩ := bind_eq_ok hok
    refine ih next (fun hstep => ?_) hok hb
    obtain ⟨hself, hb⟩ | ⟨hself, -, hb, hmeets⟩ | ⟨hself, hneg, hb⟩ := denotesStep_eq_true hstep
    · rw [sidName_of_self hself hname]
      exact h hb
    · obtain htest | ⟨-, htest⟩ := sidName_test hs hlt hself hname
      · rw [htest, h hb, Bool.true_or]
      · rw [htest, h hb, hmeets]
        rfl
    · obtain htest | ⟨hneg', -⟩ := sidName_test hs hlt hself hname
      · rw [htest, Bool.or_eq_true]
        exact hb.imp h id
      · exact absurd (hneg.symm.trans hneg') (by decide)

theorem foldlM_sidName_names (acc : SidSet × Bool)
    (hok : names.foldlM (st.sidName cur) acc = .ok acc') : (∀ tok ∈ names, st.resolved tok) ∧
      acc'.2 = (acc.2 || names.any fun tok => (splitSign tok).2 = "self") := by
  induction names generalizing acc with
  | nil =>
    obtain rfl : acc = acc' := by simpa [pure, Except.pure] using hok
    simp
  | cons tok names ih =>
    rw [foldlM_cons] at hok
    obtain ⟨next, hname, hok⟩ := bind_eq_ok hok
    obtain ⟨hresolved, hself⟩ := ih next hok
    refine ⟨forall_mem_cons.mpr ⟨sidName_resolved hname, hresolved⟩, ?_⟩
    rw [hself, sidName_self hname, any_cons, Bool.or_assoc]

theorem parseSidExpr_names (hok : st.parseSidExpr cur e = .ok (set, isSelf)) :
    (∀ tok ∈ e.getD [], st.resolved tok) ∧ isSelf = namesSelf e := by
  cases e with
  | none => cases hok
  | some names =>
    obtain ⟨hresolved, hself⟩ := foldlM_sidName_names ({}, false) hok
    exact ⟨hresolved, by simpa [namesSelf] using hself⟩

theorem parseSidExpr_covers (hsized : st.nrTypes ≤ maxSids)
    (hok : st.parseSidExpr cur e = .ok (set, isSelf)) (hs : 1 ≤ s ∧ s < st.nrTypes)
    (hd : st.Denotes e s) : set.test s = true := by
  obtain ⟨names, rfl, hnames⟩ := hd
  exact foldlM_sidName_covers ({}, false) hs (hs.2.trans_le hsized) (by simp) hok hnames

theorem meets_lt (hbase : 99 ≤ st.nrTypes) (h : st.meets name s = true) : s < st.nrTypes := by
  by_cases hattr : attrNamed name = 0
  · simp only [meets, hattr, ne_eq, not_true_eq_false, if_false, Bool.and_eq_true,
      decide_eq_true_eq] at h
    rw [h.2]
    exact typeToSid_lt hbase name
  · rw [meets_attr hattr, hasAttr] at h
    split at h
    · rename_i e hget
      exact (List.getElem?_eq_some_iff.mp hget).1
    · cases h

theorem denotes_lt (hbase : 99 ≤ st.nrTypes) (h : names.foldl (st.denotesStep s) b = true) :
    b = true ∨ s < st.nrTypes := by
  induction names generalizing b with
  | nil => exact .inl h
  | cons tok names ih =>
    obtain hstep | hlt := ih h
    · obtain ⟨-, hb⟩ | ⟨-, -, hb, -⟩ | ⟨-, -, hb⟩ := denotesStep_eq_true hstep
      · exact .inl hb
      · exact .inl hb
      · exact hb.imp_right (meets_lt hbase)
    · exact .inr hlt

theorem Denotes.lt (hbase : 99 ≤ st.nrTypes) (h : st.Denotes e s) : s < st.nrTypes := by
  obtain ⟨names, -, hnames⟩ := h
  exact (denotes_lt hbase hnames).resolve_left (by simp)

end Policy

theorem or_and_of_and (h : a &&& m = m) : (a ||| b) &&& m = m := by
  have hnat : a.toNat &&& m.toNat = m.toNat := by rw [← UInt32.toNat_and, h]
  apply UInt32.toNat_inj.mp
  rw [UInt32.toNat_and, UInt32.toNat_or, Nat.and_or_distrib_right, hnat]
  exact Nat.eq_of_testBit_eq fun i => by
    rw [Nat.testBit_or, Nat.testBit_and]
    cases m.toNat.testBit i <;> simp

theorem and_of_or_and (h : (a ||| b) &&& m = m) (hb : b &&& m = 0) : a &&& m = m := by
  have hdistrib : (a ||| b) &&& m = (a &&& m) ||| (b &&& m) := by
    apply UInt32.toNat_inj.mp
    simp only [UInt32.toNat_and, UInt32.toNat_or, Nat.and_or_distrib_right]
  rwa [hdistrib, hb, UInt32.or_zero] at h

/-- Types are added and types gain attributes, but none gains a spared one; the rules stay. -/
structure Extended (Spared : UInt32 → Prop) (st st' : Policy) : Prop where
  names : st.names <+: st'.names
  grows : ∀ s a, st.hasAttr s a = true → st'.hasAttr s a = true
  gains : ∀ s a, Spared a → st'.hasAttr s a = true → st.hasAttr s a = true
  rules : st.neverallows ⊆ st'.neverallows

namespace Extended

variable {Spared Spared' : UInt32 → Prop} {st'' : Policy}

theorem refl : Extended Spared st st :=
  ⟨prefix_rfl, fun _ _ h => h, fun _ _ _ h => h, List.Subset.refl _⟩

theorem trans (h : Extended Spared st st') (h' : Extended Spared st' st'') :
    Extended Spared st st'' where
  names := h.names.trans h'.names
  grows s a ha := h'.grows s a (h.grows s a ha)
  gains s a hs ha := h.gains s a hs (h'.gains s a hs ha)
  rules := List.Subset.trans h.rules h'.rules

theorem mono (h : Extended Spared st st') (hle : ∀ a, Spared' a → Spared a) :
    Extended Spared' st st' :=
  ⟨h.names, h.grows, fun s a hs => h.gains s a (hle a hs), h.rules⟩

end Extended

def Statement.gives : Statement → UInt32
  | .type _ attrs => attrsOf attrs
  | .typeattribute _ attrs => attrsOf attrs
  | _ => 0

def Statement.Spares (s : Statement) (a : UInt32) : Prop := a ≠ 0 ∧ s.gives &&& a = 0

theorem hasAttr_modify {s : Nat} :
    ({ st with types := st.types.modify i f } : Policy).hasAttr s a = match st.types[s]? with
      | some e => if i = s then (f e).attrs &&& a = a else e.attrs &&& a = a
      | none => false := by
  rw [hasAttr, getElem?_modify]
  cases st.types[s]? with
  | none => rfl
  | some e =>
    by_cases hi : i = s
    · simp [hi]
    · simp [hi]

theorem extended_modify (hname : ∀ e, (f e).name = e.name)
    (hattrs : ∀ e, (f e).attrs = e.attrs ||| m) :
    Extended (fun a => a ≠ 0 ∧ m &&& a = 0) st { st with types := st.types.modify i f } where
  names := by rw [names_modify hname]
  grows s a h := by
    rw [hasAttr_modify]
    rw [hasAttr] at h
    cases hget : st.types[s]? with
    | none => simp [hget] at h
    | some e =>
      simp only [hget, decide_eq_true_eq] at h ⊢
      split_ifs
      · rw [hattrs]
        exact decide_eq_true (or_and_of_and h)
      · exact decide_eq_true h
  gains s a hs h := by
    rw [hasAttr_modify] at h
    rw [hasAttr]
    cases hget : st.types[s]? with
    | none => simp [hget] at h
    | some e =>
      simp only [hget, decide_eq_true_eq] at h ⊢
      split_ifs at h
      · rw [hattrs] at h
        exact and_of_or_and (of_decide_eq_true h) hs.2
      · exact of_decide_eq_true h
  rules := List.Subset.refl _

theorem extended_append {e : TypeEntry} :
    Extended (fun a => a ≠ 0 ∧ e.attrs &&& a = 0) st { st with types := st.types ++ [e] } where
  names := ⟨[e.name], by simp [names]⟩
  grows s a h := by
    rw [hasAttr] at h ⊢
    cases hget : st.types[s]? with
    | none => simp [hget] at h
    | some e' =>
      have hlt := (List.getElem?_eq_some_iff.mp hget).1
      rw [getElem?_append_left hlt, hget]
      simpa [hget] using h
  gains s a hs h := by
    rw [hasAttr] at h ⊢
    by_cases hlt : s < st.types.length
    · rwa [getElem?_append_left hlt] at h
    · rw [getElem?_append_right (Nat.not_lt.mp hlt)] at h
      cases hi : s - st.types.length with
      | zero =>
        simp only [hi, getElem?_cons_zero, decide_eq_true_eq, hs.2] at h
        exact absurd h.symm hs.1
      | succ k => simp [hi] at h
  rules := List.Subset.refl _

theorem extended_exec (h : st.exec cur s = .ok (cur', st')) (hs : s ≠ .reset) :
    Extended s.Spares st st' := by
  cases s with
  | reset => exact absurd rfl hs
  | type name attrs =>
    cases h
    unfold registerType
    split
    · exact extended_modify (fun _ => rfl) fun _ => rfl
    · split_ifs
      · exact .refl
      · exact extended_append.mono fun _ ha => ha
  | typeattribute name attrs =>
    cases h
    simp only [execTypeattribute]
    split_ifs
    · exact .refl
    · exact extended_modify (fun _ => rfl) fun _ => rfl
  | _ =>
    have hedited := exec_edited h rfl
    have htypes := hedited.types_eq
    exact ⟨names_exec h hs, fun s a ha => by rwa [hasAttr_congr htypes],
      fun s a _ ha => by rwa [hasAttr_congr htypes] at ha, hedited.subset_neverallows⟩

def Policy.execTo (cur : Tier) (st : Policy) : List Statement → Option (Tier × Policy)
  | [] => some (cur, st)
  | s :: ss =>
    match st.exec cur s with
    | .error _ => none
    | .ok (cur', st') => execTo cur' st' ss

theorem execTo_cons {r : Tier × Policy} (h : execTo cur st (s :: ss) = some r) :
    ∃ next, st.exec cur s = .ok next ∧ execTo next.1 next.2 ss = some r := by
  rw [execTo] at h
  cases hexec : st.exec cur s with
  | error rc => simp [hexec] at h
  | ok next => exact ⟨next, rfl, by simpa [hexec] using h⟩

theorem extended_execTo (h : execTo cur st ss = some (cur', st')) (hreset : Statement.reset ∉ ss) :
    Extended (fun a => ∀ s ∈ ss, s.Spares a) st st' := by
  induction ss generalizing cur st with
  | nil =>
    cases h
    exact .refl
  | cons s ss ih =>
    rw [mem_cons, not_or] at hreset
    obtain ⟨next, hexec, h⟩ := execTo_cons h
    have hfirst : Extended (fun a => ∀ x ∈ s :: ss, x.Spares a) st next.2 :=
      (extended_exec hexec (Ne.symm hreset.1)).mono fun a ha => ha s (by simp)
    exact hfirst.trans ((ih h hreset.2).mono fun a ha x hx => ha x (by simp [hx]))

theorem Policy.Sound.execTo (hst : st.Sound) (h : execTo cur st ss = some (cur', st')) :
    st'.Sound := by
  induction ss generalizing cur st with
  | nil =>
    cases h
    exact hst
  | cons s ss ih =>
    obtain ⟨next, hexec, h⟩ := execTo_cons h
    exact ih (hst.exec hexec) h

theorem sidName_error (h : st.sidName cur acc tok = .error rc) : rc ≠ 0 := by
  simp only [sidName] at h
  split_ifs at h <;> obtain rfl := Except.error.inj h <;> decide

theorem bind_error {f : α → Except Int β} (h : x >>= f = .error rc) :
    x = .error rc ∨ ∃ a, x = .ok a ∧ f a = .error rc := by
  cases x with
  | error rc' =>
    obtain rfl := Except.error.inj h
    exact .inl rfl
  | ok a => exact .inr ⟨a, rfl, h⟩

theorem map_error {f : α → β} (h : x.map f = .error rc) : x = .error rc := by
  cases x with
  | error rc' =>
    obtain rfl := Except.error.inj h
    rfl
  | ok a => cases h

theorem foldlM_sidName_error (acc : SidSet × Bool)
    (h : names.foldlM (st.sidName cur) acc = .error rc) : rc ≠ 0 := by
  induction names generalizing acc with
  | nil => cases h
  | cons tok names ih =>
    rw [foldlM_cons] at h
    obtain h | ⟨next, -, h⟩ := bind_error h
    · exact sidName_error h
    · exact ih next h

theorem parseSidExpr_error (h : st.parseSidExpr cur e = .error rc) : rc ≠ 0 := by
  cases e with
  | none =>
    obtain rfl := Except.error.inj h
    decide
  | some names => exact foldlM_sidName_error _ h

theorem exec_error (h : st.exec cur s = .error rc) : rc ≠ 0 := by
  cases s with
  | transition isMacro sname tname dname =>
    have herror := map_error h
    simp only [execTransition] at herror
    split_ifs at herror <;> obtain rfl := Except.error.inj herror <;> decide
  | rule isNever src tgt classes perms =>
    have herror := map_error h
    unfold execRule at herror
    obtain herror | ⟨_, -, herror⟩ := bind_error herror
    · exact parseSidExpr_error herror
    · obtain herror | ⟨_, -, herror⟩ := bind_error herror
      · exact parseSidExpr_error herror
      · dsimp only at herror
        split at herror <;> cases herror
  | xpermRule isNever src tgt tclass ranges =>
    have herror := map_error h
    unfold execXpermRule at herror
    obtain herror | ⟨_, -, herror⟩ := bind_error herror
    · exact parseSidExpr_error herror
    · obtain herror | ⟨_, -, herror⟩ := bind_error herror
      · exact parseSidExpr_error herror
      · cases herror
  | _ => cases h

theorem execTo_of_accepted (h : (execAll cur st ss).2 = 0) :
    ∃ cur', execTo cur st ss = some (cur', (execAll cur st ss).1) := by
  induction ss generalizing cur st with
  | nil => exact ⟨cur, rfl⟩
  | cons s ss ih =>
    cases hexec : st.exec cur s with
    | error rc =>
      rw [execAll_cons_error hexec] at h
      exact absurd h (exec_error hexec)
    | ok next =>
      rw [execAll_cons_ok hexec] at h ⊢
      rw [execTo, hexec]
      exact ih h

theorem execTo_append (hpre : execTo cur st pre = some (cur', mid)) :
    execTo cur st (pre ++ post) = execTo cur' mid post := by
  induction pre generalizing cur st with
  | nil =>
    cases hpre
    rfl
  | cons s pre ih =>
    obtain ⟨next, hexec, hpre⟩ := execTo_cons hpre
    rw [cons_append, execTo, hexec]
    exact ih hpre

theorem load_accepted (h : (st.selinuxParseAndLoadPolicy text).2 = 0) :
    ∃ cur', execTo .systemPublic st (statements text) =
        some (cur', (st.selinuxParseAndLoadPolicy text).1) ∧
      (st.selinuxParseAndLoadPolicy text).1.selinuxVerifyNeverallows = 0 := by
  simp only [selinuxParseAndLoadPolicy] at h ⊢
  split_ifs at h ⊢ with hrc hbroken
  · exact absurd h hrc
  · exact absurd h hbroken
  · obtain ⟨cur', hto⟩ := execTo_of_accepted (not_not.mp hrc)
    exact ⟨cur', hto, not_not.mp hbroken⟩

/-- The tables grant nothing that the statement forbids, for the types that meet its names. -/
def Honoured (st : Policy) (src tgt : SidExpr) (classes perms : List String) : Prop :=
  ∀ c ∈ classes.filterMap nameToSecclass, ∀ p ∈ perms, ∀ s t, st.Denotes src s →
    (st.Denotes tgt t ∨ namesSelf tgt = true ∧ t = s) →
      st.av s t c &&& nameToPerm (some c) p = 0

/-- No later declaration gives an attribute that the expression adds to its set. -/
def Spared (post : List Statement) (e : SidExpr) : Prop :=
  ∀ tok ∈ e.getD [], (splitSign tok).1 = false → attrNamed (splitSign tok).2 ≠ 0 →
    ∀ s ∈ post, s.gives &&& attrNamed (splitSign tok).2 = 0

/-- What the source records for a `neverallow` statement covers its meaning.  `mid` is the policy
when the statement is read, and `post` are the statements after it. -/
structure Recorded (mid : Policy) (post : List Statement) (src tgt : SidExpr)
    (classes perms : List String) : Prop where
  reset : Statement.reset ∉ post
  source : Spared post src
  target : Spared post tgt
  self : namesSelf tgt = true → ∀ t, ¬ mid.Denotes tgt t
  perms : ∀ c ∈ classes.filterMap nameToSecclass, ∀ p ∈ perms,
    nameToPerm (some c) p &&& ~~~permsOf (classes.filterMap nameToSecclass) perms = 0
  room : mid.neverallows.length +
    (SecClass.all.filter (· ∈ classes.filterMap nameToSecclass)).length ≤ maxNeverallowRules
  unlabeled : (∀ s ∈ privileged, ¬ mid.Denotes src s) ∨ ¬ mid.Denotes tgt 0

section Meaning

variable {Kept : UInt32 → Prop} {names : List String} {s : Nat} {name : String}

theorem typeIndex_eq_names (name : String) : st.typeIndex name = st.names.findIdx? (· = name) := by
  rw [typeIndex, names, findIdx?_map]
  rfl

section

variable (h : Extended Kept st st')
include h

theorem Extended.typeToSid_eq (hsid : st.typeToSid name ≠ 0) :
    st'.typeToSid name = st.typeToSid name := by
  obtain ⟨rest, hrest⟩ := h.names
  have hindex : ∀ i, st.typeIndex name = some i → st'.typeIndex name = some i := by
    intro i hi
    rw [typeIndex_eq_names] at hi
    rw [typeIndex_eq_names, ← hrest, findIdx?_append, hi, Option.some_or]
  unfold typeToSid at hsid ⊢
  split_ifs at hsid ⊢
  · exact absurd rfl hsid
  · rfl
  · rfl
  · cases hi : st.typeIndex name with
    | none => simp [hi] at hsid
    | some i => rw [hindex i hi]

theorem Extended.meets_eq (hattr : attrNamed name = 0)
    (hname : attrNamed name ≠ 0 ∨ st.typeToSid name ≠ 0) : st'.meets name s = st.meets name s := by
  have hsid := hname.resolve_left (not_not.mpr hattr)
  have heq := h.typeToSid_eq hsid
  rw [meets_type hattr hsid, meets_type hattr (heq ▸ hsid), heq]

theorem Extended.meets_grows
    (hname : attrNamed name ≠ 0 ∨ st.typeToSid name ≠ 0) (hmeets : st.meets name s = true) :
    st'.meets name s = true := by
  by_cases hattr : attrNamed name = 0
  · rwa [h.meets_eq hattr hname]
  · rw [meets_attr hattr] at hmeets ⊢
    exact h.grows s _ hmeets

theorem Extended.meets_gains (hname : attrNamed name ≠ 0 ∨ st.typeToSid name ≠ 0)
    (hkept : attrNamed name ≠ 0 → Kept (attrNamed name)) (hmeets : st'.meets name s = true) :
    st.meets name s = true := by
  by_cases hattr : attrNamed name = 0
  · rwa [h.meets_eq hattr hname] at hmeets
  · rw [meets_attr hattr] at hmeets ⊢
    exact h.gains s _ (hkept hattr) hmeets

theorem Extended.denotes_before {b b' : Bool}
    (hnames : ∀ tok ∈ names, st.resolved tok)
    (hkept : ∀ tok ∈ names, (splitSign tok).1 = false → attrNamed (splitSign tok).2 ≠ 0 →
      Kept (attrNamed (splitSign tok).2))
    (hb : b' = true → b = true) (hend : names.foldl (st'.denotesStep s) b' = true) :
    names.foldl (st.denotesStep s) b = true := by
  induction names generalizing b b' with
  | nil => exact hb hend
  | cons tok names ih =>
    refine ih (fun t ht => hnames t (by simp [ht])) (fun t ht => hkept t (by simp [ht]))
      (fun hstep => ?_) hend
    have hresolved := hnames tok (by simp)
    obtain ⟨hself, hb'⟩ | ⟨hself, hneg, hb', hmeets⟩ | ⟨hself, hneg, hb'⟩ :=
      denotesStep_eq_true hstep
    · simpa [denotesStep, hself] using hb hb'
    · have hbefore : st.meets (splitSign tok).2 s = false := by
        by_contra hmet
        rw [h.meets_grows (hresolved.resolve_left hself) (by simpa using hmet)] at hmeets
        cases hmeets
      simp [denotesStep, hself, hneg, hbefore, hb hb']
    · have hbefore : b = true ∨ st.meets (splitSign tok).2 s = true :=
        hb'.imp hb (h.meets_gains (hresolved.resolve_left hself) (hkept tok (by simp) hneg))
      simpa [denotesStep, hself, hneg] using hbefore

end

end Meaning

theorem and_eq_zero_of_mask (h : a &&& m = 0) (hp : p &&& ~~~m = 0) : a &&& p = 0 := by
  have hsplit : a &&& p = (a &&& (p &&& ~~~m)) ||| (a &&& m &&& p) := by
    apply UInt32.toBitVec_inj.mp
    apply BitVec.eq_of_getLsbD_eq
    intro i hi
    simp only [UInt32.toBitVec_and, UInt32.toBitVec_or, UInt32.toBitVec_not, BitVec.getLsbD_and,
      BitVec.getLsbD_or, BitVec.getLsbD_not, hi, decide_true, Bool.true_and]
    cases a.toBitVec.getLsbD i <;> cases p.toBitVec.getLsbD i <;> cases m.toBitVec.getLsbD i <;> rfl
  rw [hsplit, hp, h, UInt32.and_zero, UInt32.zero_and, UInt32.or_zero]

theorem execRule_records (h : st.execRule cur true src tgt classes names = .ok st')
    (hroom : st.neverallows.length +
      (SecClass.all.filter (· ∈ classes.filterMap nameToSecclass)).length ≤ maxNeverallowRules)
    (hc : c ∈ classes.filterMap nameToSecclass)
    (hperms : permsOf (classes.filterMap nameToSecclass) names ≠ 0) :
    ∃ sset hasSelf tset isSelf, st.parseSidExpr cur src = .ok (sset, hasSelf) ∧
      st.parseSidExpr cur tgt = .ok (tset, isSelf) ∧
      (⟨sset, tset, isSelf, c, permsOf (classes.filterMap nameToSecclass) names⟩ :
        NeverallowRule) ∈ st'.neverallows := by
  obtain ⟨sset, hasSelf, tset, isSelf, hsrc, htgt, rfl⟩ := execRule_ok h
  refine ⟨sset, hasSelf, tset, isSelf, hsrc, htgt, ?_⟩
  have hsome : ¬ (classes.filterMap nameToSecclass = [] ∨
      permsOf (classes.filterMap nameToSecclass) names = 0) := by
    rintro (hnil | hzero)
    · rw [hnil] at hc
      cases hc
    · exact hperms hzero
  have hall : c ∈ SecClass.all := by cases c <;> decide
  rw [if_neg hsome]
  simp only [if_true]
  rw [← foldl_map (f := fun tclass => NeverallowRule.mk sset tset isSelf tclass
    (permsOf (classes.filterMap nameToSecclass) names)) (g := addNeverallow), foldl_addNeverallow]
  · refine mem_append_right _ (mem_map.mpr ⟨c, mem_filter.mpr ⟨hall, ?_⟩, rfl⟩)
    simpa using hc
  · simpa using hroom

theorem Extended.denotes_mid
    (h : Extended (fun a => ∀ x ∈ s :: post, x.Spares a) mid last) (hs : s.gives = 0)
    (hspared : Spared post e) (hparse : mid.parseSidExpr cur e = .ok (set, isSelf))
    (hd : last.Denotes e t) : mid.Denotes e t := by
  obtain ⟨names, rfl, hnames⟩ := hd
  refine ⟨names, rfl, h.denotes_before (parseSidExpr_names hparse).1 ?_ (fun hb => hb) hnames⟩
  intro tok htok hneg hattr x hx
  refine ⟨hattr, ?_⟩
  obtain rfl | hx := mem_cons.mp hx
  · rw [hs, UInt32.zero_and]
  · exact hspared tok htok hneg hattr x hx

/-- In every accepted text, a `neverallow` statement that is recorded as `Recorded` says is honoured
by the tables at the end of the load. -/
theorem neverallow_honoured {text : List Char} {pre post : List Statement} {src tgt : SidExpr}
    {classes perms : List String} {mid : Policy}
    (hst : Reaches loadStep (fun _ _ => True) selinuxSeedBaselinePolicy st)
    (haccepted : (st.selinuxParseAndLoadPolicy text).2 = 0)
    (htext : statements text = pre ++ .rule true src tgt classes perms :: post)
    (hmid : execTo .systemPublic st pre = some (cur, mid))
    (hrec : Recorded mid post src tgt classes perms) :
    Honoured (st.selinuxParseAndLoadPolicy text).1 src tgt classes perms := by
  have hend := (sound_of_loads hst).load text
  have hmidSound := (sound_of_loads hst).execTo hmid
  obtain ⟨cur', hto, hpass⟩ := load_accepted haccepted
  generalize (st.selinuxParseAndLoadPolicy text).1 = last at *
  have hclean : last.Clean := hend.shape.verified_iff.mp hpass
  rw [htext, execTo_append hmid] at hto
  have hreset : Statement.reset ∉ Statement.rule true src tgt classes perms :: post := by
    simpa using hrec.reset
  have hext := extended_execTo hto hreset
  rw [execTo] at hto
  cases hexec : mid.exec cur (.rule true src tgt classes perms) with
  | error rc => simp [hexec] at hto
  | ok next =>
    obtain ⟨after, hrule, rfl⟩ := map_eq_ok hexec
    rw [hexec] at hto
    have hheld : after.neverallows ⊆ last.neverallows := (extended_execTo hto hrec.reset).rules
    intro c hc p hp s t hsrc htgt
    refine and_eq_zero_of_mask (m := permsOf (classes.filterMap nameToSecclass) perms) ?_
      (hrec.perms c hc p hp)
    by_cases hmask : permsOf (classes.filterMap nameToSecclass) perms = 0
    · rw [hmask, UInt32.and_zero]
    obtain ⟨sset, hasSelf, tset, isSelf, hsset, htset, hmem⟩ :=
      execRule_records hrule hrec.room hc hmask
    have hsmid := hext.denotes_mid rfl hrec.source hsset hsrc
    have htmid : mid.Denotes tgt t ∨ namesSelf tgt = true ∧ t = s :=
      htgt.imp_left (hext.denotes_mid rfl hrec.target htset)
    -- Nothing is granted to or from SID 0 that the statement is about.
    by_cases hs0 : s = 0
    · rw [hend.unlabeled s t c (.inl hs0), UInt32.zero_and]
    by_cases ht0 : t = 0
    · have hdenotes : mid.Denotes tgt 0 :=
        ht0 ▸ htmid.resolve_right fun hself => hs0 (hself.2.symm.trans ht0)
      have hother : s ∉ privileged := fun hs =>
        (hrec.unlabeled.resolve_right (not_not.mpr hdenotes)) s hs hsmid
      rw [hend.unlabeled s t c (.inr ⟨ht0, hother⟩), UInt32.zero_and]
    have hself : isSelf = namesSelf tgt := (parseSidExpr_names htset).2
    have hstest : sset.test s = true := parseSidExpr_covers hmidSound.sized hsset
      ⟨Nat.one_le_iff_ne_zero.mpr hs0, hsmid.lt hmidSound.shape.base⟩ hsmid
    refine hclean.obeys _ (hheld hmem) s t ?_
    rw [NeverallowRule.covers, Bool.and_eq_true]
    refine ⟨hstest, ?_⟩
    cases hcase : isSelf with
    | true =>
      have hts := htmid.resolve_left (hrec.self (hself ▸ hcase) t)
      simp [hts.2]
    | false =>
      have htd := htmid.resolve_right fun hs => absurd (hself.trans hs.1) (by simp [hcase])
      simpa using parseSidExpr_covers hmidSound.sized htset
        ⟨Nat.one_le_iff_ne_zero.mpr ht0, htd.lt hmidSound.shape.base⟩ htd

theorem load_eq_of_ok (h : execAll .systemPublic st (statements text) = (st', 0))
    (hclean : st'.Clean) (hshape : st'.Shape) : st.selinuxParseAndLoadPolicy text = (st', 0) := by
  simp [selinuxParseAndLoadPolicy, h, hshape.verified_iff.mpr hclean]

theorem obeys_of_le (h : st.Obeys r)
    (hcovers : ∀ s t, r'.covers s t = true → r.covers s t = true) (hclass : r'.tclass = r.tclass)
    (hperms : r'.perms &&& ~~~r.perms = 0) : st.Obeys r' := by
  intro s t hst
  rw [hclass]
  exact and_eq_zero_of_mask (h s t (hcovers s t hst)) hperms

theorem Policy.Clean.addNeverallow (h : st.Clean) (hr : st.Obeys r) :
    (st.addNeverallow r).Clean := by
  have hobeys : ∀ r' ∈ (st.addNeverallow r).neverallows, st.Obeys r' := by
    intro r' hr'
    obtain hr' | heq := Edit.mem_run_neverallows (e := .never r) hr'
    · exact h.obeys r' hr'
    · rw [← Edit.never.inj heq]
      exact hr
  refine ⟨fun r' hr' => ?_, ?_⟩
  · rw [addNeverallow_eq]
    exact hobeys r' hr'
  · rw [addNeverallow_eq]
    exact h.xperms

theorem execRule_never (hsrc : st.parseSidExpr cur src = .ok (sset, hasSelf))
    (htgt : st.parseSidExpr cur tgt = .ok (tset, isSelf))
    (hclass : classes.filterMap nameToSecclass = [c]) (hperms : permsOf [c] names = perms)
    (hsome : perms ≠ 0) : st.execRule cur true src tgt classes names =
      .ok (st.addNeverallow ⟨sset, tset, isSelf, c, perms⟩) := by
  have hall : SecClass.all.filter (· ∈ [c]) = [c] := by cases c <;> rfl
  simp only [execRule, hsrc, htgt, hclass, hperms, hsome, cons_ne_nil, or_self, if_false, hall,
    foldl_cons, foldl_nil, if_true, bind, Except.bind, pure, Except.pure]

theorem execRule_skipped (hsrc : st.parseSidExpr cur src = .ok (sset, hasSelf))
    (htgt : st.parseSidExpr cur tgt = .ok (tset, isSelf))
    (hperms : permsOf (classes.filterMap nameToSecclass) names = 0) :
    st.execRule cur isNever src tgt classes names = .ok st := by
  simp only [execRule, hsrc, htgt, hperms, or_true, if_true, bind, Except.bind, pure, Except.pure]

theorem denotes_base_iff {names : List String} (htypes : st.types = baseTable.types) :
    st.Denotes (some names) t ↔ names.foldl (baseTable.denotesStep t) false = true := by
  have hstep : st.denotesStep t = baseTable.denotesStep t := by
    funext acc tok
    simp only [denotesStep, meets, hasAttr_congr htypes, typeToSid_congr baseTable htypes]
  simp [Denotes, hstep]

/-- A rule about an attribute, a grant, and the declaration of a type. -/
def recordedRule : List Char :=
  ("neverallow vendordomain system_data_file:file \x7b write create \x7d; " ++
    "allow untrusted_app fwupd_service:service_manager list; " ++
    "type notes_file, data_file_type;").toList

def recordedPost : List Statement :=
  [.rule false (some ["untrusted_app"]) (some ["fwupd_service"]) ["service_manager"] ["list"],
    .type "notes_file" ["data_file_type"]]

theorem statements_recordedRule : statements recordedRule = [] ++
    .rule true (some ["vendordomain"]) (some ["system_data_file"]) ["file"] ["write", "create"] ::
      recordedPost := by
  decide +kernel

def recorded : NeverallowRule :=
  ⟨⟨0x12000⟩, ⟨0x2000000000⟩, false, .file, sepermWrite ||| sepermCreate⟩

theorem seed_obeys_recorded : selinuxSeedBaselinePolicy.Obeys recorded := by
  have hheld : (⟨⟨0x12000⟩, ⟨0x2000000000⟩, false, .file,
      sepermWrite ||| sepermCreate ||| sepermUnlink⟩ : NeverallowRule) ∈ baseRules := by
    simp [baseRules]
  exact obeys_of_le (seed_obeys hheld) (fun s t hcovers => hcovers) rfl (by decide)

theorem seed_execRule_recorded : selinuxSeedBaselinePolicy.execRule .systemPublic true
    (some ["vendordomain"]) (some ["system_data_file"]) ["file"] ["write", "create"] =
      .ok (selinuxSeedBaselinePolicy.addNeverallow recorded) := by
  have hsrc : selinuxSeedBaselinePolicy.parseSidExpr .systemPublic (some ["vendordomain"]) =
      .ok (⟨0x12000⟩, false) :=
    (parseSidExpr_congr baseTable seed_types _ _).trans (by decide)
  have htgt : selinuxSeedBaselinePolicy.parseSidExpr .systemPublic (some ["system_data_file"]) =
      .ok (⟨0x2000000000⟩, false) :=
    (parseSidExpr_congr baseTable seed_types _ _).trans (by decide)
  exact execRule_never hsrc htgt (by decide) (by decide) (by decide)

theorem accepted_recordedRule :
    (selinuxSeedBaselinePolicy.selinuxParseAndLoadPolicy recordedRule).2 = 0 := by
  have hfirst := exec_rule_ok seed_execRule_recorded
  have hclean := seed_clean.addNeverallow seed_obeys_recorded
  have hfree : ∀ r ∈ baseRules, .serviceManager ≠ r.tclass ∨ sepermSvcmgrList &&& r.perms = 0 := by
    decide
  have hrules : ∀ r ∈ (selinuxSeedBaselinePolicy.addNeverallow recorded).neverallows,
      .serviceManager ≠ r.tclass ∨ sepermSvcmgrList &&& r.perms = 0 := by
    intro r hr
    obtain hr | heq := Edit.mem_run_neverallows (e := .never recorded) hr
    · exact hfree r (seed_neverallows ▸ hr)
    · obtain rfl := Edit.never.inj heq
      exact .inl (by decide)
  have htypes : (selinuxSeedBaselinePolicy.addNeverallow recorded).types = baseTable.types :=
    (Edit.run_types (.never recorded)).trans seed_types
  have hperm : permsOf [.serviceManager] ["list"] = sepermSvcmgrList := by decide
  have hsecond := exec_grant hperm htypes (by decide)
  obtain ⟨st', hthird⟩ : ∃ st', ((selinuxSeedBaselinePolicy.addNeverallow recorded).allowSid 5 98
      .serviceManager sepermSvcmgrList).exec .systemPublic (.type "notes_file" ["data_file_type"]) =
      .ok (.systemPublic, st') := ⟨_, rfl⟩
  have hall : execAll .systemPublic selinuxSeedBaselinePolicy (statements recordedRule) =
      (st', 0) := by
    rw [statements_recordedRule, nil_append, recordedPost, execAll_cons_ok hfirst,
      execAll_cons_ok hsecond, execAll_cons_ok hthird, execAll]
  have hgranted := hclean.exec (keeps_grant hperm hrules) hsecond
  rw [load_eq_of_ok hall (hgranted.exec (fun _ => False.elim) hthird)
    (((seed_shape.exec hfirst).exec hsecond).exec hthird)]

theorem honoured_recordedRule :
    (selinuxSeedBaselinePolicy.selinuxParseAndLoadPolicy recordedRule).2 = 0 ∧
    Honoured (selinuxSeedBaselinePolicy.selinuxParseAndLoadPolicy recordedRule).1
      (some ["vendordomain"]) (some ["system_data_file"]) ["file"] ["write", "create"] := by
  have hclass : ["file"].filterMap nameToSecclass = [.file] := by
    decide
  refine ⟨accepted_recordedRule, neverallow_honoured .refl accepted_recordedRule
    statements_recordedRule rfl
    { reset := by decide
      source := by
        unfold Spared
        decide
      target := by
        unfold Spared
        decide
      self := fun hself => absurd hself (by decide)
      perms := by decide
      room := ?_
      unlabeled := .inr ?_ }⟩
  · rw [seed_neverallows, hclass]
    decide
  · rw [denotes_base_iff seed_types]
    decide

/-- A text that names two classes, and a permission of the second one. -/
def twoClasses : List Char :=
  ("neverallow untrusted_app shell:\x7b file binder \x7d call; " ++
    "allow untrusted_app shell:binder call;").toList

theorem statements_twoClasses : statements twoClasses =
    [.rule true (some ["untrusted_app"]) (some ["shell"]) ["file", "binder"] ["call"],
      .rule false (some ["untrusted_app"]) (some ["shell"]) ["binder"] ["call"]] := by
  decide

theorem load_twoClasses : selinuxSeedBaselinePolicy.selinuxParseAndLoadPolicy twoClasses =
    (selinuxSeedBaselinePolicy.allowSid 5 4 .binder sepermBinderCall, 0) := by
  have hsrc : selinuxSeedBaselinePolicy.parseSidExpr .systemPublic (some ["untrusted_app"]) =
      .ok (({} : SidSet).add 5, false) :=
    (parseSidExpr_congr baseTable seed_types _ _).trans (by decide)
  have htgt : selinuxSeedBaselinePolicy.parseSidExpr .systemPublic (some ["shell"]) =
      .ok (({} : SidSet).add 4, false) :=
    (parseSidExpr_congr baseTable seed_types _ _).trans (by decide)
  have hsids := sids_filter_base seed_types
  have hfirst : selinuxSeedBaselinePolicy.exec .systemPublic (.rule true (some ["untrusted_app"])
      (some ["shell"]) ["file", "binder"] ["call"]) =
      .ok (.systemPublic, selinuxSeedBaselinePolicy) :=
    exec_rule_ok (execRule_skipped hsrc htgt (by decide))
  have hsecond : selinuxSeedBaselinePolicy.exec .systemPublic (.rule false (some ["untrusted_app"])
      (some ["shell"]) ["binder"] ["call"]) =
      .ok (.systemPublic, selinuxSeedBaselinePolicy.allowSid 5 4 .binder sepermBinderCall) :=
    exec_rule_ok (execRule_allow hsrc htgt ((hsids _).trans (by decide))
      ((hsids _).trans (by decide)) (by decide) (by decide) (by decide))
  have hall : execAll .systemPublic selinuxSeedBaselinePolicy (statements twoClasses) =
      (selinuxSeedBaselinePolicy.allowSid 5 4 .binder sepermBinderCall, 0) := by
    rw [statements_twoClasses, execAll_cons_ok hfirst, execAll_cons_ok hsecond, execAll]
  have hpermits : ∀ r ∈ baseRules, permits r 5 4 .binder sepermBinderCall = true := by
    decide
  refine load_eq_of_ok hall ⟨fun r hr => ?_, ?_⟩ (seed_shape.exec hsecond)
  · rw [allowSid_neverallows] at hr
    exact obeys_allowSid (seed_clean.obeys r hr) (hpermits r (seed_neverallows ▸ hr))
  · rw [XpermsAgree, allowSid_xperms]
    exact seed_clean.xperms

/-- The source looks the permissions up in the first class only: the text is accepted, and grants
what its own `neverallow` statement forbids. -/
theorem second_class_not_checked :
    (selinuxSeedBaselinePolicy.selinuxParseAndLoadPolicy twoClasses).2 = 0 ∧ statements twoClasses =
      [.rule true (some ["untrusted_app"]) (some ["shell"]) ["file", "binder"] ["call"],
        .rule false (some ["untrusted_app"]) (some ["shell"]) ["binder"] ["call"]] ∧
    ¬ Honoured (selinuxSeedBaselinePolicy.selinuxParseAndLoadPolicy twoClasses).1
      (some ["untrusted_app"]) (some ["shell"]) ["file", "binder"] ["call"] := by
  rw [load_twoClasses]
  refine ⟨rfl, statements_twoClasses, fun hhonoured => ?_⟩
  have hdenotes : ∀ names t, names.foldl (baseTable.denotesStep t) false = true →
      (selinuxSeedBaselinePolicy.allowSid 5 4 .binder sepermBinderCall).Denotes (some names) t :=
    fun names t => (denotes_base_iff ((allowSid_types ..).trans seed_types)).mpr
  have hzero := hhonoured .binder (by decide) "call" (by simp) 5 4 (hdenotes _ _ (by decide))
    (.inl (hdenotes _ _ (by decide)))
  rw [allowSid_av_self (by decide) (by decide)] at hzero
  exact absurd (or_and_eq_zero_right hzero) (by decide)

end Six.Selinux
