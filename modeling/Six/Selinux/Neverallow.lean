import Six.Selinux.Edits

/-! The `neverallow` rules over a sequence of loads.  A load that is refused at a statement leaves
what the statements before it did without a check. -/

namespace Six.Selinux

open Errno Lib Policy List

variable {st st' : Policy} {cur cur' : Tier} {src tgt : SidExpr} {rc : Int} {isNever : Bool}
  {r : NeverallowRule} {text : List Char} {clean : Prop} {s : Statement} {ss : List Statement}
  {classes perms : List String} {x y : XpermRule} {tclass : SecClass} {ssid tsid : Nat}

namespace Policy

variable {s : Statement} {types : List TypeEntry}

/-- The baseline types are there, and the rules name types of the policy. -/
structure Shape (st : Policy) : Prop where
  base : 99 ≤ st.nrTypes
  bounded : st.Bounded

structure Clean (st : Policy) : Prop where
  obeys : ∀ r ∈ st.neverallows, st.Obeys r
  xperms : st.XpermsAgree

theorem Shape.verified_iff (h : st.Shape) : st.selinuxVerifyNeverallows = 0 ↔ st.Clean :=
  (Policy.verified_iff h.bounded).trans ⟨fun ⟨h1, h2⟩ => ⟨h1, h2⟩, fun ⟨h1, h2⟩ => ⟨h1, h2⟩⟩

theorem seed_nrTypes : selinuxSeedBaselinePolicy.nrTypes = 99 := by
  rw [nrTypes, seed_types]
  decide

theorem seed_shape : selinuxSeedBaselinePolicy.Shape := ⟨seed_nrTypes.ge, seed_bounded⟩

theorem seed_clean : selinuxSeedBaselinePolicy.Clean := seed_shape.verified_iff.mp seed_verified

theorem Shape.setTypes (h : st.Shape) (hlen : st.nrTypes ≤ types.length) :
    ({ st with types } : Policy).Shape where
  base := h.base.trans hlen
  bounded r hr :=
    have hsets := h.bounded r hr
    ⟨fun s hs => ⟨(hsets.1 s hs).1, (hsets.1 s hs).2.trans_le hlen⟩,
      fun t ht => ⟨(hsets.2 t ht).1, (hsets.2 t ht).2.trans_le hlen⟩⟩

theorem Clean.setTypes (h : st.Clean) : ({ st with types } : Policy).Clean := ⟨h.obeys, h.xperms⟩

theorem registerType_eq (name : String) (isDomain : Bool) (tier : Tier) (attrs : UInt32) :
    st.registerType name isDomain tier attrs =
      { st with types := (st.registerType name isDomain tier attrs).types } := by
  unfold registerType
  split
  · rfl
  · split_ifs <;> rfl

theorem registerType_length (name : String) (isDomain : Bool) (tier : Tier) (attrs : UInt32) :
    st.nrTypes ≤ (st.registerType name isDomain tier attrs).types.length := by
  unfold registerType
  split
  · simp [nrTypes]
  · split_ifs <;> simp [nrTypes]

theorem execTypeattribute_eq (name : String) (attrs : List String) :
    st.execTypeattribute name attrs =
      { st with types := (st.execTypeattribute name attrs).types } := by
  simp only [execTypeattribute]
  split_ifs <;> rfl

theorem execTypeattribute_length (name : String) (attrs : List String) :
    (st.execTypeattribute name attrs).types.length = st.nrTypes := by
  simp only [execTypeattribute]
  split_ifs <;> simp [nrTypes]

theorem edits_never (h : s.Edits cur st (.never r)) :
    ∃ src tgt classes perms hasSelf isSelf, s = .rule true src tgt classes perms ∧
      st.parseSidExpr cur src = .ok (r.src, hasSelf) ∧
      st.parseSidExpr cur tgt = .ok (r.tgt, isSelf) := by
  cases s with
  | rule isNever src tgt classes perms =>
    obtain ⟨sset, hasSelf, tset, isSelf, hsrc, htgt, rfl, -, hr⟩ := h
    rw [hr]
    exact ⟨src, tgt, classes, perms, hasSelf, isSelf, rfl, hsrc, htgt⟩
  | xpermRule isNever src tgt tclass ranges =>
    obtain ⟨sset, hasSelf, tset, isSelf, -, -, hfalse⟩ := h
    exact hfalse.elim
  | transition isMacro sname tname dname =>
    obtain ⟨-, -, -, h⟩ := h
    split_ifs at h
    simp [autoTransEdits] at h
  | initDaemonDomain dname =>
    obtain ⟨-, -, h⟩ := h
    simp [autoTransEdits] at h
  | _ => exact h.elim

theorem edits_xperm (h : s.Edits cur st (.xperm x)) :
    ∃ src tgt tclass ranges, s = .xpermRule x.isNeverallow src tgt tclass ranges := by
  cases s with
  | rule isNever src tgt classes perms =>
    obtain ⟨sset, hasSelf, tset, isSelf, -, -, hfalse⟩ := h
    exact hfalse.elim
  | xpermRule isNever src tgt tclass ranges =>
    obtain ⟨sset, hasSelf, tset, isSelf, -, -, rfl, -⟩ := h
    exact ⟨src, tgt, tclass, ranges, rfl⟩
  | transition isMacro sname tname dname =>
    obtain ⟨-, -, -, h⟩ := h
    split_ifs at h
    simp [autoTransEdits] at h
  | initDaemonDomain dname =>
    obtain ⟨-, -, h⟩ := h
    simp [autoTransEdits] at h
  | _ => exact h.elim

theorem Shape.exec (hst : st.Shape) (h : st.exec cur s = .ok (cur', st')) : st'.Shape := by
  by_cases hs : s.declares = true
  · cases s with
    | reset =>
      cases h
      exact seed_shape
    | type name attrs =>
      cases h
      rw [registerType_eq]
      exact hst.setTypes (registerType_length ..)
    | typeattribute name attrs =>
      cases h
      rw [execTypeattribute_eq]
      exact hst.setTypes (execTypeattribute_length ..).ge
    | _ => cases hs
  · have hedited := exec_edited h (by simpa using hs)
    have hlen : st'.nrTypes = st.nrTypes := by rw [nrTypes, hedited.types_eq, nrTypes]
    refine ⟨hlen ▸ hst.base, fun r hr => ?_⟩
    unfold Within
    rw [hlen]
    obtain hr | hr := hedited.mem_neverallows hr
    · exact hst.bounded r hr
    · obtain ⟨_, _, _, _, _, _, -, hsrc, htgt⟩ := edits_never hr
      exact ⟨parseSidExpr_within hst.base hsrc, parseSidExpr_within hst.base htgt⟩

end Policy

def Edit.Keeps (st : Policy) : Edit → Prop
  | .allow ssid tsid tclass perms => ∀ r ∈ st.neverallows, permits r ssid tsid tclass perms = true
  | .never r => st.Obeys r
  | .xperm x => ∀ y ∈ st.xperms, conflicts x y = false ∧ conflicts y x = false
  | .trans .. => True

/-- No edit of the statement, taken alone, breaks a rule held before the statement. -/
def Statement.Keeps (cur : Tier) (st : Policy) (s : Statement) : Prop :=
  ∀ e, s.Edits cur st e → e.Keeps st

theorem Statement.edits_never_permits (h : s.Edits cur st (.never r))
    (he : s.Edits cur st e) : e.Permits r := by
  obtain ⟨src, tgt, classes, perms, _, _, rfl, -, -⟩ := edits_never h
  obtain ⟨sset, hasSelf, tset, isSelf, -, -, he⟩ := he
  cases e with
  | allow s t c p => exact absurd he.1 (by decide)
  | _ => trivial

theorem Statement.edits_xperm_isNeverallow (hx : s.Edits cur st (.xperm x))
    (hy : s.Edits cur st (.xperm y)) :
    x.isNeverallow = y.isNeverallow := by
  obtain ⟨src, tgt, tclass, ranges, rfl⟩ := edits_xperm hx
  obtain ⟨_, _, _, _, heq⟩ := edits_xperm hy
  exact (Statement.xpermRule.inj heq).1

theorem conflicts_isNeverallow (h : x.isNeverallow = y.isNeverallow) : conflicts x y = false := by
  cases hx : x.isNeverallow <;> simp [conflicts, ← h, hx]

theorem Policy.Clean.edited (hst : st.Clean) (hkeeps : s.Keeps cur st)
    (h : Edited (s.Edits cur st) st st') : st'.Clean where
  obeys r hr := by
    obtain hr | hr := h.mem_neverallows hr
    · refine h.obeys (hst.obeys r hr) fun e he => ?_
      cases e with
      | allow ssid tsid tclass perms => exact hkeeps _ he r hr
      | _ => trivial
    · exact h.obeys (hkeeps _ hr) fun e he => Statement.edits_never_permits hr he
  xperms x hx y hy := by
    obtain hx | hx := h.mem_xperms hx
    · obtain hy | hy := h.mem_xperms hy
      · exact hst.xperms x hx y hy
      · exact (hkeeps _ hy x hx).2
    · obtain hy | hy := h.mem_xperms hy
      · exact (hkeeps _ hx y hy).1
      · exact conflicts_isNeverallow (Statement.edits_xperm_isNeverallow hx hy)

theorem Policy.Clean.exec (hst : st.Clean) (hkeeps : s.Keeps cur st)
    (h : st.exec cur s = .ok (cur', st')) : st'.Clean := by
  by_cases hs : s.declares = true
  · cases s with
    | reset =>
      cases h
      exact seed_clean
    | type name attrs =>
      cases h
      rw [registerType_eq]
      exact hst.setTypes
    | typeattribute name attrs =>
      cases h
      rw [execTypeattribute_eq]
      exact hst.setTypes
    | _ => cases hs
  · exact hst.edited hkeeps (exec_edited h (by simpa using hs))

theorem Policy.typeToSid_congr (st : Policy) (h : st'.types = st.types) (name : String) :
    st'.typeToSid name = st.typeToSid name := by
  simp only [typeToSid, typeIndex, h]

theorem Policy.execRule_error (h : st.parseSidExpr cur src = .error rc) :
    st.execRule cur isNever src tgt classes perms = .error rc := by
  rw [execRule, h]
  rfl

theorem Policy.execRule_allow {s t : Nat} {perms : UInt32}
    (hsrc : st.parseSidExpr cur src = .ok (sset, hasSelf))
    (htgt : st.parseSidExpr cur tgt = .ok (tset, false)) (hsources : st.sids.filter sset.test = [s])
    (htargets : st.sids.filter tset.test = [t]) (hclass : classes.filterMap nameToSecclass = [c])
    (hperms : permsOf [c] names = perms) (hsome : perms ≠ 0) :
    st.execRule cur false src tgt classes names = .ok (st.allowSid s t c perms) := by
  have hall : SecClass.all.filter (· ∈ [c]) = [c] := by cases c <;> rfl
  simp only [execRule, hsrc, htgt, hclass, hperms, hsome, cons_ne_nil, or_self, if_false, hall,
    foldl_cons, foldl_nil, Bool.false_eq_true, allowSets, hsources, htargets, bind,
    Except.bind, pure, Except.pure]

theorem Policy.exec_rule_ok (h : st.execRule cur isNever src tgt classes perms = .ok st') :
    st.exec cur (.rule isNever src tgt classes perms) = .ok (cur, st') := by
  rw [exec, h]
  rfl

theorem Policy.exec_rule_error (h : st.execRule cur isNever src tgt classes perms = .error rc) :
    st.exec cur (.rule isNever src tgt classes perms) = .error rc := by
  rw [exec, h]
  rfl

theorem Policy.execAll_cons_ok (h : st.exec cur s = .ok (cur', st')) :
    execAll cur st (s :: ss) = execAll cur' st' ss := by
  rw [execAll, h]

theorem Policy.execAll_cons_error (h : st.exec cur s = .error rc) :
    execAll cur st (s :: ss) = (st, rc) := by
  rw [execAll, h]

theorem Policy.load_of_error (h : execAll .systemPublic st (statements text) = (st', rc))
    (hrc : rc ≠ 0) : (st.selinuxParseAndLoadPolicy text).1 = st' := by
  rw [selinuxParseAndLoadPolicy, h]
  exact congrArg Prod.fst (if_pos hrc)

theorem Policy.parseSidExpr_congr (st : Policy) (h : st'.types = st.types) (cur : Tier)
    (e : SidExpr) : st'.parseSidExpr cur e = st.parseSidExpr cur e := by
  have hname : st'.sidName cur = st.sidName cur := by
    funext acc tok
    simp only [sidName, sidSetAddAttr, sidSetDelAttr, sidsWith_congr h, typeToSid_congr st h,
      Policy.hidden, tierOf, h]
    rfl
  cases e with
  | none => rfl
  | some names => rw [parseSidExpr, parseSidExpr, hname]

theorem Policy.allowSid_av_self {perms : UInt32} (hs : ssid < maxSids) (ht : tsid < maxSids) :
    (st.allowSid ssid tsid tclass perms).av ssid tsid tclass =
      st.av ssid tsid tclass ||| perms := by
  simp [allowSid, hs, ht]

theorem or_and_eq_zero_right {a b m : UInt32} (h : (a ||| b) &&& m = 0) : b &&& m = 0 := by
  apply UInt32.toNat_inj.mp
  have hnat := congrArg UInt32.toNat h
  simp only [UInt32.toNat_and, UInt32.toNat_or, Nat.and_or_distrib_right] at hnat
  simpa using (Nat.or_eq_zero_iff.mp hnat).2

theorem perms_of_obeys_allowSid {perms : UInt32} (h : (st.allowSid ssid tsid tclass perms).Obeys r)
    (hs : ssid < maxSids) (ht : tsid < maxSids) (hcovers : r.covers ssid tsid = true)
    (hclass : tclass = r.tclass) : perms &&& r.perms = 0 := by
  subst hclass
  have hzero := h ssid tsid hcovers
  rw [allowSid_av_self hs ht] at hzero
  exact or_and_eq_zero_right hzero

/-- When a statement is refused, the statements since the last `@reset` broke no rule.  `clean` says
so of the statements before these. -/
def Settles (cur : Tier) (st : Policy) (clean : Prop) : List Statement → Prop
  | [] => True
  | s :: ss =>
    match st.exec cur s with
    | .error _ => clean
    | .ok (cur', st') => Settles cur' st' (s = .reset ∨ clean ∧ s.Keeps cur st) ss

theorem settles_of_error (h : st.exec cur s = .error rc) (hclean : clean) :
    Settles cur st clean (s :: ss) := by
  rw [Settles, h]
  exact hclean

theorem Policy.Shape.execAll (hst : st.Shape) : (execAll cur st ss).1.Shape := by
  induction ss generalizing cur st with
  | nil => exact hst
  | cons s ss ih =>
    rw [execAll]
    split
    · exact hst
    · rename_i hok
      exact ih (hst.exec hok)

theorem clean_execAll (hclean : clean → st.Clean) (h : Settles cur st clean ss)
    (hrc : (execAll cur st ss).2 ≠ 0) :
    (execAll cur st ss).1.Clean := by
  induction ss generalizing cur st clean with
  | nil => exact absurd rfl hrc
  | cons s ss ih =>
    rw [Settles] at h
    rw [execAll] at hrc ⊢
    cases hexec : st.exec cur s with
    | error rc =>
      rw [hexec] at h
      exact hclean h
    | ok next =>
      rw [hexec] at h hrc
      refine ih (fun hnext => ?_) h hrc
      obtain rfl | ⟨hc, hkeeps⟩ := hnext
      · obtain rfl := Except.ok.inj hexec
        exact seed_clean
      · exact (hclean hc).exec hkeeps hexec

def loadStep (st : Policy) (text : List Char) : Option Policy :=
  some (st.selinuxParseAndLoadPolicy text).1

def Settled (st : Policy) (text : List Char) : Prop :=
  Settles .systemPublic st True (statements text)

theorem Policy.Shape.load (hst : st.Shape) (text : List Char) :
    (st.selinuxParseAndLoadPolicy text).1.Shape := by
  simp only [selinuxParseAndLoadPolicy]
  split_ifs
  · exact hst.execAll
  · exact seed_shape
  · exact hst.execAll

theorem Policy.Clean.load (hshape : st.Shape) (hst : st.Clean) (hsettled : Settled st text) :
    (st.selinuxParseAndLoadPolicy text).1.Clean := by
  simp only [selinuxParseAndLoadPolicy]
  split_ifs with hrc hbroken
  · exact clean_execAll (fun _ => hst) hsettled hrc
  · exact seed_clean
  · exact hshape.execAll.verified_iff.mp (by simpa using hbroken)

/-- A grant on a service, and then an unknown type. -/
def grantThenBogus (perm : String) : List Statement :=
  [.rule false (some ["untrusted_app"]) (some ["fwupd_service"]) ["service_manager"] [perm],
    .rule false (some ["bogus"]) (some ["bogus"]) ["file"] ["read"]]

section

variable (htypes : st.types = baseTable.types)
include htypes

theorem sids_filter_base (f : Nat → Bool) : st.sids.filter f = baseTable.sids.filter f := by
  rw [sids, nrTypes, htypes]
  rfl

theorem exec_bogus : st.exec .systemPublic
    (.rule false (some ["bogus"]) (some ["bogus"]) ["file"] ["read"]) = .error (-einval) := by
  refine exec_rule_error (execRule_error ?_)
  rw [parseSidExpr_congr baseTable htypes]
  decide

end

section

variable {perm : String} {perms : UInt32} (hperm : permsOf [.serviceManager] [perm] = perms)
include hperm

theorem exec_grant (htypes : st.types = baseTable.types) (hsome : perms ≠ 0) :
    st.exec .systemPublic (.rule false (some ["untrusted_app"]) (some ["fwupd_service"])
      ["service_manager"] [perm]) =
      .ok (.systemPublic, st.allowSid 5 98 .serviceManager perms) := by
  have hsrc : st.parseSidExpr .systemPublic (some ["untrusted_app"]) =
      .ok (({} : SidSet).add 5, false) :=
    (parseSidExpr_congr baseTable htypes _ _).trans (by decide)
  have htgt : st.parseSidExpr .systemPublic (some ["fwupd_service"]) =
      .ok (({} : SidSet).add 98, false) :=
    (parseSidExpr_congr baseTable htypes _ _).trans (by decide)
  have hsids := sids_filter_base htypes
  exact exec_rule_ok (execRule_allow hsrc htgt ((hsids _).trans (by decide))
    ((hsids _).trans (by decide)) (by decide) hperm hsome)

theorem keeps_grant
    (hfree : ∀ r ∈ st.neverallows, .serviceManager ≠ r.tclass ∨ perms &&& r.perms = 0) :
    Statement.Keeps cur st (.rule false (some ["untrusted_app"]) (some ["fwupd_service"])
      ["service_manager"] [perm]) := by
  rintro e ⟨sset, hasSelf, tset, isSelf, -, -, he⟩
  cases e with
  | allow s t c p =>
    obtain ⟨-, hc, rfl, -⟩ := he
    obtain rfl : c = .serviceManager := mem_singleton.mp hc
    intro r hr
    simp only [permits, Bool.or_eq_true, decide_eq_true_eq]
    exact (hperm ▸ hfree r hr).imp_left .inl
  | never r => cases he.1
  | _ => exact he.elim

theorem load_grantThenBogus (hsome : perms ≠ 0) (htext : statements text = grantThenBogus perm) :
    (selinuxSeedBaselinePolicy.selinuxParseAndLoadPolicy text).1 =
      selinuxSeedBaselinePolicy.allowSid 5 98 .serviceManager perms := by
  have hrun : execAll .systemPublic selinuxSeedBaselinePolicy (statements text) =
      (selinuxSeedBaselinePolicy.allowSid 5 98 .serviceManager perms, -einval) := by
    rw [htext, grantThenBogus, execAll_cons_ok (exec_grant hperm seed_types hsome),
      execAll_cons_error (exec_bogus ((allowSid_types ..).trans seed_types))]
  exact load_of_error hrun (by decide)

end

/-- After every sequence of loads that meet the condition, the check of the rules passes. -/
theorem verified_of_loads (h : Reaches loadStep Settled selinuxSeedBaselinePolicy st) :
    st.selinuxVerifyNeverallows = 0 := by
  have hinv : st.Shape ∧ st.Clean := by
    refine h.invariant (P := fun st => st.Shape ∧ st.Clean) ⟨seed_shape, seed_clean⟩ ?_
    intro a text b ⟨hshape, hclean⟩ hsettled hb
    obtain rfl := Option.some.inj hb
    exact ⟨hshape.load text, hclean.load hshape hsettled⟩
  exact hinv.1.verified_iff.mpr hinv.2

/-- A grant that no rule forbids, and then an unknown type. -/
def settledRefusal : List Char :=
  "allow untrusted_app fwupd_service:service_manager list; allow bogus bogus:file read;".toList

theorem verified_after_settledRefusal : Settled selinuxSeedBaselinePolicy settledRefusal ∧
    (selinuxSeedBaselinePolicy.selinuxParseAndLoadPolicy settledRefusal).1 =
      selinuxSeedBaselinePolicy.allowSid 5 98 .serviceManager sepermSvcmgrList ∧
    (selinuxSeedBaselinePolicy.selinuxParseAndLoadPolicy
      settledRefusal).1.selinuxVerifyNeverallows = 0 := by
  have htext : statements settledRefusal = grantThenBogus "list" := by decide
  have hperm : permsOf [.serviceManager] ["list"] = sepermSvcmgrList := by decide
  have hfree : ∀ r ∈ baseRules, .serviceManager ≠ r.tclass ∨ sepermSvcmgrList &&& r.perms = 0 := by
    decide
  have hsettled : Settled selinuxSeedBaselinePolicy settledRefusal := by
    rw [Settled, htext, grantThenBogus, Settles, exec_grant hperm seed_types (by decide)]
    exact settles_of_error (exec_bogus ((allowSid_types ..).trans seed_types))
      (.inr ⟨trivial, keeps_grant hperm (seed_neverallows ▸ hfree)⟩)
  exact ⟨hsettled, load_grantThenBogus hperm (by decide) htext,
    verified_of_loads (.tail (i := settledRefusal) .refl hsettled rfl)⟩

/-- A grant that a rule of the baseline policy forbids, and then an unknown type. -/
def lateRefusal : List Char :=
  "allow untrusted_app fwupd_service:service_manager find; allow bogus bogus:file read;".toList

/-- The source checks the rules only at the end of a text: after a text that is refused at its
second statement, the tables grant what a rule of the baseline policy forbids. -/
theorem late_refusal_breaks_rule :
    (selinuxSeedBaselinePolicy.selinuxParseAndLoadPolicy lateRefusal).1.selinuxVerifyNeverallows ≠
      0 := by
  rw [Ne, (seed_shape.load lateRefusal).verified_iff]
  intro hclean
  have hrule : (⟨⟨0x20⟩, ⟨0x4a00000000000000000000000⟩, false, .serviceManager,
      sepermSvcmgrAdd ||| sepermSvcmgrFind⟩ : NeverallowRule) ∈ baseRules := by simp [baseRules]
  have htext : statements lateRefusal = grantThenBogus "find" := by decide
  have hperm : permsOf [.serviceManager] ["find"] = sepermSvcmgrFind := by decide
  rw [load_grantThenBogus hperm (by decide) htext] at hclean
  have hheld := hrule
  rw [← seed_neverallows, ← allowSid_neverallows 5 98 .serviceManager sepermSvcmgrFind] at hheld
  exact absurd (perms_of_obeys_allowSid (hclean.obeys _ hheld) (by decide) (by decide)
    (by decide) rfl) (by decide)

end Six.Selinux
