import Six.Selinux.Honoured

/-! The tiers of a policy text.  In the vendor tier no statement may name a type of the private
tier; `type`, `typeattribute`, `init_daemon_domain` and what is passed over are not checked for
it. -/

namespace Six.Selinux

open Policy List

/-- The type that a name in a set of types stands for, if it stands for one. -/
def typeName (tok : String) : Option String :=
  let name := (splitSign tok).2
  if name = "self" ∨ attrNamed name ≠ 0 then none else some name

namespace Statement

/-- The names that a statement has for `selinux_type_to_sid` to look up. -/
def typeNames : Statement → List String
  | .typeattribute name _ => [name]
  | .transition _ sname tname dname => [sname, tname, dname]
  | .initDaemonDomain dname => [dname, dname ++ "_exec"]
  | .skipped names => names
  | .rule _ src tgt _ _ | .xpermRule _ src tgt _ _ =>
    (src.getD [] ++ tgt.getD []).filterMap typeName
  | _ => []

/-- The statement names the type `t`.  SID 0 is what the lookup returns for an unknown name. -/
def Names (st : Policy) (s : Statement) (t : Nat) : Prop :=
  match s with
  | .type name _ => st.typeIndex name = some t
  | s => t ≠ 0 ∧ ∃ name ∈ s.typeNames, st.typeToSid name = t

def NamesPrivate (st : Policy) (s : Statement) : Prop :=
  ∃ t, s.Names st t ∧ st.tierOf t = some .systemPrivate

def unchecked : Statement → Bool
  | .type _ _ | .typeattribute _ _ | .initDaemonDomain _ | .skipped _ => true
  | _ => false

end Statement

/-- `s` is a statement of the text in the vendor tier, and `mid` is the policy when it is
reached. -/
def VendorStatement (st : Policy) (text : List Char) (s : Statement) (mid : Policy) : Prop :=
  ∃ pre post, statements text = pre ++ s :: post ∧
    execTo .systemPublic st pre = some (.vendor, mid)

/-- Every statement in the vendor tier that names a private type is refused, and the load ends there
with the tables as they are. -/
def TiersHold (st : Policy) (text : List Char) : Prop :=
  ∀ s mid, VendorStatement st text s mid → s.NamesPrivate mid →
    ∃ rc, mid.exec .vendor s = .error rc ∧ st.selinuxParseAndLoadPolicy text = (mid, rc)

variable {st st' mid : Policy} {cur cur' : Tier} {text : List Char} {s : Statement} {t : Nat}

theorem foldlM_each {α β : Type} {f : β → α → Except Int β} {l : List α} {b b' : β}
    (h : l.foldlM f b = .ok b') : ∀ x ∈ l, ∃ c c', f c x = .ok c' := by
  induction l generalizing b with
  | nil => simp
  | cons x l ih =>
    rw [foldlM_cons] at h
    obtain ⟨c, hfirst, hrest⟩ := bind_eq_ok h
    exact forall_mem_cons.mpr ⟨⟨b, c, hfirst⟩, ih hrest⟩

theorem sidName_visible
    (hok : st.sidName cur acc tok = .ok acc') (hname : typeName tok = some name) :
    st.hidden cur (st.typeToSid name) = false := by
  obtain ⟨htype, ⟨⟩⟩ := Option.ite_none_left_eq_some.mp hname
  obtain ⟨hself, hattr⟩ := not_or.mp htype
  have hstar : (splitSign tok).2 ≠ "*" := fun h => hattr (by rw [attrNamed, if_pos h]; decide)
  rw [attrNamed, if_neg hstar] at hattr
  simp only [sidName] at hok
  split_ifs at hok <;> simp_all

theorem parseSidExpr_visible {e : SidExpr} {r : SidSet × Bool} {name : String}
    (hok : st.parseSidExpr cur e = .ok r) (hname : name ∈ (e.getD []).filterMap typeName) :
    st.hidden cur (st.typeToSid name) = false := by
  cases e with
  | none => cases hok
  | some names =>
    obtain ⟨tok, htok, hname⟩ := mem_filterMap.mp hname
    obtain ⟨acc, acc', hstep⟩ := foldlM_each hok tok htok
    exact sidName_visible hstep hname

theorem exec_visible (hok : st.exec cur s = .ok (cur', st')) (hchecked : s.unchecked = false)
    (hname : name ∈ s.typeNames) : st.hidden cur (st.typeToSid name) = false := by
  cases s with
  | transition isMacro sname tname dname =>
    obtain ⟨_, hok, -⟩ := map_eq_ok hok
    simp only [execTransition] at hok
    split_ifs at hok with hzero hhidden
    all_goals
      simp only [not_or, Bool.not_eq_true] at hhidden
      simp only [Statement.typeNames, mem_cons, not_mem_nil, or_false] at hname
      rcases hname with rfl | rfl | rfl
      exacts [hhidden.1, hhidden.2.1, hhidden.2.2]
  | rule isNever src tgt classes perms =>
    obtain ⟨_, hok, -⟩ := map_eq_ok hok
    obtain ⟨_, _, _, _, hsrc, htgt, -⟩ := execRule_ok hok
    rw [Statement.typeNames, filterMap_append, mem_append] at hname
    exact hname.elim (parseSidExpr_visible hsrc) (parseSidExpr_visible htgt)
  | xpermRule isNever src tgt tclass ranges =>
    obtain ⟨_, hok, -⟩ := map_eq_ok hok
    obtain ⟨_, hsrc, hok⟩ := bind_eq_ok hok
    obtain ⟨_, htgt, -⟩ := bind_eq_ok hok
    rw [Statement.typeNames, filterMap_append, mem_append] at hname
    exact hname.elim (parseSidExpr_visible hsrc) (parseSidExpr_visible htgt)
  | tier | reset => cases hname
  | _ => cases hchecked

theorem exec_namesPrivate (hchecked : s.unchecked = false) (hnames : s.NamesPrivate st) :
    ∃ rc, st.exec .vendor s = .error rc := by
  obtain ⟨t, hnames, hprivate⟩ := hnames
  obtain ⟨name, hname, rfl⟩ : ∃ name ∈ s.typeNames, st.typeToSid name = t := by
    cases s with
    | type => cases hchecked
    | _ => exact hnames.2
  cases hexec : st.exec .vendor s with
  | error rc => exact ⟨rc, rfl⟩
  | ok r =>
    have hvisible := exec_visible hexec hchecked hname
    simp [Policy.hidden, hprivate] at hvisible

theorem execAll_append (h : execTo cur st pre = some (cur', st')) :
    execAll cur st (pre ++ ss) = execAll cur' st' ss := by
  induction pre generalizing cur st with
  | nil =>
    cases h
    rfl
  | cons s pre ih =>
    obtain ⟨next, hexec, h⟩ := execTo_cons h
    rw [cons_append, execAll_cons_ok hexec]
    exact ih h

theorem VendorStatement.load (h : VendorStatement st text s mid)
    (hexec : mid.exec .vendor s = .error rc) : st.selinuxParseAndLoadPolicy text = (mid, rc) := by
  obtain ⟨pre, post, htext, hpre⟩ := h
  rw [selinuxParseAndLoadPolicy, htext, execAll_append hpre, execAll_cons_error hexec]
  exact if_pos (exec_error hexec)

/-- The tiers hold in a text exactly when no `type`, `typeattribute`, `init_daemon_domain` or
statement that is passed over in the vendor tier names a type that is private when it is reached. -/
theorem tiers_hold_iff (st : Policy) (text : List Char) :
    TiersHold st text ↔
      ∀ s mid, VendorStatement st text s mid → s.unchecked = true → ¬ s.NamesPrivate mid := by
  constructor
  · intro h s mid hs hunchecked hnames
    obtain ⟨rc, hexec, -⟩ := h s mid hs hnames
    cases s with
    | type | typeattribute | initDaemonDomain | skipped => cases hexec
    | _ => cases hunchecked
  · intro h s mid hs hnames
    have hchecked : s.unchecked = false :=
      Bool.eq_false_iff.mpr fun hunchecked => h s mid hs hunchecked hnames
    obtain ⟨rc, hexec⟩ := exec_namesPrivate hchecked hnames
    exact ⟨rc, hexec, hs.load hexec⟩

def vendorHttpd : List Char := "@tier vendor typeattribute httpd mlstrustedsubject;".toList

/-- The vendor policy gives a private domain another attribute. -/
theorem vendor_extends_private_type : ¬ TiersHold selinuxSeedBaselinePolicy vendorHttpd := by
  intro h
  obtain ⟨rc, hexec, -⟩ := h (.typeattribute "httpd" ["mlstrustedsubject"]) _
    ⟨[.tier "vendor"], [], by decide, rfl⟩
    ⟨14, ⟨by decide, "httpd", by decide, by
      simp only [typeToSid, typeIndex, seed_types]
      decide⟩, by
      rw [tierOf, seed_types]
      decide⟩
  cases hexec

end Six.Selinux
