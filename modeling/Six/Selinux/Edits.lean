import Six.Lib.Run
import Six.Selinux.Verified

/-! What a statement of a policy text does, as a run of single edits of the tables, each of them
measured against the rules held (`Obeys`, `XpermsAgree`). -/

namespace Six.Selinux

open Errno Lib Policy List

inductive Edit
  | allow (ssid tsid : Nat) (tclass : SecClass) (perms : UInt32)
  | xperm (rule : XpermRule)
  | trans (ssid tsid : Nat) (tclass : SecClass) (newSid : Nat)
  | never (rule : NeverallowRule)

def Edit.run (st : Policy) : Edit → Policy
  | .allow ssid tsid tclass perms => st.allowSid ssid tsid tclass perms
  | .xperm r => st.addXperm r.ssid r.tsid r.tclass r.lo r.hi r.isNeverallow
  | .trans ssid tsid tclass newSid => st.addTrans ssid tsid tclass newSid
  | .never r => st.addNeverallow r

def Edited (P : Edit → Prop) : Policy → Policy → Prop :=
  Reaches (fun st e => some (Edit.run st e)) fun _ e => P e

variable {st st' st'' : Policy} {P : Edit → Prop} {sset tset : SidSet} {α β : Type}
  {r : NeverallowRule} {isNever isSelf : Bool} {cur : Tier} {e : Edit} {src tgt : SidExpr}
  {classes ranges names : List String} {acc' : SidSet × Bool} {x : Except Int α} {tok : String}
  {s : Nat} {b : β}

namespace Edited

theorem refl : Edited P st st := Reaches.refl

theorem trans (h : Edited P st st') (h' : Edited P st' st'') : Edited P st st'' :=
  Reaches.trans h h'

theorem edit (he : P e) : Edited P st (e.run st) := Reaches.tail .refl he rfl

theorem mono {Q : Edit → Prop} (h : Edited P st st') (hPQ : ∀ e, P e → Q e) : Edited Q st st' :=
  Reaches.mono h fun _ e => hPQ e

theorem foldl {α : Type} {f : Policy → α → Policy} {l : List α}
    (h : ∀ st, ∀ x ∈ l, Edited P st (f st x)) : Edited P st (l.foldl f st) := by
  induction l generalizing st with
  | nil => exact refl
  | cons x l ih => exact (h st x (by simp)).trans (ih fun st' y hy => h st' y (by simp [hy]))

theorem invariant {Q : Policy → Prop} (h : Edited P st st') (init : Q st)
    (preserved : ∀ a e, Q a → P e → Q (e.run a)) : Q st' :=
  Reaches.invariant h init fun a e b hQ hP hb => by
    obtain rfl : e.run a = b := by simpa using hb
    exact preserved a e hQ hP

end Edited

theorem Policy.addNeverallow_eq (r : NeverallowRule) :
    st.addNeverallow r = { st with neverallows := (st.addNeverallow r).neverallows } := by
  unfold addNeverallow
  split_ifs <;> rfl

theorem Edit.run_types (e : Edit) : (e.run st).types = st.types := by
  cases e with
  | allow ssid tsid tclass perms => exact allowSid_types ..
  | xperm r => exact addXperm_types ..
  | trans ssid tsid tclass newSid => exact addTrans_types ..
  | never r => rw [Edit.run, addNeverallow_eq]

theorem Edited.types_eq (h : Edited P st st') : st'.types = st.types :=
  h.invariant (Q := fun a => a.types = st.types) rfl fun _ e ha _ => e.run_types.trans ha

theorem Edit.mem_run_neverallows (h : r ∈ (e.run st).neverallows) :
    r ∈ st.neverallows ∨ e = .never r := by
  cases e with
  | never r' =>
    simp only [Edit.run, addNeverallow] at h
    split_ifs at h
    · obtain h | h := mem_append.mp h
      · exact .inl h
      · exact .inr (by rw [mem_singleton.mp h])
    · exact .inl h
  | _ => exact .inl (by simpa [Edit.run] using h)

theorem Edit.subset_run_neverallows (e : Edit) : st.neverallows ⊆ (e.run st).neverallows := by
  cases e with
  | never r' =>
    simp only [Edit.run, addNeverallow]
    split_ifs
    · exact subset_append_left ..
    · exact List.Subset.refl _
  | _ => simp [Edit.run]

theorem Edited.subset_neverallows (h : Edited P st st') : st.neverallows ⊆ st'.neverallows :=
  h.invariant (Q := fun a => st.neverallows ⊆ a.neverallows) (List.Subset.refl _)
    fun _ e ha _ => List.Subset.trans ha e.subset_run_neverallows

theorem Edited.mem_neverallows (h : Edited P st st') (hr : r ∈ st'.neverallows) :
    r ∈ st.neverallows ∨ P (.never r) := by
  refine h.invariant (Q := fun a => ∀ r ∈ a.neverallows, r ∈ st.neverallows ∨ P (.never r))
    (fun r hr => .inl hr) (fun a e ha hP r hr => ?_) r hr
  obtain hr | rfl := Edit.mem_run_neverallows hr
  · exact ha r hr
  · exact .inr hP

theorem Edit.mem_run_xperms {x : XpermRule} (h : x ∈ (e.run st).xperms) :
    x ∈ st.xperms ∨ e = .xperm x := by
  cases e with
  | xperm x' =>
    simp only [Edit.run, addXperm_xperms] at h
    split_ifs at h
    · obtain h | h := mem_append.mp h
      · exact .inl h
      · exact .inr (by rw [mem_singleton.mp h])
    · exact .inl h
  | never r =>
    rw [Edit.run, addNeverallow_eq] at h
    exact .inl h
  | _ => exact .inl (by simpa [Edit.run] using h)

theorem Edited.mem_xperms {x : XpermRule} (h : Edited P st st') (hx : x ∈ st'.xperms) :
    x ∈ st.xperms ∨ P (.xperm x) := by
  refine h.invariant (Q := fun a => ∀ x ∈ a.xperms, x ∈ st.xperms ∨ P (.xperm x))
    (fun x hx => .inl hx) (fun a e ha hP x hx => ?_) x hx
  obtain hx | rfl := Edit.mem_run_xperms hx
  · exact ha x hx
  · exact .inr hP

def Edit.Permits (r : NeverallowRule) : Edit → Prop
  | .allow ssid tsid tclass perms => permits r ssid tsid tclass perms = true
  | _ => True

theorem Edit.run_obeys (h : st.Obeys r) (he : e.Permits r) : (e.run st).Obeys r := by
  cases e with
  | allow ssid tsid tclass perms => exact obeys_allowSid h he
  | xperm x =>
    intro s t hcovers
    rw [Edit.run, addXperm_av]
    exact h s t hcovers
  | trans ssid tsid tclass newSid =>
    intro s t hcovers
    rw [Edit.run, addTrans_av]
    exact h s t hcovers
  | never r' =>
    intro s t hcovers
    rw [Edit.run, addNeverallow_eq]
    exact h s t hcovers

theorem Edited.obeys (h : Edited P st st') (hobeys : st.Obeys r) (hP : ∀ e, P e → e.Permits r) :
    st'.Obeys r :=
  h.invariant (Q := fun a => a.Obeys r) hobeys fun _ e ha he => Edit.run_obeys ha (hP e he)

namespace Policy

variable {set : SidSet} {cur : Tier}

theorem Within.add (h : st.Within set) (hs : 1 ≤ s ∧ s < st.nrTypes) : st.Within (set.add s) := by
  intro i hi
  rw [SidSet.test_add, Bool.or_eq_true, decide_eq_true_eq] at hi
  obtain hi | ⟨rfl, -⟩ := hi
  · exact h i hi
  · exact hs

theorem Within.del (h : st.Within set) (s : Nat) : st.Within (set.del s) := by
  intro i hi
  rw [SidSet.test_del, Bool.and_eq_true] at hi
  exact h i hi.1

theorem within_empty : st.Within {} := by
  intro s hs
  rw [SidSet.test_empty] at hs
  cases hs

theorem Within.foldl {l : List Nat} (h : st.Within set)
    (hf : ∀ set, st.Within set → ∀ s ∈ l, st.Within (f set s)) : st.Within (l.foldl f set) := by
  induction l generalizing set with
  | nil => exact h
  | cons s l ih =>
    exact ih (hf set h s (by simp)) fun set' h' s' hs' => hf set' h' s' (by simp [hs'])

theorem mem_sidsWith (h : s ∈ st.sidsWith attr) : 1 ≤ s ∧ s < st.nrTypes :=
  mem_sids.mp (mem_filter.mp h).1

theorem Within.addAttr (h : st.Within set) (attr : UInt32) :
    st.Within (st.sidSetAddAttr set attr) :=
  h.foldl fun _ hset _ hs => hset.add (mem_sidsWith hs)

theorem typeToSid_lt (hbase : 99 ≤ st.nrTypes) (name : String) :
    st.typeToSid name < st.nrTypes := by
  have hselinuxfs : sid .selinuxfs < 99 := by decide
  have hsuspend : sid .suspendService < 99 := by decide
  unfold typeToSid
  split_ifs
  · omega
  · omega
  · omega
  · cases hindex : st.typeIndex name with
    | none =>
      rw [Option.getD_none]
      omega
    | some i =>
      rw [Option.getD_some]
      exact (findIdx?_eq_some_iff_getElem.mp hindex).1

theorem sidName_within {acc : SidSet × Bool} (hbase : 99 ≤ st.nrTypes) (h : st.Within acc.1)
    (hok : st.sidName cur acc tok = .ok acc') : st.Within acc'.1 := by
  have hlt := typeToSid_lt hbase (splitSign tok).2
  simp only [sidName] at hok
  split_ifs at hok <;> simp only [Except.ok.injEq] at hok <;> subst hok
  · exact h
  · exact h.addAttr _
  · exact h.foldl fun _ hset s _ => hset.del s
  · exact h.addAttr _
  · exact h.del _
  · exact h.add (by omega)

theorem foldlM_sidName_within (acc : SidSet × Bool) (hbase : 99 ≤ st.nrTypes) (h : st.Within acc.1)
    (hok : names.foldlM (st.sidName cur) acc = .ok acc') : st.Within acc'.1 := by
  induction names generalizing acc with
  | nil =>
    obtain rfl : acc = acc' := by simpa [pure, Except.pure] using hok
    exact h
  | cons tok names ih =>
    rw [foldlM_cons] at hok
    cases hname : st.sidName cur acc tok with
    | error rc => simp [hname, bind, Except.bind] at hok
    | ok next =>
      rw [hname] at hok
      exact ih next (sidName_within hbase h hname) hok

theorem parseSidExpr_within {e : SidExpr} (hbase : 99 ≤ st.nrTypes)
    (hok : st.parseSidExpr cur e = .ok (set, isSelf)) : st.Within set := by
  cases e with
  | none => simp [parseSidExpr] at hok
  | some names => exact foldlM_sidName_within ({}, false) hbase within_empty hok

end Policy

def ruleEdit (isNever : Bool) (sset tset : SidSet) (isSelf : Bool) (named : List SecClass)
    (perms : UInt32) : Edit → Prop
  | .allow s t c p => isNever = false ∧ c ∈ named ∧ p = perms ∧ sset.test s = true ∧
      (tset.test t = true ∨ isSelf = true ∧ t = s)
  | .never r => isNever = true ∧ r.tclass ∈ named ∧ r = ⟨sset, tset, isSelf, r.tclass, perms⟩
  | _ => False

def xpermEdit (isNever : Bool) (sset tset : SidSet) (tclass : Option SecClass)
    (ranges : List String) : Edit → Prop
  | .xperm x => x.isNeverallow = isNever ∧ sset.test x.ssid = true ∧ tset.test x.tsid = true ∧
      x.tclass = tclass ∧ ∃ tok ∈ ranges, (x.lo, x.hi) = xpermRange tok
  | _ => False

def autoTransEdits (parentDom execSid childDom : Nat) : List Edit :=
  [.trans parentDom execSid .process childDom, .allow parentDom execSid .file
      (sepermRead ||| sepermOpen ||| sepermExecute ||| sepermGetattr),
    .allow parentDom childDom .process
      (sepermProcTransition ||| sepermProcSigchld ||| sepermProcSigkill ||| sepermProcSigstop |||
        sepermProcSignal), .allow childDom parentDom .process sepermProcSigchld,
    .allow childDom parentDom .fd sepermUse, .allow childDom execSid .file
      (sepermRead ||| sepermOpen ||| sepermExecute ||| sepermGetattr ||| sepermEntrypoint)]

def Statement.Edits (cur : Tier) (st : Policy) : Statement → Edit → Prop
  | .rule isNever src tgt classes perms, e =>
    ∃ sset hasSelf tset isSelf, st.parseSidExpr cur src = .ok (sset, hasSelf) ∧
      st.parseSidExpr cur tgt = .ok (tset, isSelf) ∧
      ruleEdit isNever sset tset isSelf (classes.filterMap nameToSecclass)
        (permsOf (classes.filterMap nameToSecclass) perms) e
  | .xpermRule isNever src tgt tclass ranges, e =>
    ∃ sset hasSelf tset isSelf, st.parseSidExpr cur src = .ok (sset, hasSelf) ∧
      st.parseSidExpr cur tgt = .ok (tset, isSelf) ∧
      xpermEdit isNever sset tset (nameToSecclass tclass) ranges e
  | .transition isMacro sname tname dname, e =>
    st.typeToSid sname ≠ 0 ∧ st.typeToSid tname ≠ 0 ∧ st.typeToSid dname ≠ 0 ∧
      if isMacro then
        e ∈ autoTransEdits (st.typeToSid sname) (st.typeToSid tname) (st.typeToSid dname)
      else e = .trans (st.typeToSid sname) (st.typeToSid tname) .process (st.typeToSid dname)
  | .initDaemonDomain dname, e =>
    st.typeToSid dname ≠ 0 ∧ st.typeToSid (dname ++ "_exec") ≠ 0 ∧
      e ∈ autoTransEdits (sid .init) (st.typeToSid (dname ++ "_exec")) (st.typeToSid dname)
  | _, _ => False

def Statement.declares : Statement → Bool
  | .reset | .type .. | .typeattribute .. => true
  | _ => false

theorem edited_allowSets {c : SecClass} {perms : UInt32} (hc : c ∈ named) :
    Edited (ruleEdit false sset tset isSelf named perms) st
      (st.allowSets sset tset isSelf c perms) := by
  refine Edited.foldl fun a s hs => ?_
  have hsrc : sset.test s = true := (mem_filter.mp hs).2
  have htargets : ∀ b : Policy, Edited (ruleEdit false sset tset isSelf named perms) b
      ((b.sids.filter tset.test).foldl (fun st t => st.allowSid s t c perms) b) := by
    intro b
    refine Edited.foldl fun b' t ht => Edited.edit (e := .allow s t c perms) ?_
    exact ⟨rfl, hc, rfl, hsrc, .inl (mem_filter.mp ht).2⟩
  cases isSelf with
  | false => exact htargets a
  | true =>
    have hself : Edited (ruleEdit false sset tset true named perms) a (a.allowSid s s c perms) :=
      Edited.edit (e := .allow s s c perms) ⟨rfl, hc, rfl, hsrc, .inr ⟨rfl, rfl⟩⟩
    exact hself.trans (htargets _)

theorem edited_addXpermSets {tclass : Option SecClass} (htok : tok ∈ ranges) :
    Edited (xpermEdit isNever sset tset tclass ranges) st
      (st.addXpermSets sset tset tclass isNever (xpermRange tok)) := by
  refine Edited.foldl fun a s hs => Edited.foldl fun b t ht => ?_
  refine Edited.edit
    (e := .xperm ⟨s, t, tclass, isNever, (xpermRange tok).1, (xpermRange tok).2⟩) ?_
  exact ⟨rfl, (mem_filter.mp hs).2, (mem_filter.mp ht).2, rfl, tok, htok, rfl⟩

theorem bind_eq_ok (h : x >>= f = .ok b) : ∃ a, x = .ok a ∧ f a = .ok b := by
  cases x with
  | error rc => cases h
  | ok a => exact ⟨a, rfl, h⟩

theorem map_eq_ok (h : x.map f = .ok b) : ∃ a, x = .ok a ∧ f a = b := by
  cases x with
  | error rc => cases h
  | ok a => exact ⟨a, rfl, by simpa [Except.map] using h⟩

theorem execRule_ok (h : st.execRule cur isNever src tgt classes names = .ok st') :
    ∃ sset hasSelf tset isSelf, st.parseSidExpr cur src = .ok (sset, hasSelf) ∧
      st.parseSidExpr cur tgt = .ok (tset, isSelf) ∧
      let named := classes.filterMap nameToSecclass
      let perms := permsOf named names
      st' = if named = [] ∨ perms = 0 then st
        else (SecClass.all.filter (· ∈ named)).foldl (fun st tclass =>
          if isNever then st.addNeverallow { src := sset, tgt := tset, isSelf, tclass, perms }
          else st.allowSets sset tset isSelf tclass perms) st := by
  unfold execRule at h
  obtain ⟨⟨sset, hasSelf⟩, hsrc, h⟩ := bind_eq_ok h
  obtain ⟨⟨tset, isSelf⟩, htgt, h⟩ := bind_eq_ok h
  refine ⟨sset, hasSelf, tset, isSelf, hsrc, htgt, ?_⟩
  dsimp only at h ⊢
  split at h
  · rename_i hnone
    rw [if_pos hnone]
    exact (Except.ok.inj h).symm
  · rename_i hsome
    rw [if_neg hsome]
    exact (Except.ok.inj h).symm

theorem edited_execRule {perms : List String}
    (h : st.execRule cur isNever src tgt classes perms = .ok st') :
    Edited ((Statement.rule isNever src tgt classes perms).Edits cur st) st st' := by
  obtain ⟨sset, hasSelf, tset, isSelf, hsrc, htgt, rfl⟩ := execRule_ok h
  split
  · exact .refl
  · refine Edited.mono (P := ruleEdit isNever sset tset isSelf _ _) (Edited.foldl fun a c hc => ?_)
      fun e he => ⟨sset, hasSelf, tset, isSelf, hsrc, htgt, he⟩
    have hnamed : c ∈ classes.filterMap nameToSecclass := by
      simpa using (mem_filter.mp hc).2
    cases isNever with
    | false => exact edited_allowSets hnamed
    | true => exact Edited.edit (e := .never ⟨sset, tset, isSelf, c, _⟩) ⟨rfl, hnamed, rfl⟩

theorem edited_execXpermRule {tclass : String}
    (h : st.execXpermRule cur isNever src tgt tclass ranges = .ok st') :
    Edited ((Statement.xpermRule isNever src tgt tclass ranges).Edits cur st) st st' := by
  unfold execXpermRule at h
  obtain ⟨⟨sset, hasSelf⟩, hsrc, h⟩ := bind_eq_ok h
  obtain ⟨⟨tset, isSelf⟩, htgt, h⟩ := bind_eq_ok h
  obtain rfl := Except.ok.inj h
  exact Edited.mono (Edited.foldl fun a tok htok => edited_addXpermSets htok)
    fun e he => ⟨sset, hasSelf, tset, isSelf, hsrc, htgt, he⟩

theorem edited_autoTrans {P : Edit → Prop} (parentDom execSid childDom : Nat)
    (h : ∀ e ∈ autoTransEdits parentDom execSid childDom, P e) :
    Edited P st (st.addDomainAutoTrans parentDom execSid childDom) := by
  exact Edited.foldl fun a e he => Edited.edit (h e he)

theorem exec_edited {s : Statement} (h : st.exec cur s = .ok (cur', st'))
    (hs : s.declares = false) : Edited (s.Edits cur st) st st' := by
  cases s with
  | tier | skipped =>
    cases h
    exact .refl
  | transition isMacro sname tname dname =>
    obtain ⟨a, ha, hmap⟩ := map_eq_ok h
    obtain ⟨-, rfl⟩ := Prod.mk.inj hmap
    simp only [execTransition] at ha
    split_ifs at ha with hzero hhidden hmacro
    · obtain rfl := Except.ok.inj ha
      rw [not_or, not_or] at hzero
      exact edited_autoTrans _ _ _ fun e he =>
        ⟨hzero.1, hzero.2.1, hzero.2.2, by rwa [if_pos hmacro]⟩
    · obtain rfl := Except.ok.inj ha
      rw [not_or, not_or] at hzero
      exact Edited.edit (e := .trans _ _ _ _) ⟨hzero.1, hzero.2.1, hzero.2.2, by rw [if_neg hmacro]⟩
  | initDaemonDomain dname =>
    cases h
    simp only [execInitDaemon]
    split_ifs with hzero
    · exact .refl
    · rw [not_or] at hzero
      exact edited_autoTrans _ _ _ fun e he => ⟨hzero.1, hzero.2, he⟩
  | rule isNever src tgt classes perms =>
    obtain ⟨a, ha, hmap⟩ := map_eq_ok h
    obtain ⟨-, rfl⟩ := Prod.mk.inj hmap
    exact edited_execRule ha
  | xpermRule isNever src tgt tclass ranges =>
    obtain ⟨a, ha, hmap⟩ := map_eq_ok h
    obtain ⟨-, rfl⟩ := Prod.mk.inj hmap
    exact edited_execXpermRule ha
  | _ => cases hs

end Six.Selinux
