import Six.Selinux.Verified

/-! The domain of a task after `selinux_bprm_transition`, which goes by the label of the path where
that is the type of an executable. -/

namespace Six.Selinux

open Errno Policy

abbrev Sid := Fin 128

/-- `sec_sid` and `sec_exec_sid` of a task, 0 for none. -/
structure TaskSec where
  secSid : Sid
  secExecSid : Sid

/-- The state that the functions read.  Every SID is an index of `type_table`; `tasks` has the pid
and the SID of each task. -/
structure SecState where
  initialized : Bool
  enforcing : Bool
  policy : Policy
  tasks : List (UInt32 × Sid)
  trans_lt : ∀ r ∈ policy.trans, r.newSid < maxSids
  contexts_lt : ∀ c ∈ policy.fileContexts, c.sid < maxSids

def orKernel (s : Sid) : Sid := if s = 0 then ⟨sid .kernel, by decide⟩ else s

/-- `norm_buf` has room for 90 characters behind `/bin/`. -/
def normalise (path : List Char) : List Char :=
  let bin (n : Nat) := "/bin/".toList ++ (path.drop n).take 90
  if "/bin-sarthak/".toList.isPrefixOf path then bin 13
  else if "/system/bin-sarthak/".toList.isPrefixOf path then bin 20
  else if "/system/bin/".toList.isPrefixOf path then bin 12
  else path

def pidOf (digits : List Char) : UInt32 :=
  digits.foldl (fun n c => n * 10 + UInt32.ofNat (c.toNat - '0'.toNat)) 0

def FileContext.labels (c : FileContext) (path : List Char) : Bool :=
  let pat := c.pattern.toList
  if c.exact then path = pat
  else pat.isPrefixOf path && (path[pat.length]? = none || path[pat.length]? = some '/' ||
    "/dev/".toList.isPrefixOf pat)

namespace SecState

variable (s : SecState) (t : TaskSec)

def procSid (path : List Char) : Option (Sid) :=
  let p := path.drop 6
  if !"/proc/".toList.isPrefixOf path then none
  else if (p.head?.any Char.isDigit) then
    (s.tasks.find? (·.1 = pidOf (p.takeWhile Char.isDigit))).map (orKernel ·.2)
  else if "self".toList.isPrefixOf p ∧ (p[4]? = none ∨ p[4]? = some '/') ∧ t.secSid ≠ 0 then
    some t.secSid
  else none

def contextSid (path : List Char) : Sid :=
  match h : s.policy.fileContexts.find? (·.labels path) with
  | some c => ⟨c.sid, s.contexts_lt c (List.mem_of_find?_eq_some h)⟩
  | none => ⟨sid .systemFile, by decide⟩

def matchPathSid (path : List Char) : Sid :=
  if path = [] then ⟨sid .unlabeled, by decide⟩
  else if path ∈ ["/bin-sarthak", "/system/bin-sarthak", "/system/bin"].map String.toList then
    ⟨sid .systemFile, by decide⟩
  else (s.procSid t (normalise path)).getD (s.contextSid (normalise path))

end SecState

/-- A regular file: its entry in `inode_sec_table`, with `explicit_label`, and whether there is room
for one, `i_sec_sid`, whether it lies on procfs, pstorefs or fuse, and the label that
`selinux_inode_sid` gives it for its superblock and device.  An explicit label is not 0. -/
structure ExecInode where
  isec : Option (Sid × Bool)
  room : Bool
  secSid : Sid
  dynamic : Bool
  derived : Sid

def ExecInode.sid (i : ExecInode) : Sid :=
  let cached := if i.secSid ≠ 0 then i.secSid else i.derived
  match i.isec with
  | some (s, _) => if s ≠ 0 then s else cached
  | none => cached

namespace SecState

variable (s : SecState) (t : TaskSec) (i : ExecInode) (filename : List Char)

def labelInodePath : ExecInode :=
  let path := s.matchPathSid t filename
  if filename = [] then i
  else if i.dynamic then { i with secSid := ExecInode.sid { i with secSid := 0 } }
  else match i.isec with
    | some (own, true) => { i with secSid := own }
    | _ =>
      if filename.head? = some '/' then
        { i with
          isec := if i.isec.isSome || i.room then some (path, false) else none
          secSid := path }
      else { i with secSid := i.sid }

def checkAccess (ssid tsid : Sid) (tclass : SecClass) (perms : UInt32) : Int :=
  let ssid := if ssid = 0 then orKernel t.secSid else ssid
  if !s.initialized || perms &&& ~~~s.policy.av ssid tsid tclass = 0 then 0
  else if s.enforcing then -eacces else 0

def execLabel : Sid :=
  let path := s.matchPathSid t filename
  if filename.head? = some '/' ∧ path ≠ 0 ∧ s.policy.hasAttr path attrExecType then path
  else (s.labelInodePath t i filename).sid

/-- The path stands in for the label of the file: this does not come from its path, and the file
contexts give the absolute path the type of an executable. -/
def pathDecides : Bool :=
  let path := s.matchPathSid t filename
  (i.dynamic || i.isec.any (·.2)) &&
    decide (filename.head? = some '/' ∧ path ≠ 0 ∧ s.policy.hasAttr path attrExecType)

/-- The label of the executed file itself, or of the path that stands in for it. -/
def entryLabel : Sid :=
  if s.pathDecides t i filename then s.matchPathSid t filename
  else (s.labelInodePath t i filename).sid

def transRule (tsid : Sid) : Option TransRule :=
  s.policy.trans.find? fun r => r.ssid = orKernel t.secSid ∧ r.tsid = tsid ∧ r.tclass = .process

def newSid (tsid : Sid) : Sid :=
  if t.secExecSid ≠ 0 then t.secExecSid
  else match h : s.transRule t tsid with
    | some r => ⟨r.newSid, s.trans_lt r (List.mem_of_find?_eq_some h)⟩
    | none => 0

/-- The result, and the task.  The file is left as `labelInodePath` labels it. -/
def bprmTransition : Int × TaskSec :=
  let old := orKernel t.secSid
  let tsid := s.execLabel t i filename
  let new := s.newSid t tsid
  let rc := s.checkAccess t old tsid .file (sepermRead ||| sepermOpen ||| sepermExecute)
  let rcTrans := s.checkAccess t old new .process sepermProcTransition
  let rcEntry := s.checkAccess t new tsid .file sepermEntrypoint
  let rcUse := s.checkAccess t new old .fd sepermUse
  let rcExec := s.checkAccess t old tsid .file sepermExecuteNoTrans
  if !s.initialized then (0, t)
  else if rc ≠ 0 then (rc, t)
  else if new ≠ 0 ∧ new ≠ old then
    if rcTrans ≠ 0 then (rcTrans, t)
    else if rcEntry ≠ 0 then (rcEntry, t)
    else if rcUse ≠ 0 then (rcUse, t)
    else (0, ⟨new, 0⟩)
  else if rcExec ≠ 0 then (rcExec, t)
  else (0, { t with secExecSid := 0 })

end SecState

def Policy.Grants (st : Policy) (ssid tsid : Nat) (tclass : SecClass) (perms : UInt32) : Prop :=
  perms &&& ~~~st.av ssid tsid tclass = 0

namespace SecState

variable {s : SecState} {t : TaskSec} {i : ExecInode} {filename : List Char}
  {ssid tsid old new : Sid}

theorem grants_of_checkAccess
    (hinit : s.initialized = true) (henforcing : s.enforcing = true) (hssid : ssid ≠ 0)
    (h : s.checkAccess t ssid tsid tclass perms = 0) : s.policy.Grants ssid tsid tclass perms := by
  by_contra hmissing
  have hdenied : perms &&& ~~~s.policy.av ssid tsid tclass ≠ 0 := hmissing
  simp [checkAccess, hinit, henforcing, hssid, hdenied, eacces] at h

theorem bprmTransition_cases (s : SecState) (t : TaskSec) (i : ExecInode) (filename : List Char) :
    (s.bprmTransition t i filename).2.secSid = t.secSid ∨
    s.initialized = true ∧ s.newSid t (s.execLabel t i filename) ≠ 0 ∧
      s.checkAccess t (orKernel t.secSid) (s.newSid t (s.execLabel t i filename)) .process
        sepermProcTransition = 0 ∧
      s.checkAccess t (s.newSid t (s.execLabel t i filename)) (s.execLabel t i filename) .file
        sepermEntrypoint = 0 ∧
      (s.bprmTransition t i filename).2.secSid = s.newSid t (s.execLabel t i filename) := by
  simp only [bprmTransition]
  split_ifs with hoff hrc hnew htrans hentry huse hexec
  · exact .inl rfl
  · exact .inl rfl
  · exact .inl rfl
  · exact .inl rfl
  · exact .inl rfl
  · exact .inr ⟨by simpa using hoff, hnew.1, not_not.mp htrans, not_not.mp hentry, rfl⟩
  · exact .inl rfl
  · exact .inl rfl

theorem orKernel_ne_zero (sid : Sid) : orKernel sid ≠ 0 := by
  unfold orKernel
  split_ifs with h
  · decide
  · exact h

theorem execLabel_eq (s : SecState) (t : TaskSec) (i : ExecInode) (filename : List Char) :
    s.execLabel t i filename = s.entryLabel t i filename := by
  by_cases hpath : filename.head? = some '/' ∧ s.matchPathSid t filename ≠ 0 ∧
      s.policy.hasAttr (s.matchPathSid t filename) attrExecType
  · rw [execLabel, if_pos hpath, entryLabel]
    split
    · rfl
    · rename_i hown
      have habs := hpath.1
      have hne := hpath.2.1
      have hname : filename ≠ [] := by
        rintro rfl
        cases habs
      -- the file has just been given the label of its path
      rw [pathDecides, decide_eq_true hpath, Bool.and_true, Bool.or_eq_true, not_or] at hown
      unfold labelInodePath
      rw [if_neg hname, if_neg hown.1]
      split
      · rename_i own hisec
        simp [hisec] at hown
      · rw [if_pos habs]
        unfold ExecInode.sid
        dsimp only
        split_ifs <;> simp_all
  · have hdecides : s.pathDecides t i filename = false := by
      simp only [pathDecides, hpath, decide_false, Bool.and_false]
    rw [execLabel, if_neg hpath, entryLabel, hdecides]
    rfl

/-- In enforcing mode, after an exec that has changed the domain the policy grants the transition,
and the entrypoint on the label of the executed file itself, unless its path stands in for it;
without a rule for that label or a requested context the domain is unchanged. -/
theorem bprm_transition_granted (s : SecState) (t : TaskSec) (i : ExecInode) (filename : List Char)
    (henforcing : s.enforcing = true) : ((s.bprmTransition t i filename).2.secSid ≠ t.secSid →
      s.policy.Grants (orKernel t.secSid) (s.bprmTransition t i filename).2.secSid .process
          sepermProcTransition ∧
        s.policy.Grants (s.bprmTransition t i filename).2.secSid (s.entryLabel t i filename) .file
          sepermEntrypoint) ∧ (t.secExecSid = 0 → s.transRule t (s.entryLabel t i filename) = none →
      (s.bprmTransition t i filename).2.secSid = t.secSid) := by
  rw [← execLabel_eq]
  obtain hsame | ⟨hinit, hnew, htrans, hentry, hsid⟩ := bprmTransition_cases s t i filename
  · exact ⟨fun hne => absurd hsame hne, fun _ _ => hsame⟩
  · refine ⟨fun _ => ?_, fun hexec hrule => ?_⟩
    · rw [hsid]
      exact ⟨grants_of_checkAccess hinit henforcing (orKernel_ne_zero _) htrans,
        grants_of_checkAccess hinit henforcing hnew hentry⟩
    · refine absurd ?_ hnew
      simp only [newSid, hexec, ne_eq, not_true_eq_false, if_false]
      split
      · rename_i r hr
        rw [hrule] at hr
        cases hr
      · rfl

theorem checkAccess_of_grants (hssid : ssid ≠ 0) (h : s.policy.Grants ssid tsid tclass perms) :
    s.checkAccess t ssid tsid tclass perms = 0 := by
  have hnone : perms &&& ~~~s.policy.av ssid tsid tclass = 0 := h
  simp [checkAccess, hssid, hnone]

/-- An exec that meets every check enters the new domain. -/
theorem bprmTransition_of_grants (hinit : s.initialized = true) (hold : orKernel t.secSid = old)
    (hlabel : s.execLabel t i filename = tsid) (hnew : s.newSid t tsid = new) (hpos : new ≠ 0)
    (hne : new ≠ old)
    (hfile : s.policy.Grants old tsid .file (sepermRead ||| sepermOpen ||| sepermExecute))
    (htrans : s.policy.Grants old new .process sepermProcTransition)
    (hentry : s.policy.Grants new tsid .file sepermEntrypoint)
    (huse : s.policy.Grants new old .fd sepermUse) :
    (s.bprmTransition t i filename).2.secSid = new := by
  have hpos' : old ≠ 0 := hold ▸ orKernel_ne_zero t.secSid
  simp [bprmTransition, hinit, hold, hlabel, hnew, hpos, hne, checkAccess_of_grants hpos' hfile,
    checkAccess_of_grants hpos' htrans, checkAccess_of_grants hpos hentry,
    checkAccess_of_grants hpos huse]

theorem newSid_of_rule (hexec : t.secExecSid = 0)
    (hrule : (s.transRule t tsid).map (·.newSid) = some new.val) : s.newSid t tsid = new := by
  simp only [newSid, hexec, ne_eq, not_true_eq_false, if_false]
  split
  · rename_i r hr
    rw [hr] at hrule
    exact Fin.ext (Option.some.inj hrule)
  · rename_i hr
    rw [hr] at hrule
    cases hrule

end SecState

def sidOf (t : BaseType) (h : sid t < 128 := by decide) : Sid := ⟨sid t, h⟩

def initTask : TaskSec := ⟨sidOf .init, 0⟩

def Call.isXperm : Call → Bool
  | .xperm .. => true
  | _ => false

theorem foldl_run_xperm {calls : List Call} (h : calls.all Call.isXperm = true) (st : Policy) :
    (calls.foldl Call.run st).av = st.av ∧ (calls.foldl Call.run st).trans = st.trans := by
  induction calls generalizing st with
  | nil => exact ⟨rfl, rfl⟩
  | cons call calls ih =>
    rw [List.all_cons, Bool.and_eq_true] at h
    have hrest := ih h.2 (call.run st)
    cases call with
    | xperm ssid tsid tclass lo hi never =>
      have htrans : (st.addXperm ssid tsid tclass lo hi never).trans = st.trans := by
        unfold addXperm
        dsimp only
        split_ifs <;> rfl
      exact ⟨hrest.1.trans (addXperm_av ..), hrest.2.trans htrans⟩
    | _ => cases h.1

theorem finish_grants {st : Policy} {rules : List NeverallowRule} {calls : List Call}
    {contexts : List FileContext} (h : calls.all Call.isXperm = true) :
    (finish st rules calls contexts).av = st.av ∧
    (finish st rules calls contexts).trans = st.trans :=
  foldl_run_xperm h { st with neverallows := rules }

theorem seed_av : selinuxSeedBaselinePolicy.av = seedGrants.av := by
  rw [seed_eq, (finish_grants (by decide)).1]

theorem seed_trans : selinuxSeedBaselinePolicy.trans = seedGrants.trans := by
  rw [seed_eq, (finish_grants (by decide)).2]

theorem seed_contexts : selinuxSeedBaselinePolicy.fileContexts = baseFileContexts := by
  rw [seed_eq]
  rfl

/-- What the baseline policy has for `init`, `vold` and the files that `vold` may start from. -/
theorem seedGrants_vold : ((∀ r ∈ seedGrants.trans, r.newSid < maxSids) ∧
      (seedGrants.trans.find? fun r : TransRule => r.ssid = orKernel initTask.secSid ∧
        r.tsid = sidOf .voldExec ∧ r.tclass = .process).map (·.newSid) = some (sidOf .vold).val) ∧
    ((sepermRead ||| sepermOpen ||| sepermExecute) &&&
        ~~~seedGrants.av (sidOf .init) (sidOf .voldExec) .file = 0 ∧
      sepermProcTransition &&& ~~~seedGrants.av (sidOf .init) (sidOf .vold) .process = 0 ∧
      sepermEntrypoint &&& ~~~seedGrants.av (sidOf .vold) (sidOf .voldExec) .file = 0 ∧
      sepermUse &&& ~~~seedGrants.av (sidOf .vold) (sidOf .init) .fd = 0) ∧
    sepermEntrypoint &&& ~~~seedGrants.av (sidOf .vold) (sidOf .systemDataFile) .file ≠ 0 := by
  decide +kernel

theorem grants_seed {s t : Nat} {tclass : SecClass} {perms : UInt32} :
    selinuxSeedBaselinePolicy.Grants s t tclass perms ↔
      perms &&& ~~~seedGrants.av s t tclass = 0 := by
  unfold Grants
  rw [seed_av]

/-- The kernel with its baseline policy. -/
def baselineState : SecState where
  initialized := true
  enforcing := true
  policy := selinuxSeedBaselinePolicy
  tasks := []
  trans_lt := by
    rw [seed_trans]
    exact seedGrants_vold.1.1
  contexts_lt := by
    rw [seed_contexts]
    decide

def voldPath : List Char := "/bin/vold".toList

theorem matchPathSid_vold : baselineState.matchPathSid initTask voldPath = sidOf .voldExec := by
  have hfind : (baselineState.policy.fileContexts.find? (·.labels voldPath)).map (·.sid) =
      some (sid .voldExec) := by
    rw [show baselineState.policy.fileContexts = _ from seed_contexts]
    decide
  have hcontext : baselineState.contextSid voldPath = sidOf .voldExec := by
    unfold SecState.contextSid
    split
    · rename_i c hc
      rw [hc] at hfind
      exact Fin.ext (Option.some.inj hfind)
    · rename_i hc
      rw [hc] at hfind
      cases hfind
  have hpath : normalise voldPath = voldPath := by decide
  have hproc : baselineState.procSid initTask voldPath = none := rfl
  rw [SecState.matchPathSid, if_neg (by decide), if_neg (by decide), hpath, hproc, hcontext]
  rfl

theorem hasAttr_voldExec :
    baselineState.policy.hasAttr (baselineState.matchPathSid initTask voldPath) attrExecType := by
  rw [matchPathSid_vold]
  have htable : baseTable.hasAttr (sidOf .voldExec) attrExecType := by decide
  exact (hasAttr_congr seed_types _ _).trans htable

/-- Whatever label the file has, `init` enters the domain of `vold` by executing `/bin/vold`. -/
theorem vold_entered (i : ExecInode) :
    (baselineState.bprmTransition initTask i voldPath).2.secSid = sidOf .vold := by
  obtain ⟨⟨-, hrule⟩, ⟨hfile, htrans, hentry, huse⟩, -⟩ := seedGrants_vold
  have hlabel : baselineState.execLabel initTask i voldPath = sidOf .voldExec :=
    (if_pos ⟨by decide, by rw [matchPathSid_vold]; decide, hasAttr_voldExec⟩).trans
      matchPathSid_vold
  have hnew : baselineState.newSid initTask (sidOf .voldExec) = sidOf .vold := by
    refine SecState.newSid_of_rule rfl ?_
    rw [SecState.transRule, show baselineState.policy.trans = _ from seed_trans]
    exact hrule
  have hinit : orKernel initTask.secSid = sidOf .init := by decide
  exact SecState.bprmTransition_of_grants rfl hinit hlabel hnew (by decide) (by decide)
    (grants_seed.mpr hfile) (grants_seed.mpr htrans)
    (grants_seed.mpr hentry) (grants_seed.mpr huse)

/-- A file whose label comes from its path. -/
def unlabelledFile : ExecInode := ⟨none, true, 0, false, 0⟩

theorem vold_enters_domain :
    baselineState.enforcing = true ∧
    (baselineState.bprmTransition initTask unlabelledFile voldPath).2.secSid = sidOf .vold ∧
    baselineState.policy.Grants (sidOf .vold)
      (baselineState.labelInodePath initTask unlabelledFile voldPath).sid .file
      sepermEntrypoint := by
  have hentered := vold_entered unlabelledFile
  have hgranted := (SecState.bprm_transition_granted baselineState initTask unlabelledFile voldPath
    rfl).1 (by rw [hentered]; decide)
  rw [hentered] at hgranted
  exact ⟨rfl, hentered, hgranted.2⟩

/-- `/bin/vold` has been given the label of a data file, and is an entrypoint all the same. -/
theorem data_file_enters_domain :
    let relabelled : ExecInode := ⟨some (sidOf .systemDataFile, true), true, 0, false, 0⟩
    (baselineState.bprmTransition initTask relabelled voldPath).2.secSid = sidOf .vold ∧
    (baselineState.labelInodePath initTask relabelled voldPath).sid = sidOf .systemDataFile ∧
    ¬ baselineState.policy.Grants (sidOf .vold) (sidOf .systemDataFile) .file
      sepermEntrypoint := by
  refine ⟨vold_entered _, rfl, fun h => ?_⟩
  exact seedGrants_vold.2.2 (grants_seed.mp h)

end Six.Selinux
