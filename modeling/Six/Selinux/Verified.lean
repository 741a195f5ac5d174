import Six.Selinux.Load

/-! What the check of the `neverallow` rules means, and that the baseline policy passes it. -/

namespace Six.Selinux

open Errno List Bool Call

def NeverallowRule.covers (r : NeverallowRule) (s t : Nat) : Bool :=
  r.src.test s && if r.isSelf then t == s else r.tgt.test t

namespace Policy

variable {st st' : Policy} {r : NeverallowRule} {tclass : SecClass} {perms : UInt32} {l : List Nat}
  {ssid : Nat}

def Obeys (st : Policy) (r : NeverallowRule) : Prop :=
  ∀ s t, r.covers s t = true → st.av s t r.tclass &&& r.perms = 0

def Within (st : Policy) (set : SidSet) : Prop := ∀ s, set.test s = true → 1 ≤ s ∧ s < st.nrTypes

def Bounded (st : Policy) : Prop := ∀ r ∈ st.neverallows, st.Within r.src ∧ st.Within r.tgt

def XpermsAgree (st : Policy) : Prop := ∀ a ∈ st.xperms, ∀ b ∈ st.xperms, conflicts a b = false

theorem mem_sids : s ∈ st.sids ↔ 1 ≤ s ∧ s < st.nrTypes := by
  simp only [sids, mem_range'_1]
  omega

theorem keepsRule_iff (hs : st.Within r.src) (ht : st.Within r.tgt) :
    st.keepsRule r = true ↔ st.Obeys r := by
  simp only [keepsRule, all_eq_true, mem_sids, or_eq_true, not_eq_true', Obeys,
    NeverallowRule.covers, and_eq_true]
  by_cases hself : r.isSelf = true
  · simp only [hself, if_true, decide_eq_true_eq, beq_iff_eq]
    refine ⟨fun h s t ⟨hsrc, hts⟩ => ?_, fun h s _ => ?_⟩
    · subst hts
      exact (h t (hs t hsrc)).resolve_left (by simp [hsrc])
    · by_cases hsrc : r.src.test s = true
      · exact .inr (h s s ⟨hsrc, rfl⟩)
      · exact .inl (by simpa using hsrc)
  · simp only [hself, false_eq_true, if_false, all_eq_true, mem_sids, or_eq_true,
      not_eq_true', decide_eq_true_eq]
    refine ⟨fun h s t ⟨hsrc, htgt⟩ => ?_, fun h s _ => ?_⟩
    · have hall := (h s (hs s hsrc)).resolve_left (by simp [hsrc])
      exact (hall t (ht t htgt)).resolve_left (by simp [htgt])
    · by_cases hsrc : r.src.test s = true
      · refine .inr fun t _ => ?_
        by_cases htgt : r.tgt.test t = true
        · exact .inr (h s t ⟨hsrc, htgt⟩)
        · exact .inl (by simpa using htgt)
      · exact .inl (by simpa using hsrc)

theorem verified_iff (hb : st.Bounded) :
    st.selinuxVerifyNeverallows = 0 ↔ (∀ r ∈ st.neverallows, st.Obeys r) ∧ st.XpermsAgree := by
  have hrules : st.neverallows.all st.keepsRule = true ↔ ∀ r ∈ st.neverallows, st.Obeys r := by
    rw [all_eq_true]
    exact forall₂_congr fun r hr => keepsRule_iff (hb r hr).1 (hb r hr).2
  have hxperms : (st.xperms.any fun a => st.xperms.any fun b => conflicts a b) = false ↔
      st.XpermsAgree := by
    simp [XpermsAgree]
  rw [← hrules, ← hxperms]
  unfold selinuxVerifyNeverallows
  cases st.neverallows.all st.keepsRule with
  | false => simp [eacces]
  | true =>
    cases st.xperms.any fun a => st.xperms.any fun b => conflicts a b with
    | false => simp
    | true => simp [eacces]

def entryOf (e : String × Bool × Tier × UInt32) : TypeEntry :=
  { name := e.1, isDomain := e.2.1, tier := e.2.2.1, attrs := e.2.2.2 }

def baseEntries : List TypeEntry := baseTypes.map entryOf

def baseTable : Policy := { types := baseEntries }

theorem foldl_registerType (l : List (String × Bool × Tier × UInt32))
    (hnew : (st.types.map (·.name) ++ l.map (·.1)).Nodup) (hlen : st.nrTypes + l.length ≤ maxSids) :
    l.foldl (fun st (name, isDomain, tier, attrs) => st.registerType name isDomain tier attrs) st =
      { st with types := st.types ++ l.map entryOf } := by
  induction l generalizing st with
  | nil => simp
  | cons e l ih =>
    obtain ⟨name, isDomain, tier, attrs⟩ := e
    have habsent : st.typeIndex name = none := by
      simp only [typeIndex, findIdx?_eq_none_iff, decide_eq_false_iff_not]
      intro x hx heq
      refine (nodup_append.mp hnew).2.2 name ?_ name (by simp) rfl
      exact mem_map.mpr ⟨x, hx, heq⟩
    have hroom : ¬ st.nrTypes ≥ maxSids := by
      simp only [length_cons] at hlen
      omega
    have hstep : st.registerType name isDomain tier attrs =
        { st with types := st.types ++ [{ name, isDomain, tier, attrs }] } := by
      simp [registerType, habsent, hroom]
    simp only [foldl_cons, hstep]
    rw [ih]
    · simp [entryOf]
    · simpa using hnew
    · simp only [nrTypes, length_append, length_cons, length_nil] at hlen ⊢
      omega

/-- The numbers of a list are different from each other and from those in the mask `seen`. -/
def distinct : List Nat → Nat → Bool
  | [], _ => true
  | n :: l, seen => !seen.testBit n && distinct l (seen ||| 1 <<< n)

theorem testBit_mask (seen n m : Nat) :
    (seen ||| 1 <<< n).testBit m = (seen.testBit m || decide (m = n)) := by
  rw [Nat.testBit_or, Nat.one_shiftLeft, Nat.testBit_two_pow]
  congr 1
  exact decide_eq_decide.mpr eq_comm

theorem distinct_spec (h : distinct l seen = true) : l.Nodup ∧ ∀ n ∈ l, seen.testBit n = false := by
  induction l generalizing seen with
  | nil => exact ⟨nodup_nil, fun n hn => absurd hn not_mem_nil⟩
  | cons n l ih =>
    simp only [distinct, and_eq_true, not_eq_true'] at h
    obtain ⟨hnodup, hseen⟩ := ih h.2
    simp only [testBit_mask, or_eq_false_iff, decide_eq_false_iff_not] at hseen
    refine ⟨nodup_cons.mpr ⟨fun hn => (hseen n hn).2 rfl, hnodup⟩, fun m hm => ?_⟩
    obtain rfl | hm := mem_cons.mp hm
    · exact h.1
    · exact (hseen m hm).1

/-- A number for the bytes of a name: the names of the baseline policy have different ones. -/
def nameKey (name : String) : Nat :=
  name.toByteArray.data.toList.foldl (fun key byte => 256 * key + byte.toNat) 0 % 1159

theorem nodup_baseNames : (baseTypes.map (·.1)).Nodup := by
  have hdistinct : distinct ((baseTypes.map (·.1)).map nameKey) 0 = true := by decide
  exact List.Nodup.of_map nameKey (distinct_spec hdistinct).1

theorem registerBaseTypes_eq : registerBaseTypes = baseTable := by
  have hnodup := nodup_baseNames
  unfold registerBaseTypes
  rw [foldl_registerType]
  · rfl
  · simpa using hnodup
  · decide

def permits (r : NeverallowRule) (s t : Nat) (tclass : SecClass) (perms : UInt32) : Bool :=
  tclass ≠ r.tclass || !r.covers s t || perms &&& r.perms = 0

theorem or_and_eq_zero {a b m : UInt32} (ha : a &&& m = 0) (hb : b &&& m = 0) :
    (a ||| b) &&& m = 0 := by
  have hdistrib : (a ||| b) &&& m = (a &&& m) ||| (b &&& m) := by
    apply UInt32.toNat_inj.mp
    simp only [UInt32.toNat_and, UInt32.toNat_or, Nat.and_or_distrib_right]
  rw [hdistrib, ha, hb, UInt32.or_zero]

theorem obeys_allowSid (h : st.Obeys r) {tsid : Nat}
    (hp : permits r ssid tsid tclass perms = true) :
    (st.allowSid ssid tsid tclass perms).Obeys r := by
  intro s t hcovers
  unfold allowSid
  split_ifs
  · dsimp only
    split_ifs with heq
    · obtain ⟨rfl, rfl, hclass⟩ := heq
      have hperms : perms &&& r.perms = 0 := by
        simpa [permits, ← hclass, hcovers] using hp
      exact or_and_eq_zero (h s t hcovers) hperms
    · exact h s t hcovers
  · exact h s t hcovers

theorem obeys_foldl_allowSid (h : st.Obeys r) (hl : ∀ t ∈ l, permits r ssid t tclass perms = true) :
    (l.foldl (fun st t => st.allowSid ssid t tclass perms) st).Obeys r := by
  induction l generalizing st with
  | nil => exact h
  | cons t l ih =>
    exact ih (obeys_allowSid h (hl t (by simp))) fun t' ht' => hl t' (by simp [ht'])

section

variable (ssid tsid : Nat) (tclass : SecClass) (perms : UInt32) (newSid : Nat)
  (xclass : Option SecClass) (lo hi : UInt16) (never : Bool)

@[simp] theorem allowSid_types : (st.allowSid ssid tsid tclass perms).types = st.types := by
  unfold allowSid
  split_ifs <;> rfl

@[simp] theorem allowSid_neverallows :
    (st.allowSid ssid tsid tclass perms).neverallows = st.neverallows := by
  unfold allowSid
  split_ifs <;> rfl

@[simp] theorem allowSid_xperms : (st.allowSid ssid tsid tclass perms).xperms = st.xperms := by
  unfold allowSid
  split_ifs <;> rfl

theorem addTrans_eq : st.addTrans ssid tsid tclass newSid =
      { st with trans := (st.addTrans ssid tsid tclass newSid).trans } := by
  unfold addTrans
  split
  · rfl
  · split_ifs <;> rfl

@[simp] theorem addTrans_av : (st.addTrans ssid tsid tclass newSid).av = st.av := by
  rw [addTrans_eq]

@[simp] theorem addTrans_types : (st.addTrans ssid tsid tclass newSid).types = st.types := by
  rw [addTrans_eq]

@[simp] theorem addTrans_neverallows :
    (st.addTrans ssid tsid tclass newSid).neverallows = st.neverallows := by
  rw [addTrans_eq]

@[simp] theorem addTrans_xperms : (st.addTrans ssid tsid tclass newSid).xperms = st.xperms := by
  rw [addTrans_eq]

@[simp] theorem addXperm_av : (st.addXperm ssid tsid xclass lo hi never).av = st.av := by
  unfold addXperm
  split_ifs <;> rfl

@[simp] theorem addXperm_neverallows :
    (st.addXperm ssid tsid xclass lo hi never).neverallows = st.neverallows := by
  unfold addXperm
  split_ifs <;> rfl

theorem addXperm_xperms : (st.addXperm ssid tsid xclass lo hi never).xperms =
    if st.xperms.length < maxXpermRules then
      st.xperms ++ [⟨ssid, tsid, xclass, never, lo, hi⟩] else st.xperms := by
  unfold addXperm
  split_ifs <;> rfl

@[simp] theorem addXperm_types : (st.addXperm ssid tsid xclass lo hi never).types = st.types := by
  unfold addXperm
  split_ifs <;> rfl

end

theorem foldl_allowSid_eq :
    (l.foldl (fun st t => st.allowSid ssid t tclass perms) st).types = st.types ∧
      (l.foldl (fun st t => st.allowSid ssid t tclass perms) st).neverallows = st.neverallows ∧
      (l.foldl (fun st t => st.allowSid ssid t tclass perms) st).xperms = st.xperms := by
  induction l generalizing st with
  | nil => exact ⟨rfl, rfl, rfl⟩
  | cons t l ih =>
    obtain ⟨htypes, hrules, hxperms⟩ := @ih (st.allowSid ssid t tclass perms)
    exact ⟨by simpa using htypes, by simpa using hrules, by simpa using hxperms⟩

end Policy

open Policy

variable {st : Policy} {r : NeverallowRule} {call : Call}

def permitsTrans (r : NeverallowRule) (parentDom execSid childDom : Nat) : Bool :=
  permits r parentDom execSid .file
    (sepermRead ||| sepermOpen ||| sepermExecute ||| sepermGetattr) &&
  permits r parentDom childDom .process
    (sepermProcTransition ||| sepermProcSigchld ||| sepermProcSigkill ||| sepermProcSigstop |||
      sepermProcSignal) &&
  permits r childDom parentDom .process sepermProcSigchld &&
  permits r childDom parentDom .fd sepermUse &&
  permits r childDom execSid .file
    (sepermRead ||| sepermOpen ||| sepermExecute ||| sepermGetattr ||| sepermEntrypoint)

/-- A call of the baseline policy keeps a rule, when the policy has the types of `st`. -/
def Call.keeps (st : Policy) (r : NeverallowRule) : Call → Bool
  | .allow ssid tsid tclass perms => permits r ssid tsid tclass perms
  | .allowAttr ssid attr tclass perms =>
    tclass ≠ r.tclass || (st.sidsWith attr).all fun t => permits r ssid t tclass perms
  | .autoTrans parentDom execSid childDom => permitsTrans r parentDom execSid childDom
  | .privilege pd => (List.range st.nrTypes).all fun t =>
      permits r pd t r.tclass (if r.tclass = .file then ~~~(withheld st t) else ~~~0)
  | .xperm .. => true

theorem Call.run_types (call : Call) : (call.run st).types = st.types := by
  cases call with
  | allowAttr ssid attr tclass perms => exact foldl_allowSid_eq.1
  | _ => simp [run, addDomainAutoTrans, givePrivilege]

theorem Call.run_neverallows (call : Call) : (call.run st).neverallows = st.neverallows := by
  cases call with
  | allowAttr ssid attr tclass perms => exact foldl_allowSid_eq.2.1
  | _ => simp [run, addDomainAutoTrans, givePrivilege]

def Call.xpermRules : Call → List XpermRule
  | .xperm ssid tsid tclass lo hi never => [⟨ssid, tsid, tclass, never, lo, hi⟩]
  | _ => []

theorem Call.run_xperms (call : Call) (hroom : st.xperms.length < maxXpermRules) :
    (call.run st).xperms = st.xperms ++ call.xpermRules := by
  cases call with
  | allowAttr ssid attr tclass perms =>
    simp only [xpermRules, append_nil]
    exact foldl_allowSid_eq.2.2
  | xperm ssid tsid tclass lo hi never =>
    simp [run, xpermRules, addXperm_xperms, hroom]
  | _ => simp [run, xpermRules, addDomainAutoTrans, givePrivilege]

theorem hasAttr_congr {st' : Policy} (h : st'.types = st.types) (s : Nat) (attr : UInt32) :
    st'.hasAttr s attr = st.hasAttr s attr := by
  simp [hasAttr, h]

theorem sidsWith_congr {st' : Policy} (h : st'.types = st.types) (attr : UInt32) :
    st'.sidsWith attr = st.sidsWith attr := by
  simp [sidsWith, sids, nrTypes, hasAttr_congr h, h]

theorem withheld_congr {st' : Policy} (h : st'.types = st.types) (t : Nat) :
    withheld st' t = withheld st t := by
  simp only [withheld, hasAttr_congr h]

theorem Call.run_obeys (call : Call) (htypes : st.types = base.types)
    (h : st.Obeys r) (hkeeps : call.keeps base r = true) : (call.run st).Obeys r := by
  cases call with
  | allow ssid tsid tclass perms => exact obeys_allowSid h hkeeps
  | allowAttr ssid attr tclass perms =>
    refine obeys_foldl_allowSid h fun t ht => ?_
    rw [sidsWith_congr htypes] at ht
    by_cases hclass : tclass = r.tclass
    · simp only [keeps, hclass, ne_eq, not_true_eq_false, decide_false, Bool.false_or,
        all_eq_true] at hkeeps
      exact hclass ▸ hkeeps t ht
    · simp [permits, hclass]
  | autoTrans parentDom execSid childDom =>
    simp only [keeps, permitsTrans, and_eq_true] at hkeeps
    obtain ⟨⟨⟨⟨h1, h2⟩, h3⟩, h4⟩, h5⟩ := hkeeps
    have hstart : (st.addTrans parentDom execSid .process childDom).Obeys r := fun s t hcovers => by
      rw [addTrans_av]
      exact h s t hcovers
    exact obeys_allowSid (obeys_allowSid (obeys_allowSid (obeys_allowSid
      (obeys_allowSid hstart h1) h2) h3) h4) h5
  | privilege pd =>
    intro s t hcovers
    by_cases hpd : s = pd ∧ t < st.nrTypes
    · have hlt : t < base.nrTypes := by simpa [nrTypes, ← htypes] using hpd.2
      have hvalue := all_eq_true.mp hkeeps t (by simpa using hlt)
      simp only [permits, ne_eq, not_true_eq_false, decide_false, ← hpd.1, hcovers,
        Bool.not_true, Bool.false_or, decide_eq_true_eq] at hvalue
      simpa [run, givePrivilege, hpd, withheld_congr htypes] using hvalue
    · simpa [run, givePrivilege, hpd] using h s t hcovers
  | xperm ssid tsid tclass lo hi never =>
    intro s t hcovers
    rw [run, addXperm_av]
    exact h s t hcovers

theorem foldl_run_obeys (base : Policy) {calls : List Call} (htypes : st.types = base.types)
    (h : st.Obeys r) (hkeeps : ∀ call ∈ calls, call.keeps base r = true) :
    (calls.foldl run st).Obeys r := by
  induction calls generalizing st with
  | nil => exact h
  | cons call calls ih =>
    refine ih (call.run_types.trans htypes) (call.run_obeys htypes h (hkeeps call (by simp))) ?_
    exact fun call' hmem => hkeeps call' (by simp [hmem])

theorem foldl_run_types (st : Policy) {calls : List Call} :
    (calls.foldl run st).types = st.types := by
  induction calls generalizing st with
  | nil => rfl
  | cons call calls ih => exact (ih _).trans call.run_types

theorem foldl_run_neverallows (calls : List Call) :
    (calls.foldl run st).neverallows = st.neverallows := by
  induction calls generalizing st with
  | nil => rfl
  | cons call calls ih => exact ih.trans call.run_neverallows

theorem foldl_run_xperms {calls : List Call}
    (hroom : st.xperms.length + (calls.flatMap xpermRules).length < maxXpermRules) :
    (calls.foldl run st).xperms = st.xperms ++ calls.flatMap xpermRules := by
  induction calls generalizing st with
  | nil => simp
  | cons call calls ih =>
    simp only [flatMap_cons, length_append] at hroom
    have hcall : (call.run st).xperms = st.xperms ++ call.xpermRules := call.run_xperms (by omega)
    rw [foldl_cons, ih, hcall, flatMap_cons, append_assoc]
    rw [hcall, length_append]
    omega

theorem baseNeverallows_congr {st' : Policy} (h : st'.types = st.types) :
    baseNeverallows st' = baseNeverallows st := by
  simp [baseNeverallows, allExcept, sidSetAddAttr, sidsWith_congr h]

def baseRules : List NeverallowRule :=
  [⟨⟨0x1df70⟩, ⟨0⟩, true, .capability, bit capSysRawio⟩,
    ⟨⟨0xdfe0⟩, ⟨0xcc38000000⟩, false, .file, sepermExecuteNoTrans⟩,
    ⟨⟨0x12000⟩, ⟨0x2000000000⟩, false, .file, sepermWrite ||| sepermCreate ||| sepermUnlink⟩,
    ⟨⟨0x1fffe⟩, ⟨0x83e000000000⟩, false, .file,
      sepermExecute ||| sepermExecuteNoTrans ||| sepermEntrypoint⟩,
    ⟨⟨0x20⟩, ⟨0x3f4000000000000000⟩, false, .blkFile,
      sepermRead ||| sepermWrite ||| sepermOpen ||| sepermIoctl⟩,
    ⟨⟨0x20⟩, ⟨0x3f4000000000000000⟩, false, .chrFile,
      sepermRead ||| sepermWrite ||| sepermOpen ||| sepermIoctl⟩,
    ⟨⟨0x20⟩, ⟨0x4a00000000000000000000000⟩, false, .serviceManager,
      sepermSvcmgrAdd ||| sepermSvcmgrFind⟩,
    ⟨⟨0x1fff0⟩, ⟨0x1000000000000000001fffe⟩, false, .security,
      sepermSecLoadPolicy ||| sepermSecSetenforce⟩,
    ⟨⟨0x1ffb0⟩, ⟨0x1fffe⟩, false, .binder, sepermBinderSetContextMgr⟩,
    ⟨⟨0x1fff0⟩, ⟨0x80000000000000⟩, false, .chrFile, sepermRead ||| sepermOpen⟩]

theorem baseNeverallows_baseTable : baseNeverallows baseTable = baseRules := by decide

theorem baseCalls_eq : baseCalls =
    (range' 1 16).flatMap domainCalls ++
    ([1, 2, 3, 4, 5, 6, 7, 8, 9, 10, 11, 12, 14, 15].flatMap coredomainCalls ++
    (autoTransCalls ++ ([.privilege (sid .kernel), .privilege (sid .init), .privilege (sid .su)] ++
    (servicemanagerCalls ++ voldCalls ++ ntfs3gCalls ++ fwupdCalls ++ storagedCalls ++ mediaCalls ++
    daemonCalls ++ shellCalls ++ untrustedAppCalls)))) := by
  have hdomain : registerBaseTypes.sidsWith attrDomain = range' 1 16 := by
    rw [registerBaseTypes_eq]
    decide
  have hcore : registerBaseTypes.sidsWith attrCoredomain =
      [1, 2, 3, 4, 5, 6, 7, 8, 9, 10, 11, 12, 14, 15] := by
    rw [registerBaseTypes_eq]
    decide
  unfold baseCalls
  rw [hdomain, hcore]
  simp only [append_assoc]

def Call.harmless (r : NeverallowRule) : Call → Bool
  | .allow _ tsid tclass perms =>
    tclass ≠ r.tclass || perms &&& r.perms = 0 || (!r.isSelf && !r.tgt.test tsid)
  | _ => false

theorem Call.keeps_of_harmless (h : call.harmless r = true) : call.keeps st r = true := by
  cases call with
  | allow ssid tsid tclass perms =>
    simp only [harmless, or_eq_true, and_eq_true, not_eq_true'] at h
    obtain (hclass | hperms) | ⟨hself, htgt⟩ := h
    · simp [keeps, permits, hclass]
    · simp [keeps, permits, hperms]
    · simp [keeps, permits, NeverallowRule.covers, hself, htgt]
  | _ => exact absurd h false_ne_true

/-- The rules for every domain that are not about the domain itself. -/
def sharedCalls (d : Nat) : List Call :=
  inheritCalls d ++ rootfsCalls d ++ systemFileCalls d ++ deviceCalls d ++ scratchCalls d ++
    procCalls d

theorem domainCalls_eq (d : Nat) : domainCalls d = selfCalls d ++ sharedCalls d := by
  simp only [domainCalls, sharedCalls, append_assoc]

theorem harmless_sharedCalls (d : Nat) :
    (baseRules.all fun r => (sharedCalls d).all (harmless r)) = true := by
  by_cases hd : d = sid .ntfs3g
  · rw [hd]
    decide
  · simp only [sharedCalls, inheritCalls, systemFileCalls, scratchCalls, ne_eq, hd,
      not_false_eq_true, if_true]
    rfl

theorem keeps_domainCalls (hr : r ∈ baseRules) (hd : d ∈ range' 1 16)
    (hcall : call ∈ domainCalls d) : call.keeps baseTable r = true := by
  have hself : (baseRules.all fun r => (range' 1 16).all fun d =>
      (selfCalls d).all (keeps baseTable r)) = true := by decide
  rw [domainCalls_eq, mem_append] at hcall
  obtain hcall | hcall := hcall
  · exact all_eq_true.mp (all_eq_true.mp (all_eq_true.mp hself r hr) d hd) call hcall
  · exact call.keeps_of_harmless
      (all_eq_true.mp (all_eq_true.mp (harmless_sharedCalls d) r hr) call hcall)

theorem keeps_baseCalls : ∀ r ∈ baseRules, ∀ call ∈ baseCalls, call.keeps baseTable r = true := by
  have hcore : ∀ r ∈ baseRules, ∀ d ∈ [1, 2, 3, 4, 5, 6, 7, 8, 9, 10, 11, 12, 14, 15],
      ∀ call ∈ coredomainCalls d, call.keeps baseTable r = true := by decide
  have htrans : ∀ r ∈ baseRules, ∀ call ∈ autoTransCalls, call.keeps baseTable r = true := by
    decide
  have hprivilege : ∀ r ∈ baseRules, ∀ call ∈ [privilege (sid .kernel),
      .privilege (sid .init), .privilege (sid .su)], call.keeps baseTable r = true := by
    decide
  have hrest : ∀ r ∈ baseRules, ∀ call ∈ servicemanagerCalls ++ voldCalls ++ ntfs3gCalls ++
      fwupdCalls ++ storagedCalls ++ mediaCalls ++ daemonCalls ++ shellCalls ++ untrustedAppCalls,
      call.keeps baseTable r = true := by decide +kernel
  intro r hr call hcall
  rw [baseCalls_eq, mem_append, mem_append, mem_append, mem_append,
    mem_flatMap, mem_flatMap] at hcall
  obtain ⟨d, hd, hcall⟩ | ⟨d, hd, hcall⟩ | hcall | hcall | hcall := hcall
  · exact keeps_domainCalls hr hd hcall
  · exact hcore r hr d hd call hcall
  · exact htrans r hr call hcall
  · exact hprivilege r hr call hcall
  · exact hrest r hr call hcall

def baseXperms : List XpermRule :=
  (voldCalls ++ ntfs3gCalls ++ fwupdCalls ++ neverallowxpermCalls).flatMap Call.xpermRules

theorem xpermRules_baseCalls : baseCalls.flatMap xpermRules =
    (voldCalls ++ ntfs3gCalls ++ fwupdCalls).flatMap xpermRules := by
  rw [baseCalls_eq]
  decide +kernel

theorem foldl_addNeverallow (hroom : st.neverallows.length + l.length ≤ maxNeverallowRules) :
    l.foldl addNeverallow st = { st with neverallows := st.neverallows ++ l } := by
  induction l generalizing st with
  | nil => simp
  | cons r l ih =>
    simp only [length_cons] at hroom
    have hlt : st.neverallows.length < maxNeverallowRules := by omega
    simp only [foldl_cons, addNeverallow, hlt, if_true]
    rw [ih]
    · simp
    · simp only [length_append, length_cons, length_nil]
      omega

def seedGrants : Policy := baseCalls.foldl Call.run baseTable

theorem seedGrants_types : seedGrants.types = baseTable.types := by
  rw [seedGrants, foldl_run_types]

def finish (st : Policy) (rules : List NeverallowRule) (calls : List Call)
    (contexts : List FileContext) : Policy :=
  { calls.foldl Call.run { st with neverallows := rules } with fileContexts := contexts }

section Finish

variable {rules : List NeverallowRule} {calls : List Call} {contexts : List FileContext}

theorem finish_types : (finish st rules calls contexts).types = st.types :=
  foldl_run_types { st with neverallows := rules }

theorem finish_neverallows : (finish st rules calls contexts).neverallows = rules :=
  foldl_run_neverallows calls

theorem finish_xperms
    (hroom : st.xperms.length + (calls.flatMap xpermRules).length < maxXpermRules) :
    (finish st rules calls contexts).xperms = st.xperms ++ calls.flatMap xpermRules :=
  foldl_run_xperms hroom

theorem finish_obeys {base : Policy} (htypes : st.types = base.types) (h : st.Obeys r)
    (hkeeps : ∀ call ∈ calls, call.keeps base r = true) :
    (finish st rules calls contexts).Obeys r := by
  have hstart : ({ st with neverallows := rules } : Policy).Obeys r := h
  exact foldl_run_obeys base htypes hstart hkeeps

end Finish

theorem seed_eq : selinuxSeedBaselinePolicy =
    finish seedGrants baseRules neverallowxpermCalls baseFileContexts := by
  have hnone : seedGrants.neverallows = [] := foldl_run_neverallows baseCalls
  have hrules : (baseNeverallows seedGrants).foldl addNeverallow seedGrants =
      { seedGrants with neverallows := baseRules } := by
    rw [baseNeverallows_congr seedGrants_types, baseNeverallows_baseTable,
      foldl_addNeverallow, hnone, nil_append]
    rw [hnone]
    decide
  unfold selinuxSeedBaselinePolicy
  rw [registerBaseTypes_eq]
  change { neverallowxpermCalls.foldl run
    ((baseNeverallows seedGrants).foldl addNeverallow seedGrants) with
      fileContexts := baseFileContexts } = _
  rw [hrules]
  rfl

theorem seed_types : selinuxSeedBaselinePolicy.types = baseEntries := by
  rw [seed_eq, finish_types, seedGrants_types, baseTable]

theorem seed_neverallows : selinuxSeedBaselinePolicy.neverallows = baseRules := by
  rw [seed_eq, finish_neverallows]

theorem seed_xperms : selinuxSeedBaselinePolicy.xperms = baseXperms := by
  have hgrants : seedGrants.xperms = (voldCalls ++ ntfs3gCalls ++ fwupdCalls).flatMap
      xpermRules := by
    rw [← xpermRules_baseCalls]
    refine (foldl_run_xperms ?_).trans (nil_append _)
    rw [xpermRules_baseCalls]
    decide
  rw [seed_eq, finish_xperms, hgrants, baseXperms]
  · simp only [flatMap_append]
  · rw [hgrants]
    decide

theorem seed_obeys (hr : r ∈ baseRules) : selinuxSeedBaselinePolicy.Obeys r := by
  have hempty : baseTable.Obeys r := fun s t _ => UInt32.zero_and
  have hgrants : seedGrants.Obeys r := foldl_run_obeys baseTable rfl hempty (keeps_baseCalls r hr)
  have hxperm : ∀ call ∈ neverallowxpermCalls, call.keeps baseTable r = true := by
    simp [neverallowxpermCalls, xperm, keeps]
  rw [seed_eq]
  exact finish_obeys seedGrants_types hgrants hxperm

theorem seed_bounded : selinuxSeedBaselinePolicy.Bounded := by
  have hrules : ∀ r ∈ baseRules, ∀ s < 128, r.src.test s = true ∨ r.tgt.test s = true →
      1 ≤ s ∧ s < 99 := by decide
  have hlen : selinuxSeedBaselinePolicy.nrTypes = 99 := by
    rw [nrTypes, seed_types]
    decide
  have hsmall : ∀ (set : SidSet) s, set.test s = true → s < 128 := fun set s hs => by
    by_contra hge
    simp [SidSet.test, maxSids, hge] at hs
  intro r hr
  rw [seed_neverallows] at hr
  refine ⟨fun s hs => ?_, fun s hs => ?_⟩
  · rw [hlen]
    exact hrules r hr s (hsmall _ s hs) (.inl hs)
  · rw [hlen]
    exact hrules r hr s (hsmall _ s hs) (.inr hs)

theorem seed_verified : selinuxSeedBaselinePolicy.selinuxVerifyNeverallows = 0 := by
  rw [verified_iff seed_bounded]
  refine ⟨fun r hr => ?_, ?_⟩
  · rw [seed_neverallows] at hr
    exact seed_obeys hr
  · unfold XpermsAgree
    rw [seed_xperms]
    decide

end Six.Selinux
