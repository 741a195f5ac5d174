import Six.Lib.PhaseRing
import Six.Nvme.Queue

/-! The queue protocol of the NVMe driver over whole runs of `nvme_submit_sync_cmd` and resets. -/

namespace Six.Nvme

open Lib Option

namespace Ctrl

variable {env : Env} {c : Ctrl} {cmd : Command}

def Fits (status : UInt16) : Prop := status.toNat < 2 ^ 15

instance (status : UInt16) : Decidable (Fits status) :=
  inferInstanceAs (Decidable (status.toNat < 2 ^ 15))

theorem fits_commitFw (h : (c.commitFw env cmd).1 = some status) : Fits status := by
  have hslot : Fits nvmeScFwSlotInvalid := by decide
  have himage : Fits nvmeScFwImageError := by decide
  have hreadOnly : Fits nvmeScReadOnly := by decide
  unfold commitFw at h
  dsimp only at h
  generalize (if fwSlotOf cmd = 1 then (0 : Fin 2) else 1) = slot at h
  split at h
  · exact some.inj h ▸ hslot
  · split at h
    · split at h
      · exact some.inj h ▸ himage
      · cases h
    · split at h
      · exact some.inj h ▸ hreadOnly
      · split at h
        · exact some.inj h ▸ himage
        · cases h

theorem fits_execAdminSqe : Fits (c.execAdminSqe env cmd).status := by
  have hsuccess : Fits nvmeScSuccess := by decide
  have hfield : Fits nvmeScInvalidField := by decide
  have hns : Fits nvmeScInvalidNs := by decide
  have hopcode : Fits nvmeScInvalidOpcode := by decide
  unfold execAdminSqe
  split
  · unfold identify
    dsimp only
    split_ifs <;> first | exact hfield | exact hns | exact hsuccess
  · unfold getLogPage
    dsimp only
    split_ifs <;> first | exact hfield | exact hsuccess
  · unfold downloadFw
    dsimp only
    split
    · exact hfield
    · exact hsuccess
  · unfold activateFw
    split
    · rename_i status c' hcommit
      exact fits_commitFw (congrArg Prod.fst hcommit)
    · exact hsuccess
  all_goals first | exact hsuccess | exact hopcode | skip
  split_ifs
  · exact hns
  · exact hsuccess

theorem fits_dsmLoop (rs : List DsmRange) : Fits (c.dsmLoop rs).1 := by
  have hsuccess : Fits nvmeScSuccess := by decide
  have hrange : Fits nvmeScLbaRange := by decide
  induction rs generalizing c with
  | nil => exact hsuccess
  | cons r rs ih =>
    unfold dsmLoop
    split_ifs
    · exact hrange
    · exact ih

theorem fits_execIoSqe : Fits (c.execIoSqe cmd).status := by
  have hsuccess : Fits nvmeScSuccess := by decide
  have hfield : Fits nvmeScInvalidField := by decide
  have hns : Fits nvmeScInvalidNs := by decide
  have hopcode : Fits nvmeScInvalidOpcode := by decide
  have hrange : Fits nvmeScLbaRange := by decide
  unfold execIoSqe
  split_ifs
  · exact hns
  · split
    · unfold execRead
      split
      · exact hfield
      · dsimp only
        split_ifs
        · exact hrange
        · exact hrange
        · exact hsuccess
    · unfold execWrite
      split
      · exact hfield
      · dsimp only
        split_ifs <;> first | exact hrange | exact hsuccess
    · exact hsuccess
    · unfold execWriteZeroes
      split_ifs
      · exact hrange
      · exact hsuccess
    · unfold execDsm
      split
      · exact hfield
      · dsimp only
        split_ifs
        · exact fits_dsmLoop _
        · exact hsuccess
    · exact hopcode

theorem fits_exec (k : QueueId) : Fits (c.exec env k cmd).status := by
  cases k with
  | admin => exact fits_execAdminSqe
  | io => exact fits_execIoSqe

end Ctrl

namespace Queue

variable {env : Env} {q : Queue} {c : Ctrl} {e : Executed} {cmd : Command} {i d : UInt16}
  {p : UInt8} {es : List Completion}

def phaseTag (cqe : Completion) : Bool := cqe.status &&& 1 == 1

def completions (q : Queue) : PhaseRing Completion where
  slot := q.cq
  head := q.cqHead.toNat
  headPhase := q.cqExpectedPhase == 1
  tail := q.cqTail.toNat
  tailPhase := q.cqPhase == 1

structure InRange (q : Queue) : Prop where
  two_le : 2 ≤ q.qDepth.toNat
  le : q.qDepth.toNat ≤ 64
  sqHead : q.sqHead.toNat < q.qDepth.toNat
  sqTail : q.sqTail.toNat < q.qDepth.toNat
  cqHead : q.cqHead.toNat < q.qDepth.toNat
  cqTail : q.cqTail.toNat < q.qDepth.toNat
  cqPhase : q.cqPhase = 0 ∨ q.cqPhase = 1
  cqExpectedPhase : q.cqExpectedPhase = 0 ∨ q.cqExpectedPhase = 1

def Outstanding (q : Queue) (es : List Completion) : Prop :=
  ∃ n, PhaseRing.Holds q.qDepth.toNat phaseTag q.completions n es

structure Idle (q : Queue) : Prop where
  range : q.InRange
  empty : q.sqHead = q.sqTail
  drained : q.Outstanding []

theorem toNat_succ (hi : i.toNat < d.toNat) : (i + 1).toNat = i.toNat + 1 := by
  have hd := d.toNat_lt
  have hadd : (i + 1).toNat = (i.toNat + 1) % 2 ^ 16 := UInt16.toNat_add i 1
  omega

theorem advance_eq (hi : i.toNat < d.toNat) (hp : p = 0 ∨ p = 1) :
    PhaseRing.next d.toNat i.toNat (p == 1) =
      ((if i + 1 ≥ d then 0 else i + 1).toNat, (if i + 1 ≥ d then p ^^^ 1 else p) == 1) := by
  have hsucc := toNat_succ hi
  have hge : i + 1 ≥ d ↔ i.toNat + 1 ≥ d.toNat := by
    rw [ge_iff_le, UInt16.le_iff_toNat_le, hsucc]
  unfold PhaseRing.next
  by_cases hwrap : i.toNat + 1 ≥ d.toNat
  · rw [if_pos hwrap, if_pos (hge.mpr hwrap), if_pos (hge.mpr hwrap)]
    rcases hp with rfl | rfl <;> rfl
  · rw [if_neg hwrap, if_neg (mt hge.mp hwrap), if_neg (mt hge.mp hwrap), hsucc]

theorem advance_lt (i : UInt16) (hd : 0 < d.toNat) :
    (if i + 1 ≥ d then 0 else i + 1).toNat < d.toNat := by
  split_ifs with hge
  · exact hd
  · rw [ge_iff_le, UInt16.le_iff_toNat_le, Nat.not_le] at hge
    exact hge

theorem toNat_nextIndex (hd : 0 < d.toNat) : (nextIndex i d).toNat = (i.toNat + 1) % d.toNat := by
  have hlt := Nat.mod_lt (i.toNat + 1) hd
  have hd' := d.toNat_lt
  unfold nextIndex
  rw [UInt16.toNat_ofNat']
  exact Nat.mod_eq_of_lt (by omega)

theorem nextIndex_lt (hd : 0 < d.toNat) : (nextIndex i d).toNat < d.toNat := by
  rw [toNat_nextIndex hd]
  exact Nat.mod_lt _ hd

theorem nextIndex_ne (hd : 2 ≤ d.toNat) (hi : i.toNat < d.toNat) : i ≠ nextIndex i d := by
  intro heq
  have hval := congrArg UInt16.toNat heq
  rw [toNat_nextIndex (by omega)] at hval
  by_cases hwrap : i.toNat + 1 = d.toNat
  · rw [hwrap, Nat.mod_self] at hval
    omega
  · rw [Nat.mod_eq_of_lt (by omega)] at hval
    omega

theorem flip_bit (hp : p = 0 ∨ p = 1) (b : Prop) [Decidable b] :
    (if b then p ^^^ 1 else p) = 0 ∨ (if b then p ^^^ 1 else p) = 1 := by
  rcases hp with rfl | rfl <;> split_ifs <;> decide

theorem toNat_statusWord (status : UInt16) (hp : p = 0 ∨ p = 1) :
    (((status &&& 0x7fff) <<< 1) ||| (p &&& 1).toUInt16).toNat =
      2 * (status.toNat % 2 ^ 15) + p.toNat := by
  have hmask : (status &&& 0x7fff).toNat = status.toNat % 2 ^ 15 := by
    rw [UInt16.toNat_and]
    exact Nat.and_two_pow_sub_one_eq_mod status.toNat 15
  have hshift : ((status &&& 0x7fff) <<< 1).toNat = (status.toNat % 2 ^ 15) <<< 1 := by
    rw [UInt16.toNat_shiftLeft, hmask]
    simp only [Nat.shiftLeft_eq]
    exact Nat.mod_eq_of_lt (by simp; omega)
  have hbit : p.toNat < 2 ^ 1 := by rcases hp with rfl | rfl <;> decide
  have hphase : (p &&& 1).toUInt16.toNat = p.toNat := by rcases hp with rfl | rfl <;> rfl
  rw [UInt16.toNat_or, hshift, hphase, ← Nat.shiftLeft_add_eq_or_of_lt hbit, Nat.shiftLeft_eq]
  omega

theorem phaseTag_completion (hp : q.cqPhase = 0 ∨ q.cqPhase = 1) :
    phaseTag (q.completion e) = (q.cqPhase == 1) := by
  have hword := toNat_statusWord e.status hp
  have htag : ((q.completion e).status &&& 1).toNat = q.cqPhase.toNat := by
    rw [UInt16.toNat_and]
    show _ &&& (2 ^ 1 - 1) = _
    rw [Nat.and_two_pow_sub_one_eq_mod]
    show UInt16.toNat (_ ||| _) % 2 ^ 1 = _
    rw [hword]
    rcases hp with hp | hp <;> rw [hp] <;> simp
  unfold phaseTag
  rcases hp with hp | hp <;> rw [hp] at htag ⊢
  · have hzero : (q.completion e).status &&& 1 = 0 := UInt16.toNat_inj.mp htag
    rw [hzero]
    rfl
  · have hone : (q.completion e).status &&& 1 = 1 := UInt16.toNat_inj.mp htag
    rw [hone]
    rfl

theorem status_completion (hp : q.cqPhase = 0 ∨ q.cqPhase = 1) (he : e.status.toNat < 2 ^ 15) :
    ((q.completion e).status >>> 1) &&& 0x7fff = e.status := by
  have hword := toNat_statusWord e.status hp
  have hbit : q.cqPhase.toNat < 2 := by rcases hp with hp | hp <;> rw [hp] <;> decide
  apply UInt16.toNat_inj.mp
  rw [UInt16.toNat_and, UInt16.toNat_shiftRight]
  show UInt16.toNat (_ ||| _) >>> 1 &&& (2 ^ 15 - 1) = _
  rw [hword, Nat.and_two_pow_sub_one_eq_mod, Nat.shiftRight_eq_div_pow]
  omega

theorem expected_iff (hp : p = 0 ∨ p = 1) :
    cqe.status &&& 1 = p.toUInt16 ↔ phaseTag cqe = (p == 1) := by
  have hbit : cqe.status &&& 1 = 0 ∨ cqe.status &&& 1 = 1 := by
    have hmod : (cqe.status &&& 1).toNat = cqe.status.toNat % 2 := by
      rw [UInt16.toNat_and]
      exact Nat.and_two_pow_sub_one_eq_mod cqe.status.toNat 1
    rcases Nat.mod_two_eq_zero_or_one cqe.status.toNat with hz | ho
    · exact .inl (UInt16.toNat_inj.mp (hmod.trans hz))
    · exact .inr (UInt16.toNat_inj.mp (hmod.trans ho))
  unfold phaseTag
  rcases hbit with hbit | hbit <;> rcases hp with rfl | rfl <;> rw [hbit] <;> decide

theorem InRange.postHead (h : q.InRange) : (q.postHead e).InRange :=
  { h with
    sqHead := nextIndex_lt (Nat.lt_of_lt_of_le Nat.two_pos h.two_le)
    cqTail := advance_lt q.cqTail (Nat.lt_of_lt_of_le Nat.two_pos h.two_le)
    cqPhase := flip_bit h.cqPhase _ }

theorem InRange.popHead (h : q.InRange) : q.popHead.InRange :=
  { h with
    cqHead := advance_lt q.cqHead (Nat.lt_of_lt_of_le Nat.two_pos h.two_le)
    cqExpectedPhase := flip_bit h.cqExpectedPhase _ }

theorem completions_postHead (h : q.InRange) :
    (q.postHead e).completions = q.completions.post q.qDepth.toNat (q.completion e) := by
  have hnext := advance_eq h.cqTail h.cqPhase
  simp only [PhaseRing.post, completions, hnext]
  rfl

theorem pollCq_eq (h : q.InRange) :
    (q.pollCq).map (fun r => (r.1, r.2.completions)) =
      q.completions.poll q.qDepth.toNat phaseTag := by
  have hnext := advance_eq h.cqHead h.cqExpectedPhase
  have hiff : (q.cq q.cqHead.toNat).status &&& 1 = q.cqExpectedPhase.toUInt16 ↔
      phaseTag (q.completions.slot q.completions.head) = q.completions.headPhase :=
    expected_iff h.cqExpectedPhase
  unfold pollCq PhaseRing.poll
  by_cases htag : phaseTag (q.completions.slot q.completions.head) = q.completions.headPhase
  · rw [if_pos htag, if_neg (not_not.mpr (hiff.mpr htag))]
    simp only [completions, hnext, map_some]
    rfl
  · rw [if_neg htag, if_pos fun heq => htag (hiff.mp heq)]
    rfl

theorem Outstanding.postHead (h : q.Outstanding es) (hr : q.InRange)
    (hroom : es.length < q.qDepth.toNat) : (q.postHead e).Outstanding (es ++ [q.completion e]) := by
  obtain ⟨n, hn⟩ := h
  refine ⟨n, ?_⟩
  rw [completions_postHead hr]
  exact hn.post hroom (phaseTag_completion hr.cqPhase)

theorem pollCq_none (h : q.Outstanding []) (hr : q.InRange) : q.pollCq = none := by
  obtain ⟨n, hn⟩ := h
  have heq := pollCq_eq hr
  rw [hn.poll_nil, map_eq_none_iff] at heq
  exact heq

theorem pollCq_some (h : q.Outstanding (cqe :: es)) (hr : q.InRange) :
    q.pollCq = some (cqe, q.popHead) ∧ q.popHead.Outstanding es := by
  obtain ⟨n, hn⟩ := h
  obtain ⟨r', hpoll, hholds⟩ := hn.poll_cons
  have heq := pollCq_eq hr
  rw [hpoll] at heq
  obtain ⟨⟨cqe', q'⟩, hq', hpair⟩ := map_eq_some_iff.mp heq
  obtain ⟨rfl, rfl⟩ := Prod.mk.inj hpair
  obtain rfl : q' = q.popHead := by
    obtain ⟨-, hsome⟩ := ite_none_left_eq_some.mp hq'
    exact (Prod.mk.inj (some.inj hsome)).2.symm
  exact ⟨hq', n + 1, hholds⟩

theorem doorbellLoop_one (hne : q.sqHead ≠ q.sqTail)
    (hnext : nextIndex q.sqHead q.qDepth = q.sqTail) : doorbellLoop env (n + 1) q c =
      some (q.postHead (q.execHead env c), (q.execHead env c).state, [q.execHead env c]) := by
  have hlast : ∀ m, doorbellLoop env m (q.postHead (q.execHead env c)) (q.execHead env c).state =
      some (q.postHead (q.execHead env c), (q.execHead env c).state, []) := by
    intro m
    unfold doorbellLoop
    exact if_pos hnext
  unfold doorbellLoop
  rw [if_neg hne]
  dsimp only
  rw [hlast]
  rfl

def rung (q : Queue) (cmd : Command) : Queue :=
  { q.enqueue cmd with sqDoorbellWrites := q.sqDoorbellWrites + 1 }

theorem InRange.rung (h : q.InRange) : (q.rung cmd).InRange :=
  { h with sqTail := nextIndex_lt (Nat.lt_of_lt_of_le Nat.two_pos h.two_le) }

theorem execHead_rung (h : q.Idle) :
    (q.rung cmd).execHead env c = c.exec env q.qid (q.stamp cmd) := by
  have hslot : (q.rung cmd).sq (q.rung cmd).sqHead.toNat = q.stamp cmd := by
    show Function.update q.sq q.sqTail.toNat _ q.sqHead.toNat = _
    rw [h.empty, Function.update_self]
  unfold execHead
  rw [hslot]
  rfl

theorem completion_rung_commandId (h : q.Idle) :
    ((q.rung cmd).completion e).commandId = q.nextCid := by
  show (Function.update q.sq q.sqTail.toNat (q.stamp cmd) q.sqHead.toNat).commandId = _
  rw [h.empty, Function.update_self]
  rfl

/-- A call of `nvme_submit_sync_cmd` on an idle queue executes its command, returns its completion
and leaves the queue idle. -/
theorem Idle.submitSyncCmd (h : q.Idle) (env : Env) (c : Ctrl) (cmd : Command) :
    ∃ q', q.submitSyncCmd env c cmd = some
        { code := (c.exec env q.qid (q.stamp cmd)).status.toNat
          cqe := some ((q.rung cmd).completion (c.exec env q.qid (q.stamp cmd)))
          executed := [c.exec env q.qid (q.stamp cmd)]
          queue := q'
          ctrl := (c.exec env q.qid (q.stamp cmd)).state } ∧
      q'.Idle ∧ q'.qid = q.qid := by
  have hexec : (q.rung cmd).execHead env c = c.exec env q.qid (q.stamp cmd) := execHead_rung h
  generalize hdone : c.exec env q.qid (q.stamp cmd) = e at hexec ⊢
  have hfits : e.status.toNat < 2 ^ 15 := hdone ▸ Ctrl.fits_exec q.qid
  have hr : (q.rung cmd).InRange := h.range.rung
  have hpos : 0 < q.qDepth.toNat := Nat.lt_of_lt_of_le Nat.two_pos h.range.two_le
  -- the controller takes the command
  have hne : (q.rung cmd).sqHead ≠ (q.rung cmd).sqTail := by
    show q.sqHead ≠ nextIndex q.sqTail q.qDepth
    rw [h.empty]
    exact nextIndex_ne h.range.two_le h.range.sqTail
  have hnext : nextIndex (q.rung cmd).sqHead (q.rung cmd).qDepth = (q.rung cmd).sqTail := by
    show nextIndex q.sqHead q.qDepth = nextIndex q.sqTail q.qDepth
    rw [h.empty]
  obtain ⟨n, hn⟩ : ∃ n, q.qDepth.toNat = n + 1 := ⟨q.qDepth.toNat - 1, by omega⟩
  have hring : (q.enqueue cmd).ringSqDoorbell env c =
      some ((q.rung cmd).postHead e, e.state, [e]) := by
    unfold ringSqDoorbell
    rw [show (q.enqueue cmd).qDepth.toNat = n + 1 from hn]
    rw [show ({ q.enqueue cmd with
        sqDoorbellWrites := (q.enqueue cmd).sqDoorbellWrites + 1 } : Queue)
      = q.rung cmd from rfl, doorbellLoop_one hne hnext, hexec]
  -- the driver takes the completion
  have hdrained : (q.rung cmd).Outstanding [] := h.drained
  have hposted := hdrained.postHead (e := e) hr hpos
  obtain ⟨hpoll, hrest⟩ := pollCq_some hposted hr.postHead
  refine ⟨((q.rung cmd).postHead e).popHead, ?_, ⟨hr.postHead.popHead, hnext, hrest⟩, rfl⟩
  unfold Queue.submitSyncCmd
  rw [hring]
  simp only [map_some, hpoll, status_completion hr.cqPhase hfits]

theorem idle_initQueue (k : QueueId) : (initQueue k).Idle where
  range := by cases k <;> constructor <;> decide
  empty := rfl
  drained := by
    have hblank : phaseTag {} = false := by decide
    refine ⟨0, PhaseRing.holds_empty ?_ rfl rfl rfl rfl fun _ _ => hblank⟩
    cases k <;> decide

end Queue

namespace Driver

variable {env : Env} {d d' : Driver} {c : Ctrl} {op : Op} {k : QueueId}

structure Idle (d : Driver) : Prop where
  adminQ : d.adminQ.Idle
  ioQ : d.ioQ.Idle
  adminId : d.adminQ.qid = .admin
  ioId : d.ioQ.qid = .io

theorem idle_start (c : Ctrl) : (start c).Idle :=
  ⟨Queue.idle_initQueue .admin, Queue.idle_initQueue .io, rfl, rfl⟩

theorem Idle.queue (h : d.Idle) (k : QueueId) : (d.queue k).Idle ∧ (d.queue k).qid = k := by
  cases k with
  | admin => exact ⟨h.adminQ, h.adminId⟩
  | io => exact ⟨h.ioQ, h.ioId⟩

theorem Idle.setQueue (h : d.Idle) (hq : q.Idle) (hk : q.qid = k) :
    ({ d.setQueue k q with ctrl := c } : Driver).Idle := by
  cases k with
  | admin => exact ⟨hq, h.ioQ, hk, h.ioId⟩
  | io => exact ⟨h.adminQ, hq, h.adminId, hk⟩

theorem Idle.submit (h : d.Idle) (env : Env) (k : QueueId) (cmd : Command) :
    ∃ d', d.step env (.submit k cmd) = some d' ∧ d'.Idle ∧
      d'.ctrl = (d.ctrl.exec env k ((d.queue k).stamp cmd)).state := by
  obtain ⟨hq, hk⟩ := h.queue k
  obtain ⟨q', hsub, hidle, hqid⟩ := hq.submitSyncCmd env d.ctrl cmd
  rw [hk] at hsub
  exact ⟨_, congrArg (Option.map _) hsub, h.setQueue hidle (hqid.trans hk), rfl⟩

theorem Idle.step_submit (h : d.Idle) (hstep : d.step env (.submit k cmd) = some d') :
    d'.Idle ∧ d'.ctrl = (d.ctrl.exec env k ((d.queue k).stamp cmd)).state := by
  obtain ⟨d'', hd'', hidle, hctrl⟩ := h.submit env k cmd
  cases hd''.symm.trans hstep
  exact ⟨hidle, hctrl⟩

theorem Idle.step (h : d.Idle) (hstep : d.step env op = some d') : d'.Idle := by
  cases op with
  | submit k cmd => exact (h.step_submit hstep).1
  | reset =>
    cases hstep
    exact ⟨Queue.idle_initQueue .admin, Queue.idle_initQueue .io, rfl, rfl⟩

theorem idle_of_reaches {Guard : Driver → Op → Prop}
    (h : Reaches (step env) Guard (start c) d) : d.Idle := by
  apply h.invariant (P := Idle)
  · exact idle_start c
  · exact fun d op d' hd _ hstep => hd.step hstep

/-- After every run, the poll of either queue finds nothing that an earlier command left, and a call
of `nvme_submit_sync_cmd` executes its command once and returns its completion: it has the id that
the command got, and the return value is the status of the execution. -/
theorem submit_returns_own_completion (h : Reaches (step env) (fun _ _ => True) (start c) d)
    (k : QueueId) (cmd : Command) : (d.queue k).pollCq = none ∧ ∃ cqe q', d.submit env k cmd = some
        { code := (d.ctrl.exec env k ((d.queue k).stamp cmd)).status.toNat
          cqe := some cqe
          executed := [d.ctrl.exec env k ((d.queue k).stamp cmd)]
          queue := q'
          ctrl := (d.ctrl.exec env k ((d.queue k).stamp cmd)).state } ∧
      cqe.commandId = ((d.queue k).stamp cmd).commandId ∧
      cqe.sqId = k.number ∧
      cqe.result = (d.ctrl.exec env k ((d.queue k).stamp cmd)).result ∧
      (cqe.status >>> 1) &&& 0x7fff = (d.ctrl.exec env k ((d.queue k).stamp cmd)).status := by
  obtain ⟨hq, hk⟩ := (idle_of_reaches h).queue k
  obtain ⟨q', hsub, -, -⟩ := hq.submitSyncCmd env d.ctrl cmd
  rw [hk] at hsub
  refine ⟨Queue.pollCq_none hq.drained hq.range, _, q', hsub, ?_, ?_, rfl, ?_⟩
  · exact Queue.completion_rung_commandId hq
  · show (d.queue k).qid.number = k.number
    rw [hk]
  · exact Queue.status_completion hq.range.cqPhase (Ctrl.fits_exec k)

/-- The surroundings and the controller of the runs below: a file of eight sectors that holds the
namespace, with the factory firmware in the first slot. -/
def anEnv : Env := { compress := fun h _ => h, jiffies := 0 }
def aCtrl : Ctrl where
  online := true
  img := ⟨4096, 4096, fun _ => 0, by decide, by decide, fun _ _ => rfl⟩
  pos := 0
  base := 0
  sectors := 8
  smart := {}
  activeFwSlot := 1
  fwSlots := fun slot i => if slot = 0 ∧ i = 0 then 0x31 else 0x20
  fwSlotSha256 := fun _ _ => 0
  fwCommitCount := 0
  fwStream := {}

/-- A flush, a reset and another flush, and then a command with the next id. -/
theorem submit_returns_own_completion_after_flushes :
    ∃ d done cqe, run (step anEnv) (start aCtrl)
        [.submit .io { opcode := 0 }, .reset, .submit .io { opcode := 0 }] = some d ∧
      (d.queue .io).pollCq = none ∧ d.submit anEnv .io { opcode := 0 } = some done ∧
      done.cqe = some cqe ∧ cqe.commandId = 2 := by
  have hrun : ∃ d, run (step anEnv) (start aCtrl)
      [.submit .io { opcode := 0 }, .reset, .submit .io { opcode := 0 }] = some d ∧
      d.ioQ.nextCid = 2 := ⟨_, rfl, rfl⟩
  obtain ⟨d, hd, hcid⟩ := hrun
  obtain ⟨hpoll, cqe, q', hsub, hid, -⟩ :=
    submit_returns_own_completion (reaches_of_run _ hd) .io { opcode := 0 }
  exact ⟨d, _, cqe, hd, hpoll, hsub, rfl, hid.trans hcid⟩

end Driver

end Six.Nvme
