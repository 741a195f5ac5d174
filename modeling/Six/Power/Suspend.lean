import Six.Lib.Run
import Six.Power.Driver

/-! When the host suspend call is entered. -/

namespace Six.Power

open Lib Errno List

variable {i : Nat} {name : List UInt8} {s : PmState} {tbl : List WakeLock}

def OnlyDisplay (wlTable : List WakeLock) : Prop :=
  ∀ wl ∈ wlTable, wl.active = true → wl.name = display

structure SafeEntry (s : PmState) (q : Suspend) : Prop where
  locks : OnlyDisplay s.wlTable
  checked : ∀ c, q.armed = some c → s.events = c
  armed : ∀ c, s.armedAt = some c → s.events = c
  alone : s.waiting = []

/-- One more wakeup event can be told from none since the wakeup count was armed. -/
def PmState.CountRoom (s : PmState) : Prop := ∀ c, s.armedAt = some c → s.events + 1 < c + 2 ^ 32

/-- An unlock of `name` counts no event that a waiting task has to see, and the 32-bit count does
not come round to where it was armed. -/
def UnlockQuiet (s : PmState) (name : List UInt8) : Prop :=
  (∃ i, findWakelock s name = some i ∧ s.isActive i = true) →
    s.CountRoom ∧ (s.waiting ≠ [] → s.armedAt = none ∧ ∀ q ∈ s.waiting, q.armed = none)

/-- The step leaves a waiting suspend alone: while a task waits in `sys_sync`, no other write asks
for suspend, no lock but the display one is taken, and no wakeup event is counted if a wakeup count
is armed. -/
def Quiet (s : PmState) : Label → Prop
  | .write .state buf =>
    (isSleep (word buf) = true → s.waiting = []) ∧ (word buf = wAutosuspend → UnlockQuiet s display)
  | .write .wakeLock buf =>
    s.waiting = [] ∨ word buf = [] ∨ word buf = display ∨ findOrAllocWakelock s (word buf) = none
  | .write .wakeUnlock buf => UnlockQuiet s (word buf)
  | .write .wakeupCount _ => True
  | .write .wakealarm _ => True
  | .dStateCleared => True
  | .syncDone _ _ => True
  | .hostReturn => s.CountRoom

structure Counted (s : PmState) : Prop where
  count : s.wakeupEventCount = UInt32.ofNat s.events
  check : s.eventsCheckEnabled = s.armedAt.isSome
  saved : ∀ c, s.armedAt = some c →
    s.savedWakeupCount = UInt32.ofNat c ∧ c ≤ s.events ∧ s.events < c + 2 ^ 32

def PmState.suspends (s : PmState) : List Suspend := s.waiting ++ s.host.toList

structure Held (s : PmState) : Prop where
  one : s.suspends.length ≤ 1
  flag : s.inSuspend = false → s.suspends = []
  locks : s.suspends ≠ [] → OnlyDisplay s.wlTable
  checked : ∀ q ∈ s.suspends, ∀ c, q.armed = some c → s.events = c
  armed : s.suspends ≠ [] → ∀ c, s.armedAt = some c → s.events = c

structure Inv (s : PmState) : Prop where
  counted : Counted s
  held : Held s

theorem forall_mem_modify {α : Type} {P : α → Prop} {f : α → α} {l : List α} (h : ∀ a ∈ l, P a)
    (hf : ∀ a ∈ l, P (f a)) : ∀ a ∈ l.modify i f, P a := by
  intro a ha
  obtain ⟨j, hj, rfl⟩ := getElem_of_mem ha
  rw [length_modify] at hj
  rw [getElem_modify]
  split
  · exact hf _ (getElem_mem _)
  · exact h _ (getElem_mem _)

theorem onlyDisplay_of_none (h : (pmFirstActiveNonDisplayWakelock s).isSome = false) :
    OnlyDisplay s.wlTable := by
  intro wl hwl hactive
  rw [Option.isSome_eq_false_iff, Option.isNone_iff_eq_none, pmFirstActiveNonDisplayWakelock,
    find?_eq_none] at h
  have hwl := h wl hwl
  simpa [hactive] using hwl

theorem onlyDisplay_setActive_false (h : OnlyDisplay s.wlTable) (i : Nat) :
    OnlyDisplay (s.setActive i false).wlTable :=
  forall_mem_modify h fun _ _ hfalse => by cases hfalse

theorem onlyDisplay_modify (h : OnlyDisplay tbl)
    (hi : ∀ wl, tbl[i]? = some wl → wl.name = display) :
    OnlyDisplay (tbl.modify i ({ · with active := true })) := by
  intro wl hwl hactive
  obtain ⟨j, hj, rfl⟩ := getElem_of_mem hwl
  rw [length_modify] at hj
  rw [getElem_modify] at hactive ⊢
  by_cases hij : i = j
  · subst hij
    rw [if_pos rfl]
    exact hi tbl[i] (getElem?_eq_getElem hj)
  · rw [if_neg hij] at hactive ⊢
    exact h _ (getElem_mem hj) hactive

theorem findWakelock_name (h : findWakelock s name = some i) :
    ∀ wl, s.wlTable[i]? = some wl → wl.name = name := by
  intro wl hwl
  obtain ⟨hi, hname, -⟩ := findIdx?_eq_some_iff_getElem.mp h
  rw [getElem?_eq_getElem hi] at hwl
  cases hwl
  exact beq_iff_eq.mp hname

theorem findOrAllocWakelock_frame (h : findOrAllocWakelock s name = some (i, s')) :
    ∃ tbl, s' = { s with wlTable := tbl } ∧ (OnlyDisplay s.wlTable → OnlyDisplay tbl) ∧
      (name = display → ∀ wl, tbl[i]? = some wl → wl.name = display) := by
  unfold findOrAllocWakelock at h
  split at h
  · rename_i j hfind
    cases h
    exact ⟨s.wlTable, rfl, fun h => h, fun hname => hname ▸ findWakelock_name hfind⟩
  · split at h
    · cases h
      refine ⟨_, rfl, fun h wl hwl hactive => ?_, ?_⟩
      · rcases mem_append.mp hwl with hold | hnew
        · exact h wl hold hactive
        · rw [mem_singleton.mp hnew] at hactive
          cases hactive
      · rintro rfl wl hwl
        rw [getElem?_append_right (Nat.le_refl _), Nat.sub_self] at hwl
        cases hwl
        rfl
    · cases h

theorem pmWakeLock_frame (s : PmState) (name : List UInt8) :
    ∃ tbl auto, (pmWakeLock s name).2 = { s with wlTable := tbl, autosuspendEnabled := auto } ∧
      (name = [] ∨ name = display ∨ findOrAllocWakelock s name = none →
        OnlyDisplay s.wlTable → OnlyDisplay tbl) := by
  unfold pmWakeLock
  by_cases hname : name = []
  · rw [if_pos hname]
    exact ⟨s.wlTable, s.autosuspendEnabled, rfl, fun _ h => h⟩
  rw [if_neg hname]
  cases halloc : findOrAllocWakelock s name with
  | none => exact ⟨s.wlTable, s.autosuspendEnabled, rfl, fun _ h => h⟩
  | some r =>
    obtain ⟨i, s'⟩ := r
    obtain ⟨tbl, rfl, honly, hentry⟩ := findOrAllocWakelock_frame halloc
    refine ⟨tbl.modify i ({ · with active := true }),
      if name = display then false else s.autosuspendEnabled, ?_, fun hor h => ?_⟩
    · by_cases hdisp : name = display
      · simp only [if_pos hdisp]
        rfl
      · simp only [if_neg hdisp]
        rfl
    · have hdisp : name = display := by simpa [hname] using hor
      exact onlyDisplay_modify (honly h) (hentry hdisp)

section Step

variable {s : PmState} {t : PmState}

theorem Inv.setTable (h : Inv s) (auto : Bool) (hlocks : s.suspends ≠ [] → OnlyDisplay tbl) :
    Inv { s with wlTable := tbl, autosuspendEnabled := auto } :=
  ⟨⟨h.counted.count, h.counted.check, h.counted.saved⟩,
    ⟨h.held.one, h.held.flag, hlocks, h.held.checked, h.held.armed⟩⟩

theorem Inv.wakeLock (h : Inv s)
    (hquiet : s.suspends = [] ∨ name = [] ∨ name = display ∨ findOrAllocWakelock s name = none) :
    Inv (pmWakeLock s name).2 := by
  obtain ⟨tbl, auto, heq, honly⟩ := pmWakeLock_frame s name
  rw [heq]
  apply h.setTable
  intro hsusp
  rcases hquiet with hnone | hname
  · exact absurd hnone hsusp
  · exact honly hname (h.held.locks hsusp)

theorem Inv.arm (h : Inv s) : Inv s.arm := by
  refine ⟨⟨h.counted.count, rfl, fun c hc => ?_⟩,
    ⟨h.held.one, h.held.flag, h.held.locks, h.held.checked, fun _ c hc => ?_⟩⟩
  · cases hc
    exact ⟨h.counted.count, Nat.le_refl _, Nat.lt_add_of_pos_right (by decide)⟩
  · cases hc
    rfl

theorem Inv.disarm (h : Inv s) : Inv s.disarm :=
  ⟨⟨h.counted.count, rfl, fun _ hc => nomatch hc⟩,
    ⟨h.held.one, h.held.flag, h.held.locks, h.held.checked, fun _ _ hc => nomatch hc⟩⟩

theorem Counted.countEvent (h : Counted s) (hroom : s.CountRoom) : Counted s.countEvent := by
  refine ⟨?_, h.check, fun c hc => ?_⟩
  · show s.wakeupEventCount + 1 = UInt32.ofNat (s.events + 1)
    rw [h.count, UInt32.ofNat_add]
    rfl
  · obtain ⟨hsaved, hle, -⟩ := h.saved c hc
    exact ⟨hsaved, Nat.le_succ_of_le hle, hroom c hc⟩

theorem Inv.countEvent (h : Inv s) (hroom : s.CountRoom)
    (hquiet : s.suspends ≠ [] → s.armedAt = none ∧ ∀ q ∈ s.suspends, q.armed = none) :
    Inv s.countEvent := by
  refine ⟨h.counted.countEvent hroom,
    ⟨h.held.one, h.held.flag, h.held.locks, fun q hq c hc => ?_, fun hsusp c hc => ?_⟩⟩
  · have hnone := (hquiet (ne_nil_of_mem hq)).2 q hq
    rw [hnone] at hc
    cases hc
  · have hnone : s.countEvent.armedAt = none := (hquiet hsusp).1
    rw [hnone] at hc
    cases hc

theorem Inv.of_idle (h : Counted s) (hidle : s.suspends = []) : Inv s := by
  refine ⟨h, ?_, fun _ => hidle, fun hne => absurd hidle hne, ?_, fun hne => absurd hidle hne⟩
  · rw [hidle]
    exact Nat.zero_le 1
  · rw [hidle]
    intro q hq
    cases hq

theorem Inv.enterSuspend (h : Inv s) (hsusp : s.suspends = []) : Inv (pmEnterSuspend s).2 := by
  unfold pmEnterSuspend
  by_cases hlock : (pmFirstActiveNonDisplayWakelock s).isSome = true
  · rw [if_pos hlock]
    exact h
  rw [if_neg hlock]
  by_cases hcheck : s.eventsCheckEnabled = true ∧ s.wakeupEventCount ≠ s.savedWakeupCount
  · rw [if_pos hcheck]
    exact h.disarm
  rw [if_neg hcheck]
  have honly := onlyDisplay_of_none (Bool.eq_false_iff.mpr hlock)
  obtain ⟨hwait, hhost⟩ := append_eq_nil_iff.mp hsusp
  have hnew : s.beginSuspend.suspends = [⟨s.armedAt⟩] := by
    show s.waiting ++ [⟨s.armedAt⟩] ++ s.host.toList = _
    rw [hwait, hhost]
    rfl
  -- the count was compared with the value at which it was armed
  have hchecked : ∀ c, s.armedAt = some c → s.events = c := by
    intro c hc
    obtain ⟨hsaved, hle, hlt⟩ := h.counted.saved c hc
    have henabled : s.eventsCheckEnabled = true := by rw [h.counted.check, hc]; rfl
    have heq : s.wakeupEventCount = s.savedWakeupCount := by
      by_contra hne
      exact hcheck ⟨henabled, hne⟩
    rw [h.counted.count, hsaved] at heq
    have hnat := congrArg UInt32.toNat heq
    simp only [UInt32.toNat_ofNat'] at hnat
    omega
  have hinv : Inv s.beginSuspend := by
    refine ⟨⟨h.counted.count, rfl, fun _ hc => nomatch hc⟩,
      ⟨?_, (nomatch ·), fun _ => honly, ?_, fun _ _ hc => nomatch hc⟩⟩
    · rw [hnew]
      exact Nat.le_refl 1
    · rw [hnew]
      intro q hq
      rw [mem_singleton.mp hq]
      exact hchecked
  split
  · exact hinv
  · exact hinv.setTable _ fun _ => onlyDisplay_setActive_false honly _

theorem Inv.release (h : Inv s) (hquiet : s.isActive i = true → s.CountRoom ∧
      (s.suspends ≠ [] → s.armedAt = none ∧ ∀ q ∈ s.suspends, q.armed = none)) :
    Inv (if s.isActive i then (s.setActive i false).countEvent else s) := by
  split
  · rename_i hactive
    have hset : Inv (s.setActive i false) :=
      h.setTable s.autosuspendEnabled fun hsusp =>
        onlyDisplay_setActive_false (h.held.locks hsusp) i
    exact hset.countEvent (hquiet hactive).1 (hquiet hactive).2
  · exact h

theorem Inv.autosuspend (h : Inv s) (name : List UInt8) : Inv (pmAutosuspend s name).2 := by
  unfold pmAutosuspend
  by_cases hcond : (!s.inSuspend && s.autosuspendEnabled) = true
  · rw [if_pos hcond]
    have hidle : s.suspends = [] := by
      apply h.held.flag
      simpa using (Bool.and_eq_true_iff.mp hcond).1
    cases pmFirstActiveWakelock s with
    | none => exact h.arm.enterSuspend hidle
    | some wl =>
      by_cases hname : name = display
      · simp only [if_pos hname]
        exact h.enterSuspend hidle
      · simp only [if_neg hname]
        exact h
  · rw [if_neg hcond]
    exact h

theorem suspends_of_host (hhost : s.host = none) : s.suspends = s.waiting := by
  rw [PmState.suspends, hhost, Option.toList_none, append_nil]

theorem Inv.wakeUnlock (h : Inv s) (hhost : s.host = none)
    (hquiet : UnlockQuiet s name) : Inv (pmWakeUnlock s name).2 := by
  unfold pmWakeUnlock
  by_cases hname : name = []
  · rw [if_pos hname]
    exact h
  rw [if_neg hname]
  cases hfind : findWakelock s name with
  | none => exact h
  | some i =>
    have hwaiting := suspends_of_host hhost
    have hactive : s.isActive i = true → s.CountRoom ∧
        (s.suspends ≠ [] → s.armedAt = none ∧ ∀ q ∈ s.suspends, q.armed = none) := by
      intro hi
      rw [hwaiting]
      exact hquiet ⟨i, hfind, hi⟩
    apply Inv.autosuspend
    by_cases hdisp : name = display
    · rw [if_pos hdisp]
      exact (h.setTable true h.held.locks).release hactive
    · rw [if_neg hdisp]
      exact h.release hactive

theorem Inv.notifyDStateCleared (h : Inv s) : Inv (pmNotifyDStateCleared s) := by
  unfold pmNotifyDStateCleared
  split
  · rename_i hcond
    have hidle : s.suspends = [] := by
      apply h.held.flag
      simp only [Bool.and_eq_true, Bool.not_eq_true'] at hcond
      exact hcond.1.1
    exact h.arm.enterSuspend hidle
  · exact h

theorem Inv.afterSync (h : Inv s) (hhost : s.host = none)
    (hstep : pmAfterSync s i dTasks = some t) : Inv t := by
  have hwaiting := suspends_of_host hhost
  unfold pmAfterSync at hstep
  split at hstep
  · cases hstep
  · rename_i q hq
    have hone := h.held.one
    have hlt := (List.getElem?_eq_some_iff.mp hq).1
    rw [hwaiting] at hone
    obtain ⟨q', hsingle⟩ := length_eq_one_iff.mp (show s.waiting.length = 1 by omega)
    obtain rfl : i = 0 := by omega
    obtain rfl : q' = q := by simpa [hsingle] using hq
    have herase : s.waiting.eraseIdx 0 = [] := by rw [hsingle]; rfl
    rw [herase] at hstep
    cases hstep
    cases dTasks with
    | true =>
      refine Inv.of_idle ⟨h.counted.count, h.counted.check, h.counted.saved⟩ ?_
      rw [hhost]
      rfl
    | false =>
      have hsame : ({ s with waiting := [], host := some q' } : PmState).suspends = s.suspends := by
        rw [hwaiting, hsingle]
        rfl
      refine ⟨⟨h.counted.count, h.counted.check, h.counted.saved⟩, ?_⟩
      constructor
      · exact hsame ▸ h.held.one
      · exact fun hflag => hsame.trans (h.held.flag hflag)
      · exact fun hne => h.held.locks (hsame ▸ hne)
      · exact fun q hq => h.held.checked q (hsame ▸ hq)
      · exact fun hne => h.held.armed (hsame ▸ hne)

theorem Inv.afterHost (h : Inv s) (hroom : s.CountRoom) (hstep : pmAfterHost s = some t) :
    Inv t := by
  unfold pmAfterHost at hstep
  split at hstep
  · cases hstep
  · rename_i q hhost
    have hone := h.held.one
    have hwait : s.waiting = [] := by
      rw [PmState.suspends, hhost, length_append] at hone
      exact length_eq_zero_iff.mp (by simpa using hone)
    have hcounted := h.counted.countEvent hroom
    cases hstep
    refine Inv.wakeLock ?_ (.inr (.inr (.inl rfl)))
    refine Inv.of_idle ⟨hcounted.count, hcounted.check, hcounted.saved⟩ ?_
    show s.waiting ++ [] = []
    rw [hwait]
    rfl

theorem Inv.powerWrite (h : Inv s) (hhost : s.host = none)
    (hquiet : Quiet s (.write minor buf)) : Inv (powerWrite s minor buf).2 := by
  have hwaiting := suspends_of_host hhost
  unfold Power.powerWrite
  by_cases hempty : word buf = []
  · simp only [if_pos hempty]
    exact h
  simp only [if_neg hempty]
  cases minor with
  | state =>
    dsimp only
    split
    · exact h.disarm.wakeLock (.inr (.inr (.inl rfl)))
    · split
      · rename_i hauto
        exact h.wakeUnlock hhost (hquiet.2 hauto)
      · split
        · rename_i hsleep
          exact h.enterSuspend (hwaiting.trans (hquiet.1 hsleep))
        · exact h
  | wakeLock => exact h.wakeLock (hquiet.imp_left hwaiting.trans)
  | wakeUnlock => exact h.wakeUnlock hhost hquiet
  | wakeupCount =>
    dsimp only
    split
    · exact h
    · exact h.arm
  | wakealarm =>
    exact ⟨⟨h.counted.count, h.counted.check, h.counted.saved⟩,
      ⟨h.held.one, h.held.flag, h.held.locks, h.held.checked, h.held.armed⟩⟩

theorem Inv.step (h : Inv s) (hquiet : Quiet s l) (hstep : Power.step s l = some t) : Inv t := by
  cases l with
  | write minor buf =>
    simp only [Power.step] at hstep
    split at hstep
    · cases hstep
    · rename_i hhost
      cases hstep
      exact h.powerWrite (by simpa using hhost) hquiet
  | dStateCleared =>
    simp only [Power.step] at hstep
    split at hstep
    · cases hstep
    · cases hstep
      exact h.notifyDStateCleared
  | syncDone i dTasks =>
    simp only [Power.step] at hstep
    split at hstep
    · cases hstep
    · rename_i hhost
      exact h.afterSync (by simpa using hhost) hstep
  | hostReturn => exact h.afterHost hquiet hstep

end Step

theorem inv_powerDevInit : Inv powerDevInit := by
  refine Inv.of_idle ⟨by decide, by decide, fun c hc => ?_⟩ (by decide)
  have hnone : powerDevInit.armedAt = none := by decide
  rw [hnone] at hc
  cases hc

/-- In a quiet run at most one task is in `pm_enter_suspend`, and the host suspend call is entered
only when it is safe. -/
theorem quiet_suspend_safe {s : PmState} (h : Reaches step Quiet powerDevInit s) :
    s.suspends.length ≤ 1 ∧ ∀ q, s.host = some q → SafeEntry s q := by
  have hinv : Inv s := h.invariant inv_powerDevInit fun a l b ha hq hs => ha.step hq hs
  refine ⟨hinv.held.one, fun q hhost => ?_⟩
  have hmem : q ∈ s.suspends := mem_append_right _ (by rw [hhost]; exact mem_singleton_self q)
  have hne := ne_nil_of_mem hmem
  refine ⟨hinv.held.locks hne, hinv.held.checked q hmem, hinv.held.armed hne, ?_⟩
  have hone := hinv.held.one
  rw [PmState.suspends, hhost, length_append] at hone
  exact length_eq_zero_iff.mp (by simpa using hone)

/-- A task arms the wakeup count and writes `mem`.  While it waits in `sys_sync`, another task takes
the display lock. -/
theorem armed_suspend_safe : ∃ s q, Reaches step Quiet powerDevInit s ∧ s.host = some q ∧
    q.armed = some 1 ∧ s.isActive 0 = true ∧ SafeEntry s q := by
  have harmed : Reaches step Quiet powerDevInit (powerWrite powerDevInit .wakeupCount [49]).2 :=
    .tail (i := .write .wakeupCount [49]) .refl trivial rfl
  have hquiet : Quiet (powerWrite powerDevInit .wakeupCount [49]).2 (.write .state wMem) :=
    ⟨fun _ => by decide, fun h => absurd h (by decide)⟩
  have hwait := harmed.tail hquiet rfl
  have hdisplay : Quiet (powerWrite (powerWrite powerDevInit .wakeupCount [49]).2 .state wMem).2
      (.write .wakeLock display) := .inr (.inr (.inl (by decide)))
  have hhost := Reaches.tail (i := Label.syncDone 0 false) (hwait.tail hdisplay rfl) trivial rfl
  exact ⟨_, _, hhost, rfl, rfl, by decide, (quiet_suspend_safe hhost).2 _ rfl⟩

/-- While a task that wrote `mem` waits in `sys_sync`, another takes the lock `a`: the host suspend
call is entered with `a` active.  A second write of `mem` during the wait starts a second
suspend. -/
theorem lock_taken_during_sync :
    (∃ s q, Reaches step (fun _ _ => True) powerDevInit s ∧ s.host = some q ∧
      ⟨[97], true⟩ ∈ s.wlTable) ∧
    ∃ s, Reaches step (fun _ _ => True) powerDevInit s ∧ s.suspends.length = 2 :=
  ⟨⟨_, _, reaches_of_run [.write .state wMem, .write .wakeLock [97], .syncDone 0 false] rfl, rfl,
      by decide⟩, ⟨_, reaches_of_run [.write .state wMem, .write .state wMem] rfl, rfl⟩⟩

end Six.Power
