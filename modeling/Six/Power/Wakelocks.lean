import Six.Lib.Run
import Six.Lib.Table
import Six.Power.Driver

/-! The wakelock table over sequences of calls.  A name is stored cut to 47 characters and compared
as a whole. -/

namespace Six.Power

open Lib List Function Table

/-- The driver, and for each name whether the last call on it was a lock. -/
structure Calls where
  pm : PmState
  held : List UInt8 → Bool

inductive WlCall
  /-- a call of `pm_wake_lock` or of `pm_wake_unlock`, up to its end or to `sys_sync` -/
  | call (name : List UInt8) (lock : Bool)
  /-- the waiting task `i` goes on after `sys_sync`, to the end of its call -/
  | resume (i : Nat) (dTasks : Bool)
  /-- the variables of the driver that the calls do not share change -/
  | other (rest : PmState)

/-- The control file passes no empty name on. -/
def Calls.step (x : Calls) : WlCall → Option Calls
  | .call name lock =>
    if name = [] then none
    else some ⟨if lock then (pmWakeLock x.pm name).2 else (pmWakeUnlock x.pm name).2,
      update x.held name lock⟩
  | .resume i dTasks =>
    (pmAfterSync x.pm i dTasks).bind fun s =>
      (if dTasks then some s else pmAfterHost s).map (⟨·, x.held⟩)
  | .other rest => some ⟨{ rest with wlTable := x.pm.wlTable, waiting := x.pm.waiting }, x.held⟩

def entryOf (tbl : List WakeLock) (name : List UInt8) : Option WakeLock :=
  Table.find WakeLock.name tbl name

/-- The name of a lock is stored as it is, and has an entry in the table or room for one.  A suspend
that an unlock has begun does not take place, or the display lock is held when it does. -/
def Fits (x : Calls) : WlCall → Prop
  | .call name lock => lock = true → name.length ≤ 47 ∧
      ((entryOf x.pm.wlTable name).isSome ∨ x.pm.wlTable.length < maxWakelocks)
  | .resume _ dTasks => dTasks = true ∨ x.held display = true
  | .other _ => True

/-- There is one entry for a name, and it is active when the last call on the name was a lock. -/
structure Calls.Ok (x : Calls) : Prop where
  unique : (x.pm.wlTable.map WakeLock.name).Nodup
  active : ∀ name, (entryOf x.pm.wlTable name).any (·.active) = x.held name

def setEntry (tbl : List WakeLock) (name : List UInt8) (b : Bool) : List WakeLock :=
  Table.update WakeLock.name tbl name ({ · with active := b })

variable {s : PmState} {tbl : List WakeLock} {name : List UInt8} {i : Nat} {b : Bool}

theorem entryOf_setEntry_self :
    entryOf (setEntry tbl name b) name = (entryOf tbl name).map ({ · with active := b }) :=
  find_update_self fun _ => rfl

theorem entryOf_setEntry_of_ne (h : m ≠ name) :
    entryOf (setEntry tbl name b) m = entryOf tbl m :=
  find_update_of_ne (f := fun wl : WakeLock => { wl with active := b }) (fun _ => rfl) h

theorem setEntry_of_same (h : ∀ wl, entryOf tbl name = some wl → wl.active = b) :
    setEntry tbl name b = tbl := by
  cases hfind : entryOf tbl name with
  | none => exact update_of_find_eq_none hfind
  | some wl =>
    have hwl : { wl with active := b } = wl := by rw [← h wl hfind]
    exact (Table.update_congr hfind hwl).trans update_id

theorem setEntry_of_inactive (h : (entryOf tbl name).any (·.active) = false) :
    setEntry tbl name false = tbl :=
  setEntry_of_same fun wl hwl => by simpa [hwl] using h

theorem setActive_table (h : findWakelock s name = some i) (b : Bool) :
    (s.setActive i b).wlTable = setEntry s.wlTable name b :=
  (of_findIdx? h).2.symm

theorem entryOf_of_some (h : findWakelock s name = some i) :
    entryOf s.wlTable name = s.wlTable[i]? :=
  (of_findIdx? (f := id) h).1

theorem entryOf_of_none (h : findWakelock s name = none) : entryOf s.wlTable name = none := by
  refine find_eq_none_iff.mpr fun hmem => ?_
  obtain ⟨wl, hwl, heq⟩ := mem_map.mp hmem
  simpa [heq] using findIdx?_eq_none_iff.mp h wl hwl

theorem pmEnterSuspend_table (h : (entryOf s.wlTable display).any (·.active) = false) :
    (pmEnterSuspend s).2.wlTable = s.wlTable := by
  unfold pmEnterSuspend
  split
  · rfl
  split
  · rfl
  cases hfind : findWakelock s display with
  | none => rfl
  | some i => exact (setActive_table hfind false).trans (setEntry_of_inactive h)

theorem pmAutosuspend_table
    (h : name = display → (entryOf s.wlTable display).any (·.active) = false) :
    (pmAutosuspend s name).2.wlTable = s.wlTable := by
  unfold pmAutosuspend
  split
  · split
    · rename_i hnone
      refine pmEnterSuspend_table (s := s.arm) ?_
      cases hfind : entryOf s.arm.wlTable display with
      | none => rfl
      | some wl => simpa using find?_eq_none.mp hnone wl (find_mem hfind)
    · split
      · rename_i hname
        exact pmEnterSuspend_table (h hname)
      · rfl
  · rfl

theorem pmWakeUnlock_table (hname : name ≠ []) :
    (pmWakeUnlock s name).2.wlTable = setEntry s.wlTable name false := by
  unfold pmWakeUnlock
  rw [if_neg hname]
  cases hfind : findWakelock s name with
  | none => exact (update_of_find_eq_none (entryOf_of_none hfind)).symm
  | some i =>
    generalize hs' : (if name = display then { s with autosuspendEnabled := true } else s) = s'
    have hsame : s'.wlTable = s.wlTable := by
      rw [← hs']
      split <;> rfl
    have hfind' : findWakelock s' name = some i := by rw [findWakelock, hsame]; exact hfind
    have hrel : (if s'.isActive i then (s'.setActive i false).countEvent else s').wlTable =
        setEntry s.wlTable name false := by
      rw [← hsame]
      split
      · exact setActive_table hfind' false
      · rename_i hidle
        refine (setEntry_of_inactive ?_).symm
        rw [entryOf_of_some hfind']
        simpa [PmState.isActive] using hidle
    rw [pmAutosuspend_table fun hdisp => ?_, hrel]
    rw [hrel, hdisp, entryOf_setEntry_self]
    cases entryOf s.wlTable display <;> rfl

/-- A lock makes an entry first if there is none. -/
theorem pmWakeLock_table (hname : name ≠ []) (hlen : name.length ≤ 47)
    (hroom : (entryOf s.wlTable name).isSome ∨ s.wlTable.length < maxWakelocks) :
    (pmWakeLock s name).2.wlTable = setEntry
      (if (entryOf s.wlTable name).isSome then s.wlTable else s.wlTable ++ [⟨name, false⟩])
      name true := by
  have htable : ∀ i s', findOrAllocWakelock s name = some (i, s') →
      (pmWakeLock s name).2.wlTable = (s'.setActive i true).wlTable := by
    intro i s' h
    simp only [pmWakeLock, if_neg hname, h]
    split <;> rfl
  cases hfind : findWakelock s name with
  | some i =>
    have hsome : (entryOf s.wlTable name).isSome := by
      obtain ⟨hi, -⟩ := findIdx?_eq_some_iff_getElem.mp hfind
      rw [entryOf_of_some hfind]
      simpa using hi
    rw [htable i s (by simp [findOrAllocWakelock, hfind]), setActive_table hfind, if_pos hsome]
  | none =>
    rw [entryOf_of_none hfind] at hroom ⊢
    have halloc : findOrAllocWakelock s name =
        some (s.wlTable.length, { s with wlTable := s.wlTable ++ [⟨name, false⟩] }) := by
      simp_all [findOrAllocWakelock, take_of_length_le]
    rw [htable _ _ halloc]
    refine setActive_table (s := { s with wlTable := s.wlTable ++ [⟨name, false⟩] }) ?_ true
    rw [findWakelock, findIdx?_append, show s.wlTable.findIdx? (·.name == name) = none from hfind]
    simp

theorem pmAfterSync_table (h : pmAfterSync s i dTasks = some s') : s'.wlTable = s.wlTable := by
  unfold pmAfterSync at h
  split at h
  · cases h
  · cases h
    dsimp only
    split <;> rfl

/-- The display lock that ends a suspend is no change when it is held. -/
theorem pmAfterHost_table (hheld : (entryOf s.wlTable display).any (·.active) = true)
    (h : pmAfterHost s = some s') : s'.wlTable = s.wlTable := by
  obtain ⟨wl, hwl, hactive⟩ := Option.any_eq_true _ _ |>.mp hheld
  have hsome : (entryOf s.wlTable display).isSome := by rw [hwl]; rfl
  have hlock : ∀ u : PmState, u.wlTable = s.wlTable →
      (pmWakeLock u display).2.wlTable = s.wlTable := by
    intro u hu
    rw [pmWakeLock_table (by decide) (by decide) (.inl (by rwa [hu])), hu, if_pos hsome]
    refine setEntry_of_same fun wl' hwl' => ?_
    cases hwl.symm.trans hwl'
    exact hactive
  unfold pmAfterHost at h
  split at h
  · cases h
  · cases h
    exact hlock _ rfl

section Step

variable {x y : Calls} {c : WlCall} {lock : Bool}

theorem Calls.call_spec (hfits : Fits x (.call name lock)) (h : x.step (.call name lock) = some y) :
    y.held = update x.held name lock ∧ ∃ tbl, y.pm.wlTable = setEntry tbl name lock ∧
      ((x.pm.wlTable.map WakeLock.name).Nodup → (tbl.map WakeLock.name).Nodup) ∧
      (lock = true → (entryOf tbl name).isSome) ∧
      ∀ m ≠ name, entryOf tbl m = entryOf x.pm.wlTable m := by
  obtain ⟨hname, h⟩ := Option.ite_none_left_eq_some.mp h
  cases h
  refine ⟨rfl, ?_⟩
  cases lock with
  | false =>
    rw [if_neg Bool.false_ne_true, pmWakeUnlock_table hname]
    exact ⟨_, rfl, fun h => h, nofun, fun _ _ => rfl⟩
  | true =>
    obtain ⟨hlen, hroom⟩ := hfits rfl
    rw [if_pos rfl, pmWakeLock_table hname hlen hroom]
    refine ⟨_, rfl, ?_⟩
    split
    · rename_i hsome
      exact ⟨fun h => h, fun _ => hsome, fun _ _ => rfl⟩
    · rename_i hnone
      have hnew := find_eq_none_iff.mp (Option.not_isSome_iff_eq_none.mp hnone)
      refine ⟨fun hu => ?_, fun _ => ?_, fun m hne => ?_⟩
      · rw [map_append]
        exact hu.append (nodup_singleton _) (by simpa using hnew)
      · simp [entryOf, find_append, find]
      · simp [entryOf, find_append, find, Ne.symm hne]

theorem Calls.Ok.resume_spec (hx : x.Ok) (hfits : Fits x (.resume i dTasks))
    (h : x.step (.resume i dTasks) = some y) :
    y.held = x.held ∧ y.pm.wlTable = x.pm.wlTable := by
  obtain ⟨s, hs, h⟩ := Option.bind_eq_some_iff.mp h
  obtain ⟨s', hs', rfl⟩ := Option.map_eq_some_iff.mp h
  have htable := pmAfterSync_table hs
  refine ⟨rfl, ?_⟩
  cases dTasks with
  | true =>
    cases hs'
    exact htable
  | false =>
    have hheld := hfits.resolve_left Bool.false_ne_true
    rw [← hx.active, ← htable] at hheld
    exact (pmAfterHost_table hheld hs').trans htable

theorem Calls.Ok.congr (hx : x.Ok) (hheld : y.held = x.held)
    (htable : y.pm.wlTable = x.pm.wlTable) : y.Ok := by
  refine ⟨?_, ?_⟩
  · rw [htable]
    exact hx.unique
  · rw [htable, hheld]
    exact hx.active

theorem Calls.Ok.step (hx : x.Ok) (hfits : Fits x c) (h : x.step c = some y) : y.Ok := by
  cases c with
  | other rest =>
    cases h
    exact hx.congr rfl rfl
  | resume i dTasks =>
    obtain ⟨hheld, htable⟩ := hx.resume_spec hfits h
    exact hx.congr hheld htable
  | call name lock =>
    obtain ⟨hheld, tbl, htable, hunique, hsome, hother⟩ := Calls.call_spec hfits h
    refine ⟨?_, fun m => ?_⟩
    · rw [htable, show map WakeLock.name (setEntry ..) = _ from map_update fun _ => rfl]
      exact hunique hx.unique
    · rw [htable, hheld, update_apply]
      by_cases hm : m = name
      · rw [if_pos hm, hm, entryOf_setEntry_self]
        cases hfind : entryOf tbl name with
        | some wl => rfl
        | none =>
          rw [hfind] at hsome
          cases lock with
          | false => rfl
          | true => cases hsome rfl
      · rw [if_neg hm, entryOf_setEntry_of_ne hm, hother m hm]
        exact hx.active m

/-- In every sequence of calls, each to its end, whose locks have names of at most 47 characters and
room in the table, and whose suspends leave the display lock as it was: there is one entry for a
name, it is active when the last call on the name was a lock, and a call leaves the entries of other
names alone. -/
theorem wakelocks_tracked (h : Reaches Calls.step Fits ⟨powerDevInit, (· = display)⟩ x) :
    x.Ok ∧ ∀ c y, Fits x c → x.step c = some y → ∀ name, (∀ lock, c ≠ .call name lock) →
      entryOf y.pm.wlTable name = entryOf x.pm.wlTable name := by
  have hstart : powerDevInit.wlTable = [⟨display, true⟩, ⟨wakeLocks, false⟩] := by decide
  have hok : x.Ok := by
    refine h.invariant ⟨by decide, fun name => ?_⟩ fun _ _ _ hx hfits hstep => hx.step hfits hstep
    simp only [hstart, entryOf, find]
    split
    · simp_all
    · split <;> simp_all [eq_comm]
  refine ⟨hok, fun c y hfits hstep name hname => ?_⟩
  cases c with
  | other rest =>
    cases hstep
    rfl
  | resume i dTasks => rw [(hok.resume_spec hfits hstep).2]
  | call m lock =>
    obtain ⟨-, tbl, htable, -, -, hother⟩ := Calls.call_spec hfits hstep
    have hne : name ≠ m := fun heq => hname lock (heq ▸ rfl)
    rw [htable, entryOf_setEntry_of_ne hne, hother name hne]

/-- A name of 47 characters is locked, and the display lock is released and taken again. -/
theorem longest_name_tracked : ∃ x : Calls, x.held (replicate 47 97) = true ∧
    x.held display = true ∧ x.Ok := by
  have hrun : Reaches Calls.step Fits ⟨powerDevInit, (· = display)⟩ _ :=
    .tail (i := .call display true) (.tail (i := .call display false)
      (.tail (i := .call (replicate 47 97) true) .refl (fun _ => by decide) rfl) nofun rfl)
      (fun _ => by decide) rfl
  exact ⟨_, by decide, by decide, (wakelocks_tracked hrun).1⟩

/-- A name of 48 characters is locked twice and unlocked: there are two entries for it, and both
stay active, under a name that no call was for. -/
theorem long_name_stays_active : ∃ x : Calls,
    Reaches Calls.step (fun _ _ => True) ⟨powerDevInit, (· = display)⟩ x ∧
    x.pm.wlTable.count ⟨replicate 47 97, true⟩ = 2 ∧
    x.held (replicate 48 97) = false ∧ x.held (replicate 47 97) = false :=
  ⟨_, reaches_of_run [.call (replicate 48 97) true, .call (replicate 48 97) true,
    .call (replicate 48 97) false] rfl, by decide, by decide, by decide⟩

end Step

end Six.Power
