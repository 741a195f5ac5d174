import Six.Binder.Effect

/-! The registry of binder services over whole runs.  A name is checked and compared as it was
given, and stored cut to 63 characters. -/

namespace Six.Binder

open Six.Lib Errno State List Function Registry

/-- The driver with what a run has shown of registrations: the handles that new services were given,
the last one first, and for each entry the name that the policy was asked about when the entry was
last registered.  The driver keeps no such record. -/
structure Watched where
  state : State := {}
  handed : List Int32 := []
  asked : Fin 32 → List UInt8 := fun _ => []

def Watched.step (x : Watched) (l : Label) : Option Watched :=
  (Binder.step x.state l).map fun s' =>
    match written x.state l with
    | none => { x with state := s' }
    | some (a, i) =>
      { state := s'
        handed :=
          if x.state.reg.findSvcByName a.name = none then x.state.reg.nextSvcHandle :: x.handed
          else x.handed
        asked := update x.asked i a.name }

structure Orderly (x : Watched) : Prop where
  names : ∀ i j, (x.state.reg.svcs i).inUse = true → (x.state.reg.svcs j).inUse = true →
    (x.state.reg.svcs i).name = (x.state.reg.svcs j).name → i = j
  handles : ∀ i j, (x.state.reg.svcs i).inUse = true → (x.state.reg.svcs j).inUse = true →
    (x.state.reg.svcs i).handle = (x.state.reg.svcs j).handle → i = j
  given : ∀ i, (x.state.reg.svcs i).inUse = true → (x.state.reg.svcs i).handle ∈ x.handed
  once : x.handed.Nodup
  owners : ∀ i, (x.state.reg.svcs i).inUse = true →
    ∃ p, (x.state.reg.svcs i).ownerProc = some p ∧ (x.state.procs p).inUse = true
  checked : ∀ i, (x.state.reg.svcs i).inUse = true → (x.state.reg.svcs i).name = x.asked i

/-- A registration is fit: its name has at most 63 characters, the caller's file has not been
released while the call was copying, and fewer than 2^32 services have been new so far if this one
is. -/
def Fit (x : Watched) (l : Label) : Prop :=
  ∀ a i, written x.state l = some (a, i) →
    a.name.length ≤ 63 ∧ (x.state.procs a.sender).inUse = true ∧
      (x.state.reg.findSvcByName a.name = none → x.handed.length < 2 ^ 32)

def handleNo (k : Nat) : Int32 := Int32.ofNat (k + 1)

structure Kept (x : Watched) : Prop where
  orderly : Orderly x
  short : ∀ i, (x.state.reg.svcs i).inUse = true → (x.state.reg.svcs i).name.length ≤ 63
  counted : x.handed = ((List.range x.handed.length).map handleNo).reverse
  next : x.state.reg.nextSvcHandle = handleNo x.handed.length

section Runs

variable {x y : Watched} {l : Label}

theorem handleNo_inj (hj : j < 2 ^ 32) (hk : k < 2 ^ 32) (h : handleNo j = handleNo k) : j = k := by
  have hbits := congrArg (fun n => n.toBitVec.toNat) h
  simp only [handleNo, Int32.toBitVec_ofNat', BitVec.toNat_ofNat] at hbits
  omega

theorem handleNo_succ (k : Nat) : handleNo k + 1 = handleNo (k + 1) := by
  apply Int32.toBitVec_inj.mp
  simp [handleNo]

theorem handleNo_wrap (k : Nat) : handleNo (k + 2 ^ 32) = handleNo k := by
  apply Int32.toBitVec_inj.mp
  apply BitVec.eq_of_toNat_eq
  simp only [handleNo, Int32.toBitVec_ofNat', BitVec.toNat_ofNat]
  omega

theorem kept_start : Kept {} where
  orderly :=
    { names := fun i j hi => by cases hi
      handles := fun i j hi => by cases hi
      given := fun i hi => by cases hi
      once := .nil
      owners := fun i hi => by cases hi
      checked := fun i hi => by cases hi }
  short i hi := by cases hi
  counted := rfl
  next := rfl

theorem Kept.mem_handed (h : Kept x) :
    handle ∈ x.handed ↔ ∃ k < x.handed.length, handleNo k = handle := by
  conv_lhs => rw [h.counted]
  simp only [mem_reverse, mem_map, mem_range]

theorem Kept.next_not_mem_iff (h : Kept x) :
    x.state.reg.nextSvcHandle ∉ x.handed ↔ x.handed.length < 2 ^ 32 := by
  rw [h.next, h.mem_handed]
  constructor
  · intro hnew
    by_contra hlen
    refine hnew ⟨x.handed.length - 2 ^ 32, by omega, ?_⟩
    rw [← handleNo_wrap, Nat.sub_add_cancel (by omega)]
  · rintro hlen ⟨k, hk, heq⟩
    have := handleNo_inj (by omega) hlen heq
    omega

theorem Kept.noMore (h : Kept x) (hs : NoMore x.state s') :
    Kept { x with state := s' } where
  orderly :=
    { names := fun i j hi hj heq => by
        rw [hs.name, hs.name] at heq
        exact h.orderly.names i j (hs.inUse i hi) (hs.inUse j hj) heq
      handles := fun i j hi hj heq => by
        rw [hs.handle, hs.handle] at heq
        exact h.orderly.handles i j (hs.inUse i hi) (hs.inUse j hj) heq
      given := fun i hi => by
        rw [hs.handle]
        exact h.orderly.given i (hs.inUse i hi)
      once := h.orderly.once
      owners := fun i hi => by
        obtain ⟨p, hp, hlive⟩ := h.orderly.owners i (hs.inUse i hi)
        rw [← hs.owner i hi] at hp
        exact ⟨p, hp, hs.live i p hi hp hlive⟩
      checked := fun i hi => by
        rw [hs.name]
        exact h.orderly.checked i (hs.inUse i hi) }
  short i hi := by
    rw [hs.name]
    exact h.short i (hs.inUse i hi)
  counted := h.counted
  next := hs.next.trans h.next

section Written

variable {a : Registration} {i : Fin 32} {j : Fin 32}

structure Entered (x y : Watched) (a : Registration) (i : Fin 32) : Prop where
  place : x.state.reg.place a.name = some i
  live : ∀ p, (y.state.procs p).inUse = (x.state.procs p).inUse
  others : ∀ j, j ≠ i → y.state.reg.svcs j = x.state.reg.svcs j
  inUse : (y.state.reg.svcs i).inUse = true
  owner : (y.state.reg.svcs i).ownerProc = some a.sender
  name : (y.state.reg.svcs i).name =
    if x.state.reg.findSvcByName a.name = none then clip a.name else a.name
  handle : (y.state.reg.svcs i).handle =
    if x.state.reg.findSvcByName a.name = none then x.state.reg.nextSvcHandle
    else (x.state.reg.svcs i).handle
  next : y.state.reg.nextSvcHandle =
    if x.state.reg.findSvcByName a.name = none then x.state.reg.nextSvcHandle + 1
    else x.state.reg.nextSvcHandle
  handed : y.handed =
    if x.state.reg.findSvcByName a.name = none then x.state.reg.nextSvcHandle :: x.handed
    else x.handed
  asked : y.asked = update x.asked i a.name

theorem found_of_place {r : Registry} (hplace : r.place name = some i)
    (hnew : r.findSvcByName name ≠ none) : (r.svcs i).inUse = true ∧ (r.svcs i).name = name := by
  obtain ⟨j, hj⟩ := Option.ne_none_iff_exists'.mp hnew
  obtain rfl := place_of_found hplace hj
  exact findSvcByName_eq_some hj

theorem entered_of_step (hs : x.step l = some y) (hw : written x.state l = some (a, i)) :
    Entered x y a i := by
  obtain ⟨s', hs', rfl⟩ := Option.map_eq_some_iff.mp hs
  obtain ⟨hplace, live, reg⟩ := reg_of_written hs' hw
  rw [hw]
  have hsvc : s'.reg.svcs = update x.state.reg.svcs i
      (reregistered (x.state.reg.entry a.name i) a.sender (x.state.procs a.sender)
        a.descriptor a.cred) := by
    rw [reg]
    rfl
  have hself := congrFun hsvc i
  rw [update_self] at hself
  refine ⟨hplace, live, fun j hj => ?_, ?_, ?_, ?_, ?_, ?_, rfl, rfl⟩
  · show s'.reg.svcs j = _
    rw [hsvc, update_of_ne hj]
  · show (s'.reg.svcs i).inUse = true
    rw [hself]
    unfold entry
    split
    · rfl
    · rename_i hfound
      exact (found_of_place hplace hfound).1
  · show (s'.reg.svcs i).ownerProc = _
    rw [hself]
    rfl
  · show (s'.reg.svcs i).name = _
    rw [hself]
    unfold entry
    split
    · rfl
    · rename_i hfound
      exact (found_of_place hplace hfound).2
  · show (s'.reg.svcs i).handle = _
    rw [hself]
    unfold entry
    split <;> rfl
  · show s'.reg.nextSvcHandle = _
    rw [reg]

theorem Entered.entry_cases (e : Entered x y a i) (hj : (y.state.reg.svcs j).inUse = true) :
    j = i ∨ j ≠ i ∧ y.state.reg.svcs j = x.state.reg.svcs j ∧
      (x.state.reg.svcs j).inUse = true := by
  by_cases h : j = i
  · exact .inl h
  · have heq := e.others j h
    rw [heq] at hj
    exact .inr ⟨h, heq, hj⟩

theorem Entered.name_eq (e : Entered x y a i) (hname : a.name.length ≤ 63) :
    (y.state.reg.svcs i).name = a.name := by
  rw [e.name, clip, take_of_length_le hname, ite_self]

theorem Entered.name_ne (h : Kept x) (e : Entered x y a i) (hj : j ≠ i)
    (huse : (x.state.reg.svcs j).inUse = true) : (x.state.reg.svcs j).name ≠ a.name := by
  by_cases hnew : x.state.reg.findSvcByName a.name = none
  · exact findSvcByName_eq_none (place_ne_nil e.place) hnew huse
  · obtain ⟨hi, hname⟩ := found_of_place e.place hnew
    intro heq
    exact hj (h.orderly.names j i huse hi (heq.trans hname.symm))

theorem Entered.handle_ne (h : Kept x) (e : Entered x y a i)
    (hroom : x.state.reg.findSvcByName a.name = none → x.handed.length < 2 ^ 32) (hj : j ≠ i)
    (huse : (x.state.reg.svcs j).inUse = true) :
    (x.state.reg.svcs j).handle ≠ (y.state.reg.svcs i).handle := by
  rw [e.handle]
  by_cases hnew : x.state.reg.findSvcByName a.name = none
  · rw [if_pos hnew]
    intro heq
    exact h.next_not_mem_iff.mpr (hroom hnew) (heq ▸ h.orderly.given j huse)
  · rw [if_neg hnew]
    intro heq
    exact hj (h.orderly.handles j i huse (found_of_place e.place hnew).1 heq)

theorem Entered.orderly (h : Kept x) (e : Entered x y a i) (hname : a.name.length ≤ 63)
    (hlive : (x.state.procs a.sender).inUse = true)
    (hroom : x.state.reg.findSvcByName a.name = none → x.handed.length < 2 ^ 32) : Orderly y where
  names j k hj hk heq := by
    rcases e.entry_cases hj with rfl | ⟨hji, hjeq, hjuse⟩ <;>
      rcases e.entry_cases hk with rfl | ⟨hki, hkeq, hkuse⟩
    · rfl
    · rw [e.name_eq hname, hkeq] at heq
      exact absurd heq.symm (e.name_ne h hki hkuse)
    · rw [e.name_eq hname, hjeq] at heq
      exact absurd heq (e.name_ne h hji hjuse)
    · rw [hjeq, hkeq] at heq
      exact h.orderly.names j k hjuse hkuse heq
  handles j k hj hk heq := by
    rcases e.entry_cases hj with rfl | ⟨hji, hjeq, hjuse⟩ <;>
      rcases e.entry_cases hk with rfl | ⟨hki, hkeq, hkuse⟩
    · rfl
    · rw [hkeq] at heq
      exact absurd heq.symm (e.handle_ne h hroom hki hkuse)
    · rw [hjeq] at heq
      exact absurd heq (e.handle_ne h hroom hji hjuse)
    · rw [hjeq, hkeq] at heq
      exact h.orderly.handles j k hjuse hkuse heq
  given j hj := by
    rw [e.handed]
    rcases e.entry_cases hj with rfl | ⟨hji, hjeq, hjuse⟩
    · rw [e.handle]
      by_cases hnew : x.state.reg.findSvcByName a.name = none
      · rw [if_pos hnew, if_pos hnew]
        exact mem_cons_self ..
      · rw [if_neg hnew, if_neg hnew]
        exact h.orderly.given _ (found_of_place e.place hnew).1
    · rw [hjeq]
      have hold := h.orderly.given j hjuse
      split
      · exact mem_cons_of_mem _ hold
      · exact hold
  once := by
    rw [e.handed]
    split
    · rename_i hnew
      exact nodup_cons.mpr ⟨h.next_not_mem_iff.mpr (hroom hnew), h.orderly.once⟩
    · exact h.orderly.once
  owners j hj := by
    rcases e.entry_cases hj with rfl | ⟨hji, hjeq, hjuse⟩
    · exact ⟨a.sender, e.owner, (e.live _).trans hlive⟩
    · obtain ⟨p, hp, hplive⟩ := h.orderly.owners j hjuse
      rw [hjeq]
      exact ⟨p, hp, (e.live _).trans hplive⟩
  checked j hj := by
    rw [e.asked]
    rcases e.entry_cases hj with rfl | ⟨hji, hjeq, hjuse⟩
    · rw [update_self]
      exact e.name_eq hname
    · rw [update_of_ne hji, hjeq]
      exact h.orderly.checked j hjuse

theorem Entered.kept (h : Kept x) (e : Entered x y a i) (hname : a.name.length ≤ 63)
    (hlive : (x.state.procs a.sender).inUse = true)
    (hroom : x.state.reg.findSvcByName a.name = none → x.handed.length < 2 ^ 32) : Kept y where
  orderly := e.orderly h hname hlive hroom
  short j hj := by
    rcases e.entry_cases hj with rfl | ⟨hji, hjeq, hjuse⟩
    · rw [e.name_eq hname]
      exact hname
    · rw [hjeq]
      exact h.short j hjuse
  counted := by
    rw [e.handed]
    split
    · rw [length_cons, range_succ, map_append, reverse_append, ← h.counted, h.next]
      rfl
    · exact h.counted
  next := by
    rw [e.next, e.handed]
    split
    · rw [length_cons, h.next, handleNo_succ]
    · exact h.next

theorem Entered.fit (h : Kept x) (e : Entered x y a i) (ho : Orderly y) :
    a.name.length ≤ 63 ∧ (x.state.procs a.sender).inUse = true ∧
      (x.state.reg.findSvcByName a.name = none → x.handed.length < 2 ^ 32) := by
  refine ⟨?_, ?_, fun hnew => ?_⟩
  · have hchecked := ho.checked i e.inUse
    rw [e.asked, update_self, e.name] at hchecked
    split at hchecked
    · rw [← hchecked, clip, length_take]
      omega
    · rename_i hfound
      obtain ⟨huse, hstored⟩ := found_of_place e.place hfound
      rw [← hstored]
      exact h.short i huse
  · obtain ⟨p, hp, hlive⟩ := ho.owners i e.inUse
    obtain rfl : a.sender = p := Option.some.inj (e.owner.symm.trans hp)
    rw [← e.live]
    exact hlive
  · have honce := ho.once
    rw [e.handed, if_pos hnew] at honce
    exact h.next_not_mem_iff.mp (nodup_cons.mp honce).1

end Written

theorem Kept.step (h : Kept x) (hs : x.step l = some y) :
    (Fit x l → Kept y) ∧ (Orderly y → Fit x l) := by
  cases hw : written x.state l with
  | none =>
    obtain ⟨s', hs', rfl⟩ := Option.map_eq_some_iff.mp hs
    rw [hw]
    refine ⟨fun _ => h.noMore (noMore_of_step hs' hw), fun _ a i ha => ?_⟩
    rw [hw] at ha
    cases ha
  | some ai =>
    obtain ⟨a, i⟩ := ai
    have e := entered_of_step hs hw
    constructor
    · intro hfit
      obtain ⟨hname, hlive, hroom⟩ := hfit a i hw
      exact e.kept h hname hlive hroom
    · intro ho b j hb
      obtain ⟨rfl, rfl⟩ := Prod.mk.inj (Option.some.inj (hw.symm.trans hb))
      exact e.fit h ho

/-- In every run whose registrations are fit the registry is in order, and the first registration
that is not fit leaves it out of order. -/
theorem services_orderly (h : Reaches Watched.step Fit {} x) :
    Orderly x ∧ ∀ l y, x.step l = some y → (Orderly y ↔ Fit x l) := by
  have hkept : Kept x := h.invariant kept_start fun _ _ _ hx hfit hs => (hx.step hs).1 hfit
  exact ⟨hkept.orderly, fun l y hs =>
    ⟨(hkept.step hs).2, fun hfit => ((hkept.step hs).1 hfit).orderly⟩⟩

def fits (x : Watched) (l : Label) : Bool :=
  (written x.state l).all fun w =>
    decide (w.1.name.length ≤ 63) && (x.state.procs w.1.sender).inUse &&
      ((x.state.reg.findSvcByName w.1.name).isSome || decide (x.handed.length < 2 ^ 32))

theorem fit_of_fits (h : fits x l = true) : Fit x l := by
  intro a i hw
  rw [fits, hw, Option.all_some, Bool.and_eq_true, Bool.and_eq_true, Bool.or_eq_true,
    decide_eq_true_eq, decide_eq_true_eq] at h
  refine ⟨h.1.1, h.1.2, fun hnew => h.2.resolve_left ?_⟩
  rw [hnew]
  exact Bool.false_ne_true

end Runs

def registerRun (name : Fin 64 → UInt8) : List Label :=
  [act 1 (.ioctl 0 ⟨1, 0, fun _ => 0⟩ (.registerSvc name fun _ => 0)), act 1 (.go 0)]

def openRun : List Label := [act 1 (.open 0 ⟨1, 0, fun _ => 0⟩)]

theorem short_name_orderly : ∃ x, run (guarded fits Watched.step) {}
    (openRun ++ registerRun fun i => if i = 0 then 0x61 else 0) = some x ∧
    (x.state.reg.svcs 0).name = [0x61] ∧ Orderly x := by
  have runs : (run (guarded fits Watched.step) {}
      (openRun ++ registerRun fun i => if i = 0 then 0x61 else 0)).any
      (fun x => (x.state.reg.svcs 0).name == [0x61]) = true := by decide
  obtain ⟨x, hx, hname⟩ := Option.any_eq_true _ _ |>.mp runs
  exact ⟨x, hx, beq_iff_eq.mp hname,
    (services_orderly ((reaches_of_guarded_run _ hx).mono fun _ _ => fit_of_fits)).1⟩

/-- The entries 0 and 1 are in use under the same stored name of 63 characters, and the policy was
asked about another name. -/
def doubled (x : Watched) : Bool :=
  (x.state.reg.svcs 0).inUse && (x.state.reg.svcs 1).inUse &&
    (x.state.reg.svcs 0).name == List.replicate 63 0x61 &&
    (x.state.reg.svcs 1).name == List.replicate 63 0x61 && x.asked 0 == List.replicate 64 0x61

/-- A name of 64 characters is registered twice. -/
theorem long_name_twice : ∃ x, Reaches Watched.step (fun _ _ => True) {} x ∧ doubled x = true ∧
    ¬ Orderly x := by
  have runs : (run Watched.step {}
      (openRun ++ registerRun (fun _ => 0x61) ++ registerRun fun _ => 0x61)).any doubled =
        true := by
    decide
  obtain ⟨x, hx, hdoubled⟩ := Option.any_eq_true _ _ |>.mp runs
  refine ⟨x, reaches_of_run _ hx, hdoubled, fun orderly => ?_⟩
  simp only [doubled, Bool.and_eq_true, beq_iff_eq] at hdoubled
  obtain ⟨⟨⟨⟨h0, h1⟩, hname0⟩, hname1⟩, -⟩ := hdoubled
  exact absurd (orderly.names 0 1 h0 h1 (hname0.trans hname1.symm)) (by decide)

end Six.Binder
