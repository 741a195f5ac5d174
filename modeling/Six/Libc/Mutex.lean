import Six.Lib.Run

/-! Mutexes (`library/libc/pthread.c`), one access at a time.  `count` is tested and changed in one
access.  A thread unlocks only what it holds. -/

namespace Six.Libc.Mutex

open Six.Lib Function

inductive Kind
  | normal | recursive | errorcheck
  deriving DecidableEq

/-- `wait` tells `pthread_mutex_lock` from `pthread_mutex_trylock`. -/
inductive Call
  | lock (wait : Bool) | unlock

/-- The next access of a thread. -/
inductive Pc
  | idle | readOwner (wait : Bool) | addCount | xchg (wait : Bool) | setOwner | setCount
  | subCount | clearOwner | clearCount | clearLocked

structure State where
  locked : Bool := false
  owner : Nat := 0
  count : Int32 := 0
  pc : Nat → Pc := fun _ => .idle
  depth : Nat → Nat := fun _ => 0

/-- One access of the process `pid`, which holds it `d` times. -/
def access (k : Kind) (s : State) (pid d : Nat) : Call → Pc → State × Pc × Nat
  | .lock wait, .idle => (s, if s.locked then .readOwner wait else .xchg wait, d)
  | .unlock, .idle => (s, if 0 < d ∧ s.locked then .subCount else .idle, d)
  | _, .readOwner wait =>
    if s.owner = pid ∧ k = .recursive then (s, .addCount, d)
    else if s.owner = pid ∧ k = .errorcheck ∧ wait then (s, .idle, d)
    else (s, .xchg wait, d)
  | _, .addCount => ({ s with count := s.count + 1 }, .idle, d + 1)
  | _, .xchg wait =>
    if s.locked then (s, if wait then .xchg wait else .idle, d)
    else ({ s with locked := true }, .setOwner, d + 1)
  | _, .setOwner => ({ s with owner := pid }, .setCount, d)
  | _, .setCount => ({ s with count := 1 }, .idle, d)
  | _, .subCount =>
    if k = .recursive ∧ 1 < s.count then ({ s with count := s.count - 1 }, .idle, d - 1)
    else (s, .clearOwner, d)
  | _, .clearOwner => ({ s with owner := 0 }, .clearCount, d)
  | _, .clearCount => ({ s with count := 0 }, .clearLocked, d)
  | _, .clearLocked => ({ s with locked := false }, .idle, d - 1)

def State.put (s : State) (t : Nat) (r : Pc × Nat) : State :=
  { s with pc := update s.pc t r.1, depth := update s.depth t r.2 }

/-- The next access of thread `i.1`, the process `i.1 + 1`; `i.2` is its next call. -/
def step (k : Kind) (s : State) (i : Nat × Call) : Option State :=
  let r := access k s (i.1 + 1) (s.depth i.1) i.2 (s.pc i.1)
  some (r.1.put i.1 r.2)

/-- No thread locks the mutex once more when it holds it 2^31 - 1 times. -/
def bounded (s : State) (i : Nat × Call) : Bool :=
  match s.pc i.1 with
  | .addCount => s.depth i.1 < 2 ^ 31 - 1
  | _ => true

/-- What is known of a thread at `p` that holds the mutex `d` times, whose process is the `owner`
when `own` says so. -/
def Placed (k : Kind) (own : Prop) (count : Int32) (d : Nat) : Pc → Prop
  | .setOwner => d = 1
  | .setCount | .clearOwner => d = 1 ∧ own
  | .clearCount | .clearLocked => d = 1 ∧ ¬own
  | .addCount => 0 < d ∧ own ∧ count.toInt = d ∧ k = .recursive
  | .subCount => 0 < d ∧ own ∧ count.toInt = d ∧ (k = .recursive ∨ d = 1)
  | _ => 0 < d → own ∧ count.toInt = d ∧ (k = .recursive ∨ d = 1)

theorem Placed.frame (h : Placed k own n d p) (hd : d = 0) : Placed k own' n' d p := by
  cases p <;> simp_all [Placed]

structure Inv (k : Kind) (s : State) : Prop where
  only : ∀ t, 0 < s.depth t → s.locked ∧ ∀ u, 0 < s.depth u → u = t
  owner : ∀ t, s.owner = t + 1 → 0 < s.depth t
  placed : ∀ t, Placed k (s.owner = t + 1) s.count (s.depth t) (s.pc t)

section Accesses

variable {k : Kind} {s s' : State} {t : Nat} {p : Pc} {d : Nat} (h : Inv k s)
include h

theorem Inv.others (ht : 0 < s.depth t) (hu : u ≠ t) : s.depth u = 0 :=
  Nat.eq_zero_of_not_pos fun hpos => hu ((h.only t ht).2 u hpos)

/-- An access that writes no field. -/
theorem Inv.pass (self : Placed k (s.owner = t + 1) s.count (s.depth t) p) :
    Inv k (s.put t (p, s.depth t)) where
  only := by simpa [State.put] using h.only
  owner := by simpa [State.put] using h.owner
  placed u := by
    by_cases hu : u = t
    · subst hu
      simpa [State.put] using self
    · simpa [State.put, hu] using h.placed u

/-- An access of the holder. -/
theorem Inv.write (ht : 0 < s.depth t) (hpc : s'.pc = s.pc) (hdepth : s'.depth = s.depth)
    (self : Placed k (s'.owner = t + 1) s'.count d p) (locked : 0 < d → s'.locked)
    (owner : ∀ u, s'.owner = u + 1 → u = t ∧ 0 < d) : Inv k (s'.put t (p, d)) := by
  have depth_self : (s'.put t (p, d)).depth t = d := update_self ..
  have depth_of_ne : ∀ u, u ≠ t → (s'.put t (p, d)).depth u = 0 := by
    intro u hu
    show update s'.depth t d u = 0
    rw [update_of_ne hu, hdepth, h.others ht hu]
  have holder : ∀ u, 0 < (s'.put t (p, d)).depth u → u = t := by
    intro u hpos
    by_contra hu
    rw [depth_of_ne u hu] at hpos
    exact absurd hpos (Nat.lt_irrefl 0)
  refine ⟨fun u hpos => ?_, fun u hown => ?_, fun u => ?_⟩
  · obtain rfl := holder u hpos
    rw [depth_self] at hpos
    exact ⟨locked hpos, holder⟩
  · obtain ⟨rfl, hd⟩ := owner u hown
    rwa [depth_self]
  · by_cases hu : u = t
    · subst hu
      rw [depth_self]
      simpa [State.put] using self
    · have hrest : Placed k (s'.owner = u + 1) s'.count (s.depth u) (s.pc u) :=
        (h.placed u).frame (h.others ht hu)
      simpa [State.put, hu, hpc, hdepth] using hrest

/-- The exchange that finds the mutex free. -/
theorem Inv.take (free : s.locked = false) :
    Inv k ({ s with locked := true }.put t (.setOwner, s.depth t + 1)) := by
  have none : ∀ u, s.depth u = 0 := by
    intro u
    by_contra hu
    have := (h.only u (Nat.pos_of_ne_zero hu)).1
    rw [free] at this
    cases this
  have holder : ∀ u, 0 < update s.depth t (s.depth t + 1) u → u = t := by
    intro u hpos
    by_contra hu
    rw [update_of_ne hu, none u] at hpos
    exact absurd hpos (Nat.lt_irrefl 0)
  refine ⟨fun u hpos => ?_, fun u hown => ?_, fun u => ?_⟩
  · obtain rfl := holder u hpos
    exact ⟨rfl, holder⟩
  · have := h.owner u hown
    rw [none u] at this
    exact absurd this (Nat.lt_irrefl 0)
  · by_cases hu : u = t
    · subst hu
      simp [State.put, Placed, none u]
    · simpa [State.put, hu] using h.placed u

end Accesses

theorem toInt_add_one {n : Int32} {d : Nat} (h : n.toInt = d) (hd : d < 2 ^ 31 - 1) :
    (n + 1).toInt = (d + 1 : Nat) := by
  rw [Int32.toInt_add, h, show (1 : Int32).toInt = 1 from rfl, Int.bmod_eq_of_le (by omega)
    (by omega)]
  rfl

theorem toInt_sub_one {n : Int32} {d : Nat} (h : n.toInt = d) (hd : 0 < d) :
    (n - 1).toInt = (d - 1 : Nat) := by
  have := n.toInt_lt
  rw [Int32.toInt_sub, h, show (1 : Int32).toInt = 1 from rfl, Int.bmod_eq_of_le (by omega)
    (by omega)]
  omega

theorem Inv.step (h : Inv k s) (hi : bounded s i = true) (hs : step k s i = some s') :
    Inv k s' := by
  obtain ⟨t, c⟩ := i
  cases hs
  have ht := h.placed t
  have howner := h.owner t
  dsimp only
  cases hp : s.pc t with
  | idle =>
    rw [hp] at ht
    cases c with
    | lock wait =>
      rw [access]
      split
      · exact h.pass ht
      · exact h.pass ht
    | unlock =>
      rw [access]
      split
      · rename_i hheld
        exact h.pass ⟨hheld.1, ht hheld.1⟩
      · exact h.pass ht
  | readOwner wait =>
    rw [hp] at ht
    rw [access]
    split
    · rename_i hown
      have hpos := howner hown.1
      exact h.pass ⟨hpos, hown.1, (ht hpos).2.1, hown.2⟩
    · split
      · exact h.pass ht
      · exact h.pass ht
  | addCount =>
    rw [bounded, hp] at hi
    rw [hp] at ht
    obtain ⟨hpos, hown, hcount, hk⟩ := ht
    rw [access]
    refine h.write hpos rfl rfl (fun _ => ⟨hown, ?_, .inl hk⟩) (fun _ => (h.only t hpos).1) ?_
    · exact toInt_add_one hcount (of_decide_eq_true hi)
    · exact fun u hu => ⟨(h.only t hpos).2 u (h.owner u hu), Nat.succ_pos _⟩
  | xchg wait =>
    rw [hp] at ht
    rw [access]
    split
    · split
      · exact h.pass ht
      · exact h.pass ht
    · rename_i hfree
      exact h.take (Bool.not_eq_true _ ▸ hfree)
  | setOwner =>
    rw [hp] at ht
    have hpos : 0 < s.depth t := by rw [ht]; exact Nat.one_pos
    rw [access]
    refine h.write hpos rfl rfl ⟨ht, rfl⟩ (fun _ => (h.only t hpos).1) fun u hu => ?_
    exact ⟨(Nat.succ.inj hu).symm, hpos⟩
  | setCount =>
    rw [hp] at ht
    have hpos : 0 < s.depth t := by rw [ht.1]; exact Nat.one_pos
    rw [access]
    refine h.write hpos rfl rfl (fun _ => ⟨ht.2, ?_, .inr ht.1⟩) (fun _ => (h.only t hpos).1) ?_
    · rw [ht.1]
      rfl
    · exact fun u hu => ⟨(h.only t hpos).2 u (h.owner u hu), hpos⟩
  | subCount =>
    rw [hp] at ht
    obtain ⟨hpos, hown, hcount, hk⟩ := ht
    rw [access]
    split
    · rename_i hmore
      have hlt : 1 < s.count.toInt := Int32.lt_iff_toInt_lt.mp hmore.2
      refine h.write hpos rfl rfl (fun _ => ⟨hown, toInt_sub_one hcount hpos, .inl hmore.1⟩)
        (fun _ => (h.only t hpos).1) ?_
      exact fun u hu => ⟨(h.only t hpos).2 u (h.owner u hu), by omega⟩
    · rename_i hlast
      refine h.pass ⟨?_, hown⟩
      rcases hk with hk | hk
      · have hle : ¬ (1 < s.count.toInt) := fun hlt => hlast ⟨hk, Int32.lt_iff_toInt_lt.mpr hlt⟩
        omega
      · exact hk
  | clearOwner =>
    rw [hp] at ht
    have hpos : 0 < s.depth t := by rw [ht.1]; exact Nat.one_pos
    rw [access]
    exact h.write hpos rfl rfl ⟨ht.1, nofun⟩ (fun _ => (h.only t hpos).1) nofun
  | clearCount =>
    rw [hp] at ht
    have hpos : 0 < s.depth t := by rw [ht.1]; exact Nat.one_pos
    rw [access]
    refine h.write hpos rfl rfl ht (fun _ => (h.only t hpos).1) fun u hu => ?_
    exact ⟨(h.only t hpos).2 u (h.owner u hu), hpos⟩
  | clearLocked =>
    rw [hp] at ht
    have hpos : 0 < s.depth t := by rw [ht.1]; exact Nat.one_pos
    rw [access, ht.1]
    refine h.write hpos rfl rfl nofun nofun fun u hu => ?_
    obtain rfl := (h.only t hpos).2 u (h.owner u hu)
    exact absurd hu ht.2

structure Exclusive (s : State) : Prop where
  alone : ∀ t u, 0 < s.depth t → 0 < s.depth u → u = t
  locked : ∀ t, 0 < s.depth t → s.locked
  /-- the fields of a mutex whose holder is in no call -/
  counted : ∀ t, 0 < s.depth t → s.pc t = .idle →
    s.owner = t + 1 ∧ s.count.toInt = s.depth t

theorem mutual_exclusion (h : Reaches (step k) (fun s i => bounded s i = true) {} s) :
    Exclusive s := by
  have inv : Inv k s :=
    h.invariant (by constructor <;> simp [Placed]) fun _ _ _ h hi hs => h.step hi hs
  refine ⟨fun t u ht => (inv.only t ht).2 u, fun t ht => (inv.only t ht).1, fun t ht hp => ?_⟩
  have := inv.placed t
  rw [hp] at this
  exact (this ht).imp_right And.left

/-- Thread 0 locks a recursive mutex, thread 1 tries to, and thread 0 locks it again. -/
def nestedLock : List (Nat × Call) :=
  [(0, .lock true), (0, .unlock), (1, .lock false), (0, .unlock), (1, .unlock), (0, .unlock),
    (1, .unlock), (0, .lock true), (0, .unlock), (0, .unlock)]

theorem nested_lock_exclusive :
    ∃ s, run (guarded bounded (step .recursive)) {} nestedLock = some s ∧
      s.depth 0 = 2 ∧ s.depth 1 = 0 ∧ s.count = 2 ∧ Exclusive s := by
  have runs : (run (guarded bounded (step .recursive)) {} nestedLock).any
      (fun s => s.depth 0 == 2 && s.depth 1 == 0 && s.count == 2) = true := by decide
  obtain ⟨s, hs, hend⟩ := Option.any_eq_true _ _ |>.mp runs
  simp only [Bool.and_eq_true, beq_iff_eq] at hend
  exact ⟨s, hs, hend.1.1, hend.1.2, hend.2, mutual_exclusion (reaches_of_guarded_run _ hs)⟩

end Six.Libc.Mutex
