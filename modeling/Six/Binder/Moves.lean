import Six.Binder.Located

/-! The changes that the driver makes to transactions.  Each of them leaves every transaction
located. -/

namespace Six.Binder

open Six.Lib State List Function Option Event Life

variable {s s' : State} {n m : Nat} {p : Slot} {t : Tid} {rest : List Nat}

@[simp] theorem popTxn_log : (s.popTxn p n).log = s.log ++ [.delivered n p] := rfl

theorem popTxn_procs : (s.popTxn p n).procs =
    update s.procs p { s.procs p with todo := (s.procs p).todo.tail } := rfl

theorem popTxn_txns_self :
    (s.popTxn p n).txns n = (s.txns n).map fun txn => { txn with delivered := true } :=
  update_self ..

theorem popTxn_todo_sublist (q : Slot) : ((s.popTxn p n).procs q).todo.Sublist (s.procs q).todo :=
  rel_update (r := fun (x y : Proc) => x.todo.Sublist y.todo) (fun _ => .refl _) (tail_sublist _) q

theorem popTxn_inFlight (q : Slot) : ((s.popTxn p n).procs q).inFlight = (s.procs q).inFlight :=
  proj_update (by rfl) q

theorem popTxn_inUse (q : Slot) : ((s.popTxn p n).procs q).inUse = (s.procs q).inUse :=
  proj_update (by rfl) q

theorem untouched_popTxn (htodo : (s.procs p).todo = n :: rest) (hm : m ≠ n) :
    Untouched s (s.popTxn p n) m := by
  refine ((untouched_setProc ?_ .rfl rfl).trans (untouched_setTxn hm)).trans (untouched_note ?_)
  · simp [htodo, hm]
  · simp [txn, Ne.symm hm]

theorem popTxn_not_mem (h : Lin s) (htodo : (s.procs p).todo = n :: rest) (q : Slot) :
    n ∉ ((s.popTxn p n).procs q).todo := by
  rw [popTxn_procs, update_apply]
  split
  · have nodup := h.todo_nodup p
    rw [htodo] at nodup
    rw [htodo]
    exact (nodup_cons.mp nodup).1
  · rename_i hq
    intro hmem
    have hp := ((h.located n).todo p).mp (by rw [htodo]; exact mem_cons_self)
    have hq' := ((h.located n).todo q).mp hmem
    exact hq (some.inj (hq'.symm.trans hp))

theorem fifo_popTxn (h : Lin s) (htodo : (s.procs p).todo = n :: rest) (q : Slot) :
    ((s.popTxn p n).log.filterMap (deliveredTo q) ++ ((s.popTxn p n).procs q).todo).Sublist
      ((s.popTxn p n).log.filterMap (createdTo q)) := by
  have order := h.fifo q
  rw [popTxn_log, popTxn_procs, filterMap_append, filterMap_append]
  by_cases hq : q = p
  · subst hq
    rw [htodo] at order
    simpa [filterMap_cons, deliveredTo, createdTo, htodo] using order
  · simpa [filterMap_cons, deliveredTo, createdTo, Ne.symm hq, hq] using order

theorem life_popTxn : (s.popTxn p n).life n = (s.life n).next (.delivered n p) := by
  rw [life_of_log popTxn_log]
  simp [txn]

theorem lin_popTxn (h : Lin s) (htodo : (s.procs p).todo = n :: rest)
    (hlife : s.life n = .posted p) : Lin (s.popTxn p n) := by
  have hn := h.located n
  have hlife' : (s.popTxn p n).life n = .taken := by rw [life_popTxn, hlife]; rfl
  have self : Located (s.popTxn p n) n :=
    { todo := fun q => by
        rw [hlife']
        exact iff_of_false (popTxn_not_mem h htodo q) (by simp [todo])
      inFlight := fun q => by
        rw [hlife', popTxn_inFlight, hn.inFlight, hlife]
        rfl
      heap := by
        have heap := hn.heap
        rw [hlife] at heap
        obtain ⟨txn, htxn, hone⟩ := heap
        rw [hlife', popTxn_txns_self, htxn]
        exact ⟨_, rfl, hone⟩
      role := fun t r ht => by
        have := hn.role t r ht
        rw [hlife] at this
        exact this.elim
      unique := hn.unique
      held := fun hp => by rw [hlife'] at hp; exact hp.elim
      served := fun q hw => by rw [hlife'] at hw; rcases hw with hw | hw <;> cases hw }
  exact h.change n (fun m hm => untouched_popTxn htodo hm) self (Nat.le_refl _)
    (h.lt_next (by rw [hlife]; exact Life.noConfusion))
    (fun q => (h.todo_nodup q).sublist (popTxn_todo_sublist q))
    (fun q => by rw [popTxn_inFlight]; exact h.inFlight_nodup q) (fifo_popTxn h htodo)

theorem pushInFlight_todo (q : Slot) : ((s.pushInFlight p n).procs q).todo = (s.procs q).todo :=
  proj_update (by rfl) q

theorem lin_takeSync (h : Lin s) (htodo : (s.procs p).todo = n :: rest)
    (hlife : s.life n = .queued p) : Lin ((s.popTxn p n).pushInFlight p n) := by
  have hn := h.located n
  have hlife' : ((s.popTxn p n).pushInFlight p n).life n = .flying p := by
    show (s.popTxn p n).life n = .flying p
    rw [life_popTxn, hlife]
    rfl
  have todo := pushInFlight_todo (s := s.popTxn p n) (p := p) (n := n)
  have inFlight : ∀ q, (((s.popTxn p n).pushInFlight p n).procs q).inFlight =
      if q = p then n :: (s.procs p).inFlight else (s.procs q).inFlight := by
    intro q
    simp only [pushInFlight, setProc, update_apply]
    split
    · simp only [popTxn_inFlight]
    · exact popTxn_inFlight q
  have inUse : ∀ q, (((s.popTxn p n).pushInFlight p n).procs q).inUse = (s.procs q).inUse :=
    fun q => (proj_update (by rfl) q).trans (popTxn_inUse q)
  have absent : ∀ q, n ∉ (s.procs q).inFlight := by
    intro q hmem
    have := (hn.inFlight q).mp hmem
    rw [hlife] at this
    cases this
  have self : Located ((s.popTxn p n).pushInFlight p n) n :=
    { todo := fun q => by
        rw [hlife', todo]
        exact iff_of_false (popTxn_not_mem h htodo q) (by simp [Life.todo])
      inFlight := fun q => by
        rw [hlife', inFlight, inFlight_eq_some]
        split
        · subst q; simp
        · rename_i hq
          exact iff_of_false (absent q) fun heq => hq (by cases heq; rfl)
      heap := by
        have heap := hn.heap
        rw [hlife] at heap
        obtain ⟨txn, htxn, hone, hdone⟩ := heap
        rw [hlife']
        refine ⟨{ txn with delivered := true }, ?_, hone, hdone⟩
        show (s.popTxn p n).txns n = _
        rw [popTxn_txns_self, htxn]
        rfl
      role := fun t r ht => by
        have := hn.role t r ht
        rw [hlife] at this
        rw [hlife']
        cases r with
        | caller => trivial
        | _ => exact this.elim
      unique := hn.unique
      held := fun _ => hn.held (by rw [hlife]; trivial)
      served := fun q hw => by
        rw [hlife'] at hw
        rw [inUse]
        rcases hw with hw | hw
        · cases hw
        · cases hw; exact hn.served p (.inl hlife) }
  refine h.change n (fun m hm => ?_) self (Nat.le_refl _)
    (h.lt_next (by rw [hlife]; exact Life.noConfusion)) (fun q => ?_) (fun q => ?_) fun q => ?_
  · refine (untouched_popTxn htodo hm).trans (untouched_setProc .rfl ?_ rfl)
    simp [hm]
  · rw [todo]
    exact (h.todo_nodup q).sublist (popTxn_todo_sublist q)
  · rw [inFlight]
    split
    · exact nodup_cons.mpr ⟨absent p, h.inFlight_nodup p⟩
    · exact h.inFlight_nodup q
  · rw [todo]
    exact fifo_popTxn h htodo q

theorem hold_setPhase (hph : ph.hold = some (r, n))
    (own : ∀ t' r', (s.tasks t').hold = some (r', n) → t' = t) (t' : Tid) (r' : Role) :
    ((s.setPhase t ph).tasks t').hold = some (r', n) ↔ t' = t ∧ r' = r := by
  simp only [setPhase, update_apply]
  split
  · rename_i heq
    simp [heq, hph, eq_comm]
  · rename_i hne
    exact iff_of_false (fun hr => hne (own t' r' hr)) fun hr => hne hr.1

theorem lin_hold (h : Lin s) (hph : ph.hold = some (r, n))
    (allowed : (s.life n).Allows r) (own : ∀ t' r', (s.tasks t').hold = some (r', n) → t' = t)
    (only : ∀ r' m, (s.tasks t).hold = some (r', m) → m = n) : Lin (s.setPhase t ph) := by
  have hn := h.located n
  have hold := hold_setPhase hph own
  have self : Located (s.setPhase t ph) n :=
    { hn with
      role := fun t' r' ht' => by
        obtain ⟨-, rfl⟩ := (hold t' r').mp ht'
        exact allowed
      unique := fun t1 t2 r1 r2 h1 h2 => by
        rw [((hold t1 r1).mp h1).1, ((hold t2 r2).mp h2).1]
      held := fun _ => ⟨t, r, (hold t r).mpr ⟨rfl, rfl⟩⟩ }
  have created : s.life n ≠ .fresh := by
    intro hl
    rw [hl] at allowed
    exact allowed
  refine h.change n (fun m hm => untouched_setPhase ?_ ?_) self (Nat.le_refl _)
    (h.lt_next created) h.todo_nodup h.inFlight_nodup h.fifo
  · exact fun r' hr => hm (only r' m hr)
  · rw [hph]
    exact fun r' heq => hm (congrArg Prod.snd (some.inj heq)).symm

theorem lin_free (h : Lin s) (hlife : s.life n = .taken ∨ s.life n = .awake)
    (own : ∀ t' r, (s.tasks t').hold = some (r, n) → t' = t)
    (only : ∀ r m, (s.tasks t).hold = some (r, m) → m = n) (hph : ph.hold = none) :
    Lin ((s.kfree n).setPhase t ph) := by
  have hn := h.located n
  have hlife' : ((s.kfree n).setPhase t ph).life n = (s.life n).next (.freed n) := by
    rw [life_of_log (s := s) (l := [.freed n]) rfl]
    simp [txn]
  have self : Located ((s.kfree n).setPhase t ph) n := by
    apply located_over
    · rw [hlife']
      rcases hlife with hl | hl <;> (rw [hl]; trivial)
    · intro q hmem
      have := (hn.todo q).mp hmem
      rcases hlife with hl | hl <;> (rw [hl] at this; cases this)
    · intro q hmem
      have := (hn.inFlight q).mp hmem
      rcases hlife with hl | hl <;> (rw [hl] at this; cases this)
    · intro t' r
      simp only [setPhase, update_apply]
      split
      · rw [hph]; exact some_ne_none _ |>.symm
      · rename_i ht
        exact fun hold => ht (own t' r hold)
  refine h.change n (fun m hm => ?_) self (Nat.le_refl _) (h.lt_next ?_) h.todo_nodup
    h.inFlight_nodup fun q => fifo_of_log h rfl ?_ (.refl _)
  · refine (untouched_kfree hm).trans (untouched_setPhase ?_ ?_)
    · exact fun r hold => hm (only r m hold)
    · rw [hph]; exact fun r => some_ne_none _ |>.symm
  · rcases hlife with hl | hl <;> (rw [hl]; exact Life.noConfusion)
  · simp [isDelivered, isCreated]

theorem setPhase_self (s : State) (t : Tid) : s.setPhase t (s.tasks t) = s := by
  rw [setPhase, update_eq_self]

theorem lin_kfree (h : Lin s) (hlife : s.life n = .taken)
    (free : ∀ t' r, (s.tasks t').hold ≠ some (r, n)) (ht : (s.tasks t).hold = none) :
    Lin (s.kfree n) := by
  rw [← setPhase_self (s.kfree n) t]
  refine lin_free h (.inl hlife) (fun t' r hr => absurd hr (free t' r)) (fun r m hr => ?_) ht
  rw [ht] at hr
  cases hr

theorem completeTxn_inFlight (r : Msg) (q : Slot) : ((s.completeTxn p n r).procs q).inFlight =
    if q = p then (s.procs p).inFlight.erase n else (s.procs q).inFlight := by
  simp only [completeTxn, setProc, setTxn, note, update_apply]
  split <;> rfl

theorem completeTxn_todo (r : Msg) (q : Slot) :
    ((s.completeTxn p n r).procs q).todo = (s.procs q).todo :=
  proj_update (by rfl) q

theorem completeTxn_txns_self (r : Msg) : (s.completeTxn p n r).txns n =
    (s.txns n).map fun txn => { txn with msg := txn.msg.answer r, done := true } :=
  update_self ..

theorem lin_completeTxn (h : Lin s) (r : Msg) (hmem : n ∈ (s.procs p).inFlight) :
    Lin (s.completeTxn p n r) := by
  have hn := h.located n
  have hlife : s.life n = .flying p := inFlight_eq_some.mp ((hn.inFlight p).mp hmem)
  have hlife' : (s.completeTxn p n r).life n = .awake := by
    rw [life_of_log (s := s) (l := [.completed n, .woken n]) rfl, hlife]
    simp [txn, Life.next]
  have self : Located (s.completeTxn p n r) n := by
    refine hn.wake (.inr hlife) hlife' (fun q => ?_) (fun q => ?_) ?_ rfl
    · rw [completeTxn_todo, hn.todo, hlife]
      exact some_ne_none _ |>.symm
    · rw [completeTxn_inFlight]
      split
      · exact (h.inFlight_nodup p).not_mem_erase
      · rename_i hq
        rw [hn.inFlight, hlife]
        exact fun heq => hq (some.inj heq).symm
    · have heap := hn.heap
      rw [hlife] at heap
      obtain ⟨txn, htxn, hone, -⟩ := heap
      rw [completeTxn_txns_self, htxn]
      exact ⟨_, rfl, hone, rfl⟩
  refine h.change n (fun m hm => ?_) self (Nat.le_refl _)
    (h.lt_next (by rw [hlife]; exact Life.noConfusion)) (fun q => ?_) (fun q => ?_)
    fun q => fifo_of_log h rfl ?_ (by rw [completeTxn_todo])
  · refine ((untouched_setProc .rfl ?_ rfl).trans (untouched_setTxn hm)).trans (untouched_note ?_)
    · exact mem_erase_of_ne hm
    · simp [txn, Ne.symm hm]
  · rw [completeTxn_todo]
    exact h.todo_nodup q
  · rw [completeTxn_inFlight]
    split
    · exact (h.inFlight_nodup p).erase n
    · exact h.inFlight_nodup q
  · simp [isDelivered, isCreated]

section Create

variable {call : Call}

def newMsg (s : State) : Msg :=
  { Msg.codec.fetch s.kmsg with txnId := UInt32.ofNat (s.next + 1) }

theorem enqueueTxn_log : (s.enqueueTxn call p).log =
    s.log ++ [.created s.next p (Msg.codec.fetch s.kmsg).oneWay call] := rfl

theorem enqueueTxn_txns_self : (s.enqueueTxn call p).txns s.next =
    some { txnId := (newMsg s).txnId, sender := call.sender, target := p, msg := newMsg s } :=
  update_self ..

theorem enqueueTxn_todo (q : Slot) : ((s.enqueueTxn call p).procs q).todo =
    if q = p then (s.procs p).todo ++ [s.next] else (s.procs q).todo := by
  simp only [enqueueTxn, update_apply]
  split <;> rfl

theorem enqueueTxn_inFlight (q : Slot) :
    ((s.enqueueTxn call p).procs q).inFlight = (s.procs q).inFlight :=
  proj_update (by rfl) q

theorem enqueueTxn_inUse (q : Slot) : ((s.enqueueTxn call p).procs q).inUse = (s.procs q).inUse :=
  proj_update (by rfl) q

theorem life_enqueueTxn (h : Lin s) : (s.enqueueTxn call p).life s.next =
    if (Msg.codec.fetch s.kmsg).oneWay then .posted p else .queued p := by
  rw [life_of_log enqueueTxn_log, h.fresh _ (Nat.le_refl _)]
  simp [txn, Life.next]

theorem untouched_enqueueTxn (hm : m ≠ s.next) : Untouched s (s.enqueueTxn call p) m where
  life := by
    rw [life_of_log enqueueTxn_log, follow_of_forall_ne]
    simp [txn, Ne.symm hm]
  todo := fun q => by
    rw [enqueueTxn_todo]
    split
    · subst q; simp [hm]
    · rfl
  inFlight := fun q => by rw [enqueueTxn_inFlight]
  txns := update_of_ne hm _ _
  hold := fun _ _ => .rfl
  inUse := fun q _ hq => by rw [enqueueTxn_inUse]; exact hq

section

variable (h : Lin s)
include h

theorem fifo_enqueueTxn (q : Slot) :
    ((s.enqueueTxn call p).log.filterMap (deliveredTo q) ++
      ((s.enqueueTxn call p).procs q).todo).Sublist
      ((s.enqueueTxn call p).log.filterMap (createdTo q)) := by
  have order := h.fifo q
  rw [enqueueTxn_log, enqueueTxn_todo, filterMap_append, filterMap_append]
  by_cases hq : q = p
  · subst hq
    simpa [filterMap_cons, deliveredTo, createdTo] using order.append (.refl [s.next])
  · simpa [filterMap_cons, deliveredTo, createdTo, Ne.symm hq, hq] using order

theorem Lin.next_absent : (∀ q, s.next ∉ (s.procs q).todo) ∧
    (∀ q, s.next ∉ (s.procs q).inFlight) ∧ ∀ t r, (s.tasks t).hold ≠ some (r, s.next) := by
  have hn := h.located s.next
  have hlife := h.fresh s.next (Nat.le_refl _)
  refine ⟨fun q hmem => ?_, fun q hmem => ?_, fun t r hold => ?_⟩
  · have := (hn.todo q).mp hmem
    rw [hlife] at this
    cases this
  · have := (hn.inFlight q).mp hmem
    rw [hlife] at this
    cases this
  · have := hn.role t r hold
    rw [hlife] at this
    exact this

theorem enqueueTxn_todo_nodup (q : Slot) : ((s.enqueueTxn call p).procs q).todo.Nodup := by
  rw [enqueueTxn_todo]
  split
  · refine (nodup_append_comm.mp (?_ : ([s.next] ++ (s.procs p).todo).Nodup))
    exact nodup_cons.mpr ⟨h.next_absent.1 p, h.todo_nodup p⟩
  · exact h.todo_nodup q

theorem mem_enqueueTxn_todo (q : Slot) : s.next ∈ ((s.enqueueTxn call p).procs q).todo ↔ q = p := by
  rw [enqueueTxn_todo]
  split
  · rename_i hq
    simp [hq]
  · rename_i hq
    exact iff_of_false (h.next_absent.1 q) hq

theorem lin_post (hone : (Msg.codec.fetch s.kmsg).oneWay = true) : Lin (s.enqueueTxn call p) := by
  have hlife : (s.enqueueTxn call p).life s.next = .posted p := by
    rw [life_enqueueTxn h, if_pos hone]
  obtain ⟨-, absent, free⟩ := h.next_absent
  have self : Located (s.enqueueTxn call p) s.next :=
    { todo := fun q => by
        rw [hlife, mem_enqueueTxn_todo h]
        exact ⟨fun hq => by rw [hq]; rfl, fun hq => (some.inj hq).symm⟩
      inFlight := fun q => by
        rw [hlife, enqueueTxn_inFlight]
        exact iff_of_false (absent q) (by simp [inFlight])
      heap := by
        rw [hlife, enqueueTxn_txns_self]
        exact ⟨_, rfl, hone⟩
      role := fun t r ht => absurd ht (free t r)
      unique := fun t _ r _ ht => absurd ht (free t r)
      held := fun hp => by rw [hlife] at hp; exact hp.elim
      served := fun q hw => by rw [hlife] at hw; rcases hw with hw | hw <;> cases hw }
  exact h.change s.next (fun m hm => untouched_enqueueTxn hm) self (Nat.le_succ _)
    (Nat.lt_succ_self _) (enqueueTxn_todo_nodup h)
    (fun q => by rw [enqueueTxn_inFlight]; exact h.inFlight_nodup q) (fifo_enqueueTxn h)

theorem lin_call (hone : (Msg.codec.fetch s.kmsg).oneWay = false)
    (huse : (s.procs p).inUse = true) (ht : (s.tasks t).hold = none) :
    Lin ((s.enqueueTxn call p).setPhase t (.asleep call s.next)) := by
  have hlife : ((s.enqueueTxn call p).setPhase t (.asleep call s.next)).life s.next =
      .queued p := by
    show (s.enqueueTxn call p).life s.next = _
    rw [life_enqueueTxn h, hone]
    rfl
  obtain ⟨-, absent, free⟩ := h.next_absent
  have hold := hold_setPhase (s := s.enqueueTxn call p) (t := t)
    (rfl : (Phase.asleep call s.next).hold = _) fun t' r hr => absurd hr (free t' r)
  have self : Located ((s.enqueueTxn call p).setPhase t (.asleep call s.next)) s.next :=
    { todo := fun q => by
        rw [hlife]
        show s.next ∈ ((s.enqueueTxn call p).procs q).todo ↔ _
        rw [mem_enqueueTxn_todo h]
        exact ⟨fun hq => by rw [hq]; rfl, fun hq => (some.inj hq).symm⟩
      inFlight := fun q => by
        rw [hlife]
        show s.next ∈ ((s.enqueueTxn call p).procs q).inFlight ↔ _
        rw [enqueueTxn_inFlight]
        exact iff_of_false (absent q) (by simp [inFlight])
      heap := by
        rw [hlife]
        exact ⟨_, enqueueTxn_txns_self, hone, rfl⟩
      role := fun t' r ht' => by
        obtain ⟨-, rfl⟩ := (hold t' r).mp ht'
        rw [hlife]
        trivial
      unique := fun t1 t2 r1 r2 h1 h2 => by
        rw [((hold t1 r1).mp h1).1, ((hold t2 r2).mp h2).1]
      held := fun _ => ⟨t, .caller, (hold t .caller).mpr ⟨rfl, rfl⟩⟩
      served := fun q hw => by
        show ((s.enqueueTxn call p).procs q).inUse = true
        rw [hlife] at hw
        rw [enqueueTxn_inUse]
        rcases hw with hw | hw
        · cases hw; exact huse
        · cases hw }
  have nodup : ∀ q, ((s.enqueueTxn call p).procs q).todo.Nodup := enqueueTxn_todo_nodup h
  refine h.change s.next (fun m hm => ?_) self (Nat.le_succ _) (Nat.lt_succ_self _) nodup
    (fun q => ?_) (fifo_enqueueTxn (s := s) h)
  · refine (untouched_enqueueTxn hm).trans (untouched_setPhase ?_ ?_)
    · show ∀ r, (s.tasks t).hold ≠ _
      rw [ht]
      exact fun r => some_ne_none _ |>.symm
    · intro r heq
      exact hm (congrArg Prod.snd (some.inj heq)).symm
  · show ((s.enqueueTxn call p).procs q).inFlight.Nodup
    rw [enqueueTxn_inFlight]
    exact h.inFlight_nodup q

theorem abandonTxn_todo (q : Slot) :
    (((s.enqueueTxn call p).abandonTxn p s.next).procs q).todo = (s.procs q).todo := by
  simp only [abandonTxn, kfree, note, setProc, update_apply]
  split
  · subst q
    rw [enqueueTxn_todo, if_pos rfl, erase_append_right _ (h.next_absent.1 p)]
    simp
  · rename_i hq
    rw [enqueueTxn_todo, if_neg hq]

theorem abandonTxn_inFlight (q : Slot) :
    (((s.enqueueTxn call p).abandonTxn p s.next).procs q).inFlight = (s.procs q).inFlight := by
  simp only [abandonTxn, kfree, note, setProc, update_apply]
  split
  · subst q
    rw [enqueueTxn_inFlight, erase_of_not_mem (h.next_absent.2.1 p)]
  · exact enqueueTxn_inFlight q

theorem lin_abandon (hone : (Msg.codec.fetch s.kmsg).oneWay = false) :
    Lin ((s.enqueueTxn call p).abandonTxn p s.next) := by
  have hlog : ((s.enqueueTxn call p).abandonTxn p s.next).log =
      (s.enqueueTxn call p).log ++ [.completed s.next, .freed s.next] := by
    simp only [abandonTxn, kfree, note, setProc, append_assoc, singleton_append]
  have hlife : ((s.enqueueTxn call p).abandonTxn p s.next).life s.next = .aborted := by
    rw [life_of_log hlog, life_enqueueTxn h, hone]
    simp [txn, Life.next]
  obtain ⟨listed, absent, free⟩ := h.next_absent
  have self : Located ((s.enqueueTxn call p).abandonTxn p s.next) s.next := by
    apply located_over
    · rw [hlife]; trivial
    · intro q; rw [abandonTxn_todo h]; exact listed q
    · intro q; rw [abandonTxn_inFlight h]; exact absent q
    · exact free
  refine h.change s.next (fun m hm => ?_) self (Nat.le_succ _) (Nat.lt_succ_self _)
    (fun q => by rw [abandonTxn_todo h]; exact h.todo_nodup q)
    (fun q => by rw [abandonTxn_inFlight h]; exact h.inFlight_nodup q) fun q => ?_
  · refine (untouched_enqueueTxn hm).trans ((Untouched.trans (untouched_setProc ?_ ?_ rfl)
      (untouched_note ?_)).trans (untouched_kfree hm))
    · exact mem_erase_of_ne hm
    · exact mem_erase_of_ne hm
    · simp [txn, Ne.symm hm]
  · have order := h.fifo q
    rw [abandonTxn_todo h, hlog, enqueueTxn_log]
    simp only [filterMap_append, filterMap_cons, filterMap_nil, deliveredTo, createdTo, append_nil]
    exact order.trans (sublist_append_left _ _)

end

end Create

section Release

variable {f : State → Nat → State}

theorem foldl_visit {g : Option Txn → Option Txn} {e : Option Txn → Nat → List Event}
    (htxns : ∀ s n, (f s n).txns = update s.txns n (g (s.txns n)))
    (hlog : ∀ s n, (f s n).log = s.log ++ e (s.txns n) n) (ids : List Nat) (nodup : ids.Nodup)
    (s : State) : (∀ m, (ids.foldl f s).txns m = if m ∈ ids then g (s.txns m) else s.txns m) ∧
      (ids.foldl f s).log = s.log ++ ids.flatMap fun n => e (s.txns n) n := by
  induction ids generalizing s with
  | nil => simp
  | cons n ids ih =>
    obtain ⟨hn, hids⟩ := nodup_cons.mp nodup
    obtain ⟨txns, log⟩ := ih hids (f s n)
    constructor
    · intro m
      rw [foldl_cons, txns, htxns]
      by_cases hm : m = n
      · subst hm; simp [hn]
      · simp [hm]
    · have same : ids.flatMap (fun i => e ((f s n).txns i) i) =
          ids.flatMap fun i => e (s.txns i) i := by
        apply flatMap_congr
        intro i hi
        have hne : i ≠ n := by
          rintro rfl
          exact hn hi
        rw [htxns, update_of_ne hne]
      rw [foldl_cons, log, hlog, same, flatMap_cons, append_assoc]

theorem foldl_keeps {α : Type*} (g : State → α) (h : ∀ s n, g (f s n) = g s) (ids : List Nat)
    (s : State) : g (ids.foldl f s) = g s := by
  induction ids generalizing s with
  | nil => rfl
  | cons n ids ih => rw [foldl_cons, ih, h]

def failed (x : Option Txn) : Option Txn :=
  x.map fun txn => { txn with msg := txn.msg.fail, done := true }

def isOneWay (x : Option Txn) : Bool := x.any (·.msg.oneWay)

def dropped (x : Option Txn) : Option Txn := if isOneWay x then none else failed x

def dropEvents (x : Option Txn) (n : Nat) : List Event :=
  if isOneWay x then [.freed n] else [.completed n, .woken n]

theorem dropQueued_txns (s : State) (n : Nat) :
    (s.dropQueued n).txns = update s.txns n (dropped (s.txns n)) := by
  unfold dropQueued dropped isOneWay
  split <;> rfl

theorem dropQueued_log (s : State) (n : Nat) :
    (s.dropQueued n).log = s.log ++ dropEvents (s.txns n) n := by
  unfold dropQueued dropEvents isOneWay
  split <;> rfl

theorem failAll_tasks : (s.failAll p).tasks = s.tasks := by
  rw [failAll, foldl_keeps (f := failTxn) tasks fun _ _ => rfl, foldl_keeps tasks]
  intro s n
  unfold dropQueued
  split <;> rfl

theorem failAll_next : (s.failAll p).next = s.next := by
  rw [failAll, foldl_keeps (f := failTxn) next fun _ _ => rfl, foldl_keeps next]
  intro s n
  unfold dropQueued
  split <;> rfl

theorem Lin.todo_unique (h : Lin s) (hp : m ∈ (s.procs p).todo) (q : Slot)
    (hq : m ∈ (s.procs q).todo) : q = p :=
  some.inj ((((h.located m).todo q).mp hq).symm.trans (((h.located m).todo p).mp hp))

theorem Lin.inFlight_unique (h : Lin s) (hp : m ∈ (s.procs p).inFlight) (q : Slot)
    (hq : m ∈ (s.procs q).inFlight) : q = p :=
  some.inj ((((h.located m).inFlight q).mp hq).symm.trans (((h.located m).inFlight p).mp hp))

theorem Lin.not_inFlight (h : Lin s) (hp : m ∈ (s.procs p).todo) (q : Slot) :
    m ∉ (s.procs q).inFlight := by
  intro hq
  have hl := inFlight_eq_some.mp (((h.located m).inFlight q).mp hq)
  have := ((h.located m).todo p).mp hp
  rw [hl] at this
  cases this

theorem Lin.not_todo (h : Lin s) (hp : m ∈ (s.procs p).inFlight) (q : Slot) :
    m ∉ (s.procs q).todo :=
  fun hq => h.not_inFlight hq p hp

theorem failAll_txns (h : Lin s) (m : Nat) : (s.failAll p).txns m =
    if m ∈ (s.procs p).todo then dropped (s.txns m)
    else if m ∈ (s.procs p).inFlight then failed (s.txns m) else s.txns m := by
  obtain ⟨first, -⟩ := foldl_visit dropQueued_txns dropQueued_log _ (h.todo_nodup p) s
  obtain ⟨second, -⟩ := foldl_visit (f := failTxn) (g := failed)
    (e := fun _ n => [.completed n, .woken n]) (fun _ _ => rfl) (fun _ _ => rfl) _
    (h.inFlight_nodup p) ((s.procs p).todo.foldl dropQueued s)
  rw [failAll, second, first]
  by_cases hm : m ∈ (s.procs p).inFlight
  · simp [hm, h.not_todo hm p]
  · simp [hm]

theorem failAll_log (h : Lin s) : (s.failAll p).log =
    s.log ++ ((s.procs p).todo.flatMap (fun n => dropEvents (s.txns n) n) ++
      (s.procs p).inFlight.flatMap fun n => [.completed n, .woken n]) := by
  obtain ⟨-, first⟩ := foldl_visit dropQueued_txns dropQueued_log _ (h.todo_nodup p) s
  obtain ⟨-, second⟩ := foldl_visit (f := failTxn) (g := failed)
    (e := fun _ n => [.completed n, .woken n]) (fun _ _ => rfl) (fun _ _ => rfl) _
    (h.inFlight_nodup p) ((s.procs p).todo.foldl dropQueued s)
  rw [failAll, second, first, append_assoc]

theorem dropEvents_txn (x : Option Txn) (n : Nat) : ∀ e ∈ dropEvents x n, e.txn = some n := by
  unfold dropEvents
  split <;> simp [txn]

theorem life_failAll (h : Lin s) (m : Nat) : (s.failAll p).life m =
    if m ∈ (s.procs p).todo then
      follow txn next (s.life m) (dropEvents (s.txns m) m) m
    else if m ∈ (s.procs p).inFlight then
      follow txn next (s.life m) [.completed m, .woken m] m else s.life m := by
  rw [life_of_log (failAll_log h), follow_append,
    follow_flatMap (h.todo_nodup p) fun i => dropEvents_txn _ i,
    follow_flatMap (h.inFlight_nodup p) (by simp [txn])]
  by_cases hm : m ∈ (s.procs p).inFlight
  · simp [hm, h.not_todo hm p]
  · simp [hm]

theorem failAll_events (h : Lin s) : ∃ es, (s.failAll p).log = s.log ++ es ∧
    ∀ e ∈ es, e.isDelivered = false ∧ e.isCreated = false := by
  refine ⟨_, failAll_log h, fun e he => ?_⟩
  rcases mem_append.mp he with he | he
  · obtain ⟨n, -, hn⟩ := mem_flatMap.mp he
    unfold dropEvents at hn
    split at hn <;> simp at hn
    · subst hn; exact ⟨rfl, rfl⟩
    · rcases hn with rfl | rfl <;> exact ⟨rfl, rfl⟩
  · obtain ⟨n, -, hn⟩ := mem_flatMap.mp he
    simp at hn
    rcases hn with rfl | rfl <;> exact ⟨rfl, rfl⟩

theorem cleared_not_mem {procs : Slot → Proc} {f : Proc → List Nat}
    (empty : f proc = []) (elsewhere : ∀ q, m ∈ f (procs q) → q = p) (q : Slot) :
    m ∉ f (update procs p proc q) := by
  rw [update_apply]
  split
  · rw [empty]; exact not_mem_nil
  · rename_i hq
    exact fun hm => hq (elsewhere q hm)

theorem fits_failed (h : ∃ txn, x = some txn ∧ txn.msg.oneWay = false ∧
    txn.done = false) : isOneWay x = false ∧ awake.Fits (failed x) := by
  obtain ⟨txn, rfl, hone, -⟩ := h
  exact ⟨hone, _, rfl, hone, rfl⟩

theorem lin_clear {proc : Proc} (h : Lin s) (todo : proc.todo = [])
    (inFlight : proc.inFlight = []) (hprocs : s'.procs = update s.procs p proc)
    (htasks : s'.tasks = s.tasks) (hnext : s'.next = s.next) (hlog : s'.log = s.log ++ es)
    (hes : ∀ e ∈ es, e.isDelivered = false ∧ e.isCreated = false)
    (others : ∀ m, m ∉ (s.procs p).todo → m ∉ (s.procs p).inFlight →
      s'.life m = s.life m ∧ s'.txns m = s.txns m)
    (mine : ∀ m, m ∈ (s.procs p).todo ∨ m ∈ (s.procs p).inFlight →
      (∀ q, m ∉ (s'.procs q).todo) → (∀ q, m ∉ (s'.procs q).inFlight) → Located s' m) : Lin s' := by
  have located : ∀ m, Located s' m := by
    intro m
    have hm := h.located m
    by_cases htodo : m ∈ (s.procs p).todo
    · refine mine m (.inl htodo) ?_ ?_
      · rw [hprocs]
        exact cleared_not_mem (f := Proc.todo) todo (h.todo_unique htodo)
      · rw [hprocs]
        exact cleared_not_mem (f := Proc.inFlight) inFlight
          fun q hq => absurd hq (h.not_inFlight htodo q)
    · by_cases hflight : m ∈ (s.procs p).inFlight
      · refine mine m (.inr hflight) ?_ ?_
        · rw [hprocs]
          exact cleared_not_mem (f := Proc.todo) todo fun q hq => absurd hq (h.not_todo hflight q)
        · rw [hprocs]
          exact cleared_not_mem (f := Proc.inFlight) inFlight (h.inFlight_unique hflight)
      · apply hm.untouched
        constructor
        case life => exact (others m htodo hflight).1
        case txns => exact (others m htodo hflight).2
        case hold => rw [htasks]; exact fun _ _ => .rfl
        all_goals
          intro q
          rw [hprocs, update_apply]
          split
        · subst q; rw [todo]; exact iff_of_false not_mem_nil htodo
        · rfl
        · subst q; rw [inFlight]; exact iff_of_false not_mem_nil hflight
        · rfl
        · subst q
          rintro (hl | hl)
          · exact absurd ((hm.todo p).mpr (by rw [hl]; rfl)) htodo
          · exact absurd ((hm.inFlight p).mpr (by rw [hl]; rfl)) hflight
        · exact fun _ hu => hu
  refine ⟨located, fun m hm => ?_, fun q => ?_, fun q => ?_, fun q => ?_⟩
  · have hl := h.fresh m (by rw [← hnext]; exact hm)
    have htodo : m ∉ (s.procs p).todo := by
      rw [(h.located m).todo, hl]
      exact some_ne_none _ |>.symm
    have hflight : m ∉ (s.procs p).inFlight := by
      rw [(h.located m).inFlight, hl]
      exact some_ne_none _ |>.symm
    rw [(others m htodo hflight).1, hl]
  · rw [hprocs, update_apply]
    split
    · rw [todo]; exact nodup_nil
    · exact h.todo_nodup q
  · rw [hprocs, update_apply]
    split
    · rw [inFlight]; exact nodup_nil
    · exact h.inFlight_nodup q
  · refine fifo_of_log h hlog hes ?_
    rw [hprocs, update_apply]
    split
    · rw [todo]; exact nil_sublist _
    · exact .refl _

theorem lin_release (h : Lin s) (hprocs : s'.procs = update s.procs p
      { s.procs p with inUse := false, todo := [], inFlight := [] })
    (htxns : s'.txns = (s.failAll p).txns) (htasks : s'.tasks = s.tasks)
    (hlog : s'.log = (s.failAll p).log) (hnext : s'.next = s.next) : Lin s' := by
  have hlife : ∀ m, s'.life m = (s.failAll p).life m := fun m => by rw [life, hlog]; rfl
  obtain ⟨es, hes, neither⟩ := failAll_events (p := p) h
  refine lin_clear h rfl rfl hprocs htasks hnext (hlog.trans hes) neither
    (fun m htodo hflight => ?_)
    fun m hmem gone absent => ?_
  · constructor
    · rw [hlife, life_failAll h, if_neg htodo, if_neg hflight]
    · rw [htxns, failAll_txns h, if_neg htodo, if_neg hflight]
  have hm := h.located m
  have heap := hm.heap
  by_cases htodo : m ∈ (s.procs p).todo
  · rcases todo_eq_some.mp ((hm.todo p).mp htodo) with hl | hl
    · rw [hl] at heap
      obtain ⟨hone, fits⟩ := fits_failed heap
      refine hm.wake (.inl hl) ?_ gone absent ?_ htasks
      · rw [hlife, life_failAll h, if_pos htodo, hl, dropEvents, hone]
        simp [txn, Life.next]
      · rw [htxns, failAll_txns h, if_pos htodo, dropped, hone]
        exact fits
    · rw [hl] at heap
      obtain ⟨txn, htxn, hone⟩ := heap
      apply located_over _ gone absent
      · rw [htasks]
        intro t r ht
        have := hm.role t r ht
        rw [hl] at this
        exact this
      · have : isOneWay (s.txns m) = true := by rw [htxn]; exact hone
        rw [hlife, life_failAll h, if_pos htodo, hl, dropEvents, this]
        simp [Event.txn, Life.next, Life.Over]
  · have hflight := hmem.resolve_left htodo
    have hl := inFlight_eq_some.mp ((hm.inFlight p).mp hflight)
    rw [hl] at heap
    refine hm.wake (.inr hl) ?_ gone absent ?_ htasks
    · rw [hlife, life_failAll h, if_neg htodo, if_pos hflight, hl]
      simp [txn, Life.next]
    · rw [htxns, failAll_txns h, if_neg htodo, if_pos hflight]
      exact (fits_failed heap).2

end Release

/-- A slot that is free has no caller waiting on it, so clearing it loses one-way transactions
only. -/
theorem lin_open (h : Lin s) (hfree : (s.procs p).inUse = false)
    (todo : proc.todo = []) (inFlight : proc.inFlight = [])
    (hprocs : s'.procs = update s.procs p proc) (htxns : s'.txns = s.txns)
    (htasks : s'.tasks = s.tasks) (hnext : s'.next = s.next)
    (hlog : s'.log = s.log ++ ((s.procs p).todo ++ (s.procs p).inFlight).map .lost) : Lin s' := by
  have unserved : ∀ m, ¬ (s.life m).Waits p := by
    intro m hw
    have := (h.located m).served p hw
    rw [hfree] at this
    cases this
  have empty : (s.procs p).inFlight = [] := by
    rw [eq_nil_iff_forall_not_mem]
    intro m hm
    exact unserved m (.inr (inFlight_eq_some.mp (((h.located m).inFlight p).mp hm)))
  have hlog' : s'.log = s.log ++ (s.procs p).todo.flatMap fun n => [.lost n] := by
    rw [hlog, empty, append_nil, map_eq_flatMap]
  have hlife : ∀ m, s'.life m =
      if m ∈ (s.procs p).todo then (s.life m).next (.lost m) else s.life m := by
    intro m
    rw [life_of_log hlog', follow_flatMap (h.todo_nodup p) (by simp [txn])]
    simp [txn]
  refine lin_clear h todo inFlight hprocs htasks hnext hlog' (fun e he => ?_)
    (fun m htodo _ => ⟨by rw [hlife, if_neg htodo], by rw [htxns]⟩) fun m hmem gone absent => ?_
  · obtain ⟨n, -, hn⟩ := mem_flatMap.mp he
    rw [mem_singleton.mp hn]
    exact ⟨rfl, rfl⟩
  · rw [empty] at hmem
    have htodo := hmem.resolve_right not_mem_nil
    have hl : s.life m = .posted p := by
      rcases todo_eq_some.mp (((h.located m).todo p).mp htodo) with hl | hl
      · exact absurd (.inl hl) (unserved m)
      · exact hl
    apply located_over _ gone absent
    · rw [htasks]
      intro t r ht
      have := (h.located m).role t r ht
      rw [hl] at this
      exact this
    · rw [hlife, if_pos htodo, hl]
      trivial

end Six.Binder
