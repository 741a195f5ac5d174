import Six.Binder.Tame
import Six.Binder.Linear

/-! Authenticity of binder messages.  `kmsg` and `wev` are static buffers. -/

namespace Six.Binder

open Six.Lib State List Function Option Event Phase

variable {s s' : State} {place : Nat → Place} {n k : Nat} {p : Slot} {t : Tid} {call : Call}
  {l : Label} {copied : Nat} {t' : Tid} {env : Env} {user : Buffer} {cred : Cred} {err : Int}
  {f : Fid} {mode : RecvMode} {x : Option Nat} {phase : Phase}

theorem tame_note {l : List Event} (h : ∀ e ∈ l, e.isCreated = false ∧ e.isReceived = false) :
    Tame s (s.note l) t :=
  { Tame.refl s t with log := ⟨l, rfl, h⟩ }

theorem mild_note {l : List Event} (h : ∀ e ∈ l, e.isCreated = false ∧ e.isReceived = false) :
    Mild s (s.note l) t :=
  ⟨tame_note h, { Keeps.refl s with }⟩

theorem mild_setPhase (h : ph.plain = true) : Mild s (s.setPhase t ph) t where
  tame :=
    { Tame.refl s t with
      tasks := fun _ ht => update_of_ne ht _ _
      phase := .inr (by simpa [setPhase] using h) }
  keeps := { Keeps.refl s with }

theorem tame_setProc {f : Proc → Proc} (todo : (f (s.procs p)).todo.Sublist (s.procs p).todo)
    (inFlight : ∀ n ∈ (f (s.procs p)).inFlight, n ∈ (s.procs p).inFlight) :
    Tame s (s.setProc p f) t :=
  { Tame.refl s t with
    todo := rel_update (r := fun (x y : Proc) => x.todo.Sublist y.todo) (fun _ => .refl _) todo
    inFlight :=
      rel_update (r := fun (x y : Proc) => x.inFlight ⊆ y.inFlight) (fun _ => .refl _) inFlight }

theorem mild_setTxn {f : Txn → Txn} (h : ∀ txn, Altered s n txn.msg (f txn).msg) :
    Mild s (s.setTxn n f) t where
  tame :=
    { Tame.refl s t with
      txns := fun m txn' h' => by
        simp only [setTxn, update_apply] at h'
        split at h'
        · subst m
          obtain ⟨txn, htxn, rfl⟩ := map_eq_some_iff.mp h'
          exact ⟨txn, htxn, h txn⟩
        · exact ⟨txn', h', .same rfl⟩ }
  keeps := { Keeps.refl s with }

theorem mild_kfree : Mild s (s.kfree n) t := by
  have cleared : Tame s { s with txns := update s.txns n none } t :=
    { Tame.refl s t with
      txns := fun m txn' h' => by
        simp only [update_apply] at h'
        split at h'
        · cases h'
        · exact ⟨txn', h', .same rfl⟩ }
  exact ⟨cleared.trans (tame_note (by simp [isCreated, isReceived])),
    { Keeps.refl s with }⟩

theorem mild_ret : Mild s (s.ret t err) t :=
  (mild_setPhase rfl).trans (mild_note (by simp [isCreated, isReceived]))

theorem Mild.ret (h : Mild s s' t) : Mild s (s'.ret t err) t := h.trans mild_ret

theorem Tame.ret (h : Tame s s' t) : Tame s (s'.ret t err) t := h.trans mild_ret.tame

theorem mild_transactReturn : Mild s (s.transactReturn t call err) t := by
  unfold transactReturn
  split
  · exact mild_setPhase rfl
  · exact mild_ret

theorem mild_transactCopyBack : Mild s (s.transactCopyBack t call copied k) t := by
  unfold transactCopyBack
  split
  · exact mild_setPhase rfl
  · exact mild_transactReturn

theorem mild_transactCopyReply (hs : s.transactCopyReply t call n copied k = some s') :
    Mild s s' t := by
  obtain ⟨txn, -, rfl⟩ := map_eq_some_iff.mp hs
  split
  · exact mild_setPhase rfl
  · exact mild_kfree.trans mild_transactReturn

theorem mild_transactWake (hs : s.transactWake t call n k = some s') : Mild s s' t := by
  unfold transactWake at hs
  split at hs
  · split at hs
    · exact mild_transactCopyReply hs
    · cases hs
  · cases hs

theorem mild_abandonTxn : Mild s (s.abandonTxn p n) t := by
  have erased : Mild s (s.setProc p fun proc =>
      { proc with todo := proc.todo.erase n, inFlight := proc.inFlight.erase n }) t :=
    ⟨tame_setProc (erase_sublist ..) fun _ => mem_of_mem_erase, keeps_setProc rfl⟩
  exact (erased.trans (mild_note (by simp [isCreated, isReceived]))).trans mild_kfree

theorem mild_completeTxn {r : Msg} (hn : n ∈ (s.procs p).inFlight) :
    Mild s (s.completeTxn p n r) t := by
  -- the message changes first, while the transaction is still in the list
  show Mild s (((s.setTxn n fun txn => { txn with msg := txn.msg.answer r, done := true }).setProc
    p fun proc => { proc with inFlight := proc.inFlight.erase n }).note [.completed n, .woken n]) t
  refine ((mild_setTxn fun _ => .inFlight p hn).trans ⟨?_, keeps_setProc rfl⟩).trans
    (mild_note (by simp [isCreated, isReceived]))
  exact tame_setProc (.refl _) fun _ => mem_of_mem_erase

theorem mild_replyCopied : Mild s (s.replyCopied t p) t := by
  unfold replyCopied
  dsimp only
  split
  · exact mild_ret
  · rename_i n hfind
    exact (mild_completeTxn (mem_of_find?_eq_some hfind)).ret

theorem mild_replyCopyIn : Mild s (s.replyCopyIn t p umsg copied k) t := by
  have filled : ∀ b, Mild s { s with rmsg := b } t := fun b =>
    ⟨{ Tame.refl s t with }, { Keeps.refl s with }⟩
  unfold replyCopyIn
  dsimp only
  split
  · exact (filled _).trans (mild_setPhase rfl)
  · exact (filled _).trans mild_replyCopied

theorem mild_failTxn (h : ∀ m, Altered s n m m.fail) : Mild s (s.failTxn n) t :=
  (mild_setTxn fun txn => h txn.msg).trans (mild_note (by simp [isCreated, isReceived]))

theorem mild_dropQueued (hn : n ∈ (s.procs p).todo) : Mild s (s.dropQueued n) t := by
  unfold dropQueued
  split
  · exact mild_kfree
  · exact mild_failTxn fun m => .queued p hn ⟨rfl, rfl, rfl, rfl, rfl, rfl⟩

theorem dropQueued_procs : (s.dropQueued n).procs = s.procs := by
  unfold dropQueued
  split <;> rfl

theorem mild_foldl_dropQueued {l : List Nat} (h : ∀ n ∈ l, n ∈ (s.procs p).todo) :
    Mild s (l.foldl dropQueued s) t ∧ (l.foldl dropQueued s).procs = s.procs := by
  induction l generalizing s with
  | nil => exact ⟨.refl s t, rfl⟩
  | cons n l ih =>
    obtain ⟨rest, procs⟩ := ih (s := s.dropQueued n) fun m hm => by
      rw [dropQueued_procs]
      exact h m (mem_cons_of_mem _ hm)
    exact ⟨(mild_dropQueued (h n mem_cons_self)).trans rest, procs.trans dropQueued_procs⟩

theorem mild_foldl_failTxn {ids : List Nat} (h : ∀ n ∈ ids, n ∈ (s.procs p).inFlight) :
    Mild s (ids.foldl failTxn s) t := by
  induction ids generalizing s with
  | nil => exact .refl s t
  | cons n ids ih =>
    have first : Mild s (s.failTxn n) t := mild_failTxn fun _ => .inFlight p (h n mem_cons_self)
    exact first.trans (ih fun m hm => h m (mem_cons_of_mem _ hm))

theorem mild_failAll : Mild s (s.failAll p) t := by
  obtain ⟨first, procs⟩ := mild_foldl_dropQueued (t := t) (l := (s.procs p).todo) (s := s)
    fun _ hn => hn
  refine first.trans (mild_foldl_failTxn (p := p) fun n hn => ?_)
  rw [procs]
  exact hn

theorem tame_binderRelease : Tame s (s.binderRelease f) t := by
  unfold binderRelease
  split
  · exact .refl s t
  · rename_i p hf
    have failed : Tame s (s.failAll p) t := mild_failAll.tame
    exact { failed with
      todo := rel_update (r := fun (x y : Proc) => x.todo.Sublist y.todo) (fun _ => .refl _)
        (nil_sublist _)
      inFlight := rel_update (r := fun (x y : Proc) => x.inFlight ⊆ y.inFlight) (fun _ => .refl _)
        (nil_subset _) }

theorem tame_binderOpen : Tame s (s.binderOpen t f cred) t := by
  unfold binderOpen
  split
  · exact mild_ret.tame
  · rename_i p hf
    refine Tame.ret (Tame.trans ?_ (tame_note ?_))
    · exact { tame_setProc (s := s) (p := p) (t := t) (f := fun _ =>
        { inUse := true, pid := cred.pid, uid := cred.euid, lastUeventSeq := s.ueventSeq })
        (nil_sublist _) nofun with }
    · intro e he
      obtain ⟨n, -, rfl⟩ := mem_map.mp he
      exact ⟨rfl, rfl⟩

theorem tame_takeUevent : Tame s (s.takeUevent p) t := tame_setProc (.refl _) fun _ h => h

theorem tame_registerSvc : Tame s (s.registerSvc env t p cred name descriptor) t := by
  unfold registerSvc
  split_ifs
  · exact mild_ret.tame
  · exact mild_ret.tame
  · exact Tame.ret { Tame.refl s t with }

theorem mild_setContextMgr : Mild s (s.setContextMgr env t p cred) t := by
  unfold setContextMgr
  split_ifs
  · exact mild_ret
  · exact mild_ret
  · exact mild_ret
  · have named : Mild s { s with contextMgr := some p } t :=
      ⟨{ Tame.refl s t with }, { Keeps.refl s with }⟩
    refine (named.trans ⟨?_, keeps_setProc rfl⟩).ret
    exact tame_setProc (.refl _) fun _ h => h

theorem mild_lookupSvc : Mild s (s.lookupSvc env t cred handle name descriptor) t := by
  unfold lookupSvc
  dsimp only
  split <;> exact mild_ret

theorem tame_binderIoctl : Tame s (s.binderIoctl env t f cred cmd) t := by
  unfold binderIoctl
  split
  · exact mild_ret.tame
  · rename_i p hf
    cases cmd with
    | setContextMgr => exact mild_setContextMgr.tame
    | lookupSvc handle name descriptor => exact mild_lookupSvc.tame
    | ueventEmit kev =>
      show Tame s (s.ueventEmit env t kev) t
      unfold ueventEmit
      split
      · exact mild_ret.tame
      · exact Tame.ret { Tame.refl s t with }
    | ueventPoll =>
      show Tame s (s.ueventPoll t p) t
      unfold ueventPoll
      split
      · exact mild_ret.tame
      · exact (tame_takeUevent.trans (tame_note (by simp [isCreated, isReceived]))).ret
    | _ => exact (mild_setPhase rfl).tame

theorem sameRequest_route (env : Env) (procs : Slot → Proc) (sender : Slot) (cred : Cred)
    (reg : Registry) (contextMgr : Option Slot) (m : Msg) :
    SameRequest (route env procs sender cred reg contextMgr m).msg m := by
  unfold route
  split
  · split
    · exact .refl m
    · dsimp only
      unfold serviceManagerCall
      split
      · dsimp only
        split <;> exact ⟨rfl, rfl, rfl, rfl, rfl, rfl⟩
      · exact .refl m
  · split <;> exact .refl m

theorem Auth.rekmsg (h : Auth s place) (others : ∀ t', t' ≠ t → (s.tasks t').inKmsg = false)
    (procs : s'.procs = s.procs) (txns : s'.txns = s.txns) (next : s'.next = s.next)
    (wev : s'.wev = s.wev) (tasks : ∀ t', t' ≠ t → s'.tasks t' = s.tasks t')
    (log : ∃ es, s'.log = s.log ++ es ∧ ∀ e ∈ es, e.isCreated = false ∧ e.isReceived = false)
    (self : TaskOk s' place t (s'.tasks t)) (phase : (s'.tasks t).inWev = false) :
    Auth s' place := by
  obtain ⟨es, hlog, hes⟩ := log
  refine h.advance tasks hlog (by rw [next]) ?_ (.inr others) (.inl wev) (fun _ => others) ?_
    (fun t' _ p n copied user _ => ⟨rfl, fun txn htxn => ?_⟩) self ?_ ?_ ?_ ?_ ?_ ?_
  · intro n p oneWay call he
    cases (hes _ he).1
  · intro hw
    rw [phase] at hw
    cases hw
  · exact ⟨txn, by rw [← txns]; exact htxn, rfl⟩
  · rw [procs]; exact h.todo
  · rw [procs]; exact h.inFlight
  · rw [procs]; exact h.nodup
  · rw [next]; exact h.fresh
  · intro n m hr
    cases (hes _ hr).2
  · intro n txn htxn hplace
    rw [txns] at htxn
    have hauth := h.message n txn htxn hplace
    rw [hlog]
    exact hauth.extend (h.elsewhere hauth fun n p oneWay call he => by cases (hes _ he).1)

theorem carries_stamp (call : Call) : Carries (call.umsg.stamp call.cred) call :=
  ⟨rfl, rfl, rfl, rfl, rfl, rfl⟩

theorem handOver_tasks {txn : Txn} : (s.handOver p n txn).tasks = s.tasks := by
  unfold handOver
  split <;> rfl

section

variable (h : Auth s place)
include h

theorem auth_transactCopied (others : ∀ t', t' ≠ t → (s.tasks t').inKmsg = false)
    (full : Msg.codec.fetch s.kmsg = call.umsg) : Auth (s.transactCopied env t call) place := by
  have carried := (carries_stamp call).same (sameRequest_route env s.procs call.sender call.cred
    s.reg s.contextMgr (call.umsg.stamp call.cred))
  unfold transactCopied
  dsimp only
  rw [full]
  split
  · refine h.rekmsg others rfl rfl rfl rfl (fun t' ht => update_of_ne ht _ _)
      ⟨_, rfl, by simp [isCreated, isReceived]⟩ ?_ ?_
    · exact taskOk_plain (by simp [ret, note, setPhase, plain])
    · simp [ret, note, setPhase, inWev]
  · refine h.rekmsg others rfl rfl rfl rfl (fun t' ht => update_of_ne ht _ _)
      ⟨[], by simp [setPhase], by simp⟩ ?_ ?_
    · simp only [setPhase, update_self, TaskOk, Codec.fetch_store]
      exact carried
    · simp [setPhase, inWev]

theorem auth_transactCopyIn (ht : s.tasks t = .copyIn call copied)
    (others : ∀ t', t' ≠ t → (s.tasks t').inKmsg = false) :
    Auth (s.transactCopyIn env t call copied k) place := by
  have agree : Buffer.Agree copied s.kmsg (Msg.codec.store call.umsg) := h.taskOk ht
  unfold transactCopyIn
  dsimp only
  split
  · refine h.rekmsg others rfl rfl rfl rfl (fun t' ht => update_of_ne ht _ _)
      ⟨[], by simp [setPhase], by simp⟩ ?_ ?_
    · simp only [setPhase, update_self]
      exact agree.blit
    · simp [setPhase, inWev]
  · rename_i hfull
    have upto : min (copied + k) msgSize = msgSize := by omega
    rw [upto]
    have filled : Buffer.Agree msgSize _ _ := agree.blit
    refine auth_transactCopied ?_ others (Msg.codec.fetch_of_agree filled)
    refine h.rekmsg others rfl rfl rfl rfl (fun _ _ => rfl) ⟨[], by simp, by simp⟩ ?_ ?_
    · -- the process stands where it stood, and the longer prefix covers the shorter one
      rw [ht]
      by_cases hle : copied ≤ msgSize
      · exact fun i hi => filled i (by omega)
      · have same : s.kmsg.blit (Msg.codec.store call.umsg) copied msgSize = s.kmsg := by
          funext i
          exact if_neg (by omega)
        rw [same]
        exact agree
    · show (s.tasks t).inWev = false
      rw [ht]
      rfl

theorem Auth.known (hn : place n ≠ .nowhere) : n < s.next := by
  by_contra hle
  exact hn (h.fresh n (by omega))

theorem auth_enqueueTxn (ht : s.tasks t = .kmalloc call p) :
    Auth (s.enqueueTxn call p) (update place s.next (.todo p)) := by
  have carried : Carries (Msg.codec.fetch s.kmsg) call := h.taskOk ht
  have others := others_off (f := inKmsg) h.kmsg_alone (t := t) (by rw [ht]; rfl)
  have placed : ∀ n, n < s.next → update place s.next (.todo p) n = place n :=
    fun n hn => update_of_ne (by omega) _ _
  have created : Authentic (s.enqueueTxn call p).log s.next (Msg.codec.fetch s.kmsg) := by
    refine ⟨⟨p, _, call, mem_append_right _ mem_cons_self⟩, ?_⟩
    intro p' oneWay' call' hc
    rcases mem_append.mp hc with hc | hc
    · exact absurd (h.created _ _ _ _ hc) (Nat.lt_irrefl _)
    · simp only [mem_singleton, created.injEq] at hc
      rw [hc.2.2.2]
      exact carried
  refine h.advance (t := t) (fun _ _ => rfl) rfl (Nat.le_succ _) ?_ (.inr others) (.inl rfl)
    (fun _ => others) ?_ ?_ ?_ ?_ ?_ ?_ ?_ ?_ ?_
  · intro n p' oneWay call' hc
    simp only [mem_singleton, Event.created.injEq] at hc
    exact ⟨Nat.le_of_eq hc.1.symm, hc.1 ▸ Nat.lt_succ_self _⟩
  · intro hw
    rw [show (s.enqueueTxn call p).tasks t = _ from ht] at hw
    cases hw
  · intro t' _ p' n copied user ht'
    have hheld : place n = .held t' := (h.taskOk ht').1
    have hlt := h.known (by rw [hheld]; exact Place.noConfusion)
    refine ⟨placed n hlt, fun txn htxn => ⟨txn, ?_, rfl⟩⟩
    simp only [enqueueTxn] at htxn
    rwa [update_of_ne (by omega)] at htxn
  · rw [show (s.enqueueTxn call p).tasks t = _ from ht]
    show Carries (Msg.codec.fetch (Msg.codec.store _)) call
    rw [Codec.fetch_store]
    exact { carried with }
  · intro q n hn
    simp only [enqueueTxn, update_apply] at hn
    split at hn
    · rename_i hq
      rcases mem_append.mp hn with hn | hn
      · have := h.todo p n hn
        rw [placed n (h.known (by rw [this]; exact Place.noConfusion)), this, hq]
      · rw [mem_singleton.mp hn, hq, update_self]
    · have := h.todo q n hn
      rw [placed n (h.known (by rw [this]; exact Place.noConfusion)), this]
  · intro q n hn
    rw [enqueueTxn_inFlight] at hn
    have := h.inFlight q n hn
    rw [placed n (h.known (by rw [this]; exact Place.noConfusion)), this]
  · intro q
    simp only [enqueueTxn, update_apply]
    split
    · have absent : s.next ∉ (s.procs p).todo := by
        intro hmem
        have := h.todo p s.next hmem
        rw [h.fresh s.next (Nat.le_refl _)] at this
        cases this
      exact nodup_append_comm.mp (nodup_cons.mpr ⟨absent, h.nodup p⟩ :
        ([s.next] ++ (s.procs p).todo).Nodup)
    · exact h.nodup q
  · intro n hn
    have hn' : s.next + 1 ≤ n := hn
    rw [update_of_ne (by omega)]
    exact h.fresh n (by omega)
  · intro n m hr
    simp at hr
  · intro n txn htxn hplace
    simp only [enqueueTxn, update_apply] at htxn hplace
    split at htxn
    · rename_i hn
      cases htxn
      rw [hn]
      exact created.same ⟨rfl, rfl, rfl, rfl, rfl, rfl⟩
    · rename_i hn
      rw [if_neg hn] at hplace
      have hauth := h.message n txn htxn hplace
      refine hauth.extend ?_
      intro e he
      rw [mem_singleton.mp he]
      exact Ne.symm hn

theorem auth_transactCreate (ht : s.tasks t = .kmalloc call p) :
    ∃ place', Auth (s.transactCreate t call p) place' := by
  refine ⟨_, (auth_enqueueTxn h ht).tame (t := t) ?_⟩
  unfold transactCreate
  split
  · exact (mild_setPhase rfl).tame
  · split
    · exact (mild_setPhase rfl).tame
    · exact mild_abandonTxn.tame.ret

theorem auth_received (hm : Authentic s.log n m) : Auth (s.note [.received n m]) place := by
  have silent : ∀ n' p oneWay call, .created n' p oneWay call ∉ [received n m] := by simp
  have extend : ∀ n' m', Authentic s.log n' m' → Authentic (s.log ++ [.received n m]) n' m' :=
    fun n' m' h' => h'.extend (h.elsewhere h' fun n p oneWay call he =>
      absurd he (silent n p oneWay call))
  refine h.advance (t := 0) (fun _ _ => rfl) rfl (Nat.le_refl _) ?_ (.inl rfl) (.inl rfl)
    (fun hk => others_off h.kmsg_alone hk) (fun hw => others_off h.wev_alone hw)
    (fun _ _ _ _ _ _ _ => ⟨rfl, fun txn htxn => ⟨txn, htxn, rfl⟩⟩) ?_ h.todo h.inFlight h.nodup
    h.fresh ?_ fun n' txn htxn hplace => extend n' _ (h.message n' txn htxn hplace)
  · exact fun n' p oneWay call he => absurd he (silent n' p oneWay call)
  · exact (h.task 0).keep h (.inl rfl) (.inl rfl) rfl
      (fun n' p oneWay call he => absurd he (silent n' p oneWay call))
      fun _ _ _ _ _ => ⟨rfl, fun txn htxn => ⟨txn, htxn, rfl⟩⟩
  · intro n' m' hr
    simp only [mem_singleton, received.injEq] at hr
    obtain ⟨rfl, rfl⟩ := hr
    exact extend _ _ hm

theorem Auth.copier (hplace : place n = .held t)
    (ht' : s.tasks t' = .copyOut q n copied user) : t' = t := by
  have := (h.taskOk ht').1
  rw [hplace] at this
  cases this
  rfl

theorem Auth.move (hold : n < s.next)
    (undelivered : pl.Undelivered → (place n).Undelivered) (tasks : s'.tasks = s.tasks)
    (log : ∃ es, s'.log = s.log ++ es ∧ ∀ e ∈ es, e.isCreated = false ∧ e.isReceived = false)
    (next : s'.next = s.next) (kmsg : s'.kmsg = s.kmsg) (wev : s'.wev = s.wev)
    (txns : ∀ m txn', s'.txns m = some txn' → ∃ txn, s.txns m = some txn ∧ txn.msg = txn'.msg)
    (todo : ∀ q m, m ∈ (s'.procs q).todo → m ≠ n ∧ m ∈ (s.procs q).todo)
    (inFlight : ∀ q m, m ∈ (s'.procs q).inFlight →
      (m = n ∧ pl = .inFlight q) ∨ m ≠ n ∧ m ∈ (s.procs q).inFlight)
    (nodup : ∀ q, (s'.procs q).todo.Nodup)
    (free : ∀ t q copied user, s.tasks t ≠ .copyOut q n copied user) :
    Auth s' (update place n pl) := by
  obtain ⟨es, hlog, hes⟩ := log
  have none_created : ∀ n' p oneWay call, .created n' p oneWay call ∉ es := by
    intro n' p oneWay call he
    cases (hes _ he).1
  have heldKept : ∀ t q m copied user, s.tasks t = .copyOut q m copied user →
      update place n pl m = place m ∧
      ∀ txn', s'.txns m = some txn' → ∃ txn, s.txns m = some txn ∧ txn.msg = txn'.msg := by
    intro t q m copied user ht
    refine ⟨update_of_ne ?_ _ _, txns m⟩
    rintro rfl
    exact free t q copied user ht
  refine h.advance (t := 0) (fun _ _ => by rw [tasks]) hlog (by rw [next]) ?_ (.inl kmsg)
    (.inl wev) (fun hk => others_off h.kmsg_alone (by rw [← tasks]; exact hk))
    (fun hw => others_off h.wev_alone (by rw [← tasks]; exact hw))
    (fun t _ q m copied user ht => heldKept t q m copied user ht) ?_ ?_ ?_ nodup ?_ ?_ ?_
  · exact fun n' p oneWay call he => absurd he (none_created n' p oneWay call)
  · rw [tasks]
    exact (h.task 0).keep h (.inl kmsg) (.inl wev) hlog
      (fun n' p oneWay call he => absurd he (none_created n' p oneWay call)) (heldKept 0)
  · intro q m hm
    obtain ⟨hne, hm⟩ := todo q m hm
    rw [update_of_ne hne]
    exact h.todo q m hm
  · intro q m hm
    rcases inFlight q m hm with ⟨rfl, hpl⟩ | ⟨hne, hm⟩
    · rw [update_self, hpl]
    · rw [update_of_ne hne]
      exact h.inFlight q m hm
  · intro m hm
    rw [next] at hm
    rw [update_of_ne (by omega)]
    exact h.fresh m hm
  · intro n' m hr
    cases (hes _ hr).2
  · intro m txn' htxn' hplace
    obtain ⟨txn, htxn, hmsg⟩ := txns m txn' htxn'
    have hplace' : (place m).Undelivered := by
      by_cases hm : m = n
      · subst hm
        rw [update_self] at hplace
        exact undelivered hplace
      · rwa [update_of_ne hm] at hplace
    have hauth := h.message m txn htxn hplace'
    rw [← hmsg, hlog]
    exact hauth.extend (h.elsewhere hauth fun n' p oneWay call he =>
      absurd he (none_created n' p oneWay call))

theorem auth_popTxn (htodo : (s.procs p).todo = n :: rest) :
    Auth (s.popTxn p n) (update place n (.held t)) := by
  have hplace : place n = .todo p := h.todo p n (by rw [htodo]; exact mem_cons_self)
  have hlt := h.known (by rw [hplace]; exact Place.noConfusion)
  have nodup := h.nodup p
  rw [htodo] at nodup
  refine h.move hlt (fun _ => by rw [hplace]; trivial) rfl
    ⟨[.delivered n p], rfl, by simp [isCreated, isReceived]⟩ rfl rfl rfl ?_ ?_ ?_ ?_ ?_
  · intro m txn' htxn'
    simp only [popTxn, note, setTxn, setProc, update_apply] at htxn'
    split at htxn'
    · rename_i hm
      obtain ⟨txn, htxn, rfl⟩ := map_eq_some_iff.mp htxn'
      exact ⟨txn, by rw [hm]; exact htxn, rfl⟩
    · exact ⟨txn', htxn', rfl⟩
  · intro q m hm
    simp only [popTxn, note, setTxn, setProc, update_apply] at hm
    split at hm
    · rename_i hq
      rw [htodo] at hm
      have hne : m ≠ n := by
        rintro rfl
        exact (nodup_cons.mp nodup).1 hm
      exact ⟨hne, by rw [hq, htodo]; exact mem_cons_of_mem _ hm⟩
    · rename_i hq
      refine ⟨?_, hm⟩
      rintro rfl
      have := h.todo q m hm
      rw [hplace] at this
      cases this
      exact hq rfl
  · intro q m hm
    rw [popTxn_inFlight] at hm
    refine .inr ⟨?_, hm⟩
    rintro rfl
    have := h.inFlight q m hm
    rw [hplace] at this
    cases this
  · exact fun q => (h.nodup q).sublist (popTxn_todo_sublist q)
  · intro t' q copied user ht'
    have := (h.taskOk ht').1
    rw [hplace] at this
    cases this

theorem auth_pushInFlight (hplace : place n = .held t)
    (done : ∀ q copied user, s.tasks t ≠ .copyOut q n copied user) :
    Auth (s.pushInFlight p n) (update place n (.inFlight p)) := by
  have hlt := h.known (by rw [hplace]; exact Place.noConfusion)
  refine h.move hlt (fun hu => hu.elim) rfl ⟨[], by simp [pushInFlight, setProc], by simp⟩ rfl rfl
    rfl (fun m txn' htxn' => ⟨txn', htxn', rfl⟩) ?_ ?_ ?_ ?_
  · intro q m hm
    rw [pushInFlight_todo] at hm
    refine ⟨?_, hm⟩
    rintro rfl
    have := h.todo q m hm
    rw [hplace] at this
    cases this
  · intro q m hm
    have elsewhere : ∀ q, m ∈ (s.procs q).inFlight → m ≠ n := by
      rintro q hq rfl
      have := h.inFlight q m hq
      rw [hplace] at this
      cases this
    simp only [pushInFlight, setProc, update_apply] at hm
    split at hm
    · rename_i hq
      rcases mem_cons.mp hm with hm | hm
      · exact .inl ⟨hm, by rw [hq]⟩
      · exact .inr ⟨elsewhere p hm, by rw [hq]; exact hm⟩
    · exact .inr ⟨elsewhere q hm, hm⟩
  · intro q
    rw [pushInFlight_todo]
    exact h.nodup q
  · intro t' q copied user ht'
    obtain rfl := h.copier hplace ht'
    exact done q copied user ht'

theorem auth_handOver {txn : Txn} (hplace : place n = .held t)
    (htxn : s.txns n = some txn) (ready : ∀ q copied user, s.tasks t ≠ .copyOut q n copied user) :
    (∃ place', Auth (s.handOver p n txn) place') ∧
      Authentic (s.handOver p n txn).log n txn.msg := by
  have hauth := h.message n txn htxn (by rw [hplace]; trivial)
  unfold handOver
  split
  · refine ⟨⟨place, h.tame (t := t) mild_kfree.tame⟩, hauth.extend ?_⟩
    intro e he
    rw [mem_singleton.mp he]
    trivial
  · exact ⟨⟨_, auth_pushInFlight h hplace ready⟩, hauth⟩

theorem auth_setPhase (kmsg : ph.inKmsg = false)
    (wev : ph.inWev = true → ∀ t', t' ≠ t → (s.tasks t').inWev = false)
    (self : TaskOk (s.setPhase t ph) place t ph) : Auth (s.setPhase t ph) place := by
  have hself : (s.setPhase t ph).tasks t = ph := update_self ..
  refine h.advance (t := t) (l := []) (fun t' ht => update_of_ne ht _ _) (by simp [setPhase])
    (Nat.le_refl _) (by simp) (.inl rfl) (.inl rfl) (fun hk => ?_) (by rwa [hself])
    (fun _ _ _ _ _ _ _ => ⟨rfl, fun txn htxn => ⟨txn, htxn, rfl⟩⟩)
    (by rwa [hself]) h.todo h.inFlight
    h.nodup h.fresh (by simp) h.message
  rw [hself, kmsg] at hk
  cases hk

theorem auth_recvCopyOut (hplace : place n = .held t)
    (agree : ∀ txn, s.txns n = some txn → Buffer.Agree copied user (Msg.codec.store txn.msg))
    (hs : s.recvCopyOut t p n copied user k = some s') : ∃ place', Auth s' place' := by
  obtain ⟨txn, htxn, rfl⟩ := map_eq_some_iff.mp hs
  dsimp only
  split
  · refine ⟨place, auth_setPhase h rfl nofun ⟨hplace, fun txn' htxn' => ?_⟩⟩
    have htxn' : s.txns n = some txn' := htxn'
    rw [htxn] at htxn'
    cases htxn'
    exact (agree txn htxn).blit
  · rename_i hfull
    have upto : min (copied + k) msgSize = msgSize := by omega
    rw [upto]
    have whole : Msg.codec.fetch (user.blit (Msg.codec.store txn.msg) copied msgSize) = txn.msg :=
      Msg.codec.fetch_of_agree (agree txn htxn).blit
    rw [whole]
    -- leaving the copy first and handing the transaction over then gives the same state
    obtain ⟨⟨place', h1⟩, hauth⟩ := auth_handOver (s := s.setPhase t .idle) (p := p) (n := n)
      (h.tame (mild_setPhase rfl).tame) hplace htxn (by simp [setPhase])
    have h2 := (auth_received h1 hauth).tame (t := t)
      (tame_note (l := [.returned t 0]) (by simp [isCreated, isReceived]))
    refine ⟨place', ?_⟩
    have same : ((s.handOver p n txn).note [.received n txn.msg]).ret t 0 =
        (((s.setPhase t .idle).handOver p n txn).note [.received n txn.msg]).note
          [.returned t 0] := by
      unfold handOver
      split <;> rfl
    rw [same]
    exact h2

theorem auth_recv (hs : s.recv t p mode k = some s') : ∃ place', Auth s' place' := by
  unfold recv at hs
  split at hs
  · cases mode with
    | blocking => cases hs
    | _ => cases hs; exact ⟨place, h.tame mild_ret.tame⟩
  · rename_i n rest htodo
    exact auth_recvCopyOut (auth_popTxn h htodo) (update_self ..) (fun _ _ => .zero _ _) hs

theorem auth_waitCopyEvent (others : ∀ t', t' ≠ t → (s.tasks t').inWev = false)
    (agree : Buffer.Agree copied user s.wev)
    (hauth : ∀ n, x = some n → Authentic s.log n (WaitEvent.codec.fetch s.wev).txn) :
    Auth (s.waitCopyEvent t x copied user k) place := by
  unfold waitCopyEvent
  dsimp only
  split
  · exact auth_setPhase h rfl (fun _ => others) ⟨agree.blit, hauth⟩
  · rename_i hfull
    have upto : min (copied + k) WaitEvent.codec.width = WaitEvent.codec.width := by omega
    rw [upto, WaitEvent.codec.fetch_congr agree.blit]
    cases x with
    | none => exact h.tame (t := t) (tame_note (by simp [isCreated, isReceived])).ret
    | some n => exact (auth_received h (hauth n rfl)).tame mild_ret.tame

theorem auth_rewev
    (others : ∀ t', t' ≠ t → (s.tasks t').inWev = false) (ht : (s.tasks t).inWev = false) :
    Auth { s with wev := b } place := by
  refine h.advance (t := t) (l := []) (fun _ _ => rfl) (by simp) (Nat.le_refl _) (by simp)
    (.inl rfl) (.inr others) (fun hk => others_off h.kmsg_alone hk) (fun _ => others)
    (fun _ _ _ _ _ _ _ => ⟨rfl, fun txn htxn => ⟨txn, htxn, rfl⟩⟩) ?_ h.todo h.inFlight h.nodup
    h.fresh (by simp) h.message
  exact (h.task t).keep (l := []) h (.inl rfl) (.inr ht) (by simp) (by simp)
    fun _ _ _ _ _ => ⟨rfl, fun txn htxn => ⟨txn, htxn, rfl⟩⟩

theorem auth_waitEvent (ht : s.tasks t = .waiting p)
    (others : ∀ t', t' ≠ t → (s.tasks t').inWev = false)
    (hs : s.waitEvent t p k = some s') : ∃ place', Auth s' place' := by
  have plain : (s.tasks t).inWev = false := by rw [ht]; rfl
  unfold waitEvent at hs
  split at hs
  · cases hs
    have h1 : Auth (s.takeUevent p) place := h.tame (t := t) tame_takeUevent
    refine ⟨place, auth_waitCopyEvent (auth_rewev h1 others plain) others (.zero _ _) ?_⟩
    rintro n ⟨⟩
  · split at hs
    · cases hs
    · rename_i n rest htodo
      obtain ⟨txn, htxn, rfl⟩ := map_eq_some_iff.mp hs
      have htxn' : (s.popTxn p n).txns n = some { txn with delivered := true } := by
        simp only [popTxn, note, setTxn, setProc, update_self, htxn, map_some]
      obtain ⟨⟨place', h1⟩, hauth⟩ := auth_handOver (p := p) (auth_popTxn (t := t) h htodo)
        (update_self ..) htxn' (by
          intro q copied user hc
          rw [show (s.popTxn p n).tasks t = _ from ht] at hc
          cases hc)
      have off : ∀ t', t' ≠ t → (((s.popTxn p n).handOver p n txn).tasks t').inWev = false := by
        rw [handOver_tasks]
        exact others
      refine ⟨place', auth_waitCopyEvent (auth_rewev h1 off (by rw [handOver_tasks]; exact plain))
        off (.zero _ _) ?_⟩
      rintro m ⟨⟩
      rw [Codec.fetch_store]
      exact hauth

end

/-- No process writes a static buffer that another one still relies on. -/
structure Exclusive (s : State) (l : Label) : Prop where
  kmsg : ∀ k call copied, l.act = .go k → s.tasks l.tid = .copyIn call copied →
    ∀ t, t ≠ l.tid → (s.tasks t).inKmsg = false
  wev : ∀ k p, l.act = .go k → s.tasks l.tid = .waiting p →
    ∀ t, t ≠ l.tid → (s.tasks t).inWev = false

theorem auth_resume (h : Auth s place) (ht : s.tasks t = phase)
    (kmsg : ∀ call copied, phase = .copyIn call copied → ∀ t', t' ≠ t → (s.tasks t').inKmsg = false)
    (wev : ∀ p, phase = .waiting p → ∀ t', t' ≠ t → (s.tasks t').inWev = false)
    (hs : s.resume env t k phase = some s') : ∃ place', Auth s' place' := by
  have ok := h.taskOk ht
  cases phase with
  | copyIn call copied =>
    cases hs
    exact ⟨place, auth_transactCopyIn h ht (kmsg call copied rfl)⟩
  | copyBack call copied =>
    cases hs
    exact ⟨place, h.tame mild_transactCopyBack.tame⟩
  | asleep call n => exact ⟨place, h.tame (mild_transactWake hs).tame⟩
  | copyReply call n copied => exact ⟨place, h.tame (mild_transactCopyReply hs).tame⟩
  | receiving p mode => exact auth_recv h hs
  | copyOut p n copied user => exact auth_recvCopyOut h ok.1 ok.2 hs
  | waiting p => exact auth_waitEvent h ht (wev p rfl) hs
  | copyEvent x copied user =>
    cases hs
    exact ⟨place, auth_waitCopyEvent h (others_off h.wev_alone (by rw [ht]; rfl)) ok.1 ok.2⟩
  | copyAnswer p umsg copied =>
    cases hs
    exact ⟨place, h.tame mild_replyCopyIn.tame⟩
  | copyInfo p cred name descriptor =>
    cases hs
    exact ⟨place, h.tame tame_registerSvc⟩
  | _ => cases hs

theorem auth_step (h : Auth s place) (hg : Exclusive s l) (hs : step s l = some s') :
    ∃ place', Auth s' place' := by
  obtain ⟨k, hact, hs⟩ | ⟨-, -, hs⟩ := step_cases hs
  · exact auth_resume h rfl (fun call copied => hg.kmsg k call copied hact)
      (fun p => hg.wev k p hact) hs
  · obtain ⟨f, cred, -, rfl⟩ | ⟨f, -, rfl⟩ | ⟨f, cred, cmd, -, rfl⟩ |
      ⟨-, ⟨call, p, ht, rfl⟩ | ⟨err, rfl⟩⟩ := hs
    · exact ⟨place, h.tame tame_binderOpen⟩
    · exact ⟨place, h.tame (t := l.tid) tame_binderRelease⟩
    · exact ⟨place, h.tame tame_binderIoctl⟩
    · exact auth_transactCreate h ht
    · exact ⟨place, h.tame mild_ret.tame⟩

theorem setPhase_tasks_of_ne (ht : t' ≠ t) : (s.setPhase t ph).tasks t' = s.tasks t' :=
  update_of_ne ht _ _

section

variable (ht : t' ≠ t)
include ht

theorem transactCopyIn_tasks : (s.transactCopyIn env t call copied k).tasks t' = s.tasks t' := by
  unfold transactCopyIn transactCopied
  dsimp only
  split
  · exact setPhase_tasks_of_ne ht
  · split <;> exact setPhase_tasks_of_ne ht

theorem recvCopyOut_tasks (hs : s.recvCopyOut t p n copied user k = some s') :
    s'.tasks t' = s.tasks t' := by
  obtain ⟨txn, -, rfl⟩ := map_eq_some_iff.mp hs
  dsimp only
  split
  · exact setPhase_tasks_of_ne ht
  · refine (setPhase_tasks_of_ne ht).trans ?_
    show (s.handOver p n txn).tasks t' = _
    rw [handOver_tasks]

theorem waitCopyEvent_tasks : (s.waitCopyEvent t x copied user k).tasks t' = s.tasks t' := by
  unfold waitCopyEvent
  dsimp only
  split <;> exact setPhase_tasks_of_ne ht

theorem waitEvent_tasks (hs : s.waitEvent t p k = some s') : s'.tasks t' = s.tasks t' := by
  unfold waitEvent at hs
  split at hs
  · cases hs
    exact waitCopyEvent_tasks ht
  · split at hs
    · cases hs
    · obtain ⟨txn, -, rfl⟩ := map_eq_some_iff.mp hs
      refine (waitCopyEvent_tasks ht).trans ?_
      exact congrFun handOver_tasks t'

theorem recv_tasks (hs : s.recv t p mode k = some s') : s'.tasks t' = s.tasks t' := by
  unfold recv at hs
  split at hs
  · cases mode with
    | blocking => cases hs
    | _ => cases hs; exact mild_ret.tame.tasks t' ht
  · rename_i n rest htodo
    exact recvCopyOut_tasks (s := s.popTxn p n) ht hs

theorem transactCreate_tasks : (s.transactCreate t call p).tasks t' = s.tasks t' := by
  unfold transactCreate
  split
  · exact setPhase_tasks_of_ne ht
  · split <;> exact setPhase_tasks_of_ne ht

theorem resume_tasks (hs : s.resume env t k phase = some s') : s'.tasks t' = s.tasks t' := by
  cases phase with
  | copyIn call copied => cases hs; exact transactCopyIn_tasks ht
  | copyBack call copied => cases hs; exact mild_transactCopyBack.tame.tasks t' ht
  | asleep call n => exact (mild_transactWake hs).tame.tasks t' ht
  | copyReply call n copied => exact (mild_transactCopyReply hs).tame.tasks t' ht
  | receiving p mode => exact recv_tasks ht hs
  | copyOut p n copied user => exact recvCopyOut_tasks ht hs
  | waiting p => exact waitEvent_tasks ht hs
  | copyEvent x copied user => cases hs; exact waitCopyEvent_tasks ht
  | copyAnswer p umsg copied => cases hs; exact mild_replyCopyIn.tame.tasks t' ht
  | copyInfo p cred name descriptor => cases hs; exact tame_registerSvc.tasks t' ht
  | _ => cases hs

end

theorem step_tasks (ht : t' ≠ l.tid) (hs : step s l = some s') : s'.tasks t' = s.tasks t' := by
  obtain ⟨k, -, hs⟩ | ⟨-, -, hs⟩ := step_cases hs
  · exact resume_tasks ht hs
  · obtain ⟨f, cred, -, rfl⟩ | ⟨f, -, rfl⟩ | ⟨f, cred, cmd, -, rfl⟩ |
      ⟨-, ⟨call, p, -, rfl⟩ | ⟨err, rfl⟩⟩ := hs
    · exact tame_binderOpen.tasks t' ht
    · exact (tame_binderRelease (t := l.tid)).tasks t' ht
    · exact tame_binderIoctl.tasks t' ht
    · exact transactCreate_tasks ht
    · exact mild_ret.tame.tasks t' ht

theorem reaches_of_run_alone (alone : ∀ l ∈ ls, l.tid = t)
    (idle : ∀ t', t' ≠ t → s.tasks t' = .idle) (h : run step s ls = some s') :
    Reaches step Exclusive s s' := by
  induction ls generalizing s with
  | nil =>
    obtain rfl : s = s' := by simpa [run] using h
    exact .refl
  | cons l ls ih =>
    obtain ⟨u, hu, hrun⟩ := bind_eq_some_iff.mp h
    have hl := alone l mem_cons_self
    have exclusive : Exclusive s l :=
      ⟨fun _ _ _ _ _ t' ht' => by rw [idle t' (hl ▸ ht')]; rfl,
        fun _ _ _ _ t' ht' => by rw [idle t' (hl ▸ ht')]; rfl⟩
    have first : Reaches step Exclusive s u := .tail .refl exclusive hu
    refine first.trans (ih (fun l' hl' => alone l' (mem_cons_of_mem _ hl')) ?_ hrun)
    intro t' ht'
    rw [step_tasks (hl ▸ ht') hu, idle t' ht']

/-- Every interleaving of any number of processes delivers each message as its own caller sent it,
as long as no process writes `kmsg` between another one's copy into it and the end of that one's
`kmalloc`, or `wev` while another one copies it out. -/
theorem binder_authentic (h : Reaches step Exclusive {} s) :
    ∀ n m, .received n m ∈ s.log → Authentic s.log n m := by
  have inv : ∃ place, Auth s place := by
    refine h.invariant (P := fun s => ∃ place, Auth s place) ⟨_, auth_init⟩ ?_
    rintro a i b ⟨place, hauth⟩ hg hs
    exact auth_step hauth hg hs
  obtain ⟨place, hauth⟩ := inv
  exact hauth.received

/-- The context manager sends itself a one-way message and receives it. -/
def ownMessage : List Label :=
  [act 1 (.open 0 ⟨1, 0, fun _ => 0⟩), act 1 (.ioctl 0 ⟨1, 0, fun _ => 0⟩ .setContextMgr),
    act 1 (.ioctl 0 ⟨1, 0, fun _ => 0⟩ (.transact { code := 9, flags := 1 } false)),
    act 1 (.go msgSize), act 1 (.kmalloc true), act 1 (.go msgSize),
    act 1 (.ioctl 0 ⟨1, 0, fun _ => 0⟩ (.recv .blocking)), act 1 (.go msgSize)]

theorem own_message_authentic : ∃ s, run step {} ownMessage = some s ∧
    s.log.any Event.isReceived = true ∧ ∀ n m, .received n m ∈ s.log → Authentic s.log n m := by
  have runs : (run step {} ownMessage).any (fun s => s.log.any isReceived) = true := by
    decide
  obtain ⟨s, hs, hreceived⟩ := any_eq_true _ _ |>.mp runs
  refine ⟨s, hs, hreceived, binder_authentic (reaches_of_run_alone (t := 1) ?_ ?_ hs)⟩
  · simp [ownMessage, act]
  · exact fun _ _ => rfl

/-- Process 2 waits in `kmalloc` with its message in `kmsg` while process 3 makes a whole call; the
context manager then receives both. -/
def crossedCalls : List Label :=
  [act 1 (.open 0 ⟨1, 0, fun _ => 0⟩), act 1 (.ioctl 0 ⟨1, 0, fun _ => 0⟩ .setContextMgr),
    act 2 (.open 1 ⟨2, 7, fun _ => 0⟩), act 3 (.open 2 ⟨3, 8, fun _ => 0⟩),
    act 2 (.ioctl 1 ⟨2, 7, fun _ => 0⟩ (.transact { code := 5, flags := 1 } false)),
    act 2 (.go msgSize),
    act 3 (.ioctl 2 ⟨3, 8, fun _ => 0⟩ (.transact { code := 9, flags := 1 } false)),
    act 3 (.go msgSize), act 3 (.kmalloc true), act 2 (.kmalloc true),
    act 1 (.ioctl 0 ⟨1, 0, fun _ => 0⟩ (.recv .blocking)), act 1 (.go msgSize),
    act 1 (.ioctl 0 ⟨1, 0, fun _ => 0⟩ (.recv .blocking)), act 1 (.go msgSize)]

def Event.sentByTwo : Event → Bool
  | created n _ _ call => n == 1 && call.cred.pid == 2 && call.umsg.code == 5
  | _ => false

def Event.receivedFromThree : Event → Bool
  | received n m => n == 1 && m.senderPid == 3 && m.code == 9
  | _ => false

theorem crossed_calls_forged : ∃ s, Reaches step (fun _ _ => True) {} s ∧
    s.log.any Event.sentByTwo = true ∧ s.log.any Event.receivedFromThree = true ∧
    ¬ ∀ n m, .received n m ∈ s.log → Authentic s.log n m := by
  have runs : (run step {} crossedCalls).any
      (fun s => s.log.any sentByTwo && s.log.any receivedFromThree) = true := by
    decide
  obtain ⟨s, hs, hlog⟩ := any_eq_true _ _ |>.mp runs
  obtain ⟨hsent, hreceived⟩ := Bool.and_eq_true _ _ |>.mp hlog
  refine ⟨s, reaches_of_run _ hs, hsent, hreceived, fun authentic => ?_⟩
  obtain ⟨e, he, sent⟩ := any_eq_true.mp hsent
  obtain ⟨e', he', received⟩ := any_eq_true.mp hreceived
  cases e with
  | created n p oneWay call =>
    cases e' with
    | received n' m =>
      simp only [sentByTwo, Bool.and_eq_true, beq_iff_eq] at sent
      simp only [receivedFromThree, Bool.and_eq_true, beq_iff_eq] at received
      obtain ⟨⟨rfl, hpid⟩, -⟩ := sent
      obtain ⟨⟨rfl, hpid'⟩, -⟩ := received
      have same := ((authentic _ m he').carries p oneWay call he).senderPid
      rw [hpid, hpid'] at same
      exact absurd same (by decide)
    | _ => cases received
  | _ => cases sent

end Six.Binder
