import Six.Fuse.Places

/-! The life of a request on a FUSE connection. -/

namespace Six.Fuse

open Lib Errno Option List Function Conn

namespace Conn

variable {c c' : Conn} {p : Nat → Place} {r t n : Nat} {q : Req} {x : Sender} {k : Place} {op : Op}
  {count : Nat}

def Settled (p : Nat → Place) : Prop := ∀ r, p r ≠ .held

/-- What holds of a connection.  When it has ended, a request can only be on its way to the daemon
if nobody waits for it. -/
structure Ok (c : Conn) (p : Nat → Place) : Prop where
  inv : c.Inv p
  live : c.connected = true → c.initError = 0
  dead : c.connected = false → ∀ r, (p r).Outbound → (c.req r).isAsync = true
  deadInit : c.connected = false → ∀ r, c.sender r ≠ .waitInit true

theorem Inv.ok (h : c.Inv p) (hc : c.connected = true) (he : c.initError = 0) : c.Ok p :=
  ⟨h, fun _ => he, fun hd => by simp [hc] at hd, fun hd => by simp [hc] at hd⟩

theorem Settled.update (h : Settled p) (hk : k ≠ .held) : Settled (update p r k) := by
  intro r'
  by_cases heq : r' = r
  · subst heq
    simpa using hk
  · simpa [heq] using h r'

theorem Settled.put (h : Settled p) (hk : k ≠ .held) :
    Settled (Function.update (Function.update p r .held) r k) := by
  simpa using h.update hk

theorem Inv.fresh (h : c.Inv p) (hx : c.sender r = .idle ∨ ∃ b, c.sender r = .waitInit b) :
    p r = .fresh := by
  have hr := h.request r
  cases hk : p r <;> simp_all [RequestOk, Awaited] <;> grind

theorem Ok.setSender (h : c.Ok p) (hr : RequestOk (c.req r) x (p r))
    (hx : c.connected = false → x ≠ .waitInit true) : (c.setSender r x).Ok p := by
  refine ⟨h.inv.setSender hr, h.live, h.dead, fun hd r' => ?_⟩
  by_cases heq : r' = r
  · subst heq
    simpa [setSender] using hx hd
  · simpa [Conn.setSender, heq] using h.deadInit hd r'

theorem Ok.fuseSendInit (h : c.Ok p) (hc : c.connected = true) (hr : p r = .fresh) :
    (c.fuseSendInit r true true).Ok (update p r .pending) := by
  have henqueue := h.inv.enqueue (x := .nobody) (l := r :: c.pending)
    (q := { unique := c.lastUnique + 1, inArgLen := 16, outBufMax := some 64, isAsync := true,
            state := .pending })
    hr ⟨rfl, .inl ⟨rfl, rfl, by simp⟩⟩ (List.Perm.refl _)
  exact Inv.ok { henqueue with } hc (h.live hc)

section

variable (h : c.Ok p)
include h

theorem Ok.awaitInit (hp : Settled p) (hr : p r = .fresh) :
    ∃ p', (c.awaitInit r).Ok p' ∧ Settled p' := by
  obtain ⟨hstate, hasync, -⟩ : RequestOk (c.req r) (c.sender r) .fresh := hr ▸ h.inv.request r
  have hkeep : ∀ x, (∃ b, x = .waitInit b) ∨ x = .returned (-enotconn) →
      RequestOk (c.req r) x (p r) := fun x hx => by
    rw [hr]
    exact ⟨hstate, hasync, .inr hx⟩
  unfold Conn.awaitInit
  split_ifs with hwait hdead herror
  · exact ⟨p, h.setSender (hkeep _ (.inl ⟨true, rfl⟩)) (by simp [hwait]), hp⟩
  · exact ⟨p, h.setSender (hkeep _ (.inr rfl)) (by simp), hp⟩
  · exact absurd (h.live (by simpa using hdead)) herror
  · have hc : c.connected = true := by simpa using hdead
    have henqueue := h.inv.enqueue (x := .waiting true) (l := c.pending ++ [r])
      (q := { c.req r with unique := c.lastUnique + 1, state := .pending })
      hr ⟨rfl, .inr ⟨rfl, hasync⟩⟩ (perm_append_singleton r c.pending)
    refine ⟨update p r .pending, ?_, hp.update (by simp)⟩
    rw [awaitReply, if_pos ⟨by simp [fuseEnqueueReq, setReq], hc⟩]
    exact Inv.ok { henqueue with } hc (h.live hc)

theorem Ok.fuseRequestSend (hp : Settled p) (hr : c.sender r = .idle)
    (hq : q.state = .init ∧ q.isAsync = false) :
    ∃ p', (c.fuseRequestSend r q).Ok p' ∧ Settled p' := by
  have hfresh := h.inv.fresh (.inl hr)
  unfold Conn.fuseRequestSend
  split_ifs with hdead
  · refine ⟨p, h.setSender ?_ (by simp), hp⟩
    obtain ⟨hstate, hasync, -⟩ : RequestOk (c.req r) (c.sender r) .fresh := hfresh ▸ h.inv.request r
    rw [hfresh]
    exact ⟨hstate, hasync, .inr (.inr rfl)⟩
  · have hc : c.connected = true := by simpa using hdead
    have hset : (c.setReq r q).Inv p := by
      refine { h.inv with request := fun r' => ?_ }
      by_cases heq : r' = r
      · subst heq
        simpa [setReq, hfresh] using ⟨hq.1, hq.2, .inl hr⟩
      · simpa [setReq, heq] using h.inv.request r'
    exact (Inv.ok hset hc (h.live hc)).awaitInit hp hfresh

theorem Ok.awaitReply (hr : c.sender r = .waiting false) : (c.awaitReply r).Ok p := by
  have hrequest := h.inv.request r
  have hk : p r = .finished := by
    cases hk : p r <;> simp_all [RequestOk, Awaited]
  rw [hk] at hrequest
  obtain ⟨hstate, hanswered, hsender⟩ := hrequest
  have hasync : (c.req r).isAsync = false := by simp_all
  simp only [Conn.awaitReply, hstate, ne_eq, not_true_eq_false, false_and, if_false]
  refine h.setSender ?_ (by simp)
  rw [hk]
  exact ⟨hstate, hanswered, .inr ⟨hasync, .inr rfl⟩⟩

theorem Ok.readTake (hp : Settled p) (ht : c.Free t)
    (hstep : c.readTake t count = some c') : ∃ p', c'.Ok p' ∧ Settled p' := by
  unfold Conn.readTake at hstep
  split at hstep
  · simp at hstep
  · next r rest hpending =>
    split_ifs at hstep with hdead hcount
    have hc : c.connected = true := by simpa using hdead
    cases hstep
    exact ⟨_, Inv.ok (h.inv.take hpending ht.1) hc (h.live hc), hp.update (by simp)⟩

theorem Ok.readCopy (hp : Settled p) (ht : c.reader t = some y) :
    ∃ p', (c.readCopy t y).Ok p' ∧ Settled p' := by
  obtain ⟨r, n⟩ := y
  have hk : p r = .copying t := h.inv.eq_of_at ⟨n, ht⟩
  unfold Conn.readCopy
  split_ifs
  · exact ⟨p, ⟨h.inv.copyOn ht, h.live, h.dead, h.deadInit⟩, hp⟩
  · have hrequest := h.inv.request r
    rw [hk] at hrequest
    refine ⟨_, ⟨h.inv.process ht (q := { c.req r with state := .sent }) ⟨rfl, hrequest.2⟩, h.live,
      fun hd r' hout => ?_, h.deadInit⟩, hp.update (by simp)⟩
    have := h.dead hd r'
    by_cases heq : r' = r <;> simp_all [setReq, Place.Outbound]

/-- The end of a request keeps what holds of the connection, as long as a connection that lasts
accepts what the daemon answers to `FUSE_INIT`. -/
theorem Ok.finish (hr : p r = .held) (hasync : q.isAsync = (c.req r).isAsync)
    (hq : Answered q) (hinit : c.connected = true → q.isAsync = true →
      q.out.error = 0 ∧ 24 ≤ q.outBuf.length ∧ initField q.outBuf 0 = 7) :
    (c.finish r q).Ok (update p r .finished) := by
  have hended := ended_finish hasync
  refine ⟨h.inv.finish hr hasync hq, fun hc => ?_, fun hd r' hout => ?_, fun hd r' hx => ?_⟩
  · rw [hended.connected] at hc
    have hzero := h.live hc
    unfold Conn.finish
    dsimp only
    split_ifs with ha
    · obtain ⟨herror, hlen, hmajor⟩ := hinit hc ha
      have hshort : ¬ q.outBuf.length < 24 := by omega
      simpa [fuseProcessInitReply, wakeUpInit, takeInitReply, herror, hshort,
        hmajor, setReq] using hzero
    · unfold wakeUp
      split <;> exact hzero
  · rw [hended.connected] at hd
    rw [hended.isAsync]
    by_cases heq : r' = r
    · simp [heq, Place.Outbound] at hout
    · exact h.dead hd r' (by simpa [heq] using hout)
  · rw [hended.connected] at hd
    exact h.deadInit hd r' (hended.waitInit r' hx)

end

/-- The steps after which the connection keeps its promise.  A connection is aborted only while no
request that somebody waits for is being copied out, there is memory for `FUSE_INIT`, and the daemon
answers it as the kernel wants. -/
def Safe (c : Conn) : Op → Prop
  | .sendInit _ memReq memOut _ => memReq = true ∧ memOut = true
  | .writeHeader t oh => c.connected = true → c.writer t = some (.header oh.len) →
      ∀ r ∈ c.processing, (c.req r).isAsync = true → (c.req r).unique = oh.unique →
        oh.error = 0 ∧ outHeaderSize < oh.len
  | .writePayload t data => c.connected = true → ∀ r n, c.writer t = some (.payload r n) →
      (c.req r).isAsync = true → 24 ≤ data.length ∧ initField data 0 = 7
  | .abort => ∀ t y, c.reader t = some y → (c.req y.req).isAsync = true
  | _ => True

theorem Ok.deliver (h : c.Ok (update p r .held)) (hp : Settled p)
    (ht : c.writer t = none) (hstate : q.state = (c.req r).state)
    (hasync : q.isAsync = (c.req r).isAsync) (hmax : q.outBufMax = (c.req r).outBufMax)
    (hq : Answered q) (hinit : c.connected = true → q.isAsync = true → q.out.error = 0 ∧ len > 0) :
    ∃ p', (c.deliver t r len q).Ok p' ∧ Settled p' := by
  have hrequest := h.inv.request r
  rw [update_self] at hrequest
  obtain ⟨hinitial, hunfinished, hawaited⟩ := hrequest
  have hfinish : (c.connected = true → q.isAsync = true → False) →
      ∃ p', (c.finish r q).Ok p' ∧ Settled p' := fun hno =>
    ⟨_, h.finish (by simp) hasync hq fun hc ha => (hno hc ha).elim, hp.put (by simp)⟩
  unfold Conn.deliver
  cases hbuf : q.outBufMax with
  | none =>
    refine hfinish fun hc ha => ?_
    obtain ⟨-, -, hsome⟩ | ⟨-, hsync⟩ := hawaited
    · exact hsome (hmax ▸ hbuf)
    · simp [← hasync, ha] at hsync
  | some max =>
    split_ifs with hpayload
    · refine ⟨_, ⟨h.inv.reply (by simp) (by simp [ht]) ?_, h.live, fun hd r' hout => ?_,
        h.deadInit⟩, hp.put (by simp)⟩
      · exact ⟨hstate ▸ hinitial, hstate ▸ hunfinished, hpayload.1, hq,
          by simpa [Awaited, hasync, hmax] using hawaited⟩
      · by_cases heq : r' = r
        · simp [heq, Place.Outbound] at hout
        · simpa [setReq, setWriter, heq] using h.dead hd r' (by simpa [heq] using hout)
    · exact hfinish fun hc ha => hpayload (hinit hc ha)

theorem Ok.writeHeader (h : c.Ok p) (hp : Settled p)
    (ht : c.writer t = some (.header count)) (hsafe : c.Safe (.writeHeader t oh)) :
    ∃ p', (c.writeHeader t count oh).Ok p' ∧ Settled p' := by
  have hidle : (c.setWriter t none).Ok p :=
    ⟨h.inv.setWriter (by simp [ht]) (by simp), h.live, h.dead, h.deadInit⟩
  unfold Conn.writeHeader
  dsimp only
  split_ifs with hrefused
  · exact ⟨p, hidle, hp⟩
  push Not at hrefused
  obtain ⟨rfl, -⟩ := hrefused
  cases hfind : (c.setWriter t none).findProcessing oh.unique with
  | none => exact ⟨p, hidle, hp⟩
  | some r =>
    have hmem : r ∈ c.processing := mem_of_find?_eq_some hfind
    have hunique : (c.req r).unique = oh.unique := by
      have hfound := find?_some hfind
      simpa [setWriter] using of_decide_eq_true hfound
    have htaken : Ok { c.setWriter t none with processing := c.processing.erase r }
        (update p r .held) := by
      refine ⟨hidle.inv.takeReply hmem, h.live, fun hd r' hout => ?_, h.deadInit⟩
      by_cases heq : r' = r
      · simp [heq, Place.Outbound] at hout
      · exact h.dead hd r' (by simpa [heq] using hout)
    refine htaken.deliver hp (by simp [setWriter]) rfl rfl rfl (.inr hunique.symm) ?_
    intro hc hasync
    obtain ⟨herror, hlen⟩ := hsafe hc ht r hmem hasync hunique
    exact ⟨by simp [OutHeader.normalise, herror], by omega⟩

theorem Ok.writePayload (h : c.Ok p) (hp : Settled p)
    (ht : c.writer t = some (.payload r n)) (hsafe : c.Safe (.writePayload t data)) :
    ∃ p', (c.writePayload t r data).Ok p' ∧ Settled p' := by
  have hk : p r = .replying t := h.inv.eq_of_at ⟨n, ht⟩
  have hrequest := h.inv.request r
  rw [hk] at hrequest
  have htaken : (c.setWriter t none).Ok (update p r .held) := by
    refine ⟨h.inv.replied ht, h.live, fun hd r' hout => ?_, h.deadInit⟩
    by_cases heq : r' = r
    · simp [heq, Place.Outbound] at hout
    · exact h.dead hd r' (by simpa [heq] using hout)
  obtain ⟨-, -, herror, hanswered, -⟩ := hrequest
  exact ⟨_, htaken.finish (by simp) rfl hanswered fun hc ha => ⟨herror, hsafe hc r n ht ha⟩,
    hp.put (by simp)⟩

theorem Ok.fuseConnAbort (h : c.Ok p) (hp : Settled p) (hsafe : c.Safe .abort) :
    ∃ p', c.fuseConnAbort.Ok p' ∧ Settled p' := by
  obtain ⟨p', hinv, hsettled, ha⟩ := h.inv.fuseConnAbort hp
  refine ⟨p', ⟨hinv, fun hc => ?_, fun _ r hout => ?_, fun _ => ha.waitInit⟩, hsettled⟩
  · simp [ha.connected] at hc
  · have hat : c.fuseConnAbort.At r (p' r) := by
      rw [hinv.located r (p' r)]
      cases hk : p' r <;> simp_all [Place.Outbound, Place.Listed]
    cases hk : p' r with
    | copying t =>
      rw [hk] at hat
      obtain ⟨n, hn⟩ := hat
      rw [ha.reader] at hn
      rw [ha.isAsync]
      exact hsafe t _ hn
    | _ => simp_all [At, Place.Outbound, ha.pending, ha.processing]

theorem Ok.step (h : c.Ok p) (hp : Settled p) (hsafe : c.Safe op) (hstep : c.step op = some c') :
    ∃ p', c'.Ok p' ∧ Settled p' := by
  cases op with
  | sendInit r memReq memOut root =>
    obtain ⟨⟨hc, -, hr⟩, hstep⟩ := ite_none_right_eq_some.mp hstep
    obtain ⟨rfl, rfl⟩ := hsafe
    cases hstep
    have hsent := h.fuseSendInit hc (h.inv.fresh (.inl hr))
    exact ⟨_, ⟨{ hsent.inv with }, hsent.live, hsent.dead, hsent.deadInit⟩, hp.update (by simp)⟩
  | send r inArgLen inPayloadLen outBufMax =>
    obtain ⟨⟨-, hr⟩, hstep⟩ := ite_none_right_eq_some.mp hstep
    cases hstep
    exact h.fuseRequestSend hp hr ⟨rfl, rfl⟩
  | resume r =>
    cases hr : c.sender r with
    | waitInit b =>
      cases b <;> simp only [step, hr, reduceCtorEq, some.injEq] at hstep
      exact hstep ▸ h.awaitInit hp (h.inv.fresh (.inr ⟨false, hr⟩))
    | waiting b =>
      cases b <;> simp only [step, hr, reduceCtorEq, some.injEq] at hstep
      exact hstep ▸ ⟨p, h.awaitReply hr, hp⟩
    | _ => simp [step, hr] at hstep
  | readTake t count =>
    obtain ⟨ht, hstep⟩ := ite_none_right_eq_some.mp hstep
    exact h.readTake hp ht hstep
  | readCopy t =>
    obtain ⟨y, ht, rfl⟩ := map_eq_some_iff.mp hstep
    exact h.readCopy hp ht
  | readForget =>
    obtain ⟨-, hstep⟩ := ite_none_right_eq_some.mp hstep
    cases hstep
    exact ⟨p, ⟨{ h.inv with }, h.live, h.dead, h.deadInit⟩, hp⟩
  | writeBegin t count =>
    obtain ⟨⟨ht, -, -⟩, hstep⟩ := ite_none_right_eq_some.mp hstep
    cases hstep
    exact ⟨p, ⟨h.inv.setWriter (by simp [ht.2]) (by simp), h.live, h.dead, h.deadInit⟩, hp⟩
  | writeHeader t oh =>
    cases ht : c.writer t with
    | none => simp [step, ht] at hstep
    | some w =>
      cases w with
      | header count =>
        simp only [step, ht, some.injEq] at hstep
        exact hstep ▸ h.writeHeader hp ht hsafe
      | payload r n => simp [step, ht] at hstep
  | writePayload t data =>
    cases ht : c.writer t with
    | none => simp [step, ht] at hstep
    | some w =>
      cases w with
      | header count => simp [step, ht] at hstep
      | payload r n =>
        simp only [step, ht] at hstep
        obtain ⟨-, hstep⟩ := ite_none_right_eq_some.mp hstep
        cases hstep
        exact h.writePayload hp ht hsafe
  | abort =>
    cases hstep
    exact h.fuseConnAbort hp hsafe

theorem ok_start : start.Ok fun _ => .fresh := by
  refine ⟨⟨nodup_nil, nodup_nil, fun r k => ?_, fun r => ?_⟩, fun _ => rfl, by simp [start],
    by simp [start]⟩
  · cases k <;> simp [At, start, Place.Listed]
  · exact ⟨rfl, rfl, .inl rfl⟩

def Keeps (c c' : Conn) : Prop := ∀ r rc, c.sender r = .returned rc → c'.sender r = .returned rc

theorem Keeps.trans (h : Keeps a b) (h' : Keeps b d) : Keeps a d :=
  fun r rc hr => h' r rc (h r rc hr)

theorem keeps_setSender (hr : ∀ rc, c.sender r ≠ .returned rc) : Keeps c (c.setSender r x) := by
  intro r' rc hr'
  have hne : r' ≠ r := fun heq => hr rc (heq ▸ hr')
  simpa [setSender, hne] using hr'

theorem keeps_wakeUpInit : Keeps c c.wakeUpInit := by
  intro r rc hr
  simp [wakeUpInit, hr, wakeInit]

theorem keeps_finish : Keeps c (c.finish r q) := by
  unfold finish
  dsimp only
  split_ifs
  · refine Keeps.trans (fun r rc hr => ?_) keeps_wakeUpInit
    unfold takeInitReply
    split_ifs <;> exact hr
  · unfold wakeUp
    split
    · next b hb => exact keeps_setSender (c := c.setReq r _) (by simp [hb])
    · exact fun r rc => id

theorem keeps_abortAll : Keeps c (c.abortAll l) := by
  induction l generalizing c with
  | nil => exact fun r rc => id
  | cons r rs ih => exact keeps_finish.trans ih

theorem keeps_fuseConnAbort : Keeps c c.fuseConnAbort := by
  intro r rc hr
  exact keeps_wakeUpInit r rc (keeps_abortAll r rc (keeps_abortAll r rc hr))

theorem keeps_awaitReply (hr : ∀ rc, c.sender r ≠ .returned rc) : Keeps c (c.awaitReply r) := by
  unfold awaitReply
  split_ifs <;> exact keeps_setSender hr

theorem keeps_awaitInit (hr : ∀ rc, c.sender r ≠ .returned rc) : Keeps c (c.awaitInit r) := by
  unfold awaitInit
  split_ifs
  · exact keeps_setSender hr
  · exact keeps_setSender hr
  · exact keeps_setSender hr
  · intro r' rc hr'
    refine keeps_awaitReply ?_ r' rc hr'
    exact hr

theorem keeps_step (hstep : c.step op = some c') : Keeps c c' := by
  cases op with
  | sendInit r memReq memOut root =>
    obtain ⟨⟨-, -, hr⟩, hstep⟩ := ite_none_right_eq_some.mp hstep
    cases hstep
    unfold fuseSendInit
    split_ifs
    · exact fun r rc => id
    · exact keeps_setSender (by simp [hr])
  | send r inArgLen inPayloadLen outBufMax =>
    obtain ⟨⟨-, hr⟩, hstep⟩ := ite_none_right_eq_some.mp hstep
    cases hstep
    unfold fuseRequestSend
    split_ifs
    · exact keeps_setSender (by simp [hr])
    · refine Keeps.trans (b := setReq _ r _) (fun r rc hr => hr) (keeps_awaitInit ?_)
      simp [setReq, hr]
  | resume r =>
    cases hr : c.sender r with
    | waitInit b =>
      cases b <;> simp only [step, hr, reduceCtorEq, some.injEq] at hstep
      exact hstep ▸ keeps_awaitInit (by simp [hr])
    | waiting b =>
      cases b <;> simp only [step, hr, reduceCtorEq, some.injEq] at hstep
      exact hstep ▸ keeps_awaitReply (by simp [hr])
    | _ => simp [step, hr] at hstep
  | readTake t count =>
    obtain ⟨-, hstep⟩ := ite_none_right_eq_some.mp hstep
    unfold readTake at hstep
    split at hstep
    · simp at hstep
    · split_ifs at hstep
      cases hstep
      exact fun r rc => id
  | readCopy t =>
    obtain ⟨y, -, rfl⟩ := map_eq_some_iff.mp hstep
    unfold readCopy
    split_ifs <;> exact fun r rc => id
  | writeHeader t oh =>
    simp only [step] at hstep
    split at hstep
    · cases hstep
      unfold writeHeader
      dsimp only
      split_ifs
      · exact fun r rc => id
      · split
        · exact fun r rc => id
        · unfold deliver
          split
          · exact fun r rc hr => keeps_finish r rc hr
          · split_ifs
            · exact fun r rc => id
            · exact fun r rc hr => keeps_finish r rc hr
    · simp at hstep
  | writePayload t data =>
    simp only [step] at hstep
    split at hstep
    · obtain ⟨-, hstep⟩ := ite_none_right_eq_some.mp hstep
      cases hstep
      exact fun r rc hr => keeps_finish r rc hr
    · simp at hstep
  | abort =>
    cases hstep
    exact keeps_fuseConnAbort
  | _ =>
    obtain ⟨-, hstep⟩ := ite_none_right_eq_some.mp hstep
    cases hstep
    exact fun r rc => id

/-- The stages of the life of a request that has been queued.  A request whose reply is being copied
in is still processed. -/
inductive Stage
  | pending
  | copying
  | processing
  | finished

def InStage (c : Conn) (r : Nat) : Stage → Prop
  | .pending => r ∈ c.pending
  | .copying => ∃ t n, c.reader t = some ⟨r, n⟩
  | .processing => r ∈ c.processing ∨ ∃ t n, c.writer t = some (.payload r n)
  | .finished => (c.req r).state = .finished

/-- A sender that sleeps for its reply is woken by the thread that copies the reply. -/
def Rescued (c : Conn) (r : Nat) : Prop :=
  ∃ t n, c.writer t = some (.payload r n) ∧ ∀ data, data.length = n →
    ∃ c', c.step (.writePayload t data) = some c' ∧ c'.sender r = .waiting false

structure Lifecycle (c : Conn) : Prop where
  /-- A queued request is in one stage. -/
  stage : ∀ r, (c.req r).state ≠ .init → ∃! s, c.InStage r s
  /-- It is in its list once. -/
  nodup : c.pending.Nodup ∧ c.processing.Nodup
  /-- A sender returns its own reply, or that the connection has ended. -/
  own : ∀ r rc, c.sender r = .returned rc → rc = -enotconn ∨
    (c.req r).state = .finished ∧ rc = (c.req r).out.error ∧ (c.req r).out.unique = (c.req r).unique
  /-- It returns once. -/
  once : ∀ r rc, c.sender r = .returned rc → ∀ c', Reaches step (fun _ _ => True) c c' →
    c'.sender r = .returned rc
  /-- Its request is then in no list, and no thread has it. -/
  gone : ∀ r rc, c.sender r = .returned rc → ∀ s, c.InStage r s → s = .finished
  /-- After an abort nobody sleeps, unless the reply is on its way. -/
  unblocked : c.connected = false → ∀ r, c.sender r ≠ .waitInit true ∧
    (c.sender r = .waiting true → c.Rescued r)
  /-- After an abort a sender that is awake returns. -/
  returns : c.connected = false → ∀ r, c.sender r = .waitInit false ∨ c.sender r = .waiting false →
    ∃ c' rc, c.step (.resume r) = some c' ∧ c'.sender r = .returned rc

theorem Inv.stage (h : c.Inv p) (hp : Settled p) (hr : (c.req r).state ≠ .init) :
    ∃! s, c.InStage r s := by
  have hrequest := h.request r
  have hpending := h.located r .pending
  have hprocessing := h.located r .processing
  have hcopying := fun t => h.located r (.copying t)
  have hreplying := fun t => h.located r (.replying t)
  simp only [At, Place.Listed, and_true] at hpending hprocessing hcopying hreplying
  -- The place of the request decides every stage.
  have hstage : ∀ s, c.InStage r s ↔ match s with
      | .pending => p r = .pending
      | .copying => ∃ t, p r = .copying t
      | .processing => p r = .processing ∨ ∃ t, p r = .replying t
      | .finished => (c.req r).state = .finished := by
    intro s
    cases s <;> simp [InStage, hpending, hprocessing, hcopying, hreplying]
  cases hk : p r with
  | fresh => simp [hk, RequestOk, hr] at hrequest
  | held => exact absurd hk (hp r)
  | pending => exact ⟨.pending, by simp [hstage, hk], fun s hs => by
      cases s <;> simp_all [RequestOk]⟩
  | copying t => exact ⟨.copying, by simp [hstage, hk], fun s hs => by
      cases s <;> simp_all [RequestOk]⟩
  | finished =>
    refine ⟨.finished, ?_, fun s hs => ?_⟩
    · simp_all [RequestOk]
    · cases s <;> simp_all [RequestOk]
  | _ => exact ⟨.processing, by simp [hstage, hk], fun s hs => by
      cases s <;> simp_all [RequestOk]⟩

theorem Inv.of_returned (h : c.Inv p) (hr : c.sender r = .returned rc) :
    (p r = .fresh ∧ rc = -enotconn) ∨
      (p r = .finished ∧ (c.req r).state = .finished ∧ rc = (c.req r).out.error ∧
        Answered (c.req r)) := by
  have hrequest := h.request r
  rw [hr] at hrequest
  cases hk : p r with
  | fresh =>
    simp only [hk, RequestOk, reduceCtorEq, exists_const, Sender.returned.injEq, false_or]
      at hrequest
    exact .inl ⟨rfl, hrequest.2.2⟩
  | finished =>
    simp only [hk, RequestOk, reduceCtorEq, false_and, Sender.returned.injEq, false_or] at hrequest
    exact .inr ⟨rfl, hrequest.1, hrequest.2.2.2, hrequest.2.1⟩
  | _ => simp [hk, RequestOk, Awaited] at hrequest

theorem Ok.rescued (h : c.Ok p) (hp : Settled p) (hd : c.connected = false)
    (hr : c.sender r = .waiting true) : c.Rescued r := by
  have hrequest := h.inv.request r
  have hdead := h.dead hd r
  cases hk : p r with
  | replying t =>
    obtain ⟨n, ht⟩ := (h.inv.located r (.replying t)).mpr ⟨hk, trivial⟩
    refine ⟨t, n, ht, fun data hdata => ⟨c.writePayload t r data, ?_, ?_⟩⟩
    · simp [Conn.step, ht, hdata]
    · have hasync : (c.req r).isAsync = false := by simp_all [RequestOk, Awaited]
      simp [Conn.writePayload, Conn.finish, setWriter, hasync, wakeUp, setReq,
        Conn.setSender, hr]
  | held => exact absurd hk (hp r)
  | _ => simp_all [RequestOk, Awaited, Place.Outbound]

theorem Ok.lifecycle (h : c.Ok p) (hp : Settled p) : c.Lifecycle where
  stage r hr := h.inv.stage hp hr
  nodup := ⟨h.inv.nodupPending, h.inv.nodupProcessing⟩
  own r rc hr := by
    obtain ⟨-, hrc⟩ | ⟨-, hstate, hrc, hanswered⟩ := h.inv.of_returned hr
    · exact .inl hrc
    · obtain herror | hunique := hanswered
      · exact .inl (hrc.trans herror)
      · exact .inr ⟨hstate, hrc, hunique⟩
  once r rc hr c' hreach :=
    hreach.invariant (P := fun c => c.sender r = .returned rc) hr
      fun _ _ _ hr _ hstep => keeps_step hstep r rc hr
  gone r rc hr s hs := by
    obtain ⟨hk, -⟩ | ⟨-, hstate, -⟩ := h.inv.of_returned hr
    · have hrequest := h.inv.request r
      rw [hk] at hrequest
      have hat : ∀ k, ¬ c.At r k := fun k hat => by
        have := (h.inv.located r k).mp hat
        simp_all [Place.Listed]
      cases s with
      | pending => exact absurd hs (hat .pending)
      | copying =>
        obtain ⟨t, hs⟩ := hs
        exact absurd hs (hat (.copying t))
      | processing =>
        obtain hs | ⟨t, hs⟩ := hs
        · exact absurd hs (hat .processing)
        · exact absurd hs (hat (.replying t))
      | finished => rfl
    · have hne : (c.req r).state ≠ .init := by simp [hstate]
      exact (h.inv.stage hp hne).unique hs hstate
  unblocked hd r := ⟨h.deadInit hd r, h.rescued hp hd⟩
  returns hd r hr := by
    obtain hr | hr := hr
    · exact ⟨_, -enotconn, by simp [Conn.step, hr]; rfl,
        by simp [Conn.awaitInit, hd, Conn.setSender]⟩
    · have hrequest := h.inv.request r
      have hstate : (c.req r).state = .finished := by
        cases hk : p r <;> simp_all [RequestOk, Awaited]
      exact ⟨_, (c.req r).out.error, by simp [Conn.step, hr]; rfl,
        by simp [Conn.awaitReply, hstate, Conn.setSender]⟩

/-- In every run in which all steps are safe, every request lives as it should: it is in one stage
at any time, its sender returns once, with its own reply or an error, and nobody stays blocked after
an abort. -/
theorem lifecycle_of_reaches (h : Reaches step Safe start c) : c.Lifecycle := by
  obtain ⟨p, hok, hp⟩ := h.invariant (P := fun c => ∃ p, c.Ok p ∧ Settled p)
    ⟨_, ok_start, by simp [Settled]⟩ fun _ _ _ ⟨_, hok, hp⟩ hsafe hstep => hok.step hp hsafe hstep
  exact hok.lifecycle hp

def initOut : List UInt8 := 7 :: List.replicate 63 0

def initOps : List Op :=
  [.sendInit 0 true true true, .readTake 0 56, .readCopy 0, .readCopy 0, .writeBegin 0 80,
    .writeHeader 0 { len := 80, unique := 1 }, .writePayload 0 initOut]

/-- The steps of a run without an abort that are safe on every connection. -/
def plain : Op → Bool
  | .sendInit _ memReq memOut _ => memReq && memOut
  | .writeHeader _ oh => oh.error = 0 && outHeaderSize < oh.len
  | .writePayload _ data => 24 ≤ data.length && initField data 0 == 7
  | .abort => false
  | _ => true

theorem safe_of_plain (h : plain op = true) : c.Safe op := by
  cases op <;> simp_all [plain, Safe]

/-- After the reply to `FUSE_INIT` a request is sent, answered and returned. -/
theorem lifecycle_after_reply :
    ∃ c, Reaches step Safe start c ∧ c.sender 1 = .returned 0 ∧ c.Lifecycle := by
  have hrun : (run (guarded (fun _ op => plain op) step) start (initOps ++
      [.send 1 0 0 none, .readTake 0 40, .readCopy 0, .writeBegin 0 17,
        .writeHeader 0 { len := 17, unique := 2 }, .resume 1])).map
        (fun c => c.sender 1) = some (.returned 0) := by
    decide
  obtain ⟨c, hc, hsender⟩ := map_eq_some_iff.mp hrun
  have hreach : Reaches step Safe start c :=
    (reaches_of_guarded_run _ hc).mono fun _ _ => safe_of_plain
  exact ⟨c, hreach, hsender, lifecycle_of_reaches hreach⟩

/-- On a connection that has ended, with no thread in a call, only another abort wakes a sender. -/
structure Stranded (c : Conn) (r : Nat) : Prop where
  connected : c.connected = false
  sender : c.sender r = .waiting true
  reader : ∀ t, c.reader t = none
  writer : ∀ t, c.writer t = none

theorem Stranded.setSender (h : c.Stranded r) (hne : r ≠ r') : (c.setSender r' x).Stranded r :=
  ⟨h.connected, by simpa [Conn.setSender, hne] using h.sender, h.reader, h.writer⟩

theorem Stranded.step (h : c.Stranded r) (hop : op ≠ .abort) (hstep : c.step op = some c') :
    c'.Stranded r := by
  cases op with
  | send r' inArgLen inPayloadLen outBufMax =>
    obtain ⟨⟨-, hr'⟩, hstep⟩ := ite_none_right_eq_some.mp hstep
    have hne : r ≠ r' := fun heq => by simp [← heq, h.sender] at hr'
    simp only [fuseRequestSend, h.connected, Bool.not_false, if_true] at hstep
    cases hstep
    exact h.setSender hne
  | resume r' =>
    have hne : r' = r → c.sender r' = .waiting true := fun heq => heq ▸ h.sender
    cases hr' : c.sender r' with
    | waitInit b =>
      cases b <;> simp only [step, hr', reduceCtorEq, some.injEq] at hstep
      simp only [awaitInit, h.connected, Bool.false_eq_true, and_false, if_false,
        Bool.not_false, if_true] at hstep
      exact hstep ▸ h.setSender fun heq => by simp [hne heq.symm] at hr'
    | waiting b =>
      cases b <;> simp only [step, hr', reduceCtorEq, some.injEq] at hstep
      simp only [awaitReply, h.connected, Bool.false_eq_true, and_false, if_false] at hstep
      split_ifs at hstep <;> exact hstep ▸ h.setSender fun heq => by simp [hne heq.symm] at hr'
    | _ => simp [step, hr'] at hstep
  | readTake t count =>
    simp only [step, readTake, h.connected] at hstep
    cases hpending : c.pending <;> simp [hpending] at hstep
  | abort => exact absurd rfl hop
  | _ => simp [step, h.connected, h.reader, h.writer] at hstep

theorem cut_read_strands_sender :
    ∃ c,
      run step start (initOps ++ [.send 1 0 0 none, .readTake 0 40, .abort, .readCopy 0]) = some c ∧
      c.connected = false ∧
      ∀ c', Reaches step (fun _ op => op ≠ .abort) c c' → c'.sender 1 = .waiting true := by
  refine ⟨_, rfl, rfl, fun c' h => ?_⟩
  refine (h.invariant (P := (Stranded · 1)) ⟨rfl, rfl, fun t => ?_, fun t => ?_⟩
    fun _ _ _ hs hop hstep => hs.step hop hstep).sender
  · by_cases ht : t = 0
    · subst ht
      rfl
    · iterate 5
        change update (_ : Nat → Option Reading) 0 _ t = none
        rw [update_of_ne ht]
      rfl
  · by_cases ht : t = 0
    · subst ht
      rfl
    · iterate 4
        change update (_ : Nat → Option Writing) 0 _ t = none
        rw [update_of_ne ht]
      rfl

end Conn

end Six.Fuse
