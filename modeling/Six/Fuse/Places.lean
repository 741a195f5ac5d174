import Mathlib.Data.List.Nodup
import Six.Fuse.Conn

/-! The places of the requests of a FUSE connection: a list, the hands of a thread of the daemon, or
the end. -/

namespace Six.Fuse

open Lib Errno List Function Conn

/-- Where a request is.  `held` is a request that a function has taken from its place and not yet
put in the next. -/
inductive Place
  | fresh
  | pending
  | copying (t : Nat)
  | processing
  | replying (t : Nat)
  | held
  | finished
  deriving DecidableEq

/-- The sender of a request that is on its way; `FUSE_INIT` has none, and a buffer for the reply. -/
def Awaited (q : Req) (x : Sender) : Prop :=
  (x = .nobody ∧ q.isAsync = true ∧ q.outBufMax ≠ none) ∨ (x = .waiting true ∧ q.isAsync = false)

def Answered (q : Req) : Prop := q.out.error = -enotconn ∨ q.out.unique = q.unique

def RequestOk (q : Req) (x : Sender) : Place → Prop
  | .fresh => q.state = .init ∧ q.isAsync = false ∧
      (x = .idle ∨ (∃ b, x = .waitInit b) ∨ x = .returned (-enotconn))
  | .finished => q.state = .finished ∧ Answered q ∧
      ((x = .nobody ∧ q.isAsync = true) ∨
        (q.isAsync = false ∧ (x = .waiting false ∨ x = .returned q.out.error)))
  | .replying _ => q.state ≠ .init ∧ q.state ≠ .finished ∧ q.out.error = 0 ∧
      Answered q ∧ Awaited q x
  | .pending | .copying _ => q.state = .pending ∧ Awaited q x
  | .processing => q.state = .sent ∧ Awaited q x
  | .held => q.state ≠ .init ∧ q.state ≠ .finished ∧ Awaited q x

def Place.Listed : Place → Prop
  | .fresh | .held | .finished => False
  | _ => True

def Place.Outbound : Place → Prop
  | .pending | .copying _ | .processing => True
  | _ => False

namespace Conn

def At (c : Conn) (r : Nat) : Place → Prop
  | .pending => r ∈ c.pending
  | .processing => r ∈ c.processing
  | .copying t => ∃ n, c.reader t = some ⟨r, n⟩
  | .replying t => ∃ n, c.writer t = some (.payload r n)
  | _ => False

/-- Every request is where `p` says, and nowhere else. -/
structure Inv (c : Conn) (p : Nat → Place) : Prop where
  nodupPending : c.pending.Nodup
  nodupProcessing : c.processing.Nodup
  located : ∀ r k, c.At r k ↔ p r = k ∧ k.Listed
  request : ∀ r, RequestOk (c.req r) (c.sender r) (p r)

variable {c c' : Conn} {p : Nat → Place} {r t n : Nat} {q : Req} {x : Sender} {k : Place}
  {l : List Nat}

section

variable (h : c.Inv p)
include h

theorem Inv.eq_of_at (hk : c.At r k) : p r = k := ((h.located r k).mp hk).1

theorem Inv.move (hp : c'.pending.Nodup) (hs : c'.processing.Nodup)
    (others : ∀ r', r' ≠ r → (∀ k, c'.At r' k ↔ c.At r' k) ∧ c'.req r' = c.req r' ∧
      c'.sender r' = c.sender r') (own : ∀ k', c'.At r k' ↔ k = k' ∧ k'.Listed)
    (hq : RequestOk (c'.req r) (c'.sender r) k) : c'.Inv (update p r k) := by
  refine ⟨hp, hs, fun r' k' => ?_, fun r' => ?_⟩
  · by_cases heq : r' = r
    · subst heq
      simpa using own k'
    · simpa [heq] using ((others r' heq).1 k').trans (h.located r' k')
  · by_cases heq : r' = r
    · subst heq
      simpa using hq
    · obtain ⟨-, hreq, hsender⟩ := others r' heq
      simpa [heq, hreq, hsender] using h.request r'

theorem Inv.setSender (hr : RequestOk (c.req r) x (p r)) : (c.setSender r x).Inv p := by
  refine { h with request := fun r' => ?_ }
  by_cases heq : r' = r
  · subst heq
    simpa [setSender] using hr
  · simpa [Conn.setSender, heq] using h.request r'

theorem Inv.enqueue (hr : p r = .fresh) (hq : RequestOk q x .pending)
    (hl : l.Perm (r :: c.pending)) :
    { (c.setReq r q).setSender r x with pending := l }.Inv (update p r .pending) := by
  have hat : ∀ k, ¬ c.At r k := fun k hk => by
    have := (h.located r k).mp hk
    simp_all [Place.Listed]
  refine h.move ?_ h.nodupProcessing (fun r' hne => ⟨fun k => ?_, ?_, ?_⟩) (fun k => ?_) ?_
  · exact hl.nodup_iff.mpr (nodup_cons.mpr ⟨hat .pending, h.nodupPending⟩)
  · cases k <;> simp [At, setReq, Conn.setSender, hl.mem_iff, hne]
  · simp [setReq, Conn.setSender, hne]
  · simp [setReq, Conn.setSender, hne]
  · have := hat k
    cases k <;> simp_all [At, setReq, Conn.setSender, Place.Listed, hl.mem_iff]
  · simpa [setReq, Conn.setSender] using hq

theorem Inv.take (hp : c.pending = r :: rest) (ht : c.reader t = none) :
    { c with pending := rest, reader := update c.reader t (some ⟨r, n⟩) }.Inv
      (update p r (.copying t)) := by
  have hr : p r = .pending := h.eq_of_at (by simp [At, hp])
  have hnodup := h.nodupPending
  rw [hp, nodup_cons] at hnodup
  refine h.move hnodup.2 h.nodupProcessing (fun r' hne => ⟨fun k => ?_, rfl, rfl⟩) (fun k => ?_) ?_
  · cases k with
    | copying t' => by_cases heq : t' = t <;> simp_all [At, hne.symm]
    | _ => simp [At, hp, hne]
  · have := h.located r k
    cases k with
    | copying t' =>
      by_cases heq : t' = t
      · simp [At, Place.Listed, heq]
      · simp_all [At, Place.Listed, Ne.symm heq]
    | _ => simp_all [At, Place.Listed]
  · simpa [RequestOk, hr] using h.request r

theorem Inv.copyOn (ht : c.reader t = some ⟨r, n⟩) :
    { c with reader := update c.reader t (some ⟨r, n'⟩) }.Inv p := by
  refine { h with located := fun r' k => ?_ }
  have := h.located r' k
  cases k with
  | copying t' => by_cases heq : t' = t <;> simp_all [At]
  | _ => exact this

theorem Inv.process (ht : c.reader t = some ⟨r, n⟩)
    (hq : RequestOk q (c.sender r) .processing) : { c.setReq r q with
      processing := r :: c.processing
      reader := update c.reader t none }.Inv (update p r .processing) := by
  have hr : p r = .copying t := h.eq_of_at ⟨n, ht⟩
  have hnew : r ∉ c.processing := fun hmem => by
    have := h.eq_of_at (k := .processing) hmem
    simp_all
  refine h.move h.nodupPending (nodup_cons.mpr ⟨hnew, h.nodupProcessing⟩)
    (fun r' hne => ⟨fun k => ?_, ?_, rfl⟩) (fun k => ?_) ?_
  · cases k with
    | copying t' => by_cases heq : t' = t <;> simp_all [At, hne.symm]
    | _ => simp [At, setReq, hne]
  · simp [setReq, hne]
  · have := h.located r k
    cases k with
    | copying t' => by_cases heq : t' = t <;> simp_all [At, Place.Listed, Ne.symm]
    | _ => simp_all [At, setReq, Place.Listed]
  · simpa [setReq] using hq

theorem Inv.setWriter
    (ht : ∀ r n, c.writer t ≠ some (.payload r n)) (hw : ∀ r n, w ≠ some (.payload r n)) :
    (c.setWriter t w).Inv p := by
  refine { h with located := fun r' k => ?_ }
  have := h.located r' k
  cases k with
  | replying t' => by_cases heq : t' = t <;> simp_all [At, Conn.setWriter]
  | _ => exact this

theorem Inv.takeReply (hr : r ∈ c.processing) :
    { c with processing := c.processing.erase r }.Inv (update p r .held) := by
  have hk : p r = .processing := h.eq_of_at (k := .processing) hr
  refine h.move h.nodupPending (h.nodupProcessing.erase r)
    (fun r' hne => ⟨fun k => ?_, rfl, rfl⟩) (fun k => ?_) ?_
  · cases k with
    | processing => simp [At, mem_erase_of_ne hne]
    | _ => rfl
  · have := h.located r k
    cases k with
    | processing => simp [At, h.nodupProcessing.not_mem_erase]
    | _ => simp_all [At, Place.Listed]
  · have := h.request r
    simp_all [RequestOk]

theorem Inv.reply (hr : p r = .held)
    (ht : ∀ r n, c.writer t ≠ some (.payload r n)) (hq : RequestOk q (c.sender r) (.replying t)) :
    ((c.setReq r q).setWriter t (some (.payload r n))).Inv (update p r (.replying t)) := by
  refine h.move h.nodupPending h.nodupProcessing (fun r' hne => ⟨fun k => ?_, ?_, rfl⟩)
    (fun k => ?_) ?_
  · cases k with
    | replying t' => by_cases heq : t' = t <;> simp_all [At, setReq, Conn.setWriter, hne.symm]
    | _ => rfl
  · simp [setReq, Conn.setWriter, hne]
  · have := h.located r k
    cases k with
    | replying t' =>
      by_cases heq : t' = t
      · simp [At, Conn.setWriter, Place.Listed, heq]
      · simp_all [At, setReq, Conn.setWriter, Place.Listed, Ne.symm heq]
    | _ => simp_all [At, setReq, Conn.setWriter, Place.Listed]
  · simpa [setReq, Conn.setWriter] using hq

theorem Inv.replied (ht : c.writer t = some (.payload r n)) :
    (c.setWriter t none).Inv (update p r .held) := by
  have hk : p r = .replying t := h.eq_of_at ⟨n, ht⟩
  refine h.move h.nodupPending h.nodupProcessing (fun r' hne => ⟨fun k => ?_, rfl, rfl⟩)
    (fun k => ?_) ?_
  · cases k with
    | replying t' => by_cases heq : t' = t <;> simp_all [At, Conn.setWriter, hne.symm]
    | _ => rfl
  · have := h.located r k
    cases k with
    | replying t' => by_cases heq : t' = t <;> simp_all [At, Conn.setWriter, Ne.symm]
    | _ => simp_all [At, Conn.setWriter, Place.Listed]
  · have := h.request r
    simp_all [RequestOk, Conn.setWriter]

theorem Inv.takeInitReply : (c.takeInitReply q).Inv p := by
  unfold Conn.takeInitReply
  split_ifs
  all_goals exact { h with }

end

theorem requestOk_wakeInit (h : RequestOk q x k) : RequestOk q (wakeInit x) k := by
  cases x with
  | waitInit b => cases k <;> simp_all [RequestOk, wakeInit, Awaited]
  | _ => exact h

theorem Inv.wakeUpInit (h : c.Inv p) : c.wakeUpInit.Inv p :=
  { h with request := fun r => requestOk_wakeInit (h.request r) }

theorem Inv.finish (h : c.Inv p) (hr : p r = .held) (hasync : q.isAsync = (c.req r).isAsync)
    (hq : Answered q) : (c.finish r q).Inv (update p r .finished) := by
  have hat : ∀ k, ¬ c.At r k := fun k hk => by
    have := (h.located r k).mp hk
    simp_all [Place.Listed]
  have hold := h.request r
  rw [hr] at hold
  -- The request is finished in both cases; `x` is what becomes of its sender.
  have hset : ∀ x, RequestOk { q with state := .finished } x .finished →
      ((c.setReq r { q with state := .finished }).setSender r x).Inv
        (update p r .finished) := fun x hx => by
    refine h.move h.nodupPending h.nodupProcessing (fun r' hne => ⟨fun k => ?_, ?_, ?_⟩)
      (fun k => ?_) ?_
    · cases k <;> rfl
    · simp [setReq, Conn.setSender, hne]
    · simp [setReq, Conn.setSender, hne]
    · have := hat k
      cases k <;> simp_all [At, setReq, Conn.setSender, Place.Listed]
    · simpa [setReq, Conn.setSender] using hx
  obtain ⟨-, -, ⟨hx, ha, -⟩ | ⟨hx, ha⟩⟩ := hold
  · have hnobody := hset .nobody ⟨rfl, hq, .inl ⟨rfl, hasync.trans ha⟩⟩
    have hsame : (c.setReq r { q with state := .finished }).setSender r .nobody =
        c.setReq r { q with state := .finished } := by
      simp [Conn.setSender, setReq, ← hx]
    rw [hsame] at hnobody
    simpa [Conn.finish, fuseProcessInitReply, hasync, ha] using hnobody.takeInitReply.wakeUpInit
  · have hwoken := hset (.waiting false) ⟨rfl, hq, .inr ⟨hasync.trans ha, .inl rfl⟩⟩
    simpa [Conn.finish, hasync, ha, wakeUp, setReq, hx] using hwoken

structure Ended (c c' : Conn) : Prop where
  pending : c'.pending = c.pending
  processing : c'.processing = c.processing
  reader : c'.reader = c.reader
  writer : c'.writer = c.writer
  connected : c'.connected = c.connected
  isAsync : ∀ r, (c'.req r).isAsync = (c.req r).isAsync
  waitInit : ∀ r, c'.sender r = .waitInit true → c.sender r = .waitInit true

theorem Ended.refl (c : Conn) : Ended c c := ⟨rfl, rfl, rfl, rfl, rfl, fun _ => rfl, fun _ => id⟩

theorem Ended.trans (h : Ended a b) (h' : Ended b d) : Ended a d :=
  ⟨h'.pending.trans h.pending, h'.processing.trans h.processing, h'.reader.trans h.reader,
    h'.writer.trans h.writer, h'.connected.trans h.connected,
    fun r => (h'.isAsync r).trans (h.isAsync r), fun r hr => h.waitInit r (h'.waitInit r hr)⟩

theorem ended_setReq (hasync : q.isAsync = (c.req r).isAsync) : Ended c (c.setReq r q) := by
  refine { Ended.refl c with isAsync := fun r' => ?_ }
  by_cases heq : r' = r <;> simp_all [setReq]

theorem ended_wakeUp : Ended c (c.wakeUp r) := by
  unfold wakeUp
  split
  · refine { Ended.refl c with waitInit := fun r' => ?_ }
    by_cases heq : r' = r <;> simp [setSender, heq]
  · exact Ended.refl c

theorem wakeInit_ne : wakeInit x ≠ .waitInit true := by
  cases x <;> simp [wakeInit]

theorem ended_fuseProcessInitReply : Ended c (c.fuseProcessInitReply q) := by
  have htake : Ended c (c.takeInitReply q) := by
    unfold takeInitReply
    split_ifs
    all_goals exact { Ended.refl c with }
  refine htake.trans ?_
  exact { Ended.refl _ with waitInit := fun r hr => absurd hr wakeInit_ne }

theorem ended_finish (hasync : q.isAsync = (c.req r).isAsync) : Ended c (c.finish r q) := by
  unfold finish
  dsimp only
  have hset : Ended c (c.setReq r { q with state := .finished }) := ended_setReq hasync
  split_ifs
  · exact hset.trans ended_fuseProcessInitReply
  · exact hset.trans ended_wakeUp

theorem Inv.holdAll (h : c.Inv p) (hl : ∀ r ∈ l, p r = .pending ∨ p r = .processing)
    (hp : c'.pending.Nodup) (hs : c'.processing.Nodup) (hat : ∀ r k, c'.At r k ↔ c.At r k ∧ r ∉ l)
    (hreq : c'.req = c.req) (hsender : c'.sender = c.sender) :
    c'.Inv fun r => if r ∈ l then .held else p r := by
  refine ⟨hp, hs, fun r k => ?_, fun r => ?_⟩
  · rw [hat r k, h.located r k]
    by_cases hr : r ∈ l
    · simp only [hr, not_true_eq_false, and_false, if_true, false_iff]
      rintro ⟨rfl, hk⟩
      exact hk
    · simp [hr]
  · have hold := h.request r
    rw [hreq, hsender]
    by_cases hr : r ∈ l
    · obtain hk | hk := hl r hr <;> simp_all [RequestOk]
    · simpa [hr] using hold

theorem Inv.abortAll (h : c.Inv p) (hnodup : l.Nodup) (hl : ∀ r ∈ l, p r = .held) :
    (c.abortAll l).Inv (fun r => if r ∈ l then .finished else p r) ∧ Ended c (c.abortAll l) := by
  induction l generalizing c p with
  | nil => exact ⟨by simpa [abortAll] using h, Ended.refl c⟩
  | cons r rs ih =>
    obtain ⟨hr, hnodup⟩ := nodup_cons.mp hnodup
    let q := { c.req r with out := { (c.req r).out with error := -enotconn } }
    have hend : (c.finish r q).Inv (update p r .finished) :=
      h.finish (hl r (by simp)) rfl (.inl rfl)
    have hrest : ∀ r' ∈ rs, update p r .finished r' = .held := fun r' hmem => by
      have hne : r' ≠ r := fun heq => hr (heq ▸ hmem)
      simpa [hne] using hl r' (by simp [hmem])
    obtain ⟨hinv, hended⟩ := ih hend hnodup hrest
    have hfirst : Ended c (c.finish r q) := ended_finish rfl
    refine ⟨?_, hfirst.trans hended⟩
    have hplace : (fun r' => if r' ∈ r :: rs then Place.finished else p r') =
        fun r' => if r' ∈ rs then Place.finished else update p r .finished r' := by
      funext r'
      by_cases heq : r' = r
      · simp [heq]
      · simp [heq]
    rw [hplace]
    exact hinv

theorem Inv.abortList (h : c.Inv p) (hl : l = c.pending ∨ l = c.processing) (hp : c'.pending.Nodup)
    (hs : c'.processing.Nodup) (hat : ∀ r k, c'.At r k ↔ c.At r k ∧ r ∉ l) (hreq : c'.req = c.req)
    (hsender : c'.sender = c.sender) :
    (c'.abortAll l).Inv (fun r => if r ∈ l then .finished else p r) ∧ Ended c' (c'.abortAll l) := by
  have hplace : ∀ r ∈ l, p r = .pending ∨ p r = .processing := fun r hr => by
    obtain rfl | rfl := hl
    · exact .inl (h.eq_of_at (k := .pending) hr)
    · exact .inr (h.eq_of_at (k := .processing) hr)
  have hnodup : l.Nodup := by
    obtain rfl | rfl := hl
    · exact h.nodupPending
    · exact h.nodupProcessing
  have hhold := h.holdAll hplace hp hs hat hreq hsender
  obtain ⟨hinv, hended⟩ := hhold.abortAll hnodup fun r hr => by simp [hr]
  refine ⟨?_, hended⟩
  convert hinv using 2 with r
  split_ifs <;> rfl

/-- After an abort the lists are empty, and nobody sleeps until `FUSE_INIT` is answered. -/
structure Aborted (c c' : Conn) : Prop where
  pending : c'.pending = []
  processing : c'.processing = []
  reader : c'.reader = c.reader
  connected : c'.connected = false
  isAsync : ∀ r, (c'.req r).isAsync = (c.req r).isAsync
  waitInit : ∀ r, c'.sender r ≠ .waitInit true

theorem Inv.fuseConnAbort (h : c.Inv p) (hheld : ∀ r, p r ≠ .held) :
    ∃ p', c.fuseConnAbort.Inv p' ∧ (∀ r, p' r ≠ .held) ∧ Aborted c c.fuseConnAbort := by
  let c₁ : Conn := { c with connected := false, pending := [] }
  obtain ⟨h₁, e₁⟩ : (c₁.abortAll c.pending).Inv _ ∧ Ended c₁ (c₁.abortAll c.pending) := by
    refine h.abortList (.inl rfl) nodup_nil h.nodupProcessing (fun r k => ?_) rfl rfl
    have hk : r ∈ c.pending → p r = .pending := fun hr => h.eq_of_at (k := .pending) hr
    have := h.located r k
    cases k <;> simp_all [At, c₁] <;> grind
  let c₂ : Conn := { c₁.abortAll c.pending with processing := [] }
  obtain ⟨h₂, e₂⟩ : (c₂.abortAll (c₁.abortAll c.pending).processing).Inv _ ∧
      Ended c₂ (c₂.abortAll (c₁.abortAll c.pending).processing) := by
    refine h₁.abortList (.inr rfl) h₁.nodupPending nodup_nil (fun r k => ?_) rfl rfl
    have hk := fun hr => h₁.eq_of_at (r := r) (k := .processing) hr
    have := h₁.located r k
    cases k <;> simp_all [At, c₂] <;> grind
  refine ⟨_, h₂.wakeUpInit, fun r => ?_, ?_⟩
  · split_ifs
    · simp
    · simp
    · exact hheld r
  · exact ⟨e₂.pending.trans e₁.pending, e₂.processing, e₂.reader.trans e₁.reader,
      e₂.connected.trans e₁.connected, fun r => (e₂.isAsync r).trans (e₁.isAsync r),
      fun r => wakeInit_ne⟩

end Conn

end Six.Fuse
