import Mathlib.Data.List.Induction
import Mathlib.Data.List.Count

/-! Logs that speak about many objects.  Each event belongs to at most one object, and the events of
one object drive an automaton: `follow` is the state in which the log leaves the object. -/

namespace Six.Lib

open List

variable {ε κ σ : Type*} [DecidableEq κ] {key : ε → Option κ} {next : σ → ε → σ} {log : List ε}
  {k : κ} {init : σ}

section Follow

variable (key : ε → Option κ) (next : σ → ε → σ) (init : σ)

/-- The state of object `k` after the log. -/
def follow (log : List ε) (k : κ) : σ :=
  log.foldl (fun l e => if key e = some k then next l e else l) init

@[simp] theorem follow_nil (k : κ) : follow key next init [] k = init := rfl

@[simp] theorem follow_cons (e : ε) (log : List ε) (k : κ) :
    follow key next init (e :: log) k =
      follow key next (if key e = some k then next init e else init) log k := rfl

@[simp] theorem follow_append (log es : List ε) (k : κ) :
    follow key next init (log ++ es) k = follow key next (follow key next init log k) es k :=
  foldl_append

variable {key next init}

theorem follow_of_forall_ne (h : ∀ e ∈ log, key e ≠ some k) :
    follow key next init log k = init := by
  induction log with
  | nil => rfl
  | cons e log ih =>
    rw [follow_cons, if_neg (h e mem_cons_self)]
    exact ih fun e' he => h e' (mem_cons_of_mem _ he)

theorem follow_flatMap {ids : List κ} (nodup : ids.Nodup)
    (own : ∀ i, ∀ e ∈ block i, key e = some i) : follow key next init (ids.flatMap block) k =
      if k ∈ ids then follow key next init (block k) k else init := by
  induction ids with
  | nil => rfl
  | cons i ids ih =>
    obtain ⟨hi, hids⟩ := nodup_cons.mp nodup
    rw [flatMap_cons, follow_append]
    by_cases hik : i = k
    · subst hik
      rw [if_pos mem_cons_self, follow_of_forall_ne]
      intro e he
      obtain ⟨j, hj, hej⟩ := mem_flatMap.mp he
      rw [own j e hej]
      rintro heq
      exact hi (Option.some.inj heq ▸ hj)
    · have skip : follow key next init (block i) k = init := by
        apply follow_of_forall_ne
        intro e he
        rw [own i e he]
        exact fun heq => hik (Option.some.inj heq)
      rw [skip, ih hids]
      simp [Ne.symm hik]

end Follow

/-- What one event of an object brings about, and every later event keeps, holds after a log with
that event. -/
theorem follow_of_mem {B : σ → Prop} (he : e ∈ log) (hkey : key e = some k)
    (birth : ∀ l, B (next l e)) (keep : ∀ l e', B l → B (next l e')) :
    B (follow key next init log k) := by
  induction log using reverseRecOn with
  | nil => cases he
  | append_singleton log e' ih =>
    rw [follow_append, follow_cons, follow_nil]
    rcases mem_append.mp he with hlog | hlast
    · split
      · exact keep _ _ (ih hlog)
      · exact ih hlog
    · obtain rfl : e = e' := mem_singleton.mp hlast
      rw [if_pos hkey]
      exact birth _

/-- What every event keeps between the state of an object and the number of its events so far that
`p` counts holds after the whole log. -/
theorem follow_countP {p : ε → Bool} {R : σ → Nat → Prop} (log : List ε) (k : κ) (start : R init 0)
    (step : ∀ l e c, R l c → R (next l e) (c + if p e then 1 else 0)) :
    R (follow key next init log k) (log.countP fun e => key e = some k ∧ p e) := by
  induction log using reverseRecOn with
  | nil => exact start
  | append_singleton log e ih =>
    rw [follow_append, follow_cons, follow_nil, countP_append, countP_singleton]
    by_cases hkey : key e = some k
    · have := step _ e _ ih
      simpa only [hkey, if_true, true_and, decide_eq_true_eq] using this
    · simpa only [hkey, if_false, false_and, decide_false, Bool.false_eq_true, Nat.add_zero]
        using ih

end Six.Lib
