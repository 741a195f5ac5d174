import Mathlib.Data.List.Count
import Mathlib.Data.List.Sort

/-! Half-open ranges of numbers, and when a list of them covers every number below a bound exactly
once: when the ranges that are not empty, in the order of their starts, lie end to end from 0 to
the bound. -/

namespace Six.Lib

open List

structure Range where
  lo : Nat
  hi : Nat
  deriving DecidableEq, Repr

namespace Range

def has (r : Range) (x : Nat) : Bool := r.lo ≤ x && x < r.hi

def Inhabited (r : Range) : Prop := r.lo < r.hi

instance (r : Range) : Decidable r.Inhabited := inferInstanceAs (Decidable (r.lo < r.hi))

/-- The ranges of `l` lie end to end from `a` to `b`. -/
def Abut : Nat → List Range → Nat → Prop
  | a, [], b => a = b
  | a, r :: l, b => r.lo = a ∧ Abut r.hi l b

instance decidableAbut : ∀ (a : Nat) (l : List Range) (b : Nat), Decidable (Abut a l b)
  | a, [], b => inferInstanceAs (Decidable (a = b))
  | a, r :: l, b => @instDecidableAnd (r.lo = a) (Abut r.hi l b) _ (decidableAbut r.hi l b)

variable {r : Range} {l : List Range} {a b x : Nat}

theorem has_iff : r.has x = true ↔ r.lo ≤ x ∧ x < r.hi := by simp [has]

theorem Abut.le_lo (h : Abut a l b) (hne : ∀ r ∈ l, r.Inhabited) (hr : r ∈ l) : a ≤ r.lo := by
  induction l generalizing a with
  | nil => exact absurd hr not_mem_nil
  | cons u l ih =>
    have hu : u.lo < u.hi := hne u mem_cons_self
    have hlo := h.1
    obtain rfl | hr := mem_cons.mp hr
    · omega
    · have hrest := ih h.2 (fun r hr => hne r (mem_cons_of_mem _ hr)) hr
      omega

theorem Abut.countP (h : Abut a l b) (hne : ∀ r ∈ l, r.Inhabited) (hax : a ≤ x) (hxb : x < b) :
    l.countP (·.has x) = 1 := by
  induction l generalizing a with
  | nil =>
    have hends : a = b := h
    omega
  | cons r l ih =>
    have htail : ∀ u ∈ l, u.Inhabited := fun u hu => hne u (mem_cons_of_mem _ hu)
    have hlo := h.1
    by_cases hx : x < r.hi
    · have hrest : l.countP (·.has x) = 0 := by
        refine countP_eq_zero.mpr fun u hu => ?_
        have hle := h.2.le_lo htail hu
        rw [has_iff]
        omega
      rw [countP_cons, hrest, if_pos (has_iff.mpr (by omega))]
    · rw [countP_cons, ih h.2 htail (by omega), if_neg (fun hr => hx (has_iff.mp hr).2)]

theorem abut_of_countP (hsort : l.Pairwise fun r u => r.lo ≤ u.lo) (hab : a ≤ b)
    (hne : ∀ r ∈ l, r.Inhabited) (hin : ∀ r ∈ l, a ≤ r.lo ∧ r.hi ≤ b)
    (h : ∀ x, a ≤ x → x < b → l.countP (·.has x) = 1) : Abut a l b := by
  induction l generalizing a with
  | nil =>
    by_contra hne
    have hlt : a < b := Nat.lt_of_le_of_ne hab hne
    exact absurd (h a (Nat.le_refl a) hlt) (by simp)
  | cons r l ih =>
    obtain ⟨hfirst, hsort⟩ := pairwise_cons.mp hsort
    have hr : r.lo < r.hi := hne r mem_cons_self
    have hra := hin r mem_cons_self
    have htail : ∀ u ∈ l, u.Inhabited := fun u hu => hne u (mem_cons_of_mem _ hu)
    -- some range has `a`, and none starts before the first one
    have hlo : r.lo = a := by
      have hcount := h a (Nat.le_refl a) (by omega)
      obtain ⟨u, hu, hua⟩ := countP_pos_iff.mp (show 0 < (r :: l).countP (·.has a) by omega)
      have hua := (has_iff.mp hua).1
      obtain rfl | hu := mem_cons.mp hu
      · omega
      · have hle := hfirst u hu
        omega
    -- a later range that starts inside the first one would give its start twice
    have hafter : ∀ u ∈ l, r.hi ≤ u.lo := by
      intro u hu
      by_contra hlt
      have hle := hfirst u hu
      have hulen : u.lo < u.hi := htail u hu
      have hcount := h u.lo (by omega) (by omega)
      have hpos : 0 < l.countP (·.has u.lo) :=
        countP_pos_iff.mpr ⟨u, hu, has_iff.mpr ⟨Nat.le_refl _, hulen⟩⟩
      rw [countP_cons, if_pos (has_iff.mpr (by omega))] at hcount
      omega
    refine ⟨hlo, ih hsort hra.2 htail (fun u hu => ⟨hafter u hu, ?_⟩) fun x hx hxb => ?_⟩
    · exact (hin u (mem_cons_of_mem _ hu)).2
    · have hcount := h x (by omega) hxb
      rw [countP_cons, if_neg (fun hx' => absurd (has_iff.mp hx').2 (by omega))] at hcount
      exact hcount

/-- The ranges that hold a number, in the order of their starts. -/
def inOrder (l : List Range) : List Range :=
  (l.filter (·.Inhabited)).insertionSort (·.lo ≤ ·.lo)

theorem inOrder_perm (l : List Range) : (inOrder l).Perm (l.filter (·.Inhabited)) :=
  perm_insertionSort _ _

theorem mem_inOrder : r ∈ inOrder l ↔ r ∈ l ∧ r.Inhabited := by
  rw [(inOrder_perm l).mem_iff, mem_filter, decide_eq_true_eq]

theorem countP_inOrder : (inOrder l).countP (·.has x) = l.countP (·.has x) := by
  rw [(inOrder_perm l).countP_eq, countP_filter]
  refine countP_congr fun r _ => ?_
  rw [Bool.and_eq_true, has_iff, decide_eq_true_eq]
  exact ⟨fun h => h.1, fun h => ⟨h, Nat.lt_of_le_of_lt h.1 h.2⟩⟩

/-- Every number below `b` lies in exactly one of the ranges, when none of them goes past `b`,
exactly when they lie end to end from 0 to `b`. -/
theorem countP_eq_one_iff (hin : ∀ r ∈ l, r.hi ≤ b) :
    (∀ x < b, l.countP (·.has x) = 1) ↔ Abut 0 (inOrder l) b := by
  have hne : ∀ r ∈ inOrder l, r.Inhabited := fun r hr => (mem_inOrder.mp hr).2
  simp only [← countP_inOrder (l := l)]
  constructor
  · intro h
    refine abut_of_countP (pairwise_insertionSort _ _) (Nat.zero_le b) hne (fun r hr => ?_)
      fun x _ hx => h x hx
    exact ⟨Nat.zero_le _, hin r (mem_inOrder.mp hr).1⟩
  · intro h x hx
    exact h.countP hne (Nat.zero_le x) hx

end Range

end Six.Lib
