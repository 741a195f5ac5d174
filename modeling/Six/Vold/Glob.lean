import Mathlib.Data.List.Infix

/-!
The wildcard patterns of vold (`VolumeManager.cpp`). `globMatch` is the backtracking matcher that
compares a disk's sysfs path with the pattern of a disk source.
-/

namespace Six.Vold

/-- The strings that one character of a pattern stands for. -/
def Stands (p : Char) (w : List Char) : Prop :=
  if p = '*' then True else if p = '?' then w.length = 1 else w = [p]

/-- The language of a pattern: the strings that are cut into what each of its characters stands
for. -/
def Matches : List Char → List Char → Prop
  | [], str => str = []
  | p :: pat, str => ∃ w s, str = w ++ s ∧ Stands p w ∧ Matches pat s

/-- The loop `while (*str) { if (f(str)) return true; str++; } return false`. -/
def anySuffix (f : List Char → Bool) : List Char → Bool
  | [] => false
  | c :: str => f (c :: str) || anySuffix f str

/-- `glob_match`. The strings stand without the NUL that ends them. -/
def globMatch (pat str : List Char) : Bool :=
  match pat with
  | [] => str.isEmpty
  | p :: pat =>
    if p = '*' then
      match _h : pat.dropWhile (· == '*') with
      | [] => true
      | q :: rest => anySuffix (fun str => globMatch (q :: rest) str) str
    else
      match str with
      | [] => false
      | c :: str => if p = '?' then globMatch pat str
        else if p = c then globMatch pat str else false
termination_by pat.length
decreasing_by
  · rw [← _h]
    exact Nat.lt_succ_of_le (List.dropWhile_suffix _).length_le
  all_goals exact Nat.lt_succ_self _

theorem anySuffix_iff {f : List Char → Bool} :
    anySuffix f str = true ↔ ∃ w s, str = w ++ s ∧ s ≠ [] ∧ f s = true := by
  induction str with
  | nil => simp +contextual [anySuffix]
  | cons c str ih =>
    rw [anySuffix, Bool.or_eq_true, ih]
    constructor
    · rintro (h | ⟨w, s, rfl, h⟩)
      · exact ⟨[], _, rfl, by simp, h⟩
      · exact ⟨c :: w, s, rfl, h⟩
    · rintro ⟨_ | ⟨d, w⟩, s, he, h⟩
      · exact .inl (he ▸ h.2)
      · exact .inr ⟨w, s, (List.cons.inj he).2, h⟩

theorem matches_star : Matches ('*' :: pat) str ↔ ∃ w s, str = w ++ s ∧ Matches pat s := by
  simp [Matches, Stands]

/-- Any other character takes one character of the string. -/
theorem matches_cons (hp : p ≠ '*') :
    Matches (p :: pat) str ↔ ∃ c s, str = c :: s ∧ (p = '?' ∨ p = c) ∧ Matches pat s := by
  have hone : ∀ w, Stands p w ↔ ∃ c, w = [c] ∧ (p = '?' ∨ p = c) := by
    by_cases hq : p = '?' <;> simp [Stands, hp, hq, List.length_eq_one_iff]
  simp only [Matches, hone]
  constructor
  · rintro ⟨_, s, rfl, ⟨c, rfl, hc⟩, h⟩
    exact ⟨c, s, rfl, hc, h⟩
  · rintro ⟨c, s, rfl, hc, h⟩
    exact ⟨[c], s, rfl, ⟨c, rfl, hc⟩, h⟩

/-- A run of stars stands for what one star does. -/
theorem matches_stars (pat : List Char) :
    Matches ('*' :: pat) str ↔ Matches ('*' :: pat.dropWhile (· == '*')) str := by
  induction pat generalizing str with
  | nil => rfl
  | cons p pat ih =>
    by_cases hp : p = '*'
    · subst hp
      rw [List.dropWhile_cons_of_pos (by simp), ← ih, matches_star]
      constructor
      · rintro ⟨w, _, rfl, h⟩
        obtain ⟨v, s, rfl, hs⟩ := matches_star.mp h
        exact matches_star.mpr ⟨w ++ v, s, (List.append_assoc w v s).symm, hs⟩
      · exact fun h => ⟨[], str, rfl, h⟩
    · rw [List.dropWhile_cons_of_neg (by simpa using hp)]

/-- The matcher returns, for every pattern and string, and accepts the pattern's language. -/
theorem globMatch_iff (pat str : List Char) : globMatch pat str = true ↔ Matches pat str := by
  fun_induction globMatch pat str with
  | case1 str => exact List.isEmpty_iff
  | case2 str pat h =>
    rw [matches_stars, h, matches_star]
    exact ⟨fun _ => ⟨str, [], by simp, rfl⟩, fun _ => rfl⟩
  | case3 str pat q rest h ih =>
    have hq : q ≠ '*' := by
      have := List.head?_dropWhile_not (· == '*') pat
      simpa [h] using this
    -- the rest of the pattern asks for a character, so the loop may leave out the empty suffix
    have hne : ∀ s, s ≠ [] ∧ Matches (q :: rest) s ↔ Matches (q :: rest) s := by
      intro s
      rw [matches_cons hq]
      grind
    rw [matches_stars, h, matches_star, anySuffix_iff]
    simp only [ih, hne]
  | case4 pat p hp => simp [matches_cons hp]
  | case5 pat c str hp ih => simp [matches_cons hp, ih]
  | case6 pat c str hp hq ih => simp [matches_cons hp, ih]
  | case7 p pat hp c str hq hc => simp [matches_cons hp, hq, hc]

end Six.Vold
