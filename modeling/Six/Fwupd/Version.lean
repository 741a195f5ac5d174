import Mathlib.Data.Set.Basic
import Six.Lib.Index

/-! `compare_versions` of `applications/fwupd/fwupdmgr.c`, with `strcmp` of `library/libc/strcmp.c`.
A string is the list of its characters, which are signed.  A string that has ended counts as zeros
in the comparison of numbers, and as smaller than any character in that of texts. -/

namespace Six.Fwupd

variable {a b : CString}

abbrev CString := List Int8

def strcmp : CString → CString → Int
  | [], [] => 0
  | [], _ :: _ => -1
  | _ :: _, [] => 1
  | c :: s, d :: t => if c = d then strcmp s t else c.toInt - d.toInt

def numeral (c : Int8) : Bool := 48 ≤ c.toInt && c.toInt ≤ 57

/-- `va = va * 10 + (*pa - '0')` while there are digits, in a `long` of 32 bits. -/
def readNumber : CString → Int → Int × CString
  | [], v => (v, [])
  | c :: s, v =>
    if numeral c then readNumber s ((v * 10 + (c.toInt - 48)).bmod (2 ^ 32)) else (v, c :: s)

def skipDot (s : CString) : CString := if s.head? = some 46 then s.tail else s

def component (s : CString) : Int × CString := ((readNumber s 0).1, skipDot (readNumber s 0).2)

def isText (s : CString) : Bool := s.head?.any (!numeral ·)

theorem readNumber_length (s : CString) (v : Int) : (readNumber s v).2.length ≤ s.length := by
  induction s generalizing v with
  | nil => exact Nat.le_refl _
  | cons c s ih =>
    rw [readNumber]
    split
    · exact (ih _).trans (Nat.le_succ _)
    · exact Nat.le_refl _

theorem component_length (h : isText (component s).2 = false) :
    (component s).2.length ≤ s.length - 1 := by
  have hskip : ∀ s, (skipDot s).length ≤ s.length := fun s => by
    unfold skipDot
    split <;> simp
  cases s with
  | nil => exact hskip []
  | cons c s =>
    unfold component readNumber at h ⊢
    by_cases hc : numeral c = true
    · rw [if_pos hc]
      exact (hskip _).trans (readNumber_length _ _)
    · rw [if_neg hc, skipDot] at h ⊢
      split at h
      · rename_i hdot
        rw [if_pos hdot]
        exact Nat.le_refl _
      · simp [isText, hc] at h

def compareVersions (a b : CString) : Int :=
  if a = [] ∧ b = [] then 0
  else if (component a).1 ≠ (component b).1 then
    if (component a).1 < (component b).1 then -1 else 1
  else if isText (component a).2 || isText (component b).2 then
    strcmp (component a).2 (component b).2
  else compareVersions (component a).2 (component b).2
termination_by a.length + b.length
decreasing_by
  rename_i hne _ h
  simp only [Bool.or_eq_true, not_or, Bool.not_eq_true] at h
  have ha := component_length h.1
  have hb := component_length h.2
  have hpos : a.length + b.length ≠ 0 := by simpa using hne
  omega

theorem compareVersions_eq (a b : CString) : compareVersions a b =
    if (component a).1 ≠ (component b).1 then
      if (component a).1 < (component b).1 then -1 else 1
    else if isText (component a).2 || isText (component b).2 then
      strcmp (component a).2 (component b).2
    else compareVersions (component a).2 (component b).2 := by
  by_cases h : a = [] ∧ b = []
  · obtain ⟨rfl, rfl⟩ := h
    simp [component, readNumber, skipDot, isText]
  · rw [compareVersions, if_neg h]

theorem compareVersions_text (h : (component a).1 = (component b).1)
    (htext : isText (component a).2 = true ∨ isText (component b).2 = true) :
    compareVersions a b = strcmp (component a).2 (component b).2 := by
  rw [compareVersions_eq, if_neg (not_not_intro h), if_pos (by simpa using htext)]

theorem compareVersions_rest (h : (component a).1 = (component b).1)
    (ha : isText (component a).2 = false) (hb : isText (component b).2 = false) :
    compareVersions a b = compareVersions (component a).2 (component b).2 := by
  rw [compareVersions_eq, if_neg (not_not_intro h), if_neg (by simp [ha, hb])]

theorem strcmp_neg_iff (s t : CString) : strcmp s t < 0 ↔ 0 < strcmp t s := by
  fun_induction strcmp s t with
  | case1 | case2 | case3 => simp [strcmp]
  | case4 s c t ih => simpa [strcmp] using ih
  | case5 c s d t hne =>
    rw [strcmp, if_neg (Ne.symm hne)]
    omega

theorem strcmp_trans (h1 : strcmp s t ≤ 0) (h2 : strcmp t u ≤ 0) : strcmp s u ≤ 0 := by
  induction s generalizing t u with
  | nil => cases u <;> simp [strcmp]
  | cons c s ih =>
    cases t with
    | nil => simp [strcmp] at h1
    | cons d t =>
      cases u with
      | nil => simp [strcmp] at h2
      | cons e u =>
        have inj : ∀ x y : Int8, x = y ↔ x.toInt = y.toInt := fun _ _ => Int8.toInt_inj.symm
        simp only [strcmp, inj] at h1 h2 ⊢
        split_ifs at h1 h2 ⊢ with hcd hde hce hce hde hce hce
        · exact ih h1 h2
        all_goals omega

theorem compareVersions_neg_iff (a b : CString) :
    compareVersions a b < 0 ↔ 0 < compareVersions b a := by
  fun_induction compareVersions a b with
  | case1 a b h => rw [compareVersions, if_pos h.symm]
  | case2 a b _ hne hlt =>
    rw [compareVersions_eq, if_pos hne.symm, if_neg (by omega)]
    simp
  | case3 a b _ hne hlt =>
    rw [compareVersions_eq, if_pos hne.symm, if_pos (by omega)]
    simp
  | case4 a b _ heq htext =>
    rw [compareVersions_text (by omega) (by simpa [or_comm] using htext)]
    exact strcmp_neg_iff _ _
  | case5 a b _ heq htext ih =>
    simp only [Bool.or_eq_true, not_or, Bool.not_eq_true] at htext
    rw [compareVersions_rest (by omega) htext.2 htext.1]
    exact ih

def isLow (s : CString) : Bool := isText s && s.head?.any (·.toInt < 48)

/-- After the same numbers one string has ended, one goes on with a digit and is not larger for it,
and one goes on with a character below `0`. -/
inductive Clash : CString → CString → CString → Prop
  | here {e d t : CString} : (component e).1 = (component d).1 → (component d).1 = (component t).1 →
      (component e).2 = [] → isText (component d).2 = false → (component d).2 ≠ [] →
      isLow (component t).2 = true → 0 ≤ compareVersions [] (component d).2 → Clash e d t
  | later {e d t : CString} : (component e).1 = (component d).1 →
      (component d).1 = (component t).1 → isText (component e).2 = false →
      isText (component d).2 = false → isText (component t).2 = false →
      Clash (component e).2 (component d).2 (component t).2 → Clash e d t

theorem strcmp_text (ha : isText a = false) (ht : isText t = true) :
    (strcmp a t ≤ 0 ↔ a = [] ∨ isLow t = false) ∧ (strcmp t a ≤ 0 ↔ a ≠ [] ∧ isLow t = true) := by
  cases t with
  | nil => simp [isText] at ht
  | cons e t =>
    cases a with
    | nil => simp [strcmp]
    | cons c a =>
      simp only [isText, numeral, isLow, List.head?_cons, Option.any_some, Bool.not_eq_false',
        Bool.and_eq_true, decide_eq_true_eq, Bool.not_eq_true', Bool.and_eq_false_iff,
        decide_eq_false_iff_not, List.cons_ne_nil, false_or, ne_eq, not_false_eq_true,
        true_and] at ha ht ⊢
      have hce : c ≠ e := by
        rintro rfl
        omega
      rw [strcmp, strcmp, if_neg hce, if_neg hce.symm]
      omega

theorem Clash.not_trans (h : Clash e d t) :
    compareVersions d e ≤ 0 ∧ compareVersions e t ≤ 0 ∧ 0 < compareVersions d t := by
  induction h with
  | @here e d t hed hdt he hd hne ht hle =>
    have htext : isText (component t).2 = true := by
      simp only [isLow, Bool.and_eq_true] at ht
      exact ht.1
    have hend : isText (component e).2 = false := by rw [he]; rfl
    rw [compareVersions_rest hed.symm hd hend, compareVersions_text (hed.trans hdt) (.inr htext),
      compareVersions_text hdt (.inr htext), he]
    refine ⟨?_, ?_, not_le.mp fun h => ?_⟩
    · have := compareVersions_neg_iff [] (component d).2
      omega
    · exact (strcmp_text rfl htext).1.mpr (.inl rfl)
    · exact ((strcmp_text hd htext).1.mp h).elim hne (by simp [ht])
  | @later e d t hed hdt he hd ht _ ih =>
    rw [compareVersions_rest hed.symm hd he, compareVersions_rest (hed.trans hdt) he ht,
      compareVersions_rest hdt hd ht]
    exact ih

theorem number_le (h : compareVersions a b ≤ 0) : (component a).1 ≤ (component b).1 := by
  by_contra hlt
  rw [compareVersions_eq, if_pos (by omega), if_neg (by omega)] at h
  omega

theorem compareVersions_trans (hba : ¬ Clash b a c) (hcb : ¬ Clash c b a)
    (hac : ¬ Clash a c b) (h1 : compareVersions a b ≤ 0) (h2 : compareVersions b c ≤ 0) :
    compareVersions a c ≤ 0 := by
  -- the strings get shorter with every round that is not the last
  induction hn : a.length + b.length + c.length using Nat.strong_induction_on
    generalizing a b c with
  | _ n ih =>
    have hab := number_le h1
    have hbc := number_le h2
    by_cases hlt : (component a).1 < (component c).1
    · rw [compareVersions_eq, if_pos (by omega), if_pos hlt]
      decide
    have hnab : (component a).1 = (component b).1 := by omega
    have hnbc : (component b).1 = (component c).1 := by omega
    have hnac := hnab.trans hnbc
    have swap := compareVersions_neg_iff []
    cases hta : isText (component a).2 <;> cases htb : isText (component b).2 <;>
      cases htc : isText (component c).2
    case false.false.false =>
      rw [compareVersions_rest hnab hta htb] at h1
      rw [compareVersions_rest hnbc htb htc] at h2
      rw [compareVersions_rest hnac hta htc]
      have hla := component_length hta
      have hlb := component_length htb
      have hlc := component_length htc
      by_cases hzero : n = 0
      · obtain ⟨ha, hc⟩ : (component a).2 = [] ∧ (component c).2 = [] :=
          ⟨List.eq_nil_of_length_eq_zero (by omega), List.eq_nil_of_length_eq_zero (by omega)⟩
        rw [ha, hc, compareVersions, if_pos ⟨rfl, rfl⟩]
      · exact ih _ (by omega) (fun h => hba (.later hnab.symm hnac htb hta htc h))
          (fun h => hcb (.later hnbc.symm hnab.symm htc htb hta h))
          (fun h => hac (.later hnac hnbc.symm hta htc htb h)) h1 h2 rfl
    case false.false.true =>
      rw [compareVersions_rest hnab hta htb] at h1
      rw [compareVersions_text hnbc (.inr htc), (strcmp_text htb htc).1] at h2
      rw [compareVersions_text hnac (.inr htc), (strcmp_text hta htc).1]
      by_contra hno
      simp only [not_or, Bool.not_eq_false] at hno
      obtain hb := h2.resolve_right (by simp [hno.2])
      rw [hb] at h1
      exact hba (.here hnab.symm hnac hb hta hno.1 hno.2 (by have := swap (component a).2; omega))
    case true.false.false =>
      rw [compareVersions_text hnab (.inl hta), (strcmp_text htb hta).2] at h1
      rw [compareVersions_rest hnbc htb htc] at h2
      rw [compareVersions_text hnac (.inl hta), (strcmp_text htc hta).2]
      refine ⟨fun hc => ?_, h1.2⟩
      rw [hc] at h2
      exact hcb
        (.here hnbc.symm hnab.symm hc htb h1.1 h1.2 (by have := swap (component b).2; omega))
    case false.true.false =>
      rw [compareVersions_text hnab (.inr htb), (strcmp_text hta htb).1] at h1
      rw [compareVersions_text hnbc (.inl htb), (strcmp_text htc htb).2] at h2
      rw [compareVersions_rest hnac hta htc]
      have ha := h1.resolve_right (by simp [h2.2])
      by_contra hlt
      rw [ha] at hlt
      exact hac (.here hnac hnbc.symm ha htc h2.1 h2.2 (by omega))
    -- two texts or more: all three pairs are compared as texts
    all_goals
      rw [compareVersions_text hnab (by simp [hta, htb])] at h1
      rw [compareVersions_text hnbc (by simp [htb, htc])] at h2
      rw [compareVersions_text hnac (by simp [hta, htc])]
      exact strcmp_trans h1 h2

def PreorderOn (S : Set CString) : Prop :=
  (∀ a ∈ S, ∀ b ∈ S, compareVersions a b < 0 ↔ 0 < compareVersions b a) ∧
    ∀ a ∈ S, ∀ b ∈ S, ∀ c ∈ S, compareVersions a b ≤ 0 → compareVersions b c ≤ 0 →
      compareVersions a c ≤ 0

theorem compare_versions_preorder_iff (S : Set CString) :
    PreorderOn S ↔ ∀ e ∈ S, ∀ d ∈ S, ∀ t ∈ S, ¬ Clash e d t := by
  constructor
  · intro h e he d hd t ht hclash
    obtain ⟨hde, het, hdt⟩ := hclash.not_trans
    exact absurd (h.2 d hd e he t ht hde het) (by omega)
  · intro h
    refine ⟨fun a _ b _ => compareVersions_neg_iff a b, fun a ha b hb c hc => ?_⟩
    exact compareVersions_trans (h b hb a ha c hc) (h c hc b hb a ha) (h a ha c hc b hb)

theorem versions_not_preordered : ¬ PreorderOn Set.univ := by
  intro h
  have := h.2 [49, 46, 48] trivial [49] trivial [49, 46, 45] trivial (by decide +kernel)
    (by decide +kernel)
  revert this
  decide +kernel

end Six.Fwupd
