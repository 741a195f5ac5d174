import Six.Lib.Index

/-! Division of 64-bit integers in the C library (`library/libc/divdi3.c`): the divisor is shifted
up and taken away bit by bit on the way down.  The loops take fuel, and 65 iterations are always
enough. -/

namespace Six.Libc

/-- The first loop: the divisor is shifted up to the dividend, or until its top bit is set. -/
def shiftUp (num : UInt64) : Nat → UInt64 → UInt64 → Option (UInt64 × UInt64)
  | 0, _, _ => none
  | fuel + 1, den, qbit =>
    if 0 ≤ den.toInt64 ∧ den < num then shiftUp num fuel (den <<< 1) (qbit <<< 1)
    else some (den, qbit)

/-- The second loop, with the quotient and the remainder that it leaves. -/
def shiftDown : Nat → UInt64 → UInt64 → UInt64 → UInt64 → Option (UInt64 × UInt64)
  | 0, _, _, _, _ => none
  | fuel + 1, num, quot, den, qbit =>
    if qbit = 0 then some (quot, num)
    else if den ≤ num then shiftDown fuel (num - den) (quot + qbit) (den >>> 1) (qbit >>> 1)
    else shiftDown fuel num quot (den >>> 1) (qbit >>> 1)

def udivmod64 (fuel : Nat) (num den : UInt64) : Option (UInt64 × UInt64) :=
  if den = 0 then some (0, 0)
  else do
    let (den, qbit) ← shiftUp num fuel den 1
    shiftDown fuel num 0 den qbit

def magnitude (a : Int64) : UInt64 := if a < 0 then (-a).toUInt64 else a.toUInt64

def divdi3 (fuel : Nat) (a b : Int64) : Option Int64 := do
  let (q, _) ← udivmod64 fuel (magnitude a) (magnitude b)
  return if (a < 0) ≠ (b < 0) then -q.toInt64 else q.toInt64

def moddi3 (fuel : Nat) (a b : Int64) : Option Int64 := do
  let (_, rem) ← udivmod64 fuel (magnitude a) (magnitude b)
  return if a < 0 then -rem.toInt64 else rem.toInt64

variable {num den quot qbit : UInt64} {fuel d k : Nat}

theorem toInt64_nonneg : 0 ≤ den.toInt64 ↔ den.toNat < 2 ^ 63 := by
  rw [Int64.le_iff_toInt_le, ← UInt64.toNat_toBitVec]
  change (0 : Int) ≤ den.toBitVec.toInt ↔ _
  rw [BitVec.toInt_eq_toNat_cond]
  have := den.toBitVec.isLt
  split <;> omega

/-- The divisor `d` and the bit of the quotient, both shifted up by `k`. -/
structure Shifted (d k : Nat) (den qbit : UInt64) : Prop where
  den : den.toNat = d * 2 ^ k
  qbit : qbit.toNat = 2 ^ k

theorem Shifted.lt (h : Shifted d k den qbit) : k < 64 :=
  (Nat.pow_lt_pow_iff_right Nat.one_lt_two).mp (h.qbit ▸ qbit.toNat_lt)

theorem Shifted.up (h : Shifted d k den qbit) (hd : 0 < d) (hden : den.toNat < 2 ^ 63) :
    Shifted d (k + 1) (den <<< 1) (qbit <<< 1) := by
  have hdouble : ∀ x : UInt64, x.toNat < 2 ^ 63 → (x <<< 1).toNat = x.toNat * 2 := by
    intro x hx
    rw [UInt64.toNat_shiftLeft, Nat.shiftLeft_eq]
    exact Nat.mod_eq_of_lt (by simpa using by omega)
  have hqbit : qbit.toNat ≤ den.toNat := by
    rw [h.den, h.qbit]
    exact Nat.le_mul_of_pos_left _ hd
  constructor
  · rw [hdouble _ hden, h.den, Nat.pow_succ, Nat.mul_assoc]
  · rw [hdouble _ (by omega), h.qbit, Nat.pow_succ]

theorem Shifted.down (h : Shifted d (k + 1) den qbit) : Shifted d k (den >>> 1) (qbit >>> 1) := by
  constructor
  · rw [UInt64.toNat_shiftRight, h.den, Nat.pow_succ, ← Nat.mul_assoc]
    exact Nat.mul_div_cancel _ (by decide)
  · rw [UInt64.toNat_shiftRight, h.qbit, Nat.pow_succ]
    exact Nat.mul_div_cancel _ (by decide)

theorem shiftUp_eq (num : UInt64) (hd : 0 < d) (h : Shifted d k den qbit)
    (hfuel : 65 ≤ k + fuel) :
    ∃ j den' qbit', shiftUp num fuel den qbit = some (den', qbit') ∧ Shifted d j den' qbit' ∧
      num.toNat < 2 * den'.toNat := by
  have hk := h.lt
  induction fuel generalizing den qbit k with
  | zero => omega
  | succ fuel ih =>
    simp only [shiftUp, toInt64_nonneg, UInt64.lt_iff_toNat_lt]
    split_ifs with hmore
    · have hup := h.up hd hmore.1
      exact ih hup (by omega) hup.lt
    · refine ⟨k, den, qbit, rfl, h, ?_⟩
      have hpos : 0 < den.toNat := h.den ▸ Nat.mul_pos hd (Nat.two_pow_pos k)
      have hnum := num.toNat_lt
      omega

section

variable (h : Shifted d k den qbit) (hlt : num.toNat < 2 * den.toNat)
  (hsum : quot.toNat * d + num.toNat < 2 ^ 64) (hd : 0 < d)
include h hlt hsum hd

/-- The body of the second loop takes the shifted divisor away where it fits. -/
theorem shiftDown_succ (fuel : Nat) :
    ∃ num' quot', shiftDown (fuel + 1) num quot den qbit =
        shiftDown fuel num' quot' (den >>> 1) (qbit >>> 1) ∧
      quot'.toNat * d + num'.toNat = quot.toNat * d + num.toNat ∧ num'.toNat < den.toNat := by
  have hqbit : qbit ≠ 0 := by
    rintro rfl
    exact (Nat.two_pow_pos k).ne h.qbit
  simp only [shiftDown, if_neg hqbit, UInt64.le_iff_toNat_le]
  split_ifs with hfits
  · refine ⟨_, _, rfl, ?_⟩
    have hmul : (quot.toNat + qbit.toNat) * d = quot.toNat * d + den.toNat := by
      rw [Nat.add_mul, h.qbit, h.den, Nat.mul_comm (2 ^ k)]
    have hle := Nat.le_mul_of_pos_right (quot.toNat + qbit.toNat) hd
    rw [UInt64.toNat_sub_of_le _ _ hfits, UInt64.toNat_add, Nat.mod_eq_of_lt (by omega), hmul]
    omega
  · exact ⟨num, quot, rfl, rfl, by omega⟩

theorem shiftDown_eq (fuel : Nat) :
    ∃ q r, shiftDown (fuel + k + 2) num quot den qbit = some (q, r) ∧
      quot.toNat * d + num.toNat = q.toNat * d + r.toNat ∧ r.toNat < d := by
  obtain ⟨num', quot', hstep, hkept, hnum⟩ := shiftDown_succ h hlt hsum hd (fuel + k + 1)
  rw [hstep, ← hkept]
  induction k generalizing num quot den qbit num' quot' with
  | zero =>
    have hzero : qbit >>> 1 = 0 := by
      rw [← UInt64.toNat_inj, UInt64.toNat_shiftRight, h.qbit]
      rfl
    rw [hzero]
    exact ⟨quot', num', rfl, rfl, by simpa [h.den] using hnum⟩
  | succ k ih =>
    have hdown := h.down
    have hlt' : num'.toNat < 2 * (den >>> 1).toNat := by
      rw [hdown.den]
      rw [h.den, Nat.pow_succ, ← Nat.mul_assoc] at hnum
      omega
    obtain ⟨num'', quot'', hstep', hkept', hnum'⟩ :=
      shiftDown_succ hdown hlt' (hkept ▸ hsum) hd (fuel + k + 1)
    rw [show fuel + (k + 1) + 1 = fuel + k + 1 + 1 by omega, hstep', ← hkept']
    exact ih hdown hlt' (hkept ▸ hsum) _ _ hstep' hkept' hnum'

end

theorem udivmod64_eq (num : UInt64) (hden : den ≠ 0) (hfuel : 65 ≤ fuel) :
    udivmod64 fuel num den = some (num / den, num % den) := by
  have hd : 0 < den.toNat := Nat.pos_of_ne_zero fun h => hden (UInt64.toNat_inj.mp h)
  have hfirst : Shifted den.toNat 0 den 1 := ⟨(Nat.mul_one _).symm, rfl⟩
  obtain ⟨j, top, bit, hup, hshifted, hlt⟩ := shiftUp_eq num hd hfirst (by omega : 65 ≤ 0 + fuel)
  have hsum : (0 : UInt64).toNat * den.toNat + num.toNat = num.toNat := by simp
  have hj := hshifted.lt
  obtain ⟨extra, rfl⟩ : ∃ extra, fuel = extra + j + 2 := ⟨fuel - j - 2, by omega⟩
  obtain ⟨q, r, hdown, hnum, hr⟩ := shiftDown_eq hshifted hlt (hsum ▸ num.toNat_lt) hd extra
  rw [hsum] at hnum
  have hq : q = num / den := by
    rw [← UInt64.toNat_inj, UInt64.toNat_div, hnum, Nat.mul_comm, Nat.mul_add_div hd,
      Nat.div_eq_of_lt hr, Nat.add_zero]
  have hrem : r = num % den := by
    rw [← UInt64.toNat_inj, UInt64.toNat_mod, hnum, Nat.mul_comm, Nat.mul_add_mod,
      Nat.mod_eq_of_lt hr]
  simp [udivmod64, hden, hup, hdown, hq, hrem]

theorem signed_eq (hb : b ≠ 0) (hfuel : 65 ≤ fuel) :
    divdi3 fuel a b = some (a / b) ∧ moddi3 fuel a b = some (a % b) := by
  have hne : magnitude b ≠ 0 := by
    unfold magnitude
    split_ifs
    · exact fun h => hb (by simpa using congrArg (-·.toInt64) h)
    · exact fun h => hb (congrArg UInt64.toInt64 h)
  simp only [divdi3, moddi3, udivmod64_eq _ hne hfuel, Option.bind_eq_bind, Option.bind_some,
    Option.pure_def, Option.some_inj]
  simp only [← Int64.toBitVec_inj, Int64.toBitVec_div, Int64.toBitVec_mod, BitVec.sdiv_eq,
    BitVec.srem_eq, BitVec.msb_eq_toInt, magnitude, Int64.lt_iff_toInt_lt]
  by_cases ha : a.toInt < 0 <;> by_cases hb : b.toInt < 0 <;> simp [ha, hb]

theorem division_correct (num den : UInt64) (hden : den ≠ 0) (a b : Int64) (hb : b ≠ 0)
    (hfuel : 65 ≤ fuel) :
    (∃ q r, udivmod64 fuel num den = some (q, r) ∧
      num.toNat = q.toNat * den.toNat + r.toNat ∧ r < den) ∧
    divdi3 fuel a b = some (.ofInt (a.toInt.tdiv b.toInt)) ∧
    moddi3 fuel a b = some (.ofInt (a.toInt.tmod b.toInt)) := by
  obtain ⟨hdiv, hmod⟩ := signed_eq hb hfuel (a := a)
  refine ⟨⟨_, _, udivmod64_eq num hden hfuel, ?_, ?_⟩, ?_, ?_⟩
  · rw [UInt64.toNat_div, UInt64.toNat_mod, Nat.mul_comm, Nat.div_add_mod]
  · exact UInt64.mod_lt _ (UInt64.pos_iff_ne_zero.mpr hden)
  · rw [hdiv, Option.some_inj, ← Int64.toInt_inj, Int64.toInt_div, Int64.toInt_ofInt]
  · rw [hmod, ← Int64.toInt_mod, Int64.ofInt_toInt]

/-- The one quotient that does not fit is the least number again. -/
theorem least_divided_by_minus_one : divdi3 65 Int64.minValue (-1) = some Int64.minValue :=
  (division_correct 1 1 (by decide) Int64.minValue (-1) (by decide) (Nat.le_refl _)).2.1

end Six.Libc
