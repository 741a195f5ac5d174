import Mathlib.Data.UInt

/-! Index types of fixed arrays.  One instance for each size makes a literal the same term in every
module. -/

namespace Six.Lib

instance neZero2 : NeZero 2 := ⟨by decide⟩
instance neZero8 : NeZero 8 := ⟨by decide⟩
instance neZero16 : NeZero 16 := ⟨by decide⟩
instance neZero32 : NeZero 32 := ⟨by decide⟩

theorem word_lt (i : Fin 32) : i.val / 4 < 8 := by omega

end Six.Lib
