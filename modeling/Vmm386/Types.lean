import Mathlib.Data.Set.Basic
import Mathlib.Tactic

/-!
# Machine integers

`vmm/types.h` assumes 32-bit `int`s and `long`s. Unsigned quantities are bit vectors of
the width the source gives them, so that every sum and product wraps as it does there.
-/

namespace Vmm386

/-- `u_long`, `u_int` and `size_t`. -/
abbrev ULong := BitVec 32

/-- `u_short`. -/
abbrev UShort := BitVec 16

/-- `u_char`. -/
abbrev UChar := BitVec 8

/-- The contents of one 512-byte disk sector. -/
abbrev Sector := Vector UChar 512

/-! ## Instances

The sizes of small arrays are not zero, and `==` on machine integers is equality. -/

instance neZero_two : NeZero 2 := ⟨by decide⟩

instance neZero_four : NeZero 4 := ⟨by decide⟩

instance neZero_nine : NeZero 9 := ⟨by decide⟩

instance neZero_twelve : NeZero 12 := ⟨by decide⟩

instance neZero_sixteen : NeZero 16 := ⟨by decide⟩

instance lawfulBEq_fin16 : LawfulBEq (Fin 16) := inferInstance

instance lawfulBEq_uchar : LawfulBEq UChar := inferInstance

instance lawfulBEq_ulong : LawfulBEq ULong := inferInstance

end Vmm386
