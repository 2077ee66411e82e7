import Mathlib.Data.Nat.Notation
import Mathlib.Tactic.Basic

/-!
# Bits of a word

Setting and clearing the bits of a mask.
-/

namespace Bits

variable {w : ℕ} {x a m : BitVec w}

theorem or_and_self (x m : BitVec w) : (x ||| m) &&& m = m := by
  ext i hi
  rw [BitVec.getElem_and, BitVec.getElem_or]
  cases x[i] <;> cases m[i] <;> rfl

theorem and_not_and_self (x m : BitVec w) : (x &&& ~~~m) &&& m = 0#w := by
  ext i hi
  rw [BitVec.getElem_and, BitVec.getElem_and, BitVec.getElem_not, BitVec.getElem_zero]
  cases x[i] <;> cases m[i] <;> rfl

/-- Other bits are set. -/
theorem or_and_of_disjoint (h : a &&& m = 0#w) (x : BitVec w) : (x ||| a) &&& m = x &&& m := by
  ext i hi
  have hbit := congrArg (fun y => y[i]) h
  rw [BitVec.getElem_and, BitVec.getElem_zero] at hbit
  rw [BitVec.getElem_and, BitVec.getElem_or, BitVec.getElem_and]
  revert hbit
  cases x[i] <;> cases m[i] <;> cases a[i] <;> decide

/-- Other bits are cleared. -/
theorem and_not_and_of_disjoint (h : a &&& m = 0#w) (x : BitVec w) :
    (x &&& ~~~a) &&& m = x &&& m := by
  ext i hi
  have hbit := congrArg (fun y => y[i]) h
  rw [BitVec.getElem_and, BitVec.getElem_zero] at hbit
  rw [BitVec.getElem_and, BitVec.getElem_and, BitVec.getElem_not, BitVec.getElem_and]
  revert hbit
  cases x[i] <;> cases m[i] <;> cases a[i] <;> decide

/-- A single bit. -/
theorem and_bit (x : BitVec w) (i : ℕ) :
    x &&& BitVec.twoPow w i = 0#w ∨ x &&& BitVec.twoPow w i = BitVec.twoPow w i := by
  rw [BitVec.and_twoPow]
  cases x.getLsbD i with
  | false => exact Or.inl rfl
  | true => exact Or.inr rfl

/-- The words below a bound, one by one. -/
theorem forall_lt {P : BitVec w → Prop} {k : ℕ} (h : ∀ n < k, P (BitVec.ofNat w n))
    (x : BitVec w) (hx : x.toNat < k) : P x := by
  have hP := h x.toNat hx
  rwa [BitVec.ofNat_toNat, BitVec.setWidth_eq] at hP

end Bits
