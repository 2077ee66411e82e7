import Mathlib.Data.Nat.Digits.Lemmas
import Vmm386.Misc.Printf

/-!
# The digits that `kvsprintf` collects
-/

namespace Vmm386.Misc.Printf

/-- The digits of a number, the last one first. Zero has one. -/
def digitList (radix n : ℕ) : List ℕ := if n = 0 then [0] else Nat.digits radix n

/-- The loop takes the digits of its argument. -/
theorem digitLoop_eq (digits : List UChar) {radix : ULong} (hr : 2 ≤ radix.toNat) {fuel : ℕ}
    {arg : ULong} (hfuel : arg.toNat < radix.toNat ^ fuel) :
    digitLoop digits radix fuel arg =
      (Nat.digits radix.toNat arg.toNat).map fun d => digits.getD d 0 := by
  induction fuel generalizing arg with
  | zero =>
    have hzero : arg.toNat = 0 := by
      rw [pow_zero] at hfuel
      omega
    rw [hzero, Nat.digits_zero]
    rfl
  | succ fuel ih =>
    rw [digitLoop]
    by_cases harg : 0 < arg
    · have hpos : 0 < arg.toNat := harg
      have hdiv : (arg / radix).toNat < radix.toNat ^ fuel := by
        rw [BitVec.toNat_udiv]
        exact Nat.div_lt_of_lt_mul (by rwa [pow_succ'] at hfuel)
      rw [if_pos harg, ih hdiv, Nat.digits_def' (by omega) hpos, BitVec.toNat_udiv,
        BitVec.toNat_umod]
      rfl
    · have hzero : arg.toNat = 0 := Nat.eq_zero_of_not_pos harg
      rw [if_neg harg, hzero, Nat.digits_zero]
      rfl

theorem numberDigits_eq (digits : List UChar) {radix : ULong} (hr : 2 ≤ radix.toNat)
    (arg : ULong) :
    numberDigits digits radix arg =
      (digitList radix.toNat arg.toNat).map fun d => digits.getD d 0 := by
  have hfuel : arg.toNat < radix.toNat ^ 32 := arg.isLt.trans_le (Nat.pow_le_pow_left hr 32)
  unfold numberDigits digitList
  by_cases harg : arg = 0
  · have hzero : arg.toNat = 0 := congrArg BitVec.toNat harg
    rw [if_pos harg, if_pos hzero]
    rfl
  · have hpos : arg.toNat ≠ 0 := fun h => harg (BitVec.eq_of_toNat_eq h)
    rw [if_neg harg, if_neg hpos, digitLoop_eq digits hr hfuel]

theorem length_numberDigits (digits : List UChar) {radix : ULong} (hr : 2 ≤ radix.toNat)
    (arg : ULong) :
    (numberDigits digits radix arg).length = (digitList radix.toNat arg.toNat).length := by
  rw [numberDigits_eq digits hr, List.length_map]

theorem length_digitList_pos (radix n : ℕ) : 1 ≤ (digitList radix n).length := by
  unfold digitList
  split_ifs with h
  · exact le_rfl
  · exact Nat.one_le_iff_ne_zero.mpr fun h0 =>
      h (Nat.digits_eq_nil_iff_eq_zero.mp (List.length_eq_zero_iff.mp h0))

theorem length_digitList_le_iff {radix : ℕ} (hr : 2 ≤ radix) {n k : ℕ} (hk : 1 ≤ k) :
    (digitList radix n).length ≤ k ↔ n < radix ^ k := by
  unfold digitList
  split_ifs with h
  · subst h
    exact ⟨fun _ => by positivity, fun _ => hk⟩
  · exact Nat.digits_length_le_iff hr n

/-- **The buffer for the digits.** The digits of a number fit into the 40 bytes of `tmpbuf`,
unless there are more than twenty, which takes the radix 2, and the precision asks for still
more: the loop meant to make up the difference doubles their number. -/
theorem tmpbuf_fits_iff (flags : Flags) (signed : Bool) (digits : List UChar) {radix : ULong}
    (hr : radix = 2 ∨ radix = 8 ∨ radix = 10 ∨ radix = 16) (arg : ULong) (precision : ℤ) :
    (tmpbuf digits radix (signOf flags signed arg).2 precision).length ≤ 40 ↔
      ¬(radix = 2 ∧ 2 ^ 20 ≤ (signOf flags signed arg).2.toNat ∧
        ((digitList 2 (signOf flags signed arg).2.toNat).length : ℤ) < precision) := by
  generalize (signOf flags signed arg).2 = n
  have hr2 : 2 ≤ radix.toNat := by
    rcases hr with rfl | rfl | rfl | rfl <;> decide
  have hlen := length_numberDigits digits hr2 n
  have htwenty := length_digitList_le_iff hr2 (n := n.toNat) (by decide : 1 ≤ 20)
  unfold tmpbuf
  dsimp only
  by_cases htwo : radix = 2
  · subst htwo
    have hradix : BitVec.toNat (2 : ULong) = 2 := rfl
    rw [hradix] at hlen htwenty
    rw [hlen]
    simp only [true_and]
    split_ifs with hprec
    · rw [List.length_append, List.length_replicate, hlen]
      omega
    · have hle : ¬((digitList 2 n.toNat).length : ℤ) < precision :=
        fun h => hprec ⟨by omega, h⟩
      rw [hlen]
      have hword : (digitList 2 n.toNat).length ≤ 32 :=
        (length_digitList_le_iff le_rfl (by decide)).mpr n.isLt
      have hpos := length_digitList_pos 2 n.toNat
      omega
  · -- the other radices make eleven digits at most
    have hshort : (digitList radix.toNat n.toNat).length ≤ 20 := by
      refine htwenty.mpr (n.isLt.trans_le ?_)
      rcases hr with rfl | rfl | rfl | rfl
      · exact absurd rfl htwo
      all_goals decide
    refine iff_of_true ?_ fun h => htwo h.1
    split_ifs
    · rw [List.length_append, List.length_replicate, hlen]
      omega
    · omega

theorem tmpbuf_fits_hex : (tmpbuf lowerDigits 16 (signOf {} false 255).2 30).length ≤ 40 :=
  (tmpbuf_fits_iff {} false lowerDigits (.inr (.inr (.inr rfl))) 255 30).mpr (by decide)

/-- 21 binary digits, where 22 are asked for. -/
theorem tmpbuf_binary :
    ¬∀ (flags : Flags) (signed : Bool) (digits : List UChar) (radix arg : ULong) (precision : ℤ),
      radix = 2 ∨ radix = 8 ∨ radix = 10 ∨ radix = 16 →
      (tmpbuf digits radix (signOf flags signed arg).2 precision).length ≤ 40 := by
  intro h
  exact absurd (h {} false lowerDigits 2 0x100000 22 (.inl rfl)) (by decide +kernel)

end Vmm386.Misc.Printf
