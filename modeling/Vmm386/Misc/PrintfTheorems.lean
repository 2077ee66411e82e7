import Vmm386.Misc.PrintfConversions

/-!
# What `kvsprintf` makes of the conversions
-/

namespace Vmm386.Misc.Printf

/-! ## The layout of numbers -/

/-- The zeros that the precision loop puts before `n` digits. -/
def extraZeros (n : ℕ) (precision : ℤ) : ℕ :=
  if precision ≠ 0 ∧ (n : ℤ) < precision then n else 0

/-- A number as `do_number` lays it out: the prefix first, and all padding behind the sign. -/
def layout (flags : Flags) (width : ℤ) (sign pre : List UChar) (zeros : ℕ) (digits : List UChar) :
    List UChar :=
  let pad := (width - (sign.length + pre.length + zeros + digits.length : ℕ)).toNat
  if flags.minus then
    pre ++ sign ++ (List.replicate zeros (ch '0') ++ digits ++ List.replicate pad (ch ' '))
  else
    pre ++ sign ++ List.replicate pad (if flags.zero then ch '0' else ch ' ') ++
      (List.replicate zeros (ch '0') ++ digits)

theorem tmpbuf_reverse (digits : List UChar) {radix : ULong} (hr : 2 ≤ radix.toNat)
    (hzero : digits.getD 0 0 = ch '0') (arg : ULong) (precision : ℤ) :
    (tmpbuf digits radix arg precision).reverse =
      List.replicate (extraZeros (digitsField digits radix.toNat arg.toNat).length precision)
          (ch '0') ++ digitsField digits radix.toNat arg.toNat := by
  have hlen : (digitsField digits radix.toNat arg.toNat).length =
      (numberDigits digits radix arg).length := by
    rw [numberDigits_eq digits hr, digitsField, List.length_reverse]
  unfold tmpbuf extraZeros
  dsimp only
  rw [hlen, hzero]
  split_ifs
  · rw [List.reverse_append, List.reverse_replicate, numberDigits_eq digits hr]
    rfl
  · rw [numberDigits_eq digits hr]
    rfl

/-- `do_number`, laid out. -/
theorem doNumber_eq (sp : Spec) (pre : List UChar) (signed : Bool) (digits : List UChar)
    {radix : ULong} (hr : 2 ≤ radix.toNat) (hzero : digits.getD 0 0 = ch '0') (arg : ULong)
    {sign D : List UChar} {v : ULong} {z : ℕ} (hsign : signOf sp.flags signed arg = (sign, v))
    (hD : digitsField digits radix.toNat v.toNat = D) (hz : extraZeros D.length sp.precision = z) :
    doNumber sp pre signed digits radix arg =
      if 40 < z + D.length then none else some (layout sp.flags sp.width sign pre z D) := by
  have hrev := tmpbuf_reverse digits hr hzero v sp.precision
  rw [hD, hz] at hrev
  have hlen : (tmpbuf digits radix v sp.precision).length = z + D.length := by
    rw [← List.length_reverse, hrev, List.length_append, List.length_replicate]
  unfold doNumber layout
  rw [hsign]
  dsimp only
  rw [hrev, hlen]
  by_cases hover : 40 < z + D.length
  · rw [if_pos hover, if_pos hover]
  rw [if_neg hover, if_neg hover]
  have hsum : pre.length + sign.length + (z + D.length) =
      sign.length + pre.length + z + D.length := by omega
  rw [hsum]
  by_cases hpad : sp.width > (sign.length + pre.length + z + D.length : ℕ)
  · rw [if_pos hpad]
    split_ifs <;> simp only [List.append_assoc]
  · rw [if_neg hpad, Int.toNat_eq_zero.mpr (by omega)]
    split_ifs <;> simp

/-- The signs. -/
def IsSign (sign : List UChar) : Prop :=
  sign = [] ∨ sign = [ch '-'] ∨ sign = [ch '+'] ∨ sign = [ch ' ']

/-- Where `do_number` lays `n` digits out as is meant: with `z` additional zeros, where `z'` are
meant. -/
structure LaidOut (flags : Flags) (width : ℤ) (sign pre : List UChar) (n z z' : ℕ) : Prop where
  order : sign = [] ∨ pre = []
  zeros : z = z' ∨ flags.zero ∧ ¬flags.minus ∧ sign.length + pre.length + z + n ≤ width ∧
    sign.length + pre.length + z' + n ≤ width
  spaces : flags.minus ∨ flags.zero ∨ width ≤ sign.length + pre.length + z + n ∨
    pre = [] ∧ (sign = [] ∨ sign = [ch ' '])

/-- A prefix and a sign that can be exchanged. -/
theorem order_of_append_eq {sign pre X Y : List UChar} (hsign : IsSign sign)
    (hpre : pre = [] ∨ pre.head? = some (ch '0'))
    (h : pre ++ (sign ++ X) = sign ++ (pre ++ Y)) : sign = [] ∨ pre = [] := by
  rcases hpre with hpre | hpre
  · exact .inr hpre
  · obtain ⟨l, rfl⟩ : ∃ l, pre = ch '0' :: l := by
      cases pre with
      | nil => exact absurd hpre (by decide)
      | cons x l =>
        rw [List.head?_cons, Option.some_inj] at hpre
        exact ⟨l, by rw [hpre]⟩
    rcases hsign with rfl | rfl | rfl | rfl
    · exact .inl rfl
    all_goals exact absurd (Option.some_inj.mp (congrArg List.head? h)) (by decide)

/-- The characters that are not spaces. -/
def inked (l : List UChar) : ℕ := l.countP (· ≠ ch ' ')

@[simp] theorem inked_append (l l' : List UChar) : inked (l ++ l') = inked l + inked l' :=
  List.countP_append

@[simp] theorem inked_spaces (n : ℕ) : inked (List.replicate n (ch ' ')) = 0 := by
  simp [inked, List.countP_replicate]

@[simp] theorem inked_zeros (n : ℕ) : inked (List.replicate n (ch '0')) = n := by
  have hne : ch '0' ≠ ch ' ' := by decide
  simp [inked, List.countP_replicate, hne]

theorem swap_of_order {sign pre : List UChar} (h : sign = [] ∨ pre = []) :
    pre ++ sign = sign ++ pre := by
  rcases h with rfl | rfl <;> simp

section

variable {flags : Flags} {width : ℤ} {sign pre digits : List UChar} {z z' pad pad' : ℕ}

/-- Left-justified numbers. -/
theorem minus_iff (hsign : IsSign sign) (hpre : pre = [] ∨ pre.head? = some (ch '0'))
    (hpad : pad = (width - (sign.length + pre.length + z + digits.length : ℕ)).toNat)
    (hpad' : pad' = width.toNat - (sign.length + pre.length + (z' + digits.length)))
    (hminus : flags.minus) :
    pre ++ sign ++ (List.replicate z (ch '0') ++ digits ++ List.replicate pad (ch ' ')) =
        sign ++ pre ++ (List.replicate z' (ch '0') ++ digits) ++ List.replicate pad' (ch ' ') ↔
      LaidOut flags width sign pre digits.length z z' := by
  constructor
  · intro h
    have hinked := congrArg inked h
    simp only [inked_append, inked_spaces, inked_zeros] at hinked
    simp only [List.append_assoc] at h
    exact ⟨order_of_append_eq hsign hpre h, .inl (by omega), .inl hminus⟩
  · intro h
    have hz : z = z' := h.zeros.resolve_right fun hc => hc.2.1 hminus
    have heq : pad = pad' := by omega
    rw [hz, heq, swap_of_order h.order]
    simp only [List.append_assoc]

/-- Right-justified numbers, padded with zeros. -/
theorem zero_iff (hsign : IsSign sign) (hpre : pre = [] ∨ pre.head? = some (ch '0'))
    (hpad : pad = (width - (sign.length + pre.length + z + digits.length : ℕ)).toNat)
    (hpad' : pad' = width.toNat - (sign.length + pre.length + (z' + digits.length)))
    (hminus : ¬flags.minus) (hzero : flags.zero) :
    pre ++ sign ++ List.replicate pad (ch '0') ++ (List.replicate z (ch '0') ++ digits) =
        sign ++ pre ++ List.replicate pad' (ch '0') ++ (List.replicate z' (ch '0') ++ digits) ↔
      LaidOut flags width sign pre digits.length z z' := by
  have hiff : pad + z = pad' + z' ↔ z = z' ∨ flags.zero ∧ ¬flags.minus ∧
      sign.length + pre.length + z + digits.length ≤ width ∧
      sign.length + pre.length + z' + digits.length ≤ width := by
    rw [and_iff_right hzero, and_iff_right hminus]
    omega
  constructor
  · intro h
    have hlen := congrArg List.length h
    simp only [List.length_append, List.length_replicate] at hlen
    simp only [List.append_assoc] at h
    exact ⟨order_of_append_eq hsign hpre h, hiff.mp (by omega), .inr (.inl hzero)⟩
  · intro h
    have hsum := hiff.mpr h.zeros
    rw [← List.append_assoc, ← List.append_assoc, List.append_assoc (pre ++ sign),
      List.append_assoc (sign ++ pre), List.replicate_append_replicate,
      List.replicate_append_replicate, hsum, swap_of_order h.order]

/-- Right-justified numbers, padded with spaces. -/
theorem spaces_iff (hsign : IsSign sign) (hpre : pre = [] ∨ pre.head? = some (ch '0'))
    (hpad : pad = (width - (sign.length + pre.length + z + digits.length : ℕ)).toNat)
    (hpad' : pad' = width.toNat - (sign.length + pre.length + (z' + digits.length)))
    (hminus : ¬flags.minus) (hzero : ¬flags.zero) :
    pre ++ sign ++ List.replicate pad (ch ' ') ++ (List.replicate z (ch '0') ++ digits) =
        List.replicate pad' (ch ' ') ++ sign ++ pre ++ (List.replicate z' (ch '0') ++ digits) ↔
      LaidOut flags width sign pre digits.length z z' := by
  constructor
  · intro h
    have hinked := congrArg inked h
    simp only [inked_append, inked_spaces, inked_zeros] at hinked
    have hz : z = z' := by omega
    have heq : pad = pad' := by omega
    subst hz heq
    rw [List.append_left_inj] at h
    by_cases hnone : pad = 0
    · subst hnone
      rw [List.replicate_zero, List.append_nil, List.nil_append] at h
      have horder := order_of_append_eq (X := []) (Y := []) hsign hpre (by simpa using h)
      exact ⟨horder, .inl rfl, .inr (.inr (.inl (by omega)))⟩
    · -- the field begins with a space
      obtain ⟨n, hn⟩ := Nat.exists_eq_succ_of_ne_zero hnone
      rw [hn, List.replicate_succ] at h
      have hempty : pre = [] := by
        refine hpre.resolve_right fun hhead => ?_
        have hfirst := congrArg List.head? h
        rw [List.append_assoc, List.head?_append_of_ne_nil _ (by rintro rfl; simp at hhead),
          hhead] at hfirst
        exact absurd (Option.some_inj.mp hfirst) (by decide)
      subst hempty
      refine ⟨.inr rfl, .inl rfl, .inr (.inr (.inr ⟨rfl, ?_⟩))⟩
      rcases hsign with rfl | rfl | rfl | rfl
      · exact .inl rfl
      · exact absurd (Option.some_inj.mp (congrArg List.head? h)) (by decide)
      · exact absurd (Option.some_inj.mp (congrArg List.head? h)) (by decide)
      · exact .inr rfl
  · intro h
    have hz : z = z' := h.zeros.resolve_right fun hc => hzero hc.1
    have heq : pad = pad' := by omega
    subst hz heq
    rcases h.spaces with hm | hz | hfull | ⟨rfl, rfl | rfl⟩
    · exact absurd hm hminus
    · exact absurd hz hzero
    · have hnone : pad = 0 := by omega
      rw [hnone, List.replicate_zero, List.append_nil, List.nil_append, swap_of_order h.order]
    · simp
    · rw [List.nil_append, List.append_nil, List.singleton_append, ← List.replicate_succ,
        ← List.replicate_succ']

/-- **The layout of numbers.** -/
theorem layout_eq_iff {least : ℕ} (hsign : IsSign sign)
    (hpre : pre = [] ∨ pre.head? = some (ch '0')) :
    layout flags width sign pre z digits = numberField flags width least sign pre digits ↔
      LaidOut flags width sign pre digits.length z (least - digits.length) := by
  unfold layout numberField
  dsimp only
  rw [List.length_append, List.length_replicate]
  by_cases hminus : flags.minus
  · rw [if_pos hminus, if_pos hminus]
    exact minus_iff hsign hpre rfl rfl hminus
  · rw [if_neg hminus, if_neg hminus]
    by_cases hzero : flags.zero
    · rw [if_pos hzero, if_pos hzero]
      exact zero_iff hsign hpre rfl rfl hminus hzero
    · rw [if_neg hzero, if_neg hzero]
      exact spaces_iff hsign hpre rfl rfl hminus hzero

end

/-! ## Numbers -/

/-- A style whose digits are digits, and whose prefix begins with a zero. -/
structure NumberStyle.Proper (st : NumberStyle) : Prop where
  radix : 2 ≤ st.radix.toNat
  zero : st.digits.getD 0 0 = ch '0'
  dash : ch '-' ∉ st.digits
  pre : st.pre = [] ∨ st.pre.head? = some (ch '0')
  dash_pre : ch '-' ∉ st.pre

theorem Conv.style_proper {conv : Conv} {st : NumberStyle} (h : conv.style = some st) :
    st.Proper := by
  cases conv <;> cases h <;> constructor <;> decide

/-- The sign of a number, if its conversion has one. -/
def NumberStyle.sign (st : NumberStyle) (sp : Spec) (arg : ULong) : List UChar :=
  if st.signed then signField sp.flags (argValue sp.flags.short st.signed arg) else []

/-- The digits of a number. -/
def NumberStyle.digitsOf (st : NumberStyle) (sp : Spec) (arg : ULong) : List UChar :=
  digitsField st.digits st.radix.toNat (argValue sp.flags.short st.signed arg).natAbs

/-- Where `kvsprintf` puts out a number as is meant: it is not a negative `short int`, its digits
fit into `tmpbuf`, and they are laid out as is meant. -/
structure NumberStyle.Good (st : NumberStyle) (sp : Spec) (limit : Option ℕ) (arg : ULong) :
    Prop where
  nonneg : ¬(sp.flags.short ∧ st.signed ∧ (arg.setWidth 16 : UShort).msb)
  fits : extraZeros (st.digitsOf sp arg).length sp.precision + (st.digitsOf sp arg).length ≤ 40
  laidOut : LaidOut sp.flags sp.width (st.sign sp arg) (if sp.flags.hash then st.pre else [])
    (st.digitsOf sp arg).length (extraZeros (st.digitsOf sp arg).length sp.precision)
    (limit.getD 0 - (st.digitsOf sp arg).length)

theorem signField_isSign (flags : Flags) (v : ℤ) : IsSign (signField flags v) := by
  unfold signField IsSign
  split_ifs <;> simp

theorem fetch_of_not_short {sp : Spec} (h : ¬sp.flags.short) (arg : ULong) :
    fetch sp arg = arg := by
  unfold fetch
  rw [if_neg h, ite_self]

theorem fetch_of_short {sp : Spec} (h : sp.flags.short) (hlong : ¬sp.flags.long) (arg : ULong) :
    fetch sp arg = (arg.setWidth 16).setWidth 32 := by
  unfold fetch
  rw [if_neg hlong, if_pos h]

/-- The sign and the magnitude of a word. -/
theorem signOf_word (flags : Flags) (arg : ULong) :
    signOf flags true arg = (signField flags arg.toInt, BitVec.ofNat 32 arg.toInt.natAbs) := by
  unfold signOf signField
  rw [if_pos rfl]
  by_cases hneg : arg.toInt < 0
  · have habs : (0 : ULong) - arg = BitVec.ofNat 32 arg.toInt.natAbs := by
      apply BitVec.eq_of_toNat_eq
      rw [BitVec.toNat_sub, BitVec.toNat_ofNat]
      rw [BitVec.toInt_eq_toNat_cond] at hneg ⊢
      have hlt := arg.isLt
      split_ifs at hneg ⊢ <;> simp <;> omega
    rw [if_pos hneg, if_pos hneg, habs]
  · have habs : arg = BitVec.ofNat 32 arg.toInt.natAbs := by
      apply BitVec.eq_of_toNat_eq
      rw [BitVec.toNat_ofNat]
      rw [BitVec.toInt_eq_toNat_cond] at hneg ⊢
      have hlt := arg.isLt
      split_ifs at hneg ⊢ <;> omega
    rw [if_neg hneg, if_neg hneg, ← habs]
    split_ifs <;> rfl

/-- `kvsprintf` finds the sign and the magnitude of a number that is not a negative `short int`. -/
theorem signOf_fetch {sp : Spec} {signed : Bool} {arg : ULong}
    (hsize : ¬(sp.flags.short ∧ sp.flags.long))
    (h : ¬(sp.flags.short ∧ signed ∧ (arg.setWidth 16 : UShort).msb)) :
    signOf sp.flags signed (fetch sp arg) =
      (if signed then signField sp.flags (argValue sp.flags.short signed arg) else [],
        BitVec.ofNat 32 (argValue sp.flags.short signed arg).natAbs) := by
  by_cases hshort : sp.flags.short
  · have hlong : ¬sp.flags.long := fun hl => hsize ⟨hshort, hl⟩
    have hwide : ((arg.setWidth 16 : UShort).setWidth 32).toNat = (arg.setWidth 16).toNat :=
      BitVec.toNat_setWidth_of_le (by decide)
    have hlt := (arg.setWidth 16 : UShort).isLt
    rw [fetch_of_short hshort hlong]
    by_cases hsigned : signed
    · have hmsb : (arg.setWidth 16 : UShort).msb = false :=
        Bool.eq_false_of_not_eq_true fun hm => h ⟨hshort, hsigned, hm⟩
      have hvalue : argValue sp.flags.short signed arg =
          ((arg.setWidth 16 : UShort).setWidth 32 : ULong).toInt := by
        rw [argValue, if_pos hshort, if_pos hsigned, BitVec.toInt_eq_toNat_of_msb hmsb,
          BitVec.toInt_eq_toNat_of_lt (by omega), hwide]
      rw [hsigned] at hvalue ⊢
      rw [signOf_word, hvalue, if_pos rfl]
    · rw [Bool.not_eq_true] at hsigned
      subst hsigned
      have hvalue : argValue sp.flags.short false arg = ((arg.setWidth 16 : UShort).toNat : ℤ) := by
        rw [argValue, if_pos hshort, if_neg Bool.false_ne_true]
      rw [hvalue, Int.natAbs_natCast, ← hwide, BitVec.ofNat_toNat, BitVec.setWidth_eq]
      rfl
  · rw [fetch_of_not_short hshort]
    by_cases hsigned : signed
    · have hvalue : argValue sp.flags.short signed arg = arg.toInt := by
        rw [argValue, if_neg hshort, if_pos hsigned]
      rw [hsigned] at hvalue ⊢
      rw [signOf_word, hvalue, if_pos rfl]
    · rw [Bool.not_eq_true] at hsigned
      subst hsigned
      have hvalue : argValue sp.flags.short false arg = (arg.toNat : ℤ) := by
        rw [argValue, if_neg hshort, if_neg Bool.false_ne_true]
      rw [hvalue, Int.natAbs_natCast, BitVec.ofNat_toNat, BitVec.setWidth_eq]
      rfl

/-- The magnitude of an argument is a word. -/
theorem natAbs_argValue_lt (short signed : Bool) (arg : ULong) :
    (argValue short signed arg).natAbs < 2 ^ 32 := by
  have hlt := arg.isLt
  have hlt' := (arg.setWidth 16 : UShort).isLt
  unfold argValue
  split_ifs
  · have hle := BitVec.toInt_lt (x := (arg.setWidth 16 : UShort))
    have hge := BitVec.le_toInt (arg.setWidth 16 : UShort)
    omega
  · omega
  · have hle := BitVec.toInt_lt (x := arg)
    have hge := BitVec.le_toInt arg
    omega
  · omega

/-- The dash of a negative number that was taken for a positive one is missing. -/
theorem dash_not_mem_layout {flags : Flags} {width : ℤ} {sign pre digits : List UChar} {z : ℕ}
    (hsign : ch '-' ∉ sign) (hpre : ch '-' ∉ pre) (hdigits : ch '-' ∉ digits) :
    ch '-' ∉ layout flags width sign pre z digits := by
  have hzeros : ∀ n, ch '-' ∉ List.replicate n (ch '0') := fun n h =>
    absurd (List.eq_of_mem_replicate h) (by decide)
  have hspaces : ∀ n, ch '-' ∉ List.replicate n (ch ' ') := fun n h =>
    absurd (List.eq_of_mem_replicate h) (by decide)
  have hpad : ∀ n, ch '-' ∉ List.replicate n (if flags.zero then ch '0' else ch ' ') := by
    intro n
    split_ifs
    · exact hzeros n
    · exact hspaces n
  unfold layout
  dsimp only
  split_ifs <;> simp only [List.mem_append, not_or]
  · exact ⟨⟨hpre, hsign⟩, ⟨hzeros _, hdigits⟩, hspaces _⟩
  · exact ⟨⟨⟨hpre, hsign⟩, hzeros _⟩, hzeros _, hdigits⟩
  · exact ⟨⟨⟨hpre, hsign⟩, hspaces _⟩, hzeros _, hdigits⟩

theorem dash_mem_numberField (flags : Flags) (width : ℤ) (least : ℕ) (pre digits : List UChar) :
    ch '-' ∈ numberField flags width least [ch '-'] pre digits := by
  unfold numberField
  split_ifs <;> simp

theorem dash_not_mem_digitsField {digits : List UChar} (h : ch '-' ∉ digits) (radix n : ℕ) :
    ch '-' ∉ digitsField digits radix n := by
  intro hmem
  rw [digitsField, List.mem_reverse, List.mem_map] at hmem
  obtain ⟨d, -, hd⟩ := hmem
  rw [List.getD_eq_getElem?_getD] at hd
  cases hget : digits[d]? with
  | none =>
    rw [hget] at hd
    exact absurd hd (by decide)
  | some x =>
    rw [hget, Option.getD_some] at hd
    exact h (hd ▸ List.mem_of_getElem? hget)

/-- A negative `short int` is put out as a positive number. -/
theorem number_short {st : NumberStyle} (hst : st.Proper) {sp : Spec} (limit : Option ℕ)
    {arg : ULong} (hsize : ¬(sp.flags.short ∧ sp.flags.long))
    (hneg : sp.flags.short ∧ st.signed ∧ (arg.setWidth 16 : UShort).msb) :
    doNumber sp (if sp.flags.hash then st.pre else []) st.signed st.digits st.radix
        (fetch sp arg) ≠ some (st.field sp limit arg) := by
  obtain ⟨hshort, hsigned, hmsb⟩ := hneg
  have hlong : ¬sp.flags.long := fun hl => hsize ⟨hshort, hl⟩
  have hwide : ((arg.setWidth 16 : UShort).setWidth 32 : ULong).toNat = (arg.setWidth 16).toNat :=
    BitVec.toNat_setWidth_of_le (by decide)
  have hlt := (arg.setWidth 16 : UShort).isLt
  have hint : ((arg.setWidth 16 : UShort).setWidth 32 : ULong).toInt =
      (arg.setWidth 16 : UShort).toNat := by
    rw [BitVec.toInt_eq_toNat_of_lt (by omega), hwide]
  have hvalue : argValue sp.flags.short st.signed arg < 0 := by
    rw [argValue, if_pos hshort, if_pos hsigned]
    exact BitVec.toInt_neg_of_msb_true hmsb
  have hdash : ch '-' ∉
      signField sp.flags ((arg.setWidth 16 : UShort).setWidth 32 : ULong).toInt := by
    rw [hint, signField, if_neg (by omega)]
    split_ifs <;> decide
  have hpre : ch '-' ∉ (if sp.flags.hash then st.pre else []) := by
    split_ifs
    · exact hst.dash_pre
    · exact List.not_mem_nil
  have hword := signOf_word sp.flags ((arg.setWidth 16 : UShort).setWidth 32)
  rw [← hsigned] at hword
  rw [fetch_of_short hshort hlong, doNumber_eq sp _ st.signed st.digits hst.radix hst.zero _
    hword rfl rfl]
  intro h
  obtain ⟨-, h⟩ := Option.ite_none_left_eq_some.mp h
  have hmem := dash_mem_numberField sp.flags sp.width (limit.getD 0)
    (if sp.flags.hash then st.pre else []) (st.digitsOf sp arg)
  have hfield : st.field sp limit arg = numberField sp.flags sp.width (limit.getD 0) [ch '-']
      (if sp.flags.hash then st.pre else []) (st.digitsOf sp arg) := by
    rw [NumberStyle.field, if_pos hsigned, signField, if_pos hvalue]
    rfl
  rw [← hfield, ← Option.some_inj.mp h] at hmem
  exact dash_not_mem_layout hdash hpre (dash_not_mem_digitsField hst.dash _ _) hmem

/-- **Numbers.** -/
theorem number_iff {st : NumberStyle} (hst : st.Proper) (sp : Spec) (limit : Option ℕ)
    (arg : ULong) (hsize : ¬(sp.flags.short ∧ sp.flags.long)) :
    doNumber sp (if sp.flags.hash then st.pre else []) st.signed st.digits st.radix
        (fetch sp arg) = some (st.field sp limit arg) ↔ st.Good sp limit arg := by
  have hpre : (if sp.flags.hash then st.pre else []) = [] ∨
      (if sp.flags.hash then st.pre else []).head? = some (ch '0') := by
    split_ifs
    · exact hst.pre
    · exact .inl rfl
  by_cases hneg : sp.flags.short ∧ st.signed ∧ (arg.setWidth 16 : UShort).msb
  · exact iff_of_false (number_short hst limit hsize hneg) fun h => h.nonneg hneg
  · have hsign := signOf_fetch hsize hneg
    have hmag : (BitVec.ofNat 32 (argValue sp.flags.short st.signed arg).natAbs : ULong).toNat =
        (argValue sp.flags.short st.signed arg).natAbs :=
      Nat.mod_eq_of_lt (natAbs_argValue_lt _ _ _)
    have hissign : IsSign (st.sign sp arg) := by
      unfold NumberStyle.sign
      split_ifs
      · exact signField_isSign _ _
      · exact .inl rfl
    rw [doNumber_eq sp _ st.signed st.digits hst.radix hst.zero (fetch sp arg) hsign
      (by rw [hmag]; rfl : _ = st.digitsOf sp arg) rfl]
    by_cases hfits : 40 < extraZeros (st.digitsOf sp arg).length sp.precision +
        (st.digitsOf sp arg).length
    · rw [if_pos hfits]
      exact iff_of_false (fun h => Option.some_ne_none _ h.symm) fun h => absurd h.fits (by omega)
    · rw [if_neg hfits, Option.some_inj]
      refine (layout_eq_iff hissign hpre).trans ⟨fun h => ⟨hneg, by omega, h⟩, fun h => h.laidOut⟩

/-! ## Strings and characters -/

/-- Where `kvsprintf` puts out a string as is meant: whole, and not padded with zeros; or cut,
without a width; or it consists of spaces, and none of them is meant. -/
def TextGood (sp : Spec) (limit : Option ℕ) (str : List UChar) : Prop :=
  cut limit str = str ∧ (sp.flags.minus ∨ ¬sp.flags.zero ∨ sp.width ≤ str.length) ∨
    cut limit str ≠ str ∧ limit ≠ some 0 ∧ sp.width ≤ 0 ∨
    cut limit str ≠ str ∧ limit = some 0 ∧ str.length ≤ sp.width ∧ (∀ c ∈ str, c = ch ' ') ∧
      (sp.flags.minus ∨ ¬sp.flags.zero ∨ sp.width = str.length)

/-- A string that is not cut. -/
theorem doString_whole {sp : Spec} {str : List UChar}
    (h : ¬(0 < sp.precision ∧ sp.precision < str.length)) :
    doString sp str =
      if sp.flags.minus then
        str ++ List.replicate (sp.width.toNat - str.length) (ch ' ')
      else
        List.replicate (sp.width.toNat - str.length) (if sp.flags.zero then ch '0' else ch ' ') ++
          str := by
  unfold doString
  dsimp only
  rw [if_neg h]
  by_cases hw : 0 < sp.width
  · rw [if_pos hw]
    by_cases hfull : sp.width ≤ str.length
    · have hpad : sp.width.toNat - str.length = 0 := by omega
      rw [if_pos hfull, hpad]
      simp
    · have hpad : (sp.width - str.length).toNat = sp.width.toNat - str.length := by omega
      rw [if_neg hfull, hpad]
  · have hpad : sp.width.toNat - str.length = 0 := by omega
    rw [if_neg hw, hpad, Int.toNat_natCast, List.take_length]
    simp

/-- Padding with zeros or with spaces. -/
theorem pad_iff {flags : Flags} {n : ℕ} {l : List UChar} :
    List.replicate n (if flags.zero then ch '0' else ch ' ') ++ l =
        List.replicate n (ch ' ') ++ l ↔ ¬flags.zero ∨ n = 0 := by
  rw [List.append_left_inj]
  by_cases hzero : flags.zero
  · rw [if_pos hzero]
    constructor
    · intro h
      have hinked := congrArg inked h
      rw [inked_zeros, inked_spaces] at hinked
      exact .inr hinked
    · rintro (h | rfl)
      · exact absurd hzero h
      · rfl
  · rw [if_neg hzero]
    exact iff_of_true rfl (.inl hzero)

/-- Only spaces make a field of spaces. -/
theorem blank_iff {sp : Spec} {str : List UChar} (h : str ≠ []) (hprec : sp.precision = 0) :
    doString sp str = textField sp.flags sp.width [] ↔
      str.length ≤ sp.width ∧ (∀ c ∈ str, c = ch ' ') ∧
        (sp.flags.minus ∨ ¬sp.flags.zero ∨ sp.width = str.length) := by
  have hpos := List.length_pos_iff.mpr h
  have hfield : textField sp.flags sp.width [] = List.replicate sp.width.toNat (ch ' ') := by
    unfold textField
    split_ifs <;> simp
  rw [doString_whole (by omega), hfield, List.eq_replicate_iff]
  by_cases hminus : sp.flags.minus
  · rw [if_pos hminus, List.length_append, List.length_replicate]
    constructor
    · rintro ⟨hlen, hall⟩
      exact ⟨by omega, fun c hc => hall c (List.mem_append_left _ hc), .inl hminus⟩
    · rintro ⟨hle, hall, -⟩
      refine ⟨by omega, fun c hc => ?_⟩
      rcases List.mem_append.mp hc with hc | hc
      · exact hall c hc
      · exact List.eq_of_mem_replicate hc
  · rw [if_neg hminus, List.length_append, List.length_replicate]
    constructor
    · rintro ⟨hlen, hall⟩
      refine ⟨by omega, fun c hc => hall c (List.mem_append_right _ hc), .inr ?_⟩
      by_cases hzero : sp.flags.zero
      · -- the padding would be zeros
        refine .inr ?_
        by_contra hne
        rw [if_pos hzero] at hall
        have hmem : ch '0' ∈ List.replicate (sp.width.toNat - str.length) (ch '0') :=
          List.mem_replicate.mpr ⟨by omega, rfl⟩
        exact absurd (hall _ (List.mem_append_left str hmem)) (by decide)
      · exact .inl hzero
    · rintro ⟨hle, hall, hpad⟩
      refine ⟨by omega, fun c hc => ?_⟩
      rcases List.mem_append.mp hc with hc | hc
      · rw [List.mem_replicate] at hc
        rcases hpad with hm | hzero | heq
        · exact absurd hm hminus
        · exact hc.2.trans (if_neg hzero)
        · exact absurd hc.1 (by omega)
      · exact hall c hc

/-- A string that is cut keeps to its field if there is no width. -/
theorem doString_cut {sp : Spec} {str : List UChar} {n : ℕ} (hprec : sp.precision = n)
    (hpos : 0 < n) (hlt : n < str.length) :
    doString sp str = textField sp.flags sp.width (str.take n) ↔ sp.width ≤ 0 := by
  have hcut : 0 < sp.precision ∧ sp.precision < str.length := by omega
  have htake : (str.take n).length = n := List.length_take_of_le (Nat.le_of_lt hlt)
  constructor
  · intro h
    by_contra hw
    have hlen := congrArg List.length h
    rw [length_textField, htake, doString] at hlen
    dsimp only at hlen
    rw [if_pos hcut, if_pos (not_le.mp hw), hprec] at hlen
    split_ifs at hlen
    · omega
    all_goals
      rw [List.length_append, List.length_replicate] at hlen
      omega
  · intro hw
    have hpad : sp.width.toNat - (str.take n).length = 0 := by omega
    unfold doString textField
    dsimp only
    rw [if_pos hcut, if_neg (not_lt.mpr hw), hpad, hprec]
    simp

/-- **Strings.** -/
theorem doString_iff {sp : Spec} {limit : Option ℕ} (str : List UChar)
    (hsome : ∀ n, limit = some n → sp.precision = n) (hnone : limit = none → sp.precision ≤ 0) :
    doString sp str = textField sp.flags sp.width (cut limit str) ↔ TextGood sp limit str := by
  unfold TextGood
  by_cases hcut : cut limit str = str
  · have hwhole : ¬(0 < sp.precision ∧ sp.precision < str.length) := by
      cases hl : limit with
      | none =>
        have hprec := hnone hl
        omega
      | some n =>
        have hprec := hsome n hl
        rw [hl] at hcut
        have hlen := congrArg List.length hcut
        rw [cut, List.length_take] at hlen
        omega
    simp only [hcut, true_and, ne_eq, not_true, false_and, or_false]
    rw [doString_whole hwhole, textField]
    by_cases hminus : sp.flags.minus
    · rw [if_pos hminus, if_pos hminus]
      exact iff_of_true rfl (.inl hminus)
    · rw [if_neg hminus, if_neg hminus, pad_iff, or_iff_right hminus]
      exact or_congr_right (by omega)
  · obtain ⟨n, hl⟩ : ∃ n, limit = some n := by
      cases limit with
      | none => exact absurd rfl hcut
      | some n => exact ⟨n, rfl⟩
    have hprec := hsome n hl
    subst hl
    simp only [hcut, false_and, not_false_eq_true, true_and, ne_eq, false_or, Option.some_inj]
    have hlt : n < str.length := by
      by_contra hge
      exact hcut (List.take_of_length_le (not_lt.mp hge))
    by_cases hzero : n = 0
    · subst hzero
      have hne : str ≠ [] := List.length_pos_iff.mp hlt
      simpa [cut] using blank_iff hne hprec
    · simpa [cut, hzero] using doString_cut hprec (Nat.pos_of_ne_zero hzero) hlt

/-- **Characters.** -/
theorem doChar_iff (sp : Spec) (c : UChar) (arg : ULong) (b : Out) :
    doChar sp c arg b = some (b.put (textField sp.flags sp.width [arg.setWidth 8])) ↔
      sp.width ≤ 1 ∨ sp.flags.minus ∧ arg.setWidth 8 = c := by
  unfold doChar
  by_cases hw : 1 < sp.width
  · have hpad : sp.width.toNat - ([arg.setWidth 8] : List UChar).length =
        (sp.width - 1).toNat := by
      rw [List.length_singleton]
      omega
    rw [if_pos hw, or_iff_right (not_le.mpr hw), textField, hpad]
    by_cases hminus : sp.flags.minus
    · rw [if_pos hminus, and_iff_right hminus]
      simp [Out.put, hminus, eq_comm (b := c)]
    · -- nothing is appended
      rw [if_neg hminus]
      refine iff_of_false (fun h => ?_) fun h => hminus h.1
      obtain ⟨hne, h⟩ := Option.ite_none_left_eq_some.mp h
      have hlen := congrArg (fun o : Out => o.text.length) (Option.some_inj.mp h)
      simp [Out.put, hminus] at hlen
      have hpos := List.length_pos_iff.mpr hne
      omega
  · have hpad : sp.width.toNat - ([arg.setWidth 8] : List UChar).length = 0 := by
      rw [List.length_singleton]
      omega
    rw [if_neg hw, textField, hpad]
    refine iff_of_true ?_ (.inl (not_lt.mp hw))
    split_ifs <;> simp

end Vmm386.Misc.Printf
