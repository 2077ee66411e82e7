import Mathlib.Data.BitVec
import Vmm386.Misc.Strtoul

/-!
# What `strtoul` reads
-/

namespace Vmm386.Misc

/-! ## Prefixes of lists -/

/-- The longest prefix of elements that satisfy `p`, by its end. -/
theorem length_takeWhile_eq_iff {α : Type*} {p : α → Bool} {w : List α} {n : ℕ} {c : α}
    (hc : w[n]? = some c) (hp : ¬p c) :
    (w.takeWhile p).length = n ↔ ∀ x ∈ w.take n, p x := by
  induction w generalizing n with
  | nil => simp at hc
  | cons y w ih =>
    cases n with
    | zero =>
      cases hc
      simp [hp]
    | succ n =>
      rw [List.getElem?_cons_succ] at hc
      rw [List.take_succ_cons, List.forall_mem_cons, ← ih hc]
      by_cases hy : p y
      · simp [hy]
      · simp [hy]

theorem takeWhile_eq_take {α : Type*} (p : α → Bool) (w : List α) :
    w.takeWhile p = w.take (w.takeWhile p).length :=
  (List.prefix_iff_eq_take.mp (List.takeWhile_prefix p))

/-- The element behind the longest prefix. -/
theorem getElem?_length_takeWhile {α : Type*} {p : α → Bool} {w : List α}
    (h : w.takeWhile p ≠ w) : ∃ c, w[(w.takeWhile p).length]? = some c ∧ ¬p c := by
  induction w with
  | nil => exact absurd rfl h
  | cons y w ih =>
    by_cases hy : p y
    · rw [List.takeWhile_cons_of_pos hy] at h ⊢
      rw [List.length_cons, List.getElem?_cons_succ]
      exact ih fun heq => h (congrArg (List.cons y) heq)
    · rw [List.takeWhile_cons_of_neg hy]
      exact ⟨y, rfl, hy⟩

/-! ## Digits -/

theorem digit_lt {c : UChar} {d : ℕ} (h : digit c = some d) : d < 16 := by
  unfold digit at h
  split_ifs at h with h₁ h₂ h₃
  · have hle : c.toNat ≤ 0x39 := h₁.2
    cases h
    omega
  · have hle : c.toNat ≤ 0x66 := h₂.2
    cases h
    omega
  · have hle : c.toNat ≤ 0x46 := h₃.2
    cases h
    omega

theorem IsDigit.hex {base : ℕ} {c : UChar} (h : IsDigit base c) : IsDigit 16 c := by
  obtain ⟨d, hd, -⟩ := h
  exact ⟨d, hd, digit_lt hd⟩

theorem isDigit_hex_iff {c : UChar} : IsDigit 16 c ↔ digit c ≠ none := by
  constructor
  · rintro ⟨d, hd, -⟩
    rw [hd]
    exact Option.some_ne_none d
  · intro h
    obtain ⟨d, hd⟩ := Option.ne_none_iff_exists'.mp h
    exact ⟨d, hd, digit_lt hd⟩

@[simp] theorem value_nil (base : ℕ) : value base [] = 0 := rfl

theorem value_cons (base : ℕ) (c : UChar) (ds : List UChar) :
    value base (c :: ds) = (digit c).getD 0 * base ^ ds.length + value base ds := by
  unfold value
  rw [List.reverse_cons, List.map_append, Nat.ofDigits_append]
  simp [mul_comm, add_comm]

/-- The loop adds the hexadecimal digits up, in the base it is given, and stops behind them:
at another character, or behind the terminator. -/
theorem scan_append {u : List UChar} (h : 0 ∉ u) (base : ℕ) (res : ULong) :
    scan (BitVec.ofNat 32 base) res (u ++ [0]) =
      (res * BitVec.ofNat 32 (base ^ (digitsOf 16 u).length) +
          BitVec.ofNat 32 (value base (digitsOf 16 u)),
        if digitsOf 16 u = u then [] else u.drop (digitsOf 16 u).length ++ [0]) := by
  induction u generalizing res with
  | nil => simp [scan, digitsOf]
  | cons c u ih =>
    rw [List.mem_cons, not_or] at h
    rw [List.cons_append, scan, if_neg (Ne.symm h.1)]
    cases hd : digit c with
    | none =>
      have hstop : ¬IsDigit 16 c := fun hc => isDigit_hex_iff.mp hc hd
      have hnil : digitsOf 16 (c :: u) = [] := by simp [digitsOf, hstop]
      rw [hnil]
      simp
    | some d =>
      have hgo : IsDigit 16 c := ⟨d, hd, digit_lt hd⟩
      have hcons : digitsOf 16 (c :: u) = c :: digitsOf 16 u := by simp [digitsOf, hgo]
      dsimp only
      rw [ih h.2, hcons, value_cons, hd, List.length_cons, List.drop_succ_cons]
      simp only [List.cons.injEq, true_and, Option.getD_some, Prod.mk.injEq, and_true,
        BitVec.ofNat_add, BitVec.ofNat_mul, pow_succ]
      ring

/-! ## The base -/

/-- The base that `strtoul` takes, and the length of the prefix it skips: a leading zero
overrules the base that is given. -/
def takenBase (base : ℕ) (s : List UChar) : ℕ × ℕ :=
  if [0x30].isPrefixOf s then askedBase 0 s else askedBase base s

theorem takenBase_zero (t : List UChar) : takenBase 0 t = askedBase 0 t := ite_self _

theorem askedBase_given {base : ℕ} (h : base ≠ 0) (t : List UChar) :
    askedBase base t = (base, 0) := if_pos h

theorem takenBase_nil (base : ℕ) : takenBase base [] = (if base = 0 then 10 else base, 0) := by
  by_cases h : base = 0 <;> simp [takenBase, askedBase, List.isPrefixOf, h]

theorem takenBase_of_ne {c : UChar} (hc : c ≠ 0x30) (base : ℕ) (t : List UChar) :
    takenBase base (c :: t) = (if base = 0 then 10 else base, 0) := by
  have hc' : 48#8 ≠ c := Ne.symm hc
  by_cases h : base = 0 <;> simp [takenBase, askedBase, List.isPrefixOf, h, hc']

theorem takenBase_zero_cons (base : ℕ) (x : UChar) (t : List UChar) :
    takenBase base (0x30 :: x :: t) =
      if x = 0x78 ∨ x = 0x58 then (16, 2) else if x = 0x62 then (2, 2) else (8, 1) := by
  simp [takenBase, askedBase, List.isPrefixOf, eq_comm (b := x)]

theorem selectBase_append {t : List UChar} (h : 0 ∉ t) (base : ULong) :
    selectBase base (t ++ [0]) =
      (BitVec.ofNat 32 (takenBase base.toNat t).1, t.drop (takenBase base.toNat t).2 ++ [0]) := by
  have hbase : (if base = 0 then 10 else base) =
      BitVec.ofNat 32 (if base.toNat = 0 then 10 else base.toNat) := by
    by_cases hb : base = 0
    · subst hb
      rfl
    · have hb' : base.toNat ≠ 0 := fun h0 => hb (BitVec.eq_of_toNat_eq h0)
      rw [if_neg hb, if_neg hb', BitVec.ofNat_toNat, BitVec.setWidth_eq]
  cases t with
  | nil =>
    rw [takenBase_nil, ← hbase]
    rfl
  | cons c t =>
    by_cases hc : c = 0x30
    · subst hc
      cases t with
      | nil => rfl
      | cons x t =>
        rw [takenBase_zero_cons]
        change (if x = 0x78 ∨ x = 0x58 then ((16 : ULong), t ++ [0])
          else if x = 0x62 then (2, t ++ [0]) else (8, x :: (t ++ [0]))) = _
        split_ifs <;> rfl
    · rw [takenBase_of_ne hc, ← hbase, List.cons_append]
      unfold selectBase
      dsimp only
      rw [if_neg hc]
      rfl

/-- The prefix that is skipped is there, and the one asked for is it or nothing. -/
theorem takenBase_le (base : ℕ) (t : List UChar) :
    (askedBase base t).2 ≤ (takenBase base t).2 ∧ (takenBase base t).2 ≤ t.length := by
  constructor
  · by_cases h : base = 0
    · rw [h, takenBase_zero]
    · rw [askedBase_given h]
      exact Nat.zero_le _
  · cases t with
    | nil =>
      rw [takenBase_nil]
      exact Nat.zero_le _
    | cons c t =>
      by_cases hc : c = 0x30
      · subst hc
        cases t with
        | nil => exact le_refl 1
        | cons x t =>
          rw [takenBase_zero_cons, List.length_cons, List.length_cons]
          split_ifs <;> omega
      · rw [takenBase_of_ne hc]
        exact Nat.zero_le _

/-- What `strtoul` goes past in a string without its blanks, less the prefix that stands for
the base asked for. -/
def consumed (base : ℕ) (t : List UChar) : List UChar :=
  (t.take ((takenBase base t).2 + (digitsOf 16 (t.drop (takenBase base t).2)).length)).drop
    (askedBase base t).2

/-- A string without leading blanks that `strtoul` can read. -/
structure Legible (base : ℕ) (t : List UChar) : Prop where
  /-- The hexadecimal digits behind the prefix end before the string does. -/
  ends : digitsOf 16 (t.drop (takenBase base t).2) ≠ t.drop (takenBase base t).2
  digits : ∀ c ∈ consumed base t, IsDigit (askedBase base t).1 c
  /-- The digits have the same value in the base asked for and in the one of the prefix. -/
  value_eq : value (askedBase base t).1 (consumed base t) ≡
    value (takenBase base t).1 (digitsOf 16 (t.drop (takenBase base t).2)) [MOD 2 ^ 32]

theorem dropWhile_isBlank_append (s : List UChar) :
    (s ++ [0]).dropWhile isBlank = s.dropWhile isBlank ++ [0] := by
  induction s with
  | nil => rfl
  | cons c s ih =>
    rw [List.cons_append, List.dropWhile_cons, List.dropWhile_cons]
    split_ifs
    · exact ih
    · rfl

/-- `strtoul` on a string that is not empty. -/
theorem strtoul_eq {s : CString} (h : s.1 ≠ []) (base : ULong) {t u run : List UChar}
    (ht : s.1.dropWhile isBlank = t) (hu : t.drop (takenBase base.toNat t).2 = u)
    (hrun : digitsOf 16 u = run) :
    strtoul s.ptr base =
      (BitVec.ofNat 32 (value (takenBase base.toNat t).1 run),
        some (if run = u then [] else u.drop run.length ++ [0])) := by
  have hhead : s.ptr.head? ≠ some 0 := by
    obtain ⟨c, l, hs⟩ := List.exists_cons_of_ne_nil h
    have hc : c ≠ 0 := fun h0 => s.2 (by rw [hs, h0]; exact List.mem_cons_self)
    rw [CString.ptr, hs, List.cons_append, List.head?_cons]
    exact fun h0 => hc (Option.some_inj.mp h0)
  have hzero : 0 ∉ t := fun h0 => s.2 ((List.dropWhile_suffix isBlank).subset (ht ▸ h0))
  have hzero' : 0 ∉ u := fun h0 => hzero (List.mem_of_mem_drop (hu ▸ h0))
  unfold strtoul
  rw [if_neg hhead, CString.ptr, dropWhile_isBlank_append, ht, selectBase_append hzero, hu]
  dsimp only
  rw [scan_append hzero', hrun]
  simp

theorem drop_number {s : CString} {t : List UChar} {n : ℕ}
    (ht : s.1.dropWhile isBlank = t) (hn : n ≤ t.length) :
    s.ptr.drop (s.1.length - t.length + n) = t.drop n ++ [0] := by
  have hsuffix := List.suffix_iff_eq_drop.mp (ht ▸ List.dropWhile_suffix isBlank : t <:+ s.1)
  have hle := (ht ▸ List.dropWhile_suffix isBlank : t <:+ s.1).length_le
  rw [CString.ptr, List.drop_append_of_le_length (by omega), ← List.drop_drop, ← hsuffix]

/-- The digits of the base asked for end where the hexadecimal digits do. -/
theorem length_digitsOf_iff {base : ℕ} {t : List UChar}
    (hends : digitsOf 16 (t.drop (takenBase base t).2) ≠ t.drop (takenBase base t).2) :
    (askedBase base t).2 + (digitsOf (askedBase base t).1 (t.drop (askedBase base t).2)).length =
        (takenBase base t).2 + (digitsOf 16 (t.drop (takenBase base t).2)).length ↔
      ∀ c ∈ consumed base t, IsDigit (askedBase base t).1 c := by
  obtain ⟨hle, -⟩ := takenBase_le base t
  obtain ⟨c, hc, hstop⟩ := getElem?_length_takeWhile hends
  have hstop' : ¬IsDigit (askedBase base t).1 c := fun h => hstop (decide_eq_true h.hex)
  have hend : (t.drop (askedBase base t).2)[(takenBase base t).2 +
      (digitsOf 16 (t.drop (takenBase base t).2)).length - (askedBase base t).2]? = some c := by
    rw [List.getElem?_drop] at hc ⊢
    rw [← hc]
    exact congrArg (t[·]?) (by unfold digitsOf; omega)
  have hiff := length_takeWhile_eq_iff hend (p := fun c => IsDigit (askedBase base t).1 c)
    (by simpa using hstop')
  rw [consumed, List.drop_take]
  simp only [decide_eq_true_eq] at hiff
  rw [← hiff]
  unfold digitsOf
  omega

/-- The pointer is left behind the digits of the base asked for. -/
theorem pointer_iff {base : ℕ} {t : List UChar} :
    (if digitsOf 16 (t.drop (takenBase base t).2) = t.drop (takenBase base t).2 then []
      else (t.drop (takenBase base t).2).drop
        (digitsOf 16 (t.drop (takenBase base t).2)).length ++ [0]) =
        t.drop ((askedBase base t).2 +
          (digitsOf (askedBase base t).1 (t.drop (askedBase base t).2)).length) ++ [0] ↔
      digitsOf 16 (t.drop (takenBase base t).2) ≠ t.drop (takenBase base t).2 ∧
        ∀ c ∈ consumed base t, IsDigit (askedBase base t).1 c := by
  obtain ⟨hle, hle'⟩ := takenBase_le base t
  by_cases hends : digitsOf 16 (t.drop (takenBase base t).2) = t.drop (takenBase base t).2
  · rw [if_pos hends]
    simp [hends]
  · have hrun : (digitsOf 16 (t.drop (takenBase base t).2)).length ≤
        (t.drop (takenBase base t).2).length := (List.takeWhile_prefix _).length_le
    have hds : (digitsOf (askedBase base t).1 (t.drop (askedBase base t).2)).length ≤
        (t.drop (askedBase base t).2).length := (List.takeWhile_prefix _).length_le
    rw [if_neg hends, ← length_digitsOf_iff hends, List.drop_drop, List.append_left_inj]
    rw [List.length_drop] at hrun hds
    constructor
    · intro heq
      have hlen := congrArg List.length heq
      rw [List.length_drop, List.length_drop] at hlen
      exact ⟨hends, by omega⟩
    · rintro ⟨-, heq⟩
      rw [heq]

/-- The digits of the base asked for are then the ones that were consumed. -/
theorem digitsOf_eq_consumed {base : ℕ} {t : List UChar} (hends : digitsOf 16
    (t.drop (takenBase base t).2) ≠ t.drop (takenBase base t).2)
    (hdigits : ∀ c ∈ consumed base t, IsDigit (askedBase base t).1 c) :
    digitsOf (askedBase base t).1 (t.drop (askedBase base t).2) = consumed base t := by
  have hlen := (length_digitsOf_iff hends).mpr hdigits
  rw [consumed, List.drop_take, ← hlen, Nat.add_sub_cancel_left]
  exact takeWhile_eq_take _ _

/-- **Numbers.** `strtoul` reads the number at the beginning of a string, and leaves the pointer
behind it, exactly when the hexadecimal digits behind its prefix end before the string does, are
digits of the base asked for, as is the prefix that does not stand for it, and when they have the
same value in the base of the prefix. -/
theorem strtoul_iff (s : CString) (base : ULong) :
    strtoul s.ptr base =
        (BitVec.ofNat 32 (number base.toNat s.1).1, some (s.ptr.drop (number base.toNat s.1).2)) ↔
      Legible base.toNat (s.1.dropWhile isBlank) := by
  generalize ht : s.1.dropWhile isBlank = t
  by_cases hs : s.1 = []
  · -- an empty string leaves the pointer as it was
    rw [hs] at ht
    subst ht
    have hptr : s.ptr = [0] := by rw [CString.ptr, hs]; rfl
    rw [hptr]
    constructor
    · intro h
      exact absurd (congrArg Prod.snd h) (by simp [strtoul])
    · intro h
      exact absurd (by simp [digitsOf, List.dropWhile]) h.ends
  · have hnumber : number base.toNat s.1 =
        (value (askedBase base.toNat t).1
          (digitsOf (askedBase base.toNat t).1 (t.drop (askedBase base.toNat t).2)),
        s.1.length - t.length + ((askedBase base.toNat t).2 +
          (digitsOf (askedBase base.toNat t).1 (t.drop (askedBase base.toNat t).2)).length)) := by
      rw [← ht, ← Nat.add_assoc]
      rfl
    obtain ⟨hle, hle'⟩ := takenBase_le base.toNat t
    have hds : (digitsOf (askedBase base.toNat t).1 (t.drop (askedBase base.toNat t).2)).length ≤
        (t.drop (askedBase base.toNat t).2).length := (List.takeWhile_prefix _).length_le
    rw [List.length_drop] at hds
    rw [strtoul_eq hs base ht rfl rfl, hnumber, drop_number ht (by omega), Prod.mk.injEq,
      Option.some_inj, pointer_iff]
    constructor
    · rintro ⟨hvalue, hends, hdigits⟩
      rw [digitsOf_eq_consumed hends hdigits] at hvalue
      refine ⟨hends, hdigits, ?_⟩
      have hnat := congrArg BitVec.toNat hvalue
      rw [BitVec.toNat_ofNat, BitVec.toNat_ofNat] at hnat
      exact hnat.symm
    · intro h
      refine ⟨?_, h.ends, h.digits⟩
      rw [digitsOf_eq_consumed h.ends h.digits]
      apply BitVec.eq_of_toNat_eq
      rw [BitVec.toNat_ofNat, BitVec.toNat_ofNat]
      exact h.value_eq.symm

/-- "19", to the base 10. -/
theorem strtoul_at_end :
    ¬∀ (s : CString) (base : ULong), base = 0 ∨ 2 ≤ base ∧ base ≤ 16 →
      strtoul s.ptr base = (BitVec.ofNat 32 (number base.toNat s.1).1,
        some (s.ptr.drop (number base.toNat s.1).2)) := by
  intro h
  exact absurd (h ⟨[0x31, 0x39], by decide⟩ 10 (by decide)) (by decide)

end Vmm386.Misc
