import Vmm386.Misc.PrintfFields

/-!
# Reading the conversions of a format
-/

namespace Vmm386.Misc.Printf

/-! ## The flags -/

/-- What a flag changes. -/
def Flag.apply (f : Flag) (st : Spec × Args) : Spec × Args :=
  match f with
  | .minus => ({ st.1 with flags := { st.1.flags with minus := true } }, st.2)
  | .plus => ({ st.1 with flags := { st.1.flags with plus := true } }, st.2)
  | .space => ({ st.1 with flags := { st.1.flags with spc := true } }, st.2)
  | .hash => ({ st.1 with flags := { st.1.flags with hash := true } }, st.2)
  | .zero => ({ st.1 with flags := { st.1.flags with zero := true } }, st.2)
  | .star => ({ st.1 with width := (st.2 0).toInt }, st.2.rest)

theorem readSpec_flag (f : Flag) (sp : Spec) (args : Args) (fmt : List UChar) :
    readSpec .again sp args (f.char :: fmt) =
      readSpec .again (f.apply (sp, args)).1 (f.apply (sp, args)).2 fmt := by
  cases f <;> rfl

theorem readSpec_flags (fs : List Flag) (st : Spec × Args) (fmt : List UChar) :
    readSpec .again st.1 st.2 (fs.map Flag.char ++ fmt) =
      readSpec .again (fs.foldl (fun st f => f.apply st) st).1
        (fs.foldl (fun st f => f.apply st) st).2 fmt := by
  induction fs generalizing st with
  | nil => rfl
  | cons f fs ih =>
    rw [List.map_cons, List.cons_append, readSpec_flag, List.foldl_cons]
    exact ih (f.apply st)

/-- The flags that are set behind a sequence of flags. -/
theorem foldl_apply_flags (fs : List Flag) (st : Spec × Args) :
    (fs.foldl (fun st f => f.apply st) st).1.flags =
      { st.1.flags with
        minus := st.1.flags.minus || decide (.minus ∈ fs)
        plus := st.1.flags.plus || decide (.plus ∈ fs)
        spc := st.1.flags.spc || decide (.space ∈ fs)
        hash := st.1.flags.hash || decide (.hash ∈ fs)
        zero := st.1.flags.zero || decide (.zero ∈ fs) } ∧
      (fs.foldl (fun st f => f.apply st) st).1.precision = st.1.precision := by
  induction fs generalizing st with
  | nil => simp
  | cons f fs ih =>
    rw [List.foldl_cons]
    obtain ⟨hflags, hprec⟩ := ih (f.apply st)
    rw [hflags, hprec]
    cases f <;> simp [Flag.apply]

/-- A `*` takes the next argument for the width. -/
theorem foldl_apply_star (fs : List Flag) (h : fs.count .star ≤ 1) (st : Spec × Args) :
    (fs.foldl (fun st f => f.apply st) st).1.width =
        (if .star ∈ fs then (st.2 0).toInt else st.1.width) ∧
      (fs.foldl (fun st f => f.apply st) st).2 = if .star ∈ fs then st.2.rest else st.2 := by
  induction fs generalizing st with
  | nil => simp
  | cons f fs ih =>
    rw [List.foldl_cons]
    by_cases hf : f = .star
    · subst hf
      rw [List.count_cons_self] at h
      have hnone : Flag.star ∉ fs := List.count_eq_zero.mp (by omega)
      obtain ⟨hwidth, hargs⟩ := ih (by omega) (Flag.star.apply st)
      rw [hwidth, hargs, if_neg hnone, if_neg hnone]
      simp [Flag.apply]
    · rw [List.count_cons_of_ne hf] at h
      obtain ⟨hwidth, hargs⟩ := ih h (f.apply st)
      have hiff : Flag.star ∈ f :: fs ↔ Flag.star ∈ fs := by
        simp [Ne.symm hf]
      rw [hwidth, hargs, if_congr hiff rfl rfl, if_congr hiff rfl rfl]
      cases f
      all_goals first
        | exact absurd rfl hf
        | exact ⟨rfl, rfl⟩

/-! ## Numbers -/

theorem isDigit_digitChar (d : Fin 10) : IsDigit (digitChar d.val) := by
  revert d
  decide

theorem push_digitChar (n : ℤ) (d : Fin 10) : push n (digitChar d.val) = n * 10 + d.val := by
  have hval : (digitChar d.val).toNat = (ch '0').toNat + d.val := by
    revert d
    decide
  rw [push, hval]
  push_cast
  ring

theorem readSpec_width_digit (sp : Spec) (args : Args) (d : Fin 10) (fmt : List UChar) :
    readSpec .width sp args (digitChar d.val :: fmt) =
      readSpec .width { sp with width := sp.width * 10 + d.val } args fmt := by
  rw [readSpec, if_pos ⟨rfl, isDigit_digitChar d⟩, push_digitChar]

/-- The loop of the width. -/
theorem readSpec_width (ds : List (Fin 10)) (sp : Spec) (args : Args) (fmt : List UChar) :
    readSpec .width sp args (ds.map (digitChar ·.val) ++ fmt) =
      readSpec .width { sp with width := ds.foldl (fun n d => n * 10 + (d.val : ℤ)) sp.width }
        args fmt := by
  induction ds generalizing sp with
  | nil => rfl
  | cons d ds ih =>
    rw [List.map_cons, List.cons_append, readSpec_width_digit, ih]
    rfl

/-- The first digit of a width is not taken for the flag `0`. -/
theorem readSpec_first (sp : Spec) (args : Args) (d : Fin 9) (fmt : List UChar) :
    readSpec .again sp args (digitChar d.succ.val :: fmt) =
      readSpec .width { sp with width := sp.width * 10 + d.succ.val } args fmt := by
  rw [← push_digitChar]
  fin_cases d <;> rfl

theorem readSpec_precision_digit {r : Reading} (hr : r = .point ∨ r = .precision) (sp : Spec)
    (args : Args) (d : Fin 10) (fmt : List UChar) :
    readSpec r sp args (digitChar d.val :: fmt) =
      readSpec .precision { sp with precision := sp.precision * 10 + d.val } args fmt := by
  have hwidth : ¬(r = .width ∧ IsDigit (digitChar d.val)) := by
    rintro ⟨rfl, -⟩
    exact hr.elim (by decide) (by decide)
  have hstar : ∀ d : Fin 10, digitChar d.val ≠ ch '*' := by decide
  rw [readSpec, if_neg hwidth, if_neg fun h => hstar d h.2, if_pos ⟨hr, isDigit_digitChar d⟩,
    push_digitChar]

/-- The loop of the precision. -/
theorem readSpec_precision (ds : List (Fin 10)) (sp : Spec) (args : Args) (fmt : List UChar) :
    readSpec .precision sp args (ds.map (digitChar ·.val) ++ fmt) =
      readSpec .precision
        { sp with precision := ds.foldl (fun n d => n * 10 + (d.val : ℤ)) sp.precision }
        args fmt := by
  induction ds generalizing sp with
  | nil => rfl
  | cons d ds ih =>
    rw [List.map_cons, List.cons_append, readSpec_precision_digit (.inr rfl), ih]
    rfl

/-- A character that ends the loops is read again. -/
theorem readSpec_end {c : UChar} (hdigit : ¬IsDigit c) (hstar : c ≠ ch '*') (r : Reading)
    (sp : Spec) (args : Args) (fmt : List UChar) :
    readSpec r sp args (c :: fmt) = readSpec .again sp args (c :: fmt) := by
  have h : ∀ P : Prop, ¬(P ∧ IsDigit c) := fun P hP => hdigit hP.2
  have h' : ∀ P : Prop, ¬(P ∧ c = ch '*') := fun P hP => hstar hP.2
  rw [readSpec, if_neg (h _), if_neg (h' _), if_neg (h _), readSpec, if_neg (h _), if_neg (h' _),
    if_neg (h _)]

theorem decimal_cast (ds : List (Fin 10)) (n : ℕ) :
    ds.foldl (fun n d => n * 10 + (d.val : ℤ)) (n : ℤ) =
      (ds.foldl (fun n d => n * 10 + d.val) n : ℕ) := by
  induction ds generalizing n with
  | nil => rfl
  | cons d ds ih =>
    rw [List.foldl_cons, List.foldl_cons, ← ih]
    push_cast
    rfl

/-! ## The end of a conversion -/

/-- What a size changes. -/
def Size.apply (size : Size) (sp : Spec) : Spec :=
  match size with
  | .plain => sp
  | .short => { sp with flags := { sp.flags with short := true } }
  | .long => { sp with flags := { sp.flags with long := true } }

theorem readSpec_conv (size : Size) (conv : Conv) (sp : Spec) (args : Args) (fmt : List UChar) :
    readSpec .again sp args (size.chars ++ conv.char :: fmt) =
      some (conv.char, size.apply sp, args, fmt) := by
  cases size <;> cases conv <;> rfl

/-- The first character of the end of a conversion ends the loops. -/
theorem exists_end (size : Size) (conv : Conv) (fmt : List UChar) :
    ∃ x l, size.chars ++ conv.char :: fmt = x :: l ∧ ¬IsDigit x ∧ x ≠ ch '*' := by
  cases size
  · refine ⟨conv.char, fmt, rfl, ?_⟩
    cases conv <;> decide
  · exact ⟨ch 'h', conv.char :: fmt, rfl, by decide, by decide⟩
  · exact ⟨ch 'l', conv.char :: fmt, rfl, by decide, by decide⟩

theorem readSpec_size (r : Reading) (size : Size) (conv : Conv) (sp : Spec) (args : Args)
    (fmt : List UChar) :
    readSpec r sp args (size.chars ++ conv.char :: fmt) =
      some (conv.char, size.apply sp, args, fmt) := by
  obtain ⟨x, l, heq, hdigit, hstar⟩ := exists_end size conv fmt
  have hconv := readSpec_conv size conv sp args fmt
  rw [heq] at hconv ⊢
  rw [readSpec_end hdigit hstar, hconv]

/-- What a precision changes, where there has been none. -/
def Precision.apply (p : Precision) (st : Spec × Args) : Spec × Args :=
  match p with
  | .absent => st
  | .number ds => ({ st.1 with precision := decimal ds }, st.2)
  | .star => ({ st.1 with precision := (st.2 0).toInt }, st.2.rest)

theorem readSpec_tail {r : Reading} (hr : r = .again ∨ r = .width) (p : Precision) (size : Size)
    (conv : Conv) {t : Spec × Args} (hst : t.1.precision = 0) (fmt : List UChar) :
    readSpec r t.1 t.2 (p.chars ++ (size.chars ++ conv.char :: fmt)) =
      some (conv.char, size.apply (p.apply t).1, (p.apply t).2, fmt) := by
  have hpoint : ∀ l, readSpec r t.1 t.2 (ch '.' :: l) = readSpec .point t.1 t.2 l := by
    intro l
    rcases hr with rfl | rfl <;> rfl
  cases p with
  | absent => exact readSpec_size r size conv t.1 t.2 fmt
  | number ds =>
    rw [Precision.chars, List.cons_append, hpoint]
    cases ds with
    | nil =>
      rw [List.map_nil, List.nil_append, readSpec_size]
      have heq : t.1 = { t.1 with precision := ((decimal [] : ℕ) : ℤ) } := by
        obtain ⟨⟨flags, width, precision⟩, args⟩ := t
        cases hst
        rfl
      exact congrArg (fun sp => some (conv.char, size.apply sp, t.2, fmt)) heq
    | cons d ds =>
      rw [List.map_cons, List.cons_append, readSpec_precision_digit (.inl rfl),
        readSpec_precision, readSpec_size, hst]
      have heq : ds.foldl (fun n d => n * 10 + (d.val : ℤ)) (0 * 10 + (d.val : ℤ)) =
          ((decimal (d :: ds) : ℕ) : ℤ) := decimal_cast (d :: ds) 0
      rw [heq]
      rfl
  | star =>
    have hstar : ∀ l, readSpec .point t.1 t.2 (ch '*' :: l) =
        readSpec .again { t.1 with precision := (t.2 0).toInt } t.2.rest l := fun l => rfl
    rw [Precision.chars, List.cons_append, hpoint, List.cons_append, hstar, List.nil_append,
      readSpec_size]
    rfl

/-- What `kvsprintf` keeps, from what it has behind the width. -/
theorem specOf_eq (cv : Conversion) (args : Args) {t : Spec × Args}
    (hflags : t.1.flags =
      { minus := .minus ∈ cv.flags
        plus := .plus ∈ cv.flags
        spc := .space ∈ cv.flags
        hash := .hash ∈ cv.flags
        zero := .zero ∈ cv.flags })
    (hprec : t.1.precision = 0) (hwidth : (t.1.width, t.2) = cv.widthOf args) :
    cv.size.apply (cv.precision.apply t).1 = cv.specOf args ∧
      (cv.precision.apply t).2 = cv.argsOf args := by
  obtain ⟨⟨flags, width, precision⟩, args'⟩ := t
  cases hflags
  cases hprec
  unfold Conversion.specOf Conversion.argsOf Conversion.limitOf Conversion.flagSet
  rw [← hwidth]
  cases cv.precision <;> cases cv.size <;> exact ⟨rfl, rfl⟩

/-- **Conversions.** `kvsprintf` reads a conversion as it is meant. -/
theorem readSpec_bytes (cv : Conversion) (args : Args) (fmt : List UChar) :
    readSpec .again {} args (cv.bytes ++ fmt) =
      some (cv.conv.char, cv.specOf args, cv.argsOf args, fmt) := by
  have hbytes : cv.bytes ++ fmt = cv.flags.map Flag.char ++ (cv.widthDigits.map (digitChar ·.val) ++
      (cv.precision.chars ++ (cv.size.chars ++ cv.conv.char :: fmt))) := by
    simp [Conversion.bytes]
  have hcount := cv.star_once
  obtain ⟨hflags, hprec⟩ := foldl_apply_flags cv.flags ({}, args)
  obtain ⟨hwidth, hargs⟩ := foldl_apply_star cv.flags (by omega) ({}, args)
  have hread := readSpec_flags cv.flags ({}, args)
  generalize cv.flags.foldl (fun st f => f.apply st) ({}, args) = st at *
  rw [hbytes, hread]
  simp only [Bool.false_or] at hflags
  unfold Conversion.widthDigits
  cases hw : cv.width with
  | none =>
    have hst : (st.1.width, st.2) = cv.widthOf args := by
      rw [hwidth, hargs, Conversion.widthOf, Conversion.widthDigits, hw]
      split_ifs <;> rfl
    obtain ⟨hspec, hargs'⟩ := specOf_eq cv args hflags hprec hst
    rw [List.map_nil, List.nil_append, readSpec_tail (.inl rfl) _ _ _ hprec, hspec, hargs']
  | some w =>
    obtain ⟨d, ds⟩ := w
    rw [hw, Option.isSome_some, if_pos rfl] at hcount
    have hstar : Flag.star ∉ cv.flags := List.count_eq_zero.mp (by omega)
    rw [if_neg hstar] at hwidth hargs
    rw [List.map_cons, List.cons_append, readSpec_first, readSpec_width]
    have hst : (ds.foldl (fun n d => n * 10 + (d.val : ℤ)) (st.1.width * 10 + d.succ.val), st.2) =
        cv.widthOf args := by
      rw [hwidth, hargs, Conversion.widthOf, if_neg hstar, Conversion.widthDigits, hw]
      exact congrArg (·, args) (decimal_cast (d.succ :: ds) 0)
    dsimp only
    generalize ds.foldl (fun n d => n * 10 + (d.val : ℤ)) (st.1.width * 10 + d.succ.val) = w at *
    obtain ⟨hspec, hargs'⟩ :=
      specOf_eq (t := ({ st.1 with width := w }, st.2)) cv args hflags hprec hst
    have htail := readSpec_tail (.inr rfl) cv.precision cv.size cv.conv
      (t := ({ st.1 with width := w }, st.2)) hprec fmt
    rw [hspec, hargs'] at htail
    exact htail

end Vmm386.Misc.Printf
