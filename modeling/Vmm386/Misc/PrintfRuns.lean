import Vmm386.Misc.PrintfTheorems

/-!
# Formats
-/

namespace Vmm386.Misc.Printf

variable {strAt : ULong → List UChar} {sp : Spec} {limit : Option ℕ} {arg : ULong} {b : Out}

/-! ## Conversions -/

@[simp] theorem put_put (b : Out) (s s' : List UChar) : (b.put s).put s' = b.put (s ++ s') := by
  simp [Out.put]

theorem put_inj {s s' : List UChar} : b.put s = b.put s' ↔ s = s' := by
  simp [Out.put]

theorem map_put_iff {o : Option (List UChar)} {s : List UChar} :
    o.map b.put = some (b.put s) ↔ o = some s := by
  cases o with
  | none => simp
  | some s' => rw [Option.map_some, Option.some_inj, Option.some_inj, put_inj]

/-- Where `kvsprintf` puts out a conversion as is meant. -/
def Conv.Good (conv : Conv) (strAt : ULong → List UChar) (sp : Spec) (limit : Option ℕ)
    (arg : ULong) : Prop :=
  let ptr := fetch sp arg
  match conv, conv.style with
  | _, some st => st.Good sp limit arg
  | .p, none =>
    if ptr = 0 then TextGood sp limit nil
    else
      NumberStyle.Good ⟨false, [ch '0', ch 'x'], lowerDigits, 16⟩
        { sp with flags := { sp.flags with hash := true } } limit arg
  | .c, none => sp.width ≤ 1 ∨ sp.flags.minus ∧ arg.setWidth 8 = ch 'c'
  | _, none => TextGood sp limit (if ptr = 0 then nil else strAt ptr)

theorem convert_number {conv : Conv} {st : NumberStyle} (h : conv.style = some st) (a : ULong) :
    convert strAt conv.char sp a b =
      (doNumber sp (if sp.flags.hash then st.pre else []) st.signed st.digits st.radix a).map
        b.put := by
  cases conv <;> cases h <;> (try rw [ite_self]) <;> rfl

theorem setWidth_fetch (sp : Spec) (arg : ULong) :
    (fetch sp arg).setWidth 8 = (arg.setWidth 8 : UChar) := by
  unfold fetch
  split_ifs
  · rfl
  · rw [BitVec.setWidth_setWidth_of_le _ (by decide), BitVec.setWidth_setWidth_of_le _ (by decide)]
  · rfl

/-- **Conversions.** -/
theorem convert_iff (conv : Conv) (hsize : ¬(sp.flags.short ∧ sp.flags.long))
    (hsome : ∀ n, limit = some n → sp.precision = n) (hnone : limit = none → sp.precision ≤ 0) :
    convert strAt conv.char sp (fetch sp arg) b = some (b.put (conv.field strAt sp limit arg)) ↔
      conv.Good strAt sp limit arg := by
  have hnumber : ∀ st, conv.style = some st →
      (convert strAt conv.char sp (fetch sp arg) b = some (b.put (st.field sp limit arg)) ↔
        st.Good sp limit arg) := by
    intro st hst
    rw [convert_number hst, map_put_iff]
    exact number_iff (Conv.style_proper hst) sp limit arg hsize
  have hstring : ∀ str, some (b.put (doString sp str)) =
      some (b.put (textField sp.flags sp.width (cut limit str))) ↔ TextGood sp limit str := by
    intro str
    rw [Option.some_inj, put_inj]
    exact doString_iff str hsome hnone
  cases conv with
  | p =>
    have hconvert : convert strAt Conv.p.char sp (fetch sp arg) b =
        if fetch sp arg = 0 then
          some (b.put (doString sp (if fetch sp arg = 0 then nil else strAt (fetch sp arg))))
        else
          (doNumber sp [ch '0', ch 'x'] false lowerDigits 16 (fetch sp arg)).map b.put := rfl
    rw [hconvert]
    unfold Conv.field Conv.Good
    dsimp only [Conv.style]
    by_cases hnull : fetch sp arg = 0
    · rw [if_pos hnull, if_pos hnull, if_pos hnull, if_pos hnull]
      exact hstring nil
    · rw [if_neg hnull, if_neg hnull, if_neg hnull, map_put_iff]
      have hproper : NumberStyle.Proper ⟨false, [ch '0', ch 'x'], lowerDigits, 16⟩ := by
        constructor <;> decide
      exact number_iff hproper { sp with flags := { sp.flags with hash := true } } limit arg hsize
  | c =>
    have hconvert : convert strAt Conv.c.char sp (fetch sp arg) b =
        doChar sp (ch 'c') (fetch sp arg) b := rfl
    have hchar := doChar_iff sp (ch 'c') (fetch sp arg) b
    rw [setWidth_fetch] at hchar
    rw [hconvert]
    exact hchar
  | s => exact hstring _
  | _ => exact hnumber _ rfl

/-! ## Pieces -/

/-- What `kvsprintf` does with a piece. -/
def Piece.put (strAt : ULong → List UChar) (args : Args) (b : Out) : Piece → Option Out
  | .literal c _ => some (b.put [c])
  | .percent => some (b.put [ch '%'])
  | .conversion cv =>
    convert strAt cv.conv.char (cv.specOf args) (fetch (cv.specOf args) (cv.argsOf args 0)) b

/-- Where `kvsprintf` puts out a piece as is meant. -/
def Piece.Good (strAt : ULong → List UChar) (args : Args) : Piece → Prop
  | .conversion cv =>
    cv.conv.Good strAt (cv.specOf args) (cv.limit args) (cv.argsOf args 0)
  | _ => True

theorem Conversion.size_flags (cv : Conversion) (args : Args) :
    ¬((cv.specOf args).flags.short ∧ (cv.specOf args).flags.long) := by
  intro h
  have hshort : cv.size = .short := of_decide_eq_true h.1
  have hlong : cv.size = .long := of_decide_eq_true h.2
  exact absurd (hshort.symm.trans hlong) (by decide)

/-- The precision of `kvsprintf` is the one that is asked for, or not positive. -/
theorem Conversion.precision_limit (cv : Conversion) (args : Args) :
    (∀ n, cv.limit args = some n → (cv.specOf args).precision = n) ∧
      (cv.limit args = none → (cv.specOf args).precision ≤ 0) := by
  unfold Conversion.limit Conversion.specOf
  cases (cv.limitOf (cv.widthOf args).2).1 with
  | none => exact ⟨fun _ h => absurd h.symm (Option.some_ne_none _), fun _ => le_rfl⟩
  | some v =>
    rw [Option.bind_some, Option.getD_some]
    by_cases hv : 0 ≤ v
    · rw [if_pos hv]
      refine ⟨fun n h => ?_, fun h => absurd h (Option.some_ne_none _)⟩
      rw [← Option.some_inj.mp h]
      exact (Int.toNat_of_nonneg hv).symm
    · rw [if_neg hv]
      exact ⟨fun _ h => absurd h.symm (Option.some_ne_none _), fun _ => by dsimp only; omega⟩

theorem Piece.put_iff (p : Piece) (args : Args) :
    p.put strAt args b = some (b.put (p.text strAt args)) ↔ p.Good strAt args := by
  cases p with
  | literal c h => exact iff_of_true rfl trivial
  | percent => exact iff_of_true rfl trivial
  | conversion cv =>
    obtain ⟨hsome, hnone⟩ := cv.precision_limit args
    exact convert_iff cv.conv (cv.size_flags args) hsome hnone

theorem Conversion.bytes_head (cv : Conversion) (fmt : List UChar) :
    (cv.bytes ++ fmt).head? ≠ some (ch '%') := by
  have hmem : ∀ x ∈ cv.bytes, x ≠ ch '%' := by
    intro x hx
    simp only [Conversion.bytes, List.mem_append, List.mem_map, List.mem_singleton] at hx
    rcases hx with (((⟨f, -, rfl⟩ | ⟨d, -, rfl⟩) | hx) | hx) | rfl
    · cases f <;> decide
    · revert d
      decide
    · cases hp : cv.precision with
      | absent => simp [hp, Precision.chars] at hx
      | number ds =>
        rw [hp, Precision.chars, List.mem_cons, List.mem_map] at hx
        rcases hx with rfl | ⟨d, -, rfl⟩
        · decide
        · revert d
          decide
      | star =>
        rw [hp] at hx
        revert x
        decide
    · revert x
      cases cv.size <;> decide
    · cases cv.conv <;> decide
  have hne : cv.bytes ≠ [] := by simp [Conversion.bytes]
  rw [List.head?_append_of_ne_nil _ hne]
  exact fun h => hmem _ (List.mem_of_head? h) rfl

/-- The loop over the format reads a piece in one round. -/
theorem loop_piece (p : Piece) (fuel : ℕ) (args : Args) (fmt : List UChar) :
    loop strAt (fuel + 1) args (p.bytes ++ fmt) b =
      (p.put strAt args b).bind (loop strAt fuel (p.rest args) fmt) := by
  cases p with
  | literal c h =>
    rw [Piece.bytes, List.singleton_append, loop, if_neg h.1, body, if_pos h.2]
    rfl
  | percent =>
    have hne : ch '%' ≠ 0 := by decide
    rw [Piece.bytes, List.cons_append, loop, if_neg hne]
    rfl
  | conversion cv =>
    have hne : ch '%' ≠ 0 := by decide
    rw [Piece.bytes, List.cons_append, loop, if_neg hne, body, if_neg (not_not.mpr rfl),
      if_neg (cv.bytes_head fmt), readSpec_bytes, Option.bind_some, Option.bind_assoc]
    rfl

/-! ## Runs over a format -/

/-- The arguments behind the ones of the pieces. -/
def argsAfter (args : Args) (ps : List Piece) : Args := ps.foldl Piece.rest args

/-- Where `kvsprintf` puts out every piece as is meant. -/
def AllGood (strAt : ULong → List UChar) : Args → List Piece → Prop
  | _, [] => True
  | args, p :: ps => p.Good strAt args ∧ AllGood strAt (p.rest args) ps

theorem allGood_append (ps qs : List Piece) (args : Args) :
    AllGood strAt args (ps ++ qs) ↔
      AllGood strAt args ps ∧ AllGood strAt (argsAfter args ps) qs := by
  induction ps generalizing args with
  | nil => exact (and_iff_right trivial).symm
  | cons p ps ih =>
    rw [List.cons_append, AllGood, AllGood, ih, and_assoc]
    rfl

theorem formatText_append (ps qs : List Piece) (args : Args) :
    formatText strAt args (ps ++ qs) =
      formatText strAt args ps ++ formatText strAt (argsAfter args ps) qs := by
  induction ps generalizing args with
  | nil => rfl
  | cons p ps ih =>
    rw [List.cons_append, formatText, formatText, ih, List.append_assoc]
    rfl

/-- The loop over pieces that are put out as is meant. -/
theorem loop_pieces (ps : List Piece) (fuel : ℕ) (args : Args) (fmt : List UChar) (b : Out)
    (h : AllGood strAt args ps) :
    loop strAt (ps.length + fuel) args (formatBytes ps ++ fmt) b =
      loop strAt fuel (argsAfter args ps) fmt (b.put (formatText strAt args ps)) := by
  induction ps generalizing args b with
  | nil =>
    rw [List.length_nil, Nat.zero_add, formatText, Out.put, List.append_nil]
    rfl
  | cons p ps ih =>
    have hlen : (p :: ps).length + fuel = (ps.length + fuel) + 1 := by
      rw [List.length_cons]
      omega
    have hbytes : formatBytes (p :: ps) ++ fmt = p.bytes ++ (formatBytes ps ++ fmt) :=
      List.append_assoc _ _ _
    rw [hlen, hbytes, loop_piece, (p.put_iff args).mpr h.1, Option.bind_some, ih _ _ h.2,
      put_put]
    rfl

/-- Every piece has a character. -/
theorem length_formatBytes (ps : List Piece) : ps.length ≤ (formatBytes ps).length := by
  induction ps with
  | nil => rfl
  | cons p ps ih =>
    have hbytes : formatBytes (p :: ps) = p.bytes ++ formatBytes ps := rfl
    have hpos : 0 < p.bytes.length := by cases p <;> exact Nat.succ_pos _
    rw [hbytes, List.length_append, List.length_cons]
    omega

theorem loop_end (fuel : ℕ) (args : Args) (b : Out) : loop strAt (fuel + 1) args [0] b = some b :=
  rfl

/-- Where `kvsprintf` puts out every piece as is meant, it puts out the text that the format
stands for. -/
theorem kvsprintf_of_allGood {ps : List Piece} {args : Args} (h : AllGood strAt args ps) :
    kvsprintf strAt (formatBytes ps ++ [0]) args = some { text := formatText strAt args ps } := by
  have hlen : (formatBytes ps ++ [0]).length =
      ps.length + ((formatBytes ps).length - ps.length + 1) := by
    have hle := length_formatBytes ps
    rw [List.length_append, List.length_singleton]
    omega
  rw [kvsprintf, hlen, loop_pieces ps _ _ _ _ h, loop_end]
  rfl

/-- The last piece, behind pieces that are put out as is meant. -/
theorem kvsprintf_last {ps : List Piece} (p : Piece) {args : Args} (h : AllGood strAt args ps) :
    kvsprintf strAt (formatBytes (ps ++ [p]) ++ [0]) args =
      p.put strAt (argsAfter args ps) { text := formatText strAt args ps } := by
  have hbytes : formatBytes (ps ++ [p]) ++ [0] = formatBytes ps ++ (p.bytes ++ [0]) := by
    simp [formatBytes]
  have hlen : (formatBytes ps ++ (p.bytes ++ [0])).length =
      ps.length + (((formatBytes ps).length - ps.length + (p.bytes.length - 1)) + 1 + 1) := by
    have hle := length_formatBytes ps
    have hpos : 0 < p.bytes.length := by cases p <;> exact Nat.succ_pos _
    rw [List.length_append, List.length_append, List.length_singleton]
    omega
  rw [kvsprintf, hbytes, hlen, loop_pieces ps _ _ _ _ h, loop_piece]
  have hend : loop strAt ((formatBytes ps).length - ps.length + (p.bytes.length - 1) + 1)
      (p.rest (argsAfter args ps)) [0] = some := funext fun b => loop_end _ _ b
  rw [hend, Option.bind_fun_some]
  rfl

/-- **Formatted output.** `kvsprintf` puts out the text that is meant, piece by piece, for exactly
the formats and arguments whose conversions are all `Good`. -/
theorem kvsprintf_iff (strAt : ULong → List UChar) (ps : List Piece) (args : Args) :
    (∀ qs, qs <+: ps →
      kvsprintf strAt (formatBytes qs ++ [0]) args =
        some { text := formatText strAt args qs }) ↔
      AllGood strAt args ps := by
  constructor
  · intro h
    induction ps using List.reverseRecOn with
    | nil => trivial
    | append_singleton ps p ih =>
      have hinit : AllGood strAt args ps :=
        ih fun qs hqs => h qs (hqs.trans (List.prefix_append ps [p]))
      have hlast := h (ps ++ [p]) List.prefix_rfl
      rw [kvsprintf_last p hinit, formatText_append] at hlast
      have htext : formatText strAt (argsAfter args ps) [p] =
          p.text strAt (argsAfter args ps) := List.append_nil _
      rw [htext] at hlast
      exact (allGood_append ps [p] args).mpr
        ⟨hinit, (p.put_iff (argsAfter args ps)).mp hlast, trivial⟩
  · intro h qs hqs
    obtain ⟨rs, rfl⟩ := hqs
    exact kvsprintf_of_allGood ((allGood_append qs rs args).mp h).1

/-- `%5d`. -/
def fiveWide : Piece := .conversion ⟨[], some (4, []), .absent, .plain, .d, by decide⟩

/-- `%5d` puts the sign of -3 before the padding. -/
theorem kvsprintf_negative :
    formatBytes [fiveWide] = [ch '%', ch '5', ch 'd'] ∧
      kvsprintf (fun _ => []) (formatBytes [fiveWide] ++ [0]) (fun _ => -3) =
        some { text := [ch '-', ch ' ', ch ' ', ch ' ', ch '3'] } ∧
      kvsprintf (fun _ => []) (formatBytes [fiveWide] ++ [0]) (fun _ => -3) ≠
        some { text := formatText (fun _ => []) (fun _ => -3) [fiveWide] } := by
  decide +kernel

end Vmm386.Misc.Printf
