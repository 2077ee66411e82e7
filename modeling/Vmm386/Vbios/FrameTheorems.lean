import Vmm386.Lib.Bits
import Vmm386.Vbios.Video

/-!
# What the BIOS calls leave alone

A handler returns in the lower halves of registers. One function takes the upper half of a register from
another one.
-/

namespace Vmm386.Vbios.Handlers

open Vcmos (get8 get8h set8 set8h)

variable {x v : ULong} {w : World} {num : Interrupt} {r r' : Vm86Regs} {mask : ULong}

/-! ## Halves of a register -/

/-- The upper half. -/
def upper (x : ULong) : ULong := x &&& 0xffff0000

/-- Bits that are taken from elsewhere, all of them in the lower half. -/
theorem upper_or {keep a : ULong} (hkeep : keep &&& 0xffff0000 = 0xffff0000)
    (ha : a &&& 0xffff0000 = 0) (x : ULong) : upper ((x &&& keep) ||| a) = upper x := by
  unfold upper
  rw [Bits.or_and_of_disjoint ha, BitVec.and_assoc, hkeep]

@[simp] theorem upper_set16 (x v : ULong) : upper (set16 x v) = upper x := by
  refine upper_or (by decide) ?_ x
  rw [BitVec.and_assoc]
  exact BitVec.and_zero

@[simp] theorem upper_set8 (x : ULong) (b : UChar) : upper (set8 x b) = upper x := by
  refine upper_or (by decide) ?_ x
  rw [BitVec.and_assoc]
  exact BitVec.and_zero

@[simp] theorem upper_set8h (x : ULong) (b : UChar) : upper (set8h x b) = upper x := by
  refine upper_or (by decide) ?_ x
  rw [BitVec.shiftLeft_and_distrib, BitVec.and_assoc]
  exact BitVec.and_zero

theorem get16_eq (x : ULong) : get16 x = x.truncate 16 := by
  have hones : BitVec.setWidth 16 (0xffff : ULong) = BitVec.allOnes 16 := by decide
  rw [get16, BitVec.truncate_eq_setWidth, BitVec.setWidth_and, hones, BitVec.and_allOnes]

@[simp] theorem get16_set16 (x v : ULong) : get16 (set16 x v) = v.truncate 16 := by
  have hones : BitVec.setWidth 16 (0xffff : ULong) = BitVec.allOnes 16 := by decide
  have hzero : BitVec.setWidth 16 (0xffff0000 : ULong) = 0#16 := by decide
  rw [get16_eq, set16, BitVec.truncate_eq_setWidth, BitVec.setWidth_or, BitVec.setWidth_and,
    BitVec.setWidth_and, hones, hzero, BitVec.and_allOnes, BitVec.and_zero, BitVec.zero_or]

/-! ## Frames -/

/-- The flags that a call may change. -/
def flagMask (num : Interrupt) (r : Vm86Regs) : ULong :=
  if num = .int15 ∧ get8h r.eax = 135 then FLAGS_CF ||| FLAGS_ZF else FLAGS_CF

/-- The lower halves of `eax` to `edx` and `edi`, and `es`, may be other ones, and the flags of the
mask; nothing else. -/
structure Framed (mask : ULong) (r r' : Vm86Regs) : Prop where
  eax : upper r'.eax = upper r.eax
  ebx : upper r'.ebx = upper r.ebx
  ecx : upper r'.ecx = upper r.ecx
  edx : upper r'.edx = upper r.edx
  edi : upper r'.edi = upper r.edi
  esi : r'.esi = r.esi
  ebp : r'.ebp = r.ebp
  esp : r'.esp = r.esp
  eip : r'.eip = r.eip
  cs : r'.cs = r.cs
  ss : r'.ss = r.ss
  ds : r'.ds = r.ds
  fs : r'.fs = r.fs
  gs : r'.gs = r.gs
  eflags : r'.eflags &&& ~~~mask = r.eflags &&& ~~~mask

namespace Framed

theorem refl (r : Vm86Regs) : Framed mask r r := by
  constructor <;> rfl

/-- New lower halves. -/
theorem halves {a b c d i : ULong} {e : UShort} (ha : upper a = upper r.eax)
    (hb : upper b = upper r.ebx) (hc : upper c = upper r.ecx) (hd : upper d = upper r.edx)
    (hi : upper i = upper r.edi) :
    Framed mask r { r with eax := a, ebx := b, ecx := c, edx := d, edi := i, es := e } :=
  ⟨ha, hb, hc, hd, hi, rfl, rfl, rfl, rfl, rfl, rfl, rfl, rfl, rfl, rfl⟩

/-- Flags of the mask are set. -/
theorem setFlags {f : ULong} (h : Framed mask r r') (hf : f &&& ~~~mask = 0) :
    Framed mask r { r' with eflags := r'.eflags ||| f } :=
  { h with eflags := (Bits.or_and_of_disjoint hf _).trans h.eflags }

/-- Flags of the mask are cleared. -/
theorem clearFlags {f : ULong} (h : Framed mask r r') (hf : f &&& ~~~mask = 0) :
    Framed mask r { r' with eflags := r'.eflags &&& ~~~f } :=
  { h with eflags := (Bits.and_not_and_of_disjoint hf _).trans h.eflags }

/-- A function that is one or the other. -/
theorem ite {p : Prop} [Decidable p] {a b : Result} (ha : Framed mask r a.1)
    (hb : Framed mask r b.1) : Framed mask r (if p then a else b).1 := by
  split_ifs
  · exact ha
  · exact hb

theorem stc (h : Framed FLAGS_CF r r') : Framed FLAGS_CF r r'.stc := h.setFlags (by decide)

theorem clc (h : Framed FLAGS_CF r r') : Framed FLAGS_CF r r'.clc := h.clearFlags (by decide)

end Framed

/-! ## The handlers -/

theorem framed_getStat (status : Option (UChar × UChar)) (r : Vm86Regs) :
    Framed FLAGS_CF r (getStat status r) := by
  have hah : Framed FLAGS_CF r { r with eax := set8h r.eax ((biosStatus status).truncate 8) } :=
    .halves (upper_set8h ..) rfl rfl rfl rfl
  unfold getStat
  dsimp only
  split_ifs
  · exact hah.clc
  · exact hah.stc

theorem framed_disketteHandler (w : World) (r : Vm86Regs) :
    Framed FLAGS_CF r (disketteHandler w r).1 := by
  unfold disketteHandler
  refine .ite (framed_getStat ..) ?_
  refine .ite (framed_getStat ..) ?_
  refine .ite (Framed.halves (upper_set16 ..) rfl rfl rfl rfl).stc ?_
  refine .ite (Framed.halves (upper_set8h ..) rfl rfl rfl rfl).stc ?_
  refine .ite (.ite ?_ ?_) (Framed.halves (upper_set8h ..) rfl rfl rfl rfl).stc
  · exact (Framed.halves (upper_set16 ..) (upper_set16 ..) (upper_set16 ..) (upper_set16 ..)
      (upper_set16 ..)).clc
  · exact (Framed.halves (upper_set16 ..) (upper_set16 ..) (upper_set16 ..) (upper_set16 ..) rfl).clc

theorem framed_hardDiskHandler (w : World) (r : Vm86Regs) :
    Framed FLAGS_CF r (hardDiskHandler w r).1 := by
  have hah : ∀ b, Framed FLAGS_CF r { r with eax := set8h r.eax b } :=
    fun b => .halves (upper_set8h ..) rfl rfl rfl rfl
  unfold hardDiskHandler
  refine .ite (framed_getStat ..) ?_
  refine .ite (framed_getStat ..) ?_
  refine .ite (framed_getStat ..) ?_
  refine .ite (hah 0).clc ?_
  refine .ite (hah 0).clc ?_
  refine .ite ?_ ?_
  · -- the geometry, if it is known
    cases w.geom with
    | some g => exact .halves rfl rfl (upper_set16 ..) (upper_set16 ..) rfl
    | none => exact .halves rfl rfl rfl (upper_set16 ..) rfl
  refine .ite (.refl r) ?_
  refine .ite ?_ (hah 1).stc
  exact .ite (hah 0) (.halves (upper_set8h ..) rfl (upper_set16 ..) (upper_set16 ..) rfl)

theorem framed_vbiosDiskHandler (w : World) (r : Vm86Regs) :
    Framed FLAGS_CF r (vbiosDiskHandler w r).1 := by
  have hah : ∀ b, Framed FLAGS_CF r { r with eax := set8h r.eax b } :=
    fun b => .halves (upper_set8h ..) rfl rfl rfl rfl
  unfold vbiosDiskHandler
  dsimp only
  split_ifs
  · exact (hah 0).clc
  · exact (hah 0xff).stc
  · exact framed_disketteHandler w r
  · exact (hah 0xff).stc
  · exact framed_hardDiskHandler w r

theorem framed_vbiosSerHandler (r : Vm86Regs) : Framed FLAGS_CF r (vbiosSerHandler r).1 := by
  unfold vbiosSerHandler
  dsimp only
  split_ifs
  · exact .halves (upper_set16 ..) rfl rfl rfl rfl
  · exact .halves (upper_set8h ..) rfl rfl rfl rfl
  · exact .refl r

theorem framed_vbiosVideoHandler (w : World) (r : Vm86Regs) :
    Framed FLAGS_CF r (vbiosVideoHandler w r).1 := by
  unfold vbiosVideoHandler
  refine .ite (.refl r) ?_
  refine .ite (.refl r) ?_
  refine .ite (.refl r) ?_
  refine .ite (.halves rfl rfl (upper_set16 ..) (upper_set16 ..) rfl) ?_
  refine .ite (.halves (upper_set8h ..) rfl rfl rfl rfl) ?_
  refine .ite (.refl r) ?_
  refine .ite (.refl r) ?_
  refine .ite (.refl r) ?_
  refine .ite (.halves (upper_set16 ..) rfl rfl rfl rfl) ?_
  refine .ite (.refl r) ?_
  refine .ite (.refl r) ?_
  refine .ite (.refl r) ?_
  refine .ite (.halves (upper_set16 ..) (upper_set8h ..) rfl rfl rfl) ?_
  refine .ite (.refl r) ?_
  refine .ite ?_ (.refl r)
  exact .ite (.halves (upper_set8 ..) (upper_set16 ..) rfl rfl rfl) (.refl r)

/-- The virtual clock changes halves of two registers. -/
theorem framed_ofClock {c : Vcmos.Vm86Regs} (hc : upper c.ecx = upper r.ecx)
    (hd : upper c.edx = upper r.edx)
    (hf : c.eflags &&& ~~~FLAGS_CF = r.eflags &&& ~~~FLAGS_CF) :
    Framed FLAGS_CF r (r.ofClock c) :=
  ⟨rfl, rfl, hc, hd, rfl, rfl, rfl, rfl, rfl, rfl, rfl, rfl, rfl, rfl, hf⟩

theorem carryIfSet_framed (p : Vcmos.Cmos) (eflags : ULong) :
    Vcmos.carryIfSet p eflags &&& ~~~FLAGS_CF = eflags &&& ~~~FLAGS_CF := by
  unfold Vcmos.carryIfSet
  split_ifs
  · exact Bits.or_and_of_disjoint (by decide) eflags
  · exact Bits.and_not_and_of_disjoint (by decide) eflags

theorem upper_set8_set8h (x : ULong) (b b' : UChar) : upper (set8 (set8h x b) b') = upper x := by
  rw [upper_set8, upper_set8h]

theorem framed_getBcdTime (p : Vcmos.Cmos) (r : Vm86Regs) :
    Framed FLAGS_CF r (r.ofClock (Vcmos.getBcdTime p r.clock)) := by
  refine framed_ofClock ?_ ?_ (carryIfSet_framed p r.eflags)
  · exact upper_set8_set8h r.ecx _ _
  · exact upper_set8_set8h r.edx _ _

theorem framed_getBcdDate (p : Vcmos.Cmos) (r : Vm86Regs) :
    Framed FLAGS_CF r (r.ofClock (Vcmos.getBcdDate p r.clock)) := by
  refine framed_ofClock ?_ ?_ (carryIfSet_framed p r.eflags)
  · exact upper_set8_set8h r.ecx _ _
  · exact upper_set8_set8h r.edx _ _

theorem framed_realTime (w : World) (r : Vm86Regs) : Framed FLAGS_CF r (realTime w r) :=
  (Framed.halves rfl rfl (upper_set8_set8h r.ecx _ _) (upper_set8_set8h r.edx _ _) rfl).clc

theorem framed_realDate (w : World) (r : Vm86Regs) : Framed FLAGS_CF r (realDate w r) :=
  (Framed.halves rfl rfl (upper_set8_set8h r.ecx _ _) (upper_set8_set8h r.edx _ _) rfl).clc

/-- The count of the timer goes through the upper half of `ecx`. -/
theorem upper_edx_timer (h : get8h r.eax = 0) :
    upper (vbiosTimerHandler w r).1.edx = upper r.ecx := by
  unfold vbiosTimerHandler
  dsimp only
  rw [if_pos h]
  exact upper_set16 ..

/-- Only the read of the timer needs the upper halves of `ecx` and `edx` to agree. -/
theorem framed_vbiosTimerHandler (w : World)
    (h : get8h r.eax = 0 → upper r.ecx = upper r.edx) :
    Framed FLAGS_CF r (vbiosTimerHandler w r).1 := by
  have hcarry : Framed FLAGS_CF r { r with
      ecx := set16 r.ecx ((getUserShort w.mem DAY_COUNTER).zeroExtend 32) } :=
    .halves rfl rfl (upper_set16 ..) rfl rfl
  by_cases hread : get8h r.eax = 0
  · unfold vbiosTimerHandler
    dsimp only
    rw [if_pos hread]
    refine .halves (upper_set8 ..) rfl ?_ ?_ rfl
    · rw [upper_set16, upper_set16]
    · rw [upper_set16]
      exact h hread
  unfold vbiosTimerHandler
  dsimp only
  rw [if_neg hread]
  refine .ite (.refl r) ?_
  refine .ite ?_ ?_
  · -- the time, of either clock
    cases w.vcmos with
    | some p => exact framed_getBcdTime p r
    | none => exact framed_realTime w r
  refine .ite (.refl r) ?_
  refine .ite ?_ ?_
  · cases w.vcmos with
    | some p => exact framed_getBcdDate p r
    | none => exact framed_realDate w r
  refine .ite (.refl r) ?_
  refine .ite ?_ ?_
  · cases w.vcmos with
    | some p => exact .ite (Framed.refl r).stc (Framed.refl r).clc
    | none => exact .refl r
  refine .ite (.refl r) ?_
  exact .ite hcarry.clc (.ite (.refl r) (.refl r))

/-- Moving a block sets the zero flag. -/
theorem framed_vbiosSysHandler (w : World) (r : Vm86Regs) :
    Framed (flagMask .int15 r) r (vbiosSysHandler w r).1 := by
  unfold vbiosSysHandler
  dsimp only
  by_cases hmove : get8h r.eax = 135
  · have hmask : flagMask .int15 r = FLAGS_CF ||| FLAGS_ZF := if_pos ⟨rfl, hmove⟩
    have hah : Framed (flagMask .int15 r) r { r with eax := set8h r.eax 0 } :=
      .halves (upper_set8h ..) rfl rfl rfl rfl
    rw [hmask] at hah ⊢
    rw [hmove, if_neg (by decide), if_pos rfl]
    exact (hah.clearFlags (f := FLAGS_CF) (by decide)).setFlags (f := FLAGS_ZF) (by decide)
  · have hmask : flagMask .int15 r = FLAGS_CF := if_neg fun h => hmove h.2
    rw [hmask, if_neg hmove]
    refine .ite (Framed.refl r).clc ?_
    refine .ite (Framed.halves (upper_set16 ..) rfl rfl rfl rfl).clc ?_
    exact .ite (Framed.halves (upper_set8h ..) (upper_set16 ..) rfl rfl rfl).clc (Framed.refl r).stc

/-! ## The count of the timer -/

theorem putBytes_of_lt {m : TextPage.Mem} {a b : ℕ} {vs : List UChar} (h : b < a) :
    putBytes m a vs b = m b := by
  induction vs generalizing m a with
  | nil => rfl
  | cons v vs ih =>
    rw [putBytes, ih (Nat.lt_succ_of_lt h), Function.update_of_ne (Nat.ne_of_lt h)]

/-- A word put together from its bytes. -/
theorem bytes_append (v : ULong) :
    ((v >>> 24).truncate 8 ++ (v >>> 16).truncate 8) ++ ((v >>> 8).truncate 8 ++ v.truncate 8) =
      v := by
  ext i hi
  simp only [BitVec.truncate_eq_setWidth, BitVec.getElem_append]
  split_ifs
  · simp [BitVec.getLsbD_eq_getElem hi]
  · have hsum : 8 + (i - 8) = i := by omega
    simp [hsum, BitVec.getLsbD_eq_getElem hi]
  · have hsum : 16 + (i - 16) = i := by omega
    simp [hsum, BitVec.getLsbD_eq_getElem hi]
  · have hsum : 24 + (i - 16 - 8) = i := by omega
    simp [hsum, BitVec.getLsbD_eq_getElem hi]

/-- A word that was stored comes back. -/
theorem getUserLong_putUserLong (m : TextPage.Mem) (v a : ULong) :
    getUserLong ((Store.putUserLong v a).apply m) a = v := by
  have hbytes : ∀ b₀ b₁ b₂ b₃ : UChar, getUserLong (putBytes m a.toNat [b₀, b₁, b₂, b₃]) a =
      (b₃ ++ b₂) ++ (b₁ ++ b₀) := by
    intro b₀ b₁ b₂ b₃
    rw [getUserLong]
    generalize a.toNat = n
    have h₂ : n ≠ n + 1 + 1 := by omega
    have h₃ : n ≠ n + 1 + 1 + 1 := by omega
    simp [TextPage.word, putBytes, h₂, h₃]
  rw [Store.apply, hbytes, bytes_append]

/-- The lower half of two that were put together. -/
theorem truncate_halves (lo hi : UShort) :
    (lo.zeroExtend 32 ||| (hi.zeroExtend 32 <<< 16) : ULong).truncate 16 = lo := by
  ext i _
  simp

theorem truncate_shift_halves (lo hi : UShort) :
    ((lo.zeroExtend 32 ||| (hi.zeroExtend 32 <<< 16) : ULong) >>> 16).truncate 16 = hi := by
  ext i h
  have h₁ : 16 + i < 32 := by omega
  have h₂ : i < 32 := by omega
  simp [h₁, h₂, BitVec.getLsbD_eq_getElem h]

/-- What function 0 of `INT 1Ah` returns when function 1 has set the count and no tick came between:
the other world has the same bytes of the counter. -/
def CountReturned (w w' : World) (set get : Vm86Regs) : Prop :=
  get8h set.eax = 1 → get8h get.eax = 0 →
    getUserLong w'.mem TIMER_COUNTER =
      getUserLong (stores w.mem (vbiosArplHandler w .int1A set).2) TIMER_COUNTER →
    get16 (vbiosArplHandler w' .int1A get).1.ecx = get16 set.ecx ∧
      get16 (vbiosArplHandler w' .int1A get).1.edx = get16 set.edx

theorem countReturned (w w' : World) (set get : Vm86Regs) : CountReturned w w' set get := by
  intro hset hget hmem
  have hstore : (vbiosArplHandler w .int1A set).2 = [.store (.putUserLong
      ((get16 set.edx).zeroExtend 32 ||| ((get16 set.ecx).zeroExtend 32 <<< 16)) TIMER_COUNTER)] := by
    unfold vbiosArplHandler vbiosTimerHandler
    dsimp only
    rw [hset, if_neg (by decide), if_pos rfl]
  have hcount : getUserLong w'.mem TIMER_COUNTER =
      (get16 set.edx).zeroExtend 32 ||| ((get16 set.ecx).zeroExtend 32 <<< 16) := by
    rw [hmem, hstore]
    exact getUserLong_putUserLong ..
  have hregs : (vbiosArplHandler w' .int1A get).1.ecx =
        set16 (set16 get.ecx (getUserLong w'.mem TIMER_COUNTER))
          (getUserLong w'.mem TIMER_COUNTER >>> 16) ∧
      (vbiosArplHandler w' .int1A get).1.edx =
        set16 get.ecx (getUserLong w'.mem TIMER_COUNTER) := by
    unfold vbiosArplHandler vbiosTimerHandler
    dsimp only
    rw [if_pos hget]
    exact ⟨rfl, rfl⟩
  rw [hregs.1, hregs.2, get16_set16, get16_set16, hcount]
  exact ⟨truncate_shift_halves .., truncate_halves ..⟩

/-- **The register frame.** A call leaves alone what its caller does not expect to change, and a count
that was set comes back, exactly if it does not read the timer while the upper halves of `ecx` and
`edx` differ. -/
theorem registers_framed_iff (w : World) (num : Interrupt) (r : Vm86Regs) (w₁ w₂ : World)
    (set get : Vm86Regs) :
    Framed (flagMask num r) r (vbiosArplHandler w num r).1 ∧ CountReturned w₁ w₂ set get ↔
      (num = .int1A → get8h r.eax = 0 → upper r.ecx = upper r.edx) := by
  constructor
  · rintro ⟨h, -⟩ rfl hread
    exact (upper_edx_timer hread).symm.trans h.edx
  · intro h
    refine ⟨?_, countReturned w₁ w₂ set get⟩
    have hmask : num ≠ .int15 → flagMask num r = FLAGS_CF := fun hne => if_neg fun h' => hne h'.1
    cases num with
    | int10 => exact framed_vbiosVideoHandler w r
    | int11 => exact .halves (upper_set16 ..) rfl rfl rfl rfl
    | int12 => exact .halves (upper_set16 ..) rfl rfl rfl rfl
    | int13 => exact framed_vbiosDiskHandler w r
    | int14 => exact framed_vbiosSerHandler r
    | int15 => exact framed_vbiosSysHandler w r
    | int1A => exact framed_vbiosTimerHandler w (h rfl)

/-- Registers with function 0, a live upper half of `edx`, and zeros elsewhere. -/
def liveEdx : Vm86Regs where
  eax := 0
  ebx := 0
  ecx := 0
  edx := 0x12340000
  edi := 0
  esi := 0
  ebp := 0
  eip := 0
  cs := 0
  eflags := 0
  esp := 0
  ss := 0
  es := 0
  ds := 0
  fs := 0
  gs := 0

/-- A machine whose memory is empty. -/
def emptyWorld : World where
  mem _ := 0
  tty := ⟨80, 25, 0xb8000, 4096, 4, 3, 0, 0, 0, 0x3d4, 0x3d5, false⟩
  ttyAfter := ⟨80, 25, 0xb8000, 4096, 4, 3, 0, 0, 0, 0x3d4, 0x3d5, false⟩
  hdStatus := none
  fdStatus := none
  geom := none
  junk := ⟨0, 0, 0⟩
  vcmos := none
  cmosRead _ := 0
  extendedMem := 0

theorem liveEdx_lost : ¬ Framed (flagMask .int1A liveEdx) liveEdx
    (vbiosArplHandler emptyWorld .int1A liveEdx).1 := by
  intro h
  have hedx : upper (vbiosArplHandler emptyWorld .int1A liveEdx).1.edx = upper liveEdx.ecx :=
    upper_edx_timer (by decide)
  exact absurd (hedx.symm.trans h.edx) (by decide)

end Vmm386.Vbios.Handlers
