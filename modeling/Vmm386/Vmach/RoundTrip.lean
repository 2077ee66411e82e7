import Vmm386.Vmach.Flags
import Vmm386.Vmach.Frames

/-!
# An interrupt and its IRET

`simulate_vm_int` pushes through `put_pd_val`, which writes physically contiguous bytes, and
IRET pops linear ones: a word that crosses the end of a page does not come back.
-/

namespace Vmm386.Vmach

open Mm

namespace VmSys

/-- The page at `lin` is there after a user access. -/
def touch (s : VmSys) (lin : ULong) : VmSys :=
  if Present (s.getPte lin) then s else (s.vmPflHandler 0 lin).2

/-- The byte at `lin`. -/
def byteAt (s : VmSys) (lin : ULong) : UChar :=
  s.bytes (entryPage (s.getPte lin) + pageOffset lin)

/-- The bytes from `lin` on. -/
def word (s : VmSys) (size : ℕ) (lin : ULong) : ULong :=
  (List.range size).foldr
    (fun i x => (x <<< 8) ||| (s.byteAt (lin + BitVec.ofNat 32 i)).zeroExtend 32) 0

/-- `get_user_short` and `get_user_long`: a page fault is handled before the access goes on. -/
def getUser (size : ℕ) (lin : ULong) (s : VmSys) : ULong × VmSys :=
  let s := (s.touch lin).touch (lin + BitVec.ofNat 32 (size - 1))
  (s.word size lin, s)

/-- `put_user_short` and `put_user_long`. -/
def putUser (size : ℕ) (lin val : ULong) (s : VmSys) : VmSys :=
  let s := (s.touch lin).touch (lin + BitVec.ofNat 32 (size - 1))
  { s with
    bytes := (List.range size).foldl
      (fun b i => Function.update b
        (entryPage (s.getPte (lin + BitVec.ofNat 32 i)) + pageOffset (lin + BitVec.ofNat 32 i))
        ((val >>> (8 * i)).truncate 8)) s.bytes }

/-- The machine's memory with other flags. -/
def withFlags (s : VmSys) (virtualEflags : ULong) : VmSys :=
  { s with vm := { s.vm with virtualEflags } }

end VmSys

/-- The memory of a virtual machine, through its page tables. -/
def userMem : UserMem VmSys where
  getUser := VmSys.getUser
  putUser := VmSys.putUser
  putPdVal size lin val s := s.putPdVal size val lin
  linToPhys lin s := s.mem.linToPhys s.vm.pageDir lin
  loadShort phys s := loadShort s.bytes (toLogical phys)

/-- The interrupt simulator is that of the machine's memory. -/
theorem simulateVmInt_machine (s : VmSys) (regs : Vm86Regs) (vector : ULong) :
    s.simulateVmInt regs vector =
      let m := (⟨regs, s.vm.virtualEflags, s⟩ : Machine VmSys).simulateVmInt userMem vector
      (m.regs, m.mem.withFlags m.virtualEflags) := by
  unfold VmSys.simulateVmInt Machine.simulateVmInt
  rfl

/-! ## Pages of the stack -/

/-- The page tables are in order, and no page is at physical address zero, where `lin_to_phys`
sees none. -/
structure Stackable (s : VmSys) (l : List ULong) : Prop where
  tables : Tables s.mem s.vm.pageDir l
  frames : ∀ i j, User i → Present (s.entry i j) → pteGetAddr (s.entry i j) ≠ 0
  pages : ∀ p ∈ l, toPhysical p ≠ 0

section Push

variable {s : VmSys} {l : List ULong} {lin a : ULong}

theorem Stackable.linToPhys (h : Stackable s l) (hlin : lin < KERNEL_BASE_ADDR) :
    s.mem.linToPhys s.vm.pageDir lin = 0 ↔ ¬Present (s.getPte lin) := by
  constructor
  · intro hzero hpres
    have hframe : pteGetAddr (s.getPte lin) ≠ 0 := by
      rw [VmSys.getPte_eq] at hpres ⊢
      exact h.frames _ _ (user_pageDirOffset hlin) hpres
    have hread : s.mem.readPageMapping s.vm.pageDir lin = pteGetAddr (s.getPte lin) := if_pos hpres
    rw [Mem.linToPhys, hread, if_pos hframe] at hzero
    exact hframe (BitVec.or_eq_zero_iff.mp hzero).1
  · intro hnp
    by_contra hne
    exact hnp (linToPhys_of_ne hne).1

/-- A push maps the page at `lin`, if it is not mapped, and leaves what is mapped. -/
theorem Stackable.push (h : Stackable s l) (hlin : lin < KERNEL_BASE_ADDR) (hlen : 2 ≤ l.length)
    (val : ULong) :
    ∃ l', Stackable (s.putPdVal 2 val lin) l' ∧ l.length ≤ l'.length + 2 ∧
      Present ((s.putPdVal 2 val lin).getPte lin) ∧
      entryPage ((s.putPdVal 2 val lin).getPte lin) = s.target lin ∧
      ∀ a, a < KERNEL_BASE_ADDR → Present (s.getPte a) →
        (s.putPdVal 2 val lin).getPte a = s.getPte a := by
  by_cases hpres : Present (s.getPte lin)
  · have hphys : s.mem.linToPhys s.vm.pageDir lin ≠ 0 := fun hc => (h.linToPhys hlin).mp hc hpres
    have hmem : (s.putPdVal 2 val lin).mem = s.mem := putPdVal_mapped hphys
    have hpte : ∀ a, (s.putPdVal 2 val lin).getPte a = s.getPte a := by
      intro a
      rw [VmSys.getPte, hmem]
      rfl
    refine ⟨l, ⟨?_, ?_, h.pages⟩, Nat.le_add_right _ _, by rw [hpte]; exact hpres, ?_,
      fun a _ _ => hpte a⟩
    · rw [hmem]
      exact h.tables
    · intro i j hi hp
      rw [VmSys.entry, hmem] at hp ⊢
      exact h.frames i j hi hp
    · rw [hpte, VmSys.target, if_neg hphys]
  · have hphys : s.mem.linToPhys s.vm.pageDir lin = 0 := (h.linToPhys hlin).mpr hpres
    obtain ⟨p, q, l, rfl⟩ : ∃ p q l₁, l = p :: q :: l₁ := by
      rcases l with _ | ⟨p, _ | ⟨q, l₁⟩⟩
      · cases hlen
      · exact absurd hlen (by simp)
      · exact ⟨p, q, l₁, rfl⟩
    obtain ⟨hp, htables⟩ := h.tables.allocPage
    have halign := h.tables.aligned p (List.mem_cons_self ..)
    have hflags : (PTE_READ_WRITE ||| PTE_USER ||| PTE_PRESENT) &&& PTE_ADDR = 0 := by decide
    have hi := user_pageDirOffset hlin
    have hback : ownedPage (s.entry (pageDirOffset lin) (pageTableOffset lin)) = [] :=
      if_neg fun hown => hpres hown.1
    obtain ⟨l', hm⟩ := htables.mapPage p (lin &&& PAGE_MASK)
      (pageDirOffset_and lin ▸ hi) hflags (present_flags _) (fun _ => List.cons_ne_nil _ _) (by
        rw [pageDirOffset_and, pageTableOffset_and]
        exact fun hown => absurd hown.1 hpres)
    have hmem := putPdVal_mem 2 val hphys
    rw [hp] at hmem
    rw [← hmem, pageDirOffset_and, pageTableOffset_and] at hm
    have hself : (s.putPdVal 2 val lin).getPte lin =
        toPhysical p ||| (PTE_READ_WRITE ||| PTE_USER ||| PTE_PRESENT) :=
      (hm.entry _ _ hi).trans (if_pos ⟨rfl, rfl⟩)
    have hother : ∀ i j, User i → ¬(i = pageDirOffset lin ∧ j = pageTableOffset lin) →
        (s.putPdVal 2 val lin).entry i j = s.entry i j :=
      fun i j hi hne => (hm.entry i j hi).trans (if_neg hne)
    have hl' : l' = q :: l ∨ q :: l = entryPage ((s.putPdVal 2 val lin).pde (pageDirOffset lin)) ::
        l' := by
      rcases hm.pages with ⟨-, -, hl⟩ | ⟨-, -, -, hl⟩
      · exact .inl (hl.trans (congrArg (· ++ (q :: l)) hback))
      · exact .inr hl
    refine ⟨l', ⟨hm.tables, ?_, ?_⟩, ?_, ?_, ?_, ?_⟩
    · intro i j hi hp
      by_cases hne : i = pageDirOffset lin ∧ j = pageTableOffset lin
      · have heq : (s.putPdVal 2 val lin).entry i j =
            toPhysical p ||| (PTE_READ_WRITE ||| PTE_USER ||| PTE_PRESENT) := by
          rw [hne.1, hne.2]
          exact hself
        rw [heq, pteGetAddr_or (aligned_toPhysical halign) hflags]
        exact h.pages p (List.mem_cons_self ..)
      · rw [hother i j hi hne] at hp ⊢
        exact h.frames i j hi hp
    · intro r hr
      refine h.pages r (List.mem_cons_of_mem _ ?_)
      rcases hl' with rfl | hl
      · exact hr
      · rw [hl]
        exact List.mem_cons_of_mem _ hr
    · rcases hl' with rfl | hl
      · exact Nat.le_add_right _ 1
      · have hlen := congrArg List.length hl
        rw [List.length_cons, List.length_cons] at hlen
        rw [List.length_cons, List.length_cons]
        omega
    · rw [hself, ← BitVec.or_assoc]
      exact present_flags _
    · rw [hself, entryPage_or halign hflags, VmSys.target, if_pos hphys, hp]
    · intro a ha hpa
      refine hother _ _ (user_pageDirOffset ha) fun hc => hpres ?_
      rw [VmSys.getPte_eq, ← hc.1, ← hc.2]
      exact hpa

end Push

/-! ## Words of the frame -/

theorem storeBytes_two (a val : ULong) (bytes : ULong → UChar) :
    storeBytes 2 a val bytes = Function.update (Function.update bytes a (val.truncate 8)) (a + 1)
      ((val >>> 8).truncate 8) := rfl

/-- Two bytes of pages, at different offsets. -/
theorem add_offset_ne {p q o o' : ULong} (hp : Aligned p) (hq : Aligned q) (ho : o.toNat < 4096)
    (ho' : o'.toNat < 4096) (hne : o.toNat ≠ o'.toNat) : p + o ≠ q + o' := by
  intro hc
  have hmod := congrArg (fun x : ULong => x.toNat % 4096) hc
  unfold Aligned at hp hq
  simp only [BitVec.toNat_add] at hmod
  omega

section Next

variable {lin : ULong}

theorem toNat_pageOffset_lt (lin : ULong) : (pageOffset lin).toNat < 4096 := by
  rw [toNat_pageOffset]
  exact Nat.mod_lt _ (by decide)

theorem toNat_add_one (hlin : lin < KERNEL_BASE_ADDR) : (lin + 1).toNat = lin.toNat + 1 := by
  have hlt : lin.toNat < 4160749568 := hlin
  rw [BitVec.toNat_add]
  show (lin.toNat + 1) % 2 ^ 32 = _
  omega

theorem pageOffset_add_one (hlin : lin < KERNEL_BASE_ADDR) (hin : (pageOffset lin).toNat ≠ 4095) :
    (pageOffset (lin + 1)).toNat = (pageOffset lin).toNat + 1 := by
  rw [toNat_pageOffset] at hin
  rw [toNat_pageOffset, toNat_pageOffset, toNat_add_one hlin]
  omega

/-- The next byte is in the same page. -/
theorem getPte_add_one (s : VmSys) (hlin : lin < KERNEL_BASE_ADDR)
    (hin : (pageOffset lin).toNat ≠ 4095) : s.getPte (lin + 1) = s.getPte lin := by
  rw [toNat_pageOffset] at hin
  have hdir : pageDirOffset (lin + 1) = pageDirOffset lin := by
    apply BitVec.eq_of_toNat_eq
    rw [toNat_pageDirOffset, toNat_pageDirOffset, toNat_add_one hlin]
    omega
  have htab : pageTableOffset (lin + 1) = pageTableOffset lin := by
    apply BitVec.eq_of_toNat_eq
    rw [toNat_pageTableOffset, toNat_pageTableOffset, toNat_add_one hlin]
    omega
  rw [VmSys.getPte_eq, VmSys.getPte_eq, hdir, htab]

end Next

/-- The word at `w` is in one page that is mapped, and its value is the low half of `val`. -/
structure VmSys.Holds (s : VmSys) (w val : ULong) : Prop where
  user : w < KERNEL_BASE_ADDR
  inside : (pageOffset w).toNat ≠ 4095
  present : Present (s.getPte w)
  low : s.byteAt w = val.truncate 8
  high : s.byteAt (w + 1) = (val >>> 8).truncate 8

theorem VmSys.word_two (s : VmSys) (w : ULong) :
    s.word 2 w = (s.byteAt (w + 1)).zeroExtend 32 <<< 8 ||| (s.byteAt w).zeroExtend 32 := by
  have hzero : w + BitVec.ofNat 32 0 = w := BitVec.add_zero w
  unfold VmSys.word
  show ((((0 : ULong) <<< 8) ||| (s.byteAt (w + BitVec.ofNat 32 1)).zeroExtend 32) <<< 8) |||
    (s.byteAt (w + BitVec.ofNat 32 0)).zeroExtend 32 = _
  rw [hzero]
  exact congrArg (fun x : ULong => x <<< 8 ||| (s.byteAt w).zeroExtend 32) BitVec.zero_or

theorem high_or_low (val : ULong) :
    (((val >>> 8).truncate 8).zeroExtend 32 <<< 8 ||| (val.truncate 8).zeroExtend 32 : ULong) =
      val &&& 0xffff := by
  have hlow : ((val.truncate 8).zeroExtend 32 : ULong).toNat = val.toNat % 256 := by
    rw [BitVec.toNat_setWidth, BitVec.toNat_setWidth]
    omega
  have hhigh : ((((val >>> 8).truncate 8).zeroExtend 32 <<< 8 : ULong)).toNat =
      2 ^ 8 * (val.toNat / 256 % 256) := by
    rw [BitVec.toNat_shiftLeft, BitVec.toNat_setWidth, BitVec.toNat_setWidth,
      BitVec.toNat_ushiftRight, Nat.shiftLeft_eq, Nat.shiftRight_eq_div_pow]
    omega
  have hand : (val &&& 0xffff).toNat = val.toNat % 65536 := by
    rw [BitVec.toNat_and]
    exact Nat.and_two_pow_sub_one_eq_mod _ 16
  apply BitVec.eq_of_toNat_eq
  rw [BitVec.toNat_or, hlow, hhigh, hand,
    ← Nat.two_pow_add_eq_or_of_lt (Nat.mod_lt _ (by decide)) (val.toNat / 256 % 256)]
  omega

section Holds

variable {s : VmSys} {l : List ULong} {w lin v val : ULong}

/-- A user access finds the word. -/
theorem VmSys.Holds.getUser (h : s.Holds w val) : s.getUser 2 w = (val &&& 0xffff, s) := by
  have hnext : Present (s.getPte (w + 1)) := by
    rw [getPte_add_one s h.user h.inside]
    exact h.present
  have htouch : s.touch w = s := if_pos h.present
  have htouch' : s.touch (w + 1) = s := if_pos hnext
  have hword : s.word 2 w = val &&& 0xffff := by
    rw [VmSys.word_two, h.low, h.high]
    exact high_or_low val
  show ((s.touch w).touch (w + 1) |>.word 2 w, (s.touch w).touch (w + 1)) = _
  rw [htouch, htouch', hword]

/-- A word that is pushed is there. -/
theorem Stackable.holds (h : Stackable s l) (hlin : lin < KERNEL_BASE_ADDR) (hlen : 2 ≤ l.length)
    (hin : (pageOffset lin).toNat ≠ 4095) (val : ULong) :
    (s.putPdVal 2 val lin).Holds lin val := by
  obtain ⟨-, -, -, hpres, hpage, -⟩ := h.push hlin hlen val
  have hnext := pageOffset_add_one hlin hin
  have hoff : pageOffset (lin + 1) = pageOffset lin + 1 := by
    apply BitVec.eq_of_toNat_eq
    rw [hnext, BitVec.toNat_add]
    have hlt := toNat_pageOffset_lt lin
    show _ = (_ + 1) % 2 ^ 32
    omega
  refine ⟨hlin, hin, hpres, ?_, ?_⟩
  · have hne : s.target lin + pageOffset lin ≠ s.target lin + pageOffset lin + 1 := by
      rw [BitVec.add_assoc, ← hoff, ← hpage]
      refine add_offset_ne (aligned_entryPage _) (aligned_entryPage _) (toNat_pageOffset_lt _)
        (toNat_pageOffset_lt _) ?_
      omega
    rw [VmSys.byteAt, hpage, bytes_putPdVal (.inr (.inl rfl)), storeBytes_two,
      Function.update_of_ne hne, Function.update_self]
  · rw [VmSys.byteAt, getPte_add_one _ hlin hin, hpage, hoff, ← BitVec.add_assoc,
      bytes_putPdVal (.inr (.inl rfl)), storeBytes_two, Function.update_self]

/-- Another push leaves a word at other offsets. -/
theorem VmSys.Holds.push (hw : s.Holds w v) (h : Stackable s l) (hlin : lin < KERNEL_BASE_ADDR)
    (hlen : 2 ≤ l.length) (hin : (pageOffset lin).toNat ≠ 4095)
    (hne : (pageOffset w).toNat ≠ (pageOffset lin).toNat)
    (hne₁ : (pageOffset w).toNat ≠ (pageOffset lin).toNat + 1)
    (hne₂ : (pageOffset w).toNat + 1 ≠ (pageOffset lin).toNat) (val : ULong) :
    (s.putPdVal 2 val lin).Holds w v := by
  obtain ⟨-, -, -, -, hpage, hkeep⟩ := h.push hlin hlen val
  have hpte := hkeep w hw.user hw.present
  have hbyte : ∀ o : ULong, o.toNat < 4096 → o.toNat ≠ (pageOffset lin).toNat →
      o.toNat ≠ (pageOffset lin).toNat + 1 →
      (s.putPdVal 2 val lin).bytes (entryPage (s.getPte w) + o) =
        s.bytes (entryPage (s.getPte w) + o) := by
    intro o ho h₀ h₁
    have hlt := toNat_pageOffset_lt lin
    have hone : (pageOffset lin + 1).toNat = (pageOffset lin).toNat + 1 := by
      rw [BitVec.toNat_add]
      show (_ + 1) % 2 ^ 32 = _
      omega
    have halign : Aligned (s.target lin) := hpage ▸ aligned_entryPage _
    rw [bytes_putPdVal (.inr (.inl rfl)), storeBytes_two, BitVec.add_assoc,
      Function.update_of_ne, Function.update_of_ne]
    · exact add_offset_ne (aligned_entryPage _) halign ho hlt h₀
    · exact add_offset_ne (aligned_entryPage _) halign ho (by omega) (by omega)
  have hnext := pageOffset_add_one hw.user hw.inside
  refine ⟨hw.user, hw.inside, hpte ▸ hw.present, ?_, ?_⟩
  · rw [VmSys.byteAt, hpte, hbyte _ (toNat_pageOffset_lt _) hne hne₁]
    exact hw.low
  · rw [VmSys.byteAt, getPte_add_one _ hw.user hw.inside, hpte,
      hbyte _ (toNat_pageOffset_lt _) (by omega) (by omega), ← getPte_add_one s hw.user hw.inside]
    exact hw.high

end Holds

/-! ## The frame -/

/-- The registers after a word was popped. -/
def Vm86Regs.pop (regs : Vm86Regs) : Vm86Regs :=
  { regs with esp := set16 regs.esp ((regs.esp &&& 0xffff) + 2) }

theorem set16_and (x v : ULong) : set16 x v &&& 0xffff = v &&& 0xffff := by
  have hzero : (0xffff0000 &&& 0xffff : ULong) = 0 := by decide
  have hsame : (0xffff &&& 0xffff : ULong) = 0xffff := by decide
  rw [set16, BitVec.and_or_distrib_right, BitVec.and_assoc, hzero, BitVec.and_assoc, hsame]
  exact (congrArg (· ||| (v &&& 0xffff)) BitVec.and_zero).trans BitVec.zero_or

theorem set16_set16 (x u v : ULong) : set16 (set16 x u) v = set16 x v := by
  have hzero : (0xffff &&& 0xffff0000 : ULong) = 0 := by decide
  have hsame : (0xffff0000 &&& 0xffff0000 : ULong) = 0xffff0000 := by decide
  rw [set16, set16, set16, BitVec.and_or_distrib_right, BitVec.and_assoc, hsame, BitVec.and_assoc,
    hzero]
  exact congrArg (· ||| (v &&& 0xffff))
    ((congrArg ((x &&& 0xffff0000) ||| ·) BitVec.and_zero).trans BitVec.or_zero)

theorem set16_low (x v : ULong) : set16 x (v &&& 0xffff) = set16 x v := by
  have hsame : (0xffff &&& 0xffff : ULong) = 0xffff := by decide
  rw [set16, set16, BitVec.and_assoc, hsame]

theorem set16_self (x : ULong) : set16 x (x &&& 0xffff) = x := by
  rw [set16_low, set16, ← BitVec.and_or_distrib_left]
  exact BitVec.and_allOnes

theorem toNat_low (x : ULong) : (x &&& 0xffff).toNat = x.toNat % 65536 := by
  rw [BitVec.toNat_and]
  exact Nat.and_two_pow_sub_one_eq_mod _ 16

theorem low_sub_add (x : ULong) : ((x &&& 0xffff) - 2 &&& 0xffff) + 2 &&& 0xffff = x &&& 0xffff := by
  apply BitVec.eq_of_toNat_eq
  rw [toNat_low, BitVec.toNat_add, toNat_low, BitVec.toNat_sub, toNat_low]
  show ((2 ^ 32 - 2 + x.toNat % 65536) % 2 ^ 32 % 65536 + 2) % 2 ^ 32 % 65536 = _
  omega

theorem push_pop (regs : Vm86Regs) : regs.push.pop = regs := by
  have hesp : set16 regs.push.esp ((regs.push.esp &&& 0xffff) + 2) = regs.esp := by
    rw [Vm86Regs.push, set16_set16, set16_and, ← set16_low, low_sub_add, set16_self]
  rw [Vm86Regs.pop, hesp]
  rfl

/-- IRET, where the three words are there. -/
theorem iret_of_getUser {M : Type*} {U : UserMem M} {m : Machine M} {ip cs flags : ULong}
    (hip : U.getUser 2 m.regs.top m.mem = (ip, m.mem))
    (hcs : U.getUser 2 m.regs.pop.top m.mem = (cs, m.mem))
    (hflags : U.getUser 2 m.regs.pop.pop.top m.mem = (flags, m.mem)) :
    m.iret U false = Machine.loadFlags { m with
      regs := { m.regs.pop.pop.pop with eip := set16 m.regs.eip ip, cs := cs.truncate 16 } }
      false flags := by
  have h₂ : U.getUser 2 ({ m.regs.pop with eip := set16 m.regs.eip ip } : Vm86Regs).top m.mem =
      (cs, m.mem) := hcs
  have h₃ : U.getUser 2 ({ m.regs.pop.pop with
      eip := set16 m.regs.eip ip, cs := cs.truncate 16 } : Vm86Regs).top m.mem =
      (flags, m.mem) := hflags
  unfold Vm86Regs.pop at h₂ h₃ ⊢
  unfold Machine.iret
  simp only [Bool.false_eq_true, if_false, popSp_two, hip] at h₂ h₃ ⊢
  rw [h₂]
  simp only
  rw [h₃]

/-- Where the words are depends on SS and SP only. -/
theorem pops_congr {r r' : Vm86Regs} (hss : r'.ss = r.ss) (hesp : r'.esp = r.esp) :
    r'.top = r.top ∧ r'.pop.top = r.pop.top ∧ r'.pop.pop.top = r.pop.pop.top ∧
      r'.pop.pop.pop.esp = r.pop.pop.pop.esp := by
  unfold Vm86Regs.pop Vm86Regs.top
  rw [hss, hesp]
  exact ⟨rfl, rfl, rfl, rfl⟩

/-- The handler finds last what was pushed first. -/
theorem simulateVmInt_pops {M : Type*} {U : UserMem M} {m : Machine M} (vector : ULong) :
    (m.simulateVmInt U vector).regs.top = m.regs.push.push.push.top ∧
      (m.simulateVmInt U vector).regs.pop.top = m.regs.push.push.top ∧
      (m.simulateVmInt U vector).regs.pop.pop.top = m.regs.push.top ∧
      (m.simulateVmInt U vector).regs.pop.pop.pop.esp = m.regs.esp := by
  have hss : (m.simulateVmInt U vector).regs.ss = m.regs.push.push.push.ss := rfl
  have hesp : (m.simulateVmInt U vector).regs.esp = m.regs.push.push.push.esp := rfl
  have hpops := pops_congr hss hesp
  rw [push_pop, push_pop, push_pop] at hpops
  exact hpops

/-- What IRET restores. -/
theorem iret_restores {M : Type*} {U : UserMem M} {m : Machine M} {ip cs flags : ULong}
    (hip : U.getUser 2 m.regs.top m.mem = (ip, m.mem))
    (hcs : U.getUser 2 m.regs.pop.top m.mem = (cs, m.mem))
    (hflags : U.getUser 2 m.regs.pop.pop.top m.mem = (flags, m.mem)) :
    (m.iret U false).regs.cs = cs.truncate 16 ∧
      (m.iret U false).regs.eip = set16 m.regs.eip ip ∧
      (m.iret U false).regs.esp = m.regs.pop.pop.pop.esp ∧
      flagsWord (m.iret U false).virtualEflags (m.iret U false).regs.eflags =
        set16 m.virtualEflags flags := by
  rw [iret_of_getUser hip hcs hflags]
  exact ⟨rfl, rfl, rfl, flagsWord_load _⟩

/-! ## The round trip -/

/-- The byte at `a`, if it is there in `s`, is the same in `s'`. -/
def VmSys.SameByte (s s' : VmSys) (a : ULong) : Prop :=
  Present (s.getPte a) → Present (s'.getPte a) ∧ s'.byteAt a = s.byteAt a

theorem VmSys.Holds.same {s s' : VmSys} {w val : ULong} (h : s.Holds w val) (hlow : s.SameByte s' w)
    (hhigh : s.SameByte s' (w + 1)) : s'.Holds w val := by
  obtain ⟨hpres, hlow⟩ := hlow h.present
  obtain ⟨-, hhigh⟩ := hhigh ((getPte_add_one s h.user h.inside).symm ▸ h.present)
  exact ⟨h.user, h.inside, hpres, hlow.trans h.low, hhigh.trans h.high⟩

/-- The handler, entered in the machine `m`, gets to its IRET in `m'` with its frame as it was. -/
structure StackUntouched (m m' : Machine VmSys) : Prop where
  ss : m'.regs.ss = m.regs.ss
  esp : m'.regs.esp = m.regs.esp
  bytes : ∀ w ∈ [m.regs.top, m.regs.pop.top, m.regs.pop.pop.top],
    m.mem.SameByte m'.mem w ∧ m.mem.SameByte m'.mem (w + 1)

/-- What was interrupted in `m` goes on in `m'`, where the handler left `handler`: a 16-bit IRET
leaves the high halves of IP and of the flags. -/
structure RoundTrip (m handler m' : Machine VmSys) : Prop where
  cs : m'.regs.cs = m.regs.cs
  ip : m'.regs.eip = set16 handler.regs.eip m.regs.eip
  esp : m'.regs.esp = m.regs.esp
  flags : flagsWord m'.virtualEflags m'.regs.eflags =
    set16 handler.virtualEflags (flagsWord m.virtualEflags m.regs.eflags)

/-- One of the three words that are pushed crosses the end of a page. -/
def Crosses (ss : UShort) (esp : ULong) : Prop :=
  (ss.toNat * 16 + esp.toNat) % 4096 ∈ ({1, 3, 5} : Set ℕ)

theorem offset_top (regs : Vm86Regs) :
    (pageOffset regs.top).toNat = (regs.ss.toNat * 16 + regs.esp.toNat) % 4096 := by
  rw [toNat_pageOffset, toNat_top]
  omega

theorem offset_push (regs : Vm86Regs) :
    (pageOffset regs.push.top).toNat = ((pageOffset regs.top).toNat + 4094) % 4096 := by
  have hesp : regs.push.esp.toNat % 65536 = (regs.esp.toNat % 65536 + 65534) % 65536 := by
    rw [← toNat_low, Vm86Regs.push, set16_and, toNat_low, BitVec.toNat_sub, toNat_low]
    show (2 ^ 32 - 2 + regs.esp.toNat % 65536) % 2 ^ 32 % 65536 = _
    omega
  have hss : regs.push.ss = regs.ss := rfl
  rw [offset_top, offset_top, hss]
  omega

section RoundTrip

variable {m m' : Machine VmSys} {l : List ULong}

/-- The words of the frame are there when the handler is entered. -/
theorem simulateVmInt_holds (h : Stackable m.mem l) (hlen : 6 ≤ l.length)
    (hin : ¬Crosses m.regs.ss m.regs.esp) (vector : ULong) :
    let s := (m.simulateVmInt userMem vector).mem
    s.Holds m.regs.push.push.push.top m.regs.eip ∧
      s.Holds m.regs.push.push.top (m.regs.cs.zeroExtend 32) ∧
      s.Holds m.regs.push.top (flagsWord m.virtualEflags m.regs.eflags) := by
  have ho := offset_top m.regs
  have hlt := toNat_pageOffset_lt m.regs.top
  have h₁ := offset_push m.regs
  have h₂ := offset_push m.regs.push
  have h₃ := offset_push m.regs.push.push
  rw [Crosses, ← ho, Set.mem_insert_iff, Set.mem_insert_iff, Set.mem_singleton_iff] at hin
  set o := (pageOffset m.regs.top).toNat
  obtain ⟨l₁, hs₁, hl₁, -⟩ := h.push (top_lt m.regs.push) (by omega)
    (flagsWord m.virtualEflags m.regs.eflags)
  obtain ⟨l₂, hs₂, hl₂, -⟩ := hs₁.push (top_lt m.regs.push.push) (by omega)
    (m.regs.cs.zeroExtend 32)
  have hflags := h.holds (top_lt m.regs.push) (by omega) (by omega)
    (flagsWord m.virtualEflags m.regs.eflags)
  have hcs := hs₁.holds (top_lt m.regs.push.push) (by omega) (by omega) (m.regs.cs.zeroExtend 32)
  have hflags' := hflags.push hs₁ (top_lt m.regs.push.push) (by omega) (by omega) (by omega)
    (by omega) (by omega) (m.regs.cs.zeroExtend 32)
  have hlast := top_lt m.regs.push.push.push
  refine ⟨hs₂.holds hlast (by omega) (by omega) m.regs.eip, ?_, ?_⟩
  · exact hcs.push hs₂ hlast (by omega) (by omega) (by omega) (by omega) (by omega) m.regs.eip
  · exact hflags'.push hs₂ hlast (by omega) (by omega) (by omega) (by omega) (by omega) m.regs.eip

theorem truncate_low (x : UShort) : ((x.zeroExtend 32 &&& 0xffff : ULong).truncate 16 : UShort) = x := by
  apply BitVec.eq_of_toNat_eq
  have hlt := x.isLt
  rw [BitVec.toNat_setWidth, toNat_low, BitVec.toNat_setWidth]
  omega

/-- Where no word crosses the end of a page, what was interrupted goes on. -/
theorem roundTrip_of_not_crosses (h : Stackable m.mem l) (hlen : 6 ≤ l.length)
    (hin : ¬Crosses m.regs.ss m.regs.esp) {vector : ULong}
    (hm : StackUntouched (m.simulateVmInt userMem vector) m') :
    RoundTrip m m' (m'.iret userMem false) := by
  obtain ⟨hip, hcs, hflags⟩ := simulateVmInt_holds h hlen hin vector
  obtain ⟨htop, hpop, hpop₂, hpop₃⟩ := pops_congr hm.ss hm.esp
  obtain ⟨h₁, h₂, h₃, hsp⟩ := simulateVmInt_pops (U := userMem) (m := m) vector
  have hfind : ∀ {w val}, w ∈ [(m.simulateVmInt userMem vector).regs.top,
      (m.simulateVmInt userMem vector).regs.pop.top,
      (m.simulateVmInt userMem vector).regs.pop.pop.top] →
      (m.simulateVmInt userMem vector).mem.Holds w val →
        userMem.getUser 2 w m'.mem = (val &&& 0xffff, m'.mem) := by
    intro w val hw hval
    obtain ⟨hlow, hhigh⟩ := hm.bytes w hw
    exact (hval.same hlow hhigh).getUser
  rw [← h₁] at hip
  rw [← h₂] at hcs
  rw [← h₃] at hflags
  have hip := hfind (List.mem_cons_self ..) hip
  have hcs := hfind (List.mem_cons_of_mem _ (List.mem_cons_self ..)) hcs
  have hflags := hfind (List.mem_cons_of_mem _ (List.mem_cons_of_mem _ (List.mem_singleton_self _)))
    hflags
  rw [← htop] at hip
  rw [← hpop] at hcs
  rw [← hpop₂] at hflags
  obtain ⟨hcs, hip, hesp, hflags⟩ := iret_restores hip hcs hflags
  rw [truncate_low] at hcs
  rw [set16_low] at hip hflags
  exact ⟨hcs, hip, hesp.trans (hpop₃.trans hsp), hflags⟩

end RoundTrip

/-! ## A word that crosses -/

/-- A machine whose first 4M all show the page at 0x802000, with six pages free. -/
def flatVm : VmSys where
  mem :=
    { pages :=
        { links := ⟨0x900000, fun p => if p = 0x905000 then NULL else p + 0x1000⟩
          usedPages := 4
          availablePages := 6 }
      table := fun pt i =>
        if pt = 0x801000 then toPhysical 0x802000 ||| PTE_USER ||| PTE_READ_WRITE ||| PTE_PRESENT
        else if pt = 0x800000 ∧ i = 0 then
          toPhysical 0x801000 ||| PTE_USER ||| PTE_READ_WRITE ||| PTE_PRESENT
        else 0 }
  bytes := fun _ => 0
  emptyPage := 0x803000
  logicalKernelPd := 0x804000
  others := {0x803000}
  vm := ⟨0x800000, true, fun _ => 0, 0x4000⟩

/-- The entry of each page. -/
def flatEntry : ULong := toPhysical 0x802000 ||| PTE_USER ||| PTE_READ_WRITE ||| PTE_PRESENT

theorem flatVm_pde (i : ULong) : flatVm.mem.table 0x800000 i =
    if i = 0 then toPhysical 0x801000 ||| PTE_USER ||| PTE_READ_WRITE ||| PTE_PRESENT else 0 := by
  unfold flatVm
  have hne : ¬(0x800000 : ULong) = 0x801000 := by decide
  simp only [hne, if_false, true_and]

theorem flatVm_entry {i : ULong} (j : ULong) :
    flatVm.entry i j = if i = 0 then flatEntry else 0 := by
  show flatVm.mem.entry 0x800000 i j = _
  rw [Mem.entry, flatVm_pde]
  by_cases hi : i = 0
  · rw [if_pos hi, if_neg (by decide), if_pos hi]
    have hpt : entryPage (toPhysical 0x801000 ||| PTE_USER ||| PTE_READ_WRITE ||| PTE_PRESENT) =
        0x801000 := by decide
    rw [hpt]
    show (if (0x801000 : ULong) = 0x801000 then flatEntry else 0) = flatEntry
    rw [if_pos rfl]
  · rw [if_neg hi, if_neg hi, if_pos not_present_zero]

theorem flatVm_stackable :
    Stackable flatVm [0x900000, 0x901000, 0x902000, 0x903000, 0x904000, 0x905000] := by
  have hnext : ∀ p : ULong, p ≠ 0x905000 → flatVm.mem.pages.links.next p = p + 0x1000 :=
    fun p hp => if_neg hp
  have hlast : flatVm.mem.pages.links.next 0x905000 = NULL := rfl
  have hpages : flatVm.mem.pages.Free
      [0x900000, 0x901000, 0x902000, 0x903000, 0x904000, 0x905000] :=
    ⟨⟨⟨rfl, by decide, hnext _ (by decide), by decide, hnext _ (by decide), by decide,
      hnext _ (by decide), by decide, hnext _ (by decide), by decide, hnext _ (by decide),
      by decide, hlast⟩, nofun⟩, rfl⟩
  refine ⟨⟨hpages, ?_, by decide, ?_, ?_⟩, ?_, ?_⟩
  · simp [Aligned]
  · intro i _ hp
    change Present (flatVm.mem.table 0x800000 i) at hp
    change entryPage (flatVm.mem.table 0x800000 i) ∉ _ ∧
      entryPage (flatVm.mem.table 0x800000 i) ≠ 0x800000
    rw [flatVm_pde] at hp ⊢
    by_cases hi : i = 0
    · rw [if_pos hi]
      decide
    · rw [if_neg hi] at hp
      exact absurd hp not_present_zero
  · intro i i' _ _ hp hp' _
    change Present (flatVm.mem.table 0x800000 i) at hp
    change Present (flatVm.mem.table 0x800000 i') at hp'
    rw [flatVm_pde] at hp hp'
    by_cases hi : i = 0
    · by_cases hi' : i' = 0
      · rw [hi, hi']
      · rw [if_neg hi'] at hp'
        exact absurd hp' not_present_zero
    · rw [if_neg hi] at hp
      exact absurd hp not_present_zero
  · intro i j _ hp
    rw [flatVm_entry] at hp ⊢
    by_cases hi : i = 0
    · rw [if_pos hi]
      decide
    · rw [if_neg hi] at hp
      exact absurd hp not_present_zero
  · simp [toPhysical, PHYS_MAP]

/-- The first 4M all show the page at 0x802000, and its first byte is zero. -/
structure Flat (s : VmSys) : Prop where
  pte : ∀ a : ULong, a.toNat < 4194304 → s.getPte a = flatEntry
  zero : s.bytes 0x802000 = 0

namespace Flat

variable {s : VmSys} {w lin : ULong}

theorem flatVm : Flat flatVm := by
  refine ⟨fun a ha => ?_, rfl⟩
  rw [VmSys.getPte_eq, flatVm_entry, if_pos]
  apply BitVec.eq_of_toNat_eq
  rw [toNat_pageDirOffset]
  exact Nat.div_eq_of_lt ha

theorem push (h : Flat s) (hlin : lin.toNat < 4194304) (hoff : (pageOffset lin).toNat ≠ 0)
    (val : ULong) : Flat (s.putPdVal 2 val lin) := by
  have hpres : Present flatEntry := by decide
  rw [← h.pte lin hlin] at hpres
  have hread : s.mem.readPageMapping s.vm.pageDir lin = pteGetAddr flatEntry := by
    rw [← h.pte lin hlin]
    exact if_pos hpres
  have hphys : s.mem.linToPhys s.vm.pageDir lin ≠ 0 := by
    rw [Mem.linToPhys, hread, if_pos (by decide)]
    exact fun hc => absurd (BitVec.or_eq_zero_iff.mp hc).1 (by decide)
  have hpage : s.target lin = 0x802000 := by
    rw [VmSys.target, if_neg hphys, h.pte lin hlin]
    decide
  have hmem : (s.putPdVal 2 val lin).mem = s.mem := putPdVal_mapped hphys
  refine ⟨fun a ha => ?_, ?_⟩
  · rw [VmSys.getPte, hmem]
    exact h.pte a ha
  · -- the two bytes are not the first of the page
    have hlt := toNat_pageOffset_lt lin
    have hne : (0x802000 : ULong) ≠ 0x802000 + pageOffset lin := by
      intro hc
      have hc := congrArg BitVec.toNat hc
      rw [BitVec.toNat_add] at hc
      change 0x802000 = (0x802000 + _) % 2 ^ 32 at hc
      omega
    have hne' : (0x802000 : ULong) ≠ 0x802000 + pageOffset lin + 1 := by
      intro hc
      have hc := congrArg BitVec.toNat hc
      rw [BitVec.toNat_add, BitVec.toNat_add] at hc
      change 0x802000 = ((0x802000 + _) % 2 ^ 32 + 1) % 2 ^ 32 at hc
      omega
    rw [bytes_putPdVal (.inr (.inl rfl)), hpage, storeBytes_two, Function.update_of_ne hne',
      Function.update_of_ne hne]
    exact h.zero

/-- A word that crosses the end of its page is read from the page's last and first byte. -/
theorem getUser (h : Flat s) (hw : w.toNat + 1 < 4194304) :
    ∃ v, s.getUser 2 w = (v, s) ∧ ((pageOffset w).toNat = 4095 → v.toNat < 256) := by
  have hpres : Present flatEntry := by decide
  have hnext : (w + 1).toNat = w.toNat + 1 := by
    rw [BitVec.toNat_add]
    show (w.toNat + 1) % 2 ^ 32 = _
    omega
  have hpte : s.getPte (w + 1) = flatEntry := h.pte _ (by omega)
  have htouch : s.touch w = s := if_pos ((h.pte w (by omega)).symm ▸ hpres)
  have htouch' : s.touch (w + 1) = s := if_pos (hpte.symm ▸ hpres)
  refine ⟨s.word 2 w, ?_, fun hoff => ?_⟩
  · show ((s.touch w).touch (w + 1) |>.word 2 w, (s.touch w).touch (w + 1)) = _
    rw [htouch, htouch']
  · have hoff' : pageOffset (w + 1) = 0 := by
      apply BitVec.eq_of_toNat_eq
      rw [toNat_pageOffset] at hoff
      rw [toNat_pageOffset, hnext]
      show _ = 0
      omega
    have hpage : entryPage flatEntry + 0 = 0x802000 := by decide
    have hbyte : s.byteAt (w + 1) = 0 := by
      rw [VmSys.byteAt, hpte, hoff', hpage]
      exact h.zero
    rw [VmSys.word_two, hbyte]
    show ((0 : ULong) ||| (s.byteAt w).zeroExtend 32).toNat < 256
    rw [BitVec.toNat_or, BitVec.toNat_setWidth]
    have hlt := (s.byteAt w).isLt
    show (0 ||| _) < 256
    rw [Nat.zero_or]
    omega

end Flat

/-- A machine whose CS, IP and flags all have a high byte. -/
def flatMachine (ss : UShort) (esp : ULong) : Machine VmSys where
  regs := ⟨0x100, 0x100, 0, esp, ss⟩
  virtualEflags := 0x4000
  mem := flatVm

theorem StackUntouched.refl (m : Machine VmSys) : StackUntouched m m :=
  ⟨rfl, rfl, fun _ _ => ⟨fun hp => ⟨hp, rfl⟩, fun hp => ⟨hp, rfl⟩⟩⟩

theorem set16_inj {x a b : ULong} (h : set16 x a = set16 x b) : a.toNat % 65536 = b.toNat % 65536 := by
  have hlow := congrArg (fun v : ULong => (v &&& 0xffff).toNat) h
  simp only [set16_and, toNat_low] at hlow
  exact hlow

/-- Where a word crosses the end of a page, its high byte is lost. -/
theorem flatMachine_not_roundTrip {ss : UShort} {esp : ULong} (hc : Crosses ss esp) :
    ¬RoundTrip (flatMachine ss esp) ((flatMachine ss esp).simulateVmInt userMem 0)
      (((flatMachine ss esp).simulateVmInt userMem 0).iret userMem false) := by
  intro hround
  set m := flatMachine ss esp with hm
  have ho := offset_top m.regs
  have h₁ := offset_push m.regs
  have h₂ := offset_push m.regs.push
  have h₃ := offset_push m.regs.push.push
  have hcross : (m.regs.ss.toNat * 16 + m.regs.esp.toNat) % 4096 ∈ ({1, 3, 5} : Set ℕ) := hc
  rw [← ho, Set.mem_insert_iff, Set.mem_insert_iff, Set.mem_singleton_iff] at hcross
  have hlow : ∀ r : Vm86Regs, r.top.toNat + 1 < 4194304 := by
    intro r
    have hss := r.ss.isLt
    rw [toNat_top]
    omega
  have hflat₁ : Flat (flatVm.putPdVal 2 (flagsWord 0x4000 0) m.regs.push.top) :=
    Flat.flatVm.push (Nat.lt_of_succ_lt (hlow m.regs.push)) (by omega) _
  have hflat₂ := hflat₁.push (Nat.lt_of_succ_lt (hlow m.regs.push.push)) (by omega)
    (m.regs.cs.zeroExtend 32)
  have hflat : Flat (m.simulateVmInt userMem 0).mem :=
    hflat₂.push (Nat.lt_of_succ_lt (hlow m.regs.push.push.push)) (by omega) m.regs.eip
  obtain ⟨htop, hpop, hpop₂, -⟩ := simulateVmInt_pops (U := userMem) (m := m) 0
  obtain ⟨ip, hip, hip'⟩ := hflat.getUser (hlow m.regs.push.push.push)
  obtain ⟨cs, hcs, hcs'⟩ := hflat.getUser (hlow m.regs.push.push)
  obtain ⟨flags, hflags, hflags'⟩ := hflat.getUser (hlow m.regs.push)
  rw [← htop] at hip
  rw [← hpop] at hcs
  rw [← hpop₂] at hflags
  obtain ⟨hcs₁, hip₁, -, hflags₁⟩ := iret_restores (U := userMem) hip hcs hflags
  have hip₂ := set16_inj (hip₁.symm.trans hround.ip)
  have hflags₂ := set16_inj (hflags₁.symm.trans hround.flags)
  have hcs₂ := congrArg BitVec.toNat (hcs₁.symm.trans hround.cs)
  rw [BitVec.toNat_setWidth] at hcs₂
  have heip : m.regs.eip.toNat % 65536 = 256 := rfl
  have hcode : m.regs.cs.toNat = 256 := rfl
  have hword : (flagsWord m.virtualEflags m.regs.eflags).toNat % 65536 = 16384 :=
    (by decide : (flagsWord 0x4000 0).toNat % 65536 = 16384)
  rcases hcross with hcross | hcross | hcross
  · have := hflags' (by omega)
    omega
  · have := hcs' (by omega)
    omega
  · have := hip' (by omega)
    omega

/-- **An interrupt and its IRET.** With page tables in order and pages to map, `simulate_vm_int`
and the 16-bit IRET of a handler that leaves its frame alone restore CS, IP, SP and the flags,
unless one of the three words crosses the end of a page. -/
theorem interrupt_round_trip (ss : UShort) (esp : ULong) :
    (∀ (m m' : Machine VmSys) (l : List ULong) (vector : ULong), m.regs.ss = ss →
      m.regs.esp = esp → Stackable m.mem l → 6 ≤ l.length →
      StackUntouched (m.simulateVmInt userMem vector) m' →
        RoundTrip m m' (m'.iret userMem false)) ↔ ¬Crosses ss esp := by
  constructor
  · intro hall hc
    exact flatMachine_not_roundTrip hc (hall _ _ _ _ rfl rfl flatVm_stackable (le_refl 6)
      (StackUntouched.refl _))
  · rintro hin m m' l vector rfl rfl h hlen hm
    exact roundTrip_of_not_crosses h hlen hin hm

/-- With SS zero and SP one, the word of the flags is at the last byte of a page. -/
theorem round_trip_crosses : ¬∀ (m m' : Machine VmSys) (l : List ULong) (vector : ULong),
    Stackable m.mem l → 6 ≤ l.length → StackUntouched (m.simulateVmInt userMem vector) m' →
      RoundTrip m m' (m'.iret userMem false) := by
  intro hall
  have hcross : Crosses 0 1 := .inl rfl
  exact flatMachine_not_roundTrip hcross (hall _ _ _ _ flatVm_stackable (le_refl 6)
    (StackUntouched.refl _))

end Vmm386.Vmach
