import Vmm386.Vmach.RoundTrip

/-!
# The vector of an interrupt

`simulate_vm_int` looks up the physical address of the vector, and loads from it after the
pushes. Where no page is mapped the address is zero, and the load is one of the host's memory.
-/

namespace Vmm386.Vmach

open Mm

namespace VmSys

/-- The same machine, with other bytes in the physical memory. -/
def withBytes (s : VmSys) (b : ULong → UChar) : VmSys :=
  { s with toMemory := { s.toMemory with bytes := b } }

/-- The byte at a linear address, where `b` are the bytes of the memory; zero without a page. -/
def guestByte (s : VmSys) (b : ULong → UChar) (lin : ULong) : UChar :=
  let phys := s.mem.linToPhys s.vm.pageDir lin
  if phys = 0 then 0 else b (toLogical phys)

/-- Two bytes at a linear address. -/
def guestShort (s : VmSys) (b : ULong → UChar) (lin : ULong) : UShort :=
  s.guestByte b (lin + 1) ++ s.guestByte b lin

/-- The bytes `b` are what the guest sees in its pages. -/
def SameGuest (s : VmSys) (b : ULong → UChar) : Prop :=
  ∀ lin, s.guestByte b lin = s.guestByte s.bytes lin

/-- The interrupt takes CS and IP from the four bytes at the vector, as they are after the
pushes, and nothing that the guest does not see has an effect on the registers. -/
structure FromGuest (s : VmSys) (regs : Vm86Regs) (vector : ULong) : Prop where
  cs : (s.simulateVmInt regs vector).1.cs =
    s.guestShort (s.simulateVmInt regs vector).2.bytes (vector * 4 + 2)
  ip : (s.simulateVmInt regs vector).1.eip = set16 regs.eip
    ((s.guestShort (s.simulateVmInt regs vector).2.bytes (vector * 4)).zeroExtend 32)
  same : ∀ b, s.SameGuest b →
    ((s.withBytes b).simulateVmInt regs vector).1 = (s.simulateVmInt regs vector).1

variable {s : VmSys} {regs : Vm86Regs} {vector lin a : ULong} {b b' : ULong → UChar}

/-! ## The pushes -/

theorem withBytes_putPdVal (lin val : ULong) :
    (s.withBytes b).putPdVal 2 val lin =
      (s.putPdVal 2 val lin).withBytes (storeBytes 2 (s.target lin + pageOffset lin) val b) := by
  have h : ((s.withBytes b).putPdVal 2 val lin).bytes =
      storeBytes 2 (s.target lin + pageOffset lin) val b := bytes_putPdVal (.inr (.inl rfl))
  rw [← h]
  rfl

theorem storeBytes_two_congr (val : ULong) {o : ULong} (h : b a = b' a) :
    storeBytes 2 o val b a = storeBytes 2 o val b' a := by
  rw [storeBytes_two, storeBytes_two]
  by_cases hhigh : a = o + 1
  · rw [hhigh, Function.update_self, Function.update_self]
  · rw [Function.update_of_ne hhigh, Function.update_of_ne hhigh]
    by_cases hlow : a = o
    · rw [hlow, Function.update_self, Function.update_self]
    · rw [Function.update_of_ne hlow, Function.update_of_ne hlow, h]

theorem storeBytes_two_of_ne (val : ULong) {o : ULong} (hlow : a ≠ o) (hhigh : a ≠ o + 1) :
    storeBytes 2 o val b a = b a := by
  rw [storeBytes_two, Function.update_of_ne hhigh, Function.update_of_ne hlow]

/-- What the three pushes make of the bytes of the memory. -/
def pushedBytes (s : VmSys) (regs : Vm86Regs) (b : ULong → UChar) : ULong → UChar :=
  storeBytes 2 ((s.pushCs regs).target regs.push.push.push.top +
      pageOffset regs.push.push.push.top) regs.eip
    (storeBytes 2 ((s.pushFlags regs).target regs.push.push.top +
        pageOffset regs.push.push.top) (regs.cs.zeroExtend 32)
      (storeBytes 2 (s.target regs.push.top + pageOffset regs.push.top)
        (flagsWord s.vm.virtualEflags regs.eflags) b))

theorem withBytes_pushFlags :
    (s.withBytes b).pushFlags regs =
      (s.pushFlags regs).withBytes (storeBytes 2 (s.target regs.push.top +
        pageOffset regs.push.top) (flagsWord s.vm.virtualEflags regs.eflags) b) := by
  have h := withBytes_putPdVal (s := s) (b := b) regs.push.top
    (flagsWord s.vm.virtualEflags regs.eflags)
  exact congrArg (fun s' : VmSys => { s' with vm := { s'.vm with
    virtualEflags := s'.vm.virtualEflags &&& ~~~(FLAGS_IF ||| FLAGS_TF) } }) h

theorem withBytes_pushCs :
    (s.withBytes b).pushCs regs =
      (s.pushCs regs).withBytes (storeBytes 2 ((s.pushFlags regs).target regs.push.push.top +
        pageOffset regs.push.push.top) (regs.cs.zeroExtend 32)
          (storeBytes 2 (s.target regs.push.top + pageOffset regs.push.top)
            (flagsWord s.vm.virtualEflags regs.eflags) b)) := by
  rw [pushCs, withBytes_pushFlags]
  exact withBytes_putPdVal _ _

/-- The memory after the interrupt, from any bytes of it. -/
theorem withBytes_simulateVmInt (s : VmSys) (regs : Vm86Regs) (vector : ULong)
    (b : ULong → UChar) :
    ((s.withBytes b).simulateVmInt regs vector).2 =
      ((s.pushCs regs).putPdVal 2 regs.eip regs.push.push.push.top).withBytes
        (s.pushedBytes regs b) := by
  change ((s.withBytes b).pushCs regs).putPdVal 2 regs.eip regs.push.push.push.top = _
  rw [withBytes_pushCs]
  exact withBytes_putPdVal _ _

/-- The registers after the interrupt, from any bytes of the memory. -/
theorem regs_simulateVmInt (s : VmSys) (regs : Vm86Regs) (vector : ULong) (b : ULong → UChar) :
    ((s.withBytes b).simulateVmInt regs vector).1 =
      { regs.push.push.push with
        cs := loadShort (s.pushedBytes regs b)
          (toLogical (s.mem.linToPhys s.vm.pageDir (vector * 4) + 2))
        eip := set16 regs.eip ((loadShort (s.pushedBytes regs b)
          (toLogical (s.mem.linToPhys s.vm.pageDir (vector * 4)))).zeroExtend 32) } := by
  have hbytes := congrArg (fun s' : VmSys => s'.bytes)
    (withBytes_simulateVmInt s regs vector b)
  change _ = s.pushedBytes regs b at hbytes
  rw [← hbytes]
  rfl

theorem pushedBytes_congr (h : b a = b' a) : s.pushedBytes regs b a = s.pushedBytes regs b' a :=
  storeBytes_two_congr _ (storeBytes_two_congr _ (storeBytes_two_congr _ h))

/-! ## A page for the vector -/

theorem word_add_zero (x : ULong) : x + 0 = x := by simp

theorem toNat_vector (vector : ULong) {k : ULong} (hk : k < 4) :
    (vector * 4 + k).toNat = (vector * 4).toNat + k.toNat ∧ (vector * 4).toNat % 4 = 0 := by
  have hlt : k.toNat < 4 := hk
  have hmul : (vector * 4).toNat = vector.toNat * 4 % 2 ^ 32 := BitVec.toNat_mul ..
  rw [BitVec.toNat_add, hmul]
  omega

theorem linToPhys_eq_zero_iff :
    s.mem.linToPhys s.vm.pageDir lin = 0 ↔ s.mem.readPageMapping s.vm.pageDir lin = 0 := by
  unfold Mem.linToPhys
  dsimp only
  constructor
  · intro h
    by_contra hne
    rw [if_pos hne] at h
    exact hne (BitVec.or_eq_zero_iff.mp h).1
  · intro h
    rw [if_neg (not_not.mpr h)]

theorem aligned_readPageMapping (m : Mem) (pd lin : ULong) :
    Aligned (m.readPageMapping pd lin) := by
  unfold Mem.readPageMapping
  dsimp only
  split_ifs
  · exact aligned_pteGetAddr _
  · rfl

theorem linToPhys_eq_add (h : s.mem.linToPhys s.vm.pageDir lin ≠ 0) :
    s.mem.linToPhys s.vm.pageDir lin =
      s.mem.readPageMapping s.vm.pageDir lin + pageOffset lin := by
  rw [Mem.linToPhys, if_pos (mt linToPhys_eq_zero_iff.mpr h),
    or_pageOffset (aligned_readPageMapping _ _ _)]

/-- The four bytes of a vector are in one page. -/
theorem readPageMapping_vector (vector : ULong) {k : ULong} (hk : k < 4) :
    s.mem.readPageMapping s.vm.pageDir (vector * 4 + k) =
      s.mem.readPageMapping s.vm.pageDir (vector * 4) := by
  obtain ⟨hadd, hmod⟩ := toNat_vector vector hk
  have hlt : k.toNat < 4 := hk
  have hdir : pageDirOffset (vector * 4 + k) = pageDirOffset (vector * 4) := by
    apply BitVec.eq_of_toNat_eq
    rw [toNat_pageDirOffset, toNat_pageDirOffset, hadd]
    omega
  have htab : pageTableOffset (vector * 4 + k) = pageTableOffset (vector * 4) := by
    apply BitVec.eq_of_toNat_eq
    rw [toNat_pageTableOffset, toNat_pageTableOffset, hadd]
    omega
  unfold Mem.readPageMapping Mem.getPte
  rw [hdir, htab]

theorem pageOffset_vector (vector : ULong) {k : ULong} (hk : k < 4) :
    pageOffset (vector * 4 + k) = pageOffset (vector * 4) + k := by
  obtain ⟨hadd, hmod⟩ := toNat_vector vector hk
  have hlt : k.toNat < 4 := hk
  apply BitVec.eq_of_toNat_eq
  rw [BitVec.toNat_add, toNat_pageOffset, toNat_pageOffset, hadd]
  omega

theorem guestByte_vector (h : s.mem.linToPhys s.vm.pageDir (vector * 4) ≠ 0) {k : ULong}
    (hk : k < 4) :
    s.guestByte b (vector * 4 + k) =
      b (toLogical (s.mem.linToPhys s.vm.pageDir (vector * 4)) + k) := by
  have hne : s.mem.linToPhys s.vm.pageDir (vector * 4 + k) ≠ 0 := by
    rw [Ne, linToPhys_eq_zero_iff, readPageMapping_vector _ hk, ← linToPhys_eq_zero_iff]
    exact h
  unfold guestByte
  rw [if_neg hne, linToPhys_eq_add hne, readPageMapping_vector _ hk, pageOffset_vector _ hk,
    ← BitVec.add_assoc, ← linToPhys_eq_add h, toLogical_add]

theorem guestShort_vector (h : s.mem.linToPhys s.vm.pageDir (vector * 4) ≠ 0) :
    s.guestShort b (vector * 4) =
        loadShort b (toLogical (s.mem.linToPhys s.vm.pageDir (vector * 4))) ∧
      s.guestShort b (vector * 4 + 2) =
        loadShort b (toLogical (s.mem.linToPhys s.vm.pageDir (vector * 4) + 2)) := by
  have hzero := guestByte_vector (b := b) h (k := 0) (by decide)
  rw [word_add_zero, word_add_zero] at hzero
  unfold guestShort loadShort
  constructor
  · rw [hzero, guestByte_vector h (by decide)]
  · rw [BitVec.add_assoc, toLogical_add, BitVec.add_assoc, guestByte_vector h (by decide),
      guestByte_vector h (by decide)]

theorem guestByte_of_ne (h : s.mem.linToPhys s.vm.pageDir lin ≠ 0) :
    s.guestByte b lin = b (toLogical (s.mem.linToPhys s.vm.pageDir lin)) := if_neg h

/-- With a page for the vector, the interrupt is the guest's alone. -/
theorem fromGuest_of_mapped (h : s.mem.linToPhys s.vm.pageDir (vector * 4) ≠ 0) :
    s.FromGuest regs vector := by
  have hregs := regs_simulateVmInt s regs vector s.bytes
  have hmem := congrArg (fun s' : VmSys => s'.bytes)
    (withBytes_simulateVmInt s regs vector s.bytes)
  change (s.simulateVmInt regs vector).1 = _ at hregs
  change (s.simulateVmInt regs vector).2.bytes = s.pushedBytes regs s.bytes at hmem
  refine ⟨?_, ?_, fun b hb => ?_⟩
  · rw [hregs, hmem, (guestShort_vector h).2]
  · rw [hregs, hmem, (guestShort_vector h).1]
  · -- every byte of the vector is one that the guest sees
    have hbyte : ∀ k : ULong, k < 4 →
        s.pushedBytes regs b (toLogical (s.mem.linToPhys s.vm.pageDir (vector * 4)) + k) =
          s.pushedBytes regs s.bytes
            (toLogical (s.mem.linToPhys s.vm.pageDir (vector * 4)) + k) := by
      intro k hk
      have hsame := hb (vector * 4 + k)
      rw [guestByte_vector h hk, guestByte_vector h hk] at hsame
      exact pushedBytes_congr hsame
    have hzero := hbyte 0 (by decide)
    rw [word_add_zero] at hzero
    rw [regs_simulateVmInt, hregs]
    unfold loadShort
    rw [toLogical_add, BitVec.add_assoc, hzero, hbyte 1 (by decide), hbyte 2 (by decide),
      hbyte (2 + 1) (by decide)]

end VmSys

/-! ## Where the pushes go -/

/-- No page below the directory `pd` and no page in the free list `l` is at physical address
zero, and the directory is no page table of its own. -/
structure NoFrameZero (m : Mem) (pd : ULong) (l : List ULong) : Prop where
  free : m.pages.Free l
  pages : ∀ p ∈ l, Aligned p ∧ toPhysical p ≠ 0 ∧ p ≠ pd
  dir : pd ≠ NULL
  table : ∀ i, User i → Present (m.table pd i) → entryPage (m.table pd i) ≠ pd
  frames : ∀ i j, User i → Present (m.entry pd i j) → pteGetAddr (m.entry pd i j) ≠ 0

theorem Stackable.noFrameZero {s : VmSys} {l : List ULong} (h : Stackable s l)
    (hdir : s.vm.pageDir ≠ NULL) : NoFrameZero s.mem s.vm.pageDir l where
  free := h.tables.free
  pages p hp := ⟨h.tables.aligned p hp, h.pages p hp, fun hc => h.tables.dir (hc ▸ hp)⟩
  dir := hdir
  table i hi hp := (h.tables.table i hi hp).2
  frames := h.frames

namespace NoFrameZero

variable {m : Mem} {pd pt i j pte flags p addr : ULong} {l : List ULong}

/-- An entry of a page table is set. -/
theorem setEntry (h : NoFrameZero m pd l) (hpt : pt ≠ pd)
    (hpte : Present pte → pteGetAddr pte ≠ 0) : NoFrameZero (m.setEntry pt j pte) pd l := by
  have hdir : ∀ i, (m.setEntry pt j pte).table pd i = m.table pd i := by
    intro i
    rw [Mem.setEntry_table, if_neg fun hc => hpt hc.1.symm]
  refine ⟨h.free, h.pages, h.dir, fun i hi => by rw [hdir]; exact h.table i hi, fun i k hi => ?_⟩
  unfold Mem.entry
  rw [hdir]
  by_cases hp : Present (m.table pd i)
  · rw [if_neg (not_not.mpr hp), Mem.setEntry_table]
    split_ifs
    · exact hpte
    · have hold := h.frames i k hi
      rw [Mem.entry, if_neg (not_not.mpr hp)] at hold
      exact hold
  · rw [if_pos hp]
    exact fun hc => absurd hc not_present_zero

/-- A new page table is entered into the directory. -/
theorem enterTable (h : NoFrameZero m pd l) (hpt : pt ≠ pd) (halign : Aligned pt)
    (hflags : flags &&& PTE_ADDR = 0) :
    NoFrameZero ((m.clearTable pt).setEntry pd i (toPhysical pt ||| flags)) pd l := by
  have hpage : entryPage (toPhysical pt ||| flags) = pt := entryPage_or halign hflags
  have hdir : ∀ k, ((m.clearTable pt).setEntry pd i (toPhysical pt ||| flags)).table pd k =
      if k = i then toPhysical pt ||| flags else m.table pd k := by
    intro k
    rw [Mem.setEntry_table, Mem.clearTable_table, if_neg hpt.symm]
    exact if_congr (and_iff_right rfl) rfl rfl
  have htable : ∀ q k, q ≠ pd →
      ((m.clearTable pt).setEntry pd i (toPhysical pt ||| flags)).table q k =
        if q = pt then 0 else m.table q k := by
    intro q k hq
    rw [Mem.setEntry_table, if_neg fun hc => hq hc.1, Mem.clearTable_table]
  refine ⟨h.free, h.pages, h.dir, fun k hk => ?_, fun k j hk => ?_⟩
  · rw [hdir]
    split_ifs
    · rw [hpage]
      exact fun _ => hpt
    · exact h.table k hk
  · unfold Mem.entry
    rw [hdir]
    by_cases hki : k = i
    · rw [if_pos hki, hpage, htable _ _ hpt, if_pos rfl, ite_self]
      exact fun hc => absurd hc not_present_zero
    · rw [if_neg hki]
      by_cases hp : Present (m.table pd k)
      · rw [if_neg (not_not.mpr hp), htable _ _ (h.table k hk hp)]
        split_ifs
        · exact fun hc => absurd hc not_present_zero
        · have hold := h.frames k j hk
          rw [Mem.entry, if_neg (not_not.mpr hp)] at hold
          exact hold
      · rw [if_pos hp]
        exact fun hc => absurd hc not_present_zero

/-- The allocator gives a page, or the null page where none is left. -/
theorem allocPage (h : NoFrameZero m pd l) :
    (∃ l', NoFrameZero { m with pages := m.pages.allocPage.2 } pd l') ∧
      Aligned m.pages.allocPage.1 ∧ toPhysical m.pages.allocPage.1 ≠ 0 ∧
        m.pages.allocPage.1 ≠ pd := by
  cases l with
  | nil =>
    rw [Pages.allocPage_nil h.free]
    exact ⟨⟨[], h⟩, rfl, show toPhysical NULL ≠ 0 by decide, h.dir.symm⟩
  | cons p l =>
    obtain ⟨hp, hfree, -, -⟩ := Pages.allocPage_cons h.free
    rw [hp]
    exact ⟨⟨l, hfree, fun q hq => h.pages q (List.mem_cons_of_mem p hq), h.dir, h.table, h.frames⟩,
      h.pages p (List.mem_cons_self ..)⟩

/-- A page is mapped where none is. -/
theorem mapPage (h : NoFrameZero m pd l) (halign : Aligned p) (hframe : toPhysical p ≠ 0)
    (hi : User (pageDirOffset addr)) (hflags : flags &&& PTE_ADDR = 0)
    (hnp : ¬Present (m.entry pd (pageDirOffset addr) (pageTableOffset addr))) :
    ∃ l', NoFrameZero (m.mapPage pd p addr flags) pd l' := by
  have hpte : Present (toPhysical p ||| flags) → pteGetAddr (toPhysical p ||| flags) ≠ 0 := by
    rw [pteGetAddr_or (aligned_toPhysical halign) hflags]
    exact fun _ => hframe
  unfold Mem.mapPage
  dsimp only
  by_cases hdir : Present (m.table pd (pageDirOffset addr))
  · rw [Mem.entry, if_neg (not_not.mpr hdir)] at hnp
    rw [if_neg (not_not.mpr hdir)]
    dsimp only
    rw [if_neg fun hc => hnp hc.1]
    exact ⟨l, h.setEntry (h.table _ hi hdir) hpte⟩
  · obtain ⟨⟨l₁, h₁⟩, halign', -, hpt⟩ := h.allocPage
    rw [if_pos hdir]
    unfold Mem.newTable
    dsimp only
    have htable : (PTE_FREEABLE ||| flags) &&& PTE_ADDR = 0 := by rw [or_and, hflags]; decide
    have h₂ := h₁.enterTable (i := pageDirOffset addr) hpt halign' htable
    have hempty : ∀ k, (({ m with pages := m.pages.allocPage.2 }.clearTable
        m.pages.allocPage.1).setEntry pd (pageDirOffset addr) (toPhysical m.pages.allocPage.1 |||
          (PTE_FREEABLE ||| flags))).table m.pages.allocPage.1 k = 0 := by
      intro k
      rw [Mem.setEntry_table, if_neg fun hc => hpt hc.1, Mem.clearTable_table, if_pos rfl]
    rw [if_neg fun hc => not_present_zero (hempty _ ▸ hc.1)]
    exact ⟨l₁, h₂.setEntry hpt hpte⟩

end NoFrameZero

namespace VmSys

variable {s : VmSys} {lin : ULong} {l : List ULong}

theorem not_present_of_noFrameZero (h : NoFrameZero s.mem s.vm.pageDir l)
    (hlin : lin < KERNEL_BASE_ADDR) (hphys : s.mem.linToPhys s.vm.pageDir lin = 0) :
    ¬Present (s.getPte lin) := by
  intro hp
  have hread : s.mem.readPageMapping s.vm.pageDir lin = pteGetAddr (s.getPte lin) := if_pos hp
  have hzero := hread.symm.trans (linToPhys_eq_zero_iff.mp hphys)
  rw [getPte_eq] at hp hzero
  exact h.frames _ _ (user_pageDirOffset hlin) hp hzero

/-- A push keeps it, whether or not there are pages left. -/
theorem putPdVal_noFrameZero (h : NoFrameZero s.mem s.vm.pageDir l)
    (hlin : lin < KERNEL_BASE_ADDR) (val : ULong) :
    ∃ l', NoFrameZero (s.putPdVal 2 val lin).mem s.vm.pageDir l' := by
  by_cases hphys : s.mem.linToPhys s.vm.pageDir lin = 0
  · have hnp := not_present_of_noFrameZero h hlin hphys
    obtain ⟨⟨l₁, h₁⟩, halign, hframe, -⟩ := h.allocPage
    rw [putPdVal_mem 2 val hphys]
    refine h₁.mapPage halign hframe ?_ (by decide) ?_
    · rw [pageDirOffset_and]
      exact user_pageDirOffset hlin
    · rw [pageDirOffset_and, pageTableOffset_and]
      exact hnp
  · have hmem : (s.putPdVal 2 val lin).mem = s.mem := putPdVal_mapped hphys
    exact ⟨l, hmem ▸ h⟩

/-- A push does not go to the page at physical address zero. -/
theorem target_ne (h : NoFrameZero s.mem s.vm.pageDir l) (lin : ULong) :
    Aligned (s.target lin) ∧ s.target lin ≠ toLogical 0 := by
  unfold target
  by_cases hphys : s.mem.linToPhys s.vm.pageDir lin = 0
  · obtain ⟨-, halign, hframe, -⟩ := h.allocPage
    rw [if_pos hphys]
    refine ⟨halign, fun hc => hframe ?_⟩
    rw [hc]
    decide
  · have hread : s.mem.readPageMapping s.vm.pageDir lin = pteGetAddr (s.getPte lin) :=
      if_pos (linToPhys_of_ne hphys).1
    rw [if_neg hphys]
    refine ⟨aligned_entryPage _, fun hc => hphys (linToPhys_eq_zero_iff.mpr ?_)⟩
    rw [entryPage, ← hread] at hc
    exact (BitVec.add_left_inj PHYS_MAP).mp hc

/-- The third byte of the physical memory is not written. -/
theorem storeBytes_third {q o : ULong} (val : ULong) (b : ULong → UChar) (hq : Aligned q)
    (hne : q ≠ toLogical 0) (ho : o.toNat < 4096) :
    storeBytes 2 (q + o) val b (toLogical 2) = b (toLogical 2) := by
  have hpage : toLogical 2 = toLogical 0 + 2 := by decide
  have hzero : Aligned (toLogical 0) := aligned_toLogical rfl
  have hq' : q.toNat % 4096 = 0 := hq
  have hbase : (toLogical 0).toNat = 8388608 := by decide
  have htwo : (toLogical 2).toNat = 8388610 := by decide
  have hq0 : q.toNat ≠ 8388608 := fun hc => hne (BitVec.eq_of_toNat_eq (hc.trans hbase.symm))
  have hadd : (q + o).toNat = q.toNat + o.toNat := by
    have := q.isLt
    rw [BitVec.toNat_add]
    omega
  refine storeBytes_two_of_ne _ (fun hc => ?_) fun hc => ?_
  · have hnat := congrArg BitVec.toNat hc
    rw [htwo, hadd] at hnat
    omega
  · have hnat := congrArg BitVec.toNat hc
    rw [htwo, BitVec.toNat_add, hadd, show (1 : ULong).toNat = 1 from rfl] at hnat
    omega

theorem pushedBytes_third {l : List ULong} (h : NoFrameZero s.mem s.vm.pageDir l)
    (regs : Vm86Regs) (b : ULong → UChar) :
    s.pushedBytes regs b (toLogical 2) = b (toLogical 2) := by
  obtain ⟨l₁, h₁⟩ := putPdVal_noFrameZero h (top_lt regs.push)
    (flagsWord s.vm.virtualEflags regs.eflags)
  obtain ⟨l₂, h₂⟩ := putPdVal_noFrameZero (s := s.pushFlags regs) h₁ (top_lt regs.push.push)
    (regs.cs.zeroExtend 32)
  have ht := target_ne h regs.push.top
  have ht₁ := target_ne (s := s.pushFlags regs) h₁ regs.push.push.top
  have ht₂ := target_ne (s := s.pushCs regs) h₂ regs.push.push.push.top
  unfold pushedBytes
  rw [storeBytes_third _ _ ht₂.1 ht₂.2 (toNat_pageOffset_lt _),
    storeBytes_third _ _ ht₁.1 ht₁.2 (toNat_pageOffset_lt _),
    storeBytes_third _ _ ht.1 ht.2 (toNat_pageOffset_lt _)]

/-- The third byte of the physical memory is none of the guest's. -/
theorem sameGuest_third (s : VmSys) (x : UChar) :
    s.SameGuest (Function.update s.bytes (toLogical 2) x) := by
  intro lin
  by_cases hphys : s.mem.linToPhys s.vm.pageDir lin = 0
  · unfold guestByte
    rw [if_pos hphys, if_pos hphys]
  · rw [guestByte_of_ne hphys, guestByte_of_ne hphys, Function.update_of_ne]
    intro hc
    have halign : (s.mem.readPageMapping s.vm.pageDir lin).toNat % 4096 = 0 :=
      aligned_readPageMapping _ _ _
    have heq : s.mem.linToPhys s.vm.pageDir lin = 2 := (BitVec.add_left_inj PHYS_MAP).mp hc
    rw [linToPhys_eq_add hphys] at heq
    have hnat := congrArg BitVec.toNat heq
    have hoff := toNat_pageOffset_lt lin
    rw [BitVec.toNat_add, show (2 : ULong).toNat = 2 from rfl] at hnat
    refine hphys (linToPhys_eq_zero_iff.mpr (BitVec.eq_of_toNat_eq ?_))
    change _ = 0
    have := (s.mem.readPageMapping s.vm.pageDir lin).isLt
    omega

/-- Without a page for the vector, CS shows the third byte of the physical memory. -/
theorem not_fromGuest_of_unmapped {vector : ULong} {l : List ULong}
    (h : NoFrameZero s.mem s.vm.pageDir l) (regs : Vm86Regs)
    (hphys : s.mem.linToPhys s.vm.pageDir (vector * 4) = 0) : ¬s.FromGuest regs vector := by
  intro hguest
  have hsame := hguest.same _ (s.sameGuest_third (s.bytes (toLogical 2) + 1))
  have hregs := regs_simulateVmInt s regs vector s.bytes
  change (s.simulateVmInt regs vector).1 = _ at hregs
  rw [regs_simulateVmInt, hregs, hphys] at hsame
  have hcs := congrArg (fun r : Vm86Regs => r.cs.setWidth 8) hsame
  have htwo : (0 : ULong) + 2 = 2 := rfl
  simp only [loadShort, BitVec.setWidth_append, htwo, pushedBytes_third h,
    Function.update_self] at hcs
  exact absurd (BitVec.add_right_eq_self.mp hcs) (by decide)

/-- The vectors are in the first page. -/
theorem getPte_vector (s : VmSys) (vector : UChar) :
    s.getPte (vector.zeroExtend 32 * 4) = s.getPte 0 := by
  have hv : (vector.zeroExtend 32 * 4 : ULong).toNat = vector.toNat * 4 := by
    have := vector.isLt
    rw [BitVec.toNat_mul, BitVec.toNat_setWidth, show (4 : ULong).toNat = 4 from rfl]
    omega
  have hlt := vector.isLt
  have hzero : (0 : ULong).toNat = 0 := rfl
  have hdir : pageDirOffset (vector.zeroExtend 32 * 4) = pageDirOffset 0 := by
    apply BitVec.eq_of_toNat_eq
    rw [toNat_pageDirOffset, toNat_pageDirOffset, hv, hzero]
    omega
  have htab : pageTableOffset (vector.zeroExtend 32 * 4) = pageTableOffset 0 := by
    apply BitVec.eq_of_toNat_eq
    rw [toNat_pageTableOffset, toNat_pageTableOffset, hv, hzero]
    omega
  rw [getPte_eq, getPte_eq, hdir, htab]

theorem vector_lt (vector : UChar) : (vector.zeroExtend 32 * 4 : ULong) < KERNEL_BASE_ADDR := by
  have hlt := vector.isLt
  change (vector.zeroExtend 32 * 4 : ULong).toNat < 4160749568
  rw [BitVec.toNat_mul, BitVec.toNat_setWidth, show (4 : ULong).toNat = 4 from rfl]
  omega

/-- **Vectors.** An interrupt takes its vector from the guest, and from nothing else in the
memory of the host, just when the first page of the guest is there. -/
theorem fromGuest_iff {l : List ULong} (h : NoFrameZero s.mem s.vm.pageDir l)
    (regs : Vm86Regs) (vector : UChar) :
    s.FromGuest regs (vector.zeroExtend 32) ↔ Present (s.getPte 0) := by
  have hphys : s.mem.linToPhys s.vm.pageDir (vector.zeroExtend 32 * 4) = 0 ↔
      ¬Present (s.getPte 0) := by
    rw [← getPte_vector s vector]
    constructor
    · exact not_present_of_noFrameZero h (vector_lt vector)
    · intro hnp
      by_contra hne
      exact hnp (linToPhys_of_ne hne).1
  constructor
  · intro hguest
    by_contra hnp
    exact not_fromGuest_of_unmapped h regs (hphys.mpr (not_not_intro hnp)) hguest
  · intro hp
    exact fromGuest_of_mapped fun hzero => hphys.mp hzero hp

/-- The machine whose first pages are all one page has its vectors there. -/
theorem flatVm_fromGuest :
    flatVm.FromGuest ⟨0x100, 0x1000, 0, 0x200, 0x2000⟩ ((0x21 : UChar).zeroExtend 32) :=
  (fromGuest_iff (flatVm_stackable.noFrameZero (by decide)) _ 0x21).mpr
    (by rw [getPte_eq, flatVm_entry]; decide)

/-- A machine that has not touched its memory yet. -/
def bareVm : VmSys := { flatVm with mem := { flatVm.mem with table := fun _ _ => 0 } }

theorem bareVm_noFrameZero : NoFrameZero bareVm.mem bareVm.vm.pageDir
    [0x900000, 0x901000, 0x902000, 0x903000, 0x904000, 0x905000] := by
  have h := flatVm_stackable.noFrameZero (by decide)
  have hentry : ∀ i j, bareVm.mem.entry bareVm.vm.pageDir i j = 0 := fun i j => ite_self _
  refine ⟨h.free, h.pages, h.dir, fun i _ hp => absurd hp not_present_zero, fun i j _ hp => ?_⟩
  rw [hentry] at hp
  exact absurd hp not_present_zero

/-- Its first interrupt goes where the host's own vectors point. -/
theorem bareVm_not_fromGuest :
    ¬∀ (s : VmSys) (l : List ULong), NoFrameZero s.mem s.vm.pageDir l →
      ∀ (regs : Vm86Regs) (vector : UChar), s.FromGuest regs (vector.zeroExtend 32) :=
  fun h => not_fromGuest_of_unmapped bareVm_noFrameZero ⟨0x100, 0x1000, 0, 0x200, 0x2000⟩ rfl
    (h _ _ bareVm_noFrameZero _ 0x21)

end VmSys

end Vmm386.Vmach
