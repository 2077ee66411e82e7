import Vmm386.Vmach.VmTheorems

/-!
# The frames of a virtual machine

No two pages of a virtual machine have the same frame, except those of the ROM, and no frame
is free, in use by others, or a page table: a write of the machine reaches nothing else.
-/

namespace Vmm386.Vmach

open Mm

/-- The page shows `empty_page`, as `fill_vm_page_dir` left it. -/
def VmSys.Rom (s : VmSys) (i j : ULong) : Prop :=
  entryPage (s.home i j) = s.emptyPage ∧ ¬Freeable (s.home i j) ∧ i = 0 ∧
    160 ≤ j.toNat ∧ j.toNat < 256

structure Frames (s : VmSys) (l : List ULong) : Prop where
  maps : Maps s l
  apart : ∀ i j, User i → Present (s.home i j) →
    Apart s.mem s.vm.pageDir l (entryPage (s.home i j))
  shared : ∀ i j, User i → Present (s.home i j) → entryPage (s.home i j) ∈ s.others → s.Rom i j
  inj : ∀ i j i' j', User i → User i' → Present (s.home i j) → Present (s.home i' j') →
    entryPage (s.home i j) = entryPage (s.home i' j') → (i = i' ∧ j = j') ∨ s.Rom i j
  others : ∀ p ∈ s.others, Aligned p ∧ Apart s.mem s.vm.pageDir l p
  empty : s.emptyPage ∈ s.others

namespace Frames

variable {s s' : VmSys} {l l' : List ULong} {i j e p : ULong}

theorem rom_congr (hhome : s'.home i j = s.home i j) (hempty : s'.emptyPage = s.emptyPage) :
    s'.Rom i j ↔ s.Rom i j := by
  rw [VmSys.Rom, VmSys.Rom, hhome, hempty]

/-- The entry of a page that is freed does not show `empty_page`. -/
theorem not_rom (h : Frames s l) (hi : User i) (hown : Owning (s.home i j)) :
    entryPage (s.home i j) ∉ s.others := fun hmem =>
  (h.shared i j hi hown.1 hmem).2.1 hown.2

/-- Neither the home entries nor the page directory change. -/
theorem same (h : Frames s l) (hmaps : Maps s' l) (hdir : ∀ i, s'.pde i = s.pde i)
    (hpd : s'.vm.pageDir = s.vm.pageDir) (hhome : ∀ i j, User i → s'.home i j = s.home i j)
    (hempty : s'.emptyPage = s.emptyPage) (hothers : s'.others = s.others) : Frames s' l := by
  have hapart : ∀ q, Apart s.mem s.vm.pageDir l q → Apart s'.mem s'.vm.pageDir l q := by
    intro q hq
    have hdir' : ∀ i, s'.mem.table s.vm.pageDir i = s.mem.table s.vm.pageDir i := by
      intro i
      have := hdir i
      rw [VmSys.pde, VmSys.pde, hpd] at this
      exact this
    rw [hpd]
    exact hq.congr hdir'
  refine ⟨hmaps, ?_, ?_, ?_, ?_, ?_⟩
  · intro i j hi hp
    rw [hhome i j hi] at hp ⊢
    exact hapart _ (h.apart i j hi hp)
  · intro i j hi hp hmem
    rw [hhome i j hi] at hp hmem
    rw [hothers] at hmem
    exact (rom_congr (hhome i j hi) hempty).mpr (h.shared i j hi hp hmem)
  · intro i j i' j' hi hi' hp hp' heq
    rw [hhome i j hi] at hp heq
    rw [hhome i' j' hi'] at hp' heq
    exact (h.inj i j i' j' hi hi' hp hp' heq).imp_right (rom_congr (hhome i j hi) hempty).mpr
  · intro q hq
    rw [hothers] at hq
    exact ⟨(h.others q hq).1, hapart q (h.others q hq).2⟩
  · rw [hempty, hothers]
    exact h.empty

/-- A page is mapped. -/
theorem placed (h : Frames s (p :: l)) (hp : Placed s s' l l' p i j e) : Frames s' l' := by
  have hvm : s'.vm = s.vm := by rw [hp.same]
  have hothers : s'.others = s.others := by rw [hp.same]
  have hempty : s'.emptyPage = s.emptyPage := by rw [hp.same]
  have hnew : Apart s.mem s.vm.pageDir l p := h.maps.tables.apart_head
  -- what is free afterwards was free before, or was owned by the old entry
  have hfree : ∀ q ∈ l', q ∈ l ∨ Owning (s.home i j) ∧ q = entryPage (s.home i j) := by
    intro q hq
    rcases hp.pages with ⟨-, -, rfl⟩ | ⟨-, -, -, rfl⟩
    · rcases List.mem_append.mp hq with hq | hq
      · rw [ownedPage] at hq
        split at hq
        · rename_i hown
          exact .inr ⟨hown, List.mem_singleton.mp hq⟩
        · exact absurd hq (List.not_mem_nil)
      · exact .inl hq
    · exact .inl (List.mem_cons_of_mem _ hq)
  have htable : ∀ i', Present (s'.pde i') → s'.pde i' = s.pde i' ∨ entryPage (s'.pde i') ∈ l := by
    intro i' hpres
    by_cases heq : i' = i
    · subst heq
      rcases hp.pages with ⟨-, hsame, -⟩ | ⟨-, -, -, rfl⟩
      · exact .inl hsame
      · exact .inr (List.mem_cons_self ..)
    · exact .inl (hp.other i' heq)
  have hapart : ∀ q, Apart s.mem s.vm.pageDir l q →
      (Owning (s.home i j) → q ≠ entryPage (s.home i j)) → Apart s'.mem s'.vm.pageDir l' q := by
    intro q hq hold
    refine ⟨fun hmem => ?_, fun i' hi' hpres hc => ?_⟩
    · rw [hvm, List.mem_cons, List.mem_cons] at hmem
      rcases hmem with hmem | hmem | hmem
      · exact hq.1 (hmem ▸ List.mem_cons_self ..)
      · exact hq.1 (hmem ▸ List.mem_cons_of_mem _ (List.mem_cons_self ..))
      · rcases hfree q hmem with hl | ⟨hown, rfl⟩
        · exact hq.not_mem hl
        · exact hold hown rfl
    · rcases htable i' hpres with hsame | hl
      · change q = entryPage (s'.pde i') at hc
        change Present (s'.pde i') at hpres
        rw [hsame] at hc hpres
        exact hq.2 i' hi' hpres hc
      · exact hq.not_mem (hc ▸ hl)
  have hhome : ∀ i' j', User i' → ¬(i' = i ∧ j' = j) → s'.home i' j' = s.home i' j' := by
    intro i' j' hi' hne
    rw [hp.home i' j' hi', if_neg hne]
  have hself : s'.home i j = e := by
    rw [hp.home i j hp.user, if_pos ⟨rfl, rfl⟩]
  have hnotp : ∀ i' j', User i' → Present (s.home i' j') → entryPage (s.home i' j') ≠ p :=
    fun i' j' hi' hpres hc => (h.apart i' j' hi' hpres).not_mem (hc ▸ List.mem_cons_self ..)
  have hpothers : p ∉ s.others :=
    fun hmem => (h.others p hmem).2.not_mem (List.mem_cons_self ..)
  refine ⟨hp.maps, ?_, ?_, ?_, ?_, ?_⟩
  · intro i' j' hi' hpres
    by_cases hne : i' = i ∧ j' = j
    · rw [hne.1, hne.2, hself, hp.page]
      exact hapart p hnew fun hown => (hnotp i j hp.user hown.1).symm
    · rw [hhome i' j' hi' hne] at hpres ⊢
      refine hapart _ (h.apart i' j' hi' hpres).of_cons fun hown hc => ?_
      rcases h.inj i' j' i j hi' hp.user hpres hown.1 hc with hsame | hrom
      · exact hne hsame
      · exact h.not_rom hp.user hown (hc ▸ hrom.1 ▸ h.empty)
  · intro i' j' hi' hpres hmem
    rw [hothers] at hmem
    by_cases hne : i' = i ∧ j' = j
    · rw [hne.1, hne.2, hself, hp.page] at hmem
      exact absurd hmem hpothers
    · rw [hhome i' j' hi' hne] at hpres hmem
      exact (rom_congr (hhome i' j' hi' hne) hempty).mpr (h.shared i' j' hi' hpres hmem)
  · intro i₁ j₁ i₂ j₂ h₁ h₂ hp₁ hp₂ heq
    by_cases hne₁ : i₁ = i ∧ j₁ = j
    · by_cases hne₂ : i₂ = i ∧ j₂ = j
      · exact .inl ⟨hne₁.1.trans hne₂.1.symm, hne₁.2.trans hne₂.2.symm⟩
      · rw [hhome i₂ j₂ h₂ hne₂] at hp₂ heq
        rw [hne₁.1, hne₁.2, hself, hp.page] at heq
        exact absurd heq.symm (hnotp i₂ j₂ h₂ hp₂)
    · rw [hhome i₁ j₁ h₁ hne₁] at hp₁ heq
      by_cases hne₂ : i₂ = i ∧ j₂ = j
      · rw [hne₂.1, hne₂.2, hself, hp.page] at heq
        exact absurd heq (hnotp i₁ j₁ h₁ hp₁)
      · rw [hhome i₂ j₂ h₂ hne₂] at hp₂ heq
        exact (h.inj i₁ j₁ i₂ j₂ h₁ h₂ hp₁ hp₂ heq).imp_right
          (rom_congr (hhome i₁ j₁ h₁ hne₁) hempty).mpr
  · intro q hq
    rw [hothers] at hq
    exact ⟨(h.others q hq).1, hapart q (h.others q hq).2.of_cons
      fun hown hc => h.not_rom hp.user hown (hc ▸ hq)⟩
  · rw [hempty, hothers]
    exact h.empty

end Frames

/-! ## Writes into pages -/

section Writes

variable {q o a val : ULong} {n : ℕ} {bytes : ULong → UChar}

theorem page_add (hq : Aligned q) (ho : o.toNat < 4096) : (q + o) &&& PAGE_MASK = q := by
  unfold Aligned at hq
  apply BitVec.eq_of_toNat_eq
  have hlt := q.isLt
  rw [toNat_and_mask, BitVec.toNat_add]
  omega

/-- A store that ends in its page changes no other page. -/
theorem storeBytes_of_ne (hq : Aligned q) (hn : o.toNat + n ≤ 4096) (ha : a &&& PAGE_MASK ≠ q) :
    storeBytes n (q + o) val bytes a = bytes a := by
  induction n generalizing o val bytes with
  | zero => rfl
  | succ n ih =>
    have hne : a ≠ q + o := by
      rintro rfl
      exact ha (page_add hq (by omega))
    have hsucc : (o + 1).toNat = o.toNat + 1 := by
      rw [BitVec.toNat_add]
      show (o.toNat + 1) % 2 ^ 32 = _
      omega
    rw [storeBytes, BitVec.add_assoc, ih (by omega), Function.update_of_ne hne]

theorem toNat_pageOffset (lin : ULong) : (pageOffset lin).toNat = lin.toNat % 4096 := by
  rw [pageOffset, BitVec.toNat_and]
  exact Nat.and_two_pow_sub_one_eq_mod _ 12

theorem or_pageOffset {x : ULong} (hx : Aligned x) (lin : ULong) :
    x ||| pageOffset lin = x + pageOffset lin := by
  refine (BitVec.add_eq_or_of_and_eq_zero _ _ ?_).symm
  rw [← and_pageMask_of_aligned hx, pageOffset, BitVec.and_assoc, BitVec.and_comm lin,
    ← BitVec.and_assoc PAGE_MASK]
  have hzero : PAGE_MASK &&& 0xfff = 0 := by decide
  rw [hzero]
  exact (congrArg (x &&& ·) BitVec.zero_and).trans BitVec.and_zero

theorem toLogical_add (x o : ULong) : toLogical (x + o) = toLogical x + o := by
  rw [toLogical, toLogical, BitVec.add_assoc, BitVec.add_comm o, BitVec.add_assoc]

theorem aligned_pteGetAddr (e : ULong) : Aligned (pteGetAddr e) := by
  unfold Aligned
  rw [pteGetAddr, toNat_and_mask]
  omega

end Writes

/-! ## Writes of the machine -/

section PutPdVal

variable {s : VmSys} {size : ℕ} {val lin a : ULong}

/-- Where the page is mapped, and not to frame zero. -/
theorem linToPhys_of_ne (h : s.mem.linToPhys s.vm.pageDir lin ≠ 0) :
    Present (s.getPte lin) ∧ toLogical (s.mem.linToPhys s.vm.pageDir lin) =
      entryPage (s.getPte lin) + pageOffset lin := by
  have hread : s.mem.readPageMapping s.vm.pageDir lin ≠ 0 := by
    intro hc
    refine h ?_
    rw [Mem.linToPhys, hc]
    exact if_neg (not_not.mpr rfl)
  have hpres : Present (s.getPte lin) := by
    by_contra hnp
    refine hread ?_
    rw [Mem.readPageMapping]
    exact if_neg (not_not.mpr hnp)
  have haddr : s.mem.readPageMapping s.vm.pageDir lin = pteGetAddr (s.getPte lin) := if_pos hpres
  refine ⟨hpres, ?_⟩
  rw [Mem.linToPhys, if_pos hread, haddr, or_pageOffset (aligned_pteGetAddr _), toLogical_add,
    entryPage]

theorem putPdVal_mapped (h : s.mem.linToPhys s.vm.pageDir lin ≠ 0) :
    (s.putPdVal size val lin).mem = s.mem := by
  show (if s.mem.linToPhys s.vm.pageDir lin = 0 then _ else _ : ULong × Mem).2 = _
  rw [if_neg h]

/-- The page that `put_pd_val` writes into. -/
def VmSys.target (s : VmSys) (lin : ULong) : ULong :=
  if s.mem.linToPhys s.vm.pageDir lin = 0 then s.mem.pages.allocPage.1
  else entryPage (s.getPte lin)

/-- What `put_pd_val` stores. -/
theorem bytes_putPdVal (hsize : size = 1 ∨ size = 2 ∨ size = 4) :
    (s.putPdVal size val lin).bytes =
      storeBytes size (s.target lin + pageOffset lin) val s.bytes := by
  have hwhere : toLogical (if s.mem.linToPhys s.vm.pageDir lin = 0 then
      (toPhysical s.mem.pages.allocPage.1 + pageOffset lin,
        Mem.mapPage { s.mem with pages := s.mem.pages.allocPage.2 } s.vm.pageDir
          s.mem.pages.allocPage.1 (lin &&& PAGE_MASK)
          (PTE_READ_WRITE ||| PTE_USER ||| PTE_PRESENT))
      else (s.mem.linToPhys s.vm.pageDir lin, s.mem) : ULong × Mem).1 =
        s.target lin + pageOffset lin := by
    rw [VmSys.target]
    by_cases hzero : s.mem.linToPhys s.vm.pageDir lin = 0
    · rw [if_pos hzero, if_pos hzero, toLogical_add, toLogical_toPhysical]
    · rw [if_neg hzero, if_neg hzero]
      exact (linToPhys_of_ne hzero).2
  show (if size = 1 ∨ size = 2 ∨ size = 4 then storeBytes size (toLogical _) val s.bytes
    else s.bytes) = _
  rw [if_pos hsize]
  exact congrArg (storeBytes size · val s.bytes) hwhere

theorem putPdVal_bytes (halign : Aligned (s.target lin))
    (hsize : (pageOffset lin).toNat + size ≤ 4096) (ha : a &&& PAGE_MASK ≠ s.target lin) :
    (s.putPdVal size val lin).bytes a = s.bytes a := by
  by_cases hstore : size = 1 ∨ size = 2 ∨ size = 4
  · rw [bytes_putPdVal hstore]
    exact storeBytes_of_ne halign hsize ha
  · show (if size = 1 ∨ size = 2 ∨ size = 4 then storeBytes size (toLogical _) val s.bytes
      else s.bytes) a = _
    rw [if_neg hstore]

end PutPdVal

/-! ## Steps that keep the frames apart -/

theorem isHigh_offset {a : ULong} :
    IsHigh (pageDirOffset a) (pageTableOffset a) ↔ 0x100000 ≤ a ∧ a < 0x110000 := by
  have hdir : pageDirOffset a = 0 ↔ a.toNat / 4194304 = 0 := by
    rw [← toNat_pageDirOffset]
    exact ⟨fun h => by rw [h]; rfl, fun h => BitVec.eq_of_toNat_eq h⟩
  have htab := toNat_pageTableOffset a
  have hle : (256 : ULong) ≤ pageTableOffset a ↔ 256 ≤ (pageTableOffset a).toNat := Iff.rfl
  have hlt : pageTableOffset a < 272 ↔ (pageTableOffset a).toNat < 272 := Iff.rfl
  have hle' : (0x100000 : ULong) ≤ a ↔ 1048576 ≤ a.toNat := Iff.rfl
  have hlt' : a < 0x110000 ↔ a.toNat < 1114112 := Iff.rfl
  rw [IsHigh, hdir, hle, hlt, hle', hlt']
  omega

theorem isLow_offset {a : ULong} :
    IsLow (pageDirOffset a) (pageTableOffset a) ↔ a < 0x10000 := by
  have hdir : pageDirOffset a = 0 ↔ a.toNat / 4194304 = 0 := by
    rw [← toNat_pageDirOffset]
    exact ⟨fun h => by rw [h]; rfl, fun h => BitVec.eq_of_toNat_eq h⟩
  have htab := toNat_pageTableOffset a
  have hlt : pageTableOffset a < 16 ↔ (pageTableOffset a).toNat < 16 := Iff.rfl
  have hlt' : a < 0x10000 ↔ a.toNat < 65536 := Iff.rfl
  rw [IsLow, hdir, hlt, hlt']
  omega

/-- An address below 64K, or from 1M to 1M + 64K. -/
def AliasAddr (lin : ULong) : Prop := lin < 0x10000 ∨ 0x100000 ≤ lin ∧ lin < 0x110000

namespace VmSys

/-- How many pages `map_page` needs for a new page at `lin`, with the page itself. -/
def pagesFor (s : VmSys) (lin : ULong) : ℕ := if Present (s.pde (pageDirOffset lin)) then 1 else 2

/-- A write of `size` bytes at `lin` ends in its page; where no page is mapped there are free
pages, and with the gate disabled it is not one of the pages that are mapped twice. -/
def PutOk (s : VmSys) (size : ℕ) (lin : ULong) : Prop :=
  (pageOffset lin).toNat + size ≤ 4096 ∧
    (s.mem.linToPhys s.vm.pageDir lin = 0 →
      (s.vm.a20State = false → ¬AliasAddr lin) ∧ s.mem.pages.HasFree (s.pagesFor lin))

/-- A fault at `lin`: there are free pages, and with the gate disabled it is not at the pages
whose address is truncated to the pages from 1M on. -/
def FaultOk (s : VmSys) (lin : ULong) : Prop :=
  (s.vm.a20State = false → ¬(0x200000 ≤ lin ∧ lin < 0x210000)) ∧
    s.mem.pages.HasFree (s.pagesFor (s.truncate lin))

/-- The state after the first push of `simulate_vm_int`. -/
def pushFlags (s : VmSys) (regs : Vm86Regs) : VmSys :=
  let s := s.putPdVal 2 ((s.vm.virtualEflags &&& ~~~USER_EFLAGS) |||
    (regs.eflags &&& USER_EFLAGS)) regs.push.top
  { s with vm := { s.vm with
    virtualEflags := s.vm.virtualEflags &&& ~~~(FLAGS_IF ||| FLAGS_TF) } }

/-- The state after the second push. -/
def pushCs (s : VmSys) (regs : Vm86Regs) : VmSys :=
  (s.pushFlags regs).putPdVal 2 (regs.cs.zeroExtend 32) regs.push.push.top

/-- Each push of `simulate_vm_int` is as `PutOk` says. -/
def PushesOk (s : VmSys) (regs : Vm86Regs) : Prop :=
  s.PutOk 2 regs.push.top ∧ (s.pushFlags regs).PutOk 2 regs.push.push.top ∧
    (s.pushCs regs).PutOk 2 regs.push.push.push.top

/-- What a step must not do to keep the two views of a page together. -/
def Safe (s : VmSys) : VmOp → Prop
  | .pageFault errorCode lin => errorCode &&& PF_ERROR_PROTECTION = 0 → s.FaultOk lin
  | .putPdVal size _ lin => s.PutOk size lin
  | .simulateVmInt regs _ => s.PushesOk regs
  | _ => True

end VmSys

section Steps

variable {s : VmSys} {l : List ULong} {lin val errorCode : ULong} {size : ℕ}

theorem toNat_top (regs : Vm86Regs) :
    regs.top.toNat = regs.ss.toNat * 16 + regs.esp.toNat % 65536 := by
  have hss := regs.ss.isLt
  have hbase : (regs.ss.zeroExtend 32 <<< 4 : ULong).toNat = regs.ss.toNat * 16 := by
    rw [BitVec.toNat_shiftLeft, BitVec.toNat_setWidth, Nat.shiftLeft_eq]
    omega
  have hsp : (regs.esp &&& 0xffff).toNat = regs.esp.toNat % 65536 := by
    rw [BitVec.toNat_and]
    exact Nat.and_two_pow_sub_one_eq_mod _ 16
  rw [Vm86Regs.top, BitVec.toNat_add, hbase, hsp]
  omega

theorem top_lt (regs : Vm86Regs) : regs.top < KERNEL_BASE_ADDR := by
  have hss := regs.ss.isLt
  show regs.top.toNat < 4160749568
  rw [toNat_top]
  omega

/-- There are pages for a mapping. -/
theorem exists_of_hasFree (h : Frames s l) (hfree : s.mem.pages.HasFree (s.pagesFor lin)) :
    ∃ p l₁, l = p :: l₁ ∧ (¬Present (s.pde (pageDirOffset lin)) → l₁ ≠ []) := by
  have hlen := (h.maps.tables.free.hasFree_iff).mp hfree
  rw [VmSys.pagesFor] at hlen
  cases l with
  | nil =>
    rw [List.length_nil] at hlen
    split at hlen <;> omega
  | cons p l₁ =>
    refine ⟨p, l₁, rfl, fun hnp hnil => ?_⟩
    rw [if_neg hnp, hnil, List.length_singleton] at hlen
    omega

/-- `put_pd_val` writes into the page that is mapped, or maps one. -/
theorem Frames.putPdVal (h : Frames s l) (hlin : lin < KERNEL_BASE_ADDR)
    (hok : s.PutOk size lin) (val : ULong) :
    ∃ l', Frames (s.putPdVal size val lin) l' ∧
      (s.mem.linToPhys s.vm.pageDir lin ≠ 0 ∧ (s.putPdVal size val lin).mem = s.mem ∨
        s.mem.linToPhys s.vm.pageDir lin = 0 ∧ ∃ p l₁, l = p :: l₁ ∧
          (s.vm.a20State = false →
            ¬IsHigh (pageDirOffset lin) (pageTableOffset lin)) ∧
          Placed s (s.putPdVal size val lin) l₁ l' p (pageDirOffset lin) (pageTableOffset lin)
            (toPhysical p ||| (PTE_READ_WRITE ||| PTE_USER ||| PTE_PRESENT))) := by
  by_cases hphys : s.mem.linToPhys s.vm.pageDir lin = 0
  · obtain ⟨hnot, hfree⟩ := hok.2 hphys
    obtain ⟨p, l₁, rfl, hroom⟩ := exists_of_hasFree h hfree
    have hnot' : s.vm.a20State = false →
        ¬IsHigh (pageDirOffset lin) (pageTableOffset lin) ∧
          ¬IsLow (pageDirOffset lin) (pageTableOffset lin) := fun hoff =>
      ⟨fun hc => hnot hoff (.inr (isHigh_offset.mp hc)),
        fun hc => hnot hoff (.inl (isLow_offset.mp hc))⟩
    have hhome := home_of_not_high (s := s) fun hoff => (hnot' hoff).1
    obtain ⟨l', hplaced⟩ := h.maps.putPdVal_new size val hlin hphys hnot' hroom
      fun hown => hhome ▸ h.apart _ _ (user_pageDirOffset hlin) (hhome.symm ▸ hown.1)
    exact ⟨l', h.placed hplaced, .inr ⟨hphys, p, l₁, rfl, fun hoff => (hnot' hoff).1, hplaced⟩⟩
  · have hmem : (s.putPdVal size val lin).mem = s.mem := putPdVal_mapped hphys
    have hmaps : Maps (s.putPdVal size val lin) l := by
      refine h.maps.of_pde ?_ (fun i => ?_) fun hoff k hk => ?_
      · rw [hmem]
        exact h.maps.tables
      · rw [VmSys.pde, hmem]
        rfl
      · rw [VmSys.entry, VmSys.entry, hmem]
        exact h.maps.twin hoff k hk
    refine ⟨l, h.same hmaps (fun i => ?_) rfl (fun i j _ => ?_) rfl rfl, .inl ⟨hphys, hmem⟩⟩
    · rw [VmSys.pde, hmem]
      rfl
    · rw [VmSys.home, VmSys.entry, hmem]
      rfl

/-- `vm_pfl_handler` maps a page. -/
theorem Frames.pageFault (h : Frames s l) (hlin : lin < KERNEL_BASE_ADDR)
    (herr : errorCode &&& PF_ERROR_PROTECTION = 0) (hok : s.FaultOk lin) :
    ∃ p l₁ l', l = p :: l₁ ∧ Frames (s.vmPflHandler errorCode lin).2 l' ∧
      (s.vm.a20State = false →
        ¬IsHigh (pageDirOffset (s.truncate lin)) (pageTableOffset (s.truncate lin))) ∧
      Placed s (s.vmPflHandler errorCode lin).2 l₁ l' p (pageDirOffset (s.truncate lin))
        (pageTableOffset (s.truncate lin)) (faultEntry p (s.getPte (s.truncate lin))) := by
  obtain ⟨hout, hfree⟩ := hok
  obtain ⟨p, l₁, rfl, hroom⟩ := exists_of_hasFree h hfree
  have hlin : lin.toNat < 4160749568 := hlin
  have hsub : 0x100000 ≤ lin → (lin - 0x100000).toNat = lin.toNat - 1048576 := by
    intro hle
    have hle : 1048576 ≤ lin.toNat := hle
    rw [BitVec.toNat_sub]
    show (2 ^ 32 - 1048576 + lin.toNat) % 2 ^ 32 = _
    omega
  have haddr : s.truncate lin < KERNEL_BASE_ADDR := by
    show (s.truncate lin).toNat < 4160749568
    rw [VmSys.truncate]
    split
    · rename_i hc
      rw [hsub hc.2]
      omega
    · exact hlin
  have hnot : s.vm.a20State = false →
      ¬IsHigh (pageDirOffset (s.truncate lin)) (pageTableOffset (s.truncate lin)) := by
    intro hoff
    rw [isHigh_offset]
    rintro ⟨hle, hlt⟩
    by_cases hhigh : 0x100000 ≤ lin
    · have htrunc : s.truncate lin = lin - 0x100000 := if_pos ⟨hoff, hhigh⟩
      have hle : 1048576 ≤ (s.truncate lin).toNat := hle
      have hlt : (s.truncate lin).toNat < 1114112 := hlt
      rw [htrunc, hsub hhigh] at hle hlt
      refine hout hoff ⟨?_, ?_⟩
      · show 2097152 ≤ lin.toNat
        omega
      · show lin.toNat < 2162688
        omega
    · have htrunc : s.truncate lin = lin := if_neg fun hc => hhigh hc.2
      rw [htrunc] at hle
      exact hhigh hle
  have hhome := home_of_not_high (s := s) hnot
  obtain ⟨l', hplaced⟩ := h.maps.vmPflHandler lin herr rfl haddr hnot hroom
    fun hown => hhome ▸ h.apart _ _ (user_pageDirOffset haddr) (hhome.symm ▸ hown.1)
  exact ⟨p, l₁, l', rfl, h.placed hplaced, hnot, hplaced⟩

theorem Frames.setGateA20 (h : Frames s l) (state : Bool) : Frames (s.setGateA20 state) l := by
  obtain ⟨m, himem, heq, hmaps, hdir, hhome⟩ := h.maps.setGateA20 state
  exact h.same hmaps hdir (by rw [heq]) hhome (by rw [heq]) (by rw [heq])

/-- The virtual flags do not matter. -/
theorem Frames.withFlags (h : Frames s l) (flags : ULong) :
    Frames { s with vm := { s.vm with virtualEflags := flags } } l :=
  h.same (h.maps.of_pde h.maps.tables (fun _ => rfl) h.maps.twin) (fun _ => rfl) rfl
    (fun _ _ _ => rfl) rfl rfl

theorem Frames.simulateVmInt {regs : Vm86Regs} {vector : ULong} (h : Frames s l)
    (hok : s.PushesOk regs) : ∃ l', Frames (s.simulateVmInt regs vector).2 l' := by
  obtain ⟨hok₁, hok₂, hok₃⟩ := hok
  obtain ⟨l₁, h₁, -⟩ := h.putPdVal (top_lt _) hok₁ _
  have h₁' : Frames (s.pushFlags regs) l₁ := h₁.withFlags _
  obtain ⟨l₂, h₂, -⟩ := h₁'.putPdVal (top_lt _) hok₂ _
  obtain ⟨l₃, h₃, -⟩ := Frames.putPdVal (s := s.pushCs regs) h₂ (top_lt _) hok₃ _
  exact ⟨l₃, h₃⟩

/-- Someone else takes a page. -/
theorem Frames.allocPage {p : ULong} (h : Frames s (p :: l)) :
    Frames { s with
      mem := { s.mem with pages := s.mem.pages.allocPage.2 }
      others := insert p s.others } l := by
  obtain ⟨-, htables⟩ := h.maps.tables.allocPage
  refine ⟨h.maps.of_pde htables (fun _ => rfl) h.maps.twin, ?_, ?_, h.inj, ?_,
    Finset.mem_insert_of_mem h.empty⟩
  · exact fun i j hi hp => (h.apart i j hi hp).of_cons
  · intro i j hi hp hmem
    rcases Finset.mem_insert.mp hmem with heq | hmem
    · exact absurd (heq ▸ List.mem_cons_self ..) (h.apart i j hi hp).not_mem
    · exact h.shared i j hi hp hmem
  · intro q hq
    rcases Finset.mem_insert.mp hq with rfl | hq
    · exact ⟨h.maps.tables.aligned q (List.mem_cons_self ..), h.maps.tables.apart_head⟩
    · exact ⟨(h.others q hq).1, (h.others q hq).2.of_cons⟩

/-- Someone else gives a page back. -/
theorem Frames.freePage {p : ULong} (h : Frames s l) (hp : p ∈ s.others) (hne : p ≠ s.emptyPage) :
    Frames { s with
      mem := { s.mem with pages := s.mem.pages.freePage p }
      others := s.others.erase p } (p :: l) := by
  obtain ⟨halign, hapart⟩ := h.others p hp
  have htables := h.maps.tables.freePage halign hapart
  refine ⟨h.maps.of_pde htables (fun _ => rfl) h.maps.twin, ?_, ?_, h.inj, ?_,
    Finset.mem_erase.mpr ⟨hne.symm, h.empty⟩⟩
  · intro i j hi hpres
    refine (h.apart i j hi hpres).cons fun hc => hne ?_
    exact hc.symm.trans (h.shared i j hi hpres (hc ▸ hp)).1
  · exact fun i j hi hpres hmem => h.shared i j hi hpres (Finset.mem_of_mem_erase hmem)
  · intro q hq
    obtain ⟨hqp, hq⟩ := Finset.mem_erase.mp hq
    exact ⟨(h.others q hq).1, (h.others q hq).2.cons hqp⟩

/-- **Frames.** Every safe step keeps the frames apart. -/
theorem vmStep_frames {s' : VmSys} {op : VmOp} (h : Frames s l) (hsafe : s.Safe op)
    (hstep : vmStep s op = some s') : ∃ l', Frames s' l' := by
  cases op with
  | setGateA20 state =>
    cases hstep
    exact ⟨l, h.setGateA20 state⟩
  | pageFault errorCode lin =>
    simp only [vmStep] at hstep
    split at hstep
    · rename_i hc
      cases hstep
      by_cases herr : errorCode &&& PF_ERROR_PROTECTION = 0
      · obtain ⟨-, -, l', -, hframes, -⟩ := h.pageFault hc.1 herr (hsafe herr)
        exact ⟨l', hframes⟩
      · rw [VmSys.vmPflHandler, if_pos herr]
        exact ⟨l, h⟩
    · cases hstep
  | putPdVal size val lin =>
    simp only [vmStep] at hstep
    split at hstep
    · rename_i hlin
      cases hstep
      obtain ⟨l', hframes, -⟩ := h.putPdVal hlin hsafe val
      exact ⟨l', hframes⟩
    · cases hstep
  | simulateVmInt regs vector =>
    cases hstep
    exact h.simulateVmInt hsafe
  | allocPage =>
    cases hstep
    cases l with
    | nil =>
      have hnil := Pages.allocPage_nil h.maps.tables.free
      rw [if_pos (congrArg Prod.fst hnil), hnil]
      exact ⟨[], h⟩
    | cons p l =>
      obtain ⟨hp, -⟩ := Pages.allocPage_cons h.maps.tables.free
      rw [if_neg (hp ▸ h.maps.tables.free.ne_null (List.mem_cons_self ..)), hp]
      exact ⟨l, h.allocPage⟩
  | freePage p =>
    simp only [vmStep] at hstep
    split at hstep
    · rename_i hc
      cases hstep
      exact ⟨p :: l, h.freePage hc.1 hc.2⟩
    · cases hstep

end Steps

end Vmm386.Vmach
