import Vmm386.Vmach.Frames

/-!
# Creation

`create_vm`: the page tables as `fill_vm_page_dir` makes them. Only the pages of the ROM are
present in them.
-/

namespace Vmm386.Vmach

open Mm

/-- The entries of the ROM. -/
def romEntry (emptyPage : ULong) : ULong := toPhysical emptyPage ||| PTE_USER ||| PTE_PRESENT

/-- The page tables while `fill_vm_page_dir` runs: the first `d` tables are there, and with the
free pages they are `n`. The pages are among `l₀`. -/
structure Filled (m : Mem) (pd emptyPage : ULong) (l₀ : List ULong) (n d : ℕ) (l : List ULong) :
    Prop where
  tables : Tables m pd l
  present : ∀ i, User i → (Present (m.table pd i) ↔ i.toNat < d)
  owned : ∀ i, User i → Present (m.table pd i) → Freeable (m.table pd i)
  kernel : ∀ i, ¬User i → ¬Freeable (m.table pd i)
  length : l.length + d = n
  free : ∀ p ∈ l, p ∈ l₀
  table : ∀ i, User i → Present (m.table pd i) → entryPage (m.table pd i) ∈ l₀
  count : ∀ p, l.count p + dirSum m pd p + (if pd = p then 1 else 0) = l₀.count p
  entry : ∀ i j, User i → Present (m.entry pd i j) →
    m.entry pd i j = romEntry emptyPage ∧ i = 0 ∧ 160 ≤ j.toNat ∧ j.toNat < 256

section Fill

variable {m : Mem} {pd emptyPage x stop pte : ULong} {l₀ l : List ULong} {n d : ℕ}

/-- One entry is set, for the page at `x` K. -/
theorem Filled.setPte (h : Filled m pd emptyPage l₀ n d l) (pte : ULong) (hx : x.toNat < 4000000)
    (hd : x.toNat / 4096 ≤ d) (hn : x.toNat / 4096 < n)
    (hpte : ¬Present pte ∨ pte = romEntry emptyPage ∧ 640 ≤ x.toNat ∧ x.toNat < 1024) :
    ∃ d' l', Filled (m.setPte pd (x * 1024) pte) pd emptyPage l₀ n d' l' ∧ d ≤ d' ∧
      x.toNat / 4096 < d' := by
  have hmul : (x * 1024).toNat = x.toNat * 1024 := by
    rw [BitVec.toNat_mul]
    show x.toNat * 1024 % 2 ^ 32 = _
    omega
  have hdir : (pageDirOffset (x * 1024)).toNat = x.toNat / 4096 := by
    rw [toNat_pageDirOffset, hmul]
    omega
  have htab : (pageTableOffset (x * 1024)).toNat = x.toNat / 4 % 1024 := by
    rw [toNat_pageTableOffset, hmul]
    omega
  have hi : User (pageDirOffset (x * 1024)) := by
    show (pageDirOffset (x * 1024)).toNat < 992
    omega
  have hroom : ¬Present (m.table pd (pageDirOffset (x * 1024))) → l ≠ [] := by
    intro hnp hnil
    have hle : ¬(pageDirOffset (x * 1024)).toNat < d := fun hc => hnp ((h.present _ hi).mpr hc)
    have hlen := h.length
    rw [hnil, List.length_nil] at hlen
    omega
  obtain ⟨l', hm⟩ := h.tables.setPte (e := pte) hi hroom
  have hpages := hm.pages
  have hcount := hm.count hi
  generalize pageDirOffset (x * 1024) = i at *
  generalize pageTableOffset (x * 1024) = j at *
  generalize m.setPte pd (x * 1024) pte = m' at *
  have hcases : ∀ i', m'.table pd i' = m.table pd i' ∨
      i' = i ∧ Owning (m'.table pd i') ∧ entryPage (m'.table pd i') ∈ l := by
    intro i'
    by_cases heq : i' = i
    · subst heq
      rcases hpages with ⟨-, hsame, -⟩ | ⟨-, -, hown, hl⟩
      · exact .inl hsame
      · exact .inr ⟨rfl, hown, hl ▸ List.mem_cons_self ..⟩
    · exact .inl (hm.other i' heq)
  have hentry : ∀ i' j', User i' → Present (m'.entry pd i' j') →
      m'.entry pd i' j' = romEntry emptyPage ∧ i' = 0 ∧ 160 ≤ j'.toNat ∧ j'.toNat < 256 := by
    intro i' j' hi' hp
    rw [hm.entry i' j' hi'] at hp ⊢
    by_cases heq : i' = i ∧ j' = j
    · rw [if_pos heq] at hp ⊢
      obtain ⟨hrom, hle, hlt⟩ := hpte.resolve_left fun hc => hc hp
      refine ⟨hrom, heq.1.trans (BitVec.eq_of_toNat_eq ?_), ?_, ?_⟩
      · rw [hdir]
        show _ = 0
        omega
      · rw [heq.2]
        omega
      · rw [heq.2]
        omega
    · rw [if_neg heq] at hp ⊢
      exact h.entry i' j' hi' hp
  have howned : ∀ i', User i' → Present (m'.table pd i') → Freeable (m'.table pd i') := by
    intro i' hi' hp
    rcases hcases i' with hsame | ⟨-, hown, -⟩
    · rw [hsame] at hp ⊢
      exact h.owned i' hi' hp
    · exact hown.2
  have hkernel : ∀ i', ¬User i' → ¬Freeable (m'.table pd i') := by
    intro i' hi'
    rcases hcases i' with hsame | ⟨rfl, -⟩
    · rw [hsame]
      exact h.kernel i' hi'
    · exact absurd hi hi'
  have htable : ∀ i', User i' → Present (m'.table pd i') → entryPage (m'.table pd i') ∈ l₀ := by
    intro i' hi' hp
    rcases hcases i' with hsame | ⟨-, -, hl⟩
    · rw [hsame] at hp ⊢
      exact h.table i' hi' hp
    · exact h.free _ hl
  have hcount' : ∀ p, l'.count p + dirSum m' pd p + (if pd = p then 1 else 0) = l₀.count p := by
    intro p
    have := hcount p
    have := h.count p
    rw [List.count_nil] at *
    omega
  rcases hpages with ⟨hp, hsame, rfl⟩ | ⟨hnp, -, hown, rfl⟩
  · have hlt := (h.present i hi).mp hp
    refine ⟨d, _, ⟨hm.tables, ?_, howned, hkernel, h.length, h.free, htable, hcount', hentry⟩,
      le_refl d, by omega⟩
    intro i' hi'
    rw [← h.present i' hi']
    rcases hcases i' with hsame' | ⟨rfl, -⟩
    · rw [hsame']
    · rw [hsame]
  · have hle : ¬i.toNat < d := fun hc => hnp ((h.present i hi).mpr hc)
    refine ⟨d + 1, l', ⟨hm.tables, ?_, howned, hkernel, ?_, ?_, htable, hcount', hentry⟩,
      Nat.le_succ d, by omega⟩
    · intro i' hi'
      by_cases heq : i' = i
      · subst heq
        exact iff_of_true hown.1 (by omega)
      · rw [hm.other i' heq, h.present i' hi']
        have hne : i'.toNat ≠ i.toNat := fun hc => heq (BitVec.eq_of_toNat_eq hc)
        omega
    · have hlen := h.length
      rw [List.length_cons] at hlen
      omega
    · exact fun p hp => h.free p (List.mem_cons_of_mem _ hp)

/-- One loop of `fill_vm_page_dir`. -/
theorem Filled.fillRange (h : Filled m pd emptyPage l₀ n d l) (k : ℕ) (x stop pte : ULong)
    (hk : stop.toNat ≤ x.toNat + 4 * k) (hstop : stop.toNat < 4000000) (hd : x.toNat / 4096 ≤ d)
    (hn : stop.toNat ≤ 4096 * n)
    (hpte : ¬Present pte ∨ pte = romEntry emptyPage ∧ 640 ≤ x.toNat ∧ stop.toNat ≤ 1024) :
    ∃ d' l', Filled (fillRange pd pte stop k x m).2 pd emptyPage l₀ n d' l' ∧ d ≤ d' ∧
      (fillRange pd pte stop k x m).1.toNat / 4096 ≤ d' ∧ (x.toNat < stop.toNat → 0 < d') ∧
      stop.toNat ≤ (fillRange pd pte stop k x m).1.toNat ∧
      (fillRange pd pte stop k x m).1.toNat % 4 = x.toNat % 4 ∧
      ((fillRange pd pte stop k x m).1.toNat < stop.toNat + 4 ∨
        (fillRange pd pte stop k x m).1 = x) := by
  induction k generalizing x m d l with
  | zero => exact ⟨d, l, h, le_refl d, hd, fun hc => absurd hk (by omega), by
      show stop.toNat ≤ x.toNat; omega, rfl, .inr rfl⟩
  | succ k ih =>
    rw [Vmach.fillRange]
    by_cases hlt : x < stop
    · rw [if_pos hlt]
      have hlt' : x.toNat < stop.toNat := hlt
      have hnext : (x + 4).toNat = x.toNat + 4 := by
        rw [BitVec.toNat_add]
        show (x.toNat + 4) % 2 ^ 32 = _
        omega
      obtain ⟨d₁, l₁, h₁, hle₁, hpos₁⟩ := h.setPte pte (by omega) hd (by omega)
        (hpte.imp_right fun hc => ⟨hc.1, hc.2.1, by omega⟩)
      obtain ⟨d', l', h', hle, hx, -, hend, hmod, hlast⟩ := ih (x := x + 4) h₁ (by omega)
        (by omega) (hpte.imp_right fun hc => ⟨hc.1, by omega, hc.2.2⟩)
      refine ⟨d', l', h', by omega, hx, fun _ => by omega, hend, by omega, ?_⟩
      rcases hlast with hlast | hlast
      · exact .inl hlast
      · refine .inl ?_
        rw [hlast]
        omega
    · rw [if_neg hlt]
      have hlt' : ¬x.toNat < stop.toNat := hlt
      exact ⟨d, l, h, le_refl d, hd, fun hc => absurd hc hlt', Nat.le_of_not_lt hlt', rfl, .inr rfl⟩

/-- `fill_vm_page_dir`. -/
theorem Filled.fillVmPageDir (h : Filled m pd emptyPage l₀ n 0 l) (base extended : UShort)
    (hn : max base.toNat (1024 + extended.toNat) ≤ 4096 * n) :
    ∃ d l', Filled (fillVmPageDir pd emptyPage base extended m) pd emptyPage l₀ n d l' ∧ 0 < d := by
  have hbase := base.isLt
  have hext := extended.isLt
  have hbase' : (base.zeroExtend 32 : ULong).toNat = base.toNat := by
    rw [BitVec.toNat_setWidth]
    omega
  have hext' : (1024 + extended.zeroExtend 32 : ULong).toNat = 1024 + extended.toNat := by
    rw [BitVec.toNat_add, BitVec.toNat_setWidth]
    show (1024 + extended.toNat % 2 ^ 32) % 2 ^ 32 = _
    omega
  have htemplate : ¬Present (PTE_USER ||| PTE_READ_WRITE ||| PTE_FREEABLE) := by decide
  have hzero : (0 : ULong).toNat = 0 := rfl
  have h640 : (640 : ULong).toNat = 640 := rfl
  have h1024 : (1024 : ULong).toNat = 1024 := rfl
  rw [Vmach.fillVmPageDir]
  obtain ⟨d₁, l₁, h₁, -⟩ := h.fillRange ADDRESSES 0 (base.zeroExtend 32) _
    (by rw [hbase', hzero]; show _ ≤ 0 + 4 * 2 ^ 32; omega) (by omega) (by omega) (by omega)
    (.inl htemplate)
  generalize (Vmach.fillRange pd _ (base.zeroExtend 32) ADDRESSES 0 m).2 = m₁ at *
  obtain ⟨d₂, l₂, h₂, -, hx₂, hpos, hend, hmod, hlast⟩ := h₁.fillRange ADDRESSES 640 1024
    (romEntry emptyPage)
    (by rw [h640, h1024]; show _ ≤ 640 + 4 * 2 ^ 32; omega) (by omega) (by omega) (by omega)
    (.inr ⟨rfl, by omega, by omega⟩)
  have hpos := hpos (by omega)
  change ∃ d l', Filled (Vmach.fillRange pd _ _ ADDRESSES
    (Vmach.fillRange pd (romEntry emptyPage) 1024 ADDRESSES 640 m₁).1
    (Vmach.fillRange pd (romEntry emptyPage) 1024 ADDRESSES 640 m₁).2).2 pd emptyPage l₀ n d l' ∧ 0 < d
  generalize Vmach.fillRange pd (romEntry emptyPage) 1024 ADDRESSES 640 m₁ = r at *
  have hr : r.1.toNat = 1024 := by
    rcases hlast with hlast | hlast
    · omega
    · rw [hlast] at hend
      omega
  obtain ⟨d₃, l₃, h₃, hle, -⟩ := h₂.fillRange ADDRESSES r.1
    (1024 + extended.zeroExtend 32) _
    (by rw [hext', hr]; show _ ≤ 1024 + 4 * 2 ^ 32; omega) (by omega) (by omega) (by omega)
    (.inl htemplate)
  exact ⟨d₃, l₃, h₃, by omega⟩

end Fill

/-- The page tables that `fill_vm_page_dir` needs. -/
def tablesFor (virtualMem : ULong) : ℕ :=
  (max (baseMem virtualMem).toNat (1024 + (extendedMem virtualMem).toNat) + 4095) / 4096

/-- The system before a machine is created: the free pages are in order, nobody uses them, and
the kernel's page tables are not to be freed (`start16.S` makes them). -/
structure Ready (k : Kernel) (l : List ULong) : Prop where
  free : k.mem.pages.Free l
  aligned : ∀ p ∈ l, Aligned p
  others : ∀ p ∈ k.others, Aligned p ∧ p ≠ NULL ∧ p ∉ l
  empty : k.emptyPage ∈ k.others
  kernel : ∀ i, ¬User i → ¬Freeable (k.mem.table k.logicalKernelPd i)

theorem entryPage_rom {emptyPage : ULong} (h : Aligned emptyPage) :
    entryPage (romEntry emptyPage) = emptyPage := by
  rw [romEntry, BitVec.or_assoc]
  exact entryPage_or h (by decide)

theorem not_freeable_rom {emptyPage : ULong} (h : Aligned emptyPage) :
    ¬Freeable (romEntry emptyPage) := by
  rw [romEntry, BitVec.or_assoc, freeable_or h]
  decide

/-- A machine whose tables were just filled: nothing but the ROM is present. -/
structure Fresh (s : VmSys) (l₀ l : List ULong) : Prop where
  frames : Frames s l
  enabled : s.vm.a20State = true
  count : ∀ p, l.count p + dirSum s.mem s.vm.pageDir p + (if s.vm.pageDir = p then 1 else 0) =
    l₀.count p
  rom : ∀ i j, User i → Present (s.entry i j) → s.Rom i j

/-- `create_vm` up to `set_gate_a20`. -/
theorem Ready.fillVm {k : Kernel} {virtualMem : ULong} {l : List ULong} (h : Ready k l)
    (hroom : k.mem.pages.HasFree (1 + tablesFor virtualMem)) :
    ∃ s l', k.fillVm virtualMem = some s ∧ Fresh s l l' ∧ s.others = k.others ∧
      s.emptyPage = k.emptyPage := by
  have hlen := h.free.hasFree_iff.mp hroom
  obtain ⟨pd, l₁, rfl⟩ : ∃ pd l₁, l = pd :: l₁ := by
    cases l with
    | nil =>
      rw [List.length_nil] at hlen
      omega
    | cons pd l₁ => exact ⟨pd, l₁, rfl⟩
  rw [List.length_cons] at hlen
  obtain ⟨hpd, htables, hdir⟩ := makeTaskPageDir_spec k.logicalKernelPd h.free h.aligned
  have hne : pd ≠ NULL := h.free.ne_null (List.mem_cons_self ..)
  have hnone : ∀ i, User i → ¬Present ((k.mem.makeTaskPageDir k.logicalKernelPd).2.table pd i) := by
    intro i hi
    rw [hdir, if_pos hi]
    exact not_present_zero
  have hstart : Filled (k.mem.makeTaskPageDir k.logicalKernelPd).2 pd k.emptyPage (pd :: l₁)
      l₁.length 0 l₁ := by
    refine ⟨htables, fun i hi => iff_of_false (hnone i hi) (Nat.not_lt_zero _),
      fun i hi hp => absurd hp (hnone i hi), ?_, rfl, fun p hp => List.mem_cons_of_mem pd hp,
      fun i hi hp => absurd hp (hnone i hi), ?_, ?_⟩
    · intro i hi
      rw [hdir, if_neg hi]
      exact h.kernel i hi
    · intro p
      have hsum : dirSum (k.mem.makeTaskPageDir k.logicalKernelPd).2 pd p = 0 := by
        refine Finset.sum_eq_zero fun i hi => owner_of_not (fun hown => ?_) p
        have hi := Finset.mem_range.mp hi
        refine hnone (BitVec.ofNat 32 i) ?_ hown.1
        show (BitVec.ofNat 32 i).toNat < 992
        rw [BitVec.toNat_ofNat]
        omega
      rw [hsum, List.count_cons]
      simp only [beq_iff_eq]
      omega
    · exact fun i j hi hp => absurd (Mem.present_of_entry hp) (hnone i hi)
  obtain ⟨d, l', hfilled, hpos⟩ := hstart.fillVmPageDir (baseMem virtualMem)
    (extendedMem virtualMem) (by
      have htables : tablesFor virtualMem ≤ l₁.length := by omega
      rw [tablesFor] at htables
      omega)
  have halign : Aligned k.emptyPage := (h.others _ h.empty).1
  generalize hm : fillVmPageDir pd k.emptyPage (baseMem virtualMem) (extendedMem virtualMem)
    (k.mem.makeTaskPageDir k.logicalKernelPd).2 = m at hfilled
  let s : VmSys := { k with
    mem := m
    vm := { pageDir := pd, a20State := true, himemPtes := fun _ => 0, virtualEflags := 2 } }
  have hfill : k.fillVm virtualMem = some s := by
    rw [Kernel.fillVm]
    simp only [hpd, if_neg hne, hm]
    rfl
  have hentry : ∀ i j, User i → Present (s.entry i j) → s.entry i j = romEntry k.emptyPage ∧
      i = 0 ∧ 160 ≤ j.toNat ∧ j.toNat < 256 := hfilled.entry
  have hrom : ∀ i j, User i → Present (s.home i j) → s.Rom i j := by
    intro i j hi hp
    have hhome : s.home i j = s.entry i j := home_of_enabled rfl i j
    rw [hhome] at hp
    obtain ⟨heq, hrest⟩ := hentry i j hi hp
    refine ⟨?_, ?_, hrest⟩
    · rw [hhome, heq]
      exact entryPage_rom halign
    · rw [hhome, heq]
      exact not_freeable_rom halign
  have hothers : ∀ p ∈ k.others, Aligned p ∧ Apart m pd l' p := by
    intro p hp
    obtain ⟨hal, hnull, hnot⟩ := h.others p hp
    refine ⟨hal, fun hmem => ?_, fun i hi hpres hc => hnot (hc ▸ hfilled.table i hi hpres)⟩
    rw [List.mem_cons, List.mem_cons] at hmem
    rcases hmem with hmem | hmem | hmem
    · exact hnull hmem
    · exact hnot (hmem ▸ List.mem_cons_self ..)
    · exact hnot (hfilled.free p hmem)
  have hmaps : Maps s l' := by
    refine ⟨hfilled.tables, (hfilled.present 0 (by decide)).mpr hpos, hfilled.owned,
      hfilled.kernel, fun hoff => ?_⟩
    exact absurd hoff.symm Bool.false_ne_true
  refine ⟨s, l', hfill, ⟨⟨hmaps, ?_, fun i j hi hp _ => hrom i j hi hp,
    fun i j _ _ hi _ hp _ _ => .inr (hrom i j hi hp), hothers, h.empty⟩, rfl, hfilled.count, ?_⟩,
    rfl, rfl⟩
  · intro i j hi hp
    rw [(hrom i j hi hp).1]
    exact (hothers _ h.empty).2
  · intro i j hi hp
    refine hrom i j hi ?_
    rw [home_of_enabled rfl]
    exact hp

end Vmm386.Vmach
