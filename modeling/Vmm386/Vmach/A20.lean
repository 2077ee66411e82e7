import Vmm386.Lib.Runs
import Vmm386.Vmach.Creation

/-!
# The A20 gate

With the gate disabled the first 64K are seen again from 1M on, and what was there before
comes back when the gate is enabled. `put_pd_val` knows nothing of this: a page that it maps
is seen in one place only.
-/

namespace Vmm386.Vmach

open Mm Runs

namespace VmSys

/-- With the gate disabled, the first 64K and the pages from 1M on have the same frames. -/
def Aliased (s : VmSys) : Prop :=
  s.vm.a20State = false → ∀ i, i < 16 →
    Present (s.getPte (lowAddr i)) ∨ Present (s.getPte (highAddr i)) →
      Present (s.getPte (lowAddr i)) ∧ Present (s.getPte (highAddr i)) ∧
        pteGetAddr (s.getPte (lowAddr i)) = pteGetAddr (s.getPte (highAddr i))

/-- The pages from 1M on have the same entries, and what is in their frames is the same. -/
def Restored (before after : VmSys) : Prop :=
  ∀ i, i < 16 → after.getPte (highAddr i) = before.getPte (highAddr i) ∧
    (Present (before.getPte (highAddr i)) → ∀ o : ULong, o.toNat < 4096 →
      after.bytes (entryPage (before.getPte (highAddr i)) + o) =
        before.bytes (entryPage (before.getPte (highAddr i)) + o))

/-- The same, whether or not the gate hides the pages. -/
def SameHigh (s s' : VmSys) : Prop :=
  ∀ k, k < 16 → s'.home 0 (256 + k) = s.home 0 (256 + k) ∧
    (Present (s.home 0 (256 + k)) → ∀ o : ULong, o.toNat < 4096 →
      s'.bytes (entryPage (s.home 0 (256 + k)) + o) = s.bytes (entryPage (s.home 0 (256 + k)) + o))

theorem SameHigh.refl (s : VmSys) : s.SameHigh s := fun _ _ => ⟨rfl, fun _ _ _ => rfl⟩

theorem SameHigh.trans {s s' s'' : VmSys} (h : s.SameHigh s') (h' : s'.SameHigh s'') :
    s.SameHigh s'' := by
  intro k hk
  obtain ⟨hhome, hbytes⟩ := h k hk
  obtain ⟨hhome', hbytes'⟩ := h' k hk
  rw [hhome] at hhome' hbytes'
  exact ⟨hhome', fun hp o ho => (hbytes' hp o ho).trans (hbytes hp o ho)⟩

end VmSys

open VmSys

section

variable {s s' : VmSys} {l : List ULong} {lin val k : ULong} {size : ℕ}

theorem Frames.aliased (h : Frames s l) : s.Aliased := by
  intro hoff i hi hor
  rw [getPte_low s hi, getPte_high s hi] at *
  obtain ⟨hiff, haddr, -⟩ := h.maps.twin hoff i hi
  rw [hiff] at hor
  have hlow := hor.elim id id
  exact ⟨hlow, hiff.mpr hlow, haddr.symm⟩

/-- A page that is seen has a frame of its own, or that of a low page. -/
theorem Frames.exists_home (h : Frames s l) (hoff : s.vm.a20State = false)
    {i j : ULong} (hi : User i) (hp : Present (s.entry i j)) :
    ∃ i' j', User i' ∧ ¬IsHigh i' j' ∧ Present (s.home i' j') ∧
      entryPage (s.home i' j') = entryPage (s.entry i j) := by
  by_cases hhigh : IsHigh i j
  · obtain ⟨q, hq, rfl, rfl⟩ := hhigh.eq_add
    obtain ⟨hiff, haddr, -⟩ := h.maps.twin hoff q hq
    refine ⟨0, q, by decide, ?_, ?_, ?_⟩
    · intro hc
      obtain ⟨r, hr, -, rfl⟩ := hc.eq_add
      exact add_256_ne hr hq rfl
    · rw [home_low hq]
      exact hiff.mp hp
    · rw [home_low hq, entryPage, entryPage, haddr]
  · have hhome := home_of_not_high (s := s) fun _ => hhigh
    exact ⟨i, j, hi, hhigh, hhome.symm ▸ hp, by rw [hhome]⟩

/-- The machine does not write into the frames that the gate hides. -/
theorem Frames.target_ne (h : Frames s l) (hoff : s.vm.a20State = false)
    (hlin : lin < KERNEL_BASE_ADDR) (hk : k < 16) (hp : Present (s.home 0 (256 + k))) :
    Aligned (s.target lin) ∧ entryPage (s.home 0 (256 + k)) ≠ s.target lin := by
  have hapart := h.apart 0 (256 + k) (by decide) hp
  rw [VmSys.target]
  split
  · cases l with
    | nil =>
      rw [Pages.allocPage_nil h.maps.tables.free]
      exact ⟨rfl, fun hc => hapart.1 (hc ▸ List.mem_cons_self ..)⟩
    | cons p l =>
      rw [(Pages.allocPage_cons h.maps.tables.free).1]
      exact ⟨h.maps.tables.aligned p (List.mem_cons_self ..),
        fun hc => hapart.not_mem (hc ▸ List.mem_cons_self ..)⟩
  · rename_i hphys
    refine ⟨aligned_entryPage _, fun hc => ?_⟩
    obtain ⟨i, j, hi, hnot, hpres, heq⟩ :=
      h.exists_home hoff (user_pageDirOffset hlin) (linToPhys_of_ne hphys).1
    rcases h.inj 0 (256 + k) i j (by decide) hi hp hpres (hc.trans heq.symm) with hsame | hrom
    · exact hnot (hsame.1 ▸ hsame.2 ▸ isHigh_add hk)
    · have hlt := hrom.2.2.2.2
      rw [toNat_add_256 hk] at hlt
      omega

theorem Frames.putPdVal_sameHigh (h : Frames s l) (hoff : s.vm.a20State = false)
    (hlin : lin < KERNEL_BASE_ADDR) (hok : s.PutOk size lin) :
    s.SameHigh (s.putPdVal size val lin) := by
  intro k hk
  constructor
  · obtain ⟨l', -, ⟨-, hmem⟩ | ⟨-, p, l₁, -, hnot, hplaced⟩⟩ := h.putPdVal hlin hok val
    · rw [home_high hoff hk]
      exact home_high hoff hk
    · rw [hplaced.home 0 _ (by decide), if_neg ?_]
      rintro ⟨h₁, h₂⟩
      exact hnot hoff (h₁ ▸ h₂ ▸ isHigh_add hk)
  · intro hp o ho
    obtain ⟨halign, hne⟩ := h.target_ne hoff hlin hk hp
    refine putPdVal_bytes halign hok.1 ?_
    rw [page_add (aligned_entryPage _) ho]
    exact hne

theorem Frames.simulateVmInt_sameHigh {regs : Vm86Regs} {vector : ULong} (h : Frames s l)
    (hoff : s.vm.a20State = false) (hok : s.PushesOk regs) :
    s.SameHigh (s.simulateVmInt regs vector).2 := by
  obtain ⟨hok₁, hok₂, hok₃⟩ := hok
  obtain ⟨l₁, h₁, -⟩ := h.putPdVal (top_lt _) hok₁ _
  have h₁' : Frames (s.pushFlags regs) l₁ := h₁.withFlags _
  obtain ⟨l₂, h₂, -⟩ := h₁'.putPdVal (top_lt _) hok₂ _
  have hsame₁ : s.SameHigh (s.pushFlags regs) := h.putPdVal_sameHigh hoff (top_lt _) hok₁
  have hsame₂ : (s.pushFlags regs).SameHigh (s.pushCs regs) :=
    h₁'.putPdVal_sameHigh hoff (top_lt _) hok₂
  exact (hsame₁.trans hsame₂).trans
    (Frames.putPdVal_sameHigh (s := s.pushCs regs) h₂ hoff (top_lt _) hok₃)

/-- A step while the gate is disabled, and stays so. -/
theorem vmStep_sameHigh {op : VmOp} (h : Frames s l) (hoff : s.vm.a20State = false)
    (hsafe : s.Safe op) (hne : op ≠ .setGateA20 true) (hstep : vmStep s op = some s') :
    s'.vm.a20State = false ∧ s.SameHigh s' := by
  cases op with
  | setGateA20 state =>
    cases state with
    | false =>
      cases hstep
      rw [setGateA20, if_pos hoff]
      exact ⟨hoff, SameHigh.refl s⟩
    | true => exact absurd rfl hne
  | pageFault errorCode lin =>
    simp only [vmStep] at hstep
    split at hstep
    · rename_i hc
      cases hstep
      by_cases herr : errorCode &&& PF_ERROR_PROTECTION = 0
      · obtain ⟨p, l₁, l', -, -, hnot, hplaced⟩ := h.pageFault hc.1 herr (hsafe herr)
        have heq := vmPflHandler_eq (s := s) lin herr
        refine ⟨by rw [heq]; exact hoff, fun k hk => ⟨?_, fun _ o _ => by rw [heq]⟩⟩
        rw [hplaced.home 0 _ (by decide), if_neg ?_]
        rintro ⟨h₁, h₂⟩
        exact hnot hoff (h₁ ▸ h₂ ▸ isHigh_add hk)
      · rw [VmSys.vmPflHandler, if_pos herr]
        exact ⟨hoff, SameHigh.refl s⟩
    · cases hstep
  | putPdVal size val lin =>
    simp only [vmStep] at hstep
    split at hstep
    · rename_i hlin
      cases hstep
      exact ⟨hoff, h.putPdVal_sameHigh hoff hlin hsafe⟩
    · cases hstep
  | simulateVmInt regs vector =>
    cases hstep
    exact ⟨hoff, h.simulateVmInt_sameHigh hoff hsafe⟩
  | allocPage =>
    cases hstep
    exact ⟨hoff, SameHigh.refl s⟩
  | freePage p =>
    simp only [vmStep] at hstep
    split at hstep
    · cases hstep
      exact ⟨hoff, SameHigh.refl s⟩
    · cases hstep

theorem vmStep_preserves_frames : Preserves vmStep Safe fun s => ∃ l, Frames s l :=
  fun _ _ _ ⟨_, h⟩ hsafe hstep => vmStep_frames h hsafe hstep

/-- A step that is safe and does not enable the gate. -/
def StaysOff (s : VmSys) (op : VmOp) : Prop := s.Safe op ∧ op ≠ .setGateA20 true

theorem vmStep_preserves_sameHigh (s₀ : VmSys) : Preserves vmStep StaysOff fun s =>
    (∃ l, Frames s l) ∧ s.vm.a20State = false ∧ s₀.SameHigh s := by
  rintro s op s' ⟨⟨l, h⟩, hoff, hsame⟩ ⟨hsafe, hne⟩ hstep
  obtain ⟨hoff', hsame'⟩ := vmStep_sameHigh h hoff hsafe hne hstep
  exact ⟨vmStep_frames h hsafe hstep, hoff', hsame.trans hsame'⟩

end

/-- **The A20 gate.** In every run whose steps are safe, whenever the gate is disabled the
first 64K and the pages from 1M on have the same frames; and what the machine does while the
gate is disabled leaves the pages from 1M on as they were, to be seen again when the gate is
enabled. The run starts from the filled page tables; the first thing that `create_vm` does
with them is to disable the gate. -/
theorem a20_runs (k : Kernel) (l : List ULong) (hk : Ready k l) (virtualMem : ULong)
    (hroom : k.mem.pages.HasFree (1 + tablesFor virtualMem)) (s₀ s : VmSys)
    (hcreate : k.fillVm virtualMem = some s₀) (ops : List VmOp)
    (hrun : run vmStep s₀ ops = some s) (hsafe : Along vmStep Safe s₀ ops) :
    s.Aliased ∧ (s.vm.a20State = true → ∀ (ops' : List VmOp) (s' : VmSys),
      run vmStep (s.setGateA20 false) ops' = some s' →
      Along vmStep StaysOff (s.setGateA20 false) ops' →
        Restored s (s'.setGateA20 true)) := by
  obtain ⟨s₁, l₁, hfill, hfresh, -⟩ := hk.fillVm hroom
  rw [hfill] at hcreate
  cases hcreate
  obtain ⟨l', hframes⟩ := vmStep_preserves_frames.run ⟨l₁, hfresh.frames⟩ hsafe hrun
  refine ⟨hframes.aliased, fun hon ops' s' hrun' hoff' => ?_⟩
  obtain ⟨m, himem, heq, -, -, hhome⟩ := hframes.maps.setGateA20 false
  have hstart : s.SameHigh (s.setGateA20 false) := by
    intro q hq
    refine ⟨hhome 0 _ (by decide), fun _ o _ => ?_⟩
    rw [heq]
  obtain ⟨⟨l'', hframes'⟩, -, hsame⟩ := (vmStep_preserves_sameHigh s).run
    ⟨⟨l', hframes.setGateA20 false⟩, by rw [heq], hstart⟩ hoff' hrun'
  obtain ⟨m', himem', heq', -, -, hhome'⟩ := hframes'.maps.setGateA20 true
  intro q hq
  obtain ⟨hq₁, hq₂⟩ := hsame q hq
  have hon' : (s'.setGateA20 true).vm.a20State = true := by rw [heq']
  rw [getPte_high _ hq, getPte_high _ hq, ← home_of_enabled hon', ← home_of_enabled hon,
    hhome' 0 _ (by decide)]
  refine ⟨hq₁, fun hp o ho => ?_⟩
  have hbytes : (s'.setGateA20 true).bytes = s'.bytes := by rw [heq']
  rw [hbytes]
  exact hq₂ hp o ho

/-! ### A write to a page that is not mapped -/

/-- `put_pd_val` maps a page of the first 64K, and the page at 1M more stays as it is. -/
theorem Frames.putPdVal_splits {s : VmSys} {l : List ULong} {k : ULong} (h : Frames s l)
    (hne : l ≠ []) (hoff : s.vm.a20State = false) (hk : k < 16) (hnp : ¬Present (s.entry 0 k))
    (size : ℕ) (val : ULong) : ¬(s.putPdVal size val (lowAddr k)).Aliased := by
  intro halias
  obtain ⟨p, l₁, rfl⟩ : ∃ p l₁, l = p :: l₁ := List.exists_cons_of_ne_nil hne
  have hdir := pageDirOffset_lowAddr hk
  have htab := pageTableOffset_lowAddr hk
  have hphys : s.mem.linToPhys s.vm.pageDir (lowAddr k) = 0 := by
    by_contra hc
    have hpres := (linToPhys_of_ne hc).1
    rw [getPte_low s hk] at hpres
    exact hnp hpres
  have hflags : (PTE_READ_WRITE ||| PTE_USER ||| PTE_PRESENT) &&& PTE_ADDR = 0 := by decide
  obtain ⟨hp, -, l', hm⟩ := h.maps.mapPage (lowAddr k) (hdir ▸ (by decide : User 0)) hflags
    (present_flags _) (fun hc => absurd h.maps.dir (hdir ▸ hc))
    (by
      rw [hdir, htab]
      exact fun hown => absurd hown.1 hnp)
  rw [hdir, htab] at hm
  have hmem := putPdVal_mem size val hphys
  rw [hp] at hmem
  rw [← hmem] at hm
  have hlow : (s.putPdVal size val (lowAddr k)).entry 0 k =
      toPhysical p ||| (PTE_READ_WRITE ||| PTE_USER ||| PTE_PRESENT) :=
    (hm.entry 0 k (by decide)).trans (if_pos ⟨rfl, rfl⟩)
  have hhigh : (s.putPdVal size val (lowAddr k)).entry 0 (256 + k) = s.entry 0 (256 + k) :=
    (hm.entry 0 (256 + k) (by decide)).trans (if_neg fun hc => add_256_ne hk hk hc.2)
  have hpres : Present ((s.putPdVal size val (lowAddr k)).entry 0 k) := by
    rw [hlow, ← BitVec.or_assoc]
    exact present_flags _
  have hboth := halias hoff k hk
  rw [getPte_low _ hk, getPte_high _ hk] at hboth
  have hpres' := (hboth (.inl hpres)).2.1
  rw [hhigh] at hpres'
  exact hnp (((h.maps.twin hoff k hk).1).mp hpres')

/-- Two free pages, and two that are in use. -/
def fourPages : Kernel where
  mem :=
    { pages :=
        { links := ⟨0x900000, fun p => if p = 0x900000 then 0x901000 else NULL⟩
          usedPages := 2
          availablePages := 2 }
      table := fun _ _ => 0 }
  bytes := fun _ => 0
  emptyPage := 0x902000
  logicalKernelPd := 0x803000
  others := {0x902000, 0x903000}

theorem fourPages_ready : Ready fourPages [0x900000, 0x901000] := by
  have hall : ∀ p : ULong, p ∈ [0x900000, 0x901000, 0x902000, 0x903000] →
      Aligned p ∧ p ≠ NULL := by
    simp [Aligned]
  refine ⟨⟨⟨⟨rfl, by decide, rfl, by decide, rfl⟩, nofun⟩, rfl⟩, ?_, ?_, ?_, ?_⟩
  · intro p hp
    refine (hall p ?_).1
    simp only [List.mem_cons, List.not_mem_nil, or_false] at hp ⊢
    exact hp.elim .inl fun hp => .inr (.inl hp)
  · intro p hp
    rcases Finset.mem_insert.mp hp with rfl | hp
    · exact ⟨(hall _ (by decide)).1, (hall _ (by decide)).2, by decide⟩
    · rw [Finset.mem_singleton.mp hp]
      exact ⟨(hall _ (by decide)).1, (hall _ (by decide)).2, by decide⟩
  · exact Finset.mem_insert_self ..
  · intro i _ hc
    exact hc (BitVec.zero_and ..)

theorem fourPages_hasFree : fourPages.mem.pages.HasFree (1 + tablesFor 1024) :=
  fourPages_ready.free.hasFree_iff.mpr (by decide)

/-- The gate is disabled, and enabled again. -/
theorem a20_fourPages : ∃ s₀, fourPages.fillVm 1024 = some s₀ ∧ (s₀.setGateA20 false).Aliased ∧
    Restored s₀ ((s₀.setGateA20 false).setGateA20 true) := by
  obtain ⟨s₀, l, hfill, hfresh, -⟩ := fourPages_ready.fillVm fourPages_hasFree
  refine ⟨s₀, hfill, ?_, ?_⟩
  · exact (a20_runs fourPages _ fourPages_ready 1024 fourPages_hasFree s₀ _ hfill
      [.setGateA20 false] rfl ⟨trivial, fun _ _ => trivial⟩).1
  · exact (a20_runs fourPages _ fourPages_ready 1024 fourPages_hasFree s₀ s₀ hfill [] rfl
      trivial).2 hfresh.enabled [] _ rfl trivial

/-- A word is written to address zero, where nothing is mapped, while the gate is disabled: the
page is not seen at 1M. -/
theorem putPdVal_unmapped_splits : ¬∀ (k : Kernel) (l : List ULong), Ready k l →
    ∀ (virtualMem : ULong), k.mem.pages.HasFree (1 + tablesFor virtualMem) →
    ∀ (s₀ s : VmSys), k.fillVm virtualMem = some s₀ →
    ∀ (ops : List VmOp), run vmStep s₀ ops = some s →
      s.Aliased ∧ (s.vm.a20State = true → ∀ (ops' : List VmOp) (s' : VmSys),
        run vmStep (s.setGateA20 false) ops' = some s' → (∀ op ∈ ops', op ≠ .setGateA20 true) →
          Restored s (s'.setGateA20 true)) := by
  intro hall
  obtain ⟨s₀, l, hfill, hfresh, hothers, hempty⟩ := fourPages_ready.fillVm fourPages_hasFree
  obtain ⟨m, himem, heq, -, -, hhome⟩ := hfresh.frames.maps.setGateA20 false
  have hframes := hfresh.frames.setGateA20 false
  have hoff : (s₀.setGateA20 false).vm.a20State = false := by rw [heq]
  have hmem : (0x903000 : ULong) ∈ (s₀.setGateA20 false).others := by
    rw [heq]
    show _ ∈ s₀.others
    rw [hothers]
    exact Finset.mem_insert_of_mem (Finset.mem_singleton_self _)
  have hne : (0x903000 : ULong) ≠ (s₀.setGateA20 false).emptyPage := by
    rw [heq]
    show _ ≠ s₀.emptyPage
    rw [hempty]
    decide
  have hnp : ¬Present ((s₀.setGateA20 false).entry 0 0) := by
    rw [← home_low (by decide : (0 : ULong) < 16), hhome 0 0 (by decide),
      home_low (by decide : (0 : ULong) < 16)]
    intro hpres
    exact absurd (hfresh.rom 0 0 (by decide) hpres).2.2.2.1 (by decide)
  -- a page is given back, so that there is one to map
  have hfree : vmStep (s₀.setGateA20 false) (.freePage 0x903000) = some _ := if_pos ⟨hmem, hne⟩
  have hstep : ∀ s : VmSys, vmStep s (.putPdVal 2 0 (lowAddr 0)) =
      some (s.putPdVal 2 0 (lowAddr 0)) := by
    intro s
    rw [vmStep, if_pos (by decide)]
  refine (hframes.freePage hmem hne).putPdVal_splits (List.cons_ne_nil _ _) hoff
    (by decide : (0 : ULong) < 16) hnp 2 0 ?_
  exact (hall fourPages _ fourPages_ready 1024 fourPages_hasFree s₀ _ hfill
    [.setGateA20 false, .freePage 0x903000, .putPdVal 2 0 (lowAddr 0)]
    (run_cons_eq_some.mpr ⟨_, rfl, run_cons_eq_some.mpr ⟨_, hfree,
      run_cons_eq_some.mpr ⟨_, hstep _, rfl⟩⟩⟩)).1

end Vmm386.Vmach
