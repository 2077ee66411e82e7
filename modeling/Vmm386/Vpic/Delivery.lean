import Vmm386.Vpic.PicRuns

/-!
# No interrupt is forgotten

`simulate_irq` drops every request of a controller whose line is masked when it raises
another, and what it passes on for the slave does not depend on whether the slave has a
request.
-/

namespace Vmm386.Vpic

open Runs

/-- Every IRQ that was accepted has been delivered once or is requested; and when it can be
delivered, the hook is installed and does so. -/
def PicSys.DeliveredOnce (s : PicSys) : Prop :=
  (∀ n, s.accepted n = s.deliveries n + (s.vm.pair.pending n).toNat) ∧
  ∀ n, s.vm.pair.pending n = true → s.vm.pair.master.irr ≠ 0 ∧
    (s.vm.IfSet → s.vm.pair.master.isr = 0 → s.vm.returnHook = true ∧
      ∀ junk, ∃ d, (s.vm.vpicReturnHook true junk).1 = some d ∧ s.vm.pair.pending d.1 = true)

theorem Recorded.deliveredOnce {s : PicSys} (h : Recorded s) (hhook : s.vm.Hooked) :
    s.DeliveredOnce := by
  refine ⟨h.count, fun n hn => ?_⟩
  have hirr := h.kept.irr_ne_zero hn
  refine ⟨hirr, fun hif hisr => ⟨hhook hif hirr, fun junk => ?_⟩⟩
  exact ⟨_, (s.vm.vpicReturnHook_of_ready junk hif hisr hirr).1, (h.kept.deliver hirr junk).2.1⟩

/-- **Pending interrupts.** In every run the hook is installed when there is a request and the
interrupt flag is set, and nothing is delivered while an IRQ is in service; and as long as
every step keeps the requests, every IRQ that was accepted is delivered once. -/
theorem irqs_not_forgotten (ops : List PicOp) (s : PicSys)
    (hrun : run picStep (PicSys.start createVpic) ops = some s) :
    s.vm.Hooked ∧
    (∀ vm86 junk, (s.vm.vpicReturnHook vm86 junk).1 ≠ none → s.vm.pair.master.isr = 0) ∧
    (Along picStep KeepsRequests (PicSys.start createVpic) ops → s.DeliveredOnce) := by
  have hhook : s.vm.Hooked := picStep_hooked.run (Vm.hooked_of_clear (by decide))
    (along_true _ _) hrun
  refine ⟨hhook, fun vm86 junk hsome => ?_, fun hkeeps => ?_⟩
  · rcases s.vm.vpicReturnHook_cases vm86 junk with ⟨hnone, -⟩ | ⟨hisr, -⟩
    · exact absurd hnone hsome
    · exact hisr
  · exact (picStep_recorded.run (start_recorded createVpic_kept) hkeeps hrun).deliveredOnce hhook

/-- IRQ 3 is unmasked, raised, and delivered after STI. -/
theorem irqs_not_forgotten_delivery : ∃ s, run picStep (PicSys.start createVpic)
    [.setMask false 0x08, .simulateIrq 3, .sti false, .vpicReturnHook true 0] = some s ∧
      s.vm.Hooked ∧ s.DeliveredOnce ∧ s.deliveries 3 = 1 := by
  have hkeeps : Along picStep KeepsRequests (PicSys.start createVpic)
      [.setMask false 0x08, .simulateIrq 3, .sti false, .vpicReturnHook true 0] := by
    refine ⟨nofun, fun s₁ h₁ => ⟨?_, fun _ _ => ⟨trivial, fun _ _ => ⟨trivial, fun _ _ => trivial⟩⟩⟩⟩
    cases h₁
    exact .inl (by decide)
  obtain ⟨hhook, -, honce⟩ := irqs_not_forgotten
    [.setMask false 0x08, .simulateIrq 3, .sti false, .vpicReturnHook true 0] _ rfl
  exact ⟨_, rfl, hhook, honce hkeeps, rfl⟩

/-- IRQ 3 is raised, then masked, and then IRQ 4 is raised: IRQ 3 is gone. -/
theorem masked_request_lost : ¬∀ (ops : List PicOp) (s : PicSys),
    run picStep (PicSys.start createVpic) ops = some s →
      s.vm.Hooked ∧
      (∀ vm86 junk, (s.vm.vpicReturnHook vm86 junk).1 ≠ none → s.vm.pair.master.isr = 0) ∧
      s.DeliveredOnce := by
  intro hall
  obtain ⟨-, -, hcount, -⟩ := hall
    [.setMask false 0x18, .simulateIrq 3, .setMask true 0x08, .simulateIrq 4] _ rfl
  exact absurd (hcount 3) (by decide)

end Vmm386.Vpic
