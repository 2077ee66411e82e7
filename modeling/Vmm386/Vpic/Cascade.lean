import Vmm386.Vpic.PicRuns

/-!
# The cascade

With the standard links the slave is at line 2 of the master. `simulate_irq` requests that line
for every IRQ of the slave, also for one that is masked there.
-/

namespace Vmm386.Vpic

open Runs

/-- The controllers are programmed with the standard links. -/
def Standard (p : PicPair) : Prop := p.master.link = 4 ∧ p.slave.link = 2

/-- Where the slave's line is requested, so is a line of the slave. -/
def Cascaded (p : PicPair) : Prop := p.master.irr.getLsbD 2 = true → p.slave.irr ≠ 0

/-- What is raised for the slave's line comes with a request in the slave. -/
def PassesOn (p : PicPair) : PicOp → Prop
  | .simulateIrq irq =>
    (irq = 2 → p.master.mask.getLsbD 2 = true ∨ p.slave.irr ≠ 0) ∧
    (8 ≤ irq → p.master.mask.getLsbD 2 = true ∨
      p.slave.mask.getLsbD (irq - 8).toNat = false ∨ p.slave.irr &&& ~~~p.slave.mask ≠ 0)
  | _ => True

section Cascade

variable {p p' : PicPair} {n junk : ℕ} {irq : UChar}

theorem four_eq_bit : (4 : UChar) = bit 2 := rfl

theorem Standard.pending_low (h : Standard p) (hn : n < 8) :
    p.pending n = (p.master.irr.getLsbD n && !decide (n = 2)) := by
  rw [Kept.pending_low hn, h.1, four_eq_bit, ← decide_not]
  congr 1
  refine decide_eq_decide.mpr (not_congr ⟨fun hc => ?_, fun hc => by rw [hc]⟩)
  exact bit_inj hn (by decide) hc.symm

/-- Only the requests matter. -/
theorem Standard.pending_congr (h : Standard p) (h' : Standard p')
    (hmaster : p'.master.irr = p.master.irr) (hslave : p'.slave.irr = p.slave.irr) :
    p'.pending n = p.pending n := by
  by_cases hn : n < 8
  · rw [h.pending_low hn, h'.pending_low hn, hmaster]
  · rw [Kept.pending_high hn, Kept.pending_high hn, hslave]

theorem Cascaded.raise (hstd : Standard p) (h : Cascaded p) (hirq : irq < 16)
    (hok : PassesOn p (.simulateIrq irq)) : Cascaded (p.raise irq) := by
  have hirq : irq.toNat < 16 := hirq
  obtain ⟨htwo, hhigh⟩ := hok
  unfold PicPair.raise
  by_cases hle : 8 ≤ irq
  · rw [if_pos hle]
    have hn : (irq - 8).toNat < 8 := by
      rw [Kept.toNat_sub_eight hle]
      omega
    have hlink : p.slave.link.toNat = 2 := congrArg BitVec.toNat hstd.2
    intro hreq
    change (p.master.request p.slave.link.toNat).irr.getLsbD 2 = true at hreq
    rw [hlink] at hreq
    have hmask := Pic.request_unmasked (by decide) hreq
    have hhigh := (hhigh hle).resolve_left fun hc => Bool.false_ne_true (hmask.symm.trans hc)
    show (p.slave.request (irq - 8).toNat).irr ≠ 0
    rw [ne_zero_iff]
    rcases hhigh with hun | hold
    · exact ⟨_, by rw [Pic.request_self hn, hun]; rfl⟩
    · obtain ⟨i, hi⟩ := ne_zero_iff.mp hold
      rw [BitVec.getLsbD_and, BitVec.getLsbD_not, Bool.and_eq_true, Bool.and_eq_true] at hi
      exact ⟨i, by rw [Pic.request_irr hn, hi.1, hi.2.2]; rfl⟩
  · rw [if_neg hle]
    have hn : irq.toNat < 8 := Nat.lt_of_not_le hle
    intro hreq
    change (p.master.request irq.toNat).irr.getLsbD 2 = true at hreq
    by_cases heq : irq.toNat = 2
    · have hmask := Pic.request_unmasked hn hreq
      exact (htwo (BitVec.eq_of_toNat_eq heq)).resolve_left fun hc =>
        Bool.false_ne_true (hmask.symm.trans hc)
    · rw [Pic.request_of_ne hn (Ne.symm heq), Bool.and_eq_true] at hreq
      exact h hreq.1

theorem Standard.eq_two (h : Standard p) (hn : n < 8) : p.master.link = bit n ↔ n = 2 := by
  rw [h.1, four_eq_bit]
  exact ⟨fun hc => (bit_inj (by decide) hn hc).symm, fun hc => by rw [hc]⟩

/-- A line of the master goes into service. -/
theorem Cascaded.serve (hstd : Standard p) (h : Cascaded p) (hn : n < 8) (hne : n ≠ 2)
    (hirr : p.master.irr.getLsbD n = true) :
    Cascaded { p with master := p.master.serve n } ∧ p.pending n = true ∧
      ∀ k, PicPair.pending { p with master := p.master.serve n } k = true →
        p.pending k = true ∧ k ≠ n := by
  refine ⟨fun hreq => ?_, ?_, fun k hk => ?_⟩
  · change (p.master.serve n).irr.getLsbD 2 = true at hreq
    rw [Pic.serve_irr hn, Bool.and_eq_true] at hreq
    exact h hreq.1
  · rw [hstd.pending_low hn, hirr, decide_eq_false hne]
    rfl
  · by_cases hk8 : k < 8
    · rw [Standard.pending_low (p := { p with master := p.master.serve n }) hstd hk8] at hk
      change ((p.master.serve n).irr.getLsbD k && _) = true at hk
      rw [Pic.serve_irr hn, Bool.and_eq_true, Bool.and_eq_true, Bool.not_eq_true',
        decide_eq_false_iff_not] at hk
      rw [hstd.pending_low hk8, hk.1.1, hk.2]
      exact ⟨rfl, hk.1.2⟩
    · rw [Kept.pending_high hk8] at hk ⊢
      exact ⟨hk, by omega⟩

/-- A line of the slave goes into service. -/
theorem Cascaded.serve_slave (hstd : Standard p) {k : ℕ} (hk : k < 8)
    (hirr : p.slave.irr.getLsbD k = true) {master : Pic false}
    (hm : master = if (p.slave.serve k).irr ≠ 0 then
      (p.master.serve 2).request p.slave.link.toNat else p.master.serve 2) :
    Cascaded ⟨master, p.slave.serve k⟩ ∧ p.pending (8 + k) = true ∧
      ∀ i, PicPair.pending ⟨master, p.slave.serve k⟩ i = true →
        p.pending i = true ∧ i ≠ 8 + k := by
  have hlink : p.slave.link.toNat = 2 := congrArg BitVec.toNat hstd.2
  rw [hlink] at hm
  have hlow : ∀ i, i ≠ 2 → master.irr.getLsbD i = true → p.master.irr.getLsbD i = true := by
    intro i hi hreq
    rw [hm] at hreq
    split at hreq
    · rw [Pic.request_of_ne (by decide) hi, Bool.and_eq_true, Pic.serve_irr (by decide),
        Bool.and_eq_true] at hreq
      exact hreq.1.1
    · rw [Pic.serve_irr (by decide), Bool.and_eq_true] at hreq
      exact hreq.1
  have hstd' : Standard ⟨master, p.slave.serve k⟩ := by
    refine ⟨?_, hstd.2⟩
    rw [hm, ← hstd.1]
    split <;> rfl
  refine ⟨fun hreq hzero => ?_, ?_, fun i hi => ?_⟩
  · change (p.slave.serve k).irr = 0 at hzero
    change master.irr.getLsbD 2 = true at hreq
    rw [hm, if_neg (not_not.mpr hzero), Pic.serve_irr (by decide)] at hreq
    simp at hreq
  · rw [Kept.pending_high (by omega), Nat.add_sub_cancel_left]
    exact hirr
  · by_cases hi8 : i < 8
    · rw [hstd'.pending_low hi8, Bool.and_eq_true, Bool.not_eq_true',
        decide_eq_false_iff_not] at hi
      rw [hstd.pending_low hi8, hlow i hi.2 hi.1, decide_eq_false hi.2]
      exact ⟨rfl, by omega⟩
    · rw [Kept.pending_high hi8] at hi ⊢
      change (p.slave.serve k).irr.getLsbD (i - 8) = true at hi
      rw [Pic.serve_irr hk, Bool.and_eq_true, Bool.not_eq_true', decide_eq_false_iff_not] at hi
      exact ⟨hi.1, by omega⟩

/-- The hook delivers an IRQ that was requested. -/
theorem Cascaded.deliver (hstd : Standard p) (h : Cascaded p) (hne : p.master.irr ≠ 0) (junk : ℕ) :
    Cascaded (p.deliver junk).2 ∧ p.pending (p.deliver junk).1.1 = true ∧
      ∀ k, (p.deliver junk).2.pending k = true →
        p.pending k = true ∧ k ≠ (p.deliver junk).1.1 := by
  have hlt : bsf junk p.master.irr < 8 := bsf_lt hne
  have hirr : p.master.irr.getLsbD (bsf junk p.master.irr) = true := getLsbD_bsf hne
  unfold PicPair.deliver
  generalize bsf junk p.master.irr = n at *
  by_cases hlink : p.master.link = bit n
  · have hif : (p.master.serve n).link = bit n := hlink
    simp only [if_pos hif]
    obtain rfl := (hstd.eq_two hlt).mp hlink
    have hslave := h hirr
    exact Cascaded.serve_slave hstd (bsf_lt hslave) (getLsbD_bsf hslave) rfl
  · have hif : ¬(p.master.serve n).link = bit n := hlink
    simp only [if_neg hif]
    exact Cascaded.serve hstd h hlt (fun hc => hlink ((hstd.eq_two hlt).mpr hc)) hirr

/-- It does not scan an empty register. -/
theorem Cascaded.deliver_congr (hstd : Standard p) (h : Cascaded p) (hne : p.master.irr ≠ 0)
    (junk junk' : ℕ) : p.deliver junk' = p.deliver junk := by
  have hlt : bsf junk p.master.irr < 8 := bsf_lt hne
  have hirr : p.master.irr.getLsbD (bsf junk p.master.irr) = true := getLsbD_bsf hne
  unfold PicPair.deliver
  simp only [bsf_congr hne junk junk']
  split
  · rename_i hlink
    have htwo := (hstd.eq_two hlt).mp hlink
    rw [htwo] at hirr
    simp only [bsf_congr (h hirr) junk junk']
  · rfl

end Cascade

/-- The slave's line is requested only with a line of the slave, and what has been delivered had
been accepted. -/
def NoneMadeUp (s : PicSys) : Prop := Standard s.vm.pair → Cascaded s.vm.pair ∧
  ∀ n, s.deliveries n + (s.vm.pair.pending n).toNat ≤ s.accepted n

/-- A step of controllers with the standard links. -/
def StandardStep (s : PicSys) (op : PicOp) : Prop :=
  Standard s.vm.pair ∧ PassesOn s.vm.pair op

theorem picStep_noneMadeUp : Preserves picStep StandardStep NoneMadeUp := by
  rintro s op s' h ⟨hstd, hok⟩ hstep hstd'
  obtain ⟨hcasc, hcount⟩ := h hstd
  obtain ⟨v, hnext, rfl⟩ := Option.map_eq_some_iff.mp hstep
  change Standard v.pair at hstd'
  have hsame (hirr : v.pair.master.irr = s.vm.pair.master.irr ∧
      v.pair.slave.irr = s.vm.pair.slave.irr) : Cascaded v.pair ∧
      ∀ n, s.deliveries n + (v.pair.pending n).toNat ≤ s.accepted n := by
    refine ⟨?_, fun n => ?_⟩
    · rw [Cascaded, hirr.1, hirr.2]
      exact hcasc
    · rw [hstd.pending_congr hstd' hirr.1 hirr.2]
      exact hcount n
  have hflags (hflags : Vm.OnFlags op) := hsame (by
    rw [Vm.next_pair hflags hnext]
    exact ⟨rfl, rfl⟩)
  cases op with
  | simulateIrq irq =>
    simp only [Vm.next] at hnext
    split at hnext
    · rename_i hirq
      cases hnext
      refine ⟨?_, fun n => ?_⟩
      · show Cascaded (s.vm.simulateIrq irq).pair
        rw [Vm.simulateIrq_pair]
        exact Cascaded.raise hstd hcasc hirq hok
      · show s.deliveries n + _ ≤ s.accepted n + _
        have hle := hcount n
        generalize (s.vm.simulateIrq irq).pair.pending n = after at *
        generalize s.vm.pair.pending n = before at *
        cases after with
        | false => exact le_trans (Nat.le_add_right _ _) (hle.trans (Nat.le_add_right _ _))
        | true =>
          cases before with
          | false => exact Nat.add_le_add_right hle 1
          | true => exact hle
    · cases hnext
  | vpicReturnHook vm86 junk =>
    simp only [Vm.next] at hnext
    split at hnext
    · cases hnext
      rcases s.vm.vpicReturnHook_cases vm86 junk with ⟨hnone, hpair⟩ | ⟨-, hirr, hsome, hpair⟩
      · refine ⟨hpair ▸ hcasc, fun n => ?_⟩
        show (List.map Prod.fst (s.delivered ++ _)).count n + _ ≤ _
        rw [hnone, hpair, Option.toList_none, List.append_nil]
        exact hcount n
      · obtain ⟨hcasc', hdeliv, hpending⟩ := Cascaded.deliver hstd hcasc hirr junk
        refine ⟨hpair ▸ hcasc', fun n => ?_⟩
        have happend := PicSys.deliveries_append (s.vm.vpicReturnHook vm86 junk).2 s.accepted
          s.delivered (s.vm.pair.deliver junk).1 n
        simp only [hsome, Option.toList_some]
        rw [happend, hpair]
        have hle := hcount n
        rw [PicSys.deliveries] at hle
        cases hafter : (s.vm.pair.deliver junk).2.pending n with
        | true =>
          obtain ⟨hbefore, hne⟩ := hpending n hafter
          rw [if_neg hne.symm]
          rw [hbefore] at hle
          exact hle
        | false =>
          by_cases hn : (s.vm.pair.deliver junk).1.1 = n
          · subst hn
            rw [if_pos rfl]
            rw [hdeliv] at hle
            exact hle
          · rw [if_neg hn]
            exact le_trans (Nat.le_add_right _ _) hle
    · cases hnext
  | vpicOut port size val =>
    cases hnext
    exact hsame Vm.vpicOut_irr
  | vpicIn port size =>
    cases hnext
    obtain ⟨hirr, -, -, hirr', -⟩ := s.vm.vpicIn_pair port size
    exact hsame ⟨hirr, hirr'⟩
  | setMask set mask =>
    cases hnext
    unfold PicPair.setMask at hsame ⊢
    cases set <;> exact hsame ⟨rfl, rfl⟩
  | ifEnabled | ifDisabled | cli | sti | loadFlags | int | hlt =>
    exact hflags trivial

/-- **The cascade.** From any state with the standard links in which the slave's line is not
requested by itself, as long as what is raised for that line comes with a request in the slave,
it is requested only with a line of the slave: `vpic_return_hook` does not depend on what BSF
leaves in its destination, and delivers no IRQ more often than it was raised. -/
theorem cascade_runs (v : Vm) (hcasc : Cascaded v.pair) (ops : List PicOp) (s : PicSys)
    (hrun : run picStep (PicSys.start v) ops = some s)
    (hok : Along picStep StandardStep (PicSys.start v) ops) (hs : Standard s.vm.pair) :
    Cascaded s.vm.pair ∧ (∀ n, s.deliveries n + (s.vm.pair.pending n).toNat ≤ s.accepted n) ∧
      ∀ vm86 junk junk', s.vm.vpicReturnHook vm86 junk' = s.vm.vpicReturnHook vm86 junk := by
  have hstart : NoneMadeUp (PicSys.start v) := fun _ => ⟨hcasc, fun _ => (Nat.zero_add _).le⟩
  obtain ⟨hcasc', hcount⟩ := picStep_noneMadeUp.run hstart hok hrun hs
  refine ⟨hcasc', hcount, fun vm86 junk junk' => ?_⟩
  unfold Vm.vpicReturnHook
  by_cases hc : vm86 ∧ s.vm.IfSet ∧ s.vm.pair.master.isr = 0 ∧ s.vm.pair.master.irr ≠ 0
  · rw [if_pos hc, if_pos hc, Cascaded.deliver_congr hs hcasc' hc.2.2.2 junk junk']
  · rw [if_neg hc, if_neg hc]

/-- What a guest writes to program the controllers with the standard links. -/
def standardLinks : List PicOp :=
  [.vpicOut 0x20 1 0x11, .vpicOut 0x21 1 0x08, .vpicOut 0x21 1 4, .vpicOut 0x21 1 1,
    .vpicOut 0xa0 1 0x11, .vpicOut 0xa1 1 0x70, .vpicOut 0xa1 1 2, .vpicOut 0xa1 1 1]

/-- IRQ 8 is raised, with its line and the slave's unmasked. -/
theorem cascade_runs_slave : ∃ v s, run Vm.next createVpic standardLinks = some v ∧
    run picStep (PicSys.start v) [.setMask false 0x104, .simulateIrq 8] = some s ∧
    Cascaded s.vm.pair ∧ s.vm.pair.pending 8 = true := by
  obtain ⟨v, hv⟩ : ∃ v, run Vm.next createVpic standardLinks = some v := ⟨_, rfl⟩
  refine ⟨v, _, hv, rfl, ?_, ?_⟩
  · cases hv
    refine (cascade_runs _ (fun hc => absurd hc (by decide)) [.setMask false 0x104, .simulateIrq 8]
      _ rfl ⟨⟨⟨rfl, rfl⟩, trivial⟩, fun s₁ h₁ => ?_⟩ ⟨rfl, rfl⟩).1
    cases h₁
    exact ⟨⟨⟨rfl, rfl⟩, nofun, fun _ => .inr (.inl (by decide))⟩, fun _ _ => trivial⟩
  · cases hv
    decide

/-- IRQ 8 is raised while it is masked: the slave's line is requested, and no line of the
slave. -/
theorem masked_irq_passed_on : ¬∀ (v : Vm), run Vm.next createVpic standardLinks = some v →
    ∀ (ops : List PicOp) (s : PicSys), run picStep (PicSys.start v) ops = some s →
      Along picStep (fun s _ => Standard s.vm.pair) (PicSys.start v) ops → Standard s.vm.pair →
        Cascaded s.vm.pair := by
  intro hall
  refine hall _ rfl [.setMask false 4, .simulateIrq 8] _ rfl
    ⟨⟨rfl, rfl⟩, fun s₁ h₁ => ?_⟩ ⟨rfl, rfl⟩ (by decide) rfl
  cases h₁
  exact ⟨⟨rfl, rfl⟩, fun _ _ => trivial⟩

end Vmm386.Vpic
