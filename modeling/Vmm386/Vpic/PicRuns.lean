import Vmm386.Vpic.PicTheorems

/-!
# Interrupts over whole runs

The return hook is installed whenever it has something to deliver. As long as a step keeps the
requests, every IRQ that was accepted is delivered once.
-/

namespace Vmm386.Vpic

open Runs
open Vmach (FLAGS_IF FLAGS_TF set16)

/-! ## The return hook -/

/-- The hook is installed when a request can be delivered. -/
def Vm.Hooked (v : Vm) : Prop := v.IfSet → v.pair.master.irr ≠ 0 → v.returnHook = true

namespace Vm

variable {v v' : Vm} {irq : UChar} {op : PicOp}

@[simp] theorem installReturnHook_pair : v.installReturnHook.pair = v.pair := by
  unfold installReturnHook
  split <;> rfl

@[simp] theorem installReturnHook_flags :
    v.installReturnHook.virtualEflags = v.virtualEflags := by
  unfold installReturnHook
  split <;> rfl

theorem hooked_installReturnHook : v.installReturnHook.Hooked := by
  intro hif hirr
  rw [IfSet, installReturnHook_flags] at hif
  rw [installReturnHook_pair] at hirr
  unfold installReturnHook
  rw [if_pos ⟨hif, hirr⟩]

theorem hooked_of_clear (h : ¬v.IfSet) : v.Hooked := fun hc => absurd hc h

theorem clear_flags (x mask : ULong) (h : FLAGS_IF &&& ~~~mask = 0) :
    ¬(x &&& ~~~mask) &&& FLAGS_IF ≠ 0 := by
  rw [not_not, BitVec.and_assoc, BitVec.and_comm (~~~mask), h]
  exact BitVec.and_zero

@[simp] theorem simulateIrq_pair : (v.simulateIrq irq).pair = v.pair.raise irq := by
  unfold simulateIrq
  dsimp only
  split_ifs <;> rfl

theorem hooked_simulateIrq : (v.simulateIrq irq).Hooked := by
  unfold simulateIrq
  dsimp only
  split_ifs with hif hlt
  · exact fun _ _ => rfl
  · exact fun _ _ => rfl
  · exact hooked_of_clear hif

theorem hooked_vpicOut {port : UShort} {size : ℕ} {val : ULong} (h : v.Hooked) :
    (v.vpicOut port size val).Hooked := by
  unfold vpicOut
  dsimp only
  split_ifs
  · exact hooked_installReturnHook
  · intro hif hirr
    exact h hif ((Pic.outCommand_same _).1 ▸ hirr)
  · exact hooked_installReturnHook
  · exact h
  · intro hif hirr
    exact h hif (Pic.outData_irr ▸ hirr)
  · exact h
  · exact h
  · exact h

theorem hooked_vpicReturnHook {vm86 : Bool} {junk : ℕ} (h : v.returnHook = true) :
    (v.vpicReturnHook vm86 junk).2.Hooked := by
  unfold vpicReturnHook
  dsimp only
  split_ifs with hc hirr hirr
  · exact fun _ hne => absurd hirr hne
  · exact fun _ _ => h
  · exact fun _ hne => absurd hirr hne
  · exact fun _ _ => h

/-- Every operation leaves the hook installed when a request can be delivered. -/
theorem next_hooked (h : v.Hooked) (hstep : v.next op = some v') : v'.Hooked := by
  cases op with
  | simulateIrq irq =>
    simp only [next] at hstep
    split at hstep
    · cases hstep
      exact hooked_simulateIrq
    · cases hstep
  | vpicOut port size val =>
    cases hstep
    exact hooked_vpicOut h
  | vpicIn port size =>
    cases hstep
    unfold vpicIn
    dsimp only
    split_ifs <;> exact h
  | setMask set mask =>
    cases hstep
    unfold PicPair.setMask
    cases set <;> exact h
  | ifEnabled =>
    cases hstep
    exact hooked_installReturnHook
  | ifDisabled =>
    simp only [next] at hstep
    split at hstep
    · cases hstep
    · rename_i hif
      cases hstep
      exact hooked_of_clear hif
  | vpicReturnHook vm86 junk =>
    simp only [next] at hstep
    split at hstep
    · rename_i hhook
      cases hstep
      exact hooked_vpicReturnHook hhook
    · cases hstep
  | cli =>
    cases hstep
    exact hooked_of_clear (clear_flags _ _ (by decide))
  | sti thenHlt =>
    cases hstep
    exact hooked_installReturnHook
  | loadFlags wide val =>
    cases hstep
    unfold loadFlags
    generalize (if wide then val else set16 v.virtualEflags val) = x
    dsimp only
    split_ifs with hif
    · exact hooked_installReturnHook
    · exact hooked_of_clear hif
  | int =>
    cases hstep
    exact hooked_of_clear (clear_flags _ _ (by decide))
  | hlt =>
    cases hstep
    exact h

/-- What the hook does, if anything. -/
theorem vpicReturnHook_cases (v : Vm) (vm86 : Bool) (junk : ℕ) :
    ((v.vpicReturnHook vm86 junk).1 = none ∧ (v.vpicReturnHook vm86 junk).2.pair = v.pair) ∨
      (v.pair.master.isr = 0 ∧ v.pair.master.irr ≠ 0 ∧
        (v.vpicReturnHook vm86 junk).1 = some (v.pair.deliver junk).1 ∧
        (v.vpicReturnHook vm86 junk).2.pair = (v.pair.deliver junk).2) := by
  unfold vpicReturnHook
  dsimp only
  split_ifs with hc hirr hirr
  · exact .inr ⟨hc.2.2.1, hc.2.2.2, rfl, rfl⟩
  · exact .inr ⟨hc.2.2.1, hc.2.2.2, rfl, rfl⟩
  · exact .inl ⟨rfl, rfl⟩
  · exact .inl ⟨rfl, rfl⟩

theorem vpicReturnHook_of_ready (v : Vm) (junk : ℕ) (hif : v.IfSet) (hisr : v.pair.master.isr = 0)
    (hirr : v.pair.master.irr ≠ 0) :
    (v.vpicReturnHook true junk).1 = some (v.pair.deliver junk).1 ∧
      (v.vpicReturnHook true junk).2.pair = (v.pair.deliver junk).2 := by
  unfold vpicReturnHook
  dsimp only
  rw [if_pos ⟨rfl, hif, hisr, hirr⟩]
  split_ifs <;> exact ⟨rfl, rfl⟩

/-- The operations that do not concern the controllers. -/
def OnFlags : PicOp → Prop
  | .simulateIrq _ | .vpicOut .. | .vpicIn .. | .setMask .. | .vpicReturnHook .. => False
  | _ => True

theorem next_pair (hflags : OnFlags op) (hstep : v.next op = some v') : v'.pair = v.pair := by
  cases op with
  | simulateIrq | vpicOut | vpicIn | setMask | vpicReturnHook => exact hflags.elim
  | ifEnabled =>
    cases hstep
    exact installReturnHook_pair
  | ifDisabled =>
    simp only [next] at hstep
    split at hstep
    · cases hstep
    · cases hstep
      rfl
  | cli =>
    cases hstep
    rfl
  | sti thenHlt =>
    cases hstep
    unfold sti
    rw [installReturnHook_pair]
    split <;> rfl
  | loadFlags wide val =>
    cases hstep
    unfold loadFlags
    generalize (if wide then val else set16 v.virtualEflags val) = x
    dsimp only
    split_ifs
    · exact installReturnHook_pair
    · rfl
  | int =>
    cases hstep
    rfl
  | hlt =>
    cases hstep
    rfl

theorem vpicIn_pair (port : UShort) (size : ℕ) :
    (v.vpicIn port size).2.pair.master.irr = v.pair.master.irr ∧
    (v.vpicIn port size).2.pair.master.mask = v.pair.master.mask ∧
    (v.vpicIn port size).2.pair.master.link = v.pair.master.link ∧
    (v.vpicIn port size).2.pair.slave.irr = v.pair.slave.irr ∧
    (v.vpicIn port size).2.pair.slave.mask = v.pair.slave.mask ∧
    (v.vpicIn port size).2.pair.slave.link = v.pair.slave.link := by
  unfold vpicIn
  dsimp only
  split_ifs <;> exact ⟨rfl, rfl, rfl, rfl, rfl, rfl⟩

theorem vpicOut_irr {port : UShort} {size : ℕ} {val : ULong} :
    (v.vpicOut port size val).pair.master.irr = v.pair.master.irr ∧
    (v.vpicOut port size val).pair.slave.irr = v.pair.slave.irr := by
  unfold vpicOut
  dsimp only
  split_ifs
  · rw [installReturnHook_pair]
    exact ⟨(Pic.outCommand_same _).1, rfl⟩
  · exact ⟨(Pic.outCommand_same _).1, rfl⟩
  · rw [installReturnHook_pair]
    exact ⟨rfl, (Pic.outCommand_same _).1⟩
  · exact ⟨rfl, (Pic.outCommand_same _).1⟩
  · exact ⟨Pic.outData_irr, rfl⟩
  · exact ⟨rfl, Pic.outData_irr⟩
  · exact ⟨rfl, rfl⟩
  · exact ⟨rfl, rfl⟩

/-- A write to 0x20 or 0xA0. -/
theorem vpicOut_command {port : UShort} {size : ℕ} (val : ULong)
    (h : ¬(size = 1 ∧ (port = 0x21 ∨ port = 0xa1))) :
    (v.vpicOut port size val).pair.master.irr = v.pair.master.irr ∧
    (v.vpicOut port size val).pair.master.mask = v.pair.master.mask ∧
    (v.vpicOut port size val).pair.master.link = v.pair.master.link ∧
    (v.vpicOut port size val).pair.slave.irr = v.pair.slave.irr ∧
    (v.vpicOut port size val).pair.slave.mask = v.pair.slave.mask ∧
    (v.vpicOut port size val).pair.slave.link = v.pair.slave.link := by
  have hmaster := v.pair.master.outCommand_same val
  have hslave := v.pair.slave.outCommand_same val
  unfold vpicOut
  dsimp only
  split_ifs with hsize h20 hr ha0 hr h21 ha1
  · rw [installReturnHook_pair]
    exact ⟨hmaster.1, hmaster.2.1, hmaster.2.2, rfl, rfl, rfl⟩
  · exact ⟨hmaster.1, hmaster.2.1, hmaster.2.2, rfl, rfl, rfl⟩
  · rw [installReturnHook_pair]
    exact ⟨rfl, rfl, rfl, hslave⟩
  · exact ⟨rfl, rfl, rfl, hslave⟩
  · exact absurd ⟨hsize, .inl h21⟩ h
  · exact absurd ⟨hsize, .inr ha1⟩ h
  · exact ⟨rfl, rfl, rfl, rfl, rfl, rfl⟩
  · exact ⟨rfl, rfl, rfl, rfl, rfl, rfl⟩

end Vm

/-! ## What is accepted is delivered -/

section Kept

variable {v v' : Vm} {op : PicOp}

theorem Kept.vpicOut {port : UShort} {size : ℕ} {val : ULong} (h : Kept v.pair)
    (hok : Keeps v.pair (.vpicOut port size val)) :
    Kept (v.vpicOut port size val).pair ∧
      ∀ n, (v.vpicOut port size val).pair.pending n = v.pair.pending n := by
  by_cases hport : size = 1 ∧ (port = 0x21 ∨ port = 0xa1)
  · obtain ⟨rfl, rfl | rfl⟩ := hport
    · obtain ⟨hlink, hmask⟩ := Kept.outData h.master ((hok rfl).1 rfl)
      exact h.congr Pic.outData_irr rfl h.link (hlink.imp_left fun hl => ⟨hl, rfl⟩) hmask h.slave
    · obtain ⟨hlink, hmask⟩ := Kept.outData h.slave ((hok rfl).2 rfl)
      exact h.congr rfl Pic.outData_irr (Pic.outData_link _ h.link)
        (hlink.imp_left fun hl => ⟨rfl, hl⟩) h.master hmask
  · obtain ⟨hirr, hm, hl, hirr', hm', hl'⟩ := Vm.vpicOut_command (v := v) val hport
    exact h.congr hirr hirr' (hl' ▸ h.link) (.inl ⟨hl, hl'⟩) (hm ▸ h.master) (hm' ▸ h.slave)

theorem Kept.setMask {set : Bool} {mask : UShort} (h : Kept v.pair)
    (hok : Keeps v.pair (.setMask set mask)) :
    Kept (v.pair.setMask set mask) ∧
      ∀ n, (v.pair.setMask set mask).pending n = v.pair.pending n := by
  unfold PicPair.setMask
  cases set with
  | true =>
    obtain ⟨hlow, hhigh⟩ := hok rfl
    refine h.congr rfl rfl h.link (.inl ⟨rfl, rfl⟩) (fun i hi => ?_) fun i hi => ?_
    · exact BitVec.getLsbD_or.trans (by rw [h.master i hi, hlow i hi]; rfl)
    · exact BitVec.getLsbD_or.trans (by rw [h.slave i hi, hhigh i hi]; rfl)
  | false =>
    refine h.congr rfl rfl h.link (.inl ⟨rfl, rfl⟩) (fun i hi => ?_) fun i hi => ?_
    · exact BitVec.getLsbD_and.trans (by rw [h.master i hi]; rfl)
    · exact BitVec.getLsbD_and.trans (by rw [h.slave i hi]; rfl)

/-- The requests are those there were, but for what `simulate_irq` adds and the hook takes. -/
theorem Kept.next (h : Kept v.pair) (hok : Keeps v.pair op) (hstep : v.next op = some v')
    (hraise : ∀ irq, op ≠ .simulateIrq irq) (hhook : ∀ vm86 junk, op ≠ .vpicReturnHook vm86 junk) :
    Kept v'.pair ∧ ∀ n, v'.pair.pending n = v.pair.pending n := by
  have hsame (hflags : Vm.OnFlags op) :
      Kept v'.pair ∧ ∀ n, v'.pair.pending n = v.pair.pending n := by
    rw [Vm.next_pair hflags hstep]
    exact ⟨h, fun _ => rfl⟩
  cases op with
  | simulateIrq irq => exact absurd rfl (hraise irq)
  | vpicReturnHook vm86 junk => exact absurd rfl (hhook vm86 junk)
  | vpicOut port size val =>
    cases hstep
    exact h.vpicOut hok
  | vpicIn port size =>
    cases hstep
    obtain ⟨hirr, hm, hl, hirr', hm', hl'⟩ := v.vpicIn_pair port size
    exact h.congr hirr hirr' (hl' ▸ h.link) (.inl ⟨hl, hl'⟩) (hm ▸ h.master) (hm' ▸ h.slave)
  | setMask set mask =>
    cases hstep
    exact h.setMask hok
  | ifEnabled | ifDisabled | cli | sti | loadFlags | int | hlt => exact hsame trivial

end Kept

/-- Every IRQ that was accepted has been delivered once, or is still requested. -/
structure Recorded (s : PicSys) : Prop where
  kept : Kept s.vm.pair
  count : ∀ n, s.accepted n = s.deliveries n + (s.vm.pair.pending n).toNat

/-- What a step must not do to the requests. -/
def KeepsRequests (s : PicSys) (op : PicOp) : Prop := Keeps s.vm.pair op

theorem PicSys.deliveries_append (v : Vm) (a : ℕ → ℕ) (l : List (ℕ × ℕ)) (d : ℕ × ℕ) (n : ℕ) :
    PicSys.deliveries ⟨v, a, l ++ [d]⟩ n =
      ((l.map Prod.fst).count n) + if d.1 = n then 1 else 0 := by
  rw [PicSys.deliveries, List.map_append, List.count_append, List.map_singleton,
    List.count_singleton]
  congr 1
  by_cases h : d.1 = n
  · rw [if_pos h, if_pos (beq_iff_eq.mpr h)]
  · rw [if_neg h, if_neg (by rwa [beq_iff_eq])]

theorem picStep_recorded : Preserves picStep KeepsRequests Recorded := by
  rintro s op s' ⟨hkept, hcount⟩ hok hstep
  obtain ⟨v, hnext, rfl⟩ := Option.map_eq_some_iff.mp hstep
  have hsame (hraise : ∀ irq, op ≠ .simulateIrq irq)
      (hhook : ∀ vm86 junk, op ≠ .vpicReturnHook vm86 junk) :
      Recorded ⟨v, s.accepted, s.delivered⟩ := by
    obtain ⟨hkept', hpending⟩ := hkept.next hok hnext hraise hhook
    exact ⟨hkept', fun n => (hcount n).trans (by rw [← hpending n]; rfl)⟩
  cases op with
  | simulateIrq irq =>
    simp only [Vm.next] at hnext
    split at hnext
    · rename_i hirq
      cases hnext
      obtain ⟨hkept', hpending⟩ := hkept.raise hirq hok
      rw [← Vm.simulateIrq_pair] at hkept' hpending
      refine ⟨hkept', fun n => ?_⟩
      show s.accepted n + _ = s.deliveries n + _
      rw [hcount n, Nat.add_assoc]
      congr 1
      cases hold : s.vm.pair.pending n with
      | false => simp
      | true =>
        rw [hpending n hold]
        rfl
    · cases hnext
  | vpicReturnHook vm86 junk =>
    simp only [Vm.next] at hnext
    split at hnext
    · cases hnext
      rcases s.vm.vpicReturnHook_cases vm86 junk with ⟨hnone, hpair⟩ | ⟨-, hirr, hsome, hpair⟩
      · refine ⟨hpair ▸ hkept, fun n => ?_⟩
        show s.accepted n = (List.map Prod.fst (s.delivered ++ _)).count n + _
        rw [hnone, hpair, hcount n]
        show _ = (List.map Prod.fst (s.delivered ++ [])).count n + _
        rw [List.append_nil]
        rfl
      · obtain ⟨hkept', hdeliv, hpending⟩ := hkept.deliver hirr junk
        refine ⟨hpair ▸ hkept', fun n => ?_⟩
        have happend := PicSys.deliveries_append (s.vm.vpicReturnHook vm86 junk).2 s.accepted
          s.delivered (s.vm.pair.deliver junk).1 n
        simp only [hsome, Option.toList_some]
        rw [happend, hpair, hpending n, hcount n, PicSys.deliveries]
        by_cases hn : (s.vm.pair.deliver junk).1.1 = n
        · subst hn
          rw [hdeliv, if_pos rfl, decide_eq_true rfl]
          rfl
        · rw [if_neg hn, decide_eq_false (Ne.symm hn), Bool.not_false, Bool.and_true, Nat.add_zero]
    · cases hnext
  | vpicOut | vpicIn | setMask | ifEnabled | ifDisabled | cli | sti | loadFlags | int | hlt =>
    exact hsame nofun nofun

theorem picStep_hooked : Preserves picStep (fun _ _ => True) fun s => s.vm.Hooked := by
  intro s op s' h _ hstep
  obtain ⟨v, hnext, rfl⟩ := Option.map_eq_some_iff.mp hstep
  exact Vm.next_hooked h hnext

theorem start_recorded {v : Vm} (h : Kept v.pair) : Recorded (PicSys.start v) :=
  ⟨h, fun _ => (Nat.zero_add _).symm⟩

theorem createVpic_kept : Kept createVpic.pair := by
  have hnone : ∀ i, (0 : UChar).getLsbD i ≠ true := fun i hi =>
    Bool.false_ne_true ((eq_zero_iff.mp rfl i).symm.trans hi)
  refine ⟨by decide, fun i hi => absurd hi (hnone i), fun i hi => absurd hi (hnone i), ?_,
    fun hc => absurd rfl hc⟩
  exact fun k _ _ => iff_of_false (hnone k) (not_not.mpr rfl)

end Vmm386.Vpic
