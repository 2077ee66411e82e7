import Mathlib.Data.Finset.Basic
import Mathlib.Data.Finset.Card
import Vmm386.Vpic.Cascade

/-!
# Vectors

A guest programs the base of its vectors with ICW2, of which `vpic_out` keeps the low three
bits; the controller they stand for keeps the high five.
-/

namespace Vmm386.Vpic

open Runs
open Vmach (FLAGS_IF)

/-! ## Programming the controllers -/

/-- A write of one byte to a controller. -/
structure PicWrite where
  slave : Bool
  data : Bool
  val : ULong

namespace PicWrite

def port (w : PicWrite) : UShort :=
  if w.slave then if w.data then 0xa1 else 0xa0 else if w.data then 0x21 else 0x20

def op (w : PicWrite) : PicOp := .vpicOut w.port 1 w.val

/-- What the controller does. -/
def out {isSlave : Bool} (p : Pic isSlave) (w : PicWrite) : Pic isSlave :=
  if w.data then p.outData w.val else (p.outCommand w.val).2

/-- A complete sequence for one of the controllers, with ICW4. -/
def icws (slave : Bool) (icw1 icw2 icw3 icw4 : ULong) : List PicWrite :=
  [⟨slave, false, icw1⟩, ⟨slave, true, icw2⟩, ⟨slave, true, icw3⟩, ⟨slave, true, icw4⟩]

end PicWrite

/-- A machine's guest has written, to each of the two controllers and in any order between
them, a complete sequence with the given bases and the standard links. -/
structure Programs (v v' : Vm) (ws : List PicWrite) (base base' : UChar) : Prop where
  reachable : ∃ ops, run Vm.next createVpic ops = some v
  normal : v.pair.master.state = .normal ∧ v.pair.slave.state = .normal
  master : ∃ icw1 icw4, icw1 &&& 0x11 = 0x11 ∧
    ws.filter (!·.slave) = PicWrite.icws false icw1 (base.setWidth 32) 4 icw4
  slave : ∃ icw1 icw4, icw1 &&& 0x11 = 0x11 ∧
    ws.filter (·.slave) = PicWrite.icws true icw1 (base'.setWidth 32) 2 icw4
  run : run Vm.next v (ws.map PicWrite.op) = some v'

section Programming

variable {v v' : Vm} {ws : List PicWrite} {isSlave : Bool} {p : Pic isSlave} {base : UChar}
  {icw1 icw4 : ULong}

theorem vpicOut_write (v : Vm) (w : PicWrite) :
    (v.vpicOut w.port 1 w.val).pair =
      if w.slave then { v.pair with slave := PicWrite.out v.pair.slave w }
      else { v.pair with master := PicWrite.out v.pair.master w } := by
  obtain ⟨slave, data, val⟩ := w
  unfold Vm.vpicOut PicWrite.port PicWrite.out
  cases slave <;> cases data <;> simp <;> split <;> simp

/-- Each controller sees the writes to it. -/
theorem run_writes (h : Runs.run Vm.next v (ws.map PicWrite.op) = some v') :
    v'.pair.master = (ws.filter (!·.slave)).foldl PicWrite.out v.pair.master ∧
      v'.pair.slave = (ws.filter (·.slave)).foldl PicWrite.out v.pair.slave := by
  induction ws generalizing v with
  | nil =>
    cases h
    exact ⟨rfl, rfl⟩
  | cons w ws ih =>
    obtain ⟨v₁, hstep, hrest⟩ := run_cons_eq_some.mp h
    cases hstep
    obtain ⟨hmaster, hslave⟩ := ih hrest
    rw [vpicOut_write] at hmaster hslave
    cases hw : w.slave with
    | true =>
      rw [hw] at hmaster hslave
      rw [List.filter_cons_of_neg (by rw [hw]; decide), List.filter_cons_of_pos hw]
      exact ⟨hmaster, hslave⟩
    | false =>
      rw [hw] at hmaster hslave
      rw [List.filter_cons_of_pos (by rw [hw]; rfl), List.filter_cons_of_neg (by rw [hw]; decide)]
      exact ⟨hmaster, hslave⟩

/-- What the four writes make of a controller. -/
theorem foldl_icws (hp : p.state = .normal) (hicw : icw1 &&& 0x11 = 0x11) (link : ULong) :
    (PicWrite.icws isSlave icw1 (base.setWidth 32) link icw4).foldl PicWrite.out p =
      { p with
        base := base &&& 7
        needICW4 := true
        state := .normal
        link := if isSlave then (link &&& 7).setWidth 8 else link.setWidth 8 } := by
  have hne4 : icw1 &&& 0x10 ≠ 0 := by
    have hand : icw1 &&& 0x10 = (icw1 &&& 0x11) &&& 0x10 := by
      rw [BitVec.and_assoc]
      rfl
    rw [hand, hicw]
    decide
  have hne0 : icw1 &&& 1 ≠ 0 := by
    have hand : icw1 &&& 1 = (icw1 &&& 0x11) &&& 1 := by
      rw [BitVec.and_assoc]
      rfl
    rw [hand, hicw]
    decide
  have hbase : ((base.setWidth 32 &&& 7 : ULong).setWidth 8 : UChar) = base &&& 7 := by
    rw [BitVec.setWidth_and]
    congr 1
    exact BitVec.setWidth_setWidth_of_le _ (by decide)
  have hcommand : PicWrite.out p ⟨isSlave, false, icw1⟩ =
      { p with needICW4 := true, state := .waitICW2 } := by
    show (p.outCommand icw1).2 = _
    rw [Pic.outCommand, if_pos hp, if_pos hne4, decide_eq_true hne0]
  rw [PicWrite.icws, List.foldl_cons, hcommand, ← hbase]
  rfl

theorem Kept.of_idle {p : PicPair} (h : Idle p) (hlink : p.slave.link.toNat < 8) : Kept p := by
  have hmaster : ∀ i, p.master.irr.getLsbD i ≠ true := fun i hi =>
    Bool.false_ne_true ((eq_zero_iff.mp h.1 i).symm.trans hi)
  have hslave : ∀ i, p.slave.irr.getLsbD i ≠ true := fun i hi =>
    Bool.false_ne_true ((eq_zero_iff.mp h.2 i).symm.trans hi)
  exact ⟨hlink, fun i hi => absurd hi (hmaster i), fun i hi => absurd hi (hslave i),
    fun k _ _ => iff_of_false (hmaster k) (not_not.mpr h.2), fun hc => absurd h.2 hc⟩

end Programming

/-! ## A machine that is programmed -/

/-- No ICW is waited for. -/
def Pic.Ready {isSlave : Bool} (p : Pic isSlave) : Prop :=
  p.state ≠ .waitICW2 ∧ p.state ≠ .waitICW3 ∧ p.state ≠ .waitICW4

/-- The controllers as they are programmed. -/
structure Based (p : PicPair) (base base' : UChar) : Prop where
  standard : Standard p
  master : p.master.base = base &&& 7
  slave : p.slave.base = base' &&& 7
  ready : p.master.Ready
  ready' : p.slave.Ready

theorem Programs.based {v v' : Vm} {ws : List PicWrite} {base base' : UChar}
    (h : Programs v v' ws base base') :
    Based v'.pair base base' ∧ v'.pair.master.irr = v.pair.master.irr ∧
      v'.pair.slave.irr = v.pair.slave.irr := by
  obtain ⟨icw1, icw4, hicw, hws⟩ := h.master
  obtain ⟨icw1', icw4', hicw', hws'⟩ := h.slave
  obtain ⟨hmaster, hslave⟩ := run_writes h.run
  rw [hws, foldl_icws h.normal.1 hicw] at hmaster
  rw [hws', foldl_icws h.normal.2 hicw'] at hslave
  rw [hmaster, hslave]
  refine ⟨⟨⟨by rw [hmaster]; rfl, by rw [hslave]; rfl⟩, by rw [hmaster], by rw [hslave], ?_, ?_⟩,
    rfl, rfl⟩
  · rw [hmaster]
    exact ⟨nofun, nofun, nofun⟩
  · rw [hslave]
    exact ⟨nofun, nofun, nofun⟩

/-- The IRQ is not masked, itself or as the slave's line, and is not the slave's line. -/
def Unmasked (p : PicPair) (irq : UChar) : Prop :=
  if 8 ≤ irq then
    p.slave.mask.getLsbD (irq - 8).toNat = false ∧ p.master.mask.getLsbD 2 = false
  else irq ≠ 2 ∧ p.master.mask.getLsbD irq.toNat = false

/-- Only unmasked IRQs are raised, no line that is requested is masked, and the controllers are
not programmed again. -/
def Serves (p : PicPair) : PicOp → Prop
  | .simulateIrq irq => Unmasked p irq
  | .vpicOut port size val => size = 1 → (port = 0x20 ∨ port = 0xa0 → val &&& 0x10 = 0) ∧
    (port = 0x21 → p.master.state = .normal →
      ∀ i, p.master.irr.getLsbD i = true → (val.setWidth 8 : UChar).getLsbD i = false) ∧
    (port = 0xa1 → p.slave.state = .normal →
      ∀ i, p.slave.irr.getLsbD i = true → (val.setWidth 8 : UChar).getLsbD i = false)
  | .setMask set mask => Keeps p (.setMask set mask)
  | _ => True

section Served

variable {p : PicPair} {isSlave : Bool} {pic : Pic isSlave} {base base' irq : UChar}
  {op : PicOp} {val : ULong} {v v' : Vm} {junk n : ℕ}

theorem Pic.Ready.outCommand (h : pic.Ready) (hval : val &&& 0x10 = 0) :
    (pic.outCommand val).2.Ready ∧ (pic.outCommand val).2.base = pic.base := by
  have hne : ¬val &&& 0x10 ≠ 0 := not_not.mpr hval
  unfold Pic.outCommand
  simp only [if_neg hne]
  split_ifs <;> first | exact ⟨h, rfl⟩ | exact ⟨⟨nofun, nofun, nofun⟩, rfl⟩

theorem Pic.Ready.outData (h : pic.Ready) (val : ULong) :
    (pic.outData val).Ready ∧ (pic.outData val).base = pic.base ∧
      (pic.outData val).link = pic.link := by
  unfold Pic.outData
  split
  · exact ⟨h, rfl, rfl⟩
  · rename_i hst
    exact absurd hst h.1
  · rename_i hst
    exact absurd hst h.2.1
  · rename_i hst
    exact absurd hst h.2.2
  · exact ⟨h, rfl, rfl⟩

theorem Based.keeps (h : Based p base base') (hirq : ∀ irq, op = .simulateIrq irq → irq < 16)
    (hok : Serves p op) : Keeps p op := by
  cases op with
  | simulateIrq irq =>
    have hlt : irq.toNat < 16 := hirq irq rfl
    change Unmasked p irq at hok
    show RaiseOk p irq
    unfold Unmasked at hok
    unfold RaiseOk
    have hlink : p.slave.link.toNat = 2 := congrArg BitVec.toNat h.standard.2
    by_cases hle : 8 ≤ irq
    · rw [if_pos hle] at hok ⊢
      rw [if_neg (by rw [hok.1]; exact fun hc => Bool.false_ne_true hc.1), hlink]
      exact ⟨h.standard.1, hok.2⟩
    · rw [if_neg hle] at hok ⊢
      refine .inl fun hc => hok.1 (BitVec.eq_of_toNat_eq ?_)
      exact (h.standard.eq_two (Nat.lt_of_not_le hle)).mp hc
  | vpicOut port size val =>
    intro hsize
    obtain ⟨-, hmaster, hslave⟩ := hok hsize
    exact ⟨fun hport => ⟨hmaster hport, fun hst => absurd hst h.ready.2.1⟩,
      fun hport => ⟨hslave hport, fun hst => absurd hst h.ready'.2.1⟩⟩
  | setMask set mask => exact hok
  | vpicIn | ifEnabled | ifDisabled | vpicReturnHook | cli | sti | loadFlags | int | hlt =>
    exact trivial

/-- An unmasked IRQ that is raised is requested. -/
theorem Based.pending_raise (h : Based p base base') (hirq : irq < 16) (hun : Unmasked p irq) :
    (p.raise irq).pending irq.toNat = true := by
  have hirq : irq.toNat < 16 := hirq
  unfold Unmasked at hun
  unfold PicPair.raise
  by_cases hle : 8 ≤ irq
  · have hle' : 8 ≤ irq.toNat := hle
    rw [if_pos hle] at hun ⊢
    rw [Kept.toNat_sub_eight hle] at hun ⊢
    rw [Kept.pending_high (by omega)]
    show (p.slave.request _).irr.getLsbD _ = true
    rw [Pic.request_self (by omega), hun.1]
    rfl
  · have hlt : irq.toNat < 8 := Nat.lt_of_not_le hle
    rw [if_neg hle] at hun ⊢
    rw [Standard.pending_low (p := { p with master := p.master.request irq.toNat }) h.standard hlt]
    show ((p.master.request _).irr.getLsbD _ && _) = true
    have hne : irq.toNat ≠ 2 := fun hc => hun.1 (BitVec.eq_of_toNat_eq hc)
    rw [Pic.request_self hlt, hun.2, decide_eq_false hne]
    rfl

theorem Based.raise (h : Based p base base') : Based (p.raise irq) base base' := by
  unfold PicPair.raise
  split <;> exact ⟨h.standard, h.master, h.slave, h.ready, h.ready'⟩

theorem Based.deliver (h : Based p base base') : Based (p.deliver junk).2 base base' := by
  unfold PicPair.deliver
  dsimp only
  split_ifs <;> exact ⟨h.standard, h.master, h.slave, h.ready, h.ready'⟩

theorem Based.setMask {set : Bool} {mask : UShort} (h : Based p base base') :
    Based (p.setMask set mask) base base' := by
  unfold PicPair.setMask
  cases set <;> exact ⟨h.standard, h.master, h.slave, h.ready, h.ready'⟩

theorem Based.vpicIn {port : UShort} {size : ℕ} (h : Based v.pair base base') :
    Based (v.vpicIn port size).2.pair base base' := by
  unfold Vm.vpicIn
  dsimp only
  split_ifs
  · exact ⟨h.standard, h.master, h.slave, ⟨nofun, nofun, nofun⟩, h.ready'⟩
  · exact ⟨h.standard, h.master, h.slave, h.ready, ⟨nofun, nofun, nofun⟩⟩
  · exact h
  · exact h
  · exact h
  · exact h

theorem Based.vpicOut {port : UShort} {size : ℕ} (h : Based v.pair base base')
    (hok : Serves v.pair (.vpicOut port size val)) :
    Based (v.vpicOut port size val).pair base base' := by
  unfold Vm.vpicOut
  dsimp only
  split_ifs with hsize h20 hr ha0 hr h21 ha1
  · obtain ⟨hready, hbase⟩ := h.ready.outCommand ((hok hsize).1 (.inl h20))
    rw [Vm.installReturnHook_pair]
    exact ⟨⟨(Pic.outCommand_same _).2.2.trans h.standard.1, h.standard.2⟩, hbase.trans h.master,
      h.slave, hready, h.ready'⟩
  · obtain ⟨hready, hbase⟩ := h.ready.outCommand ((hok hsize).1 (.inl h20))
    exact ⟨⟨(Pic.outCommand_same _).2.2.trans h.standard.1, h.standard.2⟩, hbase.trans h.master,
      h.slave, hready, h.ready'⟩
  · obtain ⟨hready, hbase⟩ := h.ready'.outCommand ((hok hsize).1 (.inr ha0))
    rw [Vm.installReturnHook_pair]
    exact ⟨⟨h.standard.1, (Pic.outCommand_same _).2.2.trans h.standard.2⟩, h.master,
      hbase.trans h.slave, h.ready, hready⟩
  · obtain ⟨hready, hbase⟩ := h.ready'.outCommand ((hok hsize).1 (.inr ha0))
    exact ⟨⟨h.standard.1, (Pic.outCommand_same _).2.2.trans h.standard.2⟩, h.master,
      hbase.trans h.slave, h.ready, hready⟩
  · obtain ⟨hready, hbase, hlink⟩ := h.ready.outData val
    exact ⟨⟨hlink.trans h.standard.1, h.standard.2⟩, hbase.trans h.master, h.slave, hready,
      h.ready'⟩
  · obtain ⟨hready, hbase, hlink⟩ := h.ready'.outData val
    exact ⟨⟨h.standard.1, hlink.trans h.standard.2⟩, h.master, hbase.trans h.slave, h.ready,
      hready⟩
  · exact h
  · exact h

theorem Based.next (h : Based v.pair base base') (hok : Serves v.pair op)
    (hstep : v.next op = some v') : Based v'.pair base base' := by
  have hsame (hflags : Vm.OnFlags op) : Based v'.pair base base' := by
    rw [Vm.next_pair hflags hstep]
    exact h
  cases op with
  | simulateIrq irq =>
    simp only [Vm.next] at hstep
    split at hstep
    · cases hstep
      rw [Vm.simulateIrq_pair]
      exact h.raise
    · cases hstep
  | vpicReturnHook vm86 junk =>
    simp only [Vm.next] at hstep
    split at hstep
    · cases hstep
      rcases v.vpicReturnHook_cases vm86 junk with ⟨-, hpair⟩ | ⟨-, -, -, hpair⟩
      · rw [hpair]
        exact h
      · rw [hpair]
        exact h.deliver
    · cases hstep
  | vpicOut port size val =>
    cases hstep
    exact h.vpicOut hok
  | vpicIn port size =>
    cases hstep
    exact h.vpicIn
  | setMask set mask =>
    cases hstep
    exact h.setMask
  | ifEnabled | ifDisabled | cli | sti | loadFlags | int | hlt => exact hsame trivial

/-- The vector that the code computes for IRQ `n`. -/
def vectorOf (base base' : UChar) (n : ℕ) : ℕ :=
  if n < 8 then base.toNat + n else base'.toNat + (n - 8)

/-- The line of the master that IRQ `n` is at. -/
def lineOf (n : ℕ) : ℕ := if n < 8 then n else 2

/-- What is delivered: its vector, and that no request comes before it. -/
theorem Based.deliver_fst (h : Based p base base') (hk : Kept p) (hne : p.master.irr ≠ 0) :
    (p.deliver junk).1.2 = vectorOf (base &&& 7) (base' &&& 7) (p.deliver junk).1.1 ∧
      ∀ n, p.pending n = true → lineOf (p.deliver junk).1.1 ≤ lineOf n ∧
        (8 ≤ (p.deliver junk).1.1 → 8 ≤ n → (p.deliver junk).1.1 ≤ n) := by
  have hlt : bsf junk p.master.irr < 8 := bsf_lt hne
  have hirr : p.master.irr.getLsbD (bsf junk p.master.irr) = true := getLsbD_bsf hne
  -- a request is at a line of the master that is requested
  have hline : ∀ n, p.pending n = true → bsf junk p.master.irr ≤ lineOf n := by
    intro n hn
    refine bsf_le hne ?_
    unfold lineOf
    split
    · rename_i hn8
      rw [Kept.pending_low hn8, Bool.and_eq_true] at hn
      exact hn.1
    · rename_i hn8
      rw [Kept.pending_high hn8] at hn
      have hlink : p.slave.link.toNat = 2 := congrArg BitVec.toNat h.standard.2
      exact hlink ▸ (hk.passed (ne_zero_iff.mpr ⟨_, hn⟩)).1
  unfold PicPair.deliver
  generalize bsf junk p.master.irr = m at *
  by_cases hlink : p.master.link = bit m
  · have hif : (p.master.serve m).link = bit m := hlink
    have hslave : p.slave.irr ≠ 0 := (hk.cascade _ hlt hlink).mp hirr
    have hm := (h.standard.eq_two hlt).mp hlink
    simp only [if_pos hif]
    have hnot : ¬8 + bsf junk p.slave.irr < 8 := by omega
    refine ⟨?_, fun n hn => ⟨?_, fun _ hn8 => ?_⟩⟩
    · rw [vectorOf, if_neg hnot, ← h.slave, Nat.add_sub_cancel_left]
      rfl
    · rw [lineOf, if_neg hnot, ← hm]
      exact hline n hn
    · rw [Kept.pending_high (by omega)] at hn
      have : bsf junk p.slave.irr ≤ n - 8 := bsf_le hslave hn
      omega
  · have hif : ¬(p.master.serve m).link = bit m := hlink
    simp only [if_neg hif]
    refine ⟨?_, fun n hn => ⟨?_, fun hc _ => absurd hc (by omega)⟩⟩
    · rw [vectorOf, if_pos hlt, ← h.master]
      rfl
    · rw [lineOf, if_pos hlt]
      exact hline n hn

end Served

/-! ## Runs of a machine that is programmed -/

/-- A state of such a run. -/
structure Serving (base base' : UChar) (s : PicSys) : Prop where
  based : Based s.vm.pair base base'
  recorded : Recorded s
  hooked : s.vm.Hooked
  vectors : ∀ d ∈ s.delivered, d.2 = vectorOf (base &&& 7) (base' &&& 7) d.1

def ServesStep (s : PicSys) (op : PicOp) : Prop := Serves s.vm.pair op

/-- What is delivered was requested at the lowest line. -/
def LowestFirst (s : PicSys) (op : PicOp) : Prop :=
  ∀ vm86 junk d, op = .vpicReturnHook vm86 junk → (s.vm.vpicReturnHook vm86 junk).1 = some d →
    ∀ n, s.vm.pair.pending n = true →
      lineOf d.1 ≤ lineOf n ∧ (8 ≤ d.1 → 8 ≤ n → d.1 ≤ n)

section Serving

variable {s s' : PicSys} {base base' : UChar} {op : PicOp}

theorem Serving.lowestFirst (h : Serving base base' s) : LowestFirst s op := by
  intro vm86 junk d _ hsome
  rcases s.vm.vpicReturnHook_cases vm86 junk with ⟨hnone, -⟩ | ⟨-, hirr, hd, -⟩
  · rw [hnone] at hsome
    cases hsome
  · rw [hd] at hsome
    cases hsome
    exact (h.based.deliver_fst h.recorded.kept hirr).2

theorem Serving.keeps (h : Serving base base' s) (hok : ServesStep s op)
    (hstep : picStep s op = some s') : KeepsRequests s op := by
  obtain ⟨v, hnext, -⟩ := Option.map_eq_some_iff.mp hstep
  refine h.based.keeps (fun irq hop => ?_) hok
  subst hop
  simp only [Vm.next] at hnext
  split at hnext
  · assumption
  · cases hnext

theorem picStep_serving : Preserves picStep ServesStep (Serving base base') := by
  intro s op s' h hok hstep
  have hrecorded := picStep_recorded h.recorded (h.keeps hok hstep) hstep
  have hhooked := picStep_hooked h.hooked trivial hstep
  obtain ⟨v, hnext, rfl⟩ := Option.map_eq_some_iff.mp hstep
  refine ⟨h.based.next hok hnext, hrecorded, hhooked, ?_⟩
  cases op with
  | vpicReturnHook vm86 junk =>
    intro d hd
    rcases List.mem_append.mp hd with hd | hd
    · exact h.vectors d hd
    · rcases s.vm.vpicReturnHook_cases vm86 junk with ⟨hnone, -⟩ | ⟨-, hirr, hsome, -⟩
      · rw [hnone] at hd
        cases hd
      · rw [hsome, Option.toList_some, List.mem_singleton] at hd
        rw [hd]
        exact (h.based.deliver_fst h.recorded.kept hirr).1
  | simulateIrq | vpicOut | vpicIn | setMask | ifEnabled | ifDisabled | cli | sti | loadFlags
  | int | hlt => exact h.vectors

/-- The guest ends the service of an IRQ and lets the next one in. -/
def eoiRound : List PicOp :=
  [.vpicIn 0x20 1, .vpicOut 0x20 1 0x20, .sti false, .vpicReturnHook true 0]

theorem eoiRound_serves (s : PicSys) : Along picStep ServesStep s eoiRound := by
  refine ⟨trivial, fun s₁ h₁ => ⟨fun _ => ⟨fun _ => by decide, ?_, ?_⟩, fun _ _ =>
    ⟨trivial, fun _ _ => ⟨trivial, fun _ _ => trivial⟩⟩⟩⟩
  · exact fun hc => absurd hc (by decide)
  · exact fun hc => absurd hc (by decide)

/-- The controllers after a read from 0x20 and an EOI of the master. -/
def PicPair.afterEoi (p : PicPair) : PicPair :=
  { p with master := { p.master with state := .normal, isr := 0 } }

/-- After the EOI and STI the hook is ready. -/
theorem eoi_sti (v : Vm) (hirr : v.pair.master.irr ≠ 0) :
    let v' := ((v.vpicIn 0x20 1).2.vpicOut 0x20 1 0x20).sti false
    v'.pair = v.pair.afterEoi ∧ v'.IfSet ∧ v'.returnHook = true := by
  let w : Vm := { v with pair := v.pair.afterEoi }
  let u : Vm := { w.installReturnHook with
    virtualEflags := w.installReturnHook.virtualEflags ||| FLAGS_IF }
  have hsti : ((v.vpicIn 0x20 1).2.vpicOut 0x20 1 0x20).sti false = u.installReturnHook := rfl
  have hpair : u.installReturnHook.pair = v.pair.afterEoi := by
    rw [Vm.installReturnHook_pair]
    exact Vm.installReturnHook_pair
  have hif : u.installReturnHook.IfSet := by
    show u.installReturnHook.virtualEflags &&& FLAGS_IF ≠ 0
    rw [Vm.installReturnHook_flags]
    intro hc
    have hbit := congrArg (BitVec.getLsbD · 9) hc
    simp [u] at hbit
  dsimp only
  rw [hsti]
  exact ⟨hpair, hif, Vm.hooked_installReturnHook hif (by rw [hpair]; exact hirr)⟩

theorem eoiRounds_serve (s : PicSys) (m : ℕ) :
    Along picStep ServesStep s (List.replicate m eoiRound).flatten := by
  induction m generalizing s with
  | zero => trivial
  | succ m ih =>
    rw [List.replicate_succ, List.flatten_cons]
    exact (eoiRound_serves s).append fun s' _ => ih s'

/-- A round delivers a request. -/
theorem Serving.round (h : Serving base base' s) {n : ℕ} (hn : s.vm.pair.pending n = true) :
    ∃ s' k, run picStep s eoiRound = some s' ∧ s'.accepted = s.accepted ∧
      s.vm.pair.pending k = true ∧
      ∀ i, s'.vm.pair.pending i = (s.vm.pair.pending i && !decide (i = k)) := by
  have hirr := h.recorded.kept.irr_ne_zero hn
  obtain ⟨hpair, hif, hhook⟩ := eoi_sti s.vm hirr
  generalize hv : ((s.vm.vpicIn 0x20 1).2.vpicOut 0x20 1 0x20).sti false = v at *
  obtain ⟨hkept, hsame⟩ : Kept s.vm.pair.afterEoi ∧
      ∀ i, s.vm.pair.afterEoi.pending i = s.vm.pair.pending i :=
    h.recorded.kept.congr rfl rfl h.recorded.kept.link (.inl ⟨rfl, rfl⟩) h.recorded.kept.master
      h.recorded.kept.slave
  obtain ⟨-, hdeliv, hpending⟩ := hkept.deliver hirr 0
  have hready := v.vpicReturnHook_of_ready 0 hif (by rw [hpair]; rfl) (by rw [hpair]; exact hirr)
  rw [hpair] at hready
  have hlast : picStep ⟨v, s.accepted, s.delivered⟩ (.vpicReturnHook true 0) =
      some ⟨(v.vpicReturnHook true 0).2, s.accepted,
        s.delivered ++ (v.vpicReturnHook true 0).1.toList⟩ := by
    rw [picStep]
    simp only [Vm.next, if_pos hhook]
    rfl
  refine ⟨⟨(v.vpicReturnHook true 0).2, s.accepted,
    s.delivered ++ (v.vpicReturnHook true 0).1.toList⟩, (s.vm.pair.afterEoi.deliver 0).1.1, ?_, rfl,
    (hsame _).symm.trans hdeliv, ?_⟩
  · refine run_cons_eq_some.mpr ⟨_, rfl, run_cons_eq_some.mpr ⟨_, rfl, run_cons_eq_some.mpr
      ⟨⟨v, s.accepted, s.delivered⟩, ?_, run_cons_eq_some.mpr ⟨_, hlast, rfl⟩⟩⟩⟩
    rw [← hv]
    rfl
  · intro i
    show (v.vpicReturnHook true 0).2.pair.pending i = _
    rw [hready.2, ← hsame i]
    exact hpending i

/-- The requests that there are. -/
def requests (p : PicPair) : Finset ℕ := (Finset.range 16).filter fun n => p.pending n = true

theorem mem_requests {p : PicPair} {n : ℕ} : n ∈ requests p ↔ p.pending n = true := by
  rw [requests, Finset.mem_filter, Finset.mem_range]
  refine and_iff_right_of_imp fun hn => ?_
  by_cases hn8 : n < 8
  · omega
  · rw [Kept.pending_high hn8] at hn
    have := lt_of_getLsbD hn
    omega

/-- As many rounds as there are requests deliver all of them. -/
theorem Serving.rounds (h : Serving base base' s) :
    ∃ s', run picStep s (List.replicate (requests s.vm.pair).card eoiRound).flatten = some s' ∧
      ∀ n, s'.deliveries n = s.accepted n := by
  generalize hm : (requests s.vm.pair).card = m
  induction m generalizing s with
  | zero =>
    refine ⟨s, rfl, fun n => ?_⟩
    have hnone : s.vm.pair.pending n = false := by
      rw [← Bool.not_eq_true, ← mem_requests, Finset.card_eq_zero.mp hm]
      exact Finset.notMem_empty n
    rw [h.recorded.count n, hnone]
    rfl
  | succ m ih =>
    obtain ⟨n, hn⟩ : (requests s.vm.pair).Nonempty := Finset.card_pos.mp (by omega)
    obtain ⟨s₁, k, hrun, hacc, hk, hpending⟩ := h.round (mem_requests.mp hn)
    have hserving := picStep_serving.run h (eoiRound_serves s) hrun
    have herase : requests s₁.vm.pair = (requests s.vm.pair).erase k := by
      ext i
      rw [Finset.mem_erase, mem_requests, mem_requests, hpending, Bool.and_eq_true,
        Bool.not_eq_true', decide_eq_false_iff_not, and_comm]
    obtain ⟨s', hrest, hall⟩ := ih hserving (by
      rw [herase, Finset.card_erase_of_mem (mem_requests.mpr hk), hm]
      rfl)
    refine ⟨s', ?_, fun n => by rw [hall, hacc]⟩
    rw [List.replicate_succ, List.flatten_cons, run_append, hrun]
    exact hrest

end Serving

/-- What a machine with the given bases is to see: the vectors, every unmasked IRQ accepted
when it is raised, every IRQ that was accepted delivered once or still requested, and the
requests delivered when the guest lets them. -/
structure VectorsOf (base base' : UChar) (s : PicSys) : Prop where
  vectors : ∀ d ∈ s.delivered, d.2 = vectorOf (base &&& 0xf8) (base' &&& 0xf8) d.1
  raised : ∀ irq, irq < 16 → Unmasked s.vm.pair irq →
    (s.vm.pair.raise irq).pending irq.toNat = true
  once : ∀ n, s.accepted n = s.deliveries n + (s.vm.pair.pending n).toNat
  served : ∃ s', run picStep s (List.replicate (requests s.vm.pair).card eoiRound).flatten = some s' ∧
    ∀ n, s'.deliveries n = s.accepted n

theorem Programs.serving {v v' : Vm} {ws : List PicWrite} {base base' : UChar}
    (h : Programs v v' ws base base') (hkept : Kept v'.pair) :
    Serving base base' (PicSys.start v') := by
  obtain ⟨ops, hops⟩ := h.reachable
  have hnext : Preserves Vm.next (fun _ _ => True) Vm.Hooked :=
    fun _ _ _ h _ hstep => Vm.next_hooked h hstep
  have hhooked : v'.Hooked := hnext.run (hnext.run (Vm.hooked_of_clear (by decide))
    (along_true _ _) hops) (along_true _ _) h.run
  exact ⟨h.based.1, start_recorded hkept, hhooked, fun _ hd => absurd hd (List.not_mem_nil)⟩

/-- The controllers are programmed in a new machine. -/
def newWrites (base base' : UChar) : List PicWrite :=
  PicWrite.icws false 0x11 (base.setWidth 32) 4 1 ++ PicWrite.icws true 0x11 (base'.setWidth 32) 2 1

theorem programs_new (base base' : UChar) : ∃ v, Programs createVpic v (newWrites base base') base base' ∧
    Kept v.pair ∧ v.pair.master.mask = 0xff ∧ v.pair.slave.mask = 0xff := by
  obtain ⟨v, hv⟩ : ∃ v, run Vm.next createVpic ((newWrites base base').map PicWrite.op) = some v :=
    ⟨_, rfl⟩
  have h : Programs createVpic v (newWrites base base') base base' :=
    ⟨⟨[], rfl⟩, ⟨rfl, rfl⟩, ⟨0x11, 1, rfl, rfl⟩, ⟨0x11, 1, rfl, rfl⟩, hv⟩
  obtain ⟨hbased, hirr, hirr'⟩ := h.based
  refine ⟨v, h, Kept.of_idle ⟨hirr, hirr'⟩ ?_, ?_, ?_⟩
  · rw [hbased.standard.2]
    decide
  · cases hv
    rfl
  · cases hv
    rfl

/-- A new machine delivers an IRQ that is unmasked and raised. -/
theorem new_delivers (base base' : UChar) {irq : UChar} {mask : UShort} (hirq : irq < 16)
    (h : ∀ p : PicPair, p.master.mask = 0xff → p.slave.mask = 0xff →
      Unmasked (p.setMask false mask) irq) :
    ∃ v ops s, Programs createVpic v (newWrites base base') base base' ∧ Kept v.pair ∧
      run picStep (PicSys.start v) ops = some s ∧
      Along picStep ServesStep (PicSys.start v) ops ∧ irq.toNat ∈ s.delivered.map Prod.fst := by
  obtain ⟨v, hprograms, hkept, hmask, hmask'⟩ := programs_new base base'
  have hunmasked := h v.pair hmask hmask'
  have hstep : ∀ s : PicSys, ∃ s', picStep s (.simulateIrq irq) = some s' := by
    intro s
    have hnext : s.vm.next (.simulateIrq irq) = some (s.vm.simulateIrq irq) := if_pos hirq
    exact ⟨_, Option.map_eq_some_iff.mpr ⟨_, hnext, rfl⟩⟩
  obtain ⟨s₁, h₁⟩ : ∃ s₁, picStep (PicSys.start v) (.setMask false mask) = some s₁ := ⟨_, rfl⟩
  obtain ⟨s, h₂⟩ := hstep s₁
  have hrun : run picStep (PicSys.start v) [.setMask false mask, .simulateIrq irq] = some s :=
    run_cons_eq_some.mpr ⟨s₁, h₁, run_cons_eq_some.mpr ⟨s, h₂, rfl⟩⟩
  have hserves : Along picStep ServesStep (PicSys.start v)
      [.setMask false mask, .simulateIrq irq] := by
    refine ⟨nofun, fun s₁ h₁ => ⟨?_, fun _ _ => trivial⟩⟩
    cases h₁
    exact hunmasked
  have hserving := picStep_serving.run (hprograms.serving hkept) hserves hrun
  have hpending : s.vm.pair.pending irq.toNat = true := by
    cases h₁
    obtain ⟨w, hnext, rfl⟩ := Option.map_eq_some_iff.mp h₂
    simp only [Vm.next, if_pos hirq] at hnext
    cases hnext
    rw [Vm.simulateIrq_pair]
    exact (hprograms.based.1.setMask).pending_raise hirq hunmasked
  obtain ⟨s', hrun', hall⟩ := hserving.rounds
  refine ⟨v, [.setMask false mask, .simulateIrq irq] ++
    (List.replicate (requests s.vm.pair).card eoiRound).flatten, s', hprograms, hkept, ?_,
    hserves.append fun t _ => eoiRounds_serve t _, ?_⟩
  · rw [run_append, hrun]
    exact hrun'
  · have hcount := hall irq.toNat
    rw [hserving.recorded.count, hpending] at hcount
    exact List.count_pos_iff.mp (by
      change (s'.delivered.map Prod.fst).count irq.toNat = _ at hcount
      rw [hcount]
      exact Nat.succ_pos _)

/-- A delivery with the vector that is meant. -/
theorem vector_eq (base base' : UChar) {irq : UChar} {mask : UShort} (hirq : irq < 16)
    (h : ∀ p : PicPair, p.master.mask = 0xff → p.slave.mask = 0xff →
      Unmasked (p.setMask false mask) irq)
    (hall : ∀ v ops s, Programs createVpic v (newWrites base base') base base' → Kept v.pair →
      run picStep (PicSys.start v) ops = some s →
      Along picStep ServesStep (PicSys.start v) ops → VectorsOf base base' s) :
    vectorOf (base &&& 7) (base' &&& 7) irq.toNat =
      vectorOf (base &&& 0xf8) (base' &&& 0xf8) irq.toNat := by
  obtain ⟨v, ops, s, hprograms, hkept, hrun, hserves, hmem⟩ := new_delivers base base' hirq h
  have hserving := picStep_serving.run (hprograms.serving hkept) hserves hrun
  obtain ⟨d, hd, heq⟩ := List.mem_map.mp hmem
  rw [← heq, ← hserving.vectors d hd]
  exact (hall v ops s hprograms hkept hrun hserves).vectors d hd

theorem unmasked_zero (p : PicPair) (h : p.master.mask = 0xff) (_ : p.slave.mask = 0xff) :
    Unmasked (p.setMask false 0x001) 0 := by
  refine ⟨by decide, ?_⟩
  show (p.master.mask &&& ~~~_).getLsbD _ = false
  rw [h]
  decide

theorem unmasked_eight (p : PicPair) (h : p.master.mask = 0xff) (h' : p.slave.mask = 0xff) :
    Unmasked (p.setMask false 0x104) 8 := by
  constructor
  · show (p.slave.mask &&& ~~~_).getLsbD _ = false
    rw [h']
    decide
  · show (p.master.mask &&& ~~~_).getLsbD _ = false
    rw [h]
    decide

theorem eq_zero_of_and_eq {b : UChar} (h : b &&& 7 = b &&& 0xf8) : b = 0 := by
  have hlow : b &&& 7 = 0 := by
    calc b &&& 7 = (b &&& 7) &&& 7 := by rw [BitVec.and_assoc]; rfl
      _ = (b &&& 0xf8) &&& 7 := by rw [h]
      _ = b &&& 0 := by rw [BitVec.and_assoc]; rfl
      _ = 0 := BitVec.and_zero
  calc b = b &&& (7 ||| 0xf8) := (BitVec.and_allOnes).symm
    _ = (b &&& 7) ||| (b &&& 0xf8) := BitVec.and_or_distrib_left
    _ = 0 := by rw [← h, hlow]; rfl

/-- **Vectors.** For given bases, every machine that is programmed with them delivers what is
raised as it should, in every run in which only unmasked IRQs are raised, the lowest line
first, if and only if both bases are zero. -/
theorem vectors_iff (base base' : UChar) :
    (∀ (v v' : Vm) (ws : List PicWrite), Programs v v' ws base base' → Kept v'.pair →
      ∀ (ops : List PicOp) (s : PicSys), run picStep (PicSys.start v') ops = some s →
        Along picStep ServesStep (PicSys.start v') ops →
        VectorsOf base base' s ∧ Along picStep LowestFirst (PicSys.start v') ops) ↔
      base = 0 ∧ base' = 0 := by
  constructor
  · intro hall
    constructor
    · have heq := vector_eq base base' (by decide) unmasked_zero
        fun v ops s hp hk hrun hserves => (hall _ v _ hp hk ops s hrun hserves).1
      exact eq_zero_of_and_eq (BitVec.eq_of_toNat_eq heq)
    · have heq := vector_eq base base' (by decide) unmasked_eight
        fun v ops s hp hk hrun hserves => (hall _ v _ hp hk ops s hrun hserves).1
      exact eq_zero_of_and_eq (BitVec.eq_of_toNat_eq heq)
  · rintro ⟨rfl, rfl⟩ v v' ws hprograms hkept ops s hrun hserves
    have hstart := hprograms.serving hkept
    have hserving := picStep_serving.run hstart hserves hrun
    refine ⟨⟨hserving.vectors, fun irq hirq hun => hserving.based.pending_raise hirq hun,
      hserving.recorded.count, hserving.rounds⟩, ?_⟩
    exact picStep_serving.along (fun _ _ h _ => h.lowestFirst) hstart hserves

/-- A guest programs the usual base 8, and IRQ 0 comes with vector 0. -/
theorem usual_base_wrong : ¬∀ (base base' : UChar) (v v' : Vm) (ws : List PicWrite),
    Programs v v' ws base base' → Kept v'.pair →
    ∀ (ops : List PicOp) (s : PicSys), run picStep (PicSys.start v') ops = some s →
      Along picStep ServesStep (PicSys.start v') ops →
        VectorsOf base base' s ∧ Along picStep LowestFirst (PicSys.start v') ops := by
  intro hall
  exact absurd (vector_eq 8 0x70 (by decide) unmasked_zero
    fun v ops s hp hk hrun hserves => (hall 8 0x70 _ v _ hp hk ops s hrun hserves).1) (by decide)

end Vmm386.Vpic
