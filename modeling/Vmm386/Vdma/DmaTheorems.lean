import Vmm386.Vdma.Dma

/-!
# Round trips through the DMA registers

Every register has a toggle of its own, which the port for the flip-flop does not reset and which
starts at the high half. A round trip succeeds after an odd number of accesses.
-/

namespace Vmm386.VdmaModule

/-! ## The halves of a register -/

/-- Both bytes of a value are the same. -/
def SameBytes (value : UShort) : Prop := value &&& (0xff : UShort) = value >>> 8

instance (value : UShort) : Decidable (SameBytes value) := inferInstanceAs (Decidable (_ = _))

/-- The low byte, as an instruction writes it. -/
def lowByte (value : UShort) : ULong := (value &&& 0xff).setWidth 32

/-- The high byte. -/
def highByte (value : UShort) : ULong := (value >>> 8).setWidth 32

theorem lowByte_eq_highByte (value : UShort) :
    lowByte value = highByte value ↔ SameBytes value := by
  unfold lowByte highByte SameBytes
  have hlow := (value &&& (0xff : UShort)).isLt
  have hhigh := (value >>> 8).isLt
  rw [← BitVec.toNat_inj, ← BitVec.toNat_inj, BitVec.toNat_setWidth, BitVec.toNat_setWidth,
    Nat.mod_eq_of_lt (by omega), Nat.mod_eq_of_lt (by omega)]

theorem byteOf_true (value : UShort) : byteOf true value = lowByte value := rfl

theorem byteOf_false (value : UShort) : byteOf false value = highByte value := by
  unfold byteOf highByte
  ext i hi
  interval_cases i <;> simp

/-- From the low half on, the two bytes arrive where they belong. -/
theorem setByte_true_false (reg value : UShort) :
    setByte false (setByte true reg (lowByte value)) (highByte value) = value := by
  unfold setByte lowByte highByte
  ext i hi
  interval_cases i <;> simp

/-- From the high half on, they are swapped. -/
theorem setByte_false_true (reg value : UShort) :
    setByte true (setByte false reg (lowByte value)) (highByte value) = value ↔
      SameBytes value := by
  unfold setByte lowByte highByte SameBytes
  constructor
  · intro h
    ext i hi
    have hbit := congrArg (fun x : UShort => x.getLsbD i) h
    interval_cases i <;> simp at hbit ⊢ <;> simp_all
  · intro h
    ext i hi
    have hbit := congrArg (fun x : UShort => x.getLsbD (i % 8)) h
    interval_cases i <;> simp at hbit ⊢ <;> simp_all

/-! ## The registers of a channel -/

namespace DmaChan

variable (c : DmaChan) (count : Bool)

/-- The address, or the count. -/
def value : UShort := if count then c.len else c.address

/-- The toggle of the address, or of the count. -/
def low : Bool := if count then c.lenL else c.addrL

/-- A read of the address, or of the count. -/
def readReg : ULong × DmaChan := if count then c.inCount else c.inAddr

/-- A write to the address, or to the count. -/
def writeReg (val : ULong) : DmaChan := if count then c.outCount val else c.outAddr val

@[simp] theorem readReg_fst : (c.readReg count).1 = byteOf (c.low count) (c.value count) := by
  cases count <;> rfl

@[simp] theorem readReg_value (b : Bool) : (c.readReg count).2.value b = c.value b := by
  cases count <;> cases b <;> rfl

@[simp] theorem readReg_low (b : Bool) :
    (c.readReg count).2.low b = if b = count then !c.low b else c.low b := by
  cases count <;> cases b <;> rfl

@[simp] theorem writeReg_value (val : ULong) :
    (c.writeReg count val).value count = setByte (c.low count) (c.value count) val := by
  cases count <;> rfl

@[simp] theorem writeReg_low (val : ULong) (b : Bool) :
    (c.writeReg count val).low b = if b = count then !c.low b else c.low b := by
  cases count <;> cases b <;> rfl

end DmaChan

/-! ## The ports of a register -/

/-- An address or a count. -/
structure DmaReg where
  ctrl : Fin 2
  chan : Fin 4
  count : Bool
deriving DecidableEq

/-- A port of register `k` of a controller. The second controller has two for each. -/
def CtrlPort (c : Fin 2) (k : ℕ) (port : UShort) : Prop :=
  if c = 0 then port.toNat = k else port.toNat = 0xc0 + 2 * k ∨ port.toNat = 0xc0 + 2 * k + 1

instance (c : Fin 2) (k : ℕ) (port : UShort) : Decidable (CtrlPort c k port) := by
  unfold CtrlPort
  infer_instance

namespace DmaReg

variable (r : DmaReg)

/-- The register's `case` in the two functions. -/
def index : ℕ := 2 * r.chan + r.count.toNat

/-- A port of the register. -/
def IsPort (port : UShort) : Prop := CtrlPort r.ctrl r.index port

instance (port : UShort) : Decidable (r.IsPort port) := inferInstanceAs (Decidable (CtrlPort ..))

/-- What the register holds. -/
def value (v : Vdma) : UShort := ((v.dmac r.ctrl).chan r.chan).value r.count

/-- The register's toggle. -/
def low (v : Vdma) : Bool := ((v.dmac r.ctrl).chan r.chan).low r.count

theorem index_lt : r.index < 8 := by
  have := r.chan.isLt
  have := r.count.toNat_le
  unfold index
  omega

/-- Every register has a `case` of its own. -/
theorem index_inj {r' : DmaReg} (hctrl : r.ctrl = r'.ctrl) (h : r.index = r'.index) : r = r' := by
  obtain ⟨c, n, b⟩ := r
  obtain ⟨c', n', b'⟩ := r'
  obtain rfl : c = c' := hctrl
  have hb := b.toNat_le
  have hb' := b'.toNat_le
  unfold index at h
  dsimp only at h
  obtain rfl : n = n' := by ext; omega
  obtain rfl : b = b' := by
    have : b.toNat = b'.toNat := by omega
    revert this
    cases b <;> cases b' <;> simp
  rfl

theorem exists_index (c : Fin 2) {k : ℕ} (h : k < 8) : ∃ r : DmaReg, r.ctrl = c ∧ r.index = k := by
  refine ⟨⟨c, ⟨k / 2, by omega⟩, decide (k % 2 = 1)⟩, rfl, ?_⟩
  unfold index
  rcases Nat.mod_two_eq_zero_or_one k with hk | hk <;> simp [hk] <;> omega

/-- No port belongs to two registers. -/
theorem IsPort.unique {r r' : DmaReg} {port : UShort} (h : r.IsPort port) (h' : r'.IsPort port) :
    r = r' := by
  have hlt := r.index_lt
  have hlt' := r'.index_lt
  unfold IsPort CtrlPort at h h'
  split_ifs at h h' with hc hc' hc'
  · exact index_inj r (hc.trans hc'.symm) (by omega)
  · omega
  · omega
  · exact index_inj r (by omega) (by omega)

end DmaReg

/-! ## What an access does -/

namespace DmaCtrl

variable (dma : DmaCtrl) (r : DmaReg)

theorem inReg_index : dma.inReg r.index = dma.inChan r.chan (·.readReg r.count) := by
  obtain ⟨_, n, b⟩ := r
  fin_cases n <;> cases b <;> rfl

theorem outReg_index (val : ULong) :
    dma.outReg r.index val = dma.outChan r.chan (·.writeReg r.count val) := by
  obtain ⟨_, n, b⟩ := r
  fin_cases n <;> cases b <;> rfl

theorem inReg_of_le {k : ℕ} (h : 8 ≤ k) : (dma.inReg k).2 = dma := by
  unfold inReg
  split <;> first | omega | rfl

theorem outReg_chan_of_le {k : ℕ} (h : 8 ≤ k) (val : ULong) :
    (dma.outReg k val).chan = dma.chan := by
  unfold outReg
  split <;> first | omega | rfl

end DmaCtrl

namespace Vdma

variable (v : Vdma) {c : Fin 2} {k : ℕ} {port : UShort}

theorem le_dma0Hi : port ≤ DMA0_HI ↔ port.toNat ≤ 0x0f := BitVec.le_def

theorem dma1Low_le : DMA1_LOW ≤ port ↔ 0xc0 ≤ port.toNat := BitVec.le_def

theorem toNat_reg (h : DMA1_LOW ≤ port) :
    ((port - 0xc0) >>> 1).toNat = (port.toNat - 0xc0) / 2 := by
  have hle := dma1Low_le.mp h
  have hlt := port.isLt
  rw [BitVec.toNat_ushiftRight, BitVec.toNat_sub, Nat.shiftRight_eq_div_pow]
  have hbase : (0xc0 : UShort).toNat = 0xc0 := rfl
  omega

/-- The two functions find the register that a port belongs to. -/
theorem ctrlPort_iff (hk : c = 0 → k < 16) :
    CtrlPort c k port ↔
      (c = 0 ∧ port ≤ DMA0_HI ∧ port.toNat = k) ∨
        (c = 1 ∧ ¬port ≤ DMA0_HI ∧ DMA1_LOW ≤ port ∧ ((port - 0xc0) >>> 1).toNat = k) := by
  unfold CtrlPort
  rw [le_dma0Hi]
  have hc : c = 0 ∨ c = 1 := by omega
  by_cases hle : DMA1_LOW ≤ port
  · have := dma1Low_le.mp hle
    rw [toNat_reg hle]
    rcases hc with rfl | rfl <;>
      simp only [hle, if_true, one_ne_zero, zero_ne_one, if_false, true_and, false_and, false_or,
        or_false] <;> omega
  · have := mt dma1Low_le.mpr hle
    rcases hc with rfl | rfl <;>
      simp only [hle, if_true, one_ne_zero, zero_ne_one, if_false, true_and, false_and, and_false,
        or_false, iff_false] <;> omega

theorem vdmaIn_ctrlPort (h : CtrlPort c k port) (hk : c = 0 → k < 16) :
    v.vdmaIn port = v.inCtrl c k := by
  unfold vdmaIn
  obtain ⟨rfl, hle, rfl⟩ | ⟨rfl, hlow, hle, rfl⟩ := (ctrlPort_iff hk).mp h
  · rw [if_pos hle]
  · rw [if_neg hlow, if_pos hle]

theorem vdmaOut_ctrlPort (h : CtrlPort c k port) (hk : c = 0 → k < 16) (val : ULong) :
    v.vdmaOut port val = v.outCtrl c (·.outReg k val) := by
  unfold vdmaOut
  obtain ⟨rfl, hle, rfl⟩ | ⟨rfl, hlow, hle, rfl⟩ := (ctrlPort_iff hk).mp h
  · rw [if_pos hle]
  · rw [if_neg hlow, if_pos hle]

/-- The channels after a change of one controller that leaves its channels as they are. -/
theorem outCtrl_chan {write : DmaCtrl → DmaCtrl} (h : (write (v.dmac c)).chan = (v.dmac c).chan)
    (c' : Fin 2) : ((v.outCtrl c write).dmac c').chan = (v.dmac c').chan := by
  unfold outCtrl
  by_cases hc : c' = c
  · subst hc
    simpa using h
  · simp [hc]

/-- The other ports of the controllers, the one for the flip-flop among them, do not touch the
channels. -/
theorem vdmaOut_chan (h : CtrlPort c k port) (hk : c = 0 → k < 16) (hle : 8 ≤ k) (val : ULong)
    (c' : Fin 2) : ((v.vdmaOut port val).dmac c').chan = (v.dmac c').chan := by
  rw [vdmaOut_ctrlPort v h hk]
  exact outCtrl_chan v (DmaCtrl.outReg_chan_of_le _ hle val) c'

end Vdma

namespace DmaReg

variable {r r' : DmaReg} {port : UShort} {v : Vdma}

theorem IsPort.vdmaIn (h : r.IsPort port) :
    v.vdmaIn port = ((((v.dmac r.ctrl).chan r.chan).readReg r.count).1,
      v.outCtrl r.ctrl (·.outChan r.chan fun c => (c.readReg r.count).2)) := by
  rw [v.vdmaIn_ctrlPort h (fun _ => by have := r.index_lt; omega), Vdma.inCtrl, DmaCtrl.inReg_index]
  rfl

theorem IsPort.vdmaOut (h : r.IsPort port) (val : ULong) :
    v.vdmaOut port val =
      v.outCtrl r.ctrl (·.outChan r.chan (·.writeReg r.count val)) := by
  rw [v.vdmaOut_ctrlPort h (fun _ => by have := r.index_lt; omega)]
  simp only [DmaCtrl.outReg_index]

/-- A change of one channel, seen from any register. -/
theorem chan_outChan (c : Fin 2) (n : Fin 4) (write : DmaChan → DmaChan) (c' : Fin 2) (n' : Fin 4) :
    ((v.outCtrl c (·.outChan n write)).dmac c').chan n' =
      if c' = c ∧ n' = n then write ((v.dmac c).chan n) else (v.dmac c').chan n' := by
  unfold Vdma.outCtrl DmaCtrl.outChan
  by_cases hc : c' = c
  · subst hc
    by_cases hn : n' = n
    · subst hn
      simp
    · simp [hn]
  · simp [hc]

theorem low_outChan {c : Fin 2} {n : Fin 4} {b : Bool} {write : DmaChan → DmaChan}
    (hwrite : ∀ b', (write ((v.dmac c).chan n)).low b' =
      if b' = b then !((v.dmac c).chan n).low b' else ((v.dmac c).chan n).low b') :
    r.low (v.outCtrl c (·.outChan n write)) =
      if r = ⟨c, n, b⟩ then !r.low v else r.low v := by
  obtain ⟨c', n', b'⟩ := r
  unfold low
  rw [chan_outChan]
  by_cases hcn : c' = c ∧ n' = n
  · obtain ⟨rfl, rfl⟩ := hcn
    simpa using hwrite b'
  · rw [if_neg hcn, if_neg fun h => hcn ⟨congrArg ctrl h, congrArg chan h⟩]

/-- A turn of the toggle of the register that has the port. -/
theorem IsPort.turn (h : r'.IsPort port) :
    (if r = r' then !r.low v else r.low v) = if r.IsPort port then !r.low v else r.low v := by
  by_cases hr : r = r'
  · rw [if_pos hr, if_pos (hr ▸ h)]
  · rw [if_neg hr, if_neg fun hport => hr (hport.unique h)]

/-- The ports of no register: the other ports of a controller, and those of the pages. -/
theorem other_cases (h : ∀ r : DmaReg, ¬r.IsPort port) :
    (∃ c k, CtrlPort c k port ∧ (c = 0 → k < 16) ∧ 8 ≤ k) ∨
      (¬port ≤ DMA0_HI ∧ ¬DMA1_LOW ≤ port) := by
  have hk : ∀ c k, CtrlPort c k port → 8 ≤ k := by
    intro c k hport
    by_contra hlt
    obtain ⟨r, rfl, rfl⟩ := exists_index c (Nat.lt_of_not_le hlt)
    exact h r hport
  by_cases hlow : port ≤ DMA0_HI
  · have hport : CtrlPort 0 port.toNat port := rfl
    exact .inl ⟨0, _, hport, fun _ => Nat.lt_succ_of_le (Vdma.le_dma0Hi.mp hlow), hk _ _ hport⟩
  · by_cases hhigh : DMA1_LOW ≤ port
    · have hport : CtrlPort 1 ((port.toNat - 0xc0) / 2) port :=
        (Vdma.ctrlPort_iff (by simp)).mpr (.inr ⟨rfl, hlow, hhigh, Vdma.toNat_reg hhigh⟩)
      exact .inl ⟨1, _, hport, by simp, hk _ _ hport⟩
    · exact .inr ⟨hlow, hhigh⟩

/-- A read turns the toggle of the register it reads, and no other. -/
theorem low_vdmaIn (port : UShort) :
    r.low (v.vdmaIn port).2 = if r.IsPort port then !r.low v else r.low v := by
  by_cases h : ∃ r', DmaReg.IsPort r' port
  · obtain ⟨r', hr'⟩ := h
    rw [hr'.vdmaIn, ← hr'.turn]
    exact low_outChan fun b => DmaChan.readReg_low _ _ b
  · have hnone := not_exists.mp h
    rw [if_neg (hnone r)]
    obtain ⟨c, k, hport, hk, hle⟩ | ⟨hlow, hhigh⟩ := other_cases hnone
    · rw [v.vdmaIn_ctrlPort hport hk]
      simp only [Vdma.inCtrl, DmaCtrl.inReg_of_le _ hle, Function.update_eq_self]
    · unfold Vdma.vdmaIn
      rw [if_neg hlow, if_neg hhigh]
      split <;> rfl

/-- A write turns the toggle of the register it writes, and no other. -/
theorem low_vdmaOut (port : UShort) (val : ULong) :
    r.low (v.vdmaOut port val) = if r.IsPort port then !r.low v else r.low v := by
  by_cases h : ∃ r', DmaReg.IsPort r' port
  · obtain ⟨r', hr'⟩ := h
    rw [hr'.vdmaOut, ← hr'.turn]
    exact low_outChan fun b => DmaChan.writeReg_low _ _ _ b
  · have hnone := not_exists.mp h
    rw [if_neg (hnone r)]
    obtain ⟨c, k, hport, hk, hle⟩ | ⟨hlow, hhigh⟩ := other_cases hnone
    · unfold low
      rw [v.vdmaOut_chan hport hk hle]
    · unfold Vdma.vdmaOut
      rw [if_neg hlow, if_neg hhigh]
      split
      · -- a page register: its channel's toggles stay
        unfold low DmaCtrl.setPage
        rw [chan_outChan]
        split_ifs with hcn
        · rw [hcn.1, hcn.2]
          rfl
        · rfl
      · rfl

theorem low_apply (a : PortAccess) :
    r.low (a.apply v) = if r.IsPort a.port then !r.low v else r.low v := by
  cases a with
  | read port => exact low_vdmaIn port
  | write port val => exact low_vdmaOut port val

/-- **Toggles.** A register's toggle tells whether its ports were accessed an odd number of
times. -/
theorem low_after (r : DmaReg) (accesses : List PortAccess) :
    r.low (Vdma.after accesses) =
      decide (Odd (accesses.countP fun a => r.IsPort a.port)) := by
  induction accesses using List.reverseRecOn with
  | nil =>
    obtain ⟨c, n, b⟩ := r
    cases b <;> simp [low, Vdma.after, Vdma.created, DmaChan.low]
  | append_singleton accesses a ih =>
    unfold Vdma.after at ih ⊢
    rw [List.foldl_append, List.foldl_cons, List.foldl_nil, low_apply, ih, List.countP_append]
    by_cases h : r.IsPort a.port
    · simp only [h, if_true, List.countP_singleton, decide_true, Nat.odd_add_one, decide_not]
    · simp [h]

/-! ## Round trips -/

theorem IsPort.value_vdmaOut (h : r.IsPort port) (val : ULong) :
    r.value (v.vdmaOut port val) = setByte (r.low v) (r.value v) val := by
  rw [h.vdmaOut, value, chan_outChan, if_pos ⟨rfl, rfl⟩]
  exact DmaChan.writeReg_value _ _ _

theorem IsPort.value_vdmaIn (h : r.IsPort port) : r.value (v.vdmaIn port).2 = r.value v := by
  rw [h.vdmaIn, value, chan_outChan, if_pos ⟨rfl, rfl⟩]
  exact DmaChan.readReg_value _ _ _

theorem IsPort.vdmaIn_fst (h : r.IsPort port) :
    (v.vdmaIn port).1 = byteOf (r.low v) (r.value v) := by
  rw [h.vdmaIn]
  exact DmaChan.readReg_fst _ _

theorem IsPort.chan_vdmaOut (h : r.IsPort port) (val : ULong) {c : Fin 2} {n : Fin 4}
    (hne : ¬(c = r.ctrl ∧ n = r.chan)) :
    ((v.vdmaOut port val).dmac c).chan n = (v.dmac c).chan n := by
  rw [h.vdmaOut, chan_outChan, if_neg hne]

theorem IsPort.chan_vdmaIn (h : r.IsPort port) {c : Fin 2} {n : Fin 4}
    (hne : ¬(c = r.ctrl ∧ n = r.chan)) :
    ((v.vdmaIn port).2.dmac c).chan n = (v.dmac c).chan n := by
  rw [h.vdmaIn, chan_outChan, if_neg hne]

/-- The address, the count and the page of every channel but one are the same. -/
def OthersKept (r : DmaReg) (v v' : Vdma) : Prop :=
  ∀ c n, ¬(c = r.ctrl ∧ n = r.chan) →
    ((v'.dmac c).chan n).address = ((v.dmac c).chan n).address ∧
      ((v'.dmac c).chan n).len = ((v.dmac c).chan n).len ∧
      ((v'.dmac c).chan n).page = ((v.dmac c).chan n).page

/-- After a write to the port for the flip-flop, the low and the high byte of a value that are
written to the register arrive there, and two reads return those that it holds. -/
def RoundTrip (r : DmaReg) (v : Vdma) (value : UShort) : Prop :=
  ∀ clear port val, CtrlPort r.ctrl CLEAR_FLIPFLOP clear → r.IsPort port →
    let cleared := v.vdmaOut clear val
    let written := (cleared.vdmaOut port (lowByte value)).vdmaOut port (highByte value)
    let first := cleared.vdmaIn port
    let second := first.2.vdmaIn port
    r.value written = value ∧
      (first.1 = lowByte (r.value v) ∧ second.1 = highByte (r.value v)) ∧
      OthersKept r v written ∧ OthersKept r v second.2

/-- What the two writes and the two reads do, whatever the port for the flip-flop was given. -/
theorem roundTrip_step {clear : UShort} (value : UShort) (val : ULong)
    (hclear : CtrlPort r.ctrl CLEAR_FLIPFLOP clear) (hport : r.IsPort port) :
    let cleared := v.vdmaOut clear val
    let written := (cleared.vdmaOut port (lowByte value)).vdmaOut port (highByte value)
    let first := cleared.vdmaIn port
    let second := first.2.vdmaIn port
    r.value written =
        setByte (!r.low v) (setByte (r.low v) (r.value v) (lowByte value)) (highByte value) ∧
      (first.1 = byteOf (r.low v) (r.value v) ∧ second.1 = byteOf (!r.low v) (r.value v)) ∧
      OthersKept r v written ∧ OthersKept r v second.2 := by
  intro cleared written first second
  have hcleared : ∀ c, (cleared.dmac c).chan = (v.dmac c).chan :=
    v.vdmaOut_chan hclear (fun _ => by decide) (by decide) val
  have hlow : r.low cleared = r.low v := by rw [low, low, hcleared]
  have hvalue : r.value cleared = r.value v := by rw [DmaReg.value, DmaReg.value, hcleared]
  have hturn : r.low (cleared.vdmaOut port (lowByte value)) = !r.low v := by
    rw [low_vdmaOut, if_pos hport, hlow]
  have hturn' : r.low first.2 = !r.low v := by
    rw [low_vdmaIn, if_pos hport, hlow]
  refine ⟨?_, ⟨?_, ?_⟩, ?_, ?_⟩
  · rw [hport.value_vdmaOut, hturn, hport.value_vdmaOut, hlow, hvalue]
  · rw [hport.vdmaIn_fst, hlow, hvalue]
  · rw [hport.vdmaIn_fst, hturn', hport.value_vdmaIn, hvalue]
  · intro c n hne
    rw [hport.chan_vdmaOut _ hne, hport.chan_vdmaOut _ hne, hcleared]
    exact ⟨rfl, rfl, rfl⟩
  · intro c n hne
    rw [hport.chan_vdmaIn hne, hport.chan_vdmaIn hne, hcleared]
    exact ⟨rfl, rfl, rfl⟩

/-- Every register has a port, and every controller one for its flip-flop. -/
theorem exists_port (c : Fin 2) {k : ℕ} (hk : k < 16) : ∃ port, CtrlPort c k port := by
  have hc : c = 0 ∨ c = 1 := by omega
  rcases hc with rfl | rfl
  · exact ⟨BitVec.ofNat 16 k, by simp [CtrlPort]; omega⟩
  · exact ⟨BitVec.ofNat 16 (0xc0 + 2 * k), by simp [CtrlPort]; omega⟩

theorem roundTrip_iff (value : UShort) :
    r.RoundTrip v value ↔ r.low v = true ∨ SameBytes value ∧ SameBytes (r.value v) := by
  constructor
  · intro h
    obtain ⟨clear, hclear⟩ := exists_port r.ctrl (show CLEAR_FLIPFLOP < 16 by decide)
    obtain ⟨port, hport⟩ := exists_port r.ctrl (show r.index < 16 by have := r.index_lt; omega)
    obtain ⟨hwritten, hread, -⟩ := h clear port 0 hclear hport
    obtain ⟨hstep, hsteps, -⟩ := roundTrip_step (v := v) value 0 hclear hport
    rw [hstep] at hwritten
    rw [hsteps.1] at hread
    cases hlow : r.low v with
    | true => exact .inl rfl
    | false =>
      rw [hlow] at hwritten hread
      refine .inr ⟨(setByte_false_true _ _).mp hwritten, ?_⟩
      rw [byteOf_false] at hread
      exact (lowByte_eq_highByte _).mp hread.1.symm
  · intro h clear port val hclear hport
    obtain ⟨hwritten, ⟨hfirst, hsecond⟩, hothers⟩ :=
      roundTrip_step (v := v) value val hclear hport
    dsimp only
    rw [hwritten, hfirst, hsecond]
    refine ⟨?_, ?_, hothers⟩
    · cases hlow : r.low v with
      | true => exact setByte_true_false _ _
      | false => exact (setByte_false_true _ _).mpr (h.resolve_left (by simp [hlow])).1
    · cases hlow : r.low v with
      | true => exact ⟨byteOf_true _, byteOf_false _⟩
      | false =>
        have hsame := (lowByte_eq_highByte _).mpr (h.resolve_left (by simp [hlow])).2
        exact ⟨(byteOf_false _).trans hsame.symm, (byteOf_true _).trans hsame⟩

/-- **Round trips.** In every state that port accesses reach, a round trip through a register
succeeds just when its ports were accessed an odd number of times before, or when neither the
value nor the register distinguishes the two bytes. -/
theorem roundTrip_after (accesses : List PortAccess) (r : DmaReg) (value : UShort) :
    r.RoundTrip (Vdma.after accesses) value ↔
      Odd (accesses.countP fun a => r.IsPort a.port) ∨
        SameBytes value ∧ SameBytes (r.value (Vdma.after accesses)) := by
  rw [roundTrip_iff, low_after, decide_eq_true_iff]

/-- The first word that a guest writes to the address of channel 0 is stored with its bytes
swapped. -/
theorem swapped_at_first :
    ¬∀ (accesses : List PortAccess) (r : DmaReg) (value : UShort),
      r.RoundTrip (Vdma.after accesses) value := by
  intro h
  have hstored := (h [] ⟨0, 0, false⟩ 0x1234 0x0c 0x00 0 rfl rfl).1
  revert hstored
  decide

end DmaReg

end Vmm386.VdmaModule
