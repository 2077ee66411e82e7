import Vmm386.Vpic.Pic

/-!
# Requests

What each operation does to the requests of the two controllers, line by line. As long as no
requested line is masked, and the master's line for the slave is requested just when a line of
the slave is, no request is lost and none is made up.
-/

namespace Vmm386.Vpic

/-! ## Lines -/

section Lines

variable {i k n junk : ℕ} {w : UChar}

theorem getLsbD_bit (hn : n < 8) : (bit n).getLsbD i = decide (i = n) := by
  rw [bit, BitVec.getLsbD_setWidth, BitVec.getLsbD_shiftLeft, Nat.mod_eq_of_lt (by omega)]
  by_cases hi : i = n
  · subst hi
    simp [hn]
    omega
  · by_cases hlt : i < n
    · simp [hlt, hi]
    · have hne : i - n ≠ 0 := by omega
      simp [hi, hne]

theorem bit_inj (hn : n < 8) (hk : k < 8) (h : bit n = bit k) : n = k := by
  have hbit : (bit n).getLsbD n = (bit k).getLsbD n := by rw [h]
  rw [getLsbD_bit hn, getLsbD_bit hk] at hbit
  simpa using hbit

theorem eq_zero_iff : w = 0 ↔ ∀ i, w.getLsbD i = false := by
  constructor
  · rintro rfl i
    exact BitVec.getLsbD_zero
  · intro h
    apply BitVec.eq_of_getLsbD_eq
    intro i _
    rw [h i]
    exact BitVec.getLsbD_zero.symm

theorem ne_zero_iff : w ≠ 0 ↔ ∃ i, w.getLsbD i = true := by
  rw [ne_eq, eq_zero_iff, not_forall]
  exact exists_congr fun i => Bool.not_eq_false _ ▸ Iff.rfl

theorem lt_of_getLsbD (h : w.getLsbD i = true) : i < 8 := BitVec.lt_of_getLsbD h

theorem getLsbD_bsf (h : w ≠ 0) : w.getLsbD (bsf junk w) = true := by
  rw [bsf, if_neg h]
  exact BitVec.getLsbD_true_ctz_of_ne_zero h

theorem bsf_congr (h : w ≠ 0) (junk junk' : ℕ) : bsf junk' w = bsf junk w := by
  rw [bsf, bsf, if_neg h, if_neg h]

theorem bsf_lt (h : w ≠ 0) : bsf junk w < 8 := lt_of_getLsbD (getLsbD_bsf h)

/-- No line below is requested. -/
theorem bsf_le (h : w ≠ 0) (hi : w.getLsbD i = true) : bsf junk w ≤ i := by
  rw [bsf, if_neg h]
  by_contra hlt
  rw [BitVec.getLsbD_false_of_lt_ctz (Nat.lt_of_not_le hlt)] at hi
  exact Bool.false_ne_true hi

end Lines

namespace Pic

variable {isSlave : Bool} {p : Pic isSlave} {i n : ℕ} {val : ULong}

theorem request_irr (hn : n < 8) : (p.request n).irr.getLsbD i =
    ((p.irr.getLsbD i || decide (i = n)) && !p.mask.getLsbD i) := by
  rw [request, BitVec.getLsbD_and, BitVec.getLsbD_or, BitVec.getLsbD_not, getLsbD_bit hn]
  by_cases hi : i < 8
  · rw [decide_eq_true hi, Bool.true_and]
  · have hirr : p.irr.getLsbD i = false := BitVec.getLsbD_of_ge _ _ (by omega)
    have hne : i ≠ n := by omega
    rw [hirr, decide_eq_false hne]
    rfl

theorem request_self (hn : n < 8) : (p.request n).irr.getLsbD n = !p.mask.getLsbD n := by
  rw [request_irr hn, decide_eq_true rfl, Bool.or_true, Bool.true_and]

theorem request_of_ne (hn : n < 8) (hne : i ≠ n) :
    (p.request n).irr.getLsbD i = (p.irr.getLsbD i && !p.mask.getLsbD i) := by
  rw [request_irr hn, decide_eq_false hne, Bool.or_false]

/-- No masked line is requested. -/
theorem request_unmasked (hn : n < 8) (h : (p.request n).irr.getLsbD i = true) :
    p.mask.getLsbD i = false := by
  rw [request_irr hn, Bool.and_eq_true, Bool.not_eq_true'] at h
  exact h.2

theorem request_keeps (hn : n < 8) (hm : ∀ i, p.irr.getLsbD i = true → p.mask.getLsbD i = false)
    (h : p.irr.getLsbD i = true) : (p.request n).irr.getLsbD i = true := by
  rw [request_irr hn, h, hm i h]
  rfl

theorem serve_irr (hn : n < 8) :
    (p.serve n).irr.getLsbD i = (p.irr.getLsbD i && !decide (i = n)) := by
  rw [serve, BitVec.getLsbD_and, BitVec.getLsbD_not, getLsbD_bit hn]
  by_cases hi : i < 8
  · rw [decide_eq_true hi, Bool.true_and]
  · rw [BitVec.getLsbD_of_ge _ _ (by omega), Bool.false_and, Bool.false_and]

theorem outCommand_same (val : ULong) : (p.outCommand val).2.irr = p.irr ∧
    (p.outCommand val).2.mask = p.mask ∧ (p.outCommand val).2.link = p.link := by
  unfold outCommand
  split_ifs <;> exact ⟨rfl, rfl, rfl⟩

theorem outData_irr : (p.outData val).irr = p.irr := by
  unfold outData
  split <;> rfl

/-- A write to 0x21 or 0xA1 changes the mask, or the link, or neither. -/
theorem outData_cases (val : ULong) : (p.state = .normal ∧ (p.outData val).mask = val.setWidth 8 ∧
      (p.outData val).link = p.link) ∨
    (p.state = .waitICW3 ∧ (p.outData val).mask = p.mask) ∨
    ((p.outData val).mask = p.mask ∧ (p.outData val).link = p.link) := by
  unfold outData
  split
  · rename_i h
    exact .inl ⟨h, rfl, rfl⟩
  · exact .inr (.inr ⟨rfl, rfl⟩)
  · rename_i h
    exact .inr (.inl ⟨h, rfl⟩)
  · exact .inr (.inr ⟨rfl, rfl⟩)
  · exact .inr (.inr ⟨rfl, rfl⟩)

theorem outData_link (p : Pic true) (h : p.link.toNat < 8) : (p.outData val).link.toNat < 8 := by
  unfold outData
  split
  · exact h
  · exact h
  · show ((val &&& 7).setWidth 8).toNat < 8
    rw [BitVec.toNat_setWidth, BitVec.toNat_and]
    exact lt_of_le_of_lt (Nat.mod_le _ _) (lt_of_le_of_lt Nat.and_le_right (by decide))
  · exact h
  · exact h

end Pic

/-! ## The two controllers -/

/-- No requested line is masked, and the master's line for the slave is requested just when a
line of the slave is. -/
structure Kept (p : PicPair) : Prop where
  link : p.slave.link.toNat < 8
  master : ∀ i, p.master.irr.getLsbD i = true → p.master.mask.getLsbD i = false
  slave : ∀ i, p.slave.irr.getLsbD i = true → p.slave.mask.getLsbD i = false
  cascade : ∀ k, k < 8 → p.master.link = bit k →
    (p.master.irr.getLsbD k = true ↔ p.slave.irr ≠ 0)
  linked : p.slave.irr ≠ 0 → p.master.link = bit p.slave.link.toNat

/-- Nothing is requested. -/
def Idle (p : PicPair) : Prop := p.master.irr = 0 ∧ p.slave.irr = 0

/-- A write to 0x21 or 0xA1 masks no requested line, and a new link comes while nothing is
requested. -/
def DataOk (p : PicPair) {isSlave : Bool} (pic : Pic isSlave) (val : ULong) : Prop :=
  (pic.state = .normal →
    ∀ i, pic.irr.getLsbD i = true → (val.setWidth 8 : UChar).getLsbD i = false) ∧
  (pic.state = .waitICW3 → (pic.outData val).link = pic.link ∨ Idle p)

/-- A line of the master is not the slave's, or is masked. A line of the slave, or another line
of it that is requested, can be passed on; where there is none nothing is passed on. -/
def RaiseOk (p : PicPair) (irq : UChar) : Prop :=
  if 8 ≤ irq then
    if p.slave.mask.getLsbD (irq - 8).toNat = true ∧ p.slave.irr = 0 then
      p.master.mask.getLsbD p.slave.link.toNat = true
    else p.master.link = bit p.slave.link.toNat ∧
      p.master.mask.getLsbD p.slave.link.toNat = false
  else p.master.link ≠ bit irq.toNat ∨ p.master.mask.getLsbD irq.toNat = true

/-- What a step must not do to the requests. -/
def Keeps (p : PicPair) : PicOp → Prop
  | .simulateIrq irq => RaiseOk p irq
  | .vpicOut port size val => size = 1 →
    (port = 0x21 → DataOk p p.master val) ∧ (port = 0xa1 → DataOk p p.slave val)
  | .setMask set mask => set = true →
    (∀ i, p.master.irr.getLsbD i = true → (mask.setWidth 8 : UChar).getLsbD i = false) ∧
    (∀ i, p.slave.irr.getLsbD i = true → ((mask >>> 8).setWidth 8 : UChar).getLsbD i = false)
  | _ => True

namespace Kept

variable {p p' : PicPair} {i n : ℕ} {irq : UChar} {val : ULong}

theorem pending_low (hn : n < 8) :
    p.pending n = (p.master.irr.getLsbD n && decide (p.master.link ≠ bit n)) := if_pos hn

theorem pending_high (hn : ¬n < 8) : p.pending n = p.slave.irr.getLsbD (n - 8) := if_neg hn

/-- The masks change, and where something is requested the links do not. -/
theorem congr (h : Kept p) (hmaster : p'.master.irr = p.master.irr)
    (hslave : p'.slave.irr = p.slave.irr) (hlt : p'.slave.link.toNat < 8)
    (hlink : p'.master.link = p.master.link ∧ p'.slave.link = p.slave.link ∨ Idle p)
    (hmask : ∀ i, p.master.irr.getLsbD i = true → p'.master.mask.getLsbD i = false)
    (hmask' : ∀ i, p.slave.irr.getLsbD i = true → p'.slave.mask.getLsbD i = false) :
    Kept p' ∧ ∀ n, p'.pending n = p.pending n := by
  refine ⟨⟨hlt, ?_, ?_, ?_, ?_⟩, fun n => ?_⟩
  · rw [hmaster]
    exact hmask
  · rw [hslave]
    exact hmask'
  · intro k hk heq
    rw [hmaster, hslave]
    rcases hlink with ⟨hlink, -⟩ | ⟨hidle, hidle'⟩
    · exact h.cascade k hk (hlink ▸ heq)
    · rw [eq_zero_iff.mp hidle k]
      exact iff_of_false Bool.false_ne_true fun hc => hc hidle'
  · intro hne
    rw [hslave] at hne
    rcases hlink with ⟨hlink, hlink'⟩ | ⟨-, hidle⟩
    · rw [hlink, hlink']
      exact h.linked hne
    · exact absurd hidle hne
  · by_cases hn : n < 8
    · rw [pending_low hn, pending_low hn, hmaster]
      rcases hlink with ⟨hlink, -⟩ | ⟨hidle, -⟩
      · rw [hlink]
      · rw [eq_zero_iff.mp hidle n, Bool.false_and, Bool.false_and]
    · rw [pending_high hn, pending_high hn, hslave]

theorem outData {isSlave : Bool} {pic : Pic isSlave}
    (hmask : ∀ i, pic.irr.getLsbD i = true → pic.mask.getLsbD i = false)
    (hok : DataOk p pic val) :
    ((pic.outData val).link = pic.link ∨ Idle p) ∧
      ∀ i, pic.irr.getLsbD i = true → (pic.outData val).mask.getLsbD i = false := by
  obtain ⟨hnormal, hlink⟩ := hok
  rcases pic.outData_cases val with ⟨hst, hm, hl⟩ | ⟨hst, hm⟩ | ⟨hm, hl⟩
  · exact ⟨.inl hl, hm ▸ hnormal hst⟩
  · exact ⟨hlink hst, hm ▸ hmask⟩
  · exact ⟨.inl hl, hm ▸ hmask⟩

/-- The line of the slave in the master is not masked where it is used. -/
theorem passed (h : Kept p) (hne : p.slave.irr ≠ 0) :
    p.master.irr.getLsbD p.slave.link.toNat = true ∧
      p.master.mask.getLsbD p.slave.link.toNat = false := by
  have hirr := (h.cascade _ h.link (h.linked hne)).mpr hne
  exact ⟨hirr, h.master _ hirr⟩

/-- A line of the master is raised. -/
theorem request (h : Kept p) (hn : n < 8)
    (hok : p.master.link ≠ bit n ∨ p.master.mask.getLsbD n = true) :
    Kept { p with master := p.master.request n } ∧
      ∀ k, p.pending k = true → PicPair.pending { p with master := p.master.request n } k = true := by
  constructor
  · refine ⟨h.link, fun i => Pic.request_unmasked hn, h.slave, ?_, h.linked⟩
    intro k hk hlink
    change p.master.link = bit k at hlink
    rw [← h.cascade k hk hlink]
    show (p.master.request n).irr.getLsbD k = true ↔ _
    by_cases hkn : k = n
    · subst hkn
      have hm := hok.resolve_left fun hc => hc hlink
      rw [Pic.request_self hn, hm]
      refine iff_of_false Bool.false_ne_true fun hc => ?_
      rw [h.master k hc] at hm
      exact Bool.false_ne_true hm
    · rw [Pic.request_of_ne hn hkn, Bool.and_eq_true, Bool.not_eq_true']
      exact and_iff_left_of_imp (h.master k)
  · intro k hk
    by_cases hk8 : k < 8
    · rw [pending_low hk8, Bool.and_eq_true] at hk ⊢
      exact ⟨Pic.request_keeps hn h.master hk.1, hk.2⟩
    · rw [pending_high hk8] at hk ⊢
      exact hk

/-- A line of the slave is raised that, or another one of which, is requested then. -/
theorem request_slave (h : Kept p) (hn : n < 8)
    (hline : ¬(p.slave.mask.getLsbD n = true ∧ p.slave.irr = 0))
    (hlink : p.master.link = bit p.slave.link.toNat)
    (hmask : p.master.mask.getLsbD p.slave.link.toNat = false) :
    Kept ⟨p.master.request p.slave.link.toNat, p.slave.request n⟩ := by
  have hne : (p.slave.request n).irr ≠ 0 := by
    rw [ne_zero_iff]
    cases hm : p.slave.mask.getLsbD n with
    | false => exact ⟨n, by rw [Pic.request_self hn, hm]; rfl⟩
    | true =>
      obtain ⟨i, hi⟩ := ne_zero_iff.mp fun hc => hline ⟨hm, hc⟩
      exact ⟨i, Pic.request_keeps hn h.slave hi⟩
  refine ⟨h.link, fun i => Pic.request_unmasked h.link, fun i => Pic.request_unmasked hn, ?_,
    fun _ => hlink⟩
  intro k hk hk'
  have heq : k = p.slave.link.toNat := bit_inj hk h.link (hk'.symm.trans hlink)
  refine iff_of_true ?_ hne
  show (p.master.request p.slave.link.toNat).irr.getLsbD k = true
  rw [heq, Pic.request_self h.link, hmask]
  rfl

/-- A line of the slave is raised, and nothing comes of it. -/
theorem request_masked (h : Kept p) (hn : n < 8) (hline : p.slave.mask.getLsbD n = true)
    (hzero : p.slave.irr = 0) (hmask : p.master.mask.getLsbD p.slave.link.toNat = true) :
    Kept ⟨p.master.request p.slave.link.toNat, p.slave.request n⟩ := by
  have hnone : (p.slave.request n).irr = 0 := by
    rw [eq_zero_iff]
    intro i
    by_cases hin : i = n
    · rw [hin, Pic.request_self hn, hline]
      rfl
    · rw [Pic.request_of_ne hn hin, eq_zero_iff.mp hzero i, Bool.false_and]
  refine ⟨h.link, fun i => Pic.request_unmasked h.link, fun i => Pic.request_unmasked hn, ?_,
    fun hc => absurd hnone hc⟩
  intro k hk hk'
  refine iff_of_false ?_ (not_not.mpr hnone)
  show ¬(p.master.request p.slave.link.toNat).irr.getLsbD k = true
  by_cases hkl : k = p.slave.link.toNat
  · rw [hkl, Pic.request_self h.link, hmask]
    exact Bool.false_ne_true
  · rw [Pic.request_of_ne h.link hkl, Bool.and_eq_true, h.cascade k hk hk']
    exact fun hc => hc.1 hzero

/-- Every request can reach the machine. -/
theorem irr_ne_zero (h : Kept p) (hn : p.pending n = true) :
    p.master.irr ≠ 0 := by
  by_cases hn8 : n < 8
  · rw [pending_low hn8, Bool.and_eq_true] at hn
    exact ne_zero_iff.mpr ⟨n, hn.1⟩
  · rw [pending_high hn8] at hn
    exact ne_zero_iff.mpr ⟨_, (h.passed (ne_zero_iff.mpr ⟨_, hn⟩)).1⟩

theorem toNat_sub_eight (hle : 8 ≤ irq) : (irq - 8).toNat = irq.toNat - 8 := by
  have hle : 8 ≤ irq.toNat := hle
  have hlt := irq.isLt
  rw [BitVec.toNat_sub]
  show (2 ^ 8 - 8 + irq.toNat) % 2 ^ 8 = _
  omega

/-- `simulate_irq`: nothing that was requested is lost. -/
theorem raise (h : Kept p) (hirq : irq < 16) (hok : RaiseOk p irq) :
    Kept (p.raise irq) ∧ ∀ n, p.pending n = true → (p.raise irq).pending n = true := by
  have hirq : irq.toNat < 16 := hirq
  unfold RaiseOk at hok
  unfold PicPair.raise
  by_cases hle : 8 ≤ irq
  · rw [if_pos hle] at hok ⊢
    have hn : (irq - 8).toNat < 8 := by
      rw [toNat_sub_eight hle]
      omega
    generalize (irq - 8).toNat = n at *
    refine ⟨?_, fun k hk => ?_⟩
    · split at hok
      · rename_i hm
        exact h.request_masked hn hm.1 hm.2 hok
      · rename_i hm
        exact h.request_slave hn hm hok.1 hok.2
    · by_cases hk8 : k < 8
      · rw [pending_low hk8, Bool.and_eq_true] at hk ⊢
        exact ⟨Pic.request_keeps h.link h.master hk.1, hk.2⟩
      · rw [pending_high hk8] at hk ⊢
        exact Pic.request_keeps hn h.slave hk
  · rw [if_neg hle] at hok ⊢
    exact h.request (Nat.lt_of_not_le hle) hok

/-- A line of the master goes into service that is not the slave's. -/
theorem serve (h : Kept p) (hn : n < 8) (hirr : p.master.irr.getLsbD n = true)
    (hlink : p.master.link ≠ bit n) :
    Kept { p with master := p.master.serve n } ∧ p.pending n = true ∧
      ∀ k, PicPair.pending { p with master := p.master.serve n } k =
        (p.pending k && !decide (k = n)) := by
  refine ⟨⟨h.link, ?_, h.slave, ?_, h.linked⟩, ?_, ?_⟩
  · intro i hi
    change (p.master.serve n).irr.getLsbD i = true at hi
    rw [Pic.serve_irr hn, Bool.and_eq_true] at hi
    exact h.master i hi.1
  · intro k hk hk'
    have hkn : k ≠ n := fun hc => hlink (hc ▸ hk')
    rw [← h.cascade k hk hk']
    show (p.master.serve n).irr.getLsbD k = true ↔ _
    rw [Pic.serve_irr hn, decide_eq_false hkn, Bool.not_false, Bool.and_true]
  · rw [pending_low hn, hirr, decide_eq_true hlink]
    rfl
  · intro k
    by_cases hk8 : k < 8
    · rw [pending_low hk8, pending_low hk8]
      show ((p.master.serve n).irr.getLsbD k && _) = _
      rw [Pic.serve_irr hn, Bool.and_right_comm]
      rfl
    · rw [pending_high hk8, pending_high hk8, decide_eq_false (by omega), Bool.not_false,
        Bool.and_true]

/-- A line of the slave goes into service, through the line `n` of the master. -/
theorem serve_slave (h : Kept p) (hn : n < 8) (hlink : p.master.link = bit n) {k : ℕ}
    (hk : k < 8) (hirr : p.slave.irr.getLsbD k = true) :
    Kept
        { slave := p.slave.serve k
          master := if (p.slave.serve k).irr ≠ 0 then
            (p.master.serve n).request p.slave.link.toNat else p.master.serve n } ∧
      p.pending (8 + k) = true ∧
      ∀ i, PicPair.pending
        { slave := p.slave.serve k
          master := if (p.slave.serve k).irr ≠ 0 then
            (p.master.serve n).request p.slave.link.toNat else p.master.serve n } i =
        (p.pending i && !decide (i = 8 + k)) := by
  have hne : p.slave.irr ≠ 0 := ne_zero_iff.mpr ⟨k, hirr⟩
  have hln : p.slave.link.toNat = n := bit_inj h.link hn ((h.linked hne).symm.trans hlink)
  have hm := (h.passed hne).2
  rw [hln] at hm ⊢
  generalize hmaster : (if (p.slave.serve k).irr ≠ 0 then (p.master.serve n).request n
    else p.master.serve n) = master
  have hsame : master.link = p.master.link ∧ master.mask = p.master.mask := by
    rw [← hmaster]
    split <;> exact ⟨rfl, rfl⟩
  -- the line of the slave stays requested as long as one of its lines is
  have hline : master.irr.getLsbD n = true ↔ (p.slave.serve k).irr ≠ 0 := by
    rw [← hmaster]
    split
    · rename_i hc
      refine iff_of_true ?_ hc
      rw [Pic.request_self hn]
      show (!p.master.mask.getLsbD n) = true
      rw [hm]
      rfl
    · rename_i hc
      refine iff_of_false ?_ hc
      rw [Pic.serve_irr hn, decide_eq_true rfl]
      simp
  have hother : ∀ i, i ≠ n → master.irr.getLsbD i = p.master.irr.getLsbD i := by
    intro i hi
    have hserve : (p.master.serve n).irr.getLsbD i = p.master.irr.getLsbD i := by
      rw [Pic.serve_irr hn, decide_eq_false hi, Bool.not_false, Bool.and_true]
    rw [← hmaster]
    split
    · rw [Pic.request_of_ne hn hi, hserve]
      cases hirr : p.master.irr.getLsbD i with
      | false => rfl
      | true =>
        show (!p.master.mask.getLsbD i) = true
        rw [h.master i hirr]
        rfl
    · exact hserve
  refine ⟨⟨h.link, ?_, ?_, ?_, ?_⟩, ?_, ?_⟩
  · intro i hi
    rw [hsame.2]
    by_cases hin : i = n
    · rw [hin]
      exact hm
    · rw [hother i hin] at hi
      exact h.master i hi
  · intro i hi
    change (p.slave.serve k).irr.getLsbD i = true at hi
    rw [Pic.serve_irr hk, Bool.and_eq_true] at hi
    exact h.slave i hi.1
  · intro j hj hj'
    have hjn : j = n := bit_inj hj hn (hj'.symm.trans (hsame.1.trans hlink))
    rw [hjn]
    exact hline
  · intro _
    rw [hsame.1]
    exact h.linked hne
  · rw [pending_high (by omega), Nat.add_sub_cancel_left]
    exact hirr
  · intro i
    by_cases hi8 : i < 8
    · rw [pending_low hi8, pending_low hi8, decide_eq_false (by omega : i ≠ 8 + k), Bool.not_false,
        Bool.and_true, hsame.1]
      by_cases hin : i = n
      · rw [hin, hlink, decide_eq_false (not_not.mpr rfl), Bool.and_false, Bool.and_false]
      · rw [hother i hin]
    · rw [pending_high hi8, pending_high hi8]
      show (p.slave.serve k).irr.getLsbD (i - 8) = _
      rw [Pic.serve_irr hk]
      congr 2
      exact decide_eq_decide.mpr (by omega)

/-- `vpic_return_hook` delivers what was requested, and nothing else is lost. -/
theorem deliver (h : Kept p) (hne : p.master.irr ≠ 0) (junk : ℕ) :
    Kept (p.deliver junk).2 ∧ p.pending (p.deliver junk).1.1 = true ∧
      ∀ k, (p.deliver junk).2.pending k =
        (p.pending k && !decide (k = (p.deliver junk).1.1)) := by
  have hlt : bsf junk p.master.irr < 8 := bsf_lt hne
  have hirr : p.master.irr.getLsbD (bsf junk p.master.irr) = true := getLsbD_bsf hne
  unfold PicPair.deliver
  by_cases hlink : p.master.link = bit (bsf junk p.master.irr)
  · have hslave : p.slave.irr ≠ 0 := (h.cascade _ hlt hlink).mp hirr
    have hserve := h.serve_slave hlt hlink (bsf_lt hslave : bsf junk p.slave.irr < 8)
      (getLsbD_bsf hslave)
    have hif : (p.master.serve (bsf junk p.master.irr)).link = bit (bsf junk p.master.irr) := hlink
    simp only [if_pos hif]
    exact hserve
  · have hif : ¬(p.master.serve (bsf junk p.master.irr)).link = bit (bsf junk p.master.irr) := hlink
    simp only [if_neg hif]
    exact h.serve hlt hirr hlink

end Kept

end Vmm386.Vpic
