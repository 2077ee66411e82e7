import Vmm386.Lib.Bits
import Vmm386.Misc.SetupDma

/-!
# What `setup_dma` programs

The channel transfers the buffer unless it is a word channel and the buffer begins in an odd page
or has more bytes than the sixteen bits of `Len` can say (`programmed_iff`).
-/

namespace Vmm386.SetupDma

open Dma8237

variable {p : Pair} {info : DmaBuf} {mode : UChar}

/-- The offset that is written. -/
def DmaBuf.writtenOffset (info : DmaBuf) : UShort :=
  if info.chan < 4 then info.offset else info.offset >>> 1

def DmaBuf.writtenLen (info : DmaBuf) : UShort :=
  if info.chan < 4 then info.len else info.len >>> 1

/-- The registers that are written between the masking and the unmasking of the channel. -/
def programming (info : DmaBuf) (mode : UChar) : List (UChar × Reg) :=
  let n := info.chan.toNat
  let c := wordChan n
  [
    (0, .clear c),
    ((info.chan &&& 3) ||| mode, .mode c),
    (info.writtenOffset.truncate 8, .address n),
    ((info.writtenOffset >>> 8).truncate 8, .address n),
    (info.writtenLen.truncate 8, .count n),
    ((info.writtenLen >>> 8).truncate 8, .count n),
    (info.page, .page n)
  ]

/-- The value that masks a channel. -/
def maskValue (chan : UChar) : UChar := if chan < 4 then chan ||| 4 else chan

theorem decode_dmaPort : ∀ chan : UChar, chan < 8 →
    decode (dmaPort chan).address.toNat = some (.address chan.toNat) ∧
      decode (dmaPort chan).len.toNat = some (.count chan.toNat) ∧
      decode (dmaPort chan).page.toNat = some (.page chan.toNat) :=
  Bits.forall_lt (k := 8) (by decide)

theorem wordChan_toNat (chan : UChar) : wordChan chan.toNat = decide ¬chan < 4 :=
  decide_eq_decide.mpr Nat.not_lt.symm

theorem and_three : ∀ chan : UChar, chan < 4 → chan &&& 3 = chan :=
  Bits.forall_lt (k := 4) (by decide)

/-- The registers that are written. -/
theorem setupDma_regs (hchan : info.chan < 8) :
    List.Forall₂ (fun w r => w.1 = r.1 ∧ decode w.2.toNat = some r.2) (setupDma info mode)
      ((maskValue info.chan, .mask (wordChan info.chan.toNat)) ::
        (programming info mode ++ [(info.chan &&& 3, .mask (wordChan info.chan.toNat))])) := by
  obtain ⟨haddress, hlen, hpage⟩ := decode_dmaPort info.chan hchan
  by_cases h4 : info.chan < 4
  · have hword : wordChan info.chan.toNat = false :=
      (wordChan_toNat _).trans (decide_eq_false (not_not_intro h4))
    simp only [setupDma, programming, maskValue, hword, and_three info.chan h4, if_pos h4,
      DmaBuf.writtenOffset, DmaBuf.writtenLen, List.cons_append, List.nil_append]
    exact .cons ⟨rfl, rfl⟩ (.cons ⟨rfl, rfl⟩ (.cons ⟨rfl, rfl⟩ (.cons ⟨rfl, haddress⟩
      (.cons ⟨rfl, haddress⟩ (.cons ⟨rfl, hlen⟩ (.cons ⟨rfl, hlen⟩ (.cons ⟨rfl, hpage⟩
        (.cons ⟨rfl, rfl⟩ .nil))))))))
  · have hword : wordChan info.chan.toNat = true :=
      (wordChan_toNat _).trans (decide_eq_true h4)
    have hmask : decode 0xd4 = some (.mask true) := by decide
    have hclear : decode 0xd8 = some (.clear true) := by decide
    have hmode : decode 0xd6 = some (.mode true) := by decide
    simp only [setupDma, programming, maskValue, hword, if_neg h4,
      DmaBuf.writtenOffset, DmaBuf.writtenLen, List.cons_append, List.nil_append]
    exact .cons ⟨rfl, hmask⟩ (.cons ⟨rfl, hclear⟩ (.cons ⟨rfl, hmode⟩ (.cons ⟨rfl, haddress⟩
      (.cons ⟨rfl, haddress⟩ (.cons ⟨rfl, hlen⟩ (.cons ⟨rfl, hlen⟩ (.cons ⟨rfl, hpage⟩
        (.cons ⟨rfl, hmask⟩ .nil))))))))

/-! ## The channel -/

/-- The values for the mask and mode registers select the channel. -/
theorem selected_chan : ∀ chan : UChar, chan < 8 →
    Pair.selected (wordChan chan.toNat) (maskValue chan) = chan.toNat ∧
      (maskValue chan).getLsbD 2 = true ∧
      Pair.selected (wordChan chan.toNat) (chan &&& 3) = chan.toNat ∧
      (chan &&& 3).getLsbD 2 = false :=
  Bits.forall_lt (k := 8) (by decide)

theorem selected_mode (hmode : mode = DMA_READ ∨ mode = DMA_WRITE) : ∀ chan : UChar, chan < 8 →
    Pair.selected (wordChan chan.toNat) ((chan &&& 3) ||| mode) = chan.toNat ∧
      ((chan &&& 3) ||| mode) &&& 0xfc = mode := by
  rcases hmode with rfl | rfl
  · exact Bits.forall_lt (k := 8) (by decide)
  · exact Bits.forall_lt (k := 8) (by decide)

/-- The channel when it is programmed. -/
theorem writes_programming (hchan : info.chan < 8) (hmode : mode = DMA_READ ∨ mode = DMA_WRITE) :
    (p.writes (programming info mode)).chan info.chan.toNat =
      ⟨info.writtenOffset, info.writtenLen, info.page, mode,
        (p.chan info.chan.toNat).masked⟩ := by
  obtain ⟨hselected, hvalue⟩ := selected_mode hmode info.chan hchan
  simp only [Pair.writes, programming, List.foldl_cons, List.foldl_nil, Pair.write, hselected,
    hvalue, Pair.setChan, Pair.setLow, Function.update_self, Bool.not_true, writeHalf_writeHalf,
    Bool.not_false]

theorem writes_mask (hchan : info.chan < 8) :
    ((p.write (maskValue info.chan) (.mask (wordChan info.chan.toNat))).chan
      info.chan.toNat).masked = true := by
  obtain ⟨hmask, hvalue, -⟩ := selected_chan info.chan hchan
  rw [write_mask_chan hmask]
  exact hvalue

theorem programming_not_mask : ∀ r ∈ programming info mode, ∀ c, r.2 ≠ .mask c := by
  simp [programming]

theorem outs_setupDma (hchan : info.chan < 8) (hmode : mode = DMA_READ ∨ mode = DMA_WRITE) :
    (p.outs (setupDma info mode)).chan info.chan.toNat =
      ⟨info.writtenOffset, info.writtenLen, info.page, mode, false⟩ := by
  obtain ⟨-, -, hmask, hvalue⟩ := selected_chan info.chan hchan
  rw [outs_eq_writes (setupDma_regs hchan), writes_cons, writes_append, writes_cons, writes_nil,
    write_mask_chan hmask, writes_programming hchan hmode, hvalue]

/-- The other channels are left as they are. -/
theorem outs_setupDma_of_ne (hchan : info.chan < 8) (hmode : mode = DMA_READ ∨ mode = DMA_WRITE)
    {m : ℕ} (hne : m ≠ info.chan.toNat) :
    (p.outs (setupDma info mode)).chan m = p.chan m := by
  obtain ⟨hmask, -, hunmask, -⟩ := selected_chan info.chan hchan
  obtain ⟨hselected, -⟩ := selected_mode hmode info.chan hchan
  rw [outs_eq_writes (setupDma_regs hchan)]
  simp only [programming, List.cons_append, List.nil_append, writes_cons, writes_nil, Pair.write,
    hmask, hunmask, hselected, setChan_chan, if_neg hne, Pair.setLow]

/-- Only the last write unmasks the channel. -/
theorem outs_take_masked (hchan : info.chan < 8) {k : ℕ} (hpos : 0 < k)
    (hk : k < (setupDma info mode).length) :
    ((p.outs ((setupDma info mode).take k)).chan info.chan.toNat).masked = true := by
  have hregs := @setupDma_regs info mode hchan
  rw [hregs.length_eq] at hk
  rw [outs_eq_writes (List.forall₂_take k hregs)]
  obtain ⟨j, rfl⟩ : ∃ j, k = j + 1 := ⟨k - 1, by omega⟩
  have hj : j ≤ (programming info mode).length := by
    simp only [List.length_cons, List.length_append, List.length_nil] at hk
    omega
  rw [List.take_succ_cons, List.take_append_of_le_length hj, writes_cons,
    writes_masked fun r hr => programming_not_mask r (List.mem_of_mem_take hr)]
  exact writes_mask hchan

/-! ## The buffer -/

theorem toNat_and_fe : ∀ b : UChar, (b &&& 0xfe).toNat = b.toNat / 2 * 2 := by decide +kernel

namespace Request

variable (r : Request)

theorem toNat_page : r.dmaBuf.page.toNat = r.addr / 0x10000 := by
  have haddr := r.haddr
  rw [dmaBuf, BitVec.toNat_ofNat]
  omega

theorem toNat_offset : r.dmaBuf.offset.toNat = r.addr % 0x10000 := by
  rw [dmaBuf, BitVec.toNat_ofNat]

theorem toNat_len : r.dmaBuf.len.toNat = (r.bytes - 1) % 0x10000 := by
  have hbytes := r.hbytes
  rw [dmaBuf, BitVec.toNat_sub, BitVec.toNat_ofNat]
  show (2 ^ 16 - 1 + r.bytes % 2 ^ 16) % 2 ^ 16 = _
  omega

theorem mode_up : r.mode.getLsbD 5 = false := by
  rcases r.hmode with h | h
  · rw [h]
    rfl
  · rw [h]
    rfl

/-- What is transferred on a byte channel. -/
theorem transfer_byte (h4 : r.chan < 4) (p : Pair) :
    (p.outs (setupDma r.dmaBuf r.mode)).transfer r.chan.toNat =
      (⟨r.dmaBuf.offset, r.dmaBuf.len, r.dmaBuf.page, r.mode, false⟩ : Channel).transfer false := by
  have hword : wordChan r.chan.toNat = false :=
    (wordChan_toNat _).trans (decide_eq_false (not_not_intro h4))
  have hoffset : r.dmaBuf.writtenOffset = r.dmaBuf.offset := if_pos h4
  have hlen : r.dmaBuf.writtenLen = r.dmaBuf.len := if_pos h4
  have hchan := @outs_setupDma p r.dmaBuf r.mode r.hchan.1 r.hmode
  rw [hoffset, hlen] at hchan
  rw [Pair.transfer, hword]
  exact congrArg (Channel.transfer false) hchan

/-- What is transferred on a word channel. -/
theorem transfer_word (h4 : ¬r.chan < 4) (p : Pair) :
    (p.outs (setupDma r.dmaBuf r.mode)).transfer r.chan.toNat =
      (⟨r.dmaBuf.offset >>> 1, r.dmaBuf.len >>> 1, r.dmaBuf.page, r.mode, false⟩ :
        Channel).transfer true := by
  have hword : wordChan r.chan.toNat = true := (wordChan_toNat _).trans (decide_eq_true h4)
  have hoffset : r.dmaBuf.writtenOffset = r.dmaBuf.offset >>> 1 := if_neg h4
  have hlen : r.dmaBuf.writtenLen = r.dmaBuf.len >>> 1 := if_neg h4
  have hchan := @outs_setupDma p r.dmaBuf r.mode r.hchan.1 r.hmode
  rw [hoffset, hlen] at hchan
  rw [Pair.transfer, hword]
  exact congrArg (Channel.transfer true) hchan

/-- A byte channel transfers the buffer. -/
theorem byte_buffer (h4 : r.chan < 4) :
    (⟨r.dmaBuf.offset, r.dmaBuf.len, r.dmaBuf.page, r.mode, false⟩ : Channel).transfer false =
      List.range' r.addr r.bytes := by
  have hwindow := r.hwindow
  have hbytes := r.hbytes
  have hpage := r.toNat_page
  have hoffset := r.toNat_offset
  have hlen := r.toNat_len
  rw [if_pos h4] at hwindow
  have hstart : r.dmaBuf.page.toNat * 65536 + r.dmaBuf.offset.toNat = r.addr := by omega
  have hcount : r.dmaBuf.len.toNat + 1 = r.bytes := by omega
  rw [← hstart, ← hcount]
  exact transfer_bytes r.mode_up (by dsimp only; omega)

theorem word_window (h4 : ¬r.chan < 4) :
    r.addr % 0x20000 + r.bytes ≤ 0x20000 ∧ r.addr % 2 = 0 ∧ r.bytes % 2 = 0 := by
  have hwindow := r.hwindow
  rwa [if_neg h4] at hwindow

theorem toNat_shifted_offset : (r.dmaBuf.offset >>> 1).toNat = r.addr % 0x10000 / 2 := by
  rw [BitVec.toNat_ushiftRight, Nat.shiftRight_eq_div_pow, r.toNat_offset, pow_one]

theorem toNat_shifted_len : (r.dmaBuf.len >>> 1).toNat = (r.bytes - 1) % 0x10000 / 2 := by
  rw [BitVec.toNat_ushiftRight, Nat.shiftRight_eq_div_pow, r.toNat_len, pow_one]

/-- A word channel transfers a buffer that begins in an even page and has at most 64K bytes. -/
theorem word_buffer (h4 : ¬r.chan < 4) (hpage : r.addr / 0x10000 % 2 = 0)
    (hlen : r.bytes ≤ 0x10000) :
    (⟨r.dmaBuf.offset >>> 1, r.dmaBuf.len >>> 1, r.dmaBuf.page, r.mode, false⟩ :
      Channel).transfer true = List.range' r.addr r.bytes := by
  obtain ⟨-, hevenAddr, hevenBytes⟩ := r.word_window h4
  have hbytes := r.hbytes
  have hfe := toNat_and_fe r.dmaBuf.page
  have htoPage := r.toNat_page
  have htoOffset := r.toNat_shifted_offset
  have htoLen := r.toNat_shifted_len
  have hstart : (r.dmaBuf.page &&& 0xfe).toNat * 65536 + 2 * (r.dmaBuf.offset >>> 1).toNat =
      r.addr := by
    omega
  have hcount : 2 * ((r.dmaBuf.len >>> 1).toNat + 1) = r.bytes := by omega
  rw [← hstart, ← hcount]
  exact transfer_words r.mode_up (by dsimp only; omega)

/-- A transfer of the buffer has its length and its first byte. -/
theorem word_cond (hbuffer :
    (⟨r.dmaBuf.offset >>> 1, r.dmaBuf.len >>> 1, r.dmaBuf.page, r.mode, false⟩ :
      Channel).transfer true = List.range' r.addr r.bytes) :
    r.addr / 0x10000 % 2 = 0 ∧ r.bytes ≤ 0x10000 := by
  have hbytes := r.hbytes
  constructor
  · have hhead := head_transfer_words
      (c := ⟨r.dmaBuf.offset >>> 1, r.dmaBuf.len >>> 1, r.dmaBuf.page, r.mode, false⟩) r.mode_up
    obtain ⟨n, hn⟩ : ∃ n, r.bytes = n + 1 := ⟨r.bytes - 1, by omega⟩
    rw [hbuffer, hn, List.range'_succ, List.head?_cons] at hhead
    have hfe := toNat_and_fe r.dmaBuf.page
    have htoPage := r.toNat_page
    have htoOffset := r.toNat_shifted_offset
    have hfirst := Option.some.inj hhead
    dsimp only at hfirst
    omega
  · have hlength := congrArg List.length hbuffer
    rw [length_transfer, List.length_range', if_pos rfl] at hlength
    have htoLen := r.toNat_shifted_len
    dsimp only at hlength
    omega

/-- What is programmed apart from the buffer is always right. -/
theorem programmed_iff_transfer :
    r.Programmed ↔ ∀ p : Pair,
      (p.outs (setupDma r.dmaBuf r.mode)).transfer r.chan.toNat = List.range' r.addr r.bytes := by
  refine forall_congr' fun p => and_iff_left ?_
  have hchan := @outs_setupDma p r.dmaBuf r.mode r.hchan.1 r.hmode
  refine ⟨congrArg Channel.mode hchan, congrArg Channel.masked hchan, fun k hpos hk => ?_⟩
  exact @outs_take_masked p r.dmaBuf r.mode r.hchan.1 _ hpos hk

/-- Which buffers are transferred. -/
theorem programmed_iff (r : Request) :
    r.Programmed ↔ r.chan < 4 ∨ r.addr / 0x10000 % 2 = 0 ∧ r.bytes ≤ 0x10000 := by
  rw [r.programmed_iff_transfer]
  by_cases h4 : r.chan < 4
  · exact iff_of_true (fun p => (r.transfer_byte h4 p).trans (r.byte_buffer h4)) (Or.inl h4)
  · rw [or_iff_right h4]
    constructor
    · intro h
      let p : Pair := ⟨fun _ => false, fun _ => ⟨0, 0, 0, 0, false⟩⟩
      exact r.word_cond ((r.transfer_word h4 p).symm.trans (h p))
    · rintro ⟨hpage, hlen⟩ p
      exact (r.transfer_word h4 p).trans (r.word_buffer h4 hpage hlen)

/-- Two bytes at 1M + 64K, on channel 5. -/
def oddPage : Request where
  chan := 5
  mode := DMA_READ
  addr := 0x110000
  bytes := 2
  hchan := by decide
  hmode := Or.inl rfl
  haddr := by decide
  hbytes := by decide
  hwindow := by decide

theorem oddPage_not_programmed : ¬∀ r : Request, r.Programmed := by
  intro h
  have hbuffer := (programmed_iff_transfer oddPage).mp (h oddPage)
    ⟨fun _ => false, fun _ => ⟨0, 0, 0, 0, false⟩⟩
  rw [transfer_word oddPage (by decide)] at hbuffer
  exact absurd (word_cond oddPage hbuffer).1 (by decide)

end Request

end Vmm386.SetupDma
