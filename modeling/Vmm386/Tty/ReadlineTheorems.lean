import Vmm386.Tty.Readline

/-!
# The line that is edited

An insertion, and a deletion of a part of the line, keep the cursor and the mark in the line and the
line in its buffer.
-/

namespace Vmm386.TtyModule

variable (mi : TextMode) (mem : Memory) {rl rl' : RlInfo}

/-! ## Integers -/

theorem long_eq {v : ℤ} (hlo : -2 ^ 31 ≤ v) (hhi : v < 2 ^ 31) : long v = v :=
  Int.bmod_eq_of_le (by omega) (by omega)

theorem ulong_eq {v : ℤ} (hlo : 0 ≤ v) (hhi : v < 2 ^ 32) : ((ulong v : ℕ) : ℤ) = v := by
  rw [ulong, Int.emod_eq_of_lt hlo hhi, Int.toNat_of_nonneg hlo]

theorem ulong_ofNat {n : ℕ} (h : n < 2 ^ 32) : ulong n = n := by
  have heq : ((ulong n : ℕ) : ℤ) = n := ulong_eq (Int.natCast_nonneg n) (by omega)
  exact Int.ofNat.inj heq

theorem ok_bind {ε α β : Type} (a : α) (f : α → Except ε β) : (Except.ok a >>= f) = f a := rfl

namespace RlInfo

/-! ## The invariant -/

/-- The cursor and the mark are in the line, and the line is in its buffer. -/
structure LineRight (rl : RlInfo) : Prop where
  cursor_nonneg : 0 ≤ rl.cursorPos
  cursor_le : rl.cursorPos ≤ rl.lineLen
  mark_nonneg : 0 ≤ rl.markPos
  mark_le : rl.markPos ≤ rl.lineLen
  room : rl.lineLen < rl.bufLen

/-- `LineRight`, and the buffer is there. -/
structure Sound (rl : RlInfo) : Prop extends LineRight rl where
  buf : ∃ buf, rl.lineBuf = some buf
  bound : rl.bufLen < 2 ^ 31

/-- A result is sound and has the same history. -/
def Keeps (rl : RlInfo) (r : Except Fault RlInfo) : Prop :=
  ∃ rl', r = .ok rl' ∧ rl'.Sound ∧ rl'.history = rl.history ∧ rl'.currentItem = rl.currentItem

theorem Sound.keeps (h : rl.Sound) : rl.Keeps (.ok rl) := ⟨rl, rfl, h, rfl, rfl⟩

/-- The display does not matter. -/
theorem Sound.view (h : rl.Sound) (v : View) : Sound { rl with view := v } :=
  ⟨⟨h.cursor_nonneg, h.cursor_le, h.mark_nonneg, h.mark_le, h.room⟩, h.buf, h.bound⟩

/-! ## The buffer -/

theorem Sound.text (h : rl.Sound) (start len : ℕ) (hin : start + len ≤ rl.bufLen) :
    ∃ text, rl.text start len = .ok text ∧ text.length = len := by
  obtain ⟨buf, hbuf⟩ := h.buf
  rw [RlInfo.text, hbuf]
  refine ⟨_, if_pos hin, ?_⟩
  rw [List.length_map, List.length_range]

theorem Sound.setBytes (h : rl.Sound) {dst : ℤ} {len : ℕ} (hlo : 0 ≤ dst)
    (hhi : dst + len ≤ rl.bufLen) (byte : (ℕ → UChar) → ℕ → UChar) :
    ∃ buf, rl.setBytes dst len byte = .ok { rl with lineBuf := some buf } := by
  obtain ⟨buf, hbuf⟩ := h.buf
  rw [RlInfo.setBytes, hbuf]
  exact ⟨_, if_pos ⟨hlo, hhi⟩⟩

theorem Sound.memmove (h : rl.Sound) (dst src : ℤ) (len : ℕ) (hdst : 0 ≤ dst)
    (hdst' : dst + len ≤ rl.bufLen) (hsrc : 0 ≤ src) (hsrc' : src + len ≤ rl.bufLen) :
    ∃ buf, rl.memmove dst src len = .ok { rl with lineBuf := some buf } := by
  rw [RlInfo.memmove, if_pos ⟨hsrc, hsrc'⟩]
  exact h.setBytes hdst hdst' _

theorem Sound.memcpy (h : rl.Sound) (dst : ℤ) (str : List UChar) (hlo : 0 ≤ dst)
    (hhi : dst + str.length ≤ rl.bufLen) :
    ∃ buf, rl.memcpy dst str = .ok { rl with lineBuf := some buf } :=
  h.setBytes hlo hhi _

/-- Another buffer of the same length. -/
theorem Sound.setBuf (h : rl.Sound) (buf : ℕ → UChar) : Sound { rl with lineBuf := some buf } :=
  ⟨⟨h.cursor_nonneg, h.cursor_le, h.mark_nonneg, h.mark_le, h.room⟩, ⟨buf, rfl⟩, h.bound⟩

theorem le_roundTo {n : ℕ} (hn : n + 255 < 2 ^ 32) : n ≤ roundTo n 256 := by
  have hulong : ulong (n + (256 - 1)) = n + 255 := by
    have heq : ((n : ℤ) + (256 - 1)) = ((n + 255 : ℕ) : ℤ) := by omega
    rw [heq, ulong_ofNat hn]
  rw [roundTo]
  change n ≤ ulong (n + (256 - 1)) / 256 * 256
  rw [hulong]
  omega

theorem roundTo_lt {n : ℕ} : roundTo n 256 < 2 ^ 32 := by
  have hlt : ulong (n + (256 - 1)) < 2 ^ 32 := by
    rw [ulong]
    omega
  rw [roundTo]
  change ulong (n + (256 - 1)) / 256 * 256 < 2 ^ 32
  omega

variable {mem} in
/-- The buffer grows to what is needed, or more. -/
theorem reallocBuf_ok {n : ℕ} (hn : n + 263 < 2 ^ 32) (hok : (rl.reallocBuf mem n).1 = true) :
    ∃ bufLen buf, (rl.reallocBuf mem n).2 = { rl with bufLen := bufLen, lineBuf := some buf } ∧
      n ≤ bufLen ∧ bufLen < 2 ^ 31 := by
  have hle : n + 8 ≤ roundTo (n + 8) 256 := le_roundTo (by omega)
  have hlt : roundTo (n + 8) 256 < 2 ^ 32 := roundTo_lt
  have hulong : ((ulong (roundTo (n + 8) 256 - 8) : ℕ) : ℤ) = roundTo (n + 8) 256 - 8 :=
    ulong_eq (by omega) (by omega)
  rw [reallocBuf] at hok ⊢
  dsimp only at hok ⊢
  obtain ⟨buf, hbuf⟩ := Option.isSome_iff_exists.mp hok
  refine ⟨_, buf, by rw [hbuf], by omega, ?_⟩
  rw [grown, Option.ite_none_right_eq_some] at hbuf
  exact hbuf.1

/-! ## The display -/

theorem Sound.redisplayFrom (h : rl.Sound) (start : ℕ) :
    rl.Keeps (rl.redisplayFrom mi start) := by
  rw [RlInfo.redisplayFrom]
  by_cases hstart : start ≥ rl.lineLen
  · rw [if_pos hstart]
    exact h.keeps
  · rw [if_neg hstart]
    dsimp only
    split
    · exact h.keeps
    · have hroom := h.room
      obtain ⟨text, htext, -⟩ := h.text start (rl.lineLen - start) (by omega)
      rw [htext]
      exact ⟨_, rfl, h.view _, rfl, rfl⟩

theorem Sound.redisplay (h : rl.Sound) : rl.Keeps (rl.redisplay mi) := by
  obtain ⟨text, htext, -⟩ := h.text 0 rl.lineLen
    (by rw [Nat.zero_add]; exact h.room.le)
  rw [RlInfo.redisplay, htext]
  exact ⟨_, rfl, h.view _, rfl, rfl⟩

/-! ## Insertions -/

theorem Sound.insertHere (h : rl.Sound) {str : List UChar}
    (hroom : rl.lineLen + str.length < rl.bufLen) : rl.Keeps (rl.insertHere mi str) := by
  have hbound := h.bound
  have hcursor := h.cursor_nonneg
  have hcursor' := h.cursor_le
  have hmark := h.mark_nonneg
  have hmark' := h.mark_le
  have hrest : ((ulong (rl.lineLen - rl.cursorPos) : ℕ) : ℤ) = rl.lineLen - rl.cursorPos :=
    ulong_eq (by omega) (by omega)
  obtain ⟨buf, hmove⟩ := h.memmove (rl.cursorPos + str.length) rl.cursorPos
    (ulong (rl.lineLen - rl.cursorPos)) (by omega) (by omega) hcursor (by omega)
  obtain ⟨buf', hcopy⟩ := (h.setBuf buf).memcpy rl.cursorPos str hcursor
    (by change rl.cursorPos + str.length ≤ rl.bufLen; omega)
  rw [RlInfo.insertHere]
  dsimp only
  rw [hmove, ok_bind, hcopy, ok_bind]
  have hlen : ulong (rl.lineLen + str.length) = rl.lineLen + str.length :=
    ulong_ofNat (n := rl.lineLen + str.length) (by omega)
  have hpos : long (rl.cursorPos + str.length) = rl.cursorPos + str.length :=
    long_eq (by omega) (by omega)
  have hpos' : long (rl.markPos + str.length) = rl.markPos + str.length :=
    long_eq (by omega) (by omega)
  have hsound : Sound { rl with
      lineBuf := some buf'
      lineLen := rl.lineLen + str.length
      markPos := if rl.markPos ≥ rl.cursorPos then rl.markPos + str.length else rl.markPos
      cursorPos := rl.cursorPos + str.length } := by
    refine ⟨⟨by dsimp only; omega, by dsimp only; omega, ?_, ?_, hroom⟩, ⟨buf', rfl⟩, hbound⟩
    · dsimp only
      split <;> omega
    · dsimp only
      split <;> omega
  dsimp only
  rw [hlen, hpos, hpos']
  exact (hsound.view _).redisplayFrom mi _

/-- An insertion, if the buffer can grow where it has to. -/
theorem Sound.insert (h : rl.Sound) (str : List UChar) (hstr : str.length < 2 ^ 16)
    (hmem : rl.lineLen + str.length < rl.bufLen ∨
      (rl.reallocBuf mem (rl.lineLen + str.length + 2)).1 = true) :
    rl.Keeps (rl.insert mi mem str) := by
  have hbound := h.bound
  have hroom := h.room
  have hlen : ulong (rl.lineLen + str.length) = rl.lineLen + str.length :=
    ulong_ofNat (n := rl.lineLen + str.length) (by omega)
  have hlen' : ulong (rl.lineLen + str.length + 2) = rl.lineLen + str.length + 2 :=
    ulong_ofNat (n := rl.lineLen + str.length + 2) (by omega)
  rw [RlInfo.insert, hlen, hlen']
  by_cases hfull : rl.lineLen + str.length ≥ rl.bufLen
  · rw [if_pos hfull]
    have hok : (rl.reallocBuf mem (rl.lineLen + str.length + 2)).1 = true :=
      hmem.resolve_left (by omega)
    obtain ⟨bufLen, buf, hgrown, hle, hlt⟩ := reallocBuf_ok (by omega) hok
    dsimp only
    rw [hok, hgrown, if_pos rfl]
    have hsound : Sound { rl with bufLen := bufLen, lineBuf := some buf } :=
      ⟨⟨h.cursor_nonneg, h.cursor_le, h.mark_nonneg, h.mark_le, by dsimp only; omega⟩,
        ⟨buf, rfl⟩, hlt⟩
    exact hsound.insertHere mi (by dsimp only; omega)
  · rw [if_neg hfull]
    exact h.insertHere mi (by omega)

/-! ## Deletions -/

/-- What is deleted is in the line. A part of negative length makes the line longer. -/
def DeleteFits (rl : RlInfo) (startPos : ℕ) (extent : ℤ) : Prop :=
  if startPos > rl.lineLen then long (extent - (rl.lineLen - startPos)) ≤ 0
  else 0 ≤ startPos + extent ∧ startPos + extent ≤ rl.lineLen ∧ rl.lineLen - extent < rl.bufLen

instance (rl : RlInfo) (startPos : ℕ) (extent : ℤ) : Decidable (rl.DeleteFits startPos extent) :=
  inferInstanceAs (Decidable (ite _ _ _))

/-- A position stays in the line. -/
theorem shiftPos_mem {start len : ℕ} {extent pos : ℤ} (hlo : 0 ≤ start + extent)
    (hhi : start + extent ≤ len) (hlen : (len : ℤ) < 2 ^ 31) (hlen' : len - extent < 2 ^ 31)
    (hpos : 0 ≤ pos) (hpos' : pos ≤ len) :
    0 ≤ shiftPos start extent pos ∧ shiftPos start extent pos ≤ len - extent := by
  have hpos₁ : ((ulong pos : ℕ) : ℤ) = pos := ulong_eq hpos (by omega)
  have hend : ((ulong (start + extent) : ℕ) : ℤ) = start + extent := ulong_eq hlo (by omega)
  have hlong : long start = start := long_eq (by omega) (by omega)
  have hlong' : long (pos - extent) = pos - extent := long_eq (by omega) (by omega)
  rw [shiftPos, hlong, hlong']
  split
  · split <;> omega
  · omega

theorem Sound.deleteFrom (h : rl.Sound) {start : ℕ} {extent : ℤ} (hlo : 0 ≤ start + extent)
    (hhi : start + extent ≤ rl.lineLen) (hroom : rl.lineLen - extent < rl.bufLen) :
    rl.Keeps (rl.deleteFrom mi start extent) := by
  have hbound := h.bound
  have hlen := h.room
  have hrest : ((ulong (rl.lineLen - (start + extent)) : ℕ) : ℤ) =
      rl.lineLen - (start + extent) := ulong_eq (by omega) (by omega)
  have hline : ((ulong (rl.lineLen - extent) : ℕ) : ℤ) = rl.lineLen - extent :=
    ulong_eq (by omega) (by omega)
  obtain ⟨buf, hmove⟩ := h.memmove start (start + extent)
    (ulong (rl.lineLen - (start + extent))) (Int.natCast_nonneg _) (by omega) hlo (by omega)
  rw [RlInfo.deleteFrom, hmove, ok_bind]
  dsimp only
  have hcursor := shiftPos_mem hlo hhi (by omega) (by omega) h.cursor_nonneg h.cursor_le
  have hmark := shiftPos_mem hlo hhi (by omega) (by omega) h.mark_nonneg h.mark_le
  have hsound : Sound { rl with
      lineBuf := some buf
      cursorPos := shiftPos start extent rl.cursorPos
      markPos := shiftPos start extent rl.markPos
      lineLen := ulong (rl.lineLen - extent) } := by
    refine ⟨⟨hcursor.1, ?_, hmark.1, ?_, ?_⟩, ⟨buf, rfl⟩, hbound⟩
    · dsimp only
      rw [hline]
      exact hcursor.2
    · dsimp only
      rw [hline]
      exact hmark.2
    · dsimp only
      omega
  exact (hsound.view _).redisplayFrom mi _

theorem Sound.delete (h : rl.Sound) {start : ℕ} {extent : ℤ} (hfits : rl.DeleteFits start extent) :
    rl.Keeps (rl.delete mi start extent) := by
  rw [RlInfo.delete]
  by_cases hstart : start > rl.lineLen
  · rw [DeleteFits, if_pos hstart] at hfits
    rw [if_pos hstart]
    dsimp only
    rw [if_pos hfits]
    exact h.keeps
  · rw [DeleteFits, if_neg hstart] at hfits
    rw [if_neg hstart]
    exact h.deleteFrom mi hfits.1 hfits.2.1 hfits.2.2

end RlInfo

end Vmm386.TtyModule
