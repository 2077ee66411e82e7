import Vmm386.Fs.Buffer

/-!
# Views of a block (`vmm/fs.h`, `vmm/bits.h`)

The union in `struct buf_head` shows one block as bytes, as the words of an indirect block,
and as a bitmap. The processor is little-endian: byte `4 * x` is the lowest of word `x`.
-/

namespace Vmm386.Fs

/-- The number of bits of a bitmap block. -/
abbrev BITS_PER_BLOCK : ℕ := FS_BLKSIZ * 8

abbrev PTRS_PER_INDIRECT : ℕ := FS_BLKSIZ / 4

namespace Blk

/-! ## Bytes -/

/-- `buf.data[i]`. -/
def byte (b : Blk) (i : ℕ) : UChar := b[i]?.getD 0

/-- The block with these bytes. -/
def ofBytes (f : ℕ → UChar) : Blk := Vector.ofFn fun i => f i

/-- A zeroed block. -/
def zero : Blk := ofBytes fun _ => 0

/-- `memcpy(&buf.data[off], src, len)`, as far as it stays in the block. -/
def memcpy (b : Blk) (off : ℕ) (src : ℕ → UChar) (len : ℕ) : Blk :=
  ofBytes fun i => if off ≤ i ∧ i < off + len then src (i - off) else b.byte i

def setByte (b : Blk) (i : ℕ) (v : UChar) : Blk :=
  ofBytes fun j => if j = i then v else b.byte j

@[simp] theorem byte_ofBytes {f : ℕ → UChar} {i : ℕ} (h : i < FS_BLKSIZ) :
    (ofBytes f).byte i = f i := by
  simp [byte, ofBytes, h]

@[simp] theorem byte_zero (i : ℕ) : zero.byte i = 0 := by
  by_cases h : i < FS_BLKSIZ
  · rw [zero, byte_ofBytes h]
  · simp [byte, h]

theorem byte_memcpy {b : Blk} {off len i : ℕ} {src : ℕ → UChar} (h : i < FS_BLKSIZ) :
    (b.memcpy off src len).byte i =
      if off ≤ i ∧ i < off + len then src (i - off) else b.byte i :=
  byte_ofBytes h

theorem byte_setByte {b : Blk} {i j : ℕ} {v : UChar} (h : j < FS_BLKSIZ) :
    (b.setByte i v).byte j = if j = i then v else b.byte j :=
  byte_ofBytes h

/-! ## Words -/

/-- `buf.ind.data[x]`. -/
def word (b : Blk) (x : ℕ) : ULong :=
  b.byte (4 * x + 3) ++ b.byte (4 * x + 2) ++ b.byte (4 * x + 1) ++ b.byte (4 * x)

/-- Store a word. -/
def setWord (b : Blk) (x : ℕ) (v : ULong) : Blk :=
  ofBytes fun j => if j / 4 = x then v.extractLsb' (8 * (j % 4)) 8 else b.byte j

theorem getLsbD_append_four (b₃ b₂ b₁ b₀ : UChar) (i : ℕ) :
    (b₃ ++ b₂ ++ b₁ ++ b₀).getLsbD i =
      if i < 8 then b₀.getLsbD i
      else if i < 16 then b₁.getLsbD (i - 8)
      else if i < 24 then b₂.getLsbD (i - 16)
      else b₃.getLsbD (i - 24) := by
  have h1 : i - 8 < 8 ↔ i < 16 := by omega
  have h2 : i - 16 < 8 ↔ i < 24 := by omega
  have h3 : i - 8 - 8 = i - 16 := by omega
  have h4 : i - 16 - 8 = i - 24 := by omega
  simp only [BitVec.getLsbD_append, h1, h2, h3, h4]

/-- Bit `i` of a word is bit `i % 8` of its byte `i / 8`. -/
theorem getLsbD_word (b : Blk) (x : ℕ) {i : ℕ} (h : i < 32) :
    (b.word x).getLsbD i = (b.byte (4 * x + i / 8)).getLsbD (i % 8) := by
  apply (getLsbD_append_four _ _ _ _ i).trans
  rcases (show i / 8 = 0 ∨ i / 8 = 1 ∨ i / 8 = 2 ∨ i / 8 = 3 by omega) with h8 | h8 | h8 | h8
  · rw [if_pos (by omega), h8, show i % 8 = i by omega]
    rfl
  · rw [if_neg (by omega), if_pos (by omega), h8, show i % 8 = i - 8 by omega]
  · rw [if_neg (by omega), if_neg (by omega), if_pos (by omega), h8,
      show i % 8 = i - 16 by omega]
  · rw [if_neg (by omega), if_neg (by omega), if_neg (by omega), h8,
      show i % 8 = i - 24 by omega]

@[simp] theorem word_zero (x : ℕ) : zero.word x = 0 := by
  simp [word]

theorem word_setWord {b : Blk} {x y : ℕ} {v : ULong} (hy : y < PTRS_PER_INDIRECT) :
    (b.setWord x v).word y = if y = x then v else b.word y := by
  apply BitVec.eq_of_getLsbD_eq
  intro i hi
  have hbyte : 4 * y + i / 8 < FS_BLKSIZ := by
    simp only [PTRS_PER_INDIRECT, FS_BLKSIZ] at hy ⊢
    omega
  have hdiv : (4 * y + i / 8) / 4 = y := by omega
  rw [getLsbD_word _ _ hi, setWord, byte_ofBytes hbyte, hdiv]
  by_cases hyx : y = x
  · have hmod : 8 * ((4 * y + i / 8) % 4) + i % 8 = i := by omega
    have hlt : i % 8 < 8 := by omega
    rw [if_pos hyx, if_pos hyx, BitVec.getLsbD_extractLsb', hmod]
    simp [hlt]
  · rw [if_neg hyx, if_neg hyx, getLsbD_word _ _ hi]

/-! ## Bits -/

/-- `test_bit`. -/
def testBit (b : Blk) (i : ℕ) : Bool := (b.byte (i / 8)).getLsbD (i % 8)

/-- `set_bit`. -/
def setBit (b : Blk) (i : ℕ) : Blk := b.setByte (i / 8) (b.byte (i / 8) ||| ((1 : UChar) <<< (i % 8)))

/-- `clear_bit`. -/
def clearBit (b : Blk) (i : ℕ) : Blk :=
  b.setByte (i / 8) (b.byte (i / 8) &&& ~~~((1 : UChar) <<< (i % 8)))

@[simp] theorem testBit_zero (i : ℕ) : zero.testBit i = false := by
  simp [testBit]

theorem getLsbD_one_shiftLeft {i j : ℕ} (hj : j < 8) :
    ((1 : UChar) <<< i).getLsbD j = decide (j = i) := by
  rcases lt_trichotomy j i with h | h | h
  · simp [BitVec.getLsbD_shiftLeft, h, h.ne]
  · subst h
    simp [hj]
  · have h1 : ¬j < i := by omega
    have h2 : j - i ≠ 0 := by omega
    simp [BitVec.getLsbD_shiftLeft, h1, h.ne', BitVec.getLsbD_one, h2]

theorem testBit_setBit {b : Blk} {i j : ℕ} (hj : j < BITS_PER_BLOCK) :
    (b.setBit i).testBit j = (decide (j = i) || b.testBit j) := by
  have hbyte : j / 8 < FS_BLKSIZ := by
    simp only [BITS_PER_BLOCK, FS_BLKSIZ] at hj ⊢
    omega
  have hlt : j % 8 < 8 := by omega
  rw [testBit, setBit, byte_setByte hbyte, testBit]
  by_cases h : j / 8 = i / 8
  · have hij : (j % 8 = i % 8) ↔ j = i := by omega
    rw [if_pos h, BitVec.getLsbD_or, getLsbD_one_shiftLeft hlt, h, Bool.or_comm]
    simp [hij]
  · have hij : j ≠ i := by rintro rfl; exact h rfl
    simp [if_neg h, hij]

theorem testBit_clearBit {b : Blk} {i j : ℕ} (hj : j < BITS_PER_BLOCK) :
    (b.clearBit i).testBit j = (!decide (j = i) && b.testBit j) := by
  have hbyte : j / 8 < FS_BLKSIZ := by
    simp only [BITS_PER_BLOCK, FS_BLKSIZ] at hj ⊢
    omega
  have hlt : j % 8 < 8 := by omega
  rw [testBit, clearBit, byte_setByte hbyte, testBit]
  by_cases h : j / 8 = i / 8
  · have hij : (j % 8 = i % 8) ↔ j = i := by omega
    rw [if_pos h, BitVec.getLsbD_and, BitVec.getLsbD_not, getLsbD_one_shiftLeft hlt, h,
      Bool.and_comm]
    simp [hij, hlt]
  · have hij : j ≠ i := by rintro rfl; exact h rfl
    simp [if_neg h, hij]

/-- Bit `i` of a bitmap is bit `i % 32` of its word `i / 32`. -/
theorem testBit_eq_word (b : Blk) (i : ℕ) : b.testBit i = (b.word (i / 32)).getLsbD (i % 32) := by
  have h1 : 4 * (i / 32) + i % 32 / 8 = i / 8 := by omega
  have h2 : i % 32 % 8 = i % 8 := by omega
  rw [getLsbD_word _ _ (Nat.mod_lt i (by omega)), h1, h2, testBit]

/-! ## The first clear bit -/

/-- `bsfl`, on a word that is not zero. -/
def bsf (x : ULong) : Option ℕ := (List.range 32).find? fun i => x.getLsbD i

/-- `find_zero_bit`: look for the first of the words the first `len` bits lie in that is not
all ones, and for the first zero bit of that word. -/
def findZeroBit (b : Blk) (len : ℕ) : Option ℕ :=
  (List.range ((len + 31) / 32)).findSome? fun x => (bsf (~~~b.word x)).map (32 * x + ·)

theorem bsf_eq_none {x : ULong} : bsf x = none ↔ ∀ i < 32, x.getLsbD i = false := by
  simp [bsf]

theorem getLsbD_of_bsf {x : ULong} {i : ℕ} (h : bsf x = some i) :
    i < 32 ∧ x.getLsbD i = true ∧ ∀ j < i, x.getLsbD j = false := by
  obtain ⟨hbit, hi, hmin⟩ := List.find?_range_eq_some.mp h
  exact ⟨List.mem_range.mp hi, hbit, fun j hj => by simpa using hmin j hj⟩

/-- The first success of a search through the numbers below `n`. -/
theorem exists_of_findSome?_range {α : Type*} {f : ℕ → Option α} {n : ℕ} {a : α}
    (h : (List.range n).findSome? f = some a) :
    ∃ k < n, f k = some a ∧ ∀ j < k, f j = none := by
  induction n with
  | zero => simp at h
  | succ n ih =>
    rw [List.range_succ, List.findSome?_append] at h
    rcases hpre : (List.range n).findSome? f with _ | b
    · rw [hpre, Option.none_or, List.findSome?_singleton] at h
      have hnone := List.findSome?_eq_none_iff.mp hpre
      exact ⟨n, Nat.lt_succ_self n, h, fun j hj => hnone j (List.mem_range.mpr hj)⟩
    · rw [hpre, Option.some_or] at h
      obtain ⟨k, hk, hfk⟩ := ih (hpre.trans h)
      exact ⟨k, Nat.lt_succ_of_lt hk, hfk⟩

/-- The bit it finds is the first zero bit of the words it looks at. -/
theorem findZeroBit_eq_some {b : Blk} {len i : ℕ} (h : b.findZeroBit len = some i) :
    i < 32 * ((len + 31) / 32) ∧ b.testBit i = false ∧ ∀ j < i, b.testBit j = true := by
  obtain ⟨x, hx, hi, hmin⟩ := exists_of_findSome?_range h
  obtain ⟨y, hy, rfl⟩ := Option.map_eq_some_iff.mp hi
  obtain ⟨hlt, hbit, hfirst⟩ := getLsbD_of_bsf hy
  have hdiv : (32 * x + y) / 32 = x := by omega
  have hmod : (32 * x + y) % 32 = y := by omega
  refine ⟨by omega, ?_, ?_⟩
  · rw [testBit_eq_word, hdiv, hmod]
    simpa [hlt] using hbit
  · intro j hj
    have hj32 : j % 32 < 32 := Nat.mod_lt j (by omega)
    rw [testBit_eq_word]
    by_cases hjx : j / 32 < x
    · -- a word before the one with the zero bit
      have hnone := bsf_eq_none.mp (Option.map_eq_none_iff.mp (hmin _ hjx)) (j % 32) hj32
      simpa [hj32] using hnone
    · have hjx' : j / 32 = x := by omega
      have hset := hfirst (j % 32) (by omega)
      rw [hjx']
      simpa [hj32] using hset

/-- If it finds none, all bits of those words are set. -/
theorem findZeroBit_eq_none {b : Blk} {len i : ℕ} (h : b.findZeroBit len = none)
    (hi : i < 32 * ((len + 31) / 32)) : b.testBit i = true := by
  have hx := List.findSome?_eq_none_iff.mp h (i / 32) (List.mem_range.mpr (by omega))
  have hnone := bsf_eq_none.mp (Option.map_eq_none_iff.mp hx) (i % 32) (Nat.mod_lt i (by omega))
  have hlt : i % 32 < 32 := Nat.mod_lt i (by omega)
  rw [testBit_eq_word]
  simpa [hlt] using hnone

end Blk

end Vmm386.Fs
