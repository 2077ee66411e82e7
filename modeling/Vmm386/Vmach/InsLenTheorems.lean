import Vmm386.Vmach.InsLen

/-!
# What `get_inslen` counts

`OT_PFX` is also set in the entry of the opcode `0xff`, the `switch` skips the opcode `0x80`, and
the rules for 32-bit addresses are used for opcodes with `OT_WORD` only, without the SIB byte. The
length is right if and only if none of these matters (`counted_iff`).
-/

namespace Vmm386.InsLen

/-! ## Instructions -/

/-- One opcode byte, or the second one of two. -/
inductive Opcode where
  | one (byte : UChar)
  | ext (byte : UChar)
deriving DecidableEq

def Opcode.bytes : Opcode → List UChar
  | .one b => [b]
  | .ext b => [0x0f, b]

def Opcode.entry : Opcode → UChar
  | .one b => entryOf opcodeTable b
  | .ext b => entryOf opcodeExtTable b

def Opcode.isExt : Opcode → Bool
  | .one _ => false
  | .ext _ => true

/-- An instruction with a mod r/m byte. `sib` is the byte that follows it, whatever it is. -/
structure Encoding where
  prefixes : List UChar
  opcode : Opcode
  modRm : UChar
  sib : UChar
  hprefixes : ∀ b ∈ prefixes, Flag (entryOf opcodeTable b) OT_PFX
  hmodRm : Flag opcode.entry OT_MOD_RM

/-- The code holds the bytes, from its byte `n` on. -/
def Holds (code : ℕ → UChar) (n : ℕ) (bytes : List UChar) : Prop :=
  ∀ k b, bytes[k]? = some b → code (n + k) = b

namespace Encoding

variable (i : Encoding) (is32bit : Bool)

def bytes : List UChar := i.prefixes ++ (i.opcode.bytes ++ [i.modRm, i.sib])

def addrPfx : Bool := decide (0x67 ∈ i.prefixes)

def opPfx : Bool := decide (0x66 ∈ i.prefixes)

def mod : UChar := (i.modRm &&& 0xc0) >>> 6

def rm : UChar := i.modRm &&& 0x7

/-- The address size. -/
def addr32 : Bool := is32bit ^^ i.addrPfx

/-- The bytes of the operand behind the mod r/m byte: a SIB byte, and a displacement. -/
def addressBytes : ℕ :=
  if i.addr32 is32bit then
    (if i.mod ≠ 3 ∧ i.rm = 4 then 1 else 0) +
      if i.mod = 0 ∧ (i.rm = 5 ∨ i.rm = 4 ∧ i.sib &&& 0x7 = 5) ∨ i.mod = 2 then 4
      else if i.mod = 1 then 1 else 0
  else if i.mod = 0 ∧ i.rm = 6 ∨ i.mod = 2 then 2
  else if i.mod = 1 then 1 else 0

def opcodeEnd : ℕ := i.prefixes.length + i.opcode.bytes.length

/-- Where the instruction ends. -/
def length : ℕ :=
  i.opcodeEnd + 1 + i.addressBytes is32bit + tailBytes i.opcode.entry i.opPfx is32bit

/-- What is known behind the opcode when the prefixes, and nothing else, were taken for
prefixes. -/
def scanned : UChar × Scan := (i.opcode.entry, ⟨i.opcode.isExt, i.addrPfx, i.opPfx, i.opcodeEnd⟩)

/-- The prefixes are skipped, and no other byte, and the operand is counted by the address size. -/
def Counted : Prop :=
  ∀ code, Holds code 0 i.bytes →
    ∃ fuel, scan code fuel ⟨false, false, false, 0⟩ = some i.scanned ∧
      getInslen code fuel is32bit = some (i.length is32bit)

/-- The rules that are used for the operand make no difference to it. -/
def OperandOk : Prop :=
  i.addr32 is32bit = true → i.mod ≠ 3 →
    if Flag i.opcode.entry OT_WORD then i.rm ≠ 4
    else i.mod = 0 ∧ i.rm ≠ 4 ∧ i.rm ≠ 5 ∧ i.rm ≠ 6 ∨ i.mod = 1 ∧ i.rm ≠ 4

end Encoding

/-! ## Bytes of the code -/

variable {code : ℕ → UChar} {fuel n : ℕ} {s t : Scan} {entry b : UChar} {pre bytes : List UChar}

theorem holds_cons : Holds code n (b :: bytes) ↔ code n = b ∧ Holds code (n + 1) bytes := by
  constructor
  · intro h
    refine ⟨h 0 b rfl, fun k c hk => ?_⟩
    rw [Nat.add_assoc, Nat.add_comm 1]
    exact h (k + 1) c hk
  · rintro ⟨hb, hrest⟩ k c hk
    cases k with
    | zero => exact hb.trans (Option.some.inj hk)
    | succ k =>
      rw [← Nat.add_assoc, Nat.add_right_comm]
      exact hrest k c hk

theorem holds_append :
    Holds code n (pre ++ bytes) ↔ Holds code n pre ∧ Holds code (n + pre.length) bytes := by
  induction pre generalizing n with
  | nil => simp [Holds]
  | cons b pre ih =>
    rw [List.cons_append, holds_cons, holds_cons, ih, List.length_cons, and_assoc,
      Nat.add_assoc, Nat.add_comm 1]

/-! ## The scan -/

/-- The bytes that are skipped and have `OT_PFX` in their entries. -/
def prefixBytes : List UChar := [0x26, 0x2e, 0x36, 0x3e, 0x64, 0x65, 0x66, 0x67]

/-- A check of each entry of a table and its place. -/
def checkTable (table : List UChar) (P : UChar → UChar → Prop) [∀ e b, Decidable (P e b)] : Bool :=
  table.length == 256 && table.zipIdx.all fun p => decide (P p.1 (BitVec.ofNat 8 p.2))

theorem of_checkTable {table : List UChar} {P : UChar → UChar → Prop} [∀ e b, Decidable (P e b)]
    (h : checkTable table P = true) (b : UChar) : P (entryOf table b) b := by
  rw [checkTable, Bool.and_eq_true] at h
  have hlt : b.toNat < table.length := by
    rw [eq_of_beq h.1]
    exact b.isLt
  have hget : (table[b.toNat], b.toNat) ∈ table.zipIdx := by
    rw [List.mk_mem_zipIdx_iff_getElem?]
    exact List.getElem?_eq_getElem hlt
  have hP := of_decide_eq_true (List.all_eq_true.mp h.2 _ hget)
  rw [BitVec.ofNat_toNat, BitVec.setWidth_eq] at hP
  rwa [entryOf, List.getD_eq_getElem?_getD, List.getElem?_eq_getElem hlt]

/-- An opcode with a ModR/M byte is neither skipped nor a prefix. -/
abbrev PlainOpcode (e b : UChar) : Prop :=
  b ∉ skippedBytes ∧ b ≠ 0x67 ∧ b ≠ 0x66 ∧ ¬Flag e OT_EXT

theorem tables_checked :
    checkTable opcodeTable (fun e b => Flag e OT_PFX → b ≠ 0xff → b ∈ prefixBytes) = true ∧
    checkTable opcodeTable (fun e b => Flag e OT_MOD_RM → b ≠ 0x80 → PlainOpcode e b) = true ∧
    checkTable opcodeExtTable (fun e b => Flag e OT_MOD_RM → PlainOpcode e b) = true := by
  decide +kernel

theorem prefix_cases : ∀ b : UChar, Flag (entryOf opcodeTable b) OT_PFX →
    b ≠ 0xff → b ∈ prefixBytes :=
  of_checkTable tables_checked.1

theorem opcode_cases : ∀ b : UChar, Flag (entryOf opcodeTable b) OT_MOD_RM → b ≠ 0x80 →
    b ∉ skippedBytes ∧ b ≠ 0x67 ∧ b ≠ 0x66 ∧ ¬Flag (entryOf opcodeTable b) OT_EXT :=
  of_checkTable tables_checked.2.1

theorem ext_cases : ∀ b : UChar, Flag (entryOf opcodeExtTable b) OT_MOD_RM →
    b ∉ skippedBytes ∧ b ≠ 0x67 ∧ b ≠ 0x66 ∧ ¬Flag (entryOf opcodeExtTable b) OT_EXT :=
  of_checkTable tables_checked.2.2

theorem scan_succ {r : UChar × Scan} (h : scan code fuel s = some r) :
    scan code (fuel + 1) s = some r := by
  induction fuel generalizing s with
  | zero => cases h
  | succ fuel ih =>
    unfold scan at h ⊢
    dsimp only at h ⊢
    split_ifs at h ⊢
    all_goals first
      | exact ih h
      | exact h

theorem scan_mono {r : UChar × Scan} {fuel' : ℕ} (hle : fuel ≤ fuel')
    (h : scan code fuel s = some r) : scan code fuel' s = some r := by
  induction hle with
  | refl => exact h
  | step _ ih => exact scan_succ ih

/-- The length does not depend on the bound. -/
theorem getInslen_unique {is32bit : Bool} {fuel' m : ℕ} (h : getInslen code fuel is32bit = some n)
    (h' : getInslen code fuel' is32bit = some m) : n = m := by
  obtain ⟨r, hr, rfl⟩ := Option.map_eq_some_iff.mp h
  obtain ⟨r', hr', rfl⟩ := Option.map_eq_some_iff.mp h'
  have hmax := scan_mono (le_max_left fuel fuel') hr
  rw [scan_mono (le_max_right fuel fuel') hr'] at hmax
  rw [Option.some.inj hmax]

/-- The scan takes at least one byte. -/
theorem lt_of_scan (h : scan code fuel s = some (entry, t)) : s.pc < t.pc := by
  induction fuel generalizing s with
  | zero => cases h
  | succ fuel ih =>
    unfold scan at h
    dsimp only at h
    split_ifs at h
    all_goals first
      | exact Nat.lt_of_succ_lt (ih h)
      | (cases h; exact Nat.lt_succ_self _)

theorem scan_prefixByte (hb : code s.pc ∈ prefixBytes) (fuel : ℕ) :
    scan code (fuel + 1) s = scan code fuel { s with
      addrPfx := s.addrPfx || decide (0x67 = code s.pc)
      opPfx := s.opPfx || decide (0x66 = code s.pc)
      pc := s.pc + 1 } := by
  simp only [prefixBytes, List.mem_cons, List.not_mem_nil, or_false] at hb
  rcases hb with h | h | h | h | h | h | h | h <;>
    simp [scan, h, skippedBytes]

/-- The scan behind prefixes. -/
theorem scan_prefixes (hpre : ∀ b ∈ pre, b ∈ prefixBytes) (h : Holds code s.pc pre) (fuel : ℕ) :
    scan code fuel s = scan code (fuel - pre.length) { s with
      addrPfx := s.addrPfx || decide (0x67 ∈ pre)
      opPfx := s.opPfx || decide (0x66 ∈ pre)
      pc := s.pc + pre.length } := by
  induction pre generalizing s fuel with
  | nil => simp
  | cons b pre ih =>
    obtain ⟨hb, hrest⟩ := holds_cons.mp h
    cases fuel with
    | zero => simp [scan]
    | succ fuel =>
      have hmem : code s.pc ∈ prefixBytes := hb ▸ hpre b (List.mem_cons_self ..)
      rw [scan_prefixByte hmem, @ih { s with
          addrPfx := s.addrPfx || decide (0x67 = code s.pc)
          opPfx := s.opPfx || decide (0x66 = code s.pc)
          pc := s.pc + 1 } (fun c hc => hpre c (List.mem_cons_of_mem _ hc)) hrest]
      simp only [hb, List.length_cons, List.mem_cons, Bool.decide_or, Bool.or_assoc,
        Nat.add_sub_add_right, Nat.add_assoc, Nat.add_comm 1]

/-- The scan at a byte that is no prefix and does not announce another one. -/
theorem scan_last (hskip : code s.pc ∉ skippedBytes) (h67 : code s.pc ≠ 0x67)
    (h66 : code s.pc ≠ 0x66)
    (hnext : ¬Flag (entryOf (if s.ext then opcodeExtTable else opcodeTable) (code s.pc)) OT_EXT)
    (fuel : ℕ) :
    scan code (fuel + 1) s =
      some (entryOf (if s.ext then opcodeExtTable else opcodeTable) (code s.pc),
        { s with pc := s.pc + 1 }) := by
  rw [scan]
  dsimp only
  rw [if_neg hskip, if_neg h67, if_neg h66, if_neg hnext]

/-- The scan at the opcode. -/
theorem scan_opcode {o : Opcode} (ho : Flag o.entry OT_MOD_RM) (hne : o ≠ .one 0x80)
    (h : Holds code s.pc o.bytes) (hext : s.ext = false) (fuel : ℕ) :
    scan code (fuel + 2) s =
      some (o.entry, { s with ext := o.isExt, pc := s.pc + o.bytes.length }) := by
  cases o with
  | one b =>
    have hb : code s.pc = b := h 0 b rfl
    obtain ⟨hskip, h67, h66, hnext⟩ := opcode_cases b ho fun heq => hne (congrArg Opcode.one heq)
    rw [scan_last (hb ▸ hskip) (hb ▸ h67) (hb ▸ h66) (by rw [hext, hb]; exact hnext)]
    rw [hext, hb]
    rfl
  | ext b =>
    obtain ⟨hescape, hrest⟩ := holds_cons.mp h
    have hb : code (s.pc + 1) = b := hrest 0 b rfl
    obtain ⟨hskip, h67, h66, hnext⟩ := ext_cases b ho
    have hfirst : scan code (fuel + 2) s =
        scan code (fuel + 1) { s with ext := true, pc := s.pc + 1 } := by
      have hflag : Flag (entryOf opcodeTable 0x0f) OT_EXT := by decide
      rw [scan]
      dsimp only
      rw [hescape, hext, if_neg (by decide), if_neg (by decide), if_neg (by decide)]
      exact if_pos hflag
    rw [hfirst, scan_last (s := { s with ext := true, pc := s.pc + 1 })
      (hb ▸ hskip) (hb ▸ h67) (hb ▸ h66) (by dsimp only; rw [hb]; exact hnext)]
    dsimp only
    rw [hb]
    rfl

/-! ## The length -/

namespace Encoding

variable (i : Encoding) (is32bit : Bool)

theorem mod_cases (b : UChar) :
    (b &&& 0xc0) >>> 6 = 0 ∨ (b &&& 0xc0) >>> 6 = 1 ∨ (b &&& 0xc0) >>> 6 = 2 ∨
      (b &&& 0xc0) >>> 6 = 3 := by
  have hlt : ((b &&& 0xc0) >>> 6).toNat < 4 := by
    rw [BitVec.toNat_ushiftRight, BitVec.toNat_and, Nat.shiftRight_eq_div_pow]
    have hle : b.toNat &&& (0xc0 : UChar).toNat ≤ 0xc0 := Nat.and_le_right
    omega
  bv_omega

/-- The rules for 16-bit addresses, for an address of 32 bits. -/
theorem operandBytes_false (h32 : i.addr32 is32bit = true) :
    operandBytes false i.modRm = i.addressBytes is32bit ↔
      (i.mod ≠ 3 → i.mod = 0 ∧ i.rm ≠ 4 ∧ i.rm ≠ 5 ∧ i.rm ≠ 6 ∨ i.mod = 1 ∧ i.rm ≠ 4) := by
  unfold operandBytes addressBytes
  rw [if_pos h32, if_pos rfl]
  change (if i.mod = 0 then if i.rm = 6 then 2 else 0
    else if i.mod = 1 then 1 else if i.mod = 2 then 2 else 0) = _ ↔ _
  have hmod : i.mod = 0 ∨ i.mod = 1 ∨ i.mod = 2 ∨ i.mod = 3 := mod_cases i.modRm
  generalize i.mod = m at hmod ⊢
  generalize i.rm = r
  rcases hmod with rfl | rfl | rfl | rfl
  · by_cases h4 : r = 4#8
    · subst h4
      simp only [reduceIte]
      simp
      omega
    · by_cases h5 : r = 5#8
      · subst h5
        simp
      · by_cases h6 : r = 6#8 <;> simp [h4, h5, h6]
  · by_cases h4 : r = 4#8 <;> simp [h4]
  · by_cases h4 : r = 4#8 <;> simp [h4]
  · simp

/-- The rules for 32-bit addresses, without the SIB byte. -/
theorem operandBytes_true (h32 : i.addr32 is32bit = true) :
    operandBytes true i.modRm = i.addressBytes is32bit ↔ (i.mod ≠ 3 → i.rm ≠ 4) := by
  unfold operandBytes addressBytes
  rw [if_pos h32, if_neg (by decide)]
  change (if i.mod ≠ 3 then
      if i.rm = 4 then if i.mod = 1 then 1 else if i.mod = 2 then 4 else 0
      else if i.mod = 0 then if i.rm = 5 then 4 else 0
      else if i.mod = 1 then 1 else if i.mod = 2 then 4 else 0
    else 0) = _ ↔ _
  have hmod : i.mod = 0 ∨ i.mod = 1 ∨ i.mod = 2 ∨ i.mod = 3 := mod_cases i.modRm
  generalize i.mod = m at hmod ⊢
  generalize i.rm = r
  rcases hmod with rfl | rfl | rfl | rfl
  · by_cases h4 : r = 4#8
    · simp [h4]
      omega
    · simp [h4]
  · by_cases h4 : r = 4#8 <;> simp [h4]
  · by_cases h4 : r = 4#8 <;> simp [h4]
  · simp

theorem operandBytes_eq_iff :
    operandBytes (mode32 i.opcode.entry is32bit i.addrPfx) i.modRm = i.addressBytes is32bit ↔
      i.OperandOk is32bit := by
  by_cases h32 : i.addr32 is32bit = true
  · by_cases hword : Flag i.opcode.entry OT_WORD
    · have hmode : mode32 i.opcode.entry is32bit i.addrPfx = true := by
        rw [mode32, decide_eq_true hword]
        exact h32
      rw [hmode, i.operandBytes_true is32bit h32]
      simp only [OperandOk, h32, hword, if_true, true_imp_iff]
    · have hmode : mode32 i.opcode.entry is32bit i.addrPfx = false := by
        rw [mode32, decide_eq_false hword, Bool.false_and]
      rw [hmode, i.operandBytes_false is32bit h32]
      simp only [OperandOk, h32, hword, if_false, true_imp_iff]
  · have hmode : mode32 i.opcode.entry is32bit i.addrPfx = false := by
      rw [mode32]
      exact (congrArg _ (eq_false_of_ne_true h32)).trans (Bool.and_false _)
    refine iff_of_true ?_ fun h => absurd h h32
    rw [hmode, operandBytes, addressBytes, if_pos rfl, if_neg h32]
    change (if i.mod = 0 then if i.rm = 6 then 2 else 0
      else if i.mod = 1 then 1 else if i.mod = 2 then 2 else 0) = _
    have hmod : i.mod = 0 ∨ i.mod = 1 ∨ i.mod = 2 ∨ i.mod = 3 := mod_cases i.modRm
    generalize i.mod = m at hmod ⊢
    rcases hmod with rfl | rfl | rfl | rfl <;> simp

/-- The scan of an instruction whose prefixes and opcode are taken for what they are. -/
theorem scan_eq (hff : 0xff ∉ i.prefixes) (hop : i.opcode ≠ .one 0x80)
    (h : Holds code 0 i.bytes) :
    scan code (i.prefixes.length + 2) ⟨false, false, false, 0⟩ = some i.scanned := by
  obtain ⟨hpre, hrest⟩ := holds_append.mp h
  have hbytes : ∀ b ∈ i.prefixes, b ∈ prefixBytes := fun b hb =>
    prefix_cases b (i.hprefixes b hb) fun heq => hff (heq ▸ hb)
  rw [scan_prefixes (s := ⟨false, false, false, 0⟩) hbytes hpre, Nat.add_sub_cancel_left]
  rw [scan_opcode i.hmodRm hop (holds_append.mp hrest).1 rfl]
  simp only [scanned, addrPfx, opPfx, opcodeEnd, Bool.false_or, Nat.zero_add]

theorem rest_scanned (h : Holds code 0 i.bytes) :
    rest code is32bit i.scanned.1 i.scanned.2 =
      i.opcodeEnd + 1 + operandBytes (mode32 i.opcode.entry is32bit i.addrPfx) i.modRm +
        tailBytes i.opcode.entry i.opPfx is32bit := by
  have hmodRm : code i.opcodeEnd = i.modRm := by
    have hrest := (holds_append.mp (holds_append.mp h).2).2
    rw [Nat.zero_add] at hrest
    exact hrest 0 i.modRm rfl
  rw [rest, scanned]
  dsimp only
  rw [if_pos i.hmodRm, hmodRm]

/-- `0xff` among the prefixes is taken for the opcode. -/
theorem not_scanned_of_mem (hff : 0xff ∈ i.prefixes) (h : Holds code 0 i.bytes) (fuel : ℕ) :
    scan code fuel ⟨false, false, false, 0⟩ ≠ some i.scanned := by
  obtain ⟨pre, post, hsplit, hpre⟩ := List.eq_append_cons_of_mem hff
  have hbytes : ∀ b ∈ pre, b ∈ prefixBytes := fun b hb =>
    prefix_cases b (i.hprefixes b (by rw [hsplit]; exact List.mem_append_left _ hb))
      fun heq => hpre (heq ▸ hb)
  have hcode := (holds_append.mp h).1
  rw [hsplit, holds_append, holds_cons] at hcode
  obtain ⟨hholds, hcode, -⟩ := hcode
  rw [scan_prefixes (s := ⟨false, false, false, 0⟩) hbytes hholds]
  cases fuel - pre.length with
  | zero => exact nofun
  | succ left =>
    have hne : (0xff : UChar) ∉ skippedBytes := by decide
    have hext : ¬Flag (entryOf opcodeTable 0xff) OT_EXT := by decide
    rw [scan_last (hcode ▸ hne) (hcode ▸ by decide) (hcode ▸ by decide)
      (by dsimp only; rw [hcode]; exact hext)]
    intro heq
    -- the scan ends at once, before the end of the prefixes
    have hpc : 0 + pre.length + 1 = i.opcodeEnd := congrArg (·.2.pc) (Option.some.inj heq)
    have hpos : 0 < i.opcode.bytes.length := by cases i.opcode <;> exact Nat.succ_pos _
    have hlen := congrArg List.length hsplit
    rw [List.length_append, List.length_cons] at hlen
    rw [opcodeEnd] at hpc
    omega

/-- The opcode `0x80` is taken for a prefix. -/
theorem not_scanned_of_skipped (hff : 0xff ∉ i.prefixes) (hop : i.opcode = .one 0x80)
    (h : Holds code 0 i.bytes) (fuel : ℕ) :
    scan code fuel ⟨false, false, false, 0⟩ ≠ some i.scanned := by
  obtain ⟨hpre, hrest⟩ := holds_append.mp h
  have hbytes : ∀ b ∈ i.prefixes, b ∈ prefixBytes := fun b hb =>
    prefix_cases b (i.hprefixes b hb) fun heq => hff (heq ▸ hb)
  have hcode : code (0 + i.prefixes.length) = 0x80 := by
    rw [hop] at hrest
    exact hrest 0 0x80 rfl
  rw [scan_prefixes (s := ⟨false, false, false, 0⟩) hbytes hpre]
  cases fuel - i.prefixes.length with
  | zero => exact nofun
  | succ left =>
    have hskip : (0x80 : UChar) ∈ skippedBytes := by decide
    intro heq
    rw [scan] at heq
    dsimp only at heq
    rw [if_pos (hcode ▸ hskip)] at heq
    have hlt := lt_of_scan (show _ = some (i.scanned.1, i.scanned.2) from heq)
    have hend : i.opcodeEnd = i.prefixes.length + 1 := by
      rw [opcodeEnd, hop]
      rfl
    have hpc : i.scanned.2.pc = i.opcodeEnd := rfl
    dsimp only at hlt
    omega

theorem holds_getD (bytes : List UChar) : Holds (fun n => bytes.getD n 0) 0 bytes := by
  intro k b hk
  simp only [Nat.zero_add, List.getD_eq_getElem?_getD, hk, Option.getD_some]

/-- Which instructions are counted. -/
theorem counted_iff (i : Encoding) (is32bit : Bool) :
    i.Counted is32bit ↔ 0xff ∉ i.prefixes ∧ i.opcode ≠ .one 0x80 ∧ i.OperandOk is32bit := by
  constructor
  · intro h
    obtain ⟨fuel, hscan, hlen⟩ := h _ (holds_getD i.bytes)
    have hff : 0xff ∉ i.prefixes := fun hmem =>
      i.not_scanned_of_mem hmem (holds_getD i.bytes) fuel hscan
    refine ⟨hff, fun hop => i.not_scanned_of_skipped hff hop (holds_getD i.bytes) fuel hscan, ?_⟩
    rw [getInslen, hscan, Option.map_some, i.rest_scanned is32bit (holds_getD i.bytes), length]
      at hlen
    rw [← i.operandBytes_eq_iff is32bit]
    have heq := Option.some.inj hlen
    omega
  · rintro ⟨hff, hop, hok⟩ code h
    refine ⟨_, i.scan_eq hff hop h, ?_⟩
    rw [getInslen, i.scan_eq hff hop h, Option.map_some, i.rest_scanned is32bit h,
      (i.operandBytes_eq_iff is32bit).mpr hok, length]

/-- `mov al, [ebx + disp32]` in a 32-bit segment is counted with two bytes of displacement. -/
theorem byteOperand_not_counted : ¬∀ (i : Encoding) (is32bit : Bool), i.Counted is32bit := by
  intro h
  obtain ⟨fuel, hscan, hlen⟩ :=
    h ⟨[], .one 0x8a, 0x83, 0, by simp, by decide⟩ true _ (holds_getD _)
  rw [getInslen, hscan] at hlen
  exact absurd (Option.some.inj hlen) (by decide)

end Encoding

end Vmm386.InsLen
