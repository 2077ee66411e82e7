import Vmm386.Types

/-!
# The length of an instruction

`get_inslen` of `drivers/virtual/vm/inslen.c`. The code is taken by its distance from the place
where the instruction begins, which is also what the function returns.
-/

namespace Vmm386.InsLen

abbrev OT_MOD_RM : UChar := 0x01

abbrev OT_WORD : UChar := 0x02

abbrev OT_EXT : UChar := 0x04

abbrev OT_PFX : UChar := 0x08

abbrev OT_TAIL_BYTE : UChar := 0x10

abbrev OT_TAIL_WIDTH : UChar := 0x20

abbrev OT_TAIL_PTR : UChar := 0x80

def opcodeTable : List UChar :=
  [
    0x01, 0x03, 0x01, 0x03, 0x10, 0x12, 0x00, 0x00,
    0x01, 0x03, 0x01, 0x03, 0x10, 0x12, 0x00, 0x04,
    0x01, 0x03, 0x01, 0x03, 0x10, 0x12, 0x00, 0x00,
    0x01, 0x03, 0x01, 0x03, 0x10, 0x12, 0x00, 0x00,
    0x01, 0x03, 0x01, 0x03, 0x10, 0x12, 0x08, 0x00,
    0x01, 0x03, 0x01, 0x03, 0x10, 0x12, 0x08, 0x00,
    0x01, 0x03, 0x01, 0x03, 0x10, 0x12, 0x08, 0x00,
    0x01, 0x03, 0x01, 0x03, 0x10, 0x12, 0x08, 0x00,
    0x00, 0x00, 0x00, 0x00, 0x00, 0x00, 0x00, 0x00,
    0x00, 0x00, 0x00, 0x00, 0x00, 0x00, 0x00, 0x00,
    0x00, 0x00, 0x00, 0x00, 0x00, 0x00, 0x00, 0x00,
    0x00, 0x00, 0x00, 0x00, 0x00, 0x00, 0x00, 0x00,
    0x00, 0x00, 0x01, 0x01, 0x08, 0x08, 0x08, 0x08,
    0x10, 0x81, 0x10, 0x11, 0x00, 0x00, 0x00, 0x00,
    0x10, 0x10, 0x10, 0x10, 0x10, 0x10, 0x10, 0x10,
    0x10, 0x10, 0x10, 0x10, 0x10, 0x10, 0x10, 0x10,
    0x11, 0x23, 0x00, 0x13, 0x01, 0x03, 0x01, 0x03,
    0x01, 0x03, 0x01, 0x03, 0x03, 0x01, 0x03, 0x03,
    0x00, 0x00, 0x00, 0x00, 0x00, 0x00, 0x00, 0x00,
    0x00, 0x00, 0x80, 0x00, 0x00, 0x00, 0x00, 0x00,
    0x10, 0x20, 0x10, 0x20, 0x00, 0x00, 0x00, 0x00,
    0x10, 0x20, 0x00, 0x00, 0x00, 0x00, 0x00, 0x00,
    0x10, 0x10, 0x10, 0x10, 0x10, 0x10, 0x10, 0x10,
    0x20, 0x20, 0x20, 0x20, 0x20, 0x20, 0x20, 0x20,
    0x11, 0x13, 0x20, 0x00, 0x80, 0x80, 0x11, 0x23,
    0x30, 0x00, 0x20, 0x00, 0x00, 0x10, 0x00, 0x00,
    0x00, 0x02, 0x00, 0x02, 0x00, 0x00, 0x00, 0x00,
    0x00, 0x00, 0x00, 0x00, 0x00, 0x00, 0x00, 0x00,
    0x10, 0x10, 0x10, 0x10, 0x10, 0x10, 0x10, 0x10,
    0x20, 0x20, 0x80, 0x10, 0x00, 0x00, 0x00, 0x00,
    0x00, 0x00, 0x00, 0x00, 0x00, 0x00, 0x01, 0x03,
    0x00, 0x00, 0x00, 0x00, 0x00, 0x00, 0x00, 0x0b
  ]

def opcodeExtTable : List UChar :=
  [
    0x00, 0x00, 0x03, 0x03, 0x00, 0x00, 0x00, 0x00,
    0x00, 0x00, 0x00, 0x00, 0x00, 0x00, 0x00, 0x00,
    0x00, 0x00, 0x00, 0x00, 0x00, 0x00, 0x00, 0x00,
    0x00, 0x00, 0x00, 0x00, 0x00, 0x00, 0x00, 0x00,
    0x00, 0x00, 0x00, 0x00, 0x00, 0x00, 0x00, 0x00,
    0x00, 0x00, 0x00, 0x00, 0x00, 0x00, 0x00, 0x00,
    0x00, 0x00, 0x00, 0x00, 0x00, 0x00, 0x00, 0x00,
    0x00, 0x00, 0x00, 0x00, 0x00, 0x00, 0x00, 0x00,
    0x00, 0x00, 0x00, 0x00, 0x00, 0x00, 0x00, 0x00,
    0x00, 0x00, 0x00, 0x00, 0x00, 0x00, 0x00, 0x00,
    0x00, 0x00, 0x00, 0x00, 0x00, 0x00, 0x00, 0x00,
    0x00, 0x00, 0x00, 0x00, 0x00, 0x00, 0x00, 0x00,
    0x00, 0x00, 0x00, 0x00, 0x00, 0x00, 0x00, 0x00,
    0x00, 0x00, 0x00, 0x00, 0x00, 0x00, 0x00, 0x00,
    0x00, 0x00, 0x00, 0x00, 0x00, 0x00, 0x00, 0x00,
    0x00, 0x00, 0x00, 0x00, 0x00, 0x00, 0x00, 0x00,
    0x20, 0x20, 0x20, 0x20, 0x20, 0x20, 0x20, 0x20,
    0x20, 0x20, 0x20, 0x20, 0x20, 0x20, 0x20, 0x20,
    0x01, 0x01, 0x01, 0x01, 0x01, 0x01, 0x01, 0x01,
    0x01, 0x01, 0x01, 0x01, 0x01, 0x01, 0x01, 0x01,
    0x00, 0x00, 0x00, 0x03, 0x13, 0x03, 0x00, 0x00,
    0x00, 0x00, 0x00, 0x03, 0x13, 0x03, 0x00, 0x03,
    0x00, 0x00, 0x81, 0x03, 0x81, 0x81, 0x00, 0x00,
    0x00, 0x00, 0x13, 0x03, 0x03, 0x03, 0x00, 0x00,
    0x00, 0x00, 0x00, 0x00, 0x00, 0x00, 0x00, 0x00,
    0x00, 0x00, 0x00, 0x00, 0x00, 0x00, 0x00, 0x00,
    0x00, 0x00, 0x00, 0x00, 0x00, 0x00, 0x00, 0x00,
    0x00, 0x00, 0x00, 0x00, 0x00, 0x00, 0x00, 0x00,
    0x00, 0x00, 0x00, 0x00, 0x00, 0x00, 0x00, 0x00,
    0x00, 0x00, 0x00, 0x00, 0x00, 0x00, 0x00, 0x00,
    0x00, 0x00, 0x00, 0x00, 0x00, 0x00, 0x00, 0x00,
    0x00, 0x00, 0x00, 0x00, 0x00, 0x00, 0x00, 0x00
  ]

/-- The entry of a table of 256 bytes. -/
def entryOf (table : List UChar) (byte : UChar) : UChar := table.getD byte.toNat 0

/-- A flag of an entry. -/
def Flag (entry flag : UChar) : Prop := entry &&& flag ≠ 0

instance (entry flag : UChar) : Decidable (Flag entry flag) := inferInstanceAs (Decidable (_ ≠ _))

/-- The bytes at which the `switch` goes on without a flag. -/
def skippedBytes : List UChar := [0x80, 0x2e, 0x3e, 0x26, 0x64, 0x65, 0x36]

/-- What is known behind the label `again`. `pc` is the number of bytes that were taken. -/
structure Scan where
  ext : Bool
  addrPfx : Bool
  opPfx : Bool
  pc : ℕ
deriving DecidableEq, Repr

/-- From `again` on, with at most `fuel` bytes: the entry of the opcode, and what is known behind
it. -/
def scan (code : ℕ → UChar) : ℕ → Scan → Option (UChar × Scan)
  | 0, _ => none
  | fuel + 1, s =>
    let byte := code s.pc
    let s := { s with pc := s.pc + 1 }
    if byte ∈ skippedBytes then scan code fuel s
    else if byte = 0x67 then scan code fuel { s with addrPfx := true }
    else if byte = 0x66 then scan code fuel { s with opPfx := true }
    else
      let entry := entryOf (if s.ext then opcodeExtTable else opcodeTable) byte
      if Flag entry OT_EXT then scan code fuel { s with ext := true } else some (entry, s)

/-- How far `pc` is moved behind the mod r/m byte. -/
def operandBytes (mode32 : Bool) (modRm : UChar) : ℕ :=
  let mod := (modRm &&& 0xc0) >>> 6
  let rm := modRm &&& 0x7
  if mode32 = false then
    if mod = 0 then if rm = 6 then 2 else 0
    else if mod = 1 then 1
    else if mod = 2 then 2
    else 0
  else if mod ≠ 3 then
    if rm = 4 then if mod = 1 then 1 else if mod = 2 then 4 else 0
    else if mod = 0 then if rm = 5 then 4 else 0
    else if mod = 1 then 1
    else if mod = 2 then 4
    else 0
  else 0

/-- How far `pc` is moved for what follows the operand. -/
def tailBytes (entry : UChar) (opPfx is32bit : Bool) : ℕ :=
  (if Flag entry OT_TAIL_BYTE then 1 else 0) +
    (if Flag entry OT_TAIL_WIDTH then
      if opPfx then if is32bit then 2 else 4 else if is32bit then 4 else 2
    else 0) +
    if Flag entry OT_TAIL_PTR then if opPfx then 6 else 4 else 0

/-- The variable `mode_32`. -/
def mode32 (entry : UChar) (is32bit addrPfx : Bool) : Bool :=
  decide (Flag entry OT_WORD) && (is32bit ^^ addrPfx)

/-- What `get_inslen` does behind the opcode. -/
def rest (code : ℕ → UChar) (is32bit : Bool) (entry : UChar) (s : Scan) : ℕ :=
  let pc :=
    if Flag entry OT_MOD_RM then
      s.pc + 1 + operandBytes (mode32 entry is32bit s.addrPfx) (code s.pc)
    else s.pc
  pc + tailBytes entry s.opPfx is32bit

/-- `get_inslen`, with at most `fuel` bytes up to the end of the opcode. -/
def getInslen (code : ℕ → UChar) (fuel : ℕ) (is32bit : Bool) : Option ℕ :=
  (scan code fuel ⟨false, false, false, 0⟩).map fun r => rest code is32bit r.1 r.2

end Vmm386.InsLen
