import Vmm386.Types

/-!
# Loading a module file

`load_module`, `fix_relocs` and `free_module` of `kernel/modules/load.c`, on the bytes of the file
and of the memory. The stores through addresses that the loader computes are recorded; the
kernel's own variables and the stack are not part of this memory. A call of `fs->read` gives what
is left of the file, up to the byte at which the device fails, or an error.
-/

namespace Vmm386.Modules.LoadFile

abbrev MOD_MAGIC : UShort := 0xDF41

abbrev MOD_STRUCT_REV : UChar := 1

/-- `sizeof(struct mod_hdr)`. -/
abbrev HDR_SIZE : ℕ := 48

abbrev RBUFSIZ : ℕ := 64

/-- The bytes of the memory. -/
abbrev Memory := ULong → UChar

/-- Four bytes, as a `u_long`. -/
def long (b : ℕ → UChar) (i : ℕ) : ULong := b (i + 3) ++ b (i + 2) ++ b (i + 1) ++ b i

/-- The bytes of a `u_long`. -/
def longBytes (v : ULong) : List UChar :=
  [v.extractLsb' 0 8, v.extractLsb' 8 8, v.extractLsb' 16 8, v.extractLsb' 24 8]

/-- The `u_long` at an address. -/
def Memory.long (m : Memory) (a : ULong) : ULong :=
  LoadFile.long (fun i => m (a + BitVec.ofNat 32 i)) 0

/-- The memory with some bytes stored at an address. -/
def Memory.store (m : Memory) (a : ULong) (bytes : List UChar) : Memory :=
  fun b => bytes.getD (b - a).toNat (m b)

/-- `memset(a, 0, n)`. -/
def Memory.clear (m : Memory) (a n : ULong) : Memory := fun b => if b - a < n then 0 else m b

/-- What `malloc` has given. -/
structure Block where
  start : ULong
  size : ULong
  deriving DecidableEq

/-- The `n` bytes at an address lie in the block. -/
def Block.Holds (b : Block) (w : ULong × ℕ) : Prop :=
  w.2 = 0 ∨ (w.1 - b.start).toNat + w.2 ≤ b.size.toNat

instance (b : Block) (w : ULong × ℕ) : Decidable (b.Holds w) := inferInstanceAs (Decidable (_ ∨ _))

/-- The memory, the module list, the block that `load_module` has allocated, what it has freed,
the stores it has made, and for every relocation it has applied if its entry has been read
completely. -/
structure State where
  mem : Memory
  modChain : List ULong
  block : Option Block := none
  freed : List ULong := []
  stores : List (ULong × ℕ) := []
  entries : List Bool := []

/-- A store. -/
def State.store (s : State) (a : ULong) (bytes : List UChar) : State :=
  { s with mem := s.mem.store a bytes, stores := s.stores ++ [(a, bytes.length)] }

/-- The device fails at the given byte of what is read; at the first one, the call returns an
error. -/
abbrev Fault := Option ℕ

/-- What does not depend on the code: the file, if it can be opened, the faults of the device,
what `malloc` returns, what lies on the stack before each read of relocations, the address of
`kernel`, and what the function `init` of the module returns, which leaves the structure of the
module and the module list alone. -/
structure Input where
  file : Option (List UChar)
  headerFault : Fault := none
  textSeekFails : Bool := false
  textFault : Fault := none
  relocSeekFails : Bool := false
  relocFault : ℕ → Fault := fun _ => none
  malloc : Option ULong
  stack : ℕ → ℕ → UChar := fun _ _ => 0
  kernel : ULong
  init : Bool := true

/-- `fs->read(buf, len, fh)` at the position `pos`. -/
def read (content : List UChar) (pos len : ℕ) (fault : Fault) : Option (List UChar) :=
  let bytes := (content.drop pos).take len
  match fault with
  | none => some bytes
  | some 0 => none
  | some n => some (bytes.take n)

/-- `fs->seek(fh, pos, SEEK_ABS) >= 0`. A `long` below zero and a position behind the end are
refused. -/
def canSeek (content : List UChar) (pos : ULong) (fails : Bool) : Bool :=
  !fails && decide (0 ≤ pos.toInt ∧ pos.toInt ≤ content.length)

/-- `struct mod_hdr`. -/
structure Header where
  magic : UShort
  revision : UChar
  initSize : ULong
  bssSize : ULong
  relocSize : ULong

/-- The header in the first bytes of a file. -/
def header (bytes : List UChar) : Header :=
  let b i := bytes.getD i 0
  { magic := b 1 ++ b 0
    revision := b 2
    initSize := long b 4
    bssSize := long b 8
    relocSize := long b 12 }

/-- `M_RELOFF`. -/
def Header.relOff (hdr : Header) : ULong := BitVec.ofNat 32 HDR_SIZE + hdr.initSize

/-- `mod_size`. -/
def Header.modSize (hdr : Header) : ULong := hdr.initSize + hdr.bssSize

/-- The number of the relocations. -/
def Header.numRelocs (hdr : Header) : ℕ := (hdr.relocSize / 4).toNat

/-! ## `fix_relocs` -/

/-- What is in `rbuf` once bytes have been read over what has been there: the entries, and if they
have been read completely. -/
def rbufEntries (stack : ℕ → UChar) (bytes : List UChar) (this : ℕ) : List (ULong × Bool) :=
  (List.range this).map fun j =>
    (long (fun i => bytes.getD i (stack i)) (4 * j), decide (4 * j + 4 ≤ bytes.length))

/-- Applies a relocation. -/
def applyReloc (modStart : ULong) (s : State) (e : ULong × Bool) : State :=
  let a := modStart + e.1
  let s := s.store a (longBytes (s.mem.long a + modStart))
  { s with entries := s.entries ++ [e.2] }

/-- The loop of `fix_relocs`, with `left` relocations to go in the rounds from `round` on. -/
def relocLoop (x : Input) (content : List UChar) (modStart : ULong) :
    ℕ → ℕ → ℕ → ℕ → State → Bool × State
  | 0, _, _, _, s => (true, s)
  | fuel + 1, left, pos, round, s =>
    if left = 0 then (true, s)
    else
      let this := min RBUFSIZ left
      match read content pos (this * 4) (x.relocFault round) with
      | none => (false, s)
      | some bytes =>
        relocLoop x content modStart fuel (left - this) (pos + bytes.length) (round + 1)
          ((rbufEntries (x.stack round) bytes this).foldl (applyReloc modStart) s)

/-- `fix_relocs`. -/
def fixRelocs (x : Input) (hdr : Header) (content : List UChar) (modStart : ULong) (s : State) :
    Bool × State :=
  if canSeek content hdr.relOff x.relocSeekFails then
    relocLoop x content modStart hdr.numRelocs hdr.numRelocs hdr.relOff.toNat 0 s
  else (false, s)

/-! ## `load_module` -/

/-- `add_module`, which links the module in front of the list. -/
def addModule (mod : ULong) (s : State) : State :=
  let s := s.store mod (longBytes (s.modChain.headD 0))
  { s with modChain := mod :: s.modChain }

/-- `remove_module`. -/
def removeModule (mod : ULong) (s : State) : State := { s with modChain := s.modChain.erase mod }

/-- `free_module`. -/
def freeModule (mod : ULong) (s : State) : State :=
  if s.mem (mod + 36) = 0 then
    let s := { s with freed := s.freed ++ [s.mem.long (mod + 12)] }
    (s.store (mod + 12) (longBytes 0)).store (mod + 16) (longBytes 0)
  else s

/-- `mod->open_count++`. -/
def incOpenCount (mod : ULong) (s : State) : State :=
  let count : UShort := s.mem (mod + 11) ++ s.mem (mod + 10)
  s.store (mod + 10) [(count + 1).extractLsb' 0 8, (count + 1).extractLsb' 8 8]

/-- The part of `load_module` that fills in the structure of the module, and links it. -/
def linkModule (x : Input) (block : Block) (mod : ULong) (s : State) : State :=
  let s := s.store (s.mem.long (block.start + 4)) (longBytes x.kernel)
  let s := s.store (mod + 12) (longBytes block.start)
  let s := s.store (mod + 16) (longBytes block.size)
  let s := s.store (mod + 36) [0]
  let s := s.store (mod + 10) [0xFF, 0xFF]
  addModule mod s

/-- The part of `load_module` behind `fix_relocs`. -/
def startModule (x : Input) (block : Block) (s : State) : Option ULong × State :=
  let mod := s.mem.long block.start
  let s := linkModule x block mod s
  if s.mem.long (mod + 20) = 0 ∨ x.init then (some mod, incOpenCount mod s)
  else (none, freeModule mod (removeModule mod s))

/-- `memset(mod_start + hdr.init_size, 0, hdr.bss_size)`. -/
def clearBss (hdr : Header) (block : Block) (s : State) : State :=
  let a := block.start + hdr.initSize
  { s with
    mem := s.mem.clear a hdr.bssSize
    stores := s.stores ++ [(a, hdr.bssSize.toNat)] }

/-- The part of `load_module` behind the `memset`. -/
def finishLoad (x : Input) (hdr : Header) (content : List UChar) (block : Block) (s : State) :
    Option ULong × State :=
  match fixRelocs x hdr content block.start s with
  | (false, s) => (none, s)
  | (true, s) => startModule x block s

/-- `load_module`, once `malloc` has given a block. -/
def loadBlock (x : Input) (hdr : Header) (content : List UChar) (block : Block) (s : State) :
    Option ULong × State :=
  let s := { s with block := some block }
  if canSeek content (BitVec.ofNat 32 HDR_SIZE) x.textSeekFails then
    match read content HDR_SIZE hdr.initSize.toNat x.textFault with
    | none => (none, s)
    | some bytes =>
      let s := s.store block.start bytes
      if bytes.length > 0 then finishLoad x hdr content block (clearBss hdr block s)
      else (none, s)
  else (none, s)

/-- The header of a file, if `load_module` goes on with it. -/
def readHeader (x : Input) (content : List UChar) : Option Header :=
  (read content 0 HDR_SIZE x.headerFault).bind fun bytes =>
    if bytes.length = HDR_SIZE ∧ (header bytes).magic = MOD_MAGIC ∧
        (header bytes).revision = MOD_STRUCT_REV then some (header bytes) else none

/-- `load_module`. -/
def loadModule (x : Input) (s : State) : Option ULong × State :=
  match x.file with
  | none => (none, s)
  | some content =>
    match readHeader x content with
    | none => (none, s)
    | some hdr =>
      match x.malloc with
      | none => (none, s)
      | some start => loadBlock x hdr content ⟨start, hdr.modSize⟩ s

end Vmm386.Modules.LoadFile
