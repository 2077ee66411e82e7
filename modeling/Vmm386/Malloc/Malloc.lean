import Vmm386.Types
import Mathlib.Algebra.Order.Ring.Int
import Mathlib.Logic.Function.Basic

/-!
# The kernel's heap

`kernel/alloc`. The heap is divided into blocks. A table has an entry for each of them: the free
clusters of blocks are linked through it, and the free fragments of the blocks that are broken up are
linked through the memory of the fragments. Numbers of blocks and fragments are natural numbers; a
`size_t` or a `long` that may wrap does.

The bytes of the table are not in the memory of the model, its entries are `heapinfo`. A loop over links
that takes more steps than the table has entries does not end.
-/

namespace Vmm386.Malloc

abbrev BLOCKLOG : ℕ := 12

abbrev BLOCKSIZE : ℕ := 4096

abbrev HEAP : ℕ := 4194304

abbrev FINAL_FREE_BLOCKS : ℕ := 8

/-- `sizeof(union info)`. -/
abbrev INFO_SIZE : ℕ := 12

/-- Where the heap's space ends (`PHYS_MAP_ADDR - KERNEL_BASE_ADDR`). -/
abbrev PHYS_MAP : ℕ := 8 * 1024 * 1024

/-- Conversion to `long`. -/
def long (v : ℤ) : ℤ := v.bmod (2 ^ 32)

/-- Conversion to `size_t`. -/
def ulong (v : ℤ) : ℕ := (v % 2 ^ 32).toNat

/-- `BLOCKIFY`. -/
def blockify (size : ℕ) : ℕ := ulong (size + BLOCKSIZE - 1) / BLOCKSIZE

/-- `union info`, with the names of `free`. -/
@[ext] structure Info where
  size : ℕ
  next : ℕ
  prev : ℕ
deriving DecidableEq

namespace Info

/-! The names of `busy` for the same words. -/

abbrev type (i : Info) : ℕ := i.size

abbrev busySize (i : Info) : ℕ := i.next

abbrev nfree (i : Info) : ℕ := i.next

abbrev first (i : Info) : ℕ := i.prev

end Info

/-! ## Memory -/

abbrev Mem := ℕ → UChar

/-- The pointer at `a`. -/
def load (m : Mem) (a : ℕ) : ℕ :=
  (m a).toNat + 256 * (m (a + 1)).toNat + 65536 * (m (a + 2)).toNat + 16777216 * (m (a + 3)).toNat

def store (m : Mem) (a v : ℕ) : Mem := fun x =>
  if a ≤ x ∧ x < a + 4 then BitVec.ofNat 8 (v / 256 ^ (x - a)) else m x

/-- `memset(dst, 0, len)`. -/
def clear (m : Mem) (dst len : ℕ) : Mem := fun x => if dst ≤ x ∧ x < dst + len then 0 else m x

/-- `memmove`, and `memcpy` of regions that do not overlap. -/
def move (m : Mem) (dst src len : ℕ) : Mem := fun x =>
  if dst ≤ x ∧ x < dst + len then m (src + (x - dst)) else m x

/-- The variables of the allocator, and the kernel's break. `grants` are the answers to the requests for
more pages, with what is in them. -/
structure Heap where
  brk : ℕ
  grants : List (Option Mem)
  mem : Mem
  fraghead : ℕ
  heapbase : ℕ
  tableAddr : ℕ
  heapinfo : ℕ → Info
  heapsize : ℕ
  heapindex : ℕ
  heaplimit : ℕ
  fragblocks : ℕ → ℕ
  initialized : Bool

namespace Heap

variable (h : Heap)

/-- `BLOCK`. -/
def block (a : ℕ) : ℕ := (a - h.heapbase) / BLOCKSIZE + 1

/-- `ADDRESS`. -/
def address (b : ℕ) : ℕ := (b - 1) * BLOCKSIZE + h.heapbase

def setInfo (b : ℕ) (i : Info) : Heap := { h with heapinfo := Function.update h.heapinfo b i }

def setSize (b v : ℕ) : Heap := h.setInfo b { h.heapinfo b with size := v }

def setNext (b v : ℕ) : Heap := h.setInfo b { h.heapinfo b with next := v }

def setPrev (b v : ℕ) : Heap := h.setInfo b { h.heapinfo b with prev := v }

theorem heapinfo_setInfo (b c : ℕ) (i : Info) :
    (h.setInfo b i).heapinfo c = if c = b then i else h.heapinfo c :=
  Function.update_apply _ _ _ _

@[simp] theorem size_setSize (b v c : ℕ) :
    ((h.setSize b v).heapinfo c).size = if c = b then v else (h.heapinfo c).size := by
  rw [setSize, heapinfo_setInfo]
  split
  · rfl
  · rfl

@[simp] theorem next_setSize (b v c : ℕ) :
    ((h.setSize b v).heapinfo c).next = (h.heapinfo c).next := by
  rw [setSize, heapinfo_setInfo]
  split
  · rename_i heq
    rw [heq]
  · rfl

@[simp] theorem prev_setSize (b v c : ℕ) :
    ((h.setSize b v).heapinfo c).prev = (h.heapinfo c).prev := by
  rw [setSize, heapinfo_setInfo]
  split
  · rename_i heq
    rw [heq]
  · rfl

@[simp] theorem size_setNext (b v c : ℕ) :
    ((h.setNext b v).heapinfo c).size = (h.heapinfo c).size := by
  rw [setNext, heapinfo_setInfo]
  split
  · rename_i heq
    rw [heq]
  · rfl

@[simp] theorem next_setNext (b v c : ℕ) :
    ((h.setNext b v).heapinfo c).next = if c = b then v else (h.heapinfo c).next := by
  rw [setNext, heapinfo_setInfo]
  split
  · rfl
  · rfl

@[simp] theorem prev_setNext (b v c : ℕ) :
    ((h.setNext b v).heapinfo c).prev = (h.heapinfo c).prev := by
  rw [setNext, heapinfo_setInfo]
  split
  · rename_i heq
    rw [heq]
  · rfl

@[simp] theorem size_setPrev (b v c : ℕ) :
    ((h.setPrev b v).heapinfo c).size = (h.heapinfo c).size := by
  rw [setPrev, heapinfo_setInfo]
  split
  · rename_i heq
    rw [heq]
  · rfl

@[simp] theorem next_setPrev (b v c : ℕ) :
    ((h.setPrev b v).heapinfo c).next = (h.heapinfo c).next := by
  rw [setPrev, heapinfo_setInfo]
  split
  · rename_i heq
    rw [heq]
  · rfl

@[simp] theorem prev_setPrev (b v c : ℕ) :
    ((h.setPrev b v).heapinfo c).prev = if c = b then v else (h.heapinfo c).prev := by
  rw [setPrev, heapinfo_setInfo]
  split
  · rfl
  · rfl

/-! ## More memory -/

/-- `_default_morecore`, with `kernel_sbrk`. -/
def moreBreak (size : ℤ) : ℕ × Heap :=
  let brk := ulong (h.brk + (size + 3) / 4 * 4)
  if brk < PHYS_MAP then
    if brk ≤ h.brk then (h.brk, { h with brk := brk })
    else
      match h.grants with
      | some fresh :: grants =>
        (h.brk, { h with
          brk := brk, grants := grants
          mem := fun a => if h.brk ≤ a ∧ a < brk then fresh a else h.mem a })
      | none :: grants => (0, { h with grants := grants })
      | [] => (0, h)
  else (0, h)

/-- `align`: memory up to the next block, behind what there is. -/
def adjust (result : ℕ) : ℕ × Heap :=
  let adj := BLOCKSIZE - result % BLOCKSIZE
  (result + adj, (h.moreBreak adj).2)

/-- `align`. -/
def align (size : ℕ) : ℕ × Heap :=
  let r := h.moreBreak (long size)
  if r.1 % BLOCKSIZE ≠ 0 then r.2.adjust r.1 else r

/-- `initialize`. -/
def initHeap : Bool × Heap :=
  let (table, h) := { h with heapsize := HEAP / BLOCKSIZE }.align (HEAP / BLOCKSIZE * INFO_SIZE)
  if table = 0 then (false, { h with tableAddr := table })
  else
    (true, { h with
      tableAddr := table, heapbase := table, heapindex := 0, initialized := true
      heapinfo := fun b => if b < h.heapsize then ⟨0, 0, 0⟩ else h.heapinfo b })

/-! ## Free blocks -/

/-- `free`: the search to the left. -/
def backLoop (block : ℕ) : ℕ → ℕ → Option ℕ
  | 0, _ => none
  | k + 1, i => if i > block then backLoop block k (h.heapinfo i).prev else some i

/-- `free`: the search to the right. -/
def aheadLoop (block : ℕ) : ℕ → ℕ → Option ℕ
  | 0, _ => none
  | k + 1, i =>
    let i := (h.heapinfo i).next
    if i > 0 ∧ i < block then aheadLoop block k i else some i

/-- `free`: the free cluster before a block. -/
def freeBefore (block : ℕ) : Option ℕ :=
  if h.heapindex > block then h.backLoop block (h.heapsize + 1) h.heapindex
  else (h.aheadLoop block (h.heapsize + 1) h.heapindex).map fun i => (h.heapinfo i).prev

/-- `free`: the block is linked in, or is the end of the cluster before it. -/
def linkBlock (i block : ℕ) : ℕ × Heap :=
  if block = i + (h.heapinfo i).size then
    (i, h.setSize i ((h.heapinfo i).size + (h.heapinfo block).busySize))
  else
    let h := h.setSize block (h.heapinfo block).busySize
    let h := h.setNext block (h.heapinfo i).next
    let h := h.setPrev block i
    let h := h.setNext i block
    (block, h.setPrev (h.heapinfo block).next block)

/-- `free`: the cluster behind it becomes a part of it. -/
def joinNext (block : ℕ) : Heap :=
  if block + (h.heapinfo block).size = (h.heapinfo block).next then
    let h := h.setSize block
      ((h.heapinfo block).size + (h.heapinfo (h.heapinfo block).next).size)
    let h := h.setNext block (h.heapinfo (h.heapinfo block).next).next
    h.setPrev (h.heapinfo block).next block
  else h

/-- `free`: memory is returned to the system. -/
def trim (block : ℕ) : ℕ × Heap :=
  let blocks := (h.heapinfo block).size
  if blocks ≥ FINAL_FREE_BLOCKS ∧ block + blocks = h.heaplimit ∧
      (h.moreBreak 0).1 = h.address (block + blocks) then
    let (_, h) := { h with heaplimit := h.heaplimit - blocks }.moreBreak
      (long (-(blocks * BLOCKSIZE)))
    let h := h.setNext (h.heapinfo block).prev (h.heapinfo block).next
    let h := h.setPrev (h.heapinfo block).next (h.heapinfo block).prev
    ((h.heapinfo block).prev, h)
  else (block, h)

/-- `free`: a cluster of blocks. -/
def freeBlocks (block : ℕ) : Option Heap :=
  (h.freeBefore block).map fun i =>
    let (block, h) := h.linkBlock i block
    let (block, h) := (h.joinNext block).trim block
    { h with heapindex := block }

/-! ## Allocated blocks -/

/-- `morecore`: the new size of the table. -/
def newSize (limit : ℕ) : ℕ → ℕ → ℕ
  | 0, size => size
  | k + 1, size => if limit > size then newSize limit k (size * 2) else size

/-- `morecore`: the table is copied, and the memory of the old one is free. -/
def moveTable (newinfo newsize : ℕ) : Option Heap :=
  let oldinfo := h.block h.tableAddr
  let old := { h with
    tableAddr := newinfo
    heapinfo := fun b =>
      if b < h.heapsize then h.heapinfo b else if b < newsize then ⟨0, 0, 0⟩ else h.heapinfo b }
  let old := old.setSize oldinfo 0
  let old := old.setNext oldinfo (blockify (h.heapsize * INFO_SIZE))
  (old.freeBlocks oldinfo).map fun h => { h with heapsize := newsize }

/-- `morecore`: a table that has entries for the new memory, too. -/
def growTable (result size limit : ℕ) : Option (ℕ × Heap) :=
  let newsize := newSize limit 32 h.heapsize
  let r := h.align (newsize * INFO_SIZE)
  if r.1 = 0 then some (0, (r.2.moreBreak (long (-size))).2)
  else (r.2.moveTable r.1 newsize).map fun h => (result, { h with heaplimit := limit })

/-- `morecore`. -/
def morecore (size : ℕ) : Option (ℕ × Heap) :=
  let r := h.align size
  let limit := r.2.block (r.1 + size)
  if r.1 = 0 then some (0, r.2)
  else if limit > r.2.heapsize then r.2.growTable r.1 size limit
  else some (r.1, { r.2 with heaplimit := limit })

/-- `malloc`: the end of a free cluster is linked in its place. -/
def splitBlocks (blocks block : ℕ) : Heap :=
  let rest := block + blocks
  let h := h.setSize rest ((h.heapinfo block).size - blocks)
  let h := h.setNext rest (h.heapinfo block).next
  let h := h.setPrev rest (h.heapinfo block).prev
  let h := { h with heapindex := rest }
  let h := h.setPrev (h.heapinfo block).next rest
  h.setNext (h.heapinfo block).prev rest

/-- `malloc`: a free cluster is unlinked. -/
def unlinkBlocks (block : ℕ) : Heap :=
  let h := h.setPrev (h.heapinfo block).next (h.heapinfo block).prev
  let h := { h with heapindex := (h.heapinfo block).next }
  h.setNext (h.heapinfo block).prev (h.heapinfo block).next

/-- `malloc`: the blocks are taken from a free cluster. -/
def takeBlocks (blocks block : ℕ) : ℕ × Heap :=
  let h' := if (h.heapinfo block).size > blocks then h.splitBlocks blocks block
    else h.unlinkBlocks block
  (h.address block, (h'.setSize block 0).setNext block blocks)

/-- `malloc`: blocks that are not in a free cluster. -/
def coreBlocks (blocks : ℕ) : Option (ℕ × Heap) :=
  (h.morecore (ulong (blocks * BLOCKSIZE))).map fun (result, h) =>
    if result = 0 then (0, h)
    else (result, (h.setSize (h.block result) 0).setNext (h.block result) blocks)

/-- `malloc`: the last free cluster is made larger, if it is at the end of the heap. `none` is no
memory. -/
def extendLast (blocks : ℕ) : Option (Option ℕ × Heap) :=
  let block := (h.heapinfo 0).prev
  let lastblocks := (h.heapinfo block).size
  if h.heaplimit ≠ 0 ∧ block + lastblocks = h.heaplimit ∧
      (h.moreBreak 0).1 = h.address (block + lastblocks) then
    (h.morecore (ulong ((blocks - lastblocks : ℕ) * BLOCKSIZE))).map fun (result, h) =>
      if result = 0 then (none, h)
      else
        let block := (h.heapinfo 0).prev
        (some block, h.setSize block ((h.heapinfo block).size + (blocks - lastblocks)))
  else some (none, h)

/-- `malloc`: the search for a free cluster. -/
def findBlocks (blocks start : ℕ) : ℕ → ℕ → Heap → Option (ℕ × Heap)
  | 0, _, _ => none
  | k + 1, block, h =>
    if (h.heapinfo block).size < blocks then
      let block := (h.heapinfo block).next
      if block = start then
        (h.extendLast blocks).bind fun
          | (some block, h) => findBlocks blocks start k block h
          | (none, h) => h.coreBlocks blocks
      else findBlocks blocks start k block h
    else some (h.takeBlocks blocks block)

/-- `malloc`: whole blocks. -/
def mallocBlocks (blocks : ℕ) : Option (ℕ × Heap) :=
  findBlocks blocks h.heapindex (h.heapsize + 2) h.heapindex h

/-! ## Fragments -/

/-- `&_fraghead[log]`. -/
def head (log : ℕ) : ℕ := h.fraghead + 8 * log

/-- The field `next` of a `struct list`. -/
def listNext (a : ℕ) : ℕ := load h.mem a

/-- The field `prev` of a `struct list`. -/
def listPrev (a : ℕ) : ℕ := load h.mem (a + 4)

def setListNext (a v : ℕ) : Heap := { h with mem := store h.mem a v }

def setListPrev (a v : ℕ) : Heap := { h with mem := store h.mem (a + 4) v }

def setFragblocks (log v : ℕ) : Heap :=
  { h with fragblocks := Function.update h.fragblocks log v }

/-- `malloc`: the logarithm of the size of a fragment. -/
def logLoop : ℕ → ℕ → ℕ → ℕ
  | 0, _, log => log
  | k + 1, size, log => if size / 2 ≠ 0 then logLoop k (size / 2) (log + 1) else log

/-- `if(next) next->prev = prev`. -/
def linkBack (next prev : ℕ) : Heap := if next ≠ 0 then h.setListPrev next prev else h

/-- `malloc`: the first fragment of a list is taken. -/
def popFragment (log : ℕ) : ℕ × Heap :=
  let result := h.listNext (h.head log)
  let h := h.setListNext (h.listPrev result) (h.listNext result)
  let h := h.linkBack (h.listNext result) (h.listPrev result)
  let block := h.block result
  let h := h.setNext block ((h.heapinfo block).nfree - 1)
  (result,
    if (h.heapinfo block).nfree ≠ 0 then h.setPrev block (h.listNext result % BLOCKSIZE / 2 ^ log)
    else h)

/-- A fragment becomes the first one of a list. -/
def pushFragment (log next : ℕ) : Heap :=
  let h := h.setListNext next (h.listNext (h.head log))
  let h := h.setListPrev next (h.head log)
  let h := h.setListNext (h.listPrev next) next
  h.linkBack (h.listNext next) next

/-- `malloc`: a block is broken up. -/
def breakUp (log result : ℕ) : Heap :=
  let n := BLOCKSIZE / 2 ^ log
  let h := (List.range' 1 (n - 1)).foldl
    (fun h i => h.pushFragment log (result + i * 2 ^ log)) h
  let block := h.block result
  let h := h.setSize block log
  let h := h.setNext block (n - 1)
  h.setPrev block (n - 1)

/-- `malloc`: a fragment. -/
def mallocFragment (log : ℕ) : Option (ℕ × Heap) :=
  if h.listNext (h.head log) ≠ 0 then some (h.popFragment log)
  else
    (h.mallocBlocks (blockify BLOCKSIZE)).map fun (result, h) =>
      if result = 0 then (0, h)
      else (result, (h.setFragblocks log (h.fragblocks log + 1)).breakUp log result)

/-- `free`: all fragments of a block are free, and the block is freed. -/
def freeFragments (log prev block : ℕ) : Option Heap :=
  let h := h.setFragblocks log (h.fragblocks log - 1)
  let next := h.listNext^[BLOCKSIZE / 2 ^ log - 1] prev
  let h := h.setListNext (h.listPrev prev) next
  let h := h.linkBack next (h.listPrev prev)
  ((h.setSize block 0).setNext block 1).freeBlocks block

/-- `free`: another fragment of the block is free. -/
def addFragment (prev next block : ℕ) : Heap :=
  let h := h.setListNext next (h.listNext prev)
  let h := h.setListPrev next prev
  let h := h.setListNext prev next
  let h := h.linkBack (h.listNext next) next
  h.setNext block ((h.heapinfo block).nfree + 1)

/-- `free`: the first free fragment of the block. -/
def firstFragment (log prev block : ℕ) : Heap :=
  let h := h.setNext block 1
  let h := h.setPrev block (prev % BLOCKSIZE / 2 ^ log)
  h.pushFragment log prev

/-- `free`: a fragment. -/
def freeFragment (log ptr block : ℕ) : Option Heap :=
  let prev := h.address block + (h.heapinfo block).first * 2 ^ log
  if (h.heapinfo block).nfree = BLOCKSIZE / 2 ^ log - 1 ∧ h.fragblocks log > 1 then
    h.freeFragments log prev block
  else if (h.heapinfo block).nfree ≠ 0 then some (h.addFragment prev ptr block)
  else some (h.firstFragment log ptr block)

/-! ## The functions of the module -/

/-- `malloc`. -/
def malloc (size : ℕ) : Option (ℕ × Heap) :=
  let (ok, h) := if h.initialized then (true, h) else h.initHeap
  if !ok ∨ size = 0 then some (0, h)
  else
    -- the size of a `struct list`
    let size := if size < 8 then 8 else size
    if size ≤ BLOCKSIZE / 2 then h.mallocFragment (logLoop 32 (size - 1) 1)
    else h.mallocBlocks (blockify size)

/-- `free`. -/
def free (ptr : ℕ) : Option Heap :=
  if ptr = 0 then some h
  else
    let block := h.block ptr
    let type := (h.heapinfo block).type
    if type = 0 then h.freeBlocks block else h.freeFragment type ptr block

/-- `calloc`. -/
def calloc (nelem size : ℕ) : Option (ℕ × Heap) :=
  (h.malloc (ulong (size * nelem))).map fun (result, h) =>
    if result ≠ 0 then (result, { h with mem := clear h.mem result (ulong (nelem * size)) })
    else (result, h)

/-- `valloc`. -/
def valloc (size : ℕ) : Option (ℕ × Heap) := h.malloc (max BLOCKSIZE size)

/-- `realloc`: a new place, with a copy of the first `len` bytes. -/
def reallocCopy (ptr size len : ℕ) : Option (ℕ × Heap) :=
  (h.malloc size).bind fun (result, h) =>
    if result ≠ 0 then
      ({ h with mem := move h.mem result ptr len }.free ptr).map fun h => (result, h)
    else some (0, h)

/-- `realloc`: the end of a cluster is freed. -/
def reallocShrink (ptr block blocks : ℕ) : Option (ℕ × Heap) :=
  let rest := block + blocks
  let h := h.setSize rest 0
  let h := h.setNext rest ((h.heapinfo block).busySize - blocks)
  let h := h.setNext block blocks
  (h.free (h.address rest)).map fun h => (ptr, h)

/-- `realloc`: what was freed is allocated again. -/
def unfree (block blocks : ℕ) : Option Heap :=
  if h.heapindex = block then (h.malloc (blocks * BLOCKSIZE)).map Prod.snd
  else
    (h.malloc ((block - h.heapindex) * BLOCKSIZE)).bind fun (previous, h) =>
      (h.malloc (blocks * BLOCKSIZE)).bind fun (_, h) => h.free previous

/-- `realloc`: a larger cluster. -/
def reallocGrow (ptr size block : ℕ) : Option (ℕ × Heap) :=
  let blocks := (h.heapinfo block).busySize
  let oldlimit := h.heaplimit
  ({ h with heaplimit := 0 }.free ptr).bind fun h =>
    ({ h with heaplimit := oldlimit }.malloc size).bind fun (result, h) =>
      if result = 0 then (h.unfree block blocks).map fun h => (0, h)
      else if ptr ≠ result then
        some (result, { h with mem := move h.mem result ptr (blocks * BLOCKSIZE) })
      else some (result, h)

/-- `realloc`. -/
def realloc (ptr size : ℕ) : Option (ℕ × Heap) :=
  if ptr = 0 then h.malloc size
  else if size = 0 then (h.free ptr).bind fun h => h.malloc 0
  else
    let block := h.block ptr
    let type := (h.heapinfo block).type
    if type = 0 then
      if size ≤ BLOCKSIZE / 2 then h.reallocCopy ptr size size
      else
        let blocks := blockify size
        if blocks < (h.heapinfo block).busySize then h.reallocShrink ptr block blocks
        else if blocks = (h.heapinfo block).busySize then some (ptr, h)
        else h.reallocGrow ptr size block
    else if size > 2 ^ (type - 1) ∧ size ≤ 2 ^ type then some (ptr, h)
    else h.reallocCopy ptr size (min size (2 ^ type))

end Heap

end Vmm386.Malloc
