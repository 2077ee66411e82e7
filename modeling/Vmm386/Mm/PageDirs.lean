import Vmm386.Mm.PageTables

/-!
# Page directories

The rest of `kernel/mm/page.c`: how a page directory is made and deleted, and how the kernel
writes into the memory that one maps. The bytes of the pages that hold data are kept apart
from the entries of the pages that are tables.
-/

namespace Vmm386.Mm

abbrev KERNEL_BASE_ADDR : ULong := 0xF8000000

abbrev NUM_KERNEL_PAGE_TABLES : ULong := 32

namespace Mem

/-- `make_task_page_dir`. -/
def makeTaskPageDir (logicalKernelPd : ULong) (m : Mem) : ULong × Mem :=
  let r := m.pages.allocPage
  let m := { m with pages := r.2 }
  if r.1 ≠ NULL then
    (r.1, { m with
      table := Function.update m.table r.1 fun i =>
        if i < 1024 - NUM_KERNEL_PAGE_TABLES then 0 else m.table logicalKernelPd i })
  else (r.1, m)

/-- `delete_page_table`. -/
def deletePageTable (m : Mem) (pt : ULong) : Mem :=
  let freeEntry (m : Mem) (i : ℕ) : Mem :=
    let pte := m.table pt (BitVec.ofNat 32 i)
    if Present pte ∧ Freeable pte then
      { m with pages := m.pages.freePage (entryPage pte) }
    else m
  let m := (List.range PAGE_ENTRIES).foldl freeEntry m
  { m with pages := m.pages.freePage pt }

/-- `delete_page_dir`. -/
def deletePageDir (m : Mem) (pd : ULong) : Mem :=
  let deleteEntry (m : Mem) (i : ℕ) : Mem :=
    let pde := m.table pd (BitVec.ofNat 32 i)
    if Present pde ∧ Freeable pde then m.deletePageTable (entryPage pde) else m
  let m := (List.range PAGE_ENTRIES).foldl deleteEntry m
  { m with pages := m.pages.freePage pd }

end Mem

/-- The page allocator, the page tables, and the bytes of the pages by logical address. -/
structure Memory where
  mem : Mem
  bytes : ULong → UChar

/-- A store of the low `n` bytes of `val` at `a`. -/
def storeBytes : ℕ → (a val : ULong) → (ULong → UChar) → ULong → UChar
  | 0, _, _, bytes => bytes
  | n + 1, a, val, bytes =>
    storeBytes n (a + 1) (val >>> 8) (Function.update bytes a (val.truncate 8))

/-- A load of the 16-bit value at `a`. -/
def loadShort (bytes : ULong → UChar) (a : ULong) : UShort := bytes (a + 1) ++ bytes a

/-- `put_pd_val`. -/
def Memory.putPdVal (pd : ULong) (size : ℕ) (val lin : ULong) (m : Memory) : Memory :=
  let phys := m.mem.linToPhys pd lin
  let r :=
    if phys = 0 then
      let new := m.mem.pages.allocPage
      (toPhysical new.1 + pageOffset lin,
        { m.mem with pages := new.2 }.mapPage pd new.1 (lin &&& PAGE_MASK)
          (PTE_READ_WRITE ||| PTE_USER ||| PTE_PRESENT))
    else (phys, m.mem)
  { mem := r.2
    bytes :=
      if size = 1 ∨ size = 2 ∨ size = 4 then storeBytes size (toLogical r.1) val m.bytes
      else m.bytes }

end Vmm386.Mm
