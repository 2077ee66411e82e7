import Vmm386.Types
import Vmm386.Lib.Linked
import Vmm386.Lib.Runs

/-!
# Page allocation

`kernel/mm/page.c`. A page is known by its logical address. The first word of a free page is
the address of the next free page; the first word of a page that is in use belongs to its
user.
-/

namespace Vmm386.Mm

abbrev NULL : ULong := 0

abbrev PAGE_SIZE : ULong := 4096

abbrev PAGE_MASK : ULong := 0xfffff000

/-- The physical memory is mapped into the kernel's space from here on
(`PHYS_MAP_ADDR - KERNEL_BASE_ADDR`). -/
abbrev PHYS_MAP : ULong := 8 * 1024 * 1024

/-- `TO_LOGICAL`. -/
def toLogical (x : ULong) : ULong := x + PHYS_MAP

/-- `TO_PHYSICAL`. -/
def toPhysical (x : ULong) : ULong := x - PHYS_MAP

/-- `round_to`. -/
def roundTo (val mod : ULong) : ULong := (val + (mod - 1)) &&& ~~~(mod - 1)

/-- `page_free_list` with the `next_free` of every page, `used_pages` and `available_pages`. -/
structure Pages where
  links : Links ULong
  usedPages : ℤ
  availablePages : ℤ

/-- One more step than there are addresses: a walk that takes as many never ends. -/
abbrev ADDRESSES : ℕ := 2 ^ 32

namespace Pages

/-- `alloc_page`. -/
def allocPage (s : Pages) : ULong × Pages :=
  let p := s.links.head
  if p ≠ NULL then
    (p, { links := s.links.set none (s.links.next p)
          usedPages := s.usedPages + 1
          availablePages := s.availablePages - 1 })
  else (p, s)

/-- `alloc_pages_64`: the loop that finds `n` pages of the free list from `x` to `top`. -/
def countFree (s : Pages) (x top n : ULong) : ℕ → (y found : ULong) → Bool
  | 0, _, _ => false
  | k + 1, y, found =>
    if y = NULL then false
    else if x < y ∧ y < top then
      if n ≤ found + 1 then true else s.countFree x top n k (s.links.next y) (found + 1)
    else s.countFree x top n k (s.links.next y) found

/-- `alloc_pages_64`: the loop that looks for the first page. -/
def findPages (s : Pages) (n : ULong) : ℕ → ULong → Option ULong
  | 0, _ => none
  | k + 1, x =>
    if x = NULL then none
    else if toPhysical x &&& 0xffff = 0 ∧ toPhysical x < 16 * 1024 * 1024 ∧
        s.countFree x (x + n * PAGE_SIZE) n ADDRESSES s.links.head 1 then some x
    else s.findPages n k (s.links.next x)

/-- `alloc_pages_64`: the loop that unlinks `n` pages, with `ptr` at a pointer to the next
page to look at. -/
def unlinkPages (x top : ULong) : ℕ → Option ULong → ULong → Pages → Pages
  | 0, _, _, s => s
  | k + 1, ptr, n, s =>
    if n ≠ 0 then
      if x ≤ s.links.get ptr ∧ s.links.get ptr < top then
        unlinkPages x top k ptr (n - 1)
          { links := s.links.set ptr (s.links.next (s.links.get ptr))
            usedPages := s.usedPages + 1
            availablePages := s.availablePages - 1 }
      else unlinkPages x top k (some (s.links.get ptr)) n s
    else s

/-- `alloc_pages_64`. -/
def allocPages64 (n : ULong) (s : Pages) : ULong × Pages :=
  match s.findPages n ADDRESSES s.links.head with
  | some x => (x, unlinkPages x (x + n * PAGE_SIZE) ADDRESSES none n s)
  | none => (NULL, s)

/-- `free_page`. -/
def freePage (p : ULong) (s : Pages) : Pages :=
  { links := (s.links.set (some p) s.links.head).set none p
    usedPages := s.usedPages - 1
    availablePages := s.availablePages + 1 }

/-- `free_pages` of the `k` pages from `p` on. -/
def freePages : ℕ → ULong → Pages → Pages
  | 0, _, s => s
  | k + 1, p, s => freePages k (p + PAGE_SIZE) (s.freePage p)

/-- `add_pages`: the loop, with `start` a physical address. -/
def addLoop (stop : ULong) : ℕ → ULong → Pages → Pages
  | 0, _, s => s
  | k + 1, start, s =>
    if start < stop then
      addLoop stop k (start + PAGE_SIZE)
        { s with
          links := (s.links.set (some (toLogical start)) s.links.head).set none (toLogical start)
          availablePages := s.availablePages + 1 }
    else s

/-- `add_pages`. -/
def addPages (start stop : ULong) (s : Pages) : Pages :=
  addLoop stop ADDRESSES (roundTo start PAGE_SIZE) s

end Pages

/-! ## Sequences of calls -/

/-- The `k` pages from `p` on. -/
def pagesFrom (p : ULong) (k : ℕ) : List ULong :=
  (List.range k).map fun i => p + BitVec.ofNat 32 i * PAGE_SIZE

/-- The pages of the physical memory from `start` to `stop`. -/
def pagesBetween (start stop : ULong) : List ULong :=
  pagesFrom (toLogical start) ((stop.toNat - start.toNat) / 4096)

/-- The allocator, the pages that were added to it, and those that are handed out. -/
structure PageSys where
  pages : Pages
  added : Finset ULong
  handed : Finset ULong

/-- The calls, and what the users of pages do to them. -/
inductive PageOp where
  | addPages (start stop : ULong)
  | allocPage
  | allocPages64 (n : ULong)
  | freePage (p : ULong)
  | freePages (p n : ULong)
  /-- The user of `p` writes into its first word. -/
  | write (p val : ULong)

/-- The allocator before `init_mm`. -/
def PageSys.init : PageSys where
  pages := { links := ⟨NULL, fun _ => NULL⟩, usedPages := 0, availablePages := 0 }
  added := ∅
  handed := ∅

/-- The pages that a call returns. -/
def PageOp.given (s : Pages) : PageOp → List ULong
  | allocPage => if s.allocPage.1 = NULL then [] else [s.allocPage.1]
  | allocPages64 n =>
    if (s.allocPages64 n).1 = NULL then [] else pagesFrom (s.allocPages64 n).1 n.toNat
  | _ => []

/-- A call. Memory is added in disjoint page-aligned ranges, whose pages have a logical
address; pages are freed, and written to, while they are handed out. -/
def pageStep (s : PageSys) (op : PageOp) : Option PageSys :=
  let s' (pages : Pages) : PageSys :=
    { s with pages, handed := s.handed ∪ (op.given s.pages).toFinset }
  match op with
  | .addPages start stop =>
    let new := pagesBetween start stop
    if start.toNat % 4096 = 0 ∧ stop.toNat % 4096 = 0 ∧ NULL ∉ new ∧ ∀ p ∈ new, p ∉ s.added then
      some { s with pages := s.pages.addPages start stop, added := s.added ∪ new.toFinset }
    else none
  | .allocPage => some (s' s.pages.allocPage.2)
  | .allocPages64 n => some (s' (s.pages.allocPages64 n).2)
  | .freePage p =>
    if p ∈ s.handed then
      some { s with pages := s.pages.freePage p, handed := s.handed.erase p }
    else none
  | .freePages p n =>
    if (pagesFrom p n.toNat).Nodup ∧ ∀ q ∈ pagesFrom p n.toNat, q ∈ s.handed then
      some { s with
        pages := s.pages.freePages n.toNat p
        handed := s.handed \ (pagesFrom p n.toNat).toFinset }
    else none
  | .write p val =>
    if p ∈ s.handed then
      some { s with pages := { s.pages with links := s.pages.links.set (some p) val } }
    else none

end Vmm386.Mm
