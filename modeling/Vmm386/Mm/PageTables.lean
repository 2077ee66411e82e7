import Vmm386.Mm.PageTheorems

/-!
# Page tables

`vmm/page.h` and the second half of `kernel/mm/page.c`. Page tables and page directories are
pages that are in use; their entries are kept apart from the links of the free pages.
-/

namespace Vmm386.Mm

abbrev PAGE_ENTRIES : ℕ := 1024

abbrev PTE_ADDR : ULong := 0xfffff000

abbrev PTE_USER : ULong := 4

abbrev PTE_READ_WRITE : ULong := 2

abbrev PTE_PRESENT : ULong := 1

abbrev PTE_FREEABLE : ULong := 0x200

/-- `PTE_GET_ADDR`. -/
def pteGetAddr (x : ULong) : ULong := x &&& PTE_ADDR

/-- `PAGE_OFFSET`. -/
def pageOffset (x : ULong) : ULong := x &&& 0xfff

/-- `PAGE_TABLE_OFFSET`. -/
def pageTableOffset (x : ULong) : ULong := (x / PAGE_SIZE) &&& 1023

/-- `PAGE_DIR_OFFSET`. -/
def pageDirOffset (x : ULong) : ULong := x / (PAGE_SIZE * 1024)

/-- The entry has its `PTE_PRESENT` bit. -/
abbrev Present (pte : ULong) : Prop := pte &&& PTE_PRESENT ≠ 0

/-- The entry has its `PTE_FREEABLE` bit. -/
abbrev Freeable (pte : ULong) : Prop := pte &&& PTE_FREEABLE ≠ 0

/-- The page that an entry points to. -/
def entryPage (pte : ULong) : ULong := toLogical (pteGetAddr pte)

/-- The page allocator, and entry `i` of the page table or directory in the page `p`. -/
structure Mem where
  pages : Pages
  table : ULong → ULong → ULong

namespace Mem

/-- `pt[i] = pte`. -/
def setEntry (m : Mem) (pt i pte : ULong) : Mem :=
  { m with table := Function.update m.table pt (Function.update (m.table pt) i pte) }

/-- `memsetl(pt, 0, PAGE_ENTRIES)`. -/
def clearTable (m : Mem) (pt : ULong) : Mem :=
  { m with table := Function.update m.table pt fun _ => 0 }

/-- A new page table for entry `i` of the directory `pd`, with the given bits in its entry. -/
def newTable (m : Mem) (pd i bits : ULong) : ULong × Mem :=
  let (pt, pages) := m.pages.allocPage
  (pt, ({ m with pages }.clearTable pt).setEntry pd i (toPhysical pt ||| bits))

/-- `map_page`. -/
def mapPage (m : Mem) (pd pg addr flags : ULong) : Mem :=
  let i := pageDirOffset addr
  let (pt, m) :=
    if ¬Present (m.table pd i) then m.newTable pd i (PTE_FREEABLE ||| flags)
    else (entryPage (m.table pd i), m)
  let j := pageTableOffset addr
  let m :=
    if Present (m.table pt j) ∧ Freeable (m.table pt j) then
      { m with pages := m.pages.freePage (entryPage (m.table pt j)) }
    else m
  m.setEntry pt j (toPhysical pg ||| flags)

/-- `set_pte`. -/
def setPte (m : Mem) (pd addr pte : ULong) : Mem :=
  let i := pageDirOffset addr
  let (pt, m) :=
    if ¬Present (m.table pd i) then
      m.newTable pd i (PTE_PRESENT ||| PTE_FREEABLE ||| (pte &&& (PTE_USER ||| PTE_READ_WRITE)))
    else (entryPage (m.table pd i), m)
  m.setEntry pt (pageTableOffset addr) pte

/-- `get_pte`. -/
def getPte (m : Mem) (pd addr : ULong) : ULong :=
  if ¬Present (m.table pd (pageDirOffset addr)) then 0
  else m.table (entryPage (m.table pd (pageDirOffset addr))) (pageTableOffset addr)

/-- `read_page_mapping`. -/
def readPageMapping (m : Mem) (pd addr : ULong) : ULong :=
  let pte := m.getPte pd addr
  if Present pte then pteGetAddr pte else 0

/-- `lin_to_phys`. -/
def linToPhys (m : Mem) (pd addr : ULong) : ULong :=
  let phys := m.readPageMapping pd addr
  if phys ≠ 0 then phys ||| pageOffset addr else 0

/-! ## Small facts -/

variable {m : Mem} {pt pd i j pte addr : ULong}

@[simp] theorem setEntry_pages : (m.setEntry pt i pte).pages = m.pages := rfl

@[simp] theorem clearTable_pages : (m.clearTable pt).pages = m.pages := rfl

theorem setEntry_table :
    (m.setEntry pt i pte).table pd j = if pd = pt ∧ j = i then pte else m.table pd j := by
  by_cases hpd : pd = pt
  · subst hpd
    by_cases hj : j = i
    · rw [if_pos ⟨rfl, hj⟩, hj]
      simp [setEntry]
    · rw [if_neg fun h => hj h.2]
      simp [setEntry, hj]
  · rw [if_neg fun h => hpd h.1]
    simp [setEntry, hpd]

theorem clearTable_table :
    (m.clearTable pt).table pd j = if pd = pt then 0 else m.table pd j := by
  by_cases h : pd = pt
  · rw [if_pos h, h]
    simp [clearTable]
  · rw [if_neg h]
    simp [clearTable, h]

end Mem

/-! ## Entries -/

section Entries

variable {x flags mask : ULong}

theorem and_pageMask_of_aligned (h : Aligned x) : x &&& PAGE_MASK = x := by
  unfold Aligned at h
  apply BitVec.eq_of_toNat_eq
  rw [toNat_and_mask]
  omega

theorem or_and (x y z : ULong) : (x ||| y) &&& z = (x &&& z) ||| (y &&& z) := by
  ext i
  simp [Bool.and_or_distrib_right]

/-- The frame of an entry does not depend on its flags. -/
theorem pteGetAddr_or (hx : Aligned x) (hflags : flags &&& PTE_ADDR = 0) :
    pteGetAddr (x ||| flags) = x := by
  rw [pteGetAddr, or_and, hflags]
  exact BitVec.or_zero.trans (and_pageMask_of_aligned hx)

/-- The flags of an entry do not depend on its frame. -/
theorem or_and_flag (hx : Aligned x) (hmask : PTE_ADDR &&& mask = 0) :
    (x ||| flags) &&& mask = flags &&& mask := by
  have hzero : x &&& mask = 0 := by
    rw [← and_pageMask_of_aligned hx, BitVec.and_assoc, hmask]
    exact BitVec.and_zero
  rw [or_and, hzero]
  exact BitVec.zero_or

theorem aligned_toPhysical (h : Aligned x) : Aligned (toPhysical x) := by
  unfold Aligned at *
  rw [toPhysical, BitVec.toNat_sub]
  show (2 ^ 32 - 8388608 + x.toNat) % 2 ^ 32 % 4096 = 0
  omega

theorem toLogical_toPhysical (x : ULong) : toLogical (toPhysical x) = x := by
  rw [toLogical, toPhysical, BitVec.sub_add_cancel]

theorem entryPage_or (hx : Aligned x) (hflags : flags &&& PTE_ADDR = 0) :
    entryPage (toPhysical x ||| flags) = x := by
  rw [entryPage, pteGetAddr_or (aligned_toPhysical hx) hflags, toLogical_toPhysical]

theorem present_or (hx : Aligned x) : Present (toPhysical x ||| flags) ↔ Present flags := by
  rw [Present, or_and_flag (aligned_toPhysical hx) (by decide)]

theorem freeable_or (hx : Aligned x) : Freeable (toPhysical x ||| flags) ↔ Freeable flags := by
  rw [Freeable, or_and_flag (aligned_toPhysical hx) (by decide)]

theorem toNat_pageDirOffset (x : ULong) : (pageDirOffset x).toNat = x.toNat / 4194304 := by
  rw [pageDirOffset, BitVec.toNat_udiv]
  rfl

theorem toNat_pageTableOffset (x : ULong) :
    (pageTableOffset x).toNat = x.toNat / 4096 % 1024 := by
  rw [pageTableOffset, BitVec.toNat_and, BitVec.toNat_udiv]
  exact Nat.and_two_pow_sub_one_eq_mod _ 10

end Entries

end Vmm386.Mm
