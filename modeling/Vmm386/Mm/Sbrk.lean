import Vmm386.Mm.PageTables

/-!
# The kernel's heap

`kernel/mm/sbrk.c`. The kernel's space below the map of the physical memory has its page
tables from the start (`start16.S`), so that `map_page` never makes one there.
-/

namespace Vmm386.Mm

/-- `TO_LINEAR`. -/
def toLinear (x : ULong) : ULong := x + 0xF8000000

/-- The page tables, `logical_kernel_pd` and `kernel_brk`. -/
structure KernelHeap where
  mem : Mem
  logicalKernelPd : ULong
  kernelBrk : ULong

/-- `kernel_sbrk`: the loop, which says whether there was a page each time. -/
def sbrkLoop (pd stop : ULong) : ℕ → ULong → Mem → Bool × Mem
  | 0, _, m => (false, m)
  | k + 1, ptr, m =>
    if ptr < stop then
      let r := m.pages.allocPage
      if r.1 = NULL then (false, { m with pages := r.2 })
      else sbrkLoop pd stop k (ptr + PAGE_SIZE)
        ({ m with pages := r.2 }.mapPage pd r.1 (toLinear ptr) PTE_PRESENT)
    else (true, m)

/-- `kernel_sbrk`. -/
def kernelSbrk (delta : ULong) (s : KernelHeap) : ULong × KernelHeap :=
  let brk := s.kernelBrk + roundTo delta 4
  if brk < PHYS_MAP then
    match sbrkLoop s.logicalKernelPd brk ADDRESSES (roundTo s.kernelBrk PAGE_SIZE) s.mem with
    | (true, mem) => (s.kernelBrk, { s with mem, kernelBrk := brk })
    | (false, mem) => (-1, { s with mem })
  else (-1, s)

/-- The kernel, `logical_top_of_kernel`, the pages that were added to the allocator, and
those that it handed out to other callers than `kernel_sbrk`. -/
structure HeapSys where
  kernel : KernelHeap
  top : ULong
  added : Finset ULong
  others : Finset ULong

inductive HeapOp where
  | sbrk (delta : ULong)
  | allocPage
  | freePage (p : ULong)

/-- Calls of `kernel_sbrk`, and of the allocator by others. -/
def heapStep (s : HeapSys) : HeapOp → Option HeapSys
  | .sbrk delta => some { s with kernel := (kernelSbrk delta s.kernel).2 }
  | .allocPage =>
    let r := s.kernel.mem.pages.allocPage
    some { s with
      kernel := { s.kernel with mem := { s.kernel.mem with pages := r.2 } }
      others := if r.1 = NULL then s.others else insert r.1 s.others }
  | .freePage p =>
    if p ∈ s.others then
      some { s with
        kernel :=
          { s.kernel with mem := { s.kernel.mem with pages := s.kernel.mem.pages.freePage p } }
        others := s.others.erase p }
    else none

namespace HeapSys

/-- The state with other page tables. -/
def withMem (s : HeapSys) (mem : Mem) : HeapSys := { s with kernel := { s.kernel with mem } }

/-- The entry for the page of the kernel's space at `x`. -/
def pte (s : HeapSys) (x : ULong) : ULong :=
  s.kernel.mem.getPte s.kernel.logicalKernelPd (toLinear x)

/-- The pages that the heap may have. -/
def InHeap (s : HeapSys) (x : ULong) : Prop := Aligned x ∧ s.top ≤ x ∧ x < PHYS_MAP

/-- The page `p` is mapped at `x` in the heap. -/
def MappedAt (s : HeapSys) (x p : ULong) : Prop :=
  s.InHeap x ∧ Present (s.pte x) ∧ entryPage (s.pte x) = p

/-- `kernel_sbrk` took the page: it has left the free list, and for nobody else. -/
def Taken (s : HeapSys) (p : ULong) : Prop :=
  p ∈ s.added ∧ p ∉ s.others ∧ ∀ l, s.kernel.mem.pages.Free l → p ∉ l

end HeapSys

/-- The pages that `kernel_sbrk` took are those mapped in the heap, each of them once. -/
structure HeapExact (s : HeapSys) : Prop where
  taken : ∀ p, s.Taken p ↔ ∃ x, s.MappedAt x p
  once : ∀ x y p, s.MappedAt x p → s.MappedAt y p → x = y

/-- A call of `kernel_sbrk` that fails leaves everything as it was. -/
def FailsCleanly (s : HeapSys) (op : HeapOp) : Prop :=
  ∀ delta, op = .sbrk delta → (kernelSbrk delta s.kernel).1 = -1 →
    let s' : HeapSys := { s with kernel := (kernelSbrk delta s.kernel).2 }
    s'.kernel.kernelBrk = s.kernel.kernelBrk ∧ (∀ x, s.InHeap x → s'.pte x = s.pte x) ∧
      s'.kernel.mem.pages.availablePages = s.kernel.mem.pages.availablePages

/-- The pages that a call which moves the break from `old` to `new` has to map. -/
def newPages (old new : ULong) : List ULong :=
  pagesFrom (roundTo old PAGE_SIZE) ((new.toNat - (roundTo old PAGE_SIZE).toNat + 4095) / 4096)

/-- The call is refused at once, or there is no page at all for it, or there are enough
pages for it, and all of them go to places in the heap that nothing is mapped at yet. -/
def SbrkFits (s : HeapSys) : HeapOp → Prop
  | .sbrk delta =>
    let new := s.kernel.kernelBrk + roundTo delta 4
    PHYS_MAP ≤ new ∨ s.kernel.mem.pages.availablePages = 0 ∨
      ((newPages s.kernel.kernelBrk new).length ≤ s.kernel.mem.pages.availablePages ∧
        ∀ x ∈ newPages s.kernel.kernelBrk new, s.top ≤ x ∧ ¬Present (s.pte x))
  | _ => True

/-! ## The kernel's page tables -/

/-- The page table for the address `x` of the kernel's space. -/
def kernelTable (m : Mem) (pd x : ULong) : ULong := entryPage (m.table pd (pageDirOffset (toLinear x)))

/-- The kernel's space has page tables, and none of its pages may be freed. -/
structure KernelTables (m : Mem) (pd : ULong) : Prop where
  present : ∀ x : ULong, x < PHYS_MAP → Present (m.table pd (pageDirOffset (toLinear x)))
  ne_dir : ∀ x : ULong, x < PHYS_MAP → kernelTable m pd x ≠ pd
  apart : ∀ x y : ULong, x < PHYS_MAP → y < PHYS_MAP →
    kernelTable m pd x = kernelTable m pd y →
      pageDirOffset (toLinear x) = pageDirOffset (toLinear y)
  notFreeable : ∀ x : ULong, x < PHYS_MAP → ¬Freeable (m.getPte pd (toLinear x))

/-- The state that `init_mm` leaves. -/
structure HeapStart (s : HeapSys) : Prop where
  tables : KernelTables s.kernel.mem s.kernel.logicalKernelPd
  brk : s.kernel.kernelBrk = s.top
  top : s.top < PHYS_MAP
  unmapped : ∀ x, s.InHeap x → ¬Present (s.pte x)
  others : s.others = ∅
  free : ∃ l, s.kernel.mem.pages.Free l ∧ s.added = l.toFinset ∧ ∀ p ∈ l, Aligned p

section KernelTables

variable {m : Mem} {pd x y p : ULong}

theorem toNat_toLinear (hx : x < PHYS_MAP) : (toLinear x).toNat = x.toNat + 0xF8000000 := by
  rw [BitVec.lt_def] at hx
  change x.toNat < 8388608 at hx
  rw [toLinear, BitVec.toNat_add]
  show (x.toNat + 4160749568) % 2 ^ 32 = _
  omega

/-- Two addresses with the same entries are in the same page. -/
theorem same_page (hx : x < PHYS_MAP) (hy : y < PHYS_MAP)
    (hdir : pageDirOffset (toLinear x) = pageDirOffset (toLinear y))
    (htable : pageTableOffset (toLinear x) = pageTableOffset (toLinear y)) :
    x.toNat / 4096 = y.toNat / 4096 := by
  have hdir := congrArg BitVec.toNat hdir
  have htable := congrArg BitVec.toNat htable
  rw [toNat_pageDirOffset, toNat_pageDirOffset, toNat_toLinear hx, toNat_toLinear hy] at hdir
  rw [toNat_pageTableOffset, toNat_pageTableOffset, toNat_toLinear hx, toNat_toLinear hy] at htable
  omega

namespace KernelTables

theorem getPte (h : KernelTables m pd) (hx : x < PHYS_MAP) :
    m.getPte pd (toLinear x) = m.table (kernelTable m pd x) (pageTableOffset (toLinear x)) :=
  if_neg (not_not.mpr (h.present x hx))

/-- The allocator has no part in the tables. -/
theorem withPages (h : KernelTables m pd) (pages : Pages) : KernelTables { m with pages } pd :=
  ⟨h.present, h.ne_dir, h.apart, h.notFreeable⟩

theorem mapPage_eq (h : KernelTables m pd) (hx : x < PHYS_MAP) :
    m.mapPage pd p (toLinear x) PTE_PRESENT =
      m.setEntry (kernelTable m pd x) (pageTableOffset (toLinear x))
        (toPhysical p ||| PTE_PRESENT) := by
  have hfree := h.notFreeable x hx
  rw [h.getPte hx] at hfree
  rw [Mem.mapPage, if_neg (not_not.mpr (h.present x hx))]
  exact congrArg (Mem.setEntry · _ _ _) (if_neg fun hboth => hfree hboth.2)

theorem kernelTable_mapPage (h : KernelTables m pd) (hx : x < PHYS_MAP) (y : ULong) :
    kernelTable (m.mapPage pd p (toLinear x) PTE_PRESENT) pd y = kernelTable m pd y := by
  rw [h.mapPage_eq hx, kernelTable, Mem.setEntry_table, if_neg fun hc => h.ne_dir x hx hc.1.symm]
  rfl

theorem getPte_mapPage (h : KernelTables m pd) (hx : x < PHYS_MAP) (hy : y < PHYS_MAP) :
    (m.mapPage pd p (toLinear x) PTE_PRESENT).getPte pd (toLinear y) =
      if y.toNat / 4096 = x.toNat / 4096 then toPhysical p ||| PTE_PRESENT
      else m.getPte pd (toLinear y) := by
  have hdir : (m.mapPage pd p (toLinear x) PTE_PRESENT).table pd (pageDirOffset (toLinear y)) =
      m.table pd (pageDirOffset (toLinear y)) := by
    rw [h.mapPage_eq hx, Mem.setEntry_table, if_neg fun hc => h.ne_dir x hx hc.1.symm]
  rw [Mem.getPte, hdir, if_neg (not_not.mpr (h.present y hy)), h.getPte hy, h.mapPage_eq hx,
    Mem.setEntry_table]
  by_cases hpage : y.toNat / 4096 = x.toNat / 4096
  · rw [if_pos hpage, if_pos]
    have hsame : pageDirOffset (toLinear y) = pageDirOffset (toLinear x) ∧
        pageTableOffset (toLinear y) = pageTableOffset (toLinear x) := by
      constructor <;> apply BitVec.eq_of_toNat_eq
      · rw [toNat_pageDirOffset, toNat_pageDirOffset, toNat_toLinear hx, toNat_toLinear hy]
        omega
      · rw [toNat_pageTableOffset, toNat_pageTableOffset, toNat_toLinear hx, toNat_toLinear hy]
        omega
    exact ⟨congrArg (fun i => entryPage (m.table pd i)) hsame.1, hsame.2⟩
  · rw [if_neg hpage, if_neg]
    · rfl
    · rintro ⟨htable, hoff⟩
      exact hpage (same_page hy hx (h.apart y x hy hx htable) hoff)

theorem mapPage (h : KernelTables m pd) (hx : x < PHYS_MAP) (hp : Aligned p) :
    KernelTables (m.mapPage pd p (toLinear x) PTE_PRESENT) pd := by
  have hdir : ∀ i, (m.mapPage pd p (toLinear x) PTE_PRESENT).table pd i = m.table pd i := by
    intro i
    rw [h.mapPage_eq hx, Mem.setEntry_table, if_neg fun hc => h.ne_dir x hx hc.1.symm]
  refine ⟨?_, ?_, ?_, ?_⟩
  · intro y hy
    rw [hdir]
    exact h.present y hy
  · intro y hy
    rw [h.kernelTable_mapPage hx]
    exact h.ne_dir y hy
  · intro y z hy hz
    rw [h.kernelTable_mapPage hx, h.kernelTable_mapPage hx]
    exact h.apart y z hy hz
  · intro y hy
    rw [h.getPte_mapPage hx hy]
    split
    · rw [freeable_or hp]
      decide
    · exact h.notFreeable y hy

end KernelTables

end KernelTables

/-! ## The invariant -/

/-- Every page of the allocator is free, in the hands of others, or mapped at one place in
the heap. -/
structure HeapInv (s : HeapSys) (l : List ULong) : Prop where
  tables : KernelTables s.kernel.mem s.kernel.logicalKernelPd
  brk : s.kernel.kernelBrk < PHYS_MAP
  free : s.kernel.mem.pages.Free l
  added : ∀ p, p ∈ s.added ↔ p ∈ l ∨ p ∈ s.others ∨ ∃ x, s.MappedAt x p
  others : ∀ p ∈ l, p ∉ s.others
  heap : ∀ x p, s.MappedAt x p → p ∉ l ∧ p ∉ s.others
  once : ∀ x y p, s.MappedAt x p → s.MappedAt y p → x = y
  aligned : ∀ p ∈ s.added, Aligned p
  notNull : NULL ∉ s.added

namespace HeapInv

variable {s : HeapSys} {l : List ULong} {x p : ULong}

theorem heapExact (h : HeapInv s l) : HeapExact s := by
  refine ⟨?_, h.once⟩
  intro p
  constructor
  · rintro ⟨hadded, hothers, hfree⟩
    rcases (h.added p).mp hadded with hp | hp | hp
    · exact absurd hp (hfree l h.free)
    · exact absurd hp hothers
    · exact hp
  · rintro ⟨x, hx⟩
    obtain ⟨hl, hothers⟩ := h.heap x p hx
    refine ⟨(h.added p).mpr (.inr (.inr ⟨x, hx⟩)), hothers, ?_⟩
    intro l' hl'
    rwa [hl'.1.1.unique h.free.1.1]

/-- Only the break moves. -/
theorem withBrk (h : HeapInv s l) {brk : ULong} (hbrk : brk < PHYS_MAP) :
    HeapInv { s with kernel := { s.kernel with kernelBrk := brk } } l :=
  ⟨h.tables, hbrk, h.free, h.added, h.others, h.heap, h.once, h.aligned, h.notNull⟩

theorem of_start (h : HeapStart s) : ∃ l, HeapInv s l := by
  obtain ⟨l, hfree, hadded, haligned⟩ := h.free
  have hunmapped : ∀ x p, ¬s.MappedAt x p := fun x p hx => h.unmapped x hx.1 hx.2.1
  refine ⟨l, h.tables, h.brk ▸ h.top, hfree, ?_, ?_, ?_, ?_, ?_, ?_⟩
  · intro p
    rw [hadded, h.others, List.mem_toFinset]
    exact ⟨.inl, fun hp => by
      rcases hp with hp | hp | ⟨x, hx⟩
      · exact hp
      · exact absurd hp (Finset.notMem_empty p)
      · exact absurd hx (hunmapped x p)⟩
  · intro p _
    rw [h.others]
    exact Finset.notMem_empty p
  · intro x p hx
    exact absurd hx (hunmapped x p)
  · intro x y p hx
    exact absurd hx (hunmapped x p)
  · intro p hp
    rw [hadded, List.mem_toFinset] at hp
    exact haligned p hp
  · rw [hadded, List.mem_toFinset]
    exact fun hp => hfree.ne_null hp rfl

/-- One page more is mapped in the heap. -/
theorem mapOne (h : HeapInv s (p :: l)) (hx : s.InHeap x) (hnew : ¬Present (s.pte x)) :
    let m := { s.kernel.mem with pages := s.kernel.mem.pages.allocPage.2 }.mapPage
      s.kernel.logicalKernelPd s.kernel.mem.pages.allocPage.1 (toLinear x) PTE_PRESENT
    HeapInv (s.withMem m) l ∧
      ∀ y, y < PHYS_MAP → y.toNat / 4096 ≠ x.toNat / 4096 → (s.withMem m).pte y = s.pte y := by
  obtain ⟨hfst, hfree, -, -⟩ := Pages.allocPage_cons h.free
  rw [hfst]
  intro m
  let s' := s.withMem m
  have htables := h.tables.withPages s.kernel.mem.pages.allocPage.2
  have hnodup := List.nodup_cons.mp h.free.nodup
  have hpAdded : p ∈ s.added := (h.added p).mpr (.inl (List.mem_cons_self ..))
  have hp : Aligned p := h.aligned p hpAdded
  have hpages : m.pages = s.kernel.mem.pages.allocPage.2 := by
    show (Mem.mapPage _ _ _ _ _).pages = _
    rw [htables.mapPage_eq hx.2.2]
    rfl
  have hpte : ∀ y, y < PHYS_MAP → s'.pte y =
      if y.toNat / 4096 = x.toNat / 4096 then toPhysical p ||| PTE_PRESENT else s.pte y :=
    fun y hy => htables.getPte_mapPage hx.2.2 hy
  have hself : s'.pte x = toPhysical p ||| PTE_PRESENT := by rw [hpte x hx.2.2, if_pos rfl]
  -- what is mapped now is what was mapped before, and `p` at `x`
  have hmapped : ∀ y q, s'.MappedAt y q ↔ s.MappedAt y q ∨ (y = x ∧ q = p) := by
    intro y q
    by_cases hy : y = x
    · subst hy
      have hold : ¬s.MappedAt y q := fun hold => hnew hold.2.1
      constructor
      · rintro ⟨-, -, hq⟩
        rw [hself, entryPage_or hp (by decide)] at hq
        exact .inr ⟨rfl, hq.symm⟩
      · rintro (hc | ⟨-, rfl⟩)
        · exact absurd hc hold
        · refine ⟨hx, ?_, ?_⟩
          · rw [hself, present_or hp]
            decide
          · rw [hself, entryPage_or hp (by decide)]
    · have heq : s.InHeap y → s'.pte y = s.pte y := by
        intro hin
        rw [hpte y hin.2.2, if_neg]
        intro hpage
        have hy1 : y.toNat % 4096 = 0 := hin.1
        have hx1 : x.toNat % 4096 = 0 := hx.1
        exact hy (BitVec.eq_of_toNat_eq (by omega))
      constructor
      · rintro ⟨hin, hpres, hq⟩
        rw [heq hin] at hpres hq
        exact .inl ⟨hin, hpres, hq⟩
      · rintro (⟨hin, hpres, hq⟩ | ⟨hc, -⟩)
        · rw [← heq hin] at hpres hq
          exact ⟨hin, hpres, hq⟩
        · exact absurd hc hy
  have hpOld : ∀ y, ¬s.MappedAt y p := fun y hy => (h.heap y p hy).1 (List.mem_cons_self ..)
  refine ⟨⟨htables.mapPage hx.2.2 hp, h.brk, ?_, ?_, ?_, ?_, ?_, h.aligned, h.notNull⟩, ?_⟩
  · show m.pages.Free l
    rwa [hpages]
  · intro q
    show q ∈ s.added ↔ _
    rw [h.added, List.mem_cons]
    constructor
    · rintro ((rfl | hq) | hq | ⟨y, hy⟩)
      · exact .inr (.inr ⟨x, (hmapped x q).mpr (.inr ⟨rfl, rfl⟩)⟩)
      · exact .inl hq
      · exact .inr (.inl hq)
      · exact .inr (.inr ⟨y, (hmapped y q).mpr (.inl hy)⟩)
    · rintro (hq | hq | ⟨y, hy⟩)
      · exact .inl (.inr hq)
      · exact .inr (.inl hq)
      · rcases (hmapped y q).mp hy with hy | ⟨-, rfl⟩
        · exact .inr (.inr ⟨y, hy⟩)
        · exact .inl (.inl rfl)
  · exact fun q hq => h.others q (List.mem_cons_of_mem p hq)
  · intro y q hy
    rcases (hmapped y q).mp hy with hy | ⟨-, rfl⟩
    · obtain ⟨hl, hothers⟩ := h.heap y q hy
      exact ⟨fun hq => hl (List.mem_cons_of_mem p hq), hothers⟩
    · exact ⟨hnodup.1, h.others q (List.mem_cons_self ..)⟩
  · intro y z q hy hz
    rcases (hmapped y q).mp hy with hy' | ⟨hyx, hyp⟩ <;>
      rcases (hmapped z q).mp hz with hz' | ⟨hzx, hzp⟩
    · exact h.once y z q hy' hz'
    · exact absurd (hzp ▸ hy') (hpOld y)
    · exact absurd (hyp ▸ hz') (hpOld z)
    · rw [hyx, hzx]
  · intro y hy hpage
    rw [hpte y hy, if_neg hpage]

end HeapInv

/-! ## The loop -/

section Loop

variable {s : HeapSys} {l : List ULong} {stop ptr : ULong} {n k : ℕ} {m : Mem} {pd : ULong}

theorem sbrkLoop_nil (h : m.pages.Free []) (hk : k ≠ 0) :
    sbrkLoop pd stop k ptr m = (decide ¬ptr < stop, m) := by
  obtain ⟨k, rfl⟩ := Nat.exists_eq_succ_of_ne_zero hk
  rw [sbrkLoop]
  by_cases hlt : ptr < stop
  · rw [if_pos hlt, Pages.allocPage_nil h, decide_eq_false (not_not.mpr hlt)]
    rfl
  · rw [if_neg hlt, decide_eq_true hlt]

/-- The loop maps `n` pages that it finds. -/
theorem sbrkLoop_inv (hk : n < k) (hptr : Aligned ptr) (hstop : stop < PHYS_MAP)
    (hn : (stop.toNat - ptr.toNat + 4095) / 4096 = n) (h : HeapInv s l) (hlen : n ≤ l.length)
    (hnew : ∀ x ∈ pagesFrom ptr n, s.top ≤ x ∧ ¬Present (s.pte x)) :
    ∃ m, sbrkLoop s.kernel.logicalKernelPd stop k ptr s.kernel.mem = (true, m) ∧
      HeapInv (s.withMem m) (l.drop n) := by
  induction n generalizing s l ptr k with
  | zero =>
    obtain ⟨k, rfl⟩ := Nat.exists_eq_succ_of_ne_zero (Nat.ne_zero_of_lt hk)
    have hle : ¬ptr < stop := by
      rw [BitVec.lt_def]
      omega
    rw [sbrkLoop, if_neg hle]
    exact ⟨_, rfl, h⟩
  | succ n ih =>
    obtain ⟨k, rfl⟩ := Nat.exists_eq_succ_of_ne_zero (Nat.ne_zero_of_lt hk)
    obtain ⟨p, l, rfl⟩ : ∃ p l', l = p :: l' := List.exists_cons_of_length_pos (by omega)
    have hlt : ptr < stop := by
      rw [BitVec.lt_def]
      omega
    have hfirst := hnew ptr (by rw [pagesFrom_succ]; exact List.mem_cons_self ..)
    have hin : s.InHeap ptr := ⟨hptr, hfirst.1, BitVec.lt_trans hlt hstop⟩
    have hne : s.kernel.mem.pages.allocPage.1 ≠ NULL := by
      rw [(Pages.allocPage_cons h.free).1]
      exact h.free.ne_null (List.mem_cons_self ..)
    obtain ⟨hinv, hframe⟩ := h.mapOne hin hfirst.2
    rw [sbrkLoop, if_pos hlt]
    simp only [if_neg hne]
    rw [BitVec.lt_def] at hlt hstop
    change stop.toNat < 8388608 at hstop
    unfold Aligned at hptr
    have hnext : (ptr + PAGE_SIZE).toNat = ptr.toNat + 4096 := by
      rw [BitVec.toNat_add]
      exact Nat.mod_eq_of_lt (by show ptr.toNat + 4096 < 2 ^ 32; omega)
    have hnextAligned : Aligned (ptr + PAGE_SIZE) := by
      unfold Aligned
      omega
    apply ih (by omega) hnextAligned (by omega) hinv (by simpa using hlen)
    intro x hx
    obtain ⟨htop, hpte⟩ := hnew x (by rw [pagesFrom_succ]; exact List.mem_cons_of_mem _ hx)
    have hmem := (mem_pagesFrom (by omega) hnextAligned).mp hx
    refine ⟨htop, ?_⟩
    rwa [hframe x (by rw [BitVec.lt_def]; show x.toNat < 8388608; omega) (by omega)]

/-- The loop stops half way when the pages run out. -/
theorem sbrkLoop_short (hptr : Aligned ptr) (hstop : stop < PHYS_MAP) (hm : KernelTables m pd)
    (hfree : m.pages.Free l) (ha : ∀ p ∈ l, Aligned p)
    (hlen : l.length < (stop.toNat - ptr.toNat + 4095) / 4096) :
    ∃ m', sbrkLoop pd stop k ptr m = (false, m') ∧ (l.length < k → m'.pages.Free []) := by
  induction l generalizing m ptr k with
  | nil =>
    have hlt : ptr < stop := by
      rw [BitVec.lt_def]
      rw [List.length_nil] at hlen
      omega
    cases k with
    | zero => exact ⟨m, rfl, nofun⟩
    | succ k =>
      rw [sbrkLoop_nil hfree (Nat.succ_ne_zero k), decide_eq_false (not_not.mpr hlt)]
      exact ⟨m, rfl, fun _ => hfree⟩
  | cons p l ih =>
    rw [List.length_cons] at hlen ⊢
    cases k with
    | zero => exact ⟨m, rfl, nofun⟩
    | succ k =>
      have hlt : ptr < stop := by
        rw [BitVec.lt_def]
        omega
      obtain ⟨hfst, hrest, -, -⟩ := Pages.allocPage_cons hfree
      have hne : p ≠ NULL := hfree.ne_null (List.mem_cons_self ..)
      have hin : ptr < PHYS_MAP := BitVec.lt_trans hlt hstop
      have htables := hm.withPages m.pages.allocPage.2
      rw [sbrkLoop, if_pos hlt]
      simp only [hfst, if_neg hne]
      rw [BitVec.lt_def] at hlt hstop
      change stop.toNat < 8388608 at hstop
      unfold Aligned at hptr
      have hnext : (ptr + PAGE_SIZE).toNat = ptr.toNat + 4096 := by
        rw [BitVec.toNat_add]
        exact Nat.mod_eq_of_lt (by show ptr.toNat + 4096 < 2 ^ 32; omega)
      have hpages : ({ m with pages := m.pages.allocPage.2 }.mapPage pd p (toLinear ptr)
          PTE_PRESENT).pages = m.pages.allocPage.2 := by
        rw [htables.mapPage_eq hin]
        rfl
      obtain ⟨m', hloop, hm'⟩ := ih (k := k)
        (m := { m with pages := m.pages.allocPage.2 }.mapPage pd p (toLinear ptr) PTE_PRESENT)
        (show Aligned (ptr + PAGE_SIZE) by unfold Aligned; omega) (htables.mapPage hin (ha p (List.mem_cons_self ..)))
        (by rwa [hpages]) (fun q hq => ha q (List.mem_cons_of_mem p hq)) (by omega)
      exact ⟨m', hloop, fun hk => hm' (by omega)⟩

end Loop

/-! ## Runs -/

section Runs

variable {s : HeapSys} {l : List ULong} {delta : ULong}

theorem roundTo_page (h : s.kernel.kernelBrk < PHYS_MAP) :
    Aligned (roundTo s.kernel.kernelBrk PAGE_SIZE) := by
  rw [BitVec.lt_def] at h
  change s.kernel.kernelBrk.toNat < 8388608 at h
  unfold Aligned
  rw [toNat_roundTo (by omega)]
  omega

theorem kernelSbrk_refused (h : PHYS_MAP ≤ s.kernel.kernelBrk + roundTo delta 4) :
    kernelSbrk delta s.kernel = (-1, s.kernel) := by
  rw [kernelSbrk]
  exact if_neg (BitVec.not_lt.mpr h)

/-- There is no page: nothing happens, except that the break may move inside its page. -/
theorem kernelSbrk_empty (h : HeapInv s []) (delta : ULong) :
    kernelSbrk delta s.kernel = (-1, s.kernel) ∨
      (s.kernel.kernelBrk + roundTo delta 4 < PHYS_MAP ∧
        kernelSbrk delta s.kernel = (s.kernel.kernelBrk,
          { s.kernel with kernelBrk := s.kernel.kernelBrk + roundTo delta 4 })) := by
  by_cases hlt : s.kernel.kernelBrk + roundTo delta 4 < PHYS_MAP
  · rw [kernelSbrk, sbrkLoop_nil h.free (by decide)]
    simp only [if_pos hlt]
    by_cases hptr :
        roundTo s.kernel.kernelBrk PAGE_SIZE < s.kernel.kernelBrk + roundTo delta 4
    · rw [decide_eq_false (not_not.mpr hptr)]
      exact .inl rfl
    · rw [decide_eq_true hptr]
      exact .inr ⟨hlt, rfl⟩
  · exact .inl (kernelSbrk_refused (BitVec.not_lt.mp hlt))

/-- There are enough pages, and free places for them. -/
theorem kernelSbrk_fits (h : HeapInv s l) (hlt : s.kernel.kernelBrk + roundTo delta 4 < PHYS_MAP)
    (hlen : (newPages s.kernel.kernelBrk (s.kernel.kernelBrk + roundTo delta 4)).length ≤ l.length)
    (hnew : ∀ x ∈ newPages s.kernel.kernelBrk (s.kernel.kernelBrk + roundTo delta 4),
      s.top ≤ x ∧ ¬Present (s.pte x)) :
    ∃ m l', kernelSbrk delta s.kernel = (s.kernel.kernelBrk,
        { s.kernel with mem := m, kernelBrk := s.kernel.kernelBrk + roundTo delta 4 }) ∧
      HeapInv (s.withMem m) l' := by
  rw [newPages, length_pagesFrom] at hlen
  obtain ⟨m, hloop, hm⟩ := sbrkLoop_inv (k := ADDRESSES)
    (by have := (s.kernel.kernelBrk + roundTo delta 4).isLt; show _ < 2 ^ 32; omega)
    (roundTo_page h.brk) hlt rfl h hlen hnew
  refine ⟨m, _, ?_, hm⟩
  rw [kernelSbrk, hloop]
  simp only [if_pos hlt]

/-- What a call of `kernel_sbrk` does under the condition. -/
theorem HeapInv.sbrk (h : HeapInv s l) (hfits : SbrkFits s (.sbrk delta)) :
    FailsCleanly s (.sbrk delta) ∧
      ∃ l', HeapInv { s with kernel := (kernelSbrk delta s.kernel).2 } l' := by
  have hclean : (kernelSbrk delta s.kernel).2 = s.kernel → FailsCleanly s (.sbrk delta) := by
    intro heq delta' hdelta _
    cases hdelta
    rw [heq]
    exact ⟨rfl, fun _ _ => rfl, rfl⟩
  have hbrk : (kernelSbrk delta s.kernel).1 = s.kernel.kernelBrk →
      FailsCleanly s (.sbrk delta) := by
    intro heq delta' hdelta hret
    cases hdelta
    -- the break is below the map of the physical memory, and so not `-1`
    have hlt := h.brk
    rw [← heq, hret] at hlt
    exact absurd hlt (by decide)
  by_cases hlt : s.kernel.kernelBrk + roundTo delta 4 < PHYS_MAP
  · rcases hfits with hle | hempty | ⟨hlen, hnew⟩
    · exact absurd hlt (BitVec.not_lt.mpr hle)
    · have hl : l = [] := by
        rw [h.free.2] at hempty
        exact List.eq_nil_of_length_eq_zero (by omega)
      subst hl
      rcases kernelSbrk_empty h delta with heq | ⟨hlt, heq⟩
      · exact ⟨hclean (congrArg Prod.snd heq), [], by rw [heq]; exact h⟩
      · exact ⟨hbrk (congrArg Prod.fst heq), [], by rw [heq]; exact h.withBrk hlt⟩
    · rw [h.free.2] at hlen
      obtain ⟨m, l', heq, hinv⟩ := kernelSbrk_fits h hlt (by exact_mod_cast hlen) hnew
      exact ⟨hbrk (congrArg Prod.fst heq), l', by rw [heq]; exact hinv.withBrk hlt⟩
  · have heq := kernelSbrk_refused (BitVec.not_lt.mp hlt)
    exact ⟨hclean (congrArg Prod.snd heq), l, by rw [heq]; exact h⟩

theorem HeapInv.failsCleanly (h : HeapInv s l) {op : HeapOp} (hfits : SbrkFits s op) :
    FailsCleanly s op := by
  cases op with
  | sbrk delta => exact (h.sbrk hfits).1
  | allocPage => exact nofun
  | freePage p => exact nofun

theorem heapStep_inv : Runs.Preserves heapStep SbrkFits fun s => ∃ l, HeapInv s l := by
  rintro s op s' ⟨l, h⟩ hfits hstep
  cases op with
  | sbrk delta =>
    cases hstep
    exact (h.sbrk hfits).2
  | allocPage =>
    cases hstep
    cases l with
    | nil =>
      rw [Pages.allocPage_nil h.free, if_pos rfl]
      exact ⟨[], h⟩
    | cons p l =>
      obtain ⟨hfst, hfree, -, -⟩ := Pages.allocPage_cons h.free
      have hnodup := List.nodup_cons.mp h.free.nodup
      rw [hfst, if_neg (h.free.ne_null (List.mem_cons_self ..))]
      refine ⟨l, h.tables.withPages _, h.brk, hfree, ?_, ?_, ?_, h.once, h.aligned, h.notNull⟩
      · intro q
        show q ∈ s.added ↔ _
        rw [h.added, List.mem_cons, Finset.mem_insert]
        exact ⟨fun hq => by tauto, fun hq => by tauto⟩
      · intro q hq hmem
        rcases Finset.mem_insert.mp hmem with rfl | hmem
        · exact hnodup.1 hq
        · exact h.others q (List.mem_cons_of_mem p hq) hmem
      · intro x q hx
        obtain ⟨hl, hothers⟩ := h.heap x q hx
        refine ⟨fun hq => hl (List.mem_cons_of_mem p hq), fun hmem => ?_⟩
        rcases Finset.mem_insert.mp hmem with rfl | hmem
        · exact hl (List.mem_cons_self ..)
        · exact hothers hmem
  | freePage p =>
    obtain ⟨hp, hs⟩ := Option.ite_none_right_eq_some.mp hstep
    cases hs
    have hl : p ∉ l := fun hmem => h.others p hmem hp
    have hadded : p ∈ s.added := (h.added p).mpr (.inr (.inl hp))
    have hne : p ≠ NULL := fun heq => h.notNull (heq ▸ hadded)
    refine ⟨p :: l, h.tables.withPages _, h.brk, Pages.freePage_free h.free hne hl, ?_, ?_, ?_,
      h.once, h.aligned, h.notNull⟩
    · intro q
      show q ∈ s.added ↔ _
      rw [h.added, List.mem_cons, Finset.mem_erase]
      by_cases hq : q = p
      · subst hq
        exact ⟨fun _ => .inl (.inl rfl), fun _ => .inr (.inl hp)⟩
      · exact ⟨fun h' => by tauto, fun h' => by tauto⟩
    · intro q hq hmem
      obtain ⟨hqp, hmem⟩ := Finset.mem_erase.mp hmem
      exact h.others q ((List.mem_cons.mp hq).resolve_left hqp) hmem
    · intro x q hx
      obtain ⟨hl, hothers⟩ := h.heap x q hx
      refine ⟨fun hq => ?_, fun hmem => hothers (Finset.mem_of_mem_erase hmem)⟩
      rcases List.mem_cons.mp hq with rfl | hq
      · exact hothers hp
      · exact hl hq

/-- **The kernel's heap**: as long as every call of `kernel_sbrk` fits, the pages it took are
those mapped in the heap, each once, and a call that fails changes nothing. -/
theorem heapExact_of_along {s₀ s : HeapSys} {ops : List HeapOp} (h₀ : HeapStart s₀)
    (hok : Runs.Along heapStep SbrkFits s₀ ops) (h : Runs.run heapStep s₀ ops = some s) :
    HeapExact s ∧ Runs.Along heapStep FailsCleanly s₀ ops := by
  have hstart := HeapInv.of_start h₀
  constructor
  · obtain ⟨l, hl⟩ := heapStep_inv.run hstart hok h
    exact hl.heapExact
  · apply heapStep_inv.along _ hstart hok
    intro s op hs hfits
    obtain ⟨l, hl⟩ := hs
    exact hl.failsCleanly hfits

/-! ### One page of memory -/

/-- A kernel that ends at `0x100000`, with one free page. -/
def onePage : HeapSys where
  kernel :=
    { mem :=
        { pages := { links := ⟨0x900000, fun _ => NULL⟩, usedPages := 0, availablePages := 1 }
          table := fun p i =>
            if p = 0x803000 then if i = 992 then 0x5003 else if i = 993 then 0x6003 else 0
            else 0 }
      logicalKernelPd := 0x803000
      kernelBrk := 0x100000 }
  top := 0x100000
  added := {0x900000}
  others := ∅

theorem onePage_free : onePage.kernel.mem.pages.Free [0x900000] :=
  ⟨⟨⟨rfl, by decide, rfl⟩, nofun⟩, rfl⟩

theorem onePage_start : HeapStart onePage := by
  have hdir : ∀ x : ULong, x < PHYS_MAP →
      pageDirOffset (toLinear x) = 992 ∨ pageDirOffset (toLinear x) = 993 := by
    intro x hx
    have hnat := toNat_pageDirOffset (toLinear x)
    rw [toNat_toLinear hx] at hnat
    rw [BitVec.lt_def] at hx
    change x.toNat < 8388608 at hx
    by_cases hlow : x.toNat < 4194304
    · exact .inl (BitVec.eq_of_toNat_eq (by rw [hnat]; show _ = 992; omega))
    · exact .inr (BitVec.eq_of_toNat_eq (by rw [hnat]; show _ = 993; omega))
  have hpte : ∀ x : ULong, x < PHYS_MAP → onePage.pte x = 0 := by
    intro x hx
    rw [HeapSys.pte, Mem.getPte, if_neg]
    · rcases hdir x hx with hi | hi <;> rw [hi] <;> rfl
    · rcases hdir x hx with hi | hi <;> rw [hi] <;> decide
  refine ⟨⟨?_, ?_, ?_, ?_⟩, rfl, by decide, ?_, rfl, ⟨_, onePage_free, rfl, ?_⟩⟩
  · intro x hx
    rcases hdir x hx with hi | hi <;> rw [hi] <;> decide
  · intro x hx
    rw [kernelTable]
    rcases hdir x hx with hi | hi <;> rw [hi] <;> decide
  · intro x y hx hy htable
    rw [kernelTable, kernelTable] at htable
    rcases hdir x hx with hi | hi <;> rcases hdir y hy with hj | hj <;> rw [hi, hj] at htable ⊢
    · exact absurd htable (by decide)
    · exact absurd htable (by decide)
  · intro x hx hfree
    exact hfree (congrArg (· &&& PTE_FREEABLE) (hpte x hx))
  · intro x hx hpres
    exact hpres (by rw [hpte x hx.2.2]; rfl)
  · intro p hp
    rw [List.mem_singleton.mp hp]
    exact (by decide : (0x900000 : ULong).toNat % 4096 = 0)

/-- The heap grows by the one page there is. -/
theorem heapExact_grow : ∃ s, HeapExact s ∧
    Runs.Along heapStep FailsCleanly onePage [.sbrk 4096] := by
  have hpages : newPages 0x100000 0x101000 = [0x100000] := by decide
  have hfits : SbrkFits onePage (.sbrk 4096) := by
    refine .inr (.inr ⟨?_, ?_⟩)
    · show ((newPages 0x100000 0x101000).length : ℤ) ≤ 1
      rw [hpages]
      decide
    · intro x hx
      change x ∈ newPages 0x100000 0x101000 at hx
      rw [hpages, List.mem_singleton] at hx
      subst hx
      exact ⟨BitVec.le_refl _, onePage_start.unmapped _ ⟨by unfold Aligned; decide, by decide, by decide⟩⟩
  exact ⟨_, heapExact_of_along onePage_start ⟨hfits, fun _ _ => trivial⟩ rfl⟩

/-- The heap grows by two pages where there is one: the call fails, and the page is gone. -/
theorem failedSbrk_loses : ¬∀ (s₀ s : HeapSys) (ops : List HeapOp), HeapStart s₀ →
    Runs.run heapStep s₀ ops = some s →
      HeapExact s ∧ Runs.Along heapStep FailsCleanly s₀ ops := by
  intro hall
  obtain ⟨-, hclean, -⟩ := hall onePage _ [.sbrk 8192] onePage_start rfl
  obtain ⟨m, hloop, hm⟩ := sbrkLoop_short (k := ADDRESSES)
    (show Aligned 0x100000 by unfold Aligned; decide)
    (show (0x102000 : ULong) < PHYS_MAP by decide) onePage_start.tables onePage_free
    (fun p hp => by rw [List.mem_singleton.mp hp]; unfold Aligned; decide) (by decide)
  have hcall : kernelSbrk 8192 onePage.kernel = (-1, { onePage.kernel with mem := m }) := by
    rw [kernelSbrk, show roundTo onePage.kernel.kernelBrk PAGE_SIZE = 0x100000 by decide,
      show onePage.kernel.kernelBrk + roundTo 8192 4 = 0x102000 by decide, hloop]
    exact if_pos (by decide)
  have havail := (hclean 8192 rfl (by rw [hcall])).2.2
  rw [hcall] at havail
  -- no page is free any more, though the call took none
  have hnone := (hm (by decide)).2
  exact absurd (havail.symm.trans hnone) (by decide)

end Runs

end Vmm386.Mm
