import Vmm386.Mm.PageMap

/-!
# Access to the memory of a page directory

`put_pd_val` and `get_pd_val` of `kernel/mm/page.c`. A value is written to the physical memory
from the address of its first byte on.
-/

namespace Vmm386.Mm

/-- A load of the 32-bit value at `a`. -/
def loadLong (bytes : ULong → UChar) (a : ULong) : ULong :=
  bytes (a + 3) ++ bytes (a + 2) ++ bytes (a + 1) ++ bytes a

/-- `get_pd_val`. -/
def Memory.getPdVal (pd : ULong) (size : ℕ) (lin : ULong) (m : Memory) : ULong :=
  let phys := m.mem.linToPhys pd lin
  if phys ≠ 0 then
    match size with
    | 1 => (m.bytes (toLogical phys)).setWidth 32
    | 2 => (loadShort m.bytes (toLogical phys)).setWidth 32
    | 3 => loadLong m.bytes (toLogical phys)
    | _ => 0
  else 0

/-! ## The address space -/

/-- The physical address of the byte at a linear address, if its page is mapped. -/
def Mem.cell (m : Mem) (pd x : ULong) : Option ULong :=
  if Present (m.getPte pd x) then some (pteGetAddr (m.getPte pd x) + pageOffset x) else none

/-- The page `q` is the directory or one of its tables. -/
def Mem.IsTable (m : Mem) (pd q : ULong) : Prop :=
  q = pd ∨ ∃ i < 1024, Present (m.table pd i) ∧ entryPage (m.table pd i) = q

/-- `put_pd_val`: the physical address, and the page tables with the page that is mapped when
the address has none. -/
def Mem.forPut (m : Mem) (pd lin : ULong) : ULong × Mem :=
  let phys := m.linToPhys pd lin
  if phys = 0 then
    let new := m.pages.allocPage
    (toPhysical new.1 + pageOffset lin,
      { m with pages := new.2 }.mapPage pd new.1 (lin &&& PAGE_MASK)
        (PTE_READ_WRITE ||| PTE_USER ||| PTE_PRESENT))
  else (phys, m)

/-- If `put_pd_val` needs a page, there is one for the memory and one for the table. -/
structure PutAllocOk (m : Mem) (pd lin : ULong) : Prop where
  ne_null : m.linToPhys pd lin = 0 → m.pages.allocPage.1 ≠ NULL
  aligned : m.linToPhys pd lin = 0 → Aligned m.pages.allocPage.1
  table : m.linToPhys pd lin = 0 → AllocOk { m with pages := m.pages.allocPage.2 } pd lin

/-- Byte `i` of a value at `lin`. -/
def byteAddr (lin : ULong) (i : ℕ) : ULong := lin + BitVec.ofNat 32 i

/-- What a value at `lin` can be relied on for: it is read as it was written, and the write changes
no other byte that the directory maps, and no page table. -/
structure ForeignAccess (m : Mem) (pd : ULong) (size : ℕ) (lin : ULong) : Prop where
  roundTrip : ∀ bytes val,
    ((Memory.putPdVal pd size val lin ⟨m, bytes⟩).getPdVal pd size lin).toNat =
      val.toNat % 2 ^ (8 * size)
  others : ∀ bytes val x c, m.cell pd x = some c →
    (∀ i < size, x ≠ byteAddr lin i ∧ (m.forPut pd lin).2.cell pd (byteAddr lin i) ≠ some c) →
    ((m.forPut pd lin).2.cell pd x).map
        (fun c => (Memory.putPdVal pd size val lin ⟨m, bytes⟩).bytes (toLogical c)) =
      some (bytes (toLogical c))
  tables : ∀ i < size, ¬(m.forPut pd lin).2.IsTable pd
    (toLogical (byteAddr (m.forPut pd lin).1 i) &&& PAGE_MASK)

theorem Memory.putPdVal_eq {pd : ULong} {size : ℕ} {val lin : ULong} {m : Memory}
    (hsize : size = 1 ∨ size = 2 ∨ size = 4) :
    m.putPdVal pd size val lin = ⟨(m.mem.forPut pd lin).2,
      storeBytes size (toLogical (m.mem.forPut pd lin).1) val m.bytes⟩ := by
  rw [Memory.putPdVal, if_pos hsize]
  rfl

/-! ## Stores -/

section Stores

variable {n i : ℕ} {a val x : ULong} {bytes : ULong → UChar}

theorem byteAddr_zero (a : ULong) : byteAddr a 0 = a := BitVec.add_zero a

theorem byteAddr_succ (a : ULong) (i : ℕ) : byteAddr a (i + 1) = byteAddr (a + 1) i := by
  rw [byteAddr, byteAddr, BitVec.add_assoc]
  congr 1
  apply BitVec.eq_of_toNat_eq
  rw [BitVec.toNat_add, BitVec.toNat_ofNat, BitVec.toNat_ofNat]
  show _ = (1 + i % 2 ^ 32) % 2 ^ 32
  omega

/-- Two bytes of a value have different addresses. -/
theorem byteAddr_inj {i j : ℕ} (hi : i < 2 ^ 32) (hj : j < 2 ^ 32)
    (h : byteAddr a i = byteAddr a j) : i = j := by
  have heq : BitVec.ofNat 32 i = BitVec.ofNat 32 j := by
    unfold byteAddr at h
    exact BitVec.add_right_inj a |>.mp h
  have := congrArg BitVec.toNat heq
  rw [BitVec.toNat_ofNat, BitVec.toNat_ofNat] at this
  omega

theorem toLogical_byteAddr (a : ULong) (i : ℕ) :
    toLogical (byteAddr a i) = byteAddr (toLogical a) i := by
  rw [toLogical, toLogical, byteAddr, byteAddr, BitVec.add_assoc,
    BitVec.add_comm (BitVec.ofNat 32 i), ← BitVec.add_assoc]

theorem toLogical_inj {x y : ULong} (h : toLogical x = toLogical y) : x = y :=
  (BitVec.add_left_inj PHYS_MAP).mp h

/-- A store leaves the bytes at other addresses alone. -/
theorem storeBytes_of_ne (h : ∀ i < n, x ≠ byteAddr a i) :
    storeBytes n a val bytes x = bytes x := by
  induction n generalizing a val bytes with
  | zero => rfl
  | succ n ih =>
    have hrest : ∀ i < n, x ≠ byteAddr (a + 1) i := by
      intro i hi
      rw [← byteAddr_succ]
      exact h (i + 1) (by omega)
    have hne : x ≠ a := by
      have := h 0 (by omega)
      rwa [byteAddr_zero] at this
    rw [storeBytes, ih hrest, Function.update_of_ne hne]

/-- What a store writes. -/
theorem storeBytes_byteAddr (hi : i < n) (hn : n ≤ 4) :
    storeBytes n a val bytes (byteAddr a i) = (val >>> (8 * i)).truncate 8 := by
  induction n generalizing a val bytes i with
  | zero => omega
  | succ n ih =>
    rw [storeBytes]
    cases i with
    | zero =>
      have hne : ∀ j < n, a ≠ byteAddr (a + 1) j := by
        intro j hj heq
        rw [← byteAddr_succ] at heq
        exact absurd (byteAddr_inj (by omega) (by omega) ((byteAddr_zero a).trans heq)) (by omega)
      rw [byteAddr_zero, storeBytes_of_ne hne, Function.update_self, Nat.mul_zero,
        BitVec.ushiftRight_zero]
    | succ i =>
      rw [byteAddr_succ, ih (by omega) (by omega), ← BitVec.shiftRight_add]
      congr 2
      omega

/-- A value of one or two bytes is loaded as it was stored. -/
theorem loadShort_storeBytes (a val : ULong) (bytes : ULong → UChar) :
    loadShort (storeBytes 2 a val bytes) a = val.truncate 16 := by
  have h0 : storeBytes 2 a val bytes (byteAddr a 0) = (val >>> 0).truncate 8 :=
    storeBytes_byteAddr (by omega) (by omega)
  have h1 : storeBytes 2 a val bytes (byteAddr a 1) = (val >>> 8).truncate 8 :=
    storeBytes_byteAddr (by omega) (by omega)
  have h1' : storeBytes 2 a val bytes (a + 1) = (val >>> 8).truncate 8 := h1
  rw [byteAddr_zero] at h0
  rw [loadShort, h0, h1']
  ext i hi
  simp only [BitVec.truncate_eq_setWidth, BitVec.getElem_append, BitVec.getElem_setWidth,
    BitVec.getLsbD_ushiftRight]
  split
  · simp
  · congr 1
    omega

end Stores

/-! ## Reading back -/

section RoundTrip

variable {m : Mem} {pd lin val phys : ULong} {size : ℕ} {bytes : ULong → UChar}

/-- A value of one or two bytes is read from where it was written. -/
theorem getPdVal_store (hsize : size = 1 ∨ size = 2) (hphys : m.linToPhys pd lin = phys)
    (hne : phys ≠ 0) :
    (Memory.getPdVal pd size lin ⟨m, storeBytes size (toLogical phys) val bytes⟩).toNat =
      val.toNat % 2 ^ (8 * size) := by
  cases hsize with
  | inl h1 =>
    subst h1
    have hload : Memory.getPdVal pd 1 lin ⟨m, storeBytes 1 (toLogical phys) val bytes⟩ =
        (storeBytes 1 (toLogical phys) val bytes (toLogical phys)).setWidth 32 := by
      unfold Memory.getPdVal
      dsimp only
      rw [hphys]
      exact if_pos hne
    have h0 : storeBytes 1 (toLogical phys) val bytes (byteAddr (toLogical phys) 0) =
        (val >>> 0).truncate 8 := storeBytes_byteAddr (by omega) (by omega)
    rw [byteAddr_zero, BitVec.ushiftRight_zero] at h0
    rw [hload, h0, BitVec.toNat_setWidth, BitVec.truncate_eq_setWidth, BitVec.toNat_setWidth]
    omega
  | inr h2 =>
    subst h2
    have hload : Memory.getPdVal pd 2 lin ⟨m, storeBytes 2 (toLogical phys) val bytes⟩ =
        (loadShort (storeBytes 2 (toLogical phys) val bytes) (toLogical phys)).setWidth 32 := by
      unfold Memory.getPdVal
      dsimp only
      rw [hphys]
      exact if_pos hne
    rw [hload, loadShort_storeBytes, BitVec.toNat_setWidth, BitVec.truncate_eq_setWidth,
      BitVec.toNat_setWidth]
    omega

/-- A value of four bytes is never read. -/
theorem getPdVal_four (m : Memory) (pd lin : ULong) : m.getPdVal pd 4 lin = 0 := by
  unfold Memory.getPdVal
  exact ite_self 0

/-- No value is read from an address that has no physical address. -/
theorem getPdVal_of_zero {m : Memory} (h : m.mem.linToPhys pd lin = 0) :
    m.getPdVal pd size lin = 0 := by
  unfold Memory.getPdVal
  rw [h]
  exact if_neg (not_not.mpr rfl)

end RoundTrip

/-! ## Physical addresses -/

section Cells

variable {m : Mem} {pd lin x y c : ULong} {i j : ℕ}

theorem toNat_pageOffset (x : ULong) : (pageOffset x).toNat = x.toNat % 4096 := by
  rw [pageOffset, BitVec.toNat_and]
  exact Nat.and_two_pow_sub_one_eq_mod _ 12

theorem toNat_pteGetAddr_mod (e : ULong) : (pteGetAddr e).toNat % 4096 = 0 := by
  rw [pteGetAddr, toNat_and_mask]
  omega

theorem toNat_byteAddr (a : ULong) (i : ℕ) : (byteAddr a i).toNat = (a.toNat + i) % 2 ^ 32 := by
  rw [byteAddr, BitVec.toNat_add, BitVec.toNat_ofNat]
  omega

/-- An address and its physical address have the same offset in their pages. -/
theorem Mem.cell_mod (h : m.cell pd x = some c) : c.toNat % 4096 = x.toNat % 4096 := by
  unfold Mem.cell at h
  by_cases hp : Present (m.getPte pd x)
  · rw [if_pos hp] at h
    rw [← Option.some.inj h, BitVec.toNat_add, toNat_pageOffset]
    have := toNat_pteGetAddr_mod (m.getPte pd x)
    omega
  · rw [if_neg hp] at h
    cases h

theorem Mem.linToPhys_of_frame (hp : Present (m.getPte pd x))
    (hne : pteGetAddr (m.getPte pd x) ≠ 0) :
    m.linToPhys pd x = pteGetAddr (m.getPte pd x) + pageOffset x := by
  rw [Mem.linToPhys, Mem.readPageMapping, if_pos hp, if_pos hne, frame_add_offset]

theorem Mem.linToPhys_of_not (h : Present (m.getPte pd x) → pteGetAddr (m.getPte pd x) = 0) :
    m.linToPhys pd x = 0 := by
  rw [Mem.linToPhys, Mem.readPageMapping]
  by_cases hp : Present (m.getPte pd x)
  · rw [if_pos hp, h hp]
    exact if_neg (not_not.mpr rfl)
  · rw [if_neg hp]
    exact if_neg (not_not.mpr rfl)

/-- `lin_to_phys` finds the pages that are mapped, but not to the first physical page. -/
theorem Mem.linToPhys_ne_zero (h : m.linToPhys pd x ≠ 0) :
    Present (m.getPte pd x) ∧ pteGetAddr (m.getPte pd x) ≠ 0 := by
  by_contra hnot
  refine h (Mem.linToPhys_of_not fun hp => ?_)
  by_contra hne
  exact hnot ⟨hp, hne⟩

theorem Mem.linToPhys_frame_ne (hp : Present (m.getPte pd x))
    (hne : pteGetAddr (m.getPte pd x) ≠ 0) :
    m.linToPhys pd x ≠ 0 := by
  rw [Mem.linToPhys, Mem.readPageMapping, if_pos hp, if_pos hne]
  intro hzero
  exact hne (BitVec.or_eq_zero_iff.mp hzero).1

theorem pageNo_and_mask (x : ULong) : pageNo (x &&& PAGE_MASK) = pageNo x := by
  apply BitVec.eq_of_toNat_eq
  rw [toNat_pageNo, toNat_pageNo, toNat_and_mask]
  omega

/-! ## The page that `put_pd_val` maps -/

theorem Mem.forPut_of_ne (h : m.linToPhys pd lin ≠ 0) :
    m.forPut pd lin = (m.linToPhys pd lin, m) := if_neg h

theorem Mem.forPut_of_zero (h : m.linToPhys pd lin = 0) :
    m.forPut pd lin = (toPhysical m.pages.allocPage.1 + pageOffset lin,
      { m with pages := m.pages.allocPage.2 }.mapPage pd m.pages.allocPage.1 (lin &&& PAGE_MASK)
        (PTE_READ_WRITE ||| PTE_USER ||| PTE_PRESENT)) := if_pos h

/-- The entries after `put_pd_val`. -/
theorem Mem.forPut_getPte (hdir : Directory m pd) (halloc : PutAllocOk m pd lin) (x : ULong) :
    (m.forPut pd lin).2.getPte pd x =
      if m.linToPhys pd lin = 0 ∧ pageNo x = pageNo lin then
        toPhysical m.pages.allocPage.1 ||| (PTE_READ_WRITE ||| PTE_USER ||| PTE_PRESENT)
      else m.getPte pd x := by
  by_cases hzero : m.linToPhys pd lin = 0
  · rw [Mem.forPut_of_zero hzero]
    have hdir' : Directory { m with pages := m.pages.allocPage.2 } pd := ⟨hdir.table, hdir.inj⟩
    have halloc' : AllocOk { m with pages := m.pages.allocPage.2 } pd (lin &&& PAGE_MASK) := by
      have hoffset := (pageNo_eq_iff.mp (pageNo_and_mask lin)).1
      have htable := halloc.table hzero
      unfold AllocOk at htable ⊢
      rwa [hoffset]
    have hflags : (PTE_READ_WRITE ||| PTE_USER ||| PTE_PRESENT) &&& PTE_ADDR = 0 := by decide
    obtain ⟨-, hget, -⟩ := hdir'.mapPage m.pages.allocPage.1 halloc' hflags (by decide)
    refine (hget x).trans ?_
    rw [pageNo_and_mask]
    exact if_congr (and_iff_right hzero).symm rfl rfl
  · rw [Mem.forPut_of_ne hzero, if_neg fun hc => hzero hc.1]

/-- The address that `put_pd_val` writes to is the one that is mapped afterwards. -/
theorem Mem.forPut_cell (hdir : Directory m pd) (halloc : PutAllocOk m pd lin) :
    (m.forPut pd lin).2.cell pd lin = some (m.forPut pd lin).1 := by
  unfold Mem.cell
  by_cases hzero : m.linToPhys pd lin = 0
  · have hget := Mem.forPut_getPte hdir halloc lin
    rw [if_pos ⟨hzero, rfl⟩] at hget
    have haligned := halloc.aligned hzero
    have hpres : Present (toPhysical m.pages.allocPage.1 |||
        (PTE_READ_WRITE ||| PTE_USER ||| PTE_PRESENT)) := (present_or haligned).mpr (by decide)
    rw [hget, if_pos hpres, pteGetAddr_or (aligned_toPhysical haligned) (by decide),
      Mem.forPut_of_zero hzero]
  · obtain ⟨hp, hne⟩ := Mem.linToPhys_ne_zero hzero
    rw [Mem.forPut_of_ne hzero, if_pos hp, Mem.linToPhys_of_frame hp hne]

/-- The bytes of the value that are in the first byte's page are where they are written. -/
theorem Mem.forPut_cell_same (hdir : Directory m pd) (halloc : PutAllocOk m pd lin)
    (hpage : pageNo (byteAddr lin i) = pageNo lin) :
    (m.forPut pd lin).2.cell pd (byteAddr lin i) = some (byteAddr (m.forPut pd lin).1 i) := by
  have hcell := Mem.forPut_cell hdir halloc
  have hget : (m.forPut pd lin).2.getPte pd (byteAddr lin i) = (m.forPut pd lin).2.getPte pd lin :=
    Mem.getPte_congr hpage
  unfold Mem.cell at hcell ⊢
  rw [hget]
  by_cases hp : Present ((m.forPut pd lin).2.getPte pd lin)
  · rw [if_pos hp] at hcell ⊢
    have hphys := Option.some.inj hcell
    have hnat := congrArg BitVec.toNat hpage
    rw [toNat_pageNo, toNat_pageNo, toNat_byteAddr] at hnat
    congr 1
    apply BitVec.eq_of_toNat_eq
    rw [← hphys, toNat_byteAddr, BitVec.toNat_add, BitVec.toNat_add, toNat_pageOffset,
      toNat_pageOffset, toNat_byteAddr]
    have := lin.isLt
    omega
  · rw [if_neg hp] at hcell
    cases hcell

end Cells

/-! ## When the access is right -/

/-- What `put_pd_val` and `get_pd_val` need for a value at `lin`. -/
structure PutOk (m : Mem) (pd : ULong) (size : ℕ) (lin : ULong) : Prop where
  size_ne : size ≠ 4
  frame : Present (m.getPte pd lin) → pteGetAddr (m.getPte pd lin) ≠ 0
  newFrame : ¬Present (m.getPte pd lin) → toPhysical m.pages.allocPage.1 ≠ 0
  -- a byte behind the end of the physical page is the value's own, or not mapped
  spill : ∀ i < size, pageNo (byteAddr lin i) ≠ pageNo lin →
    (∃ x, m.cell pd x = some (byteAddr (m.forPut pd lin).1 i)) →
    m.cell pd (byteAddr lin i) = some (byteAddr (m.forPut pd lin).1 i)
  tables : ∀ i < size, ¬m.IsTable pd (toLogical (byteAddr (m.forPut pd lin).1 i) &&& PAGE_MASK)
  newTable : m.linToPhys pd lin = 0 → ¬Present (m.table pd (pageDirOffset lin)) → ∀ i < size,
    toLogical (byteAddr (m.forPut pd lin).1 i) &&& PAGE_MASK ≠ m.pages.allocPage.2.allocPage.1

section Access

variable {m : Mem} {pd lin x c q : ULong} {size i j : ℕ}

/-- The pages that are tables once there is one for an address. -/
theorem NewTables.isTable {m' : Mem} {addr : ULong} (h : NewTables m m' pd addr)
    (hpres : Present (m'.table pd (pageDirOffset addr))) :
    m'.IsTable pd q ↔ m.IsTable pd q ∨
      ¬Present (m.table pd (pageDirOffset addr)) ∧ q = m.pages.allocPage.1 := by
  have hlt := pageDirOffset_lt addr
  have hentry := h.entry
  unfold Mem.IsTable
  by_cases hp : Present (m.table pd (pageDirOffset addr))
  · rw [if_pos hp] at hentry
    have hsame : ∀ i, (Present (m'.table pd i) ∧ entryPage (m'.table pd i) = q) ↔
        (Present (m.table pd i) ∧ entryPage (m.table pd i) = q) := by
      intro i
      by_cases hi : i = pageDirOffset addr
      · rw [hi, hentry, and_iff_right hpres, and_iff_right hp]
      · rw [h.other i hi]
    simp only [hsame]
    exact (or_iff_left fun hc => hc.1 hp).symm
  · rw [if_neg hp] at hentry
    rw [and_iff_right hp]
    constructor
    · intro hq
      refine hq.elim (fun hq => Or.inl (Or.inl hq)) fun ⟨i, hi, hpi, heq⟩ => ?_
      by_cases hne : i = pageDirOffset addr
      · rw [hne, hentry] at heq
        exact Or.inr heq.symm
      · rw [h.other i hne] at hpi heq
        exact Or.inl (Or.inr ⟨i, hi, hpi, heq⟩)
    · intro hq
      refine hq.elim (fun hq => hq.elim Or.inl fun ⟨i, hi, hpi, heq⟩ => Or.inr ⟨i, hi, ?_⟩)
        fun hq => Or.inr ⟨_, hlt, hpres, hentry.trans hq.symm⟩
      have hne : i ≠ pageDirOffset addr := fun hc => hp (hc ▸ hpi)
      rw [h.other i hne]
      exact ⟨hpi, heq⟩

/-- The tables after `put_pd_val`. -/
theorem Mem.forPut_isTable (hdir : Directory m pd) (halloc : PutAllocOk m pd lin) :
    (m.forPut pd lin).2.IsTable pd q ↔ m.IsTable pd q ∨
      m.linToPhys pd lin = 0 ∧ ¬Present (m.table pd (pageDirOffset lin)) ∧
        q = m.pages.allocPage.2.allocPage.1 := by
  by_cases hzero : m.linToPhys pd lin = 0
  · rw [Mem.forPut_of_zero hzero, and_iff_right hzero]
    have hdir' : Directory { m with pages := m.pages.allocPage.2 } pd := ⟨hdir.table, hdir.inj⟩
    have hoffset := (pageNo_eq_iff.mp (pageNo_and_mask lin)).1
    have halloc' : AllocOk { m with pages := m.pages.allocPage.2 } pd (lin &&& PAGE_MASK) := by
      have htable := halloc.table hzero
      unfold AllocOk at htable ⊢
      rwa [hoffset]
    have hflags : (PTE_READ_WRITE ||| PTE_USER ||| PTE_PRESENT) &&& PTE_ADDR = 0 := by decide
    obtain ⟨-, -, hpres, htables, -⟩ := hdir'.mapPage m.pages.allocPage.1 halloc' hflags (by decide)
    have htab := @NewTables.isTable _ _ q _ _ htables hpres
    rw [hoffset] at htab
    exact htab
  · rw [Mem.forPut_of_ne hzero]
    exact (or_iff_left fun hc => hzero hc.1).symm

/-- A byte that is mapped keeps its physical address. -/
theorem Mem.forPut_cell_kept (hdir : Directory m pd) (halloc : PutAllocOk m pd lin)
    (hframe : Present (m.getPte pd lin) → pteGetAddr (m.getPte pd lin) ≠ 0)
    (h : m.cell pd x = some c) : (m.forPut pd lin).2.cell pd x = some c := by
  have hsame : ¬(m.linToPhys pd lin = 0 ∧ pageNo x = pageNo lin) := by
    intro ⟨hzero, hpage⟩
    unfold Mem.cell at h
    rw [Mem.getPte_congr hpage] at h
    by_cases hp : Present (m.getPte pd lin)
    · exact Mem.linToPhys_frame_ne hp (hframe hp) hzero
    · rw [if_neg hp] at h
      cases h
  have hget := Mem.forPut_getPte hdir halloc x
  rw [if_neg hsame] at hget
  unfold Mem.cell at h ⊢
  rw [hget]
  exact h

/-- The pages of the other bytes of the value are not mapped anew. -/
theorem Mem.forPut_cell_other (hdir : Directory m pd) (halloc : PutAllocOk m pd lin)
    (hpage : pageNo x ≠ pageNo lin) : (m.forPut pd lin).2.cell pd x = m.cell pd x := by
  have hget := Mem.forPut_getPte hdir halloc x
  rw [if_neg fun hc => hpage hc.2] at hget
  unfold Mem.cell
  rw [hget]

theorem Mem.forPut_mod (hdir : Directory m pd) (halloc : PutAllocOk m pd lin) :
    (m.forPut pd lin).1.toNat % 4096 = lin.toNat % 4096 :=
  Mem.cell_mod (Mem.forPut_cell hdir halloc)

theorem eq_of_byteAddr_mod {a b : ULong} (hmod : a.toNat % 4096 = b.toNat % 4096) (hi : i < 4)
    (hj : j < 4) (h : (byteAddr a i).toNat % 4096 = (byteAddr b j).toNat % 4096) : i = j := by
  rw [toNat_byteAddr, toNat_byteAddr] at h
  omega

/-- Where the condition holds, the value can be relied on. -/
theorem PutOk.foreignAccess (hdir : Directory m pd) (halloc : PutAllocOk m pd lin)
    (hsize : size = 1 ∨ size = 2 ∨ size = 4) (h : PutOk m pd size lin) :
    ForeignAccess m pd size lin := by
  refine ⟨fun bytes val => ?_, fun bytes val x c hx hother => ?_, fun i hi => ?_⟩
  · rw [Memory.putPdVal_eq hsize]
    have hsize' : size = 1 ∨ size = 2 := by
      have := h.size_ne
      omega
    have hcell := Mem.forPut_cell hdir halloc
    have hget := Mem.forPut_getPte hdir halloc lin
    have hentry : Present ((m.forPut pd lin).2.getPte pd lin) ∧
        pteGetAddr ((m.forPut pd lin).2.getPte pd lin) ≠ 0 := by
      by_cases hzero : m.linToPhys pd lin = 0
      · rw [if_pos ⟨hzero, rfl⟩] at hget
        rw [hget, pteGetAddr_or (aligned_toPhysical (halloc.aligned hzero)) (by decide)]
        refine ⟨(present_or (halloc.aligned hzero)).mpr (by decide), h.newFrame fun hp => ?_⟩
        exact Mem.linToPhys_frame_ne hp (h.frame hp) hzero
      · rw [if_neg fun hc => hzero hc.1] at hget
        rw [hget]
        exact Mem.linToPhys_ne_zero hzero
    have hphys : (m.forPut pd lin).2.linToPhys pd lin = (m.forPut pd lin).1 := by
      rw [Mem.linToPhys_of_frame hentry.1 hentry.2]
      unfold Mem.cell at hcell
      rw [if_pos hentry.1] at hcell
      exact Option.some.inj hcell
    refine getPdVal_store hsize' hphys ?_
    rw [← hphys]
    exact Mem.linToPhys_frame_ne hentry.1 hentry.2
  · rw [Memory.putPdVal_eq hsize, Mem.forPut_cell_kept hdir halloc h.frame hx]
    show some _ = some _
    congr 1
    apply storeBytes_of_ne
    intro i hi heq
    rw [← toLogical_byteAddr] at heq
    have hc := toLogical_inj heq
    rw [hc] at hx hother
    refine (hother i hi).2 ?_
    by_cases hpage : pageNo (byteAddr lin i) = pageNo lin
    · exact Mem.forPut_cell_same hdir halloc hpage
    · rw [Mem.forPut_cell_other hdir halloc hpage]
      exact h.spill i hi hpage ⟨x, hx⟩
  · rw [Mem.forPut_isTable hdir halloc]
    intro hc
    exact hc.elim (h.tables i hi) fun ⟨hzero, hp, heq⟩ => h.newTable hzero hp i hi heq

/-- A byte of the page that is at another offset than the bytes of the value. -/
theorem exists_other_offset (lin : ULong) : ∃ y, pageNo y = pageNo lin ∧
    ∀ i < 4, y.toNat % 4096 ≠ (byteAddr lin i).toNat % 4096 := by
  have hlt := lin.isLt
  obtain ⟨o, ho, hne⟩ : ∃ o < 4096, ∀ i < 4, o ≠ (lin.toNat + i) % 4096 := by
    by_cases hlow : lin.toNat % 4096 < 2048
    · exact ⟨4095, by omega, fun i hi => by omega⟩
    · exact ⟨1024, by omega, fun i hi => by omega⟩
  have hy : (BitVec.ofNat 32 (lin.toNat / 4096 * 4096 + o)).toNat =
      lin.toNat / 4096 * 4096 + o := Nat.mod_eq_of_lt (by omega)
  refine ⟨BitVec.ofNat 32 (lin.toNat / 4096 * 4096 + o), ?_, fun i hi => ?_⟩
  · apply BitVec.eq_of_toNat_eq
    rw [toNat_pageNo, toNat_pageNo, hy]
    omega
  · have := hne i hi
    rw [hy, toNat_byteAddr]
    omega

/-- A page that is mapped to the first physical page loses its other bytes. -/
theorem ForeignAccess.not_remapped (h : ForeignAccess m pd size lin) (hdir : Directory m pd)
    (halloc : PutAllocOk m pd lin) (hsize : size = 1 ∨ size = 2 ∨ size = 4)
    (hp : Present (m.getPte pd lin)) (hframe : pteGetAddr (m.getPte pd lin) = 0)
    (hnew : toPhysical m.pages.allocPage.1 ≠ 0) : False := by
  have hlin : m.linToPhys pd lin = 0 := Mem.linToPhys_of_not fun _ => hframe
  obtain ⟨y, hpage, hne⟩ := exists_other_offset lin
  have hbefore : m.cell pd y = some (pageOffset y) := by
    unfold Mem.cell
    rw [Mem.getPte_congr hpage, if_pos hp, hframe]
    exact congrArg some (BitVec.zero_add _)
  have haligned := halloc.aligned hlin
  have hafter : (m.forPut pd lin).2.cell pd y =
      some (toPhysical m.pages.allocPage.1 + pageOffset y) := by
    have hget := Mem.forPut_getPte hdir halloc y
    rw [if_pos ⟨hlin, hpage⟩] at hget
    have hpres : Present (toPhysical m.pages.allocPage.1 |||
        (PTE_READ_WRITE ||| PTE_USER ||| PTE_PRESENT)) := (present_or haligned).mpr (by decide)
    unfold Mem.cell
    rw [hget, if_pos hpres, pteGetAddr_or (aligned_toPhysical haligned) (by decide)]
  have hother : ∀ i < size, y ≠ byteAddr lin i ∧
      (m.forPut pd lin).2.cell pd (byteAddr lin i) ≠ some (pageOffset y) := by
    intro i hi
    have hi4 : i < 4 := by omega
    refine ⟨fun heq => hne i hi4 (by rw [heq]), fun hc => ?_⟩
    have hmod := Mem.cell_mod hc
    rw [toNat_pageOffset] at hmod
    exact hne i hi4 (by omega)
  have hkept := h.others (Function.update (fun _ => 0) (toLogical (pageOffset y)) 1) 0 y _ hbefore
    hother
  rw [hafter, Memory.putPdVal_eq hsize, Function.update_self] at hkept
  have hbyte : storeBytes size (toLogical (m.forPut pd lin).1) 0
      (Function.update (fun _ => 0) (toLogical (pageOffset y)) 1)
      (toLogical (toPhysical m.pages.allocPage.1 + pageOffset y)) = 1 := Option.some.inj hkept
  have hmiss : ∀ i < size, toLogical (toPhysical m.pages.allocPage.1 + pageOffset y) ≠
      byteAddr (toLogical (m.forPut pd lin).1) i := by
    intro i hi heq
    rw [← toLogical_byteAddr] at heq
    have hnat := congrArg (fun c => BitVec.toNat c % 4096) (toLogical_inj heq)
    have hmod := Mem.forPut_mod hdir halloc
    have halign := aligned_toPhysical haligned
    have hneq := hne i (by omega)
    unfold Aligned at halign
    rw [toNat_byteAddr] at hneq
    simp only [BitVec.toNat_add, toNat_pageOffset, toNat_byteAddr] at hnat
    omega
  have hmoved : toLogical (toPhysical m.pages.allocPage.1 + pageOffset y) ≠
      toLogical (pageOffset y) := by
    intro heq
    exact hnew (BitVec.add_left_eq_self.mp (toLogical_inj heq))
  rw [storeBytes_of_ne hmiss, Function.update_of_ne hmoved] at hbyte
  exact absurd hbyte (by decide)

/-- Nothing else will do. -/
theorem ForeignAccess.putOk (hdir : Directory m pd) (halloc : PutAllocOk m pd lin)
    (hsize : size = 1 ∨ size = 2 ∨ size = 4) (h : ForeignAccess m pd size lin) :
    PutOk m pd size lin := by
  have hpos : 0 < size := by omega
  have hle : size ≤ 4 := by omega
  -- the value 1 is read back, so the address has a physical one
  have hone : (Memory.putPdVal pd size 1 lin ⟨m, fun _ => 0⟩).getPdVal pd size lin ≠ 0 := by
    intro hzero
    have hread := h.roundTrip (fun _ => 0) 1
    have hmod : 1 % 2 ^ (8 * size) = 1 := Nat.mod_eq_of_lt (Nat.one_lt_two_pow (by omega))
    have hval : (1 : ULong).toNat = 1 := rfl
    rw [hzero, hval, hmod] at hread
    exact absurd hread (by decide)
  have hread : (m.forPut pd lin).2.linToPhys pd lin ≠ 0 := by
    intro hzero
    refine hone ?_
    rw [Memory.putPdVal_eq hsize]
    exact getPdVal_of_zero hzero
  have hphys := Mem.linToPhys_ne_zero hread
  have hsize_ne : size ≠ 4 := by
    intro h4
    subst h4
    exact hone (getPdVal_four _ pd lin)
  have hnew : m.linToPhys pd lin = 0 → toPhysical m.pages.allocPage.1 ≠ 0 := by
    intro hzero
    have hne := hphys.2
    rw [Mem.forPut_getPte hdir halloc, if_pos ⟨hzero, rfl⟩,
      pteGetAddr_or (aligned_toPhysical (halloc.aligned hzero)) (by decide)] at hne
    exact hne
  have hframe : Present (m.getPte pd lin) → pteGetAddr (m.getPte pd lin) ≠ 0 := by
    intro hp hzero
    have hlin : m.linToPhys pd lin = 0 := Mem.linToPhys_of_not fun _ => hzero
    exact h.not_remapped hdir halloc hsize hp hzero (hnew hlin)
  refine ⟨hsize_ne, hframe, fun hp => hnew (Mem.linToPhys_of_not fun hc => absurd hc hp), ?_,
    fun i hi hc => ?_, fun hzero hp i hi hc => ?_⟩
  · intro i hi hpage ⟨x, hx⟩
    by_contra hcell
    have hmod := Mem.forPut_mod hdir halloc
    have hcellMod := Mem.cell_mod hx
    have hother : ∀ j < size,
        (m.forPut pd lin).2.cell pd (byteAddr lin j) ≠ some (byteAddr (m.forPut pd lin).1 i) := by
      intro j hj hc
      have hji : i = j :=
        eq_of_byteAddr_mod hmod (by omega) (by omega) (Mem.cell_mod hc)
      rw [← hji, Mem.forPut_cell_other hdir halloc hpage] at hc
      exact hcell hc
    have hxj : ∀ j < size, x ≠ byteAddr lin j := by
      intro j hj heq
      rw [heq] at hx
      exact hother j hj (Mem.forPut_cell_kept hdir halloc hframe hx)
    have hkept := h.others (fun _ => 0) 0xffffffff x _ hx fun j hj => ⟨hxj j hj, hother j hj⟩
    rw [Mem.forPut_cell_kept hdir halloc hframe hx, Memory.putPdVal_eq hsize] at hkept
    have hbyte : storeBytes size (toLogical (m.forPut pd lin).1) 0xffffffff (fun _ => 0)
        (toLogical (byteAddr (m.forPut pd lin).1 i)) = 0 := Option.some.inj hkept
    rw [toLogical_byteAddr, storeBytes_byteAddr hi hle] at hbyte
    have hi4 : i < 4 := by omega
    interval_cases i <;> exact absurd hbyte (by decide)
  · exact h.tables i hi ((Mem.forPut_isTable hdir halloc).mpr (Or.inl hc))
  · exact h.tables i hi ((Mem.forPut_isTable hdir halloc).mpr (Or.inr ⟨hzero, hp, hc⟩))

end Access

/-- **Access to foreign memory.** Values can be written and read, and nothing else changes, exactly
if the value has one or two bytes, its page is not mapped to the first physical page (nor gets that
page), and the physical memory behind the page that the value runs over is not another page's. -/
theorem foreignAccess_iff {m : Mem} {pd lin : ULong} {size : ℕ} (hdir : Directory m pd)
    (halloc : PutAllocOk m pd lin) (hsize : size = 1 ∨ size = 2 ∨ size = 4) :
    ForeignAccess m pd size lin ↔ PutOk m pd size lin :=
  ⟨fun h => h.putOk hdir halloc hsize, fun h => h.foreignAccess hdir halloc hsize⟩

/-! ## One page -/

/-- A directory with one table, in which the sixth page is mapped to the third physical page. -/
def sixthPage : Mem where
  pages := ⟨⟨NULL, fun _ => NULL⟩, 4, 0⟩
  table q k :=
    if q = 0x900000 ∧ k = 0 then 0x1007 else if q = 0x801000 ∧ k = 5 then 0x2007 else 0

theorem sixthPage_present {i : ULong} (h : Present (sixthPage.table 0x900000 i)) : i = 0 := by
  by_contra hi
  refine h ?_
  have hzero : sixthPage.table 0x900000 i = 0 := by
    unfold sixthPage
    dsimp only
    rw [if_neg fun hc => hi hc.2, if_neg fun hc => absurd hc.1 (by decide)]
  rw [hzero]
  rfl

theorem sixthPage_directory : Directory sixthPage 0x900000 := by
  refine ⟨fun i _ hp => ?_, fun i _ i' _ hp hp' _ => ?_⟩
  · rw [sixthPage_present hp]
    decide
  · rw [sixthPage_present hp, sixthPage_present hp']

theorem sixthPage_linToPhys : sixthPage.linToPhys 0x900000 0x5004 = 0x2004 := by decide

theorem sixthPage_allocOk : PutAllocOk sixthPage 0x900000 0x5004 := by
  refine ⟨fun h => ?_, fun h => ?_, fun h => ?_⟩ <;>
    exact absurd (sixthPage_linToPhys.symm.trans h) (by decide)

/-- A value of two bytes can be written to the mapped page and read back. -/
theorem foreignAccess_sixthPage : ForeignAccess sixthPage 0x900000 2 0x5004 := by
  refine (foreignAccess_iff sixthPage_directory sixthPage_allocOk (by decide)).mpr
    ⟨by decide, fun _ => by decide, fun h => absurd h (by decide), ?_, ?_, ?_⟩
  · intro i hi hpage
    interval_cases i <;> exact absurd rfl hpage
  · intro i hi hc
    refine hc.elim (fun heq => ?_) fun ⟨k, _, hp, heq⟩ => ?_
    · interval_cases i <;> exact absurd heq (by decide)
    · rw [sixthPage_present hp] at heq
      interval_cases i <;> exact absurd heq (by decide)
  · intro hzero
    exact absurd (sixthPage_linToPhys.symm.trans hzero) (by decide)

/-- A value of four bytes is not read back from it. -/
theorem getPdVal_four_fails : Directory sixthPage 0x900000 ∧ PutAllocOk sixthPage 0x900000 0x5004 ∧
    ((Memory.putPdVal 0x900000 4 0x12345678 0x5004 ⟨sixthPage, fun _ => 0⟩).getPdVal
      0x900000 4 0x5004).toNat ≠ (0x12345678 : ULong).toNat % 2 ^ (8 * 4) := by
  refine ⟨sixthPage_directory, sixthPage_allocOk, ?_⟩
  rw [getPdVal_four]
  decide

end Vmm386.Mm
