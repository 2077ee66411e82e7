import Vmm386.Fs.BlockTreeTheorems

/-!
# `get_data_blkno`, level by level

The way down to a data block is a path. Each level takes the next pointer, or attaches the
first free block of the bitmap to it; it may stop for lack of space or because of a fault, and
a fault of the `bread` of a block it has just attached leaves that block as it was.
-/

namespace Vmm386.Fs.FileSys

open Forest

section

variable {fs fs₁ fs' : FileSys} {P Q : Path} {b : ULong} {create : Bool} {fault : Fault}
  {faults : Faults} {inum : ULong} {k : Fin NR_PTRS}

/-! ## The free blocks -/

/-- The blocks of the data area that are not in use, in the order in which they are given out. -/
def freeBlocks (fs : FileSys) : List ULong :=
  ((List.range fs.sup.dataSize.toNat).filter fun n => !fs.bit fs.sup.dataBitmap n).map
    fun n => fs.sup.data + BitVec.ofNat 32 n

/-- The first number that satisfies `p` is at the head of a filtered range. -/
theorem filter_range_eq_cons {p : ℕ → Bool} {n : ℕ} (hp : p n = true) (hmin : ∀ j < n, p j = false) :
    ∀ {N : ℕ}, n < N →
      (List.range N).filter p = n :: (List.range N).filter fun j => p j && decide (j ≠ n) := by
  intro N hN
  induction N with
  | zero => omega
  | succ N ih =>
    rw [List.range_succ, List.filter_append, List.filter_append]
    by_cases hnN : n = N
    · subst hnN
      have hnil : (List.range n).filter p = [] := by
        rw [List.filter_eq_nil_iff]
        intro j hj
        simp [hmin j (List.mem_range.mp hj)]
      have hnil' : (List.range n).filter (fun j => p j && decide (j ≠ n)) = [] := by
        rw [List.filter_eq_nil_iff]
        intro j hj
        simp [hmin j (List.mem_range.mp hj)]
      rw [hnil, hnil']
      simp [hp]
    · have hlast : (p N && decide (N ≠ n)) = p N := by simp [Ne.symm hnN]
      rw [ih (by omega), List.cons_append]
      simp only [List.filter_singleton, hlast]

theorem toNat_data_add (hL : Layout fs.sup) {n : ℕ} (hn : n < fs.sup.dataSize.toNat) :
    (fs.sup.data + BitVec.ofNat 32 n).toNat = fs.sup.data.toNat + n := by
  have hdata := hL.data
  rw [BitVec.toNat_add, BitVec.toNat_ofNat]
  omega

theorem inData_data_add (hL : Layout fs.sup) {n : ℕ} (hn : n < fs.sup.dataSize.toNat) :
    InData fs.sup (fs.sup.data + BitVec.ofNat 32 n) := by
  constructor <;> rw [toNat_data_add hL hn] <;> omega

theorem inUse_data_add (hL : Layout fs.sup) {n : ℕ} (hn : n < fs.sup.dataSize.toNat) :
    fs.inUse (fs.sup.data + BitVec.ofNat 32 n) = fs.bit fs.sup.dataBitmap n := by
  rw [inUse, toNat_sub_data (inData_data_add hL hn), toNat_data_add hL hn, Nat.add_sub_cancel_left]

/-- Every block of the data area has a number there. -/
theorem InData.exists_number (hb : InData fs.sup b) :
    ∃ n < fs.sup.dataSize.toNat, b = fs.sup.data + BitVec.ofNat 32 n := by
  have h1 := hb.1
  have h2 := hb.2
  have hlt := b.isLt
  refine ⟨b.toNat - fs.sup.data.toNat, by omega, BitVec.eq_of_toNat_eq ?_⟩
  rw [BitVec.toNat_add, BitVec.toNat_ofNat]
  omega

theorem mem_freeBlocks (hL : Layout fs.sup) :
    b ∈ fs.freeBlocks ↔ InData fs.sup b ∧ fs.inUse b = false := by
  simp only [freeBlocks, List.mem_map, List.mem_filter, List.mem_range, Bool.not_eq_true']
  constructor
  · rintro ⟨n, ⟨hn, hbit⟩, rfl⟩
    exact ⟨inData_data_add hL hn, by rw [inUse_data_add hL hn, hbit]⟩
  · rintro ⟨hb, hfree⟩
    obtain ⟨n, hn, rfl⟩ := hb.exists_number
    rw [inUse_data_add hL hn] at hfree
    exact ⟨n, ⟨hn, hfree⟩, rfl⟩

/-- The bitmap has the free blocks. -/
theorem freeBlocks_congr (hL : Layout fs.sup) (hsup : fs'.sup = fs.sup)
    (hdisk : ∀ a, a.toNat < fs.sup.data.toNat → fs'.disk a = fs.disk a) :
    fs'.freeBlocks = fs.freeBlocks := by
  rw [freeBlocks, freeBlocks, hsup]
  congr 1
  apply List.filter_congr
  intro n hn
  have hn' := List.mem_range.mp hn
  rw [← inUse_data_add hL hn', ← inUse_congr hL hsup hdisk (inData_data_add hL hn'), inUse, hsup,
    toNat_sub_data (inData_data_add hL hn'), toNat_data_add hL hn', Nat.add_sub_cancel_left]

/-- **`alloc_block`** takes the first free block. -/
theorem allocBlock_head (hL : Layout fs.sup) (hpad : fs.DataPadded) (locality : ULong) :
    (∃ b rest, fs.freeBlocks = b :: rest ∧ (fs.mark b true).freeBlocks = rest ∧
      fs.allocBlock locality = (b, fs.mark b true)) ∨
    (fs.freeBlocks = [] ∧ fs.allocBlock locality = (0, fs.fail E_NOSPC)) := by
  rcases bmapAlloc_spec hpad with ⟨n, hn, hclear, hfirst, halloc⟩ | ⟨hset, halloc⟩
  · left
    have hb := inData_data_add hL hn
    have hsub : (fs.sup.data + BitVec.ofNat 32 n - fs.sup.data).toNat = n := by
      rw [toNat_sub_data hb, toNat_data_add hL hn, Nat.add_sub_cancel_left]
    refine ⟨fs.sup.data + BitVec.ofNat 32 n, _, ?_, rfl, ?_⟩
    · rw [freeBlocks, filter_range_eq_cons (by simp [hclear]) (by simpa using hfirst) hn,
        List.map_cons]
      congr 2
      apply List.filter_congr
      intro j hj
      have hj' := List.mem_range.mp hj
      have hsize := fs.sup.dataSize.isLt
      have hbit : (fs.mark (fs.sup.data + BitVec.ofNat 32 n) true).bit fs.sup.dataBitmap j =
          if j = n then true else fs.bit fs.sup.dataBitmap j := by
        rw [mark, hsub]
        exact fs.bit_putBit _ true (by omega) (by omega)
      rw [mark_sup, hbit]
      by_cases hjn : j = n <;> simp [hjn]
    · rw [allocBlock, halloc, mark, hsub]
      rfl
  · right
    refine ⟨?_, by rw [allocBlock, halloc]⟩
    rw [freeBlocks, List.map_eq_nil_iff, List.filter_eq_nil_iff]
    intro n hn
    simp [hset n (List.mem_range.mp hn)]

theorem attach_freeBlocks (hc : Consistent fs) (hP : Linkable fs P) (hb : InData fs.sup b) :
    (fs.attach P b).freeBlocks = (fs.mark b true).freeBlocks := by
  have hsup : (fs.attach P b).sup = (fs.mark b true).sup := attach_sup.trans (mark_sup true).symm
  apply freeBlocks_congr _ hsup
  · intro a ha
    rw [mark_sup] at ha
    exact attach_disk_bitmap hc hP hb ha
  · rw [mark_sup]
    exact hc.layout

/-! ## One level -/

/-- Allocate a block and enter it at the end of `P`, as `get_inode_blkno` and
`get_indirect_blkno` do. -/
def link (fs : FileSys) (P : Path) (b : ULong) : FileSys := (fs.mark b true).put b (fs.place P)

/-- What `get_inode_blkno` and `get_indirect_blkno` can return for the pointer at the end of
`P`. `ERRNO` is left open where nobody looks at it. -/
inductive Got (fs : FileSys) (fault : Fault) (create : Bool) (P : Path) :
    ULong × Bool × FileSys → Prop where
  | found (e : ℤ) : fs.walk P ≠ 0 → Got fs fault create P (fs.walk P, false, fs.fail e)
  | created (b : ULong) (rest : List ULong) (e : ℤ) : create = true → fs.walk P = 0 →
      fault.alloc = none → fs.freeBlocks = b :: rest →
      Got fs fault create P (b, true, (fs.link P b).fail e)
  | full (e : ℤ) : create = true → fs.walk P = 0 → fs.freeBlocks = [] →
      (0 ≤ fs.ioResult → 0 ≤ e) → Got fs fault create P (0, false, fs.fail e)
  | fault (e : ℤ) : create = true → fs.walk P = 0 → fault.alloc ≠ none →
      Got fs fault create P (0, false, fs.fail e)
  | missing : create = false → fs.walk P = 0 →
      Got fs fault create P (0, false, fs.fail E_NOEXIST)

theorem brelse_eq (fs : FileSys) (buf : Buf) :
    ∃ e, fs.brelse buf = fs.fail e ∧ (e = fs.ioResult ∨ e = fs.errno) := by
  rw [brelse]
  split
  · exact ⟨fs.ioResult, rfl, .inl rfl⟩
  · exact ⟨fs.errno, rfl, .inr rfl⟩

/-- The allocation of one level. -/
theorem tryAllocBlock_spec (fault : Fault) (hL : Layout fs.sup) (hpad : fs.DataPadded) (locality : ULong) :
    (∃ b rest, fault.alloc = none ∧ fs.freeBlocks = b :: rest ∧
      fs.tryAllocBlock fault locality = (b, fs.mark b true)) ∨
    ∃ e, (fs.freeBlocks = [] ∧ e = E_NOSPC ∨ fault.alloc ≠ none) ∧
      fs.tryAllocBlock fault locality = (0, fs.fail e) := by
  rw [tryAllocBlock]
  rcases hfault : fault.alloc with _ | e
  · rcases allocBlock_head hL hpad locality with ⟨b, rest, hfree, -, halloc⟩ | ⟨hfree, halloc⟩
    · exact .inl ⟨b, rest, rfl, hfree, halloc⟩
    · exact .inr ⟨_, .inl ⟨hfree, rfl⟩, halloc⟩
  · exact .inr ⟨e, .inr (by simp), rfl⟩

theorem head_freeBlocks (hL : Layout fs.sup) {rest : List ULong} (h : fs.freeBlocks = b :: rest) :
    InData fs.sup b ∧ fs.inUse b = false :=
  (mem_freeBlocks hL).mp (by rw [h]; exact List.mem_cons_self ..)

theorem getInodeBlkno_got (hc : Consistent fs) (hn : inum.toNat < fs.sup.numInodes.toNat) :
    Got fs fault create (.root (inum, k)) (fs.getInodeBlkno fault inum k create) := by
  have hwalk : fs.walk (.root (inum, k)) = (fs.inode inum).data k := if_pos hn
  rw [getInodeBlkno]
  by_cases h0 : (fs.inode inum).data k = 0
  · rw [if_neg (not_not.mpr h0)]
    have h0' := hwalk.trans h0
    by_cases hcreate : create = true
    · rw [if_pos hcreate]
      rcases tryAllocBlock_spec fault hc.layout hc.padded
          (if k > 0 then (fs.inode inum).data (k - 1) else 0) with
        ⟨b, rest, hfault, hfree, halloc⟩ | ⟨e, hwhy, halloc⟩
      · have hb := head_freeBlocks hc.layout hfree
        rw [halloc]
        simp only [ne_eq, hb.1.ne_zero hc.layout, not_false_eq_true, if_true]
        exact .created b rest _ hcreate h0' hfault hfree
      · rw [halloc]
        simp only [ne_eq, not_true_eq_false, if_false]
        rcases hwhy with ⟨hfull, rfl⟩ | hfault
        · exact .full _ hcreate h0' hfull fun _ => by decide
        · exact .fault e hcreate h0' hfault
    · rw [if_neg hcreate]
      exact .missing (by simpa using hcreate) h0'
  · rw [if_pos h0, ← hwalk]
    exact .found fs.errno (by rwa [hwalk])

theorem getIndirectBlkno_got (hc : Consistent fs) {buf : Buf} {i : Fin PTRS_PER_INDIRECT}
    (hP : P.Inner height) (hP0 : fs.walk P ≠ 0) (hbuf : buf.blkno = fs.walk P)
    (hdirty : buf.dirty = true → create = true) :
    Got fs fault create (P.sub i) (fs.getIndirectBlkno fault buf i create) := by
  have hwalk : fs.walk (P.sub i) = (fs.disk buf.blkno).word i := by
    rw [hbuf]
    exact walk_sub_of_ne i hP0
  have hdata : InData fs.sup buf.blkno := hbuf ▸ hc.inData hP.valid hP0
  rw [getIndirectBlkno]
  by_cases h0 : (fs.disk buf.blkno).word i = 0
  · rw [if_neg (not_not.mpr h0)]
    have h0' := hwalk.trans h0
    by_cases hcreate : create = true
    · rw [if_pos hcreate]
      rcases tryAllocBlock_spec fault hc.layout hc.padded
          (if i.val > 0 then (fs.disk buf.blkno).word (i - 1) else 0) with
        ⟨b, rest, hfault, hfree, halloc⟩ | ⟨e, hwhy, halloc⟩
      · have hb := head_freeBlocks hc.layout hfree
        rw [halloc]
        simp only [ne_eq, hb.1.ne_zero hc.layout, not_false_eq_true, if_true]
        have hlink : (fs.mark b true).store buf.blkno
            (((fs.mark b true).disk buf.blkno).setWord i b) = fs.link (P.sub i) b := by
          rw [link, place, put, hbuf]
        rw [hlink]
        exact .created b rest _ hcreate h0' hfault hfree
      · rw [halloc]
        simp only [ne_eq, not_true_eq_false, if_false]
        obtain ⟨e', he', hsource⟩ := brelse_eq (fs.fail e) buf
        rw [he']
        rcases hwhy with ⟨hfull, rfl⟩ | hfault
        · refine .full e' hcreate h0' hfull fun hio => ?_
          rcases hsource with rfl | rfl
          · exact hio
          · show (0 : ℤ) ≤ E_NOSPC
            decide
        · exact .fault e' hcreate h0' hfault
    · -- a buffer that was only looked at is not dirty, so `ERRNO` stays
      have hclean : buf.dirty = false := by
        by_contra h
        exact hcreate (hdirty (by simpa using h))
      rw [if_neg hcreate, brelse, hclean]
      exact .missing (by simpa using hcreate) h0'
  · obtain ⟨e, he, -⟩ := brelse_eq fs buf
    rw [if_pos h0, ← hwalk, he]
    exact .found e (by rwa [hwalk])

/-! ## The way down -/

/-- The way down to an indirect block. -/
def descend (fs : FileSys) (faults : Faults) (create : Bool) : Path → Option Buf × FileSys
  | .root (inum, k) => fs.getInodeBlk (faults 0) inum k create true
  | .sub P i => andThenBlk (faults (P.depth + 1)) create i (fs.descend faults create P)

/-- The way down to a data block. -/
def fetch (fs : FileSys) (faults : Faults) (create : Bool) : Path → ULong × FileSys
  | .root (inum, k) =>
    match fs.getInodeBlkno (faults 0) inum k create with
    | (blk, _, fs) => (blk, fs)
  | .sub P i => andThenBlkno (faults (P.depth + 1)) create i (fs.descend faults create P)

/-- The number of blocks that are missing on the way to the block at the end of `P`. -/
def missing (fs : FileSys) : Path → ℕ
  | .root r => if fs.walk (.root r) = 0 then 1 else 0
  | .sub P i => fs.missing P + if fs.walk (P.sub i) = 0 then 1 else 0

/-- The same, without that block itself. -/
def missingAbove (fs : FileSys) : Path → ℕ
  | .root _ => 0
  | .sub P _ => fs.missing P

theorem missing_eq : ∀ P : Path,
    fs.missing P = fs.missingAbove P + if fs.walk P = 0 then 1 else 0
  | .root _ => (Nat.zero_add _).symm
  | .sub _ _ => rfl

theorem missing_le_of_passes (h : P.Passes Q) : fs.missing Q ≤ fs.missing P := by
  induction P with
  | root r => rw [Path.passes_root.mp h]
  | sub P i ih =>
    rcases h with rfl | h
    · exact Nat.le_refl _
    · exact Nat.le_trans (ih h) (Nat.le_add_right _ _)

/-- The way down has come to the block that holds the pointer at the end of `P`. -/
structure Ready (fs : FileSys) (faults : Faults) (create : Bool) (P : Path) (fs₁ : FileSys) :
    Prop where
  consistent : Consistent fs₁
  grows : Grows fs fs₁ P
  linkable : Linkable fs₁ P
  walk : fs₁.walk P = fs.walk P
  free : fs₁.freeBlocks = fs.freeBlocks.drop (fs.missingAbove P)
  room : fs.missingAbove P ≤ fs.freeBlocks.length
  alloc : ∀ Q : Path, P.Passes Q → Q ≠ P → fs.walk Q = 0 → (faults Q.depth).alloc = none
  bread : ∀ Q : Path, P.Passes Q → Q ≠ P → (faults Q.depth).bread = none
  keeps : create = false → ∃ e, fs₁ = fs.fail e

/-- It has come to the block at the end of `P`. -/
structure Reached (fs : FileSys) (faults : Faults) (create : Bool) (P : Path) (fs' : FileSys) :
    Prop where
  consistent : Consistent fs'
  grows : Grows fs fs' P
  ne_zero : fs'.walk P ≠ 0
  free : fs'.freeBlocks = fs.freeBlocks.drop (fs.missing P)
  room : fs.missing P ≤ fs.freeBlocks.length
  alloc : ∀ Q : Path, P.Passes Q → fs.walk Q = 0 → (faults Q.depth).alloc = none
  bread : ∀ Q : Path, P.Passes Q → Q ≠ P → (faults Q.depth).bread = none
  keeps : create = false → ∃ e, fs' = fs.fail e

/-- Why the way down stops at `Q`: there is no space for the blocks that are missing so far,
an allocation fails, or a block that is there cannot be read. -/
inductive StuckAt (fs : FileSys) (faults : Faults) (create : Bool) (Q : Path) (fs' : FileSys) :
    Prop where
  | full : create = true → fs'.walk Q = 0 → fs.freeBlocks.length < fs.missing Q →
      fs'.freeBlocks = [] → (0 ≤ fs.ioResult → 0 ≤ fs'.errno) → StuckAt fs faults create Q fs'
  | alloc : create = true → fs'.walk Q = 0 → fs.walk Q = 0 → (faults Q.depth).alloc ≠ none →
      StuckAt fs faults create Q fs'
  | bread : fs.walk Q ≠ 0 → (faults Q.depth).bread ≠ none → StuckAt fs faults create Q fs'

/-- It has stopped short of the block: the block is not there and not to be created, or the
way has stopped at some `Q`. -/
structure Stuck (fs : FileSys) (faults : Faults) (create : Bool) (P : Path) (fs' : FileSys) :
    Prop where
  consistent : Consistent fs'
  grows : Grows fs fs' P
  why : (create = false ∧ fs.walk P = 0 ∧ fs' = fs.fail E_NOEXIST) ∨
    ∃ Q : Path, P.Passes Q ∧
      (∀ S : Path, Q.Passes S → S ≠ Q → (faults S.depth).bread = none) ∧
        StuckAt fs faults create Q fs'

/-- It has attached an indirect block, at the end of `Q`, which it could then not get hold of,
and has not cleared. -/
structure DanglingAt (fs : FileSys) (faults : Faults) (Q : Path) (fs' : FileSys)
    (fs₁ : FileSys) (b : ULong) (rest : List ULong) : Prop where
  inner : Q.Inner height
  ready : Ready fs faults true Q fs₁
  null : fs.walk Q = 0
  alloc : (faults Q.depth).alloc = none
  bread : (faults Q.depth).bread ≠ none
  free : fs₁.freeBlocks = b :: rest
  eq : ∃ e, fs' = (fs₁.link Q b).fail e

def Dangling (fs : FileSys) (faults : Faults) (P : Path) (fs' : FileSys) : Prop :=
  ∃ Q fs₁ b rest, P.Passes Q ∧ DanglingAt fs faults Q fs' fs₁ b rest

/-- How the way down to an indirect block can end. -/
inductive Descent (fs : FileSys) (faults : Faults) (create : Bool) (P : Path) :
    Option Buf × FileSys → Prop where
  | reached (buf : Buf) (fs' : FileSys) : Reached fs faults create P fs' →
      (faults P.depth).bread = none → buf.blkno = fs'.walk P →
      (buf.dirty = true → create = true) → Descent fs faults create P (some buf, fs')
  | stuck (fs' : FileSys) : Stuck fs faults create P fs' → Descent fs faults create P (none, fs')
  | dangling (fs' : FileSys) : Dangling fs faults P fs' → Descent fs faults create P (none, fs')

/-- How the way down to a data block can end. -/
inductive Fetched (fs : FileSys) (faults : Faults) (create : Bool) (P : Path) :
    ULong × FileSys → Prop where
  | reached (fs' : FileSys) : Reached fs faults create P fs' →
      Fetched fs faults create P (fs'.walk P, fs')
  | stuck (fs' : FileSys) : Stuck fs faults create P fs' → Fetched fs faults create P (0, fs')
  | dangling (fs' : FileSys) : Dangling fs faults P fs' → Fetched fs faults create P (0, fs')

theorem ready_root (hc : Consistent fs) {r : ULong × Fin NR_PTRS}
    (hn : r.1.toNat < fs.sup.numInodes.toNat) : Ready fs faults create (.root r) fs where
  consistent := hc
  grows := Grows.fail fs _ fs.errno
  linkable := ⟨Path.valid_root r, hn, by rintro _ _ ⟨⟩⟩
  walk := rfl
  free := rfl
  room := Nat.zero_le _
  alloc Q hQ hne := absurd (Path.passes_root.mp hQ).symm hne
  bread Q hQ hne := absurd (Path.passes_root.mp hQ).symm hne
  keeps _ := ⟨fs.errno, rfl⟩

/-- From a block that has been reached the way goes on. -/
theorem Reached.ready (h : Reached fs faults create P fs') (hP : P.Inner height)
    (hbase : P.base.1.toNat < fs.sup.numInodes.toNat) (hbread : (faults P.depth).bread = none)
    (i : Fin PTRS_PER_INDIRECT) : Ready fs faults create (P.sub i) fs' where
  consistent := h.consistent
  grows := h.grows.mono (.inr (Path.passes_self P))
  linkable := by
    refine ⟨hP, by rwa [h.grows.sup], ?_⟩
    rintro Q j heq
    cases heq
    exact h.ne_zero
  walk := by
    rcases h.grows.walk (P.sub i) hP with heq | ⟨hpass, -⟩
    · exact heq
    · exact absurd rfl (Path.passes_and_ne_iff.mpr ⟨i, hpass⟩).2
  free := h.free
  room := h.room
  alloc Q hQ hne := by
    rcases hQ with rfl | hQ
    · exact absurd rfl hne
    · exact h.alloc Q hQ
  bread Q hQ hne := by
    rcases hQ with rfl | hQ
    · exact absurd rfl hne
    · by_cases hQP : Q = P
      · exact hQP ▸ hbread
      · exact h.bread Q hQ hQP
  keeps := h.keeps

namespace Ready

variable (h : Ready fs faults create P fs₁)

include h

/-- The pointer was there. -/
theorem reached_of_found (h0 : fs₁.walk P ≠ 0) (e : ℤ) :
    Reached fs faults create P (fs₁.fail e) := by
  have h0' : fs.walk P ≠ 0 := by rwa [← h.walk]
  have hmissing : fs.missing P = fs.missingAbove P := by rw [missing_eq, if_neg h0', Nat.add_zero]
  refine ⟨h.consistent.fail e, h.grows.trans (h.consistent.fail e) (Grows.fail fs₁ P e), h0, ?_, ?_,
    ?_, h.bread, ?_⟩
  · rw [hmissing]
    exact h.free
  · rw [hmissing]
    exact h.room
  · intro Q hQ hQ0
    by_cases hne : Q = P
    · exact absurd (hne ▸ hQ0) h0'
    · exact h.alloc Q hQ hne hQ0
  · intro hcreate
    obtain ⟨e', he'⟩ := h.keeps hcreate
    exact ⟨e, by rw [he']; rfl⟩

/-- The pointer was null, and a block has been attached. -/
theorem reached_of_attach (h0 : fs₁.walk P = 0) {rest : List ULong}
    (hfree : fs₁.freeBlocks = b :: rest) (halloc : (faults P.depth).alloc = none)
    (hcreate : create = true) (e : ℤ) :
    Reached fs faults create P ((fs₁.attach P b).fail e) := by
  have h0' : fs.walk P = 0 := by rwa [← h.walk]
  have hL := h.consistent.layout
  have hb := head_freeBlocks hL hfree
  have hmissing : fs.missing P = fs.missingAbove P + 1 := by rw [missing_eq, if_pos h0']
  have hc' := h.consistent.attach h.linkable h0 hb.1 hb.2
  have hdrop : fs.freeBlocks.drop (fs.missingAbove P) = b :: rest := h.free.symm.trans hfree
  refine ⟨hc'.fail e, ?_, ?_, ?_, ?_, ?_, h.bread, ?_⟩
  · exact h.grows.trans (hc'.fail e)
      ((attach_grows h.consistent h.linkable h0 hb.1 hb.2).trans (hc'.fail e) (Grows.fail _ P e))
  · rw [show ((fs₁.attach P b).fail e).walk P = b from
      (attach_links h.consistent h.linkable h0 hb.1 hb.2).walk_self h.linkable.valid]
    exact hb.1.ne_zero hL
  · have hrest : (fs₁.attach P b).freeBlocks = rest := by
      rw [attach_freeBlocks h.consistent h.linkable hb.1]
      rcases allocBlock_head hL h.consistent.padded 0 with ⟨b', rest', hfree', hmark, -⟩ | ⟨hnil, -⟩
      · obtain ⟨rfl, rfl⟩ := List.cons.inj (hfree.symm.trans hfree')
        exact hmark
      · cases hfree.symm.trans hnil
    rw [show ((fs₁.attach P b).fail e).freeBlocks = rest from hrest, hmissing, ← List.drop_drop,
      hdrop]
    rfl
  · have hlen := congrArg List.length hdrop
    rw [List.length_drop, List.length_cons] at hlen
    omega
  · intro Q hQ hQ0
    by_cases hne : Q = P
    · exact hne ▸ halloc
    · exact h.alloc Q hQ hne hQ0
  · intro hfalse
    rw [hfalse] at hcreate
    cases hcreate

theorem stuck_of_full (h0 : fs₁.walk P = 0) (hfree : fs₁.freeBlocks = []) (hcreate : create = true)
    {e : ℤ} (he : 0 ≤ fs₁.ioResult → 0 ≤ e) : Stuck fs faults create P (fs₁.fail e) := by
  refine ⟨h.consistent.fail e, h.grows.trans (h.consistent.fail e) (Grows.fail fs₁ P e),
    .inr ⟨P, Path.passes_self P, h.bread, .full hcreate h0 ?_ hfree fun hio => he (h.grows.ioResult ▸ hio)⟩⟩
  have hlen := congrArg List.length (h.free.symm.trans hfree)
  rw [List.length_drop, List.length_nil] at hlen
  rw [missing_eq, if_pos (by rwa [← h.walk])]
  omega

theorem stuck_of_fault (h0 : fs₁.walk P = 0) (hfault : (faults P.depth).alloc ≠ none)
    (hcreate : create = true) (e : ℤ) : Stuck fs faults create P (fs₁.fail e) :=
  ⟨h.consistent.fail e, h.grows.trans (h.consistent.fail e) (Grows.fail fs₁ P e),
    .inr ⟨P, Path.passes_self P, h.bread, .alloc hcreate h0 (by rwa [← h.walk]) hfault⟩⟩

theorem stuck_of_bread (h0 : fs₁.walk P ≠ 0) (hfault : (faults P.depth).bread ≠ none) (e : ℤ) :
    Stuck fs faults create P (fs₁.fail e) :=
  ⟨h.consistent.fail e, h.grows.trans (h.consistent.fail e) (Grows.fail fs₁ P e),
    .inr ⟨P, Path.passes_self P, h.bread, .bread (by rwa [← h.walk]) hfault⟩⟩

theorem stuck_of_missing (h0 : fs₁.walk P = 0) (hcreate : create = false) :
    Stuck fs faults create P (fs₁.fail E_NOEXIST) := by
  obtain ⟨e, he⟩ := h.keeps hcreate
  exact ⟨h.consistent.fail _, h.grows.trans (h.consistent.fail _) (Grows.fail fs₁ P _),
    .inl ⟨hcreate, by rwa [← h.walk], by rw [he]; rfl⟩⟩

/-- **One level**, to an indirect block. -/
theorem descent (hP : P.Inner height) {r : ULong × Bool × FileSys}
    (hgot : Got fs₁ (faults P.depth) create P r) :
    Descent fs faults create P (breadCleared (faults P.depth) true r) := by
  cases hgot with
  | found e h0 =>
    rcases hfault : (faults P.depth).bread with _ | e'
    · simp only [breadCleared, if_neg h0, hfault, Bool.and_false, Bool.false_eq_true, if_false]
      exact .reached _ _ (h.reached_of_found h0 e) hfault rfl (by simp)
    · simp only [breadCleared, if_neg h0, hfault]
      exact .stuck _ (h.stuck_of_bread h0 (by simp [hfault]) e')
  | created b rest e hcreate h0 halloc hfree =>
    have hb := head_freeBlocks h.consistent.layout hfree
    have hb0 := hb.1.ne_zero h.consistent.layout
    have h0' : fs.walk P = 0 := by rwa [← h.walk]
    rcases hfault : (faults P.depth).bread with _ | e'
    · simp only [breadCleared, if_neg hb0, hfault, Bool.and_true, if_true]
      have hattach : ((fs₁.link P b).fail e).store b Blk.zero = (fs₁.attach P b).fail e := by
        rw [attach, if_pos hP]
        rfl
      rw [hattach]
      have hwalk : b = ((fs₁.attach P b).fail e).walk P :=
        ((attach_links h.consistent h.linkable h0 hb.1 hb.2).walk_self h.linkable.valid).symm
      exact .reached _ _ (h.reached_of_attach h0 hfree halloc hcreate e) hfault hwalk
        fun _ => hcreate
    · simp only [breadCleared, if_neg hb0, hfault]
      refine .dangling _ ⟨P, fs₁, b, rest, Path.passes_self P, ?_⟩
      exact ⟨hP, hcreate ▸ h, h0', halloc, by simp [hfault], hfree, e', rfl⟩
  | full e hcreate h0 hfree he => exact .stuck _ (h.stuck_of_full h0 hfree hcreate he)
  | fault e hcreate h0 hfault => exact .stuck _ (h.stuck_of_fault h0 hfault hcreate e)
  | missing hcreate h0 => exact .stuck _ (h.stuck_of_missing h0 hcreate)

/-- **The last level**, to a data block. -/
theorem fetched (hP : ¬P.Inner height) {r : ULong × Bool × FileSys}
    (hgot : Got fs₁ (faults P.depth) create P r) :
    Fetched fs faults create P (r.1, r.2.2) := by
  cases hgot with
  | found e h0 => exact .reached _ (h.reached_of_found h0 e)
  | created b rest e hcreate h0 halloc hfree =>
    have hb := head_freeBlocks h.consistent.layout hfree
    have hattach : fs₁.link P b = fs₁.attach P b := by
      rw [attach, if_neg hP, link]
    have hwalk : ((fs₁.attach P b).fail e).walk P = b :=
      (attach_links h.consistent h.linkable h0 hb.1 hb.2).walk_self h.linkable.valid
    have hreached := h.reached_of_attach h0 hfree halloc hcreate e
    rw [hattach]
    have hfetched := Fetched.reached _ hreached
    rwa [hwalk] at hfetched
  | full e hcreate h0 hfree he => exact .stuck _ (h.stuck_of_full h0 hfree hcreate he)
  | fault e hcreate h0 hfault => exact .stuck _ (h.stuck_of_fault h0 hfault hcreate e)
  | missing hcreate h0 => exact .stuck _ (h.stuck_of_missing h0 hcreate)

end Ready

/-- A way down that has stopped does not get further. -/
theorem Stuck.sub (h : Stuck fs faults create P fs') (i : Fin PTRS_PER_INDIRECT) :
    Stuck fs faults create (P.sub i) fs' := by
  refine ⟨h.consistent, h.grows.mono (.inr (Path.passes_self P)), ?_⟩
  rcases h.why with ⟨hcreate, h0, heq⟩ | ⟨Q, hQ, hwhy⟩
  · exact .inl ⟨hcreate, walk_sub_of_eq i h0, heq⟩
  · exact .inr ⟨Q, .inr hQ, hwhy⟩

theorem Dangling.sub (h : Dangling fs faults P fs') (i : Fin PTRS_PER_INDIRECT) :
    Dangling fs faults (P.sub i) fs' := by
  obtain ⟨Q, fs₁, b, rest, hQ, hat⟩ := h
  exact ⟨Q, fs₁, b, rest, .inr hQ, hat⟩

/-- **The way down to an indirect block.** -/
theorem descend_spec (faults : Faults) (create : Bool) (hc : Consistent fs) : ∀ P : Path, P.Inner height →
    P.base.1.toNat < fs.sup.numInodes.toNat → Descent fs faults create P (fs.descend faults create P)
  | .root (_, _), hP, hn => (ready_root hc hn).descent hP (getInodeBlkno_got hc hn)
  | .sub P i, hP, hn => by
    have hP' : P.Inner height := Path.Inner.valid hP
    have hspec := descend_spec faults create hc P hP' hn
    rw [descend]
    generalize fs.descend faults create P = r at hspec
    cases hspec with
    | reached buf fs' h hbread hbuf hdirty =>
      exact (h.ready hP' hn hbread i).descent hP
        (getIndirectBlkno_got h.consistent hP' h.ne_zero hbuf hdirty)
    | stuck fs' h => exact .stuck _ (h.sub i)
    | dangling fs' h => exact .dangling _ (h.sub i)

/-- **The way down to a data block.** -/
theorem fetch_spec (hc : Consistent fs) (hP : P.Valid height) (hleaf : ¬P.Inner height)
    (hn : P.base.1.toNat < fs.sup.numInodes.toNat) :
    Fetched fs faults create P (fs.fetch faults create P) := by
  cases P with
  | root r => exact (ready_root hc hn).fetched hleaf (getInodeBlkno_got hc hn)
  | sub P i =>
    have hspec := descend_spec faults create hc P hP hn
    rw [fetch]
    generalize fs.descend faults create P = r at hspec
    cases hspec with
    | reached buf fs' h hbread hbuf hdirty =>
      exact (h.ready hP hn hbread i).fetched hleaf
        (getIndirectBlkno_got h.consistent hP h.ne_zero hbuf hdirty)
    | stuck fs' h => exact .stuck _ (h.sub i)
    | dangling fs' h => exact .dangling _ (h.sub i)

/-! ## The blocks of a file -/

/-- The number of blocks a file can have. -/
def MAX_FILE_BLOCKS : ℕ :=
  SINGLE_INDIRECT + PTRS_PER_INDIRECT + PTRS_PER_INDIRECT * PTRS_PER_INDIRECT
    + PTRS_PER_INDIRECT * PTRS_PER_INDIRECT * PTRS_PER_INDIRECT

instance : NeZero PTRS_PER_INDIRECT := ⟨by decide⟩

/-- The way to block `n` of a file. -/
def dataPath (inum : ULong) (n : ℕ) : Path :=
  if h : n < SINGLE_INDIRECT then .root (inum, ⟨n, Nat.lt_trans h (by decide)⟩)
  else
  let n := n - SINGLE_INDIRECT
  if n < PTRS_PER_INDIRECT then (Path.root (inum, 9)).sub (Fin.ofNat _ n)
  else
  let n := n - PTRS_PER_INDIRECT
  if n < PTRS_PER_INDIRECT * PTRS_PER_INDIRECT then
    ((Path.root (inum, 10)).sub (Fin.ofNat _ (n / PTRS_PER_INDIRECT))).sub
      (Fin.ofNat _ (n % PTRS_PER_INDIRECT))
  else
  let n := n - PTRS_PER_INDIRECT * PTRS_PER_INDIRECT
  (((Path.root (inum, 11)).sub (Fin.ofNat _ (n / (PTRS_PER_INDIRECT * PTRS_PER_INDIRECT)))).sub
    (Fin.ofNat _ (n / PTRS_PER_INDIRECT % PTRS_PER_INDIRECT))).sub
      (Fin.ofNat _ (n % PTRS_PER_INDIRECT))

theorem val_ofNat_ptr {n : ℕ} (h : n < PTRS_PER_INDIRECT) :
    (Fin.ofNat PTRS_PER_INDIRECT n).val = n := Nat.mod_eq_of_lt h

/-- `get_data_blkno` goes down the way to the block. -/
theorem getDataBlkno_eq {blk : ULong} (h : blk.toNat < MAX_FILE_BLOCKS) :
    fs.getDataBlkno faults inum blk create = fs.fetch faults create (dataPath inum blk.toNat) := by
  unfold MAX_FILE_BLOCKS at h
  have hmod : ∀ m : ℕ, m % PTRS_PER_INDIRECT < PTRS_PER_INDIRECT := fun m => Nat.mod_lt m (by decide)
  rw [getDataBlkno, dataPath]
  by_cases h1 : blk.toNat < SINGLE_INDIRECT
  · rw [dif_pos h1, dif_pos h1]
    rfl
  · rw [dif_neg h1, dif_neg h1]
    by_cases h2 : blk.toNat - SINGLE_INDIRECT < PTRS_PER_INDIRECT
    · simp only [if_pos h2, fetch, descend, val_ofNat_ptr h2, Path.depth]
    · by_cases h3 : blk.toNat - SINGLE_INDIRECT - PTRS_PER_INDIRECT
          < PTRS_PER_INDIRECT * PTRS_PER_INDIRECT
      · have hdiv := Nat.div_lt_of_lt_mul h3
        simp only [if_neg h2, if_pos h3, fetch, descend, val_ofNat_ptr hdiv,
          val_ofNat_ptr (hmod _), Path.depth]
      · have h4 : blk.toNat - SINGLE_INDIRECT - PTRS_PER_INDIRECT
            - PTRS_PER_INDIRECT * PTRS_PER_INDIRECT
            < PTRS_PER_INDIRECT * PTRS_PER_INDIRECT * PTRS_PER_INDIRECT := by omega
        have hdiv := Nat.div_lt_of_lt_mul h4
        refine (if_neg h2).trans ((if_neg h3).trans ((if_pos h4).trans ?_))
        simp only [if_neg h2, if_neg h3, fetch, descend, val_ofNat_ptr hdiv,
          val_ofNat_ptr (hmod _), Path.depth]

@[simp] theorem base_dataPath (inum : ULong) (n : ℕ) : (dataPath inum n).base.1 = inum := by
  rw [dataPath]
  split
  · rfl
  · simp only
    split
    · rfl
    · split <;> rfl

/-- The way ends at a data block. -/
theorem dataPath_leaf (inum : ULong) (n : ℕ) :
    (dataPath inum n).Valid height ∧ ¬(dataPath inum n).Inner height := by
  rw [dataPath]
  split
  · rename_i h
    refine ⟨Path.valid_root _, ?_⟩
    show ¬0 < n - 8
    simp only [SINGLE_INDIRECT] at h
    omega
  · simp only
    split
    · exact ⟨show (1 : ℕ) ≤ 1 by decide, show ¬(1 : ℕ) < 1 by decide⟩
    · split
      · exact ⟨show (2 : ℕ) ≤ 2 by decide, show ¬(2 : ℕ) < 2 by decide⟩
      · exact ⟨show (3 : ℕ) ≤ 3 by decide, show ¬(3 : ℕ) < 3 by decide⟩

/-- **`get_data_blkno`** of a block the file can have. -/
theorem getDataBlkno_spec (faults : Faults) (create : Bool) (hc : Consistent fs)
    (hn : inum.toNat < fs.sup.numInodes.toNat) {blk : ULong} (h : blk.toNat < MAX_FILE_BLOCKS) :
    Fetched fs faults create (dataPath inum blk.toNat) (fs.getDataBlkno faults inum blk create) := by
  rw [getDataBlkno_eq h]
  obtain ⟨hvalid, hleaf⟩ := dataPath_leaf inum blk.toNat
  exact fetch_spec hc hvalid hleaf (by rwa [base_dataPath])

theorem not_lt_parts {n s p p₂ p₃ : ℕ} (h : ¬n < s + p + p₂ + p₃) :
    ¬n < s ∧ ¬n - s < p ∧ ¬n - s - p < p₂ ∧ ¬n - s - p - p₂ < p₃ := by
  omega

theorem getDataBlkno_of_not_lt {blk : ULong} (h : ¬blk.toNat < MAX_FILE_BLOCKS) :
    fs.getDataBlkno faults inum blk create = (0, fs.fail E_BADARG) := by
  obtain ⟨h1, h2, h3, h4⟩ := not_lt_parts h
  rw [getDataBlkno, dif_neg h1]
  exact (if_neg h2).trans ((if_neg h3).trans (if_neg h4))

/-- Without faults no block is left as it was. -/
theorem not_dangling (h : Dangling fs noFaults P fs') : False := by
  obtain ⟨Q, fs₁, b, rest, -, hat⟩ := h
  exact hat.bread rfl

/-- **`get_data_blkno`** keeps a file system consistent if there are no faults. -/
theorem getDataBlkno_consistent (hc : Consistent fs) (hn : inum.toNat < fs.sup.numInodes.toNat)
    (blk : ULong) (create : Bool) :
    Consistent (fs.getDataBlkno noFaults inum blk create).2 ∧
      (fs.getDataBlkno noFaults inum blk create).2.sup = fs.sup := by
  by_cases h : blk.toNat < MAX_FILE_BLOCKS
  · have hspec := getDataBlkno_spec noFaults create hc hn h
    generalize fs.getDataBlkno noFaults inum blk create = r at hspec
    cases hspec with
    | reached fs' hr => exact ⟨hr.consistent, hr.grows.sup⟩
    | stuck fs' hs => exact ⟨hs.consistent, hs.grows.sup⟩
    | dangling fs' hd => exact (not_dangling hd).elim
  · rw [getDataBlkno_of_not_lt h]
    exact ⟨hc.fail _, rfl⟩

/-- It only attaches blocks, on the way to the one it is asked for. -/
theorem getDataBlkno_grows (hc : Consistent fs) (hn : inum.toNat < fs.sup.numInodes.toNat)
    (blk : ULong) (create : Bool) :
    Grows fs (fs.getDataBlkno noFaults inum blk create).2 (dataPath inum blk.toNat) := by
  by_cases h : blk.toNat < MAX_FILE_BLOCKS
  · have hspec := getDataBlkno_spec noFaults create hc hn h
    generalize fs.getDataBlkno noFaults inum blk create = r at hspec
    cases hspec with
    | reached fs' hr => exact hr.grows
    | stuck fs' hs => exact hs.grows
    | dangling fs' hd => exact (not_dangling hd).elim
  · rw [getDataBlkno_of_not_lt h]
    exact Grows.fail fs _ _

end

end Vmm386.Fs.FileSys
