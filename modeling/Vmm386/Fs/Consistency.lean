import Vmm386.Fs.BlockTree

/-!
# Consistent file systems

Every block an inode leads to, indirect blocks included, is a block of the data area, has its
bit set in the data bitmap, and is reached in one way only. Changing a single block number
keeps this if the old block had nothing below it and the new one is nobody's.
-/

namespace Vmm386.Fs.FileSys

open Forest

/-! ## The areas of a device -/

/-- A block of the data area. -/
def InData (sup : SuperData) (blk : ULong) : Prop :=
  sup.data.toNat ≤ blk.toNat ∧ blk.toNat < sup.data.toNat + sup.dataSize.toNat

/-- The bitmaps and the data area follow each other. The number of a bit is an `int`. -/
structure Layout (sup : SuperData) : Prop where
  inodeBitmap : sup.inodeBitmap.toNat + bmapBlocks sup.numInodes.toNat ≤ sup.dataBitmap.toNat
  dataBitmap : sup.dataBitmap.toNat + bmapBlocks sup.dataSize.toNat ≤ sup.data.toNat
  data : sup.data.toNat + sup.dataSize.toNat ≤ 2 ^ 32
  numInodes : sup.numInodes.toNat < 2 ^ 31
  dataSize : sup.dataSize.toNat < 2 ^ 31

section

variable {fs fs' : FileSys} {a b : ULong}

theorem toNat_sub_data {sup : SuperData} (hb : InData sup b) :
    (b - sup.data).toNat = b.toNat - sup.data.toNat := by
  have hb1 := hb.1
  have := b.isLt
  rw [BitVec.toNat_sub]
  omega

/-- No block of the data area is block 0. -/
theorem InData.ne_zero {sup : SuperData} (hL : Layout sup) (hb : InData sup b) : b ≠ 0 := by
  intro h0
  have hblocks := hL.dataBitmap
  obtain ⟨h1, h2⟩ := hb
  simp only [h0, bmapBlocks, BITS_PER_BLOCK, FS_BLKSIZ, show BitVec.toNat (0 : ULong) = 0 from rfl]
    at h1 h2 hblocks
  omega

/-- The block of the data bitmap that has the bit of a data block. -/
theorem dataBitmap_lt {sup : SuperData} (hL : Layout sup) (hb : InData sup b) :
    (sup.dataBitmap + BitVec.ofNat 32 ((b - sup.data).toNat / BITS_PER_BLOCK)).toNat
      < sup.data.toNat := by
  have hblocks := hL.dataBitmap
  have hdata := hL.data
  have hb1 := hb.1
  have hb2 := hb.2
  have hlt : (b.toNat - sup.data.toNat) / BITS_PER_BLOCK < bmapBlocks sup.dataSize.toNat :=
    div_lt_bmapBlocks (by omega)
  rw [toNat_sub_data hb, BitVec.toNat_add, BitVec.toNat_ofNat]
  generalize (b.toNat - sup.data.toNat) / BITS_PER_BLOCK = q at *
  omega

/-! ## The bit of a data block -/

/-- The block has its bit set in the data bitmap. -/
def inUse (fs : FileSys) (blk : ULong) : Bool :=
  fs.bit fs.sup.dataBitmap (blk - fs.sup.data).toNat

/-- Change the bit of a data block. -/
def mark (fs : FileSys) (blk : ULong) (v : Bool) : FileSys :=
  (fs.putBit fs.sup.dataBitmap (blk - fs.sup.data).toNat v).flush

@[simp] theorem mark_sup (v : Bool) : (fs.mark b v).sup = fs.sup := rfl
@[simp] theorem mark_inode (v : Bool) : (fs.mark b v).inode = fs.inode := rfl

/-- No data block changes. -/
theorem mark_disk (hL : Layout fs.sup) (hb : InData fs.sup b) (ha : InData fs.sup a) (v : Bool) :
    (fs.mark b v).disk a = fs.disk a := by
  apply fs.putBit_disk_of_ne v
  rintro rfl
  have hlt := dataBitmap_lt hL hb
  have hge := ha.1
  omega

theorem inUse_mark (hb : InData fs.sup b) (ha : InData fs.sup a) (v : Bool) :
    (fs.mark b v).inUse a = if a = b then v else fs.inUse a := by
  have hiff : (a - fs.sup.data).toNat = (b - fs.sup.data).toNat ↔ a = b := by
    rw [toNat_sub_data ha, toNat_sub_data hb, ← BitVec.toNat_inj]
    have h1 := ha.1
    have h2 := hb.1
    omega
  have hbit := fs.bit_putBit fs.sup.dataBitmap v (b - fs.sup.data).isLt (a - fs.sup.data).isLt
  rw [if_congr hiff rfl rfl] at hbit
  exact hbit

/-- What is below the data area has the bitmap. -/
theorem inUse_congr (hL : Layout fs.sup) (hsup : fs'.sup = fs.sup)
    (hdisk : ∀ a, a.toNat < fs.sup.data.toNat → fs'.disk a = fs.disk a) (hb : InData fs.sup b) :
    fs'.inUse b = fs.inUse b := by
  simp only [inUse, bit, hsup]
  rw [hdisk _ (dataBitmap_lt hL hb)]

/-- The padding of the data bitmap is in place. -/
def DataPadded (fs : FileSys) : Prop := fs.Padded fs.sup.dataBitmap fs.sup.dataSize.toNat

/-- The bits of the data bitmap are below the data area. -/
theorem dataBit_congr (hL : Layout fs.sup)
    (hdisk : ∀ a, a.toNat < fs.sup.data.toNat → fs'.disk a = fs.disk a) {i : ℕ}
    (hi : i < BITS_PER_BLOCK * bmapBlocks fs.sup.dataSize.toNat) :
    fs'.bit fs.sup.dataBitmap i = fs.bit fs.sup.dataBitmap i := by
  rw [bit, bit, hdisk]
  have hblocks := hL.dataBitmap
  have hdata := hL.data
  rw [BitVec.toNat_add, BitVec.toNat_ofNat]
  simp only [bmapBlocks, BITS_PER_BLOCK, FS_BLKSIZ] at *
  omega

theorem DataPadded.congr (h : fs.DataPadded) (hL : Layout fs.sup) (hsup : fs'.sup = fs.sup)
    (hdisk : ∀ a, a.toNat < fs.sup.data.toNat → fs'.disk a = fs.disk a) : fs'.DataPadded := by
  intro i hi hlt
  rw [hsup] at hi hlt ⊢
  rw [← h i hi hlt, dataBit_congr hL hdisk hlt]

theorem DataPadded.mark (h : fs.DataPadded) (hL : Layout fs.sup) (hb : InData fs.sup b) (v : Bool) :
    (fs.mark b v).DataPadded := by
  intro i hi hlt
  have hdata := hL.data
  have hb1 := hb.1
  have hb2 := hb.2
  have hne : i ≠ (b - fs.sup.data).toNat := by
    rw [toNat_sub_data hb]
    rw [mark_sup] at hi
    omega
  have hi32 : i < 2 ^ 32 := by
    rw [mark_sup] at hlt
    simp only [bmapBlocks, BITS_PER_BLOCK, FS_BLKSIZ] at hlt
    omega
  refine (fs.bit_putBit _ v (BitVec.isLt _) hi32).trans ?_
  rw [if_neg hne]
  exact h i hi hlt

/-- **`alloc_block`** takes a block that is not in use, or finds all of them in use. -/
theorem allocBlock_spec (hL : Layout fs.sup) (hpad : fs.DataPadded) (locality : ULong) :
    (∃ b, InData fs.sup b ∧ fs.inUse b = false ∧ fs.allocBlock locality = (b, fs.mark b true)) ∨
    ((∀ b, InData fs.sup b → fs.inUse b = true) ∧ fs.allocBlock locality = (0, fs.fail E_NOSPC)) := by
  rcases bmapAlloc_spec hpad with ⟨n, hn, hclear, -, halloc⟩ | ⟨hset, halloc⟩
  · left
    have hdata := hL.data
    have hsub : (fs.sup.data + BitVec.ofNat 32 n - fs.sup.data).toNat = n := by
      rw [BitVec.add_comm, BitVec.add_sub_cancel, BitVec.toNat_ofNat]
      omega
    refine ⟨fs.sup.data + BitVec.ofNat 32 n, ?_, ?_, ?_⟩
    · constructor <;> rw [BitVec.toNat_add, BitVec.toNat_ofNat] <;> omega
    · rw [inUse, hsub, hclear]
    · rw [allocBlock, halloc, mark, hsub]
      rfl
  · right
    refine ⟨fun b hb => ?_, by rw [allocBlock, halloc]⟩
    have h1 := hb.1
    have h2 := hb.2
    rw [inUse, toNat_sub_data hb]
    exact hset _ (by omega)

/-- **`free_block`** of a block in use. -/
theorem freeBlock_spec (h : fs.inUse b = true) : fs.freeBlock b = fs.mark b false :=
  bmapFree_spec h

end

/-! ## Consistency -/

/-- The block pointers of the inodes are in order. -/
structure Consistent (fs : FileSys) : Prop where
  layout : Layout fs.sup
  padded : fs.DataPadded
  exclusive : Exclusive height fs.forest
  owned : ∀ P : Path, P.Valid height → fs.walk P ≠ 0 →
    InData fs.sup (fs.walk P) ∧ fs.inUse (fs.walk P) = true

namespace Consistent

variable {fs fs' : FileSys} {P : Path} {b : ULong}

theorem inData (hc : Consistent fs) (hP : P.Valid height) (h : fs.walk P ≠ 0) :
    InData fs.sup (fs.walk P) := (hc.owned P hP h).1

theorem inUse (hc : Consistent fs) (hP : P.Valid height) (h : fs.walk P ≠ 0) :
    fs.inUse (fs.walk P) = true := (hc.owned P hP h).2

/-- Two ways to one block are the same. -/
theorem eq_of_walk_eq (hc : Consistent fs) {Q : Path} (hP : P.Valid height) (hQ : Q.Valid height)
    (h : fs.walk P ≠ 0) (heq : fs.walk P = fs.walk Q) : P = Q :=
  hc.exclusive hP hQ h heq

/-- Nothing leads to a block that is not in use. -/
theorem unreached (hc : Consistent fs) (hb0 : b ≠ 0) (hb : fs.inUse b = false) :
    Unreached height fs.forest b := by
  intro P hP hwalk
  rw [← hwalk] at hb0 hb
  exact absurd (hc.inUse hP hb0) (by rw [walk, hb]; decide)

/-- `ERRNO` does not matter. -/
theorem fail (hc : Consistent fs) (e : ℤ) : Consistent (fs.fail e) :=
  ⟨hc.layout, hc.padded, hc.exclusive, hc.owned⟩

/-- **Changing one block number** keeps a file system consistent, if the bitmap follows. -/
theorem of_links (hc : Consistent fs) (hsup : fs'.sup = fs.sup) (hpad : fs'.DataPadded)
    (hlinks : Links height fs.forest fs'.forest P b)
    (hnew : b ≠ 0 → InData fs.sup b ∧ fs'.inUse b = true ∧ Unreached height fs.forest b)
    (hold : ∀ Q : Path, Q.Valid height → Q ≠ P → fs.walk Q ≠ 0 → fs'.inUse (fs.walk Q) = true) :
    Consistent fs' where
  layout := hsup ▸ hc.layout
  padded := hpad
  exclusive := hlinks.exclusive hc.exclusive fun hb => (hnew hb).2.2
  owned := by
    rw [hsup]
    exact hlinks.forall_walk (p := fun a => InData fs.sup a ∧ fs'.inUse a = true)
      (fun Q hQ hne h0 => ⟨hc.inData hQ h0, hold Q hQ hne h0⟩)
      (fun hb => ⟨(hnew hb).1, (hnew hb).2.1⟩)

end Consistent

/-! ## Changing one block number -/

section

variable {fs fs' : FileSys} {P : Path} {b : ULong}

@[simp] theorem put_sup (p : Place) : (fs.put b p).sup = fs.sup := by cases p <;> rfl

theorem put_inode (p : Place) (n : ULong) (k : Fin NR_PTRS) :
    ((fs.put b p).inode n).data k = if p = .inode n k then b else (fs.inode n).data k := by
  cases p with
  | word a i => simp [put]
  | inode m j =>
    by_cases hn : n = m
    · subst hn
      simp [put, Inode.setPtr, Function.update_apply, eq_comm]
    · rw [put, fs.setInode_inode_of_ne _ hn, if_neg (by simp [Ne.symm hn])]

theorem put_inode_congr {p : Place} (h : fs'.inode = fs.inode) :
    (fs'.put b p).inode = (fs.put b p).inode := by
  cases p with
  | inode n k => simp only [put, setInode, h]
  | word a i => exact h

theorem put_disk_word (p : Place) (a : ULong) (i : Fin PTRS_PER_INDIRECT) :
    ((fs.put b p).disk a).word i = if p = .word a i then b else (fs.disk a).word i := by
  cases p with
  | inode n k => simp [put]
  | word c j =>
    by_cases ha : a = c
    · subst ha
      rw [put, store_disk_self, Blk.word_setWord i.isLt]
      simp [Fin.ext_iff, eq_comm]
    · rw [put, fs.store_disk_of_ne _ ha, if_neg (by simp [Ne.symm ha])]

theorem put_disk_of_ne {p : Place} {a : ULong} (h : ∀ i, p ≠ .word a i) :
    (fs.put b p).disk a = fs.disk a := by
  cases p with
  | inode n k => rfl
  | word c i =>
    apply fs.store_disk_of_ne
    rintro rfl
    exact h i rfl

theorem place_eq_inode {n : ULong} {k : Fin NR_PTRS} :
    fs.place P = .inode n k ↔ P = .root (n, k) := by
  cases P <;> simp [place, Prod.ext_iff]

/-- Each place of an indirect block is at the end of one path. -/
theorem place_eq_word (hc : Consistent fs) {Q : Path} {i : Fin PTRS_PER_INDIRECT}
    (hP : P.Valid height) (hQ : Q.Inner height) (hQ0 : fs.walk Q ≠ 0) :
    fs.place P = .word (fs.walk Q) i ↔ P = Q.sub i := by
  constructor
  · intro h
    cases P with
    | root r => cases h
    | sub P' j =>
      obtain ⟨hwalk, rfl⟩ : fs.walk P' = fs.walk Q ∧ j = i := Place.word.inj h
      rw [hc.eq_of_walk_eq hQ.valid (Path.Inner.valid hP) hQ0 hwalk.symm]
  · rintro rfl
    rfl

/-- The pointer at the end of `P` may be changed: the path is one of an inode of the device,
and there is a block that holds the pointer. -/
structure Linkable (fs : FileSys) (P : Path) : Prop where
  valid : P.Valid height
  base : P.base.1.toNat < fs.sup.numInodes.toNat
  parent : ∀ ⦃Q i⦄, P = Path.sub Q i → fs.walk Q ≠ 0

/-- A path that leads to a block has its pointer somewhere. -/
theorem linkable_of_ne_zero (hP : P.Valid height) (h : fs.walk P ≠ 0) : Linkable fs P where
  valid := hP
  base := by
    by_contra hge
    exact h (walk_eq_zero_of_passes (Path.passes_base P) (if_neg hge))
  parent := by
    rintro Q i rfl
    exact walk_ne_zero_of_sub h

/-- A state that differs from `fs` in the place at the end of `P`, and in blocks that are not
reached from the inodes. -/
theorem links_put (hc : Consistent fs) (hP : Linkable fs P)
    (hbelow : P.Inner height → ∀ i, fs.walk (P.sub i) = 0) (hsup : fs'.sup = fs.sup)
    (hinode : ∀ n k, (fs'.inode n).data k =
      if fs.place P = .inode n k then b else (fs.inode n).data k)
    (hdisk : ∀ a i, InData fs.sup a → a ≠ b → (fs'.disk a).word i.val =
      if fs.place P = .word a i then b else (fs.disk a).word i)
    (hb : b ≠ 0 → fs.inUse b = false)
    (hfresh : P.Inner height → b ≠ 0 → ∀ i : Fin PTRS_PER_INDIRECT, (fs'.disk b).word i = 0) :
    Links height fs.forest fs'.forest P b where
  root := by
    rintro ⟨n, k⟩
    simp only [forest, hsup, hinode, place_eq_inode]
    by_cases hr : P = .root (n, k)
    · have hn : n.toNat < fs.sup.numInodes.toNat := by
        have := hP.base
        rwa [hr] at this
      rw [if_pos hn, if_pos hr, if_pos hr.symm]
    · rw [if_neg hr, if_neg (Ne.symm hr)]
  child := by
    intro Q hQ hQ0 i
    have hne : fs.walk Q ≠ b := by
      intro heq
      have hfree := hb (heq ▸ hQ0)
      rw [← heq, hc.inUse hQ.valid hQ0] at hfree
      cases hfree
    refine (hdisk _ i (hc.inData hQ.valid hQ0) hne).trans ?_
    rw [if_congr (place_eq_word hc hP.valid hQ hQ0) rfl rfl, if_congr eq_comm rfl rfl]
    rfl
  parent := hP.parent
  below := hbelow
  fresh := hfresh

/-- The place of a path is in no block a leaf leads to. -/
theorem place_ne_leaf (hc : Consistent fs) (hP : Linkable fs P) {Q : Path} (hQ : Q.Valid height)
    (hleaf : ¬Q.Inner height) (i : Fin PTRS_PER_INDIRECT) :
    fs.place P ≠ .word (fs.walk Q) i := by
  intro h
  cases P with
  | root r => cases h
  | sub P' j =>
    have hwalk : fs.walk P' = fs.walk Q := (Place.word.inj h).1
    have heq := hc.eq_of_walk_eq (Path.Inner.valid hP.valid) hQ (hP.parent rfl) hwalk
    exact hleaf (heq ▸ hP.valid)

/-- The place of a path is in a block that is in use. -/
theorem place_ne_idle (hc : Consistent fs) (hP : Linkable fs P) {a : ULong}
    (ha : fs.inUse a = false) (i : Fin PTRS_PER_INDIRECT) : fs.place P ≠ .word a i := by
  intro h
  cases P with
  | root r => cases h
  | sub P' j =>
    obtain ⟨rfl, -⟩ := Place.word.inj h
    rw [hc.inUse (Path.Inner.valid hP.valid) (hP.parent rfl)] at ha
    cases ha

/-! ## Attaching a block -/

/-- Allocate a block and enter it at the end of `P`; an indirect block is cleared. -/
def attach (fs : FileSys) (P : Path) (b : ULong) : FileSys :=
  let fs' := (fs.mark b true).put b (fs.place P)
  if P.Inner height then fs'.store b Blk.zero else fs'

@[simp] theorem attach_sup : (fs.attach P b).sup = fs.sup := by
  rw [attach]
  split <;> simp

theorem attach_ioResult : (fs.attach P b).ioResult = fs.ioResult := by
  rw [attach]
  cases fs.place P <;> split <;> rfl

theorem attach_inode : (fs.attach P b).inode = (fs.put b (fs.place P)).inode := by
  rw [attach]
  split
  · rw [store_inode, put_inode_congr (mark_inode true)]
  · rw [put_inode_congr (mark_inode true)]

/-- Apart from the new block, only the bitmap and the place of the pointer change. -/
theorem attach_disk {a : ULong} (h : a ≠ b) :
    (fs.attach P b).disk a = ((fs.mark b true).put b (fs.place P)).disk a := by
  rw [attach]
  split
  · exact store_disk_of_ne _ _ h
  · rfl

theorem attach_disk_word (hL : Layout fs.sup) (hb : InData fs.sup b) {a : ULong}
    (ha : InData fs.sup a) (h : a ≠ b) (i : Fin PTRS_PER_INDIRECT) :
    ((fs.attach P b).disk a).word i =
      if fs.place P = .word a i then b else (fs.disk a).word i := by
  rw [attach_disk h, put_disk_word, mark_disk hL hb ha]

/-- A leaf keeps its contents. -/
theorem attach_disk_leaf (hc : Consistent fs) (hP : Linkable fs P) (hb : InData fs.sup b)
    (hfree : fs.inUse b = false) {Q : Path} (hQ : Q.Valid height) (hleaf : ¬Q.Inner height)
    (hQ0 : fs.walk Q ≠ 0) : (fs.attach P b).disk (fs.walk Q) = fs.disk (fs.walk Q) := by
  have hne : fs.walk Q ≠ b := fun heq => hc.unreached (hb.ne_zero hc.layout) hfree hQ heq
  rw [attach_disk hne, put_disk_of_ne (place_ne_leaf hc hP hQ hleaf),
    mark_disk hc.layout hb (hc.inData hQ hQ0)]

theorem attach_links (hc : Consistent fs) (hP : Linkable fs P) (h0 : fs.walk P = 0)
    (hb : InData fs.sup b) (hfree : fs.inUse b = false) :
    Links height fs.forest (fs.attach P b).forest P b := by
  apply links_put hc hP
  · exact fun _ i => walk_sub_of_eq i h0
  · exact attach_sup
  · intro n k
    rw [attach_inode, put_inode]
  · exact fun a i ha hne => attach_disk_word hc.layout hb ha hne i
  · exact fun _ => hfree
  · intro hin _ i
    rw [attach, if_pos hin, store_disk_self, Blk.word_zero]

/-- The place of a path is not below the data area. -/
theorem place_in_data (hc : Consistent fs) (hP : Linkable fs P) {c : ULong}
    {i : Fin PTRS_PER_INDIRECT} (h : fs.place P = .word c i) : InData fs.sup c := by
  cases P with
  | root r => cases h
  | sub P' j =>
    obtain ⟨rfl, -⟩ := Place.word.inj h
    exact hc.inData (Path.Inner.valid hP.valid) (hP.parent rfl)

theorem put_disk_bitmap (hc : Consistent fs) (hP : Linkable fs P) {a : ULong}
    (ha : a.toNat < fs.sup.data.toNat) (fs' : FileSys) :
    (fs'.put b (fs.place P)).disk a = fs'.disk a := by
  apply put_disk_of_ne
  intro i h
  have hdata := (place_in_data hc hP h).1
  omega

/-- The bitmap changes by the one bit. -/
theorem attach_disk_bitmap (hc : Consistent fs) (hP : Linkable fs P) (hb : InData fs.sup b)
    {a : ULong} (ha : a.toNat < fs.sup.data.toNat) :
    (fs.attach P b).disk a = (fs.mark b true).disk a := by
  have hne : a ≠ b := by
    rintro rfl
    have hdata := hb.1
    omega
  rw [attach_disk hne, put_disk_bitmap hc hP ha]

theorem attach_inUse (hc : Consistent fs) (hP : Linkable fs P) (hb : InData fs.sup b) {a : ULong}
    (ha : InData fs.sup a) : (fs.attach P b).inUse a = if a = b then true else fs.inUse a := by
  rw [← inUse_mark hb ha true]
  exact inUse_congr (show Layout (fs.mark b true).sup from hc.layout) attach_sup
    (fun _ h => attach_disk_bitmap hc hP hb h) ha

/-- **Attaching** a free block keeps the file system consistent. -/
theorem Consistent.attach (hc : Consistent fs) (hP : Linkable fs P) (h0 : fs.walk P = 0)
    (hb : InData fs.sup b) (hfree : fs.inUse b = false) : Consistent (fs.attach P b) := by
  apply hc.of_links attach_sup _ (attach_links hc hP h0 hb hfree)
  · intro hb0
    exact ⟨hb, by rw [attach_inUse hc hP hb hb, if_pos rfl], hc.unreached hb0 hfree⟩
  · intro Q hQ _ hQ0
    have hin := hc.inData hQ hQ0
    rw [attach_inUse hc hP hb hin, hc.inUse hQ hQ0]
    split <;> rfl
  · exact (hc.padded.mark hc.layout hb true).congr hc.layout attach_sup
      fun _ h => attach_disk_bitmap hc hP hb h

/-! ## Detaching a block -/

/-- Zero the pointer at the end of `P`; a data block is freed, an indirect block is not. -/
def detach (fs : FileSys) (P : Path) : FileSys :=
  (if P.Inner height then fs else fs.mark (fs.walk P) false).put 0 (fs.place P)

@[simp] theorem detach_sup : (fs.detach P).sup = fs.sup := by
  rw [detach]
  split <;> simp

theorem detach_ioResult : (fs.detach P).ioResult = fs.ioResult := by
  rw [detach]
  cases fs.place P <;> split <;> rfl

theorem detach_inode : (fs.detach P).inode = (fs.put 0 (fs.place P)).inode := by
  rw [detach]
  split
  · rfl
  · rw [put_inode_congr (mark_inode false)]

theorem detach_disk (hc : Consistent fs) (hP : P.Valid height) (hP0 : fs.walk P ≠ 0) {a : ULong}
    (ha : InData fs.sup a) : (fs.detach P).disk a = (fs.put 0 (fs.place P)).disk a := by
  have hmark : ∀ fs' : FileSys, fs'.disk a = fs.disk a →
      (fs'.put 0 (fs.place P)).disk a = (fs.put 0 (fs.place P)).disk a := by
    intro fs' h
    rcases fs.place P with _ | ⟨c, i⟩
    · exact h
    · by_cases hac : a = c
      · subst hac
        rw [put, put, store_disk_self, store_disk_self, h]
      · rw [put, put, store_disk_of_ne _ _ hac, store_disk_of_ne _ _ hac, h]
  rw [detach]
  split
  · rfl
  · exact hmark _ (mark_disk hc.layout (hc.inData hP hP0) ha false)

theorem detach_disk_leaf (hc : Consistent fs) (hP : P.Valid height) (hP0 : fs.walk P ≠ 0)
    {Q : Path} (hQ : Q.Valid height) (hleaf : ¬Q.Inner height) (hQ0 : fs.walk Q ≠ 0) :
    (fs.detach P).disk (fs.walk Q) = fs.disk (fs.walk Q) := by
  rw [detach_disk hc hP hP0 (hc.inData hQ hQ0),
    put_disk_of_ne (place_ne_leaf hc (linkable_of_ne_zero hP hP0) hQ hleaf)]

theorem detach_links (hc : Consistent fs) (hP : P.Valid height) (hP0 : fs.walk P ≠ 0)
    (hbelow : P.Inner height → ∀ i, fs.walk (P.sub i) = 0) :
    Links height fs.forest (fs.detach P).forest P 0 := by
  apply links_put hc (linkable_of_ne_zero hP hP0) hbelow detach_sup
  · intro n k
    rw [detach_inode, put_inode]
  · intro a i ha _
    rw [detach_disk hc hP hP0 ha, put_disk_word]
  · exact fun h => absurd rfl h
  · exact fun _ h => absurd rfl h

theorem detach_inUse (hc : Consistent fs) (hP : P.Valid height) (hP0 : fs.walk P ≠ 0) {a : ULong}
    (ha : InData fs.sup a) (hne : a ≠ fs.walk P) : (fs.detach P).inUse a = fs.inUse a := by
  have hput : ∀ c, c.toNat < fs.sup.data.toNat → ∀ g : FileSys,
      (g.put 0 (fs.place P)).disk c = g.disk c :=
    fun c hlt => put_disk_bitmap hc (linkable_of_ne_zero hP hP0) hlt
  rw [detach]
  split
  · exact inUse_congr hc.layout (put_sup _) (fun c hlt => hput c hlt fs) ha
  · rw [inUse_congr (show Layout (fs.mark (fs.walk P) false).sup from hc.layout) (put_sup _)
      (fun c hlt => hput c hlt _) ha, inUse_mark (hc.inData hP hP0) ha, if_neg hne]

/-- The bit of a data block is cleared. -/
theorem detach_inUse_self (hc : Consistent fs) (hP : P.Valid height) (hP0 : fs.walk P ≠ 0)
    (hleaf : ¬P.Inner height) : (fs.detach P).inUse (fs.walk P) = false := by
  have hb := hc.inData hP hP0
  rw [detach, if_neg hleaf,
    inUse_congr (show Layout (fs.mark (fs.walk P) false).sup from hc.layout) (put_sup _)
      (fun c hlt => put_disk_bitmap hc (linkable_of_ne_zero hP hP0) hlt _) hb,
    inUse_mark hb hb, if_pos rfl]

/-- **Detaching** a block with nothing below it keeps the file system consistent. -/
theorem Consistent.detach (hc : Consistent fs) (hP : P.Valid height) (hP0 : fs.walk P ≠ 0)
    (hbelow : P.Inner height → ∀ i, fs.walk (P.sub i) = 0) : Consistent (fs.detach P) := by
  apply hc.of_links detach_sup _ (detach_links hc hP hP0 hbelow)
  · exact fun h => absurd rfl h
  · intro Q hQ hne hQ0
    have hwalk : fs.walk Q ≠ fs.walk P := fun h => hne (hc.eq_of_walk_eq hQ hP hQ0 h)
    rw [detach_inUse hc hP hP0 (hc.inData hQ hQ0) hwalk, hc.inUse hQ hQ0]
  · have hput : ∀ c, c.toNat < fs.sup.data.toNat → ∀ g : FileSys,
        (g.put 0 (fs.place P)).disk c = g.disk c :=
      fun c hlt => put_disk_bitmap hc (linkable_of_ne_zero hP hP0) hlt
    rw [FileSys.detach]
    split
    · exact hc.padded.congr hc.layout (put_sup _) fun c hlt => hput c hlt fs
    · exact (hc.padded.mark hc.layout (hc.inData hP hP0) false).congr
        hc.layout (put_sup _) fun c hlt => hput c hlt _

end

end Vmm386.Fs.FileSys
