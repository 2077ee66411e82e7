import Vmm386.Fs.BlockTreeTheorems
import Vmm386.Fs.MkfsTheorems
import Vmm386.Lib.Runs

/-!
# Runs of the allocators

Data blocks and inodes are allocated from bitmaps that `mkfs` has made. Beside the bitmaps a
state keeps account of what has been handed out and not been given back; the two agree, so
nothing is handed out twice, and nothing that does not exist.
-/

namespace Vmm386.Fs.FileSys

/-! ## The inode bitmap -/

/-- `alloc_inode`. -/
def allocInode (fs : FileSys) : Option ULong × FileSys :=
  fs.bmapAlloc fs.sup.inodeBitmap fs.sup.numInodes

/-- `free_inode`. -/
def freeInode (fs : FileSys) (inum : ULong) : FileSys := fs.bmapFree fs.sup.inodeBitmap inum

/-- The inode has its bit set in the inode bitmap. -/
def inodeInUse (fs : FileSys) (inum : ULong) : Bool := fs.bit fs.sup.inodeBitmap inum.toNat

/-- Change the bit of an inode. -/
def markInode (fs : FileSys) (inum : ULong) (v : Bool) : FileSys :=
  (fs.putBit fs.sup.inodeBitmap inum.toNat v).flush

/-- The padding of the inode bitmap is in place. -/
def InodePadded (fs : FileSys) : Prop := fs.Padded fs.sup.inodeBitmap fs.sup.numInodes.toNat

section

variable {fs fs' : FileSys} {a b inum n : ULong}

@[simp] theorem markInode_sup (v : Bool) : (fs.markInode inum v).sup = fs.sup := rfl
@[simp] theorem markInode_inode (v : Bool) : (fs.markInode inum v).inode = fs.inode := rfl

/-- The blocks of the inode bitmap are below the data bitmap. -/
theorem inodeBitmap_lt (hL : Layout fs.sup) {i : ℕ}
    (hi : i < BITS_PER_BLOCK * bmapBlocks fs.sup.numInodes.toNat) :
    (fs.sup.inodeBitmap + BitVec.ofNat 32 (i / BITS_PER_BLOCK)).toNat < fs.sup.dataBitmap.toNat := by
  have h1 := hL.inodeBitmap
  have h2 := hL.dataBitmap
  have h3 := hL.data
  have hq := Nat.div_lt_of_lt_mul hi
  rw [BitVec.toNat_add, BitVec.toNat_ofNat]
  generalize i / BITS_PER_BLOCK = q at *
  omega

theorem lt_inodeBits (hn : inum.toNat < fs.sup.numInodes.toNat) :
    inum.toNat < BITS_PER_BLOCK * bmapBlocks fs.sup.numInodes.toNat := by
  simp only [bmapBlocks, BITS_PER_BLOCK, FS_BLKSIZ]
  omega

/-- Nothing but a block of the inode bitmap changes. -/
theorem markInode_disk (hL : Layout fs.sup) (hn : inum.toNat < fs.sup.numInodes.toNat)
    (ha : fs.sup.dataBitmap.toNat ≤ a.toNat) (v : Bool) : (fs.markInode inum v).disk a = fs.disk a := by
  apply fs.putBit_disk_of_ne v
  rintro rfl
  have hlt := inodeBitmap_lt hL (lt_inodeBits hn)
  omega

theorem inodeInUse_markInode (v : Bool) :
    (fs.markInode inum v).inodeInUse n = if n = inum then v else fs.inodeInUse n := by
  have hbit := fs.bit_putBit fs.sup.inodeBitmap v inum.isLt n.isLt
  rw [if_congr BitVec.toNat_inj rfl rfl] at hbit
  exact hbit

theorem inodeInUse_congr (hL : Layout fs.sup) (hsup : fs'.sup = fs.sup)
    (hdisk : ∀ a, a.toNat < fs.sup.dataBitmap.toNat → fs'.disk a = fs.disk a)
    (hn : inum.toNat < fs.sup.numInodes.toNat) : fs'.inodeInUse inum = fs.inodeInUse inum := by
  simp only [inodeInUse, bit, hsup]
  rw [hdisk _ (inodeBitmap_lt hL (lt_inodeBits hn))]

theorem InodePadded.congr (h : fs.InodePadded) (hL : Layout fs.sup) (hsup : fs'.sup = fs.sup)
    (hdisk : ∀ a, a.toNat < fs.sup.dataBitmap.toNat → fs'.disk a = fs.disk a) :
    fs'.InodePadded := by
  intro i hi hlt
  rw [hsup] at hi hlt ⊢
  rw [← h i hi hlt, bit, bit, hdisk _ (inodeBitmap_lt hL hlt)]

theorem InodePadded.markInode (h : fs.InodePadded) (hL : Layout fs.sup)
    (hn : inum.toNat < fs.sup.numInodes.toNat) (v : Bool) : (fs.markInode inum v).InodePadded := by
  intro i hi hlt
  rw [markInode_sup] at hi hlt
  have hfit := hL.numInodes
  have hi32 : i < 2 ^ 32 := by
    simp only [bmapBlocks, BITS_PER_BLOCK, FS_BLKSIZ] at hlt
    omega
  refine (fs.bit_putBit _ v inum.isLt hi32).trans ?_
  rw [if_neg (by omega)]
  exact h i hi hlt

/-- The bits of the data bitmap do not change with those of the inode bitmap. -/
theorem inUse_markInode (hL : Layout fs.sup) (hn : inum.toNat < fs.sup.numInodes.toNat)
    (hb : InData fs.sup b) (v : Bool) : (fs.markInode inum v).inUse b = fs.inUse b := by
  simp only [inUse, bit, markInode_sup]
  rw [markInode_disk hL hn (dataBitmap_le hL hb) v]

theorem DataPadded.markInode (h : fs.DataPadded) (hL : Layout fs.sup)
    (hn : inum.toNat < fs.sup.numInodes.toNat) (v : Bool) : (fs.markInode inum v).DataPadded := by
  intro i hi hlt
  rw [markInode_sup] at hi hlt ⊢
  rw [← h i hi hlt, bit, bit, markInode_disk hL hn _ v]
  have h2 := hL.dataBitmap
  have h3 := hL.data
  have hq := Nat.div_lt_of_lt_mul hlt
  rw [BitVec.toNat_add, BitVec.toNat_ofNat]
  generalize i / BITS_PER_BLOCK = q at *
  omega

/-- **`alloc_inode`** takes an inode that is not in use, or finds all of them in use. -/
theorem allocInode_spec (hpad : fs.InodePadded) :
    (∃ inum, inum.toNat < fs.sup.numInodes.toNat ∧ fs.inodeInUse inum = false ∧
      fs.allocInode = (some inum, fs.markInode inum true)) ∨
    ((∀ inum, inum.toNat < fs.sup.numInodes.toNat → fs.inodeInUse inum = true) ∧
      fs.allocInode = (none, fs.fail E_NOSPC)) := by
  rcases bmapAlloc_spec hpad with ⟨i, hi, hclear, -, halloc⟩ | ⟨hset, halloc⟩
  · left
    have hmax := fs.sup.numInodes.isLt
    have hnat : (BitVec.ofNat 32 i).toNat = i := by
      rw [BitVec.toNat_ofNat]
      omega
    refine ⟨BitVec.ofNat 32 i, by rwa [hnat], by rwa [inodeInUse, hnat], ?_⟩
    rw [allocInode, halloc, markInode, hnat]
  · right
    exact ⟨fun inum hn => hset _ hn, halloc⟩

/-- **`free_inode`** of an inode in use. -/
theorem freeInode_spec (h : fs.inodeInUse inum = true) :
    fs.freeInode inum = fs.markInode inum false :=
  bmapFree_spec h

theorem FreshlyMade.inodePadded (h : FreshlyMade fs) : fs.InodePadded := by
  intro i hi hlt
  rw [h.inodeBit hlt]
  simp [hi]

end

/-! ## Runs -/

/-- A file system, with the blocks and the inodes that are allocated. -/
structure AllocSys where
  fs : FileSys
  blocks : ULong → Bool
  inodes : ULong → Bool

/-- A call of an allocator. -/
inductive AllocOp where
  | allocBlock (locality : ULong)
  | freeBlock (blk : ULong)
  | allocInode
  | freeInode (inum : ULong)

/-- What the call does. Only what is allocated is freed. -/
def allocStep (s : AllocSys) : AllocOp → Option AllocSys
  | .allocBlock locality =>
    match s.fs.allocBlock locality with
    | (blk, fs) =>
      some { s with fs, blocks := if blk = 0 then s.blocks else Function.update s.blocks blk true }
  | .freeBlock blk =>
    if s.blocks blk then
      some { s with fs := s.fs.freeBlock blk, blocks := Function.update s.blocks blk false }
    else none
  | .allocInode =>
    match s.fs.allocInode with
    | (some inum, fs) => some { s with fs, inodes := Function.update s.inodes inum true }
    | (none, fs) => some { s with fs }
  | .freeInode inum =>
    if s.inodes inum then
      some { s with fs := s.fs.freeInode inum, inodes := Function.update s.inodes inum false }
    else none

/-- What a call hands out exists and was not allocated; if it hands out nothing, all there is
is allocated. -/
def HandsOutFree (s : AllocSys) : AllocOp → Prop
  | .allocBlock locality =>
    let blk := (s.fs.allocBlock locality).1
    (blk ≠ 0 → InData s.fs.sup blk ∧ s.blocks blk = false) ∧
      (blk = 0 → ∀ b, InData s.fs.sup b → s.blocks b = true)
  | .allocInode =>
    match s.fs.allocInode.1 with
    | some inum => inum.toNat < s.fs.sup.numInodes.toNat ∧ s.inodes inum = false
    | none => ∀ n : ULong, n.toNat < s.fs.sup.numInodes.toNat → s.inodes n = true
  | _ => True

/-- The bitmaps agree with the account. -/
structure Accounted (s : AllocSys) : Prop where
  layout : Layout s.fs.sup
  dataPadded : s.fs.DataPadded
  inodePadded : s.fs.InodePadded
  blocks : ∀ b, InData s.fs.sup b → s.fs.inUse b = s.blocks b
  blocks_lt : ∀ b, s.blocks b = true → InData s.fs.sup b
  inodes : ∀ n : ULong, n.toNat < s.fs.sup.numInodes.toNat → s.fs.inodeInUse n = s.inodes n
  inodes_lt : ∀ n : ULong, s.inodes n = true → n.toNat < s.fs.sup.numInodes.toNat

namespace Accounted

variable {s : AllocSys} {b inum : ULong}

/-- The bit of a block and its entry in the account change together. -/
theorem mark (h : Accounted s) (hb : InData s.fs.sup b) (v : Bool) :
    Accounted { s with fs := s.fs.mark b v, blocks := Function.update s.blocks b v } where
  layout := h.layout
  dataPadded := h.dataPadded.mark h.layout hb v
  inodePadded := h.inodePadded.congr h.layout rfl fun _ ha => mark_disk_low h.layout hb v ha
  blocks c hc := by
    show (s.fs.mark b v).inUse c = Function.update s.blocks b v c
    rw [inUse_mark hb hc v, Function.update_apply, h.blocks c hc]
  blocks_lt c hc := by
    by_cases hcb : c = b
    · exact hcb ▸ hb
    · exact h.blocks_lt c ((Function.update_of_ne hcb _ _).symm.trans hc)
  inodes n hn := by
    rw [← h.inodes n hn]
    exact inodeInUse_congr h.layout rfl (fun _ ha => mark_disk_low h.layout hb v ha) hn
  inodes_lt := h.inodes_lt

theorem markInode (h : Accounted s) (hn : inum.toNat < s.fs.sup.numInodes.toNat) (v : Bool) :
    Accounted { s with fs := s.fs.markInode inum v, inodes := Function.update s.inodes inum v } where
  layout := h.layout
  dataPadded := h.dataPadded.markInode h.layout hn v
  inodePadded := h.inodePadded.markInode h.layout hn v
  blocks c hc := by
    rw [← h.blocks c hc]
    exact inUse_markInode h.layout hn hc v
  blocks_lt := h.blocks_lt
  inodes n hn' := by
    show (s.fs.markInode inum v).inodeInUse n = Function.update s.inodes inum v n
    rw [inodeInUse_markInode v, Function.update_apply, h.inodes n hn']
  inodes_lt n hn' := by
    by_cases hni : n = inum
    · exact hni ▸ hn
    · exact h.inodes_lt n ((Function.update_of_ne hni _ _).symm.trans hn')

theorem fail (h : Accounted s) (e : ℤ) : Accounted { s with fs := s.fs.fail e } :=
  ⟨h.layout, h.dataPadded, h.inodePadded, h.blocks, h.blocks_lt, h.inodes, h.inodes_lt⟩

end Accounted

/-- Each call keeps the account. -/
theorem allocStep_accounted : Runs.Preserves allocStep (fun _ _ => True) Accounted := by
  intro s op s' h _ hstep
  cases op with
  | allocBlock locality =>
    rw [allocStep] at hstep
    rcases allocBlock_spec h.layout h.dataPadded locality with ⟨b, hb, -, halloc⟩ | ⟨-, halloc⟩
    · rw [halloc] at hstep
      simp only [if_neg (hb.ne_zero h.layout)] at hstep
      obtain rfl := Option.some.inj hstep
      exact h.mark hb true
    · rw [halloc] at hstep
      obtain rfl := Option.some.inj hstep
      exact h.fail E_NOSPC
  | freeBlock blk =>
    simp only [allocStep, Option.ite_none_right_eq_some, Option.some.injEq] at hstep
    obtain ⟨hblk, rfl⟩ := hstep
    have hb := h.blocks_lt blk hblk
    rw [freeBlock_spec (by rw [h.blocks blk hb, hblk])]
    exact h.mark hb false
  | allocInode =>
    rw [allocStep] at hstep
    rcases allocInode_spec h.inodePadded with ⟨inum, hn, -, halloc⟩ | ⟨-, halloc⟩
    · rw [halloc] at hstep
      obtain rfl := Option.some.inj hstep
      exact h.markInode hn true
    · rw [halloc] at hstep
      obtain rfl := Option.some.inj hstep
      exact h.fail E_NOSPC
  | freeInode inum =>
    simp only [allocStep, Option.ite_none_right_eq_some, Option.some.injEq] at hstep
    obtain ⟨hinum, rfl⟩ := hstep
    have hn := h.inodes_lt inum hinum
    rw [freeInode_spec (by rw [h.inodes inum hn, hinum])]
    exact h.markInode hn false

/-- With the account kept, each call hands out what it should. -/
theorem Accounted.handsOutFree {s : AllocSys} (h : Accounted s) (op : AllocOp) : HandsOutFree s op := by
  cases op with
  | allocBlock locality =>
    simp only [HandsOutFree]
    rcases allocBlock_spec h.layout h.dataPadded locality with ⟨b, hb, hfree, halloc⟩ | ⟨hfull, halloc⟩
    · rw [halloc]
      refine ⟨fun _ => ⟨hb, by rw [← h.blocks b hb, hfree]⟩, fun h0 => ?_⟩
      exact absurd h0 (hb.ne_zero h.layout)
    · rw [halloc]
      exact ⟨fun h0 => absurd rfl h0, fun _ b hb => by rw [← h.blocks b hb, hfull b hb]⟩
  | allocInode =>
    simp only [HandsOutFree]
    rcases allocInode_spec h.inodePadded with ⟨inum, hn, hfree, halloc⟩ | ⟨hfull, halloc⟩
    · rw [halloc]
      exact ⟨hn, by rw [← h.inodes inum hn, hfree]⟩
    · rw [halloc]
      exact fun n hn => by rw [← h.inodes n hn, hfull n hn]
  | freeBlock blk => trivial
  | freeInode inum => trivial

/-- The account of a file system that has just been made: the root directory and its block. -/
def AllocSys.fresh (fs : FileSys) : AllocSys where
  fs := fs
  blocks b := decide (b = fs.sup.data)
  inodes n := decide (n = 0)

theorem FreshlyMade.accounted {fs : FileSys} (h : FreshlyMade fs)
    (hpos : 0 < fs.sup.numInodes.toNat) : Accounted (.fresh fs) where
  layout := h.areas.layout
  dataPadded := h.consistent.padded
  inodePadded := h.inodePadded
  blocks b hb := by
    change InData fs.sup b at hb
    have hsub := toNat_sub_data hb
    obtain ⟨h1, h2⟩ := hb
    have hlt : (b - fs.sup.data).toNat < fs.sup.dataSize.toNat := by omega
    have hbits : (b - fs.sup.data).toNat < BITS_PER_BLOCK * bmapBlocks fs.sup.dataSize.toNat := by
      simp only [bmapBlocks, BITS_PER_BLOCK, FS_BLKSIZ]
      omega
    refine (h.dataBit hbits).trans ?_
    have hzero : (b - fs.sup.data).toNat = 0 ↔ b = fs.sup.data := by
      rw [hsub, ← BitVec.toNat_inj]
      omega
    rw [decide_eq_false (Nat.not_le_of_lt hlt), Bool.or_false]
    exact decide_eq_decide.mpr hzero
  blocks_lt b hb := by
    obtain rfl : b = fs.sup.data := by simpa [AllocSys.fresh] using hb
    have hsize := h.areas.dataSize
    exact ⟨Nat.le_refl _, Nat.lt_add_of_pos_right hsize⟩
  inodes n hn := by
    change n.toNat < fs.sup.numInodes.toNat at hn
    refine (h.inodeBit (lt_inodeBits hn)).trans ?_
    have hzero : n.toNat = 0 ↔ n = 0 := BitVec.toNat_inj (y := 0)
    rw [decide_eq_false (Nat.not_le_of_lt hn), Bool.or_false]
    exact decide_eq_decide.mpr hzero
  inodes_lt n hn := by
    obtain rfl : n = 0 := by simpa [AllocSys.fresh] using hn
    exact hpos

/-- **The allocators hand out what is free**, in every run that starts on a new file system
with an inode. A call finds nothing only when all there is has been allocated. -/
theorem allocators_hand_out_free {fs : FileSys} {ops : List AllocOp} (h : FreshlyMade fs)
    (hpos : 0 < fs.sup.numInodes.toNat) : Runs.Along allocStep HandsOutFree (.fresh fs) ops :=
  allocStep_accounted.along (fun _ op hs _ => hs.handsOutFree op) (h.accounted hpos)
    (Runs.along_true _ ops)

/-- On a device of twenty blocks: a block and an inode are allocated, and the root's block
freed. -/
theorem allocators_hand_out_free_twenty : ∃ fs, FreshlyMade fs ∧
    Runs.Along allocStep HandsOutFree (.fresh fs)
      [.allocBlock 0, .allocInode, .freeBlock fs.sup.data, .allocBlock 0] := by
  obtain ⟨fs, hfresh, hsup⟩ := exists_freshlyMade
  exact ⟨fs, hfresh, allocators_hand_out_free hfresh (by rw [hsup]; decide)⟩

end Vmm386.Fs.FileSys
