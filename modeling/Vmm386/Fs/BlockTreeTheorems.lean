import Vmm386.Fs.Consistency

/-!
# What `get_data_blkno` and `delete_inode_data` do

`get_data_blkno` goes down one path and attaches what is missing on it, as far as there is
space. `delete_inode_data` detaches all blocks of an inode, from the leaves upwards.
-/

namespace Vmm386.Fs.FileSys

open Forest

/-! ## Changes that only attach, or only detach -/

/-- The inode apart from its block pointers. -/
def SameMeta (fs fs' : FileSys) : Prop :=
  ∀ n, { fs'.inode n with data := (fs.inode n).data } = fs.inode n

/-- Blocks have been attached on the way down `P`. -/
structure Grows (fs fs' : FileSys) (P : Path) : Prop where
  sup : fs'.sup = fs.sup
  ioResult : fs'.ioResult = fs.ioResult
  attrs : SameMeta fs fs'
  walk : ∀ Q : Path, Q.Valid height → fs'.walk Q = fs.walk Q ∨ (P.Passes Q ∧ fs.walk Q = 0)
  leaf : ∀ Q : Path, Q.Valid height → ¬Q.Inner height → fs.walk Q ≠ 0 →
    fs'.disk (fs.walk Q) = fs.disk (fs.walk Q)
  low : ∀ a, a.toNat < fs.sup.dataBitmap.toNat → fs'.disk a = fs.disk a
  marked : ∀ b, InData fs.sup b → fs.inUse b = true → fs'.inUse b = true
  fresh : ∀ Q : Path, Q.Valid height → fs.walk Q = 0 → fs'.walk Q ≠ 0 →
    fs.inUse (fs'.walk Q) = false
  linked : ∀ b, InData fs.sup b → fs.inUse b = false → fs'.inUse b = true →
    ∃ Q : Path, Q.Valid height ∧ P.Passes Q ∧ fs.walk Q = 0 ∧ fs'.walk Q = b
  idle : ∀ b, InData fs.sup b → fs'.inUse b = false → fs'.disk b = fs.disk b
  stale : ∀ Q : Path, Q.Valid height → ¬Q.Inner height → fs.walk Q = 0 → fs'.walk Q ≠ 0 →
    fs'.disk (fs'.walk Q) = fs.disk (fs'.walk Q)

/-- The blocks at the end of the paths in `T`, and no others, have been detached. -/
structure Prunes (fs fs' : FileSys) (T : Path → Prop) : Prop where
  sup : fs'.sup = fs.sup
  ioResult : fs'.ioResult = fs.ioResult
  attrs : SameMeta fs fs'
  gone : ∀ Q : Path, Q.Valid height → T Q → fs'.walk Q = 0
  walk : ∀ Q : Path, Q.Valid height → ¬T Q → fs'.walk Q = fs.walk Q
  leaf : ∀ Q : Path, Q.Valid height → ¬Q.Inner height → ¬T Q → fs.walk Q ≠ 0 →
    fs'.disk (fs.walk Q) = fs.disk (fs.walk Q)
  low : ∀ a, a.toNat < fs.sup.dataBitmap.toNat → fs'.disk a = fs.disk a
  clear : ∀ b, InData fs.sup b → fs.inUse b = false → fs'.inUse b = false
  freed : ∀ Q : Path, Q.Valid height → ¬Q.Inner height → T Q → fs.walk Q ≠ 0 →
    fs'.inUse (fs.walk Q) = false
  kept : ∀ i < BITS_PER_BLOCK * bmapBlocks fs.sup.dataSize.toNat,
    (∀ Q : Path, Q.Valid height → ¬Q.Inner height → T Q → fs.walk Q ≠ 0 →
      (fs.walk Q - fs.sup.data).toNat ≠ i) →
    fs'.bit fs.sup.dataBitmap i = fs.bit fs.sup.dataBitmap i

section

variable {fs fs' fs'' : FileSys} {P Q : Path} {T T' : Path → Prop} {b : ULong}

theorem SameMeta.refl (fs : FileSys) : SameMeta fs fs := fun _ => rfl

theorem SameMeta.trans (h : SameMeta fs fs') (h' : SameMeta fs' fs'') : SameMeta fs fs'' := by
  intro n
  have h1 := h n
  have h2 := h' n
  simp only [Inode.ext_iff] at h1 h2 ⊢
  simp_all

theorem SameMeta.size (h : SameMeta fs fs') (n : ULong) : (fs'.inode n).size = (fs.inode n).size := by
  have heq := congrArg Inode.size (h n)
  exact heq

theorem SameMeta.attr (h : SameMeta fs fs') (n : ULong) : (fs'.inode n).attr = (fs.inode n).attr := by
  have heq := congrArg Inode.attr (h n)
  exact heq

theorem SameMeta.nlinks (h : SameMeta fs fs') (n : ULong) :
    (fs'.inode n).nlinks = (fs.inode n).nlinks := by
  have heq := congrArg Inode.nlinks (h n)
  exact heq

namespace Grows

theorem fail (fs : FileSys) (P : Path) (e : ℤ) : Grows fs (fs.fail e) P where
  sup := rfl
  ioResult := rfl
  attrs := .refl fs
  walk _ _ := .inl rfl
  leaf _ _ _ _ := rfl
  low _ _ := rfl
  marked _ _ h := h
  fresh _ _ h h' := absurd h h'
  linked b _ h h' := by
    rw [show (fs.fail e).inUse b = fs.inUse b from rfl, h] at h'
    cases h'
  idle _ _ _ := rfl
  stale _ _ _ _ _ := rfl

theorem walk_of_ne (h : Grows fs fs' P) (hQ : Q.Valid height) (h0 : fs.walk Q ≠ 0) :
    fs'.walk Q = fs.walk Q := by
  rcases h.walk Q hQ with h | ⟨-, h⟩
  · exact h
  · exact absurd h h0

theorem trans (hc' : Consistent fs'') (h : Grows fs fs' P) (h' : Grows fs' fs'' P) :
    Grows fs fs'' P where
  sup := h'.sup.trans h.sup
  ioResult := h'.ioResult.trans h.ioResult
  attrs := h.attrs.trans h'.attrs
  walk S hS := by
    rcases h.walk S hS with h1 | h1
    · rcases h'.walk S hS with h2 | ⟨hP, h2⟩
      · exact .inl (h2.trans h1)
      · exact .inr ⟨hP, h1 ▸ h2⟩
    · exact .inr h1
  leaf S hS hleaf h0 := by
    have hwalk := h.walk_of_ne hS h0
    rw [← hwalk, h'.leaf S hS hleaf (by rwa [hwalk]), hwalk, h.leaf S hS hleaf h0]
  low a ha := by rw [h'.low a (by rwa [h.sup]), h.low a ha]
  marked b hb hin := h'.marked b (by rwa [h.sup]) (h.marked b hb hin)
  fresh S hS h0 h0' := by
    by_cases h1 : fs'.walk S = 0
    · -- attached in the second part, so free before it and all the more before the first
      have hfree := h'.fresh S hS h1 h0'
      have hdata : InData fs.sup (fs''.walk S) := by
        have := hc'.inData hS h0'
        rwa [h'.sup, h.sup] at this
      by_contra hin
      rw [h.marked _ hdata (by simpa using hin)] at hfree
      cases hfree
    · rw [h'.walk_of_ne hS h1]
      exact h.fresh S hS h0 h1
  linked b hb hfree hin := by
    rcases hmid : fs'.inUse b
    · obtain ⟨S, hS, hPS, hS0, hwalk⟩ := h'.linked b (by rwa [h.sup]) hmid hin
      refine ⟨S, hS, hPS, ?_, hwalk⟩
      rcases h.walk S hS with heq | ⟨-, h0⟩
      · rwa [← heq]
      · exact h0
    · obtain ⟨S, hS, hPS, hS0, hwalk⟩ := h.linked b hb hfree hmid
      have hb0 : b ≠ 0 := by
        apply InData.ne_zero hc'.layout
        rwa [h'.sup, h.sup]
      exact ⟨S, hS, hPS, hS0, by rw [h'.walk_of_ne hS (by rwa [hwalk]), hwalk]⟩
  idle b hb hfree := by
    have hmid : fs'.inUse b = false := by
      by_contra hin
      rw [h'.marked b (by rwa [h.sup]) (by simpa using hin)] at hfree
      cases hfree
    rw [h'.idle b (by rwa [h.sup]) hfree, h.idle b hb hmid]
  stale S hS hleaf h0 h0' := by
    by_cases h1 : fs'.walk S = 0
    · have hdata : InData fs.sup (fs''.walk S) := by
        have := hc'.inData hS h0'
        rwa [h'.sup, h.sup] at this
      rw [h'.stale S hS hleaf h1 h0', h.idle _ hdata (h'.fresh S hS h1 h0')]
    · rw [h'.walk_of_ne hS h1, h'.leaf S hS hleaf h1, h.stale S hS hleaf h0 h1]

theorem mono (h : Grows fs fs' P) (hPQ : Q.Passes P) : Grows fs fs' Q where
  sup := h.sup
  ioResult := h.ioResult
  attrs := h.attrs
  walk S hS := (h.walk S hS).imp_right fun hP => ⟨hPQ.trans hP.1, hP.2⟩
  leaf := h.leaf
  low := h.low
  marked := h.marked
  fresh := h.fresh
  linked b hb hfree hin := by
    obtain ⟨S, hS, hPS, h0⟩ := h.linked b hb hfree hin
    exact ⟨S, hS, hPQ.trans hPS, h0⟩
  idle := h.idle
  stale := h.stale

end Grows

namespace Prunes

/-- Where nothing is attached there is nothing to do. -/
theorem fail (e : ℤ) (h : ∀ Q : Path, Q.Valid height → T Q → fs.walk Q = 0) :
    Prunes fs (fs.fail e) T where
  sup := rfl
  ioResult := rfl
  attrs := .refl fs
  gone := h
  walk _ _ _ := rfl
  leaf _ _ _ _ _ := rfl
  low _ _ := rfl
  clear _ _ h := h
  freed Q hQ _ hT h0 := absurd (h Q hQ hT) h0
  kept _ _ _ := rfl

theorem trans (hc : Consistent fs) (h : Prunes fs fs' T) (h' : Prunes fs' fs'' T') :
    Prunes fs fs'' fun Q => T Q ∨ T' Q where
  sup := h'.sup.trans h.sup
  ioResult := h'.ioResult.trans h.ioResult
  attrs := h.attrs.trans h'.attrs
  gone S hS hT := by
    by_cases hT' : T' S
    · exact h'.gone S hS hT'
    · rw [h'.walk S hS hT']
      exact h.gone S hS (hT.resolve_right hT')
  walk S hS hT := by
    rw [h'.walk S hS fun hS' => hT (.inr hS'), h.walk S hS fun hS' => hT (.inl hS')]
  leaf S hS hleaf hT h0 := by
    have hwalk := h.walk S hS fun hS' => hT (.inl hS')
    rw [← hwalk, h'.leaf S hS hleaf (fun hS' => hT (.inr hS')) (by rwa [hwalk]), hwalk,
      h.leaf S hS hleaf (fun hS' => hT (.inl hS')) h0]
  low a ha := by rw [h'.low a (by rwa [h.sup]), h.low a ha]
  clear b hb hfree := h'.clear b (by rwa [h.sup]) (h.clear b hb hfree)
  freed S hS hleaf hT h0 := by
    by_cases hT' : T S
    · apply h'.clear _ _ (h.freed S hS hleaf hT' h0)
      rw [h.sup]
      exact hc.inData hS h0
    · have hwalk := h.walk S hS hT'
      rw [← hwalk]
      exact h'.freed S hS hleaf (hT.resolve_left hT') (by rwa [hwalk])
  kept i hi hne := by
    have hfirst := h.kept i hi fun S hS hleaf hT h0 => hne S hS hleaf (.inl hT) h0
    have hnext := h'.kept i (by rwa [h.sup]) ?_
    · rw [h.sup] at hnext
      exact hnext.trans hfirst
    · intro S hS hleaf hT' h0
      have hT : ¬T S := fun hT => h0 (h.gone S hS hT)
      rw [h.walk S hS hT] at h0 ⊢
      rw [h.sup]
      exact hne S hS hleaf (.inr hT') h0

theorem congr (h : Prunes fs fs' T) (hT : ∀ Q : Path, Q.Valid height → (T Q ↔ T' Q)) :
    Prunes fs fs' T' where
  sup := h.sup
  ioResult := h.ioResult
  attrs := h.attrs
  gone Q hQ hT' := h.gone Q hQ ((hT Q hQ).mpr hT')
  walk Q hQ hT' := h.walk Q hQ fun h' => hT' ((hT Q hQ).mp h')
  leaf Q hQ hleaf hT' := h.leaf Q hQ hleaf fun h' => hT' ((hT Q hQ).mp h')
  low := h.low
  clear := h.clear
  freed Q hQ hleaf hT' := h.freed Q hQ hleaf ((hT Q hQ).mpr hT')
  kept i hi hne := h.kept i hi fun Q hQ hleaf hT' => hne Q hQ hleaf ((hT Q hQ).mp hT')

theorem fail_right (h : Prunes fs fs' T) (e : ℤ) : Prunes fs (fs'.fail e) T :=
  ⟨h.sup, h.ioResult, h.attrs, h.gone, h.walk, h.leaf, h.low, h.clear, h.freed, h.kept⟩

end Prunes

/-- The block of the data bitmap is not below it. -/
theorem dataBitmap_le {sup : SuperData} (hL : Layout sup) (hb : InData sup b) :
    sup.dataBitmap.toNat
      ≤ (sup.dataBitmap + BitVec.ofNat 32 ((b - sup.data).toNat / BITS_PER_BLOCK)).toNat := by
  have hblocks := hL.dataBitmap
  have hdata := hL.data
  have hb1 := hb.1
  have hb2 := hb.2
  have hlt : (b.toNat - sup.data.toNat) / BITS_PER_BLOCK < bmapBlocks sup.dataSize.toNat :=
    div_lt_bmapBlocks (by omega)
  rw [toNat_sub_data hb, BitVec.toNat_add, BitVec.toNat_ofNat]
  generalize (b.toNat - sup.data.toNat) / BITS_PER_BLOCK = q at *
  omega

theorem mark_disk_low (hL : Layout fs.sup) (hb : InData fs.sup b) (v : Bool) {a : ULong}
    (ha : a.toNat < fs.sup.dataBitmap.toNat) : (fs.mark b v).disk a = fs.disk a := by
  apply fs.putBit_disk_of_ne v
  rintro rfl
  have hle := dataBitmap_le hL hb
  omega

theorem put_sameMeta (p : Place) : SameMeta fs (fs.put b p) := by
  intro n
  cases p with
  | word a i => rfl
  | inode m k =>
    by_cases hn : n = m
    · subst hn
      rw [put, setInode_inode_self]
      rfl
    · rw [put, fs.setInode_inode_of_ne _ hn]

theorem sameMeta_of_inode_eq {g : FileSys} (h : SameMeta fs g) (heq : fs'.inode = g.inode) :
    SameMeta fs fs' := by
  intro n
  rw [heq]
  exact h n

theorem attach_grows (hc : Consistent fs) (hP : Linkable fs P) (h0 : fs.walk P = 0)
    (hb : InData fs.sup b) (hfree : fs.inUse b = false) : Grows fs (fs.attach P b) P where
  sup := attach_sup
  ioResult := attach_ioResult
  attrs := sameMeta_of_inode_eq (put_sameMeta _) attach_inode
  walk S hS := by
    by_cases hSP : S = P
    · subst hSP
      exact .inr ⟨Path.passes_self _, h0⟩
    · exact .inl ((attach_links hc hP h0 hb hfree).walk_of_ne hS hSP)
  leaf S hS hleaf hS0 := attach_disk_leaf hc hP hb hfree hS hleaf hS0
  low a ha := by
    have hle := hc.layout.dataBitmap
    rw [attach_disk_bitmap hc hP hb (by omega), mark_disk_low hc.layout hb true ha]
  marked a ha hin := by
    rw [attach_inUse hc hP hb ha, hin]
    split <;> rfl
  fresh S hS hS0 hS0' := by
    rw [show (fs.attach P b).walk S = if S = P then b else fs.walk S from
      (attach_links hc hP h0 hb hfree).walk_eq S hS] at hS0' ⊢
    by_cases hSP : S = P
    · rw [if_pos hSP, hfree]
    · rw [if_neg hSP] at hS0'
      exact absurd hS0 hS0'
  linked a ha hafree hin := by
    rw [attach_inUse hc hP hb ha, hafree] at hin
    obtain rfl : a = b := by
      by_contra hne
      rw [if_neg hne] at hin
      cases hin
    exact ⟨P, hP.valid, Path.passes_self P, h0,
      (attach_links hc hP h0 hb hfree).walk_self hP.valid⟩
  idle a ha hafree := by
    rw [attach_inUse hc hP hb ha] at hafree
    have hne : a ≠ b := by
      rintro rfl
      rw [if_pos rfl] at hafree
      cases hafree
    rw [if_neg hne] at hafree
    rw [attach_disk hne, put_disk_of_ne (place_ne_idle hc hP hafree), mark_disk hc.layout hb ha]
  stale S hS hleaf hS0 hS0' := by
    rw [show (fs.attach P b).walk S = if S = P then b else fs.walk S from
      (attach_links hc hP h0 hb hfree).walk_eq S hS] at hS0' ⊢
    have hSP : S = P := by
      by_contra hSP
      rw [if_neg hSP] at hS0'
      exact hS0' hS0
    rw [if_pos hSP, attach, if_neg (hSP ▸ hleaf), put_disk_of_ne (place_ne_idle hc hP hfree),
      mark_disk hc.layout hb hb]

theorem detach_prunes (hc : Consistent fs) (hP : P.Valid height) (hP0 : fs.walk P ≠ 0)
    (hbelow : P.Inner height → ∀ i, fs.walk (P.sub i) = 0) :
    Prunes fs (fs.detach P) (· = P) where
  sup := detach_sup
  ioResult := detach_ioResult
  attrs := sameMeta_of_inode_eq (put_sameMeta _) detach_inode
  gone S hS hSP := by
    subst hSP
    exact (detach_links hc hS hP0 hbelow).walk_self hS
  walk S hS hSP := (detach_links hc hP hP0 hbelow).walk_of_ne hS hSP
  leaf S hS hleaf _ hS0 := detach_disk_leaf hc hP hP0 hS hleaf hS0
  low a ha := by
    have hle := hc.layout.dataBitmap
    have hput := put_disk_bitmap (b := 0) (a := a) hc (linkable_of_ne_zero hP hP0) (by omega)
    rw [detach]
    split
    · exact hput fs
    · rw [hput, mark_disk_low hc.layout (hc.inData hP hP0) false ha]
  clear b hb hfree := by
    have hne : b ≠ fs.walk P := by
      rintro rfl
      rw [hc.inUse hP hP0] at hfree
      cases hfree
    rw [detach_inUse hc hP hP0 hb hne, hfree]
  freed S hS hleaf hSP _ := by
    subst hSP
    exact detach_inUse_self hc hP hP0 hleaf
  kept i hi hne := by
    have hput : ∀ g : FileSys, (g.put 0 (fs.place P)).bit fs.sup.dataBitmap i
        = g.bit fs.sup.dataBitmap i := by
      intro g
      have hdisk : ∀ c, c.toNat < fs.sup.data.toNat →
          (g.put 0 (fs.place P)).disk c = g.disk c :=
        fun c hlt => put_disk_bitmap hc (linkable_of_ne_zero hP hP0) hlt g
      -- the blocks may hold anything, the layout is that of `fs`
      have hbit : ({ fs with disk := (g.put 0 (fs.place P)).disk } : FileSys).bit
          fs.sup.dataBitmap i = ({ fs with disk := g.disk } : FileSys).bit fs.sup.dataBitmap i :=
        dataBit_congr (show Layout ({ fs with disk := g.disk } : FileSys).sup from hc.layout) hdisk hi
      exact hbit
    rw [detach]
    split
    · exact hput fs
    · rename_i hleaf
      have hi32 : i < 2 ^ 32 := by
        have hblocks := hc.layout.dataBitmap
        have hdata := hc.layout.data
        simp only [bmapBlocks, BITS_PER_BLOCK, FS_BLKSIZ] at hi hblocks
        omega
      rw [hput]
      refine (fs.bit_putBit _ false (BitVec.isLt _) hi32).trans (if_neg ?_)
      exact (hne P hP hleaf rfl hP0).symm

/-! ## `delete_inode_data` -/

/-- `delete`, followed by zeroing the pointer, detaches the block at the end of `P` and all
that is below it. -/
def Deletes (delete : FileSys → ULong → FileSys) (P : Path) : Prop :=
  ∀ ⦃fs : FileSys⦄, Consistent fs → fs.walk P ≠ 0 →
    Consistent ((delete fs (fs.walk P)).put 0 (fs.place P)) ∧
      Prunes fs ((delete fs (fs.walk P)).put 0 (fs.place P)) (·.Passes P)

/-- A leaf is deleted by freeing its block. -/
theorem deletes_freeBlock (hP : P.Valid height) (hleaf : ¬P.Inner height) :
    Deletes freeBlock P := by
  intro fs hc hP0
  have hdetach : (fs.freeBlock (fs.walk P)).put 0 (fs.place P) = fs.detach P := by
    rw [freeBlock_spec (hc.inUse hP hP0), detach, if_neg hleaf]
  have hbelow : P.Inner height → ∀ i, fs.walk (P.sub i) = 0 := fun h => absurd h hleaf
  rw [hdetach]
  refine ⟨hc.detach hP hP0 hbelow, (detach_prunes hc hP hP0 hbelow).congr fun Q hQ => ?_⟩
  constructor
  · rintro rfl
    exact Path.passes_self Q
  · intro h
    by_contra hne
    exact hleaf (h.inner hQ fun heq => hne heq.symm)

/-- One pointer of an indirect block. -/
theorem deletePtr_spec {delete : FileSys → ULong → FileSys} {blk : ULong} {i : Fin PTRS_PER_INDIRECT}
    (hdel : Deletes delete (P.sub i)) (hc : Consistent fs) (hwalk : fs.walk P = blk)
    (hblk : blk ≠ 0) :
    Consistent (deletePtr delete blk fs i) ∧
      Prunes fs (deletePtr delete blk fs i) (·.Passes (P.sub i)) := by
  have hptr : (fs.disk blk).word i = fs.walk (P.sub i) := by
    rw [← hwalk] at hblk ⊢
    exact (walk_sub_of_ne i hblk).symm
  by_cases h0 : (fs.disk blk).word i = 0
  · rw [deletePtr, if_neg (by rw [h0]; exact not_not.mpr rfl)]
    exact ⟨hc, Prunes.fail fs.errno fun Q _ hQ => walk_eq_zero_of_passes hQ (hptr.symm.trans h0)⟩
  · obtain ⟨hc₁, hprunes⟩ := hdel hc (hptr ▸ h0)
    rw [← hptr, place, hwalk] at hc₁ hprunes
    rw [deletePtr, if_pos h0]
    exact ⟨hc₁.fail _, hprunes.fail_right _⟩

/-- The loop over the pointers of one indirect block. -/
theorem deletePtrs_loop {delete : FileSys → ULong → FileSys} {blk : ULong} (hP : P.Inner height)
    (hdel : ∀ i, Deletes delete (P.sub i)) (hblk : blk ≠ 0) :
    ∀ (L : List (Fin PTRS_PER_INDIRECT)) (fs : FileSys), Consistent fs → fs.walk P = blk →
      Consistent (L.foldl (deletePtr delete blk) fs) ∧
        Prunes fs (L.foldl (deletePtr delete blk) fs) fun Q => ∃ i ∈ L, Q.Passes (P.sub i)
  | [], fs, hc, _ => ⟨hc, Prunes.fail fs.errno (by simp)⟩
  | i :: L, fs, hc, hwalk => by
    obtain ⟨hc₁, hfirst⟩ := deletePtr_spec (hdel i) hc hwalk hblk
    have hP' : ¬P.Passes (P.sub i) := fun h => (Path.passes_and_ne_iff.mpr ⟨i, h⟩).2 rfl
    obtain ⟨hc', hrest⟩ := deletePtrs_loop hP hdel hblk L _ hc₁
      ((hfirst.walk P hP.valid hP').trans hwalk)
    exact ⟨hc', (hfirst.trans hc hrest).congr fun Q _ => by simp⟩

/-- **`delete_indirect_blocks`** detaches all that is below its block. -/
theorem deletePtrs_spec {delete : FileSys → ULong → FileSys} (hP : P.Inner height)
    (hdel : ∀ i, Deletes delete (P.sub i)) (hc : Consistent fs) (hP0 : fs.walk P ≠ 0) :
    Consistent (deletePtrs delete fs (fs.walk P)) ∧
      Prunes fs (deletePtrs delete fs (fs.walk P)) fun Q => Q.Passes P ∧ Q ≠ P := by
  obtain ⟨hc', hprunes⟩ := deletePtrs_loop hP hdel hP0 (List.finRange _) fs hc rfl
  exact ⟨hc', hprunes.congr fun Q _ => by simp [Path.passes_and_ne_iff]⟩

/-- What is detached below a path does not move the pointer at its end. -/
theorem Prunes.place_eq (h : Prunes fs fs' fun Q => Q.Passes P ∧ Q ≠ P) (hP : P.Valid height) :
    fs'.place P = fs.place P := by
  cases P with
  | root r => rfl
  | sub P' i =>
    have hnot : ¬(P'.Passes (P'.sub i) ∧ P' ≠ P'.sub i) := fun h =>
      (Path.passes_and_ne_iff.mpr ⟨i, h.1⟩).2 rfl
    rw [place, place, h.walk P' (Path.Inner.valid hP) hnot]

theorem deletes_deletePtrs {delete : FileSys → ULong → FileSys} (hP : P.Inner height)
    (hdel : ∀ i, Deletes delete (P.sub i)) : Deletes (deletePtrs delete) P := by
  intro fs hc hP0
  obtain ⟨hc', hprunes⟩ := deletePtrs_spec hP hdel hc hP0
  have hwalk := hprunes.walk P hP.valid fun h => h.2 rfl
  have hP0' : (deletePtrs delete fs (fs.walk P)).walk P ≠ 0 := by rwa [hwalk]
  have hbelow : P.Inner height → ∀ i, (deletePtrs delete fs (fs.walk P)).walk (P.sub i) = 0 :=
    fun _ i => hprunes.gone _ hP (Path.passes_and_ne_iff.mpr ⟨i, Path.passes_self _⟩)
  have hdetach : (deletePtrs delete fs (fs.walk P)).put 0 (fs.place P)
      = (deletePtrs delete fs (fs.walk P)).detach P := by
    rw [detach, if_pos hP, hprunes.place_eq hP.valid]
  rw [hdetach]
  refine ⟨hc'.detach hP.valid hP0' hbelow,
    (hprunes.trans hc (detach_prunes hc' hP.valid hP0' hbelow)).congr fun Q _ => ?_⟩
  constructor
  · rintro (h | rfl)
    · exact h.1
    · exact Path.passes_self Q
  · intro h
    by_cases heq : Q = P
    · exact .inr heq
    · exact .inl ⟨h, heq⟩

theorem deletes_deleteIndirectBlocks (depth : ℕ) (hP : height P.base = P.depth + (depth + 1)) :
    Deletes (deleteIndirectBlocks depth) P := by
  induction depth generalizing P with
  | zero =>
    apply deletes_deletePtrs (show P.depth < height P.base by omega)
    intro i
    have hin : P.Inner height := show P.depth < height P.base by omega
    apply deletes_freeBlock (Path.valid_sub.mpr hin)
    show ¬P.depth + 1 < height P.base
    omega
  | succ depth ih =>
    apply deletes_deletePtrs (show P.depth < height P.base by omega)
    intro i
    apply ih
    show height P.base = P.depth + 1 + (depth + 1)
    omega

/-- One pointer of an inode. -/
theorem deleteInodePtr_spec {delete : FileSys → ULong → FileSys} {inum : ULong} {k : Fin NR_PTRS}
    (hdel : Deletes delete (.root (inum, k))) (hc : Consistent fs)
    (hn : inum.toNat < fs.sup.numInodes.toNat) :
    Consistent (deleteInodePtr delete inum fs k) ∧
      Prunes fs (deleteInodePtr delete inum fs k) (·.Passes (.root (inum, k))) := by
  have hwalk : fs.walk (.root (inum, k)) = (fs.inode inum).data k := if_pos hn
  rw [deleteInodePtr]
  by_cases h0 : (fs.inode inum).data k = 0
  · simp only [h0, ne_eq, not_true_eq_false, if_false]
    exact ⟨hc, Prunes.fail fs.errno fun Q _ hQ => walk_eq_zero_of_passes hQ (hwalk.trans h0)⟩
  · simp only [ne_eq, h0, not_false_eq_true, if_true]
    have hspec := hdel hc (by rwa [hwalk])
    rwa [hwalk] at hspec

theorem deleteInodePtrs_direct {inum : ULong} :
    ∀ (L : List (Fin NR_PTRS)) (fs : FileSys), (∀ k ∈ L, k.val < SINGLE_INDIRECT) →
      Consistent fs → inum.toNat < fs.sup.numInodes.toNat →
      Consistent (L.foldl (deleteInodePtr freeBlock inum) fs) ∧
        Prunes fs (L.foldl (deleteInodePtr freeBlock inum) fs)
          fun Q => ∃ k ∈ L, Q.Passes (.root (inum, k))
  | [], fs, _, hc, _ => ⟨hc, Prunes.fail fs.errno (by simp)⟩
  | k :: L, fs, hL, hc, hn => by
    have hk : k.val < 9 := hL k (List.mem_cons_self ..)
    have hleaf : ¬(Path.root (inum, k) : Path).Inner height := by
      show ¬0 < k.val - 8
      omega
    obtain ⟨hc₁, hfirst⟩ := deleteInodePtr_spec (deletes_freeBlock (by simp) hleaf) hc hn
    obtain ⟨hc', hrest⟩ := deleteInodePtrs_direct L _ (fun j hj => hL j (List.mem_cons_of_mem _ hj))
      hc₁ (by rwa [hfirst.sup])
    exact ⟨hc', (hfirst.trans hc hrest).congr fun Q _ => by simp⟩

/-- All block pointers of the inode. -/
theorem deleteInodePtrs_spec {inum : ULong} (hc : Consistent fs)
    (hn : inum.toNat < fs.sup.numInodes.toNat) :
    Consistent (fs.deleteInodePtrs inum) ∧
      Prunes fs (fs.deleteInodePtrs inum) fun Q => Q.base.1 = inum := by
  obtain ⟨hc₁, h₁⟩ := deleteInodePtrs_direct [0, 1, 2, 3, 4, 5, 6, 7, 8] fs
    (by decide) hc hn
  obtain ⟨hc₂, h₂⟩ := deleteInodePtr_spec (k := 9)
    (deletes_deleteIndirectBlocks 0 rfl) hc₁ (by rwa [h₁.sup])
  have hsup₂ := h₂.sup.trans h₁.sup
  obtain ⟨hc₃, h₃⟩ := deleteInodePtr_spec (k := 10)
    (deletes_deleteIndirectBlocks 1 rfl) hc₂ (by rwa [hsup₂])
  have hsup₃ := h₃.sup.trans hsup₂
  obtain ⟨hc₄, h₄⟩ := deleteInodePtr_spec (k := 11)
    (deletes_deleteIndirectBlocks 2 rfl) hc₃ (by rwa [hsup₃])
  refine ⟨hc₄, (((h₁.trans hc h₂).trans hc h₃).trans hc h₄).congr fun Q _ => ?_⟩
  constructor
  · rintro (((⟨k, -, h⟩ | h) | h) | h) <;> exact congrArg Prod.fst h.base_eq
  · intro h
    have hroot : Q.Passes (.root (inum, Q.base.2)) := by
      have hpass := Path.passes_base Q
      rwa [show Q.base = (inum, Q.base.2) from Prod.ext h rfl] at hpass
    have hptrs : ∀ k : Fin NR_PTRS,
        k ∈ ([0, 1, 2, 3, 4, 5, 6, 7, 8] : List (Fin NR_PTRS)) ∨ k = 9 ∨ k = 10 ∨ k = 11 := by
      decide
    rcases hptrs Q.base.2 with hk | hk | hk | hk
    · exact .inl (.inl (.inl ⟨_, hk, hroot⟩))
    · exact .inl (.inl (.inr (hk ▸ hroot)))
    · exact .inl (.inr (hk ▸ hroot))
    · exact .inr (hk ▸ hroot)

/-! ## Changes that leave the block pointers alone -/

theorem forest_setInode {n : ULong} {i : Inode} (h : i.data = (fs.inode n).data) :
    (fs.setInode n i).forest = fs.forest := by
  have hdata : ∀ m, ((fs.setInode n i).inode m).data = (fs.inode m).data := by
    intro m
    by_cases hm : m = n
    · subst hm
      rw [setInode_inode_self, h]
    · rw [fs.setInode_inode_of_ne i hm]
  simp only [forest, setInode_sup, setInode_disk, hdata]

@[simp] theorem walk_setInode {n : ULong} {i : Inode} (h : i.data = (fs.inode n).data) (P : Path) :
    (fs.setInode n i).walk P = fs.walk P := by
  rw [walk, walk, forest_setInode h]

theorem Consistent.setInode (hc : Consistent fs) {n : ULong} {i : Inode}
    (h : i.data = (fs.inode n).data) : Consistent (fs.setInode n i) where
  layout := hc.layout
  padded := hc.padded
  exclusive := by
    rw [forest_setInode h]
    exact hc.exclusive
  owned P hP hP0 := by
    rw [walk_setInode h] at hP0 ⊢
    exact hc.owned P hP hP0

/-- **`delete_inode_data`** keeps a file system consistent. -/
theorem Consistent.deleteInodeData (hc : Consistent fs) {inum : ULong} (now : ULong)
    (hn : inum.toNat < fs.sup.numInodes.toNat) : Consistent (fs.deleteInodeData inum now) := by
  have hc' := (deleteInodePtrs_spec hc hn).1
  rw [FileSys.deleteInodeData]
  generalize fs.deleteInodePtrs inum = fs' at hc' ⊢
  exact hc'.setInode rfl

theorem deleteInodeData_sup (hc : Consistent fs) {inum now : ULong}
    (hn : inum.toNat < fs.sup.numInodes.toNat) : (fs.deleteInodeData inum now).sup = fs.sup := by
  rw [deleteInodeData, setInode_sup]
  exact (deleteInodePtrs_spec hc hn).2.sup

/-- What `delete_inode_data` does to the inode itself. -/
theorem deleteInodeData_inode (hc : Consistent fs) {inum : ULong} (now : ULong)
    (hn : inum.toNat < fs.sup.numInodes.toNat) (n : ULong) :
    { (fs.deleteInodeData inum now).inode n with data := (fs.inode n).data } =
      if n = inum then { fs.inode n with size := 0, modtime := now } else fs.inode n := by
  have hattrs := (deleteInodePtrs_spec hc hn).2.attrs n
  rw [deleteInodeData]
  generalize fs.deleteInodePtrs inum = fs' at hattrs ⊢
  by_cases h : n = inum
  · subst h
    rw [setInode_inode_self, if_pos rfl, ← hattrs]
  · rw [setInode_inode_of_ne _ _ h, if_neg h, hattrs]

/-- All blocks of the inode have been detached. -/
structure Releases (fs fs' : FileSys) (inum : ULong) : Prop where
  consistent : Consistent fs'
  sup : fs'.sup = fs.sup
  ioResult : fs'.ioResult = fs.ioResult
  walk : ∀ Q : Path, Q.Valid height → fs'.walk Q = if Q.base.1 = inum then 0 else fs.walk Q
  leaf : ∀ Q : Path, Q.Valid height → ¬Q.Inner height → Q.base.1 ≠ inum → fs.walk Q ≠ 0 →
    fs'.disk (fs.walk Q) = fs.disk (fs.walk Q)
  low : ∀ a, a.toNat < fs.sup.dataBitmap.toNat → fs'.disk a = fs.disk a
  clear : ∀ b, InData fs.sup b → fs.inUse b = false → fs'.inUse b = false
  freed : ∀ Q : Path, Q.Valid height → ¬Q.Inner height → Q.base.1 = inum → fs.walk Q ≠ 0 →
    fs'.inUse (fs.walk Q) = false

/-- **`delete_inode_data`** detaches all blocks of the inode. -/
theorem deleteInodeData_releases (hc : Consistent fs) {inum : ULong} (now : ULong)
    (hn : inum.toNat < fs.sup.numInodes.toNat) : Releases fs (fs.deleteInodeData inum now) inum := by
  have hc' := hc.deleteInodeData now hn
  have h := (deleteInodePtrs_spec hc hn).2
  rw [deleteInodeData] at hc' ⊢
  generalize fs.deleteInodePtrs inum = fs₁ at h hc' ⊢
  refine ⟨hc', h.sup, h.ioResult, ?_, h.leaf, h.low, h.clear, h.freed⟩
  intro Q hQ
  have hwalk : (fs₁.setInode inum { fs₁.inode inum with size := 0, modtime := now }).walk Q
      = fs₁.walk Q := by
    apply walk_setInode
    rfl
  rw [hwalk]
  split
  · rename_i hbase
    exact h.gone Q hQ hbase
  · rename_i hbase
    exact h.walk Q hQ hbase

end

end Vmm386.Fs.FileSys
