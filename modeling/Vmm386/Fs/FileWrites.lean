import Vmm386.Fs.FileContents

/-!
# Writing to files

`Writes` says what a write does to a file system, in terms of the bytes of files. It holds of
the write of a part of one block, and composes along the loop of `write_file`.
-/

namespace Vmm386.Fs.FileSys

open Forest

section

variable {fs fs₁ fs' fs'' : FileSys} {inum pos a b : ULong} {P Q : Path} {k n m off lo mid hi : ℕ}
  {val : ℕ → UChar} {blk : Blk}

/-! ## Storing in a data block -/

theorem walk_storeLeaf (hc : Consistent fs) (hP : P.Valid height) (hleaf : ¬P.Inner height)
    (blk : Blk) : ∀ Q : Path, Q.Valid height → (fs.store (fs.walk P) blk).walk Q = fs.walk Q := by
  apply walk_congr
  · intro r
    rfl
  · intro Q hQ hQ0 i
    have hne : fs.walk Q ≠ fs.walk P := by
      intro heq
      apply hleaf
      rw [← hc.eq_of_walk_eq hQ.valid hP hQ0 heq]
      exact hQ
    show ((fs.store (fs.walk P) blk).disk (fs.walk Q)).word i = _
    rw [store_disk_of_ne _ _ hne]
    rfl

theorem disk_storeData (ha : InData fs.sup a) (blk : Blk) {c : ULong}
    (hlt : c.toNat < fs.sup.data.toNat) : (fs.store a blk).disk c = fs.disk c := by
  apply store_disk_of_ne
  rintro rfl
  have hle := ha.1
  omega

theorem inUse_storeData (hL : Layout fs.sup) (ha : InData fs.sup a) (blk : Blk)
    (hb : InData fs.sup b) : (fs.store a blk).inUse b = fs.inUse b :=
  inUse_congr hL rfl (fun _ hlt => disk_storeData ha blk hlt) hb

theorem Consistent.storeLeaf (hc : Consistent fs) (hP : P.Valid height) (hleaf : ¬P.Inner height)
    (hP0 : fs.walk P ≠ 0) (blk : Blk) : Consistent (fs.store (fs.walk P) blk) := by
  have hwalk := walk_storeLeaf hc hP hleaf blk
  have hdata := hc.inData hP hP0
  refine ⟨hc.layout, ?_, ?_, ?_⟩
  · exact hc.padded.congr hc.layout rfl fun _ hlt => disk_storeData hdata blk hlt
  · intro Q S hQ hS hne heq
    change (fs.store (fs.walk P) blk).walk Q ≠ 0 at hne
    change (fs.store (fs.walk P) blk).walk Q = (fs.store (fs.walk P) blk).walk S at heq
    rw [hwalk Q hQ] at hne heq
    rw [hwalk S hS] at heq
    exact hc.eq_of_walk_eq hQ hS hne heq
  · intro Q hQ hne
    rw [hwalk Q hQ] at hne ⊢
    have hin := hc.inData hQ hne
    rw [inUse_storeData hc.layout hdata blk hin]
    exact ⟨hin, hc.inUse hQ hne⟩

/-! ## What a write does -/

/-- The bytes of the inode from `lo` to `hi` have been overwritten with those of `val`. Blocks
have been attached to the inode where there were none, and hold what was in them before, except
for what has been written. -/
structure Writes (fs fs' : FileSys) (inum : ULong) (lo hi : ℕ) (val : ℕ → UChar) : Prop where
  consistent : Consistent fs'
  sup : fs'.sup = fs.sup
  ioResult : fs'.ioResult = fs.ioResult
  attrs : SameMeta fs fs'
  walk : ∀ Q : Path, Q.Valid height → fs'.walk Q = fs.walk Q ∨ (Q.base.1 = inum ∧ fs.walk Q = 0)
  low : ∀ a, a.toNat < fs.sup.dataBitmap.toNat → fs'.disk a = fs.disk a
  marked : ∀ b, InData fs.sup b → fs.inUse b = true → fs'.inUse b = true
  fresh : ∀ Q : Path, Q.Valid height → fs.walk Q = 0 → fs'.walk Q ≠ 0 →
    fs.inUse (fs'.walk Q) = false
  idle : ∀ b, InData fs.sup b → fs'.inUse b = false → fs'.disk b = fs.disk b
  others : ∀ Q : Path, Q.Valid height → ¬Q.Inner height → Q.base.1 ≠ inum → fs.walk Q ≠ 0 →
    fs'.disk (fs.walk Q) = fs.disk (fs.walk Q)
  written : ∀ off, lo ≤ off → off < hi → off < 2 ^ 32 →
    fs'.dataBlock inum (off / FS_BLKSIZ) ≠ 0 ∧ fs'.byteAt inum off = val off
  kept : ∀ off, ¬(lo ≤ off ∧ off < hi) → off < 2 ^ 32 → fs.dataBlock inum (off / FS_BLKSIZ) ≠ 0 →
    fs'.byteAt inum off = fs.byteAt inum off
  stale : ∀ off, ¬(lo ≤ off ∧ off < hi) → off < 2 ^ 32 → fs.dataBlock inum (off / FS_BLKSIZ) = 0 →
    fs'.dataBlock inum (off / FS_BLKSIZ) ≠ 0 →
    fs'.byteAt inum off = (fs.disk (fs'.dataBlock inum (off / FS_BLKSIZ))).byte (off % FS_BLKSIZ)
  touched : ∀ k < MAX_FILE_BLOCKS, fs'.dataBlock inum k ≠ fs.dataBlock inum k →
    lo < hi ∧ lo / FS_BLKSIZ ≤ k ∧ k * FS_BLKSIZ < hi

theorem valid_dataPath (inum : ULong) (n : ℕ) : (dataPath inum n).Valid height :=
  (dataPath_leaf inum n).1

namespace Writes

theorem walk_of_ne (h : Writes fs fs' inum lo hi val) (hQ : Q.Valid height) (h0 : fs.walk Q ≠ 0) :
    fs'.walk Q = fs.walk Q := by
  rcases h.walk Q hQ with h | ⟨-, h⟩
  · exact h
  · exact absurd h h0

theorem dataBlock_of_ne (h : Writes fs fs' inum lo hi val) {n : ULong}
    (h0 : fs.dataBlock n k ≠ 0) : fs'.dataBlock n k = fs.dataBlock n k :=
  h.walk_of_ne (valid_dataPath n k) h0

theorem trans (h : Writes fs fs' inum lo mid val) (h' : Writes fs' fs'' inum mid hi val)
    (hlo : lo ≤ mid) (hhi : mid ≤ hi) : Writes fs fs'' inum lo hi val where
  consistent := h'.consistent
  sup := h'.sup.trans h.sup
  ioResult := h'.ioResult.trans h.ioResult
  attrs := h.attrs.trans h'.attrs
  walk S hS := by
    rcases h.walk S hS with h1 | h1
    · rcases h'.walk S hS with h2 | ⟨hbase, h2⟩
      · exact .inl (h2.trans h1)
      · exact .inr ⟨hbase, h1 ▸ h2⟩
    · exact .inr h1
  low a ha := by rw [h'.low a (by rwa [h.sup]), h.low a ha]
  marked b hb hin := h'.marked b (by rwa [h.sup]) (h.marked b hb hin)
  fresh S hS h0 h0' := by
    by_cases h1 : fs'.walk S = 0
    · have hfree := h'.fresh S hS h1 h0'
      have hdata : InData fs.sup (fs''.walk S) := by
        have := h'.consistent.inData hS h0'
        rwa [h'.sup, h.sup] at this
      by_contra hin
      rw [h.marked _ hdata (by simpa using hin)] at hfree
      cases hfree
    · rw [h'.walk_of_ne hS h1]
      exact h.fresh S hS h0 h1
  idle b hb hfree := by
    have hmid : fs'.inUse b = false := by
      by_contra hin
      rw [h'.marked b (by rwa [h.sup]) (by simpa using hin)] at hfree
      cases hfree
    rw [h'.idle b (by rwa [h.sup]) hfree, h.idle b hb hmid]
  others S hS hleaf hbase h0 := by
    have hwalk := h.walk_of_ne hS h0
    rw [← hwalk, h'.others S hS hleaf hbase (by rwa [hwalk]), hwalk, h.others S hS hleaf hbase h0]
  written off h1 h2 hlt := by
    by_cases hmid : off < mid
    · obtain ⟨hne, hval⟩ := h.written off h1 hmid hlt
      refine ⟨by rwa [h'.dataBlock_of_ne hne], ?_⟩
      rw [h'.kept off (by omega) hlt hne, hval]
    · exact h'.written off (by omega) h2 hlt
  kept off hout hlt h0 := by
    have hne : fs'.dataBlock inum (off / FS_BLKSIZ) ≠ 0 := by rwa [h.dataBlock_of_ne h0]
    rw [h'.kept off (by omega) hlt hne, h.kept off (by omega) hlt h0]
  stale off hout hlt h0 h0' := by
    by_cases h1 : fs'.dataBlock inum (off / FS_BLKSIZ) = 0
    · -- attached by the second write, so idle during the first
      have hvalid := valid_dataPath inum (off / FS_BLKSIZ)
      have hdata : InData fs.sup (fs''.dataBlock inum (off / FS_BLKSIZ)) := by
        have := h'.consistent.inData hvalid h0'
        rwa [h'.sup, h.sup] at this
      rw [h'.stale off (by omega) hlt h1 h0', h.idle _ hdata (h'.fresh _ hvalid h1 h0')]
    · rw [h'.kept off (by omega) hlt h1, h'.dataBlock_of_ne h1, h.stale off (by omega) hlt h0 h1]
  touched k hk hne := by
    by_cases heq : fs'.dataBlock inum k = fs.dataBlock inum k
    · obtain ⟨h1, h2, h3⟩ := h'.touched k hk (by rwa [heq])
      exact ⟨by omega, Nat.le_trans (Nat.div_le_div_right hlo) h2, h3⟩
    · obtain ⟨h1, h2, h3⟩ := h.touched k hk heq
      exact ⟨by omega, h2, by omega⟩

theorem refl (hc : Consistent fs) (inum : ULong) (lo : ℕ) (val : ℕ → UChar) :
    Writes fs fs inum lo lo val where
  consistent := hc
  sup := rfl
  ioResult := rfl
  attrs := .refl fs
  walk _ _ := .inl rfl
  low _ _ := rfl
  marked _ _ h := h
  fresh _ _ h h' := absurd h h'
  idle _ _ _ := rfl
  others _ _ _ _ _ := rfl
  written off h1 h2 := absurd h2 (by omega)
  kept _ _ _ _ := rfl
  stale _ _ _ h h' := absurd h h'
  touched _ _ h := absurd rfl h

theorem congr {val' : ℕ → UChar} (h : Writes fs fs' inum lo hi val)
    (hval : ∀ off, lo ≤ off → off < hi → val off = val' off) : Writes fs fs' inum lo hi val' where
  __ := h
  written off h1 h2 hlt := hval off h1 h2 ▸ h.written off h1 h2 hlt

/-- `ERRNO` does not matter. -/
theorem fail (h : Writes fs fs' inum lo hi val) (e : ℤ) : Writes fs (fs'.fail e) inum lo hi val :=
  ⟨h.consistent.fail e, h.sup, h.ioResult, h.attrs, h.walk, h.low, h.marked, h.fresh, h.idle, h.others,
    h.written, h.kept, h.stale, h.touched⟩

end Writes

/-! ## One block -/

theorem in_block_iff {o : ℕ} (hle : o + n ≤ FS_BLKSIZ) :
    (k * FS_BLKSIZ + o ≤ off ∧ off < k * FS_BLKSIZ + o + n) ↔
      off / FS_BLKSIZ = k ∧ o ≤ off % FS_BLKSIZ ∧ off % FS_BLKSIZ < o + n := by
  simp only [FS_BLKSIZ] at hle ⊢
  omega

theorem dataBlock_storeData (hc : Consistent fs) (inum : ULong) (k : ℕ) (blk : Blk) (inum' : ULong)
    (n : ℕ) :
    (fs.store (fs.dataBlock inum k) blk).dataBlock inum' n = fs.dataBlock inum' n :=
  walk_storeLeaf hc (valid_dataPath inum k) (dataPath_leaf inum k).2 blk _ (valid_dataPath inum' n)

/-- Only the bytes of the one block change. -/
theorem byteAt_storeData (hc : Consistent fs) (hk : k < MAX_FILE_BLOCKS)
    (hk0 : fs.dataBlock inum k ≠ 0) (blk : Blk) (inum' : ULong) (off : ℕ) (hoff : off < 2 ^ 32) :
    (fs.store (fs.dataBlock inum k) blk).byteAt inum' off =
      if inum' = inum ∧ off / FS_BLKSIZ = k then blk.byte (off % FS_BLKSIZ)
      else fs.byteAt inum' off := by
  have hlt := div_lt_max hoff
  rw [byteAt, dataBlock_storeData hc inum k blk]
  by_cases h : inum' = inum ∧ off / FS_BLKSIZ = k
  · obtain ⟨rfl, rfl⟩ := h
    simp only [if_neg hk0, store_disk_self, and_self, if_true]
  · rw [if_neg h, byteAt]
    by_cases h0 : fs.dataBlock inum' (off / FS_BLKSIZ) = 0
    · simp only [if_pos h0]
    · have hne : fs.dataBlock inum' (off / FS_BLKSIZ) ≠ fs.dataBlock inum k := by
        intro heq
        apply h
        exact dataPath_injective hlt hk
          (hc.eq_of_walk_eq (valid_dataPath _ _) (valid_dataPath _ _) h0 heq)
      simp only [if_neg h0, store_disk_of_ne _ _ hne]

namespace Grows

theorem base_eq (h : Grows fs fs₁ (dataPath inum k)) (hQ : Q.Valid height) :
    fs₁.walk Q = fs.walk Q ∨ (Q.base.1 = inum ∧ fs.walk Q = 0) := by
  apply (h.walk Q hQ).imp_right
  rintro ⟨hpass, h0⟩
  exact ⟨by rw [← hpass.base_eq, base_dataPath], h0⟩

/-- The other data blocks are left alone. -/
theorem dataBlock_of_ne (h : Grows fs fs₁ (dataPath inum k)) (hk : k < MAX_FILE_BLOCKS)
    (hn : n < MAX_FILE_BLOCKS) (hne : n ≠ k) : fs₁.dataBlock inum n = fs.dataBlock inum n := by
  rcases h.walk (dataPath inum n) (valid_dataPath inum n) with heq | ⟨hpass, -⟩
  · exact heq
  · exfalso
    have heq : dataPath inum n = dataPath inum k := by
      by_contra hno
      exact (dataPath_leaf inum n).2 (hpass.inner (valid_dataPath inum k) hno)
    exact hne (dataPath_injective hn hk heq).2

theorem byteAt_of_ne (h : Grows fs fs₁ (dataPath inum k)) (h0 : fs.dataBlock inum (off / FS_BLKSIZ) ≠ 0) :
    fs₁.byteAt inum off = fs.byteAt inum off := by
  have hvalid := valid_dataPath inum (off / FS_BLKSIZ)
  have hblock : fs₁.dataBlock inum (off / FS_BLKSIZ) = fs.dataBlock inum (off / FS_BLKSIZ) :=
    h.walk_of_ne hvalid h0
  have hdisk := h.leaf _ hvalid (dataPath_leaf inum (off / FS_BLKSIZ)).2 h0
  rw [byteAt, byteAt, hblock]
  simp only [if_neg h0]
  exact congrArg (Blk.byte · _) hdisk

/-- A write that does not get to its data block. -/
theorem writes_none (h : Grows fs fs₁ (dataPath inum k)) (hc₁ : Consistent fs₁)
    (hk : k < MAX_FILE_BLOCKS) (hk0 : fs₁.dataBlock inum k = 0) (lo : ℕ) (val : ℕ → UChar) :
    Writes fs fs₁ inum lo lo val := by
  have hblock : ∀ n < MAX_FILE_BLOCKS, fs₁.dataBlock inum n = fs.dataBlock inum n := by
    intro n hn
    by_cases hnk : n = k
    · rcases h.walk (dataPath inum k) (valid_dataPath inum k) with heq | ⟨-, h0⟩
      · exact hnk ▸ heq
      · rw [hnk, hk0]
        exact h0.symm
    · exact h.dataBlock_of_ne hk hn hnk
  refine ⟨hc₁, h.sup, h.ioResult, h.attrs, fun Q hQ => h.base_eq hQ, h.low, h.marked, h.fresh, h.idle,
    fun Q hQ hleaf _ h0 => h.leaf Q hQ hleaf h0, ?_, ?_, ?_, ?_⟩
  · intro off h1 h2
    omega
  · intro off _ _ h0
    exact h.byteAt_of_ne h0
  · intro off _ hlt h0 h0'
    exact absurd (hblock _ (div_lt_max hlt) ▸ h0) h0'
  · intro n hn hne
    exact absurd (hblock n hn) hne

/-- A write of some bytes of one block. -/
theorem writes_one (h : Grows fs fs₁ (dataPath inum k)) (hc₁ : Consistent fs₁)
    (hk : k < MAX_FILE_BLOCKS) (hk0 : fs₁.dataBlock inum k ≠ 0) {o : ℕ} (hn : 0 < n)
    (hle : o + n ≤ FS_BLKSIZ)
    (hblk : ∀ j < FS_BLKSIZ, blk.byte j = if o ≤ j ∧ j < o + n then val (k * FS_BLKSIZ + j)
      else (fs₁.disk (fs₁.dataBlock inum k)).byte j) :
    Writes fs (fs₁.store (fs₁.dataBlock inum k) blk) inum (k * FS_BLKSIZ + o)
      (k * FS_BLKSIZ + o + n) val := by
  have hvalid := valid_dataPath inum k
  have hleaf := (dataPath_leaf inum k).2
  have hdata : InData fs₁.sup (fs₁.dataBlock inum k) := hc₁.inData hvalid hk0
  have hsup := h.sup
  have hc' : Consistent (fs₁.store (fs₁.dataBlock inum k) blk) := hc₁.storeLeaf hvalid hleaf hk0 blk
  have hsup' : (fs₁.store (fs₁.dataBlock inum k) blk).sup = fs.sup := hsup
  have hio : (fs₁.store (fs₁.dataBlock inum k) blk).ioResult = fs.ioResult := h.ioResult
  have hattrs : SameMeta fs (fs₁.store (fs₁.dataBlock inum k) blk) := h.attrs
  have hwalk : ∀ Q : Path, Q.Valid height →
      (fs₁.store (fs₁.dataBlock inum k) blk).walk Q = fs₁.walk Q :=
    walk_storeLeaf hc₁ hvalid hleaf blk
  have hblock := dataBlock_storeData hc₁ inum k blk inum
  have hbyte := byteAt_storeData hc₁ hk hk0 blk inum
  have hstore : ∀ c, c ≠ fs₁.dataBlock inum k →
      (fs₁.store (fs₁.dataBlock inum k) blk).disk c = fs₁.disk c :=
    fun c hne => store_disk_of_ne _ _ hne
  have hin : ∀ b, InData fs.sup b →
      (fs₁.store (fs₁.dataBlock inum k) blk).inUse b = fs₁.inUse b :=
    fun b hb => inUse_storeData hc₁.layout hdata blk (by rwa [hsup])
  have hlow : ∀ c : ULong, c.toNat < fs₁.sup.data.toNat →
      (fs₁.store (fs₁.dataBlock inum k) blk).disk c = fs₁.disk c :=
    fun c hlt => disk_storeData hdata blk hlt
  have hmod : ∀ off, off % FS_BLKSIZ < FS_BLKSIZ := fun off => Nat.mod_lt off (by decide)
  generalize fs₁.store (fs₁.dataBlock inum k) blk = fs' at *
  refine ⟨hc', hsup', hio, hattrs, ?_, ?_, ?_, ?_, ?_, ?_, ?_, ?_, ?_, ?_⟩
  · intro Q hQ
    rw [hwalk Q hQ]
    exact h.base_eq hQ
  · intro a ha
    have hbitmap := hc₁.layout.dataBitmap
    rw [← h.low a ha, hlow]
    rw [hsup] at hbitmap ⊢
    omega
  · intro b hb hb'
    rw [hin b hb, h.marked b hb hb']
  · intro Q hQ h0 h0'
    rw [hwalk Q hQ] at h0' ⊢
    exact h.fresh Q hQ h0 h0'
  · intro b hb hfree
    rw [hin b hb] at hfree
    have hne : b ≠ fs₁.dataBlock inum k := by
      rintro rfl
      rw [dataBlock, hc₁.inUse hvalid hk0] at hfree
      cases hfree
    rw [hstore b hne, h.idle b hb hfree]
  · intro Q hQ hQleaf hbase h0
    have hwalkQ := h.walk_of_ne hQ h0
    have hne : fs.walk Q ≠ fs₁.dataBlock inum k := by
      intro heq
      rw [← hwalkQ] at h0 heq
      have hQk := hc₁.eq_of_walk_eq hQ hvalid h0 heq
      rw [hQk, base_dataPath] at hbase
      exact hbase rfl
    rw [hstore _ hne, h.leaf Q hQ hQleaf h0]
  · intro off h1 h2 hlt
    obtain ⟨hdiv, h1', h2'⟩ := (in_block_iff hle).mp ⟨h1, h2⟩
    have hoff : k * FS_BLKSIZ + off % FS_BLKSIZ = off := by
      rw [← hdiv, Nat.div_add_mod']
    rw [hblock, hbyte off hlt, if_pos ⟨rfl, hdiv⟩, hblk _ (hmod off), if_pos ⟨h1', h2'⟩, hoff, hdiv]
    exact ⟨hk0, rfl⟩
  · intro off hout hlt h0
    rw [in_block_iff hle] at hout
    rw [hbyte off hlt, ← h.byteAt_of_ne h0]
    by_cases hdiv : off / FS_BLKSIZ = k
    · rw [if_pos ⟨rfl, hdiv⟩, hblk _ (hmod off), if_neg fun hno => hout ⟨hdiv, hno⟩, byteAt, hdiv]
      simp only [if_neg hk0]
    · rw [if_neg fun hno => hdiv hno.2]
  · intro off hout hlt h0 h0'
    rw [in_block_iff hle] at hout
    rw [hblock] at h0'
    have hdiv : off / FS_BLKSIZ = k := by
      by_contra hne
      exact h0' ((h.dataBlock_of_ne hk (div_lt_max hlt) hne).trans h0)
    rw [hdiv] at h0
    rw [hbyte off hlt, if_pos ⟨rfl, hdiv⟩, hblk _ (hmod off), if_neg fun hno => hout ⟨hdiv, hno⟩,
      hblock, hdiv]
    exact congrArg (Blk.byte · _) (h.stale _ hvalid hleaf h0 hk0)
  · intro j hj hne
    rw [hblock] at hne
    have hjk : j = k := by
      by_contra hjk
      exact hne (h.dataBlock_of_ne hk hj hjk)
    subst hjk
    refine ⟨by omega, ?_, by omega⟩
    rw [Nat.mul_comm, Nat.mul_add_div (by decide), Nat.div_eq_of_lt (by omega), Nat.add_zero]

end Grows

/-! ## `write_file` -/

/-- With `create`, `get_data_blkno` gets to the data block, or has used up all space. -/
theorem getDataBlkno_write (hc : Consistent fs) (hn : inum.toNat < fs.sup.numInodes.toNat)
    {blk : ULong} (h : blk.toNat < MAX_FILE_BLOCKS) :
    ∃ fs₁, fs.getDataBlkno noFaults inum blk true = (fs₁.dataBlock inum blk.toNat, fs₁) ∧
      Grows fs fs₁ (dataPath inum blk.toNat) ∧ Consistent fs₁ ∧
      (fs₁.dataBlock inum blk.toNat = 0 →
        fs₁.freeBlocks = [] ∧ (0 ≤ fs.ioResult → 0 ≤ fs₁.errno)) := by
  have hspec := getDataBlkno_spec noFaults true hc hn h
  generalize fs.getDataBlkno noFaults inum blk true = r at hspec
  cases hspec with
  | reached fs₁ hr => exact ⟨fs₁, rfl, hr.grows, hr.consistent, fun h0 => absurd h0 hr.ne_zero⟩
  | stuck fs₁ hs =>
    rcases hs.why with ⟨hcreate, -⟩ | ⟨Q, hQ, -, hat⟩
    · cases hcreate
    · cases hat with
      | full _ h0 _ hfree herrno =>
        have hblock : fs₁.dataBlock inum blk.toNat = 0 := walk_eq_zero_of_passes hQ h0
        exact ⟨fs₁, by rw [hblock], hs.grows, hs.consistent, fun _ => ⟨hfree, herrno⟩⟩
      | alloc _ _ _ hfault => exact absurd rfl hfault
      | bread _ hfault => exact absurd rfl hfault
  | dangling fs₁ hd => exact (not_dangling hd).elim

/-- Both ways of writing into a block. -/
def storeBytes (fs : FileSys) (blk : ULong) (off : ℕ) (data : List UChar) : FileSys :=
  if data.length = FS_BLKSIZ then fs.bwrite blk data else fs.writeBlk blk off data

theorem storeBytes_eq {data : List UChar} {o : ℕ} (hle : o + data.length ≤ FS_BLKSIZ) :
    ∃ blk e, fs.storeBytes b o data = (fs.store b blk).fail e ∧
      ∀ j < FS_BLKSIZ, blk.byte j = if o ≤ j ∧ j < o + data.length then data.getD (j - o) 0
        else (fs.disk b).byte j := by
  rw [storeBytes]
  by_cases hlen : data.length = FS_BLKSIZ
  · rw [if_pos hlen]
    refine ⟨_, _, rfl, ?_⟩
    intro j hj
    obtain rfl : o = 0 := by omega
    rw [Blk.byte_ofBytes hj, if_pos (by omega)]
    rfl
  · rw [if_neg hlen]
    refine ⟨_, _, rfl, ?_⟩
    intro j hj
    exact Blk.byte_memcpy hj

theorem Grows.writes_bytes (h : Grows fs fs₁ (dataPath inum k)) (hc₁ : Consistent fs₁)
    (hk : k < MAX_FILE_BLOCKS) (hk0 : fs₁.dataBlock inum k ≠ 0) {data : List UChar} {o : ℕ}
    (hpos : 0 < data.length) (hle : o + data.length ≤ FS_BLKSIZ) :
    Writes fs (fs₁.storeBytes (fs₁.dataBlock inum k) o data) inum (k * FS_BLKSIZ + o)
      (k * FS_BLKSIZ + o + data.length) (fun off => data.getD (off - (k * FS_BLKSIZ + o)) 0) := by
  obtain ⟨blk, e, heq, hbytes⟩ := storeBytes_eq (b := fs₁.dataBlock inum k) hle
  rw [heq]
  apply Writes.fail
  apply h.writes_one hc₁ hk hk0 hpos hle
  intro j hj
  rw [hbytes j hj, Nat.add_sub_add_left]

/-- The loop of `write_file` writes everything, or has used up all space. -/
theorem writeLoop_spec (hc : Consistent fs) (hn : inum.toNat < fs.sup.numInodes.toNat)
    {data : List UChar} (hlen : pos.toNat + data.length < 2 ^ 32) :
    ∃ actual ok fs', fs.writeLoop inum pos data = (actual, pos + BitVec.ofNat 32 actual, ok, fs') ∧
      Writes fs fs' inum pos.toNat (pos.toNat + actual) (fun off => data.getD (off - pos.toNat) 0) ∧
      actual ≤ data.length ∧ (ok = true → actual = data.length) ∧
      (ok = false → actual < data.length ∧ fs'.freeBlocks = [] ∧
        (actual = 0 ∨ (pos.toNat + actual) % FS_BLKSIZ = 0) ∧
        (0 ≤ fs.ioResult → 0 ≤ fs'.errno)) := by
  induction hm : data.length using Nat.strong_induction_on generalizing fs pos data with
  | _ m ih =>
    rw [writeLoop]
    by_cases hpos : 0 < data.length
    · have hthis := inOneBlk_pos pos hpos
      have hblk : inOneBlk pos data.length = min data.length (FS_BLKSIZ - pos.toNat % FS_BLKSIZ) := by
        rw [inOneBlk, posInBlk_eq]
      rw [dif_pos hpos]
      simp only
      generalize inOneBlk pos data.length = n at *
      obtain ⟨fs₁, hget, hgrows, hc₁, hfull⟩ := getDataBlkno_write hc hn (blkOfPos_lt pos)
      have hk := blkOfPos_lt pos
      rw [toNat_blkOfPos] at hget hgrows hfull hk
      rw [hget]
      simp only
      by_cases h0 : fs₁.dataBlock inum (pos.toNat / FS_BLKSIZ) = 0
      · rw [if_pos h0]
        refine ⟨0, false, fs₁, by simp, ?_, Nat.zero_le _, by simp, fun _ => ⟨by omega, (hfull h0).1, .inl rfl, (hfull h0).2⟩⟩
        exact hgrows.writes_none hc₁ hk h0 _ _
      · rw [if_neg h0]
        have htake : (data.take n).length = n := by
          rw [List.length_take]
          omega
        have hle : pos.toNat % FS_BLKSIZ + (data.take n).length ≤ FS_BLKSIZ := by
          have hlt := Nat.mod_lt pos.toNat (show 0 < FS_BLKSIZ by decide)
          omega
        have hstore : (if n = FS_BLKSIZ then
              fs₁.bwrite (fs₁.dataBlock inum (pos.toNat / FS_BLKSIZ)) (data.take n)
            else fs₁.writeBlk (fs₁.dataBlock inum (pos.toNat / FS_BLKSIZ)) (posInBlk pos)
              (data.take n)) =
            fs₁.storeBytes (fs₁.dataBlock inum (pos.toNat / FS_BLKSIZ)) (pos.toNat % FS_BLKSIZ)
              (data.take n) := by
          rw [storeBytes, htake, posInBlk_eq]
        have hone := hgrows.writes_bytes hc₁ hk h0 (by omega) hle
        rw [Nat.div_add_mod', htake] at hone
        rw [hstore]
        generalize fs₁.storeBytes (fs₁.dataBlock inum (pos.toNat / FS_BLKSIZ))
          (pos.toNat % FS_BLKSIZ) (data.take n) = fs₂ at *
        have hnext : (pos + BitVec.ofNat 32 n).toNat = pos.toNat + n := toNat_pos_add (by omega)
        obtain ⟨actual, ok, fs', hrest, hwrites, hactual, hok, hnok⟩ :=
          ih (data.length - n) (by omega) hone.consistent (by rwa [hone.sup])
            (by rw [hnext, List.length_drop]; omega) (List.length_drop ..)
        rw [hnext, Nat.add_assoc] at hwrites
        rw [hrest]
        refine ⟨n + actual, ok, fs', ?_, ?_, by omega, ?_, ?_⟩
        · rw [BitVec.ofNat_add, BitVec.add_assoc]
        · -- the two parts of the data, seen from the first position
          apply (hone.congr _).trans (hwrites.congr _) (by omega) (by omega)
          · intro off h1 h2
            rw [List.getD_eq_getElem?_getD, List.getD_eq_getElem?_getD, List.getElem?_take_of_lt (by omega)]
          · intro off h1 h2
            rw [List.getD_eq_getElem?_getD, List.getD_eq_getElem?_getD, List.getElem?_drop]
            congr 2
            omega
        · intro h
          have := hok h
          omega
        · intro h
          obtain ⟨hlt, hfree, hmod, herrno⟩ := hnok h
          refine ⟨by omega, hfree, .inr ?_, fun hio => herrno (hone.ioResult.symm ▸ hio)⟩
          rw [hnext] at hmod
          rcases hmod with rfl | hmod
          · -- this pass went up to the end of its block
            simp only [FS_BLKSIZ] at hblk ⊢
            omega
          · rwa [← Nat.add_assoc]
    · rw [dif_neg hpos]
      refine ⟨0, true, fs, by simp, .refl hc inum _ _, Nat.zero_le _, fun _ => by omega, by simp⟩

/-- **`write_file`** writes all of `data` at its position, or as much of it as there is space
for. -/
theorem writeFile_spec (hc : Consistent fs) {file : File}
    (hn : file.inum.toNat < fs.sup.numInodes.toNat) (hmode : file.mode &&& F_WRITE ≠ 0)
    (hio : 0 ≤ fs.ioResult) {data : List UChar} (hlen : file.pos.toNat + data.length < 2 ^ 32)
    (now : ULong) :
    ∃ ret fs₁, fs.writeFile data now file =
        (ret, { file with pos := file.pos + BitVec.ofNat 32 ret.toNat },
          fs₁.change file.inum
            (.write (file.pos + BitVec.ofNat 32 ret.toNat) (decide (ret > 0)) now)) ∧
      Writes fs fs₁ file.inum file.pos.toNat (file.pos.toNat + ret.toNat)
        (fun off => data.getD (off - file.pos.toNat) 0) ∧
      ret.toNat ≤ data.length ∧ (ret = data.length ∨ fs₁.freeBlocks = []) ∧
      (ret.toNat = data.length ∨ ret.toNat = 0 ∨
        (file.pos.toNat + ret.toNat) % FS_BLKSIZ = 0) := by
  obtain ⟨actual, ok, fs₁, hloop, hwrites, hactual, hok, hnok⟩ := writeLoop_spec hc hn hlen
  have hret : ∃ ret : ℤ, (if ok ∨ 0 < actual then (actual : ℤ) else -fs₁.errno) = ret ∧
      ret.toNat = actual ∧ (ret = data.length ∨ fs₁.freeBlocks = []) ∧
      (actual = data.length ∨ actual = 0 ∨ (file.pos.toNat + actual) % FS_BLKSIZ = 0) := by
    refine ⟨_, rfl, ?_⟩
    cases ok with
    | true =>
      rw [if_pos (.inl rfl), hok rfl]
      exact ⟨Int.toNat_natCast _, .inl rfl, .inl rfl⟩
    | false =>
      obtain ⟨-, hfree, hmod, herrno⟩ := hnok rfl
      refine ⟨?_, .inr hfree, .inr hmod⟩
      have := herrno hio
      split <;> omega
  obtain ⟨ret, heq, htoNat, hwhy⟩ := hret
  refine ⟨ret, fs₁, ?_, htoNat ▸ hwrites, by omega, hwhy.1, htoNat ▸ hwhy.2⟩
  rw [writeFile, if_neg hmode, hloop, htoNat]
  simp only [heq]

end

end Vmm386.Fs.FileSys
