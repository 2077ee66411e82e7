import Vmm386.Fs.BlockFetch
import Vmm386.Fs.MkfsTheorems

/-!
# What the indirect blocks hold after `get_data_blkno`

A new indirect block is entered in its parent first, and cleared after a `bread`. If that
`bread` fails, the block stays where it is, with whatever it held before.
-/

namespace Vmm386.Fs.FileSys

open Forest

/-- The block has been allocated between the two states. -/
def Fresh (fs fs' : FileSys) (b : ULong) : Prop :=
  InData fs.sup b ∧ fs.inUse b = false ∧ fs'.inUse b = true

/-- Each place of each indirect block of the inode is null, holds what it held before, or the
number of a block that has been allocated since. -/
def Initialised (fs fs' : FileSys) (inum : ULong) : Prop :=
  ∀ (P : Path) (i : Fin PTRS_PER_INDIRECT), P.Inner height → P.base.1 = inum → fs'.walk P ≠ 0 →
    let ptr := (fs'.disk (fs'.walk P)).word i
    ptr = 0 ∨ ptr = fs.walk (P.sub i) ∨ Fresh fs fs' ptr

/-- The indirect block at the end of `Q` is missing. The way down gets that far, and allocates
the block, but cannot read it. The block then holds something that is not the number of one of
the blocks allocated on the way. -/
structure GarbageAt (fs : FileSys) (faults : Faults) (Q : Path) : Prop where
  inner : Q.Inner height
  null : fs.walk Q = 0
  above : ∀ S : Path, Q.Passes S → S ≠ Q → (faults S.depth).bread = none
  alloc : ∀ S : Path, Q.Passes S → fs.walk S = 0 → (faults S.depth).alloc = none
  bread : (faults Q.depth).bread ≠ none
  garbage : ∃ b, fs.freeBlocks[fs.missingAbove Q]? = some b ∧
    ∃ i : Fin PTRS_PER_INDIRECT, (fs.disk b).word i ≠ 0 ∧
      (fs.disk b).word i ∉ fs.freeBlocks.take (fs.missing Q)

/-- This happens somewhere on the way to block `blk` of the inode. -/
def LeavesGarbage (fs : FileSys) (faults : Faults) (inum blk : ULong) : Prop :=
  blk.toNat < MAX_FILE_BLOCKS ∧
    ∃ Q : Path, (dataPath inum blk.toNat).Passes Q ∧ GarbageAt fs faults Q

section

variable {fs fs₁ fs' : FileSys} {P Q S : Path} {b c inum : ULong} {faults : Faults}
  {create : Bool} {rest : List ULong}

/-! ## The blocks that are allocated -/

theorem nodup_freeBlocks (hL : Layout fs.sup) : fs.freeBlocks.Nodup := by
  apply List.Nodup.map_on _ (List.nodup_range.filter _)
  intro n hn m hm heq
  have hn' := List.mem_range.mp (List.mem_filter.mp hn).1
  have hm' := List.mem_range.mp (List.mem_filter.mp hm).1
  have htoNat := congrArg BitVec.toNat heq
  rw [toNat_data_add hL hn', toNat_data_add hL hm'] at htoNat
  omega

/-- What has been allocated on the way are the first free blocks. -/
theorem Reached.fresh_iff (h : Reached fs faults create P fs') (hL : Layout fs.sup) :
    Fresh fs fs' c ↔ c ∈ fs.freeBlocks.take (fs.missing P) := by
  have hL' : Layout fs'.sup := h.consistent.layout
  have hsup := h.grows.sup
  have hsplit : fs.freeBlocks.take (fs.missing P) ++ fs'.freeBlocks = fs.freeBlocks := by
    rw [h.free, List.take_append_drop]
  have hnodup := nodup_freeBlocks hL
  rw [← hsplit] at hnodup
  have hmem : c ∈ fs.freeBlocks ↔ c ∈ fs.freeBlocks.take (fs.missing P) ∨ c ∈ fs'.freeBlocks := by
    rw [← List.mem_append, hsplit]
  rw [mem_freeBlocks hL, mem_freeBlocks hL', hsup] at hmem
  constructor
  · rintro ⟨hdata, hfree, hin⟩
    rcases hmem.mp ⟨hdata, hfree⟩ with htake | ⟨-, hfree'⟩
    · exact htake
    · rw [hin] at hfree'
      cases hfree'
  · intro htake
    obtain ⟨hdata, hfree⟩ := hmem.mpr (.inl htake)
    refine ⟨hdata, hfree, ?_⟩
    by_contra hin
    have hrest : c ∈ fs'.freeBlocks := by
      rw [mem_freeBlocks hL', hsup]
      exact ⟨hdata, by simpa using hin⟩
    exact (List.disjoint_of_nodup_append hnodup) htake hrest

/-- If the file system is consistent afterwards, its indirect blocks are in order. -/
theorem Grows.initialised (h : Grows fs fs' P) (hc' : Consistent fs') (inum : ULong) :
    Initialised fs fs' inum := by
  intro S i hS _ hS0
  have hwalk : (fs'.disk (fs'.walk S)).word i = fs'.walk (S.sub i) := (walk_sub_of_ne i hS0).symm
  simp only [hwalk]
  by_cases h0 : fs'.walk (S.sub i) = 0
  · exact .inl h0
  · rcases h.walk (S.sub i) hS with heq | ⟨-, hnull⟩
    · exact .inr (.inl heq)
    · right
      right
      refine ⟨?_, h.fresh _ hS hnull h0, hc'.inUse hS h0⟩
      rw [← h.sup]
      exact hc'.inData hS h0

/-! ## A block that has not been cleared -/

namespace DanglingAt

variable (h : DanglingAt fs faults Q fs' fs₁ b rest)

include h

/-- What would have been, had the block been cleared. -/
theorem reached : ∃ e, Reached fs faults true Q ((fs₁.attach Q b).fail e) ∧
    fs' = (fs₁.link Q b).fail e := by
  obtain ⟨e, he⟩ := h.eq
  have h0 : fs₁.walk Q = 0 := by rw [h.ready.walk, h.null]
  exact ⟨e, h.ready.reached_of_attach h0 h.free h.alloc rfl e, he⟩

theorem getElem_freeBlocks : fs.freeBlocks[fs.missingAbove Q]? = some b := by
  have hdrop : fs.freeBlocks.drop (fs.missingAbove Q) = b :: rest := h.ready.free.symm.trans h.free
  have hget := congrArg (·[0]?) hdrop
  simpa using hget

/-- The block is as it was before the call. -/
theorem disk_self : fs'.disk b = fs.disk b := by
  obtain ⟨hb, hfree⟩ := head_freeBlocks h.ready.consistent.layout h.free
  obtain ⟨e, rfl⟩ := h.eq
  show (fs₁.link Q b).disk b = _
  rw [link, put_disk_of_ne (place_ne_idle h.ready.consistent h.ready.linkable hfree),
    mark_disk h.ready.consistent.layout hb hb]
  apply h.ready.grows.idle b _ hfree
  rwa [← h.ready.grows.sup]

/-- Everything else is as it would have been. -/
theorem disk_of_ne {a : ULong} (ha : a ≠ b) : fs'.disk a = (fs₁.attach Q b).disk a := by
  obtain ⟨e, rfl⟩ := h.eq
  exact (attach_disk ha).symm

theorem inode_eq : fs'.inode = (fs₁.attach Q b).inode := by
  obtain ⟨e, rfl⟩ := h.eq
  rw [attach, if_pos h.inner]
  rfl

theorem sup_eq : fs'.sup = (fs₁.attach Q b).sup := by
  obtain ⟨e, rfl⟩ := h.eq
  rw [attach_sup]
  exact put_sup _

theorem inUse_eq (hc : InData fs.sup c) : fs'.inUse c = (fs₁.attach Q b).inUse c := by
  have hcons := h.ready.consistent
  have hb := (head_freeBlocks hcons.layout h.free).1
  have hsup : (fs₁.attach Q b).sup = fs.sup := attach_sup.trans h.ready.grows.sup
  apply inUse_congr (by rw [attach_sup]; exact hcons.layout) h.sup_eq
  · intro a ha
    apply h.disk_of_ne
    rintro rfl
    have hle := hb.1
    rw [attach_sup] at ha
    omega
  · rwa [hsup]

theorem fresh_iff_attach (c : ULong) : Fresh fs fs' c ↔ Fresh fs (fs₁.attach Q b) c := by
  apply and_congr_right
  intro hc
  rw [h.inUse_eq hc]

theorem fresh_iff (hL : Layout fs.sup) :
    Fresh fs fs' c ↔ c ∈ fs.freeBlocks.take (fs.missing Q) := by
  obtain ⟨e, hreached, -⟩ := h.reached
  rw [← hreached.fresh_iff hL, h.fresh_iff_attach]
  rfl

/-- The block is where it has been entered. -/
theorem walk_attach : (fs₁.attach Q b).walk Q = b := by
  obtain ⟨hb, hfree⟩ := head_freeBlocks h.ready.consistent.layout h.free
  have h0 : fs₁.walk Q = 0 := by rw [h.ready.walk, h.null]
  exact (attach_links h.ready.consistent h.ready.linkable h0 hb hfree).walk_self
    h.ready.linkable.valid

theorem consistent_attach : Consistent (fs₁.attach Q b) := by
  obtain ⟨hb, hfree⟩ := head_freeBlocks h.ready.consistent.layout h.free
  exact h.ready.consistent.attach h.ready.linkable (by rw [h.ready.walk, h.null]) hb hfree

theorem grows_attach : Grows fs (fs₁.attach Q b) Q := by
  obtain ⟨hb, hfree⟩ := head_freeBlocks h.ready.consistent.layout h.free
  have h0 : fs₁.walk Q = 0 := by rw [h.ready.walk, h.null]
  exact h.ready.grows.trans h.consistent_attach
    (attach_grows h.ready.consistent h.ready.linkable h0 hb hfree)

theorem walk_root (r : ULong × Fin NR_PTRS) :
    fs'.walk (.root r) = (fs₁.attach Q b).walk (.root r) := by
  simp only [walk, Forest.walk_root, forest, h.sup_eq, h.inode_eq]

/-- On the way to it nothing is different. -/
theorem walk_of_passes (hQS : Q.Passes S) : fs'.walk S = (fs₁.attach Q b).walk S := by
  induction S with
  | root r => exact h.walk_root r
  | sub S i ih =>
    obtain ⟨hpass, hne⟩ := Path.passes_and_ne_iff.mpr ⟨i, hQS⟩
    have hvalid := hpass.inner h.ready.linkable.valid hne.symm
    have hS := ih hpass
    by_cases hS0 : (fs₁.attach Q b).walk S = 0
    · exact (walk_sub_of_eq i (hS.trans hS0)).trans (walk_sub_of_eq i hS0).symm
    · have hSb : (fs₁.attach Q b).walk S ≠ b := by
        intro heq
        exact hne.symm (h.consistent_attach.eq_of_walk_eq hvalid.valid h.ready.linkable.valid hS0
          (heq.trans h.walk_attach.symm))
      have hdisk := h.disk_of_ne hSb
      have hchild : fs'.walk (S.sub i) = (fs'.disk (fs'.walk S)).word i :=
        walk_sub_of_ne i (show fs'.walk S ≠ 0 by rwa [hS])
      rw [hchild, hS, hdisk]
      exact (walk_sub_of_ne i hS0).symm

theorem walk_self : fs'.walk Q = b := by
  rw [h.walk_of_passes (Path.passes_self Q), h.walk_attach]

theorem ne_zero : b ≠ 0 := by
  have hL := h.ready.consistent.layout
  exact (head_freeBlocks hL h.free).1.ne_zero hL

/-- Something in the block is not the number of a block of the inode. -/
theorem not_initialised (hL : Layout fs.sup) {i : Fin PTRS_PER_INDIRECT}
    (hne : (fs.disk b).word i ≠ 0)
    (hmem : (fs.disk b).word i ∉ fs.freeBlocks.take (fs.missing Q)) :
    ¬Initialised fs fs' Q.base.1 := by
  intro hinit
  have hptr := hinit Q i h.inner rfl (by rw [h.walk_self]; exact h.ne_zero)
  simp only [h.walk_self, h.disk_self] at hptr
  rcases hptr with h0 | hold | hfresh
  · exact hne h0
  · exact hne (hold.trans (walk_sub_of_eq i h.null))
  · exact hmem ((h.fresh_iff hL).mp hfresh)

section

variable (hL : Layout fs.sup)
  (hwords : ∀ i : Fin PTRS_PER_INDIRECT, (fs.disk b).word i = 0 ∨
    (fs.disk b).word i ∈ fs.freeBlocks.take (fs.missing Q))

include hL

theorem fresh_self : Fresh fs fs' b := by
  rw [h.fresh_iff hL, missing_eq, if_pos h.null]
  exact List.mem_of_getElem? (by rw [List.getElem?_take_of_lt (Nat.lt_succ_self _)]; exact h.getElem_freeBlocks)

include hwords

/-- A new block leads to new blocks only. -/
theorem fresh_disk (hc : Fresh fs fs' c) (i : Fin PTRS_PER_INDIRECT) :
    (fs'.disk c).word i = 0 ∨ Fresh fs fs' ((fs'.disk c).word i) := by
  by_cases hcb : c = b
  · rw [hcb, h.disk_self, h.fresh_iff hL]
    exact hwords i
  · -- the block is on the way, and has been cleared
    obtain ⟨hdata, hfree, hin⟩ := hc
    rw [h.inUse_eq hdata] at hin
    obtain ⟨S, hS, hQS, hS0, hwalk⟩ := h.grows_attach.linked c hdata hfree hin
    have hSQ : S ≠ Q := by
      rintro rfl
      exact hcb (hwalk.symm.trans h.walk_attach)
    have hinner := hQS.inner h.ready.linkable.valid hSQ
    have hne : (fs₁.attach Q b).walk S ≠ 0 := by
      rw [hwalk]
      exact hdata.ne_zero hL
    have hptr := h.grows_attach.initialised h.consistent_attach _ S i hinner rfl hne
    simp only [hwalk] at hptr
    rw [← h.disk_of_ne hcb] at hptr
    rcases hptr with h0 | hold | hfresh
    · exact .inl h0
    · exact .inl (hold.trans (walk_sub_of_eq i hS0))
    · exact .inr ((h.fresh_iff_attach _).mpr hfresh)

/-- What an inode leads to is what it would have led to, or a new block. -/
theorem walk_eq_or_fresh : ∀ S : Path, S.Valid height → fs'.walk S ≠ 0 →
    fs'.walk S = (fs₁.attach Q b).walk S ∨ Fresh fs fs' (fs'.walk S)
  | .root r, _, _ => .inl (h.walk_root r)
  | .sub S i, hS, hne => by
    have hS0 : fs'.walk S ≠ 0 := walk_ne_zero_of_sub hne
    have hchild : fs'.walk (S.sub i) = (fs'.disk (fs'.walk S)).word i := walk_sub_of_ne i hS0
    by_cases hfresh : Fresh fs fs' (fs'.walk S)
    · right
      rw [hchild] at hne ⊢
      exact (h.fresh_disk hL hwords hfresh i).resolve_left hne
    · left
      have hSb : fs'.walk S ≠ b := fun heq => hfresh (heq ▸ h.fresh_self hL)
      have ih := (walk_eq_or_fresh S (Path.Inner.valid hS) hS0).resolve_right hfresh
      rw [hchild, h.disk_of_ne hSb, ih]
      exact (walk_sub_of_ne i (show (fs₁.attach Q b).walk S ≠ 0 by rwa [← ih])).symm

/-- There is nothing else in the block. -/
theorem initialised (inum : ULong) : Initialised fs fs' inum := by
  intro S i hS hbase hS0
  simp only
  by_cases hfresh : Fresh fs fs' (fs'.walk S)
  · exact (h.fresh_disk hL hwords hfresh i).imp_right .inr
  · have hSb : fs'.walk S ≠ b := fun heq => hfresh (heq ▸ h.fresh_self hL)
    have heq := (h.walk_eq_or_fresh hL hwords S hS.valid hS0).resolve_right hfresh
    have hptr := h.grows_attach.initialised h.consistent_attach inum S i hS hbase (by rwa [← heq])
    simp only [← heq, ← h.disk_of_ne hSb] at hptr
    rwa [← h.fresh_iff_attach] at hptr

end

end DanglingAt

/-! ## The outcomes of a call -/

/-- A way down that has come to the block has not left anything uncleared. -/
theorem Reached.not_garbageAt (h : Reached fs faults create P fs') (hleaf : ¬P.Inner height)
    (hPQ : P.Passes Q) : ¬GarbageAt fs faults Q := by
  intro hg
  have hne : Q ≠ P := by
    rintro rfl
    exact hleaf hg.inner
  exact hg.bread (h.bread Q hPQ hne)

theorem Stuck.not_garbageAt (h : Stuck fs faults true P fs') (hPQ : P.Passes Q) :
    ¬GarbageAt fs faults Q := by
  intro hg
  rcases h.why with ⟨hfalse, -⟩ | ⟨S, hPS, hbread, hat⟩
  · cases hfalse
  · have hQS : Q.Passes S := by
      rcases hPQ.total hPS with hQS | hSQ
      · exact hQS
      · by_cases hne : Q = S
        · exact hne ▸ Path.passes_self Q
        · exact absurd (hbread Q hSQ hne) hg.bread
    cases hat with
    | full _ _ hlen _ _ =>
      -- there was a block for `Q`
      obtain ⟨b, hget, -⟩ := hg.garbage
      have hlt := (List.getElem?_eq_some_iff.mp hget).1
      have hle : fs.missing S ≤ fs.missing Q := missing_le_of_passes hQS
      rw [missing_eq Q, if_pos hg.null] at hle
      omega
    | alloc _ _ h0 hfault => exact hfault (hg.alloc S hQS h0)
    | bread h0 hfault =>
      have hne : S ≠ Q := by
        rintro rfl
        exact h0 hg.null
      exact hfault (hg.above S hQS hne)

/-- The block that is not cleared is the one at the first `bread` that fails. -/
theorem DanglingAt.eq_of_garbageAt (h : DanglingAt fs faults S fs' fs₁ b rest) (hPS : P.Passes S)
    (hPQ : P.Passes Q) (hg : GarbageAt fs faults Q) : Q = S := by
  by_contra hne
  rcases hPQ.total hPS with hQS | hSQ
  · exact h.bread (hg.above S hQS (Ne.symm hne))
  · exact hg.bread (h.ready.bread Q hSQ hne)

theorem DanglingAt.initialised_iff (h : DanglingAt fs faults Q fs' fs₁ b rest)
    (hL : Layout fs.sup) : Initialised fs fs' Q.base.1 ↔ ¬GarbageAt fs faults Q := by
  constructor
  · intro hinit hg
    obtain ⟨b', hget, i, hne, hmem⟩ := hg.garbage
    rw [h.getElem_freeBlocks] at hget
    obtain rfl := Option.some.inj hget
    exact h.not_initialised hL hne hmem hinit
  · intro hg
    apply h.initialised hL
    intro i
    by_contra hno
    apply hg
    refine ⟨h.inner, h.null, h.ready.bread, ?_, h.bread, b, h.getElem_freeBlocks, i, ?_, ?_⟩
    · intro S hQS hS0
      by_cases hne : S = Q
      · exact hne ▸ h.alloc
      · exact h.ready.alloc S hQS hne hS0
    · exact fun h0 => hno (.inl h0)
    · exact fun hmem => hno (.inr hmem)

theorem LeavesGarbage.not_initialised {blk : ULong} (h : LeavesGarbage fs faults inum blk)
    (hc : Consistent fs) (hn : inum.toNat < fs.sup.numInodes.toNat) :
    ¬Initialised fs (fs.getDataBlkno faults inum blk true).2 inum := by
  obtain ⟨hblk, Q, hQ, hg⟩ := h
  have hleaf := (dataPath_leaf inum blk.toNat).2
  have hspec := getDataBlkno_spec faults true hc hn hblk
  generalize fs.getDataBlkno faults inum blk true = r at hspec
  cases hspec with
  | reached fs' h => exact absurd hg (h.not_garbageAt hleaf hQ)
  | stuck fs' h => exact absurd hg (h.not_garbageAt hQ)
  | dangling fs' h =>
    obtain ⟨S, fs₁, b, rest, hS, h⟩ := h
    obtain rfl := h.eq_of_garbageAt hS hQ hg
    have hbase : Q.base.1 = inum := by rw [← hS.base_eq, base_dataPath]
    rw [← hbase, h.initialised_iff hc.layout]
    exact not_not.mpr hg

theorem initialised_of_not_leavesGarbage {blk : ULong} (h : ¬LeavesGarbage fs faults inum blk)
    (hc : Consistent fs) (hn : inum.toNat < fs.sup.numInodes.toNat) :
    Initialised fs (fs.getDataBlkno faults inum blk true).2 inum := by
  by_cases hblk : blk.toNat < MAX_FILE_BLOCKS
  · have hspec := getDataBlkno_spec faults true hc hn hblk
    generalize fs.getDataBlkno faults inum blk true = r at hspec
    cases hspec with
    | reached fs' h => exact h.grows.initialised h.consistent inum
    | stuck fs' h => exact h.grows.initialised h.consistent inum
    | dangling fs' hd =>
      obtain ⟨S, fs₁, b, rest, hS, hd⟩ := hd
      have hbase : S.base.1 = inum := by rw [← hS.base_eq, base_dataPath]
      rw [← hbase, hd.initialised_iff hc.layout]
      exact fun hg => h ⟨hblk, S, hS, hg⟩
  · rw [getDataBlkno_of_not_lt hblk]
    exact (Grows.fail fs (dataPath inum 0) _).initialised (hc.fail _) inum

theorem FreshlyMade.freeBlocks (h : FreshlyMade fs) : fs.freeBlocks =
    ((List.range fs.sup.dataSize.toNat).filter (· ≠ 0)).map
      fun n => fs.sup.data + BitVec.ofNat 32 n := by
  rw [FileSys.freeBlocks]
  congr 1
  apply List.filter_congr
  intro n hn
  have hlt := List.mem_range.mp hn
  have hbits : n < BITS_PER_BLOCK * bmapBlocks fs.sup.dataSize.toNat := by
    simp only [bmapBlocks, BITS_PER_BLOCK, FS_BLKSIZ]
    omega
  rw [h.dataBit hbits, decide_eq_false (Nat.not_le_of_lt hlt), Bool.or_false]
  simp

end

end Vmm386.Fs.FileSys
