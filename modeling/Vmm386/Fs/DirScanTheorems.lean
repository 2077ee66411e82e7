import Vmm386.Fs.DirScan

/-!
# The scans stay in their block up to one block

`max` is where `min` was meant: a directory of at most a block is read in one piece, and a larger
one overruns `tmp_dir_blk`.
-/

namespace Vmm386.Fs.FileSys

open FileTables (DirEntry)

section

variable {σ β : Type} {visit : Visit σ β} {fs : FileSys} {dir : File} {size pos dirLen : ULong}
  {acc : σ} {buf : Blk}

/-! ## Lengths -/

theorem scanLen_of_lt (h : dirLen.toNat < 2 ^ 31) :
    (scanLen dirLen).toNat = max dirLen.toNat FS_BLKSIZ := by
  have hint : dirLen.toInt = dirLen.toNat := BitVec.toInt_eq_toNat_of_lt (by omega)
  rw [scanLen, hint, BitVec.toNat_ofNat]
  simp only [FS_BLKSIZ]
  omega

/-- A length that is negative as an `int` gives one block. -/
theorem scanLen_of_ge (h : 2 ^ 31 ≤ dirLen.toNat) : (scanLen dirLen).toNat = FS_BLKSIZ := by
  have hint : dirLen.toInt < 0 := by
    rw [BitVec.toInt_eq_toNat_cond, if_neg (by omega)]
    have := dirLen.isLt
    omega
  rw [scanLen, max_eq_right (by simp only [FS_BLKSIZ]; omega)]
  rfl

/-! ## One pass -/

/-- A pass that is not stopped looks at every entry that has been read. -/
theorem visitAll_seen {es : List (ULong × DirEntry)} {acc' : σ}
    (h : (visitAll visit es acc).2 = .inr acc') : (visitAll visit es acc).1 = es.map Prod.fst := by
  induction es generalizing acc with
  | nil => rfl
  | cons p es ih =>
    obtain ⟨off, e⟩ := p
    rw [visitAll] at h ⊢
    cases hv : visit acc off e with
    | inl b =>
      rw [hv] at h
      cases h
    | inr acc₁ =>
      rw [hv] at h
      exact congrArg (off :: ·) (ih h)

theorem dirEntries_offsets (buf : Blk) (n : ℕ) :
    (dirEntries buf 0 n).map Prod.fst = (List.range n).map fun i => BitVec.ofNat 32 (32 * i) := by
  rw [dirEntries, List.map_map]
  apply List.map_congr_left
  intro i _
  exact BitVec.zero_add _

theorem seekFile_start (fs : FileSys) (dir : File) :
    fs.seekFile 0 (some .abs) dir = (0, { dir with pos := 0 }, fs) := by
  have hneg : ¬((0 : ULong).toInt < 0 ∨ (0 : ULong) > (fs.inode dir.inum).size) := by
    intro h
    refine h.elim (fun h => absurd h (by decide)) fun h => ?_
    exact absurd (BitVec.lt_def.mp h) (Nat.not_lt_zero _)
  unfold seekFile
  dsimp only [newPos]
  rw [if_neg hneg]
  rfl

/-- A handle that is not open for reading. -/
theorem readSome_of_mode (hmode : dir.mode &&& F_READ = 0) {blocks : Option ℕ}
    (hblocks : blocks ≠ some 0) (fs : FileSys) (len : ULong) :
    fs.readSome blocks len dir = (-E_PERM, [], dir, fs.fail E_PERM) := by
  cases blocks with
  | none => exact if_pos hmode
  | some b =>
    cases b with
    | zero => exact absurd rfl hblocks
    | succ b => exact if_pos hmode

/-- A pass over a directory of at most a block. -/
theorem readSome_small (hc : Consistent fs) (hn : dir.inum.toNat < fs.sup.numInodes.toNat)
    (hpos : dir.pos = 0) (hmode : dir.mode &&& F_READ ≠ 0) {len : ULong}
    (hlen : len.toNat = FS_BLKSIZ) (hsize : (fs.inode dir.inum).size.toNat ≤ FS_BLKSIZ)
    {blocks : Option ℕ} (hblocks : blocks ≠ some 0) :
    ∃ bytes dir' e, fs.readSome blocks len dir =
        (((fs.inode dir.inum).size.toNat : ℤ), bytes, dir', fs.fail e) ∧
      bytes.length = (fs.inode dir.inum).size.toNat := by
  have hread : fs.readSome blocks len dir = fs.readFile len dir := by
    cases blocks with
    | none => rfl
    | some b =>
      cases b with
      | zero => exact absurd rfl hblocks
      | succ b =>
        have hmin : min len.toNat (FS_BLKSIZ * (b + 1) - posInBlk dir.pos) = len.toNat := by
          rw [hpos, hlen]
          simp only [posInBlk, FS_BLKSIZ]
          show min 1024 (1024 * (b + 1) - 0) = 1024
          omega
        show fs.readFile (BitVec.ofNat 32 (min len.toNat (FS_BLKSIZ * (b + 1) - posInBlk dir.pos)))
          dir = fs.readFile len dir
        rw [hmin, BitVec.ofNat_toNat, BitVec.setWidth_eq]
  have hzero : dir.pos.toNat = 0 := by
    rw [hpos]
    rfl
  have hrange : ReadInRange (fs.inode dir.inum).size dir.pos len.toNat := by
    right
    rw [hzero, hlen]
    decide
  obtain ⟨e, hfile⟩ := readFile_spec hc hn len hrange hmode
  have hm : min len.toNat ((fs.inode dir.inum).size.toNat - dir.pos.toNat) =
      (fs.inode dir.inum).size.toNat := by
    omega
  rw [hm] at hfile
  exact ⟨_, _, e, hread.trans hfile, by rw [bytesAt, List.length_map, List.length_range]⟩

/-- **A directory of at most a block** is scanned in one pass. -/
theorem scanDir_small (visit : Visit σ β) (acc : σ) (hsize : size.toNat ≤ FS_BLKSIZ) :
    ScansRight (scanDir visit acc) size := by
  intro fs dir blocks buf hc hn hinode
  by_cases hdir : (fs.inode dir.inum).attr &&& ATTR_DIRECTORY = 0
  · exact ⟨0, [], .notDir, if_pos hdir, (fun hc => by cases hc), fun _ hc => by cases hc⟩
  have hscan : ∀ fuel, scanDir visit acc fuel blocks buf fs dir =
      scanLoop visit blocks fuel fs 0 size { dir with pos := 0 } buf acc := by
    intro fuel
    rw [scanDir, hinode, if_neg hdir, seekFile_start]
  by_cases hzero : size = 0
  · refine ⟨1, [], .ended acc, ?_, (fun hc => by cases hc), fun _ _ => ?_⟩
    · rw [hscan, hzero]
      rfl
    · rw [hzero]
      rfl
  have hpos : size > 0 := by
    rw [gt_iff_lt, BitVec.lt_def]
    exact Nat.pos_of_ne_zero fun h => hzero (BitVec.eq_of_toNat_eq h)
  have hlen : (scanLen size).toNat = FS_BLKSIZ := by
    rw [scanLen_of_lt (by simp only [FS_BLKSIZ] at hsize; omega)]
    exact Nat.max_eq_right hsize
  by_cases hblocks : blocks 0 = some 0
  · refine ⟨1, [], .failed (-E_NOMEM), ?_, (fun hc => by cases hc), fun _ hc => by cases hc⟩
    rw [hscan, scanLoop, if_pos hpos, hblocks]
    rfl
  by_cases hmode : dir.mode &&& F_READ = 0
  · refine ⟨1, [], .failed (-E_PERM), ?_, (fun hc => by cases hc), fun _ hc => by cases hc⟩
    have hperm := @readSome_of_mode { dir with pos := 0 } hmode (blocks 0) hblocks fs (scanLen size)
    rw [hscan, scanLoop, if_pos hpos, hperm]
    rfl
  · obtain ⟨bytes, dir', e, hread, hbytes⟩ := @readSome_small fs { dir with pos := 0 } hc hn rfl hmode
      (scanLen size) hlen (by rw [hinode]; exact hsize) (blocks 0) hblocks
    rw [hinode] at hread hbytes
    have hlong : ¬FS_BLKSIZ < bytes.length := by omega
    have hneg : ¬(size.toNat : ℤ) < 0 := by omega
    have hloop : scanDir visit acc 2 blocks buf fs dir =
        some ((visitAll visit (dirEntries (buf.memcpy 0 (fun i => bytes.getD i 0) bytes.length) 0
          (size.toNat / 32)) acc).map id (Sum.elim .stopped .ended)) := by
      have hrest : size - BitVec.ofInt 32 (size.toNat : ℤ) = 0 := by
        rw [BitVec.ofInt_natCast, BitVec.ofNat_toNat, BitVec.setWidth_eq, BitVec.sub_self]
        rfl
      rw [hscan, scanLoop, if_pos hpos, hread]
      dsimp only
      rw [if_neg hlong, if_neg hneg, Int.toNat_natCast, hrest]
      rcases visitAll visit _ acc with ⟨seen, b | acc'⟩
      · rfl
      · exact congrArg (fun l => some (l, ScanEnd.ended acc')) (List.append_nil seen)
    cases hvisit : visitAll visit (dirEntries (buf.memcpy 0 (fun i => bytes.getD i 0) bytes.length) 0
        (size.toNat / 32)) acc with
    | mk seen r =>
      rw [hvisit] at hloop
      cases r with
      | inl b => exact ⟨2, seen, .stopped b, hloop, (fun hc => by cases hc), fun _ hc => by cases hc⟩
      | inr acc' =>
        refine ⟨2, seen, .ended acc', hloop, (fun hc => by cases hc), fun _ _ => ?_⟩
        have hseen := visitAll_seen (congrArg Prod.snd hvisit)
        rw [hvisit, dirEntries_offsets] at hseen
        exact hseen

/-! ## Directories of free entries -/

/-- An open directory whose entries are all free. -/
structure FreeEntries (fs : FileSys) (dir : File) : Prop where
  consistent : Consistent fs
  inum_lt : dir.inum.toNat < fs.sup.numInodes.toNat
  mode : dir.mode &&& F_READ ≠ 0
  attr : (fs.inode dir.inum).attr &&& ATTR_DIRECTORY ≠ 0
  byteAt : ∀ off, fs.byteAt dir.inum off = 0

/-- The function goes on behind a free entry. -/
def SkipsFree (visit : Visit σ β) : Prop :=
  ∀ acc off e, e.name = [] → ∃ acc', visit acc off e = .inr acc'

theorem visitAll_free (hskip : SkipsFree visit) {es : List (ULong × DirEntry)}
    (hfree : ∀ p ∈ es, p.2.name = []) : ∃ seen acc', visitAll visit es acc = (seen, .inr acc') := by
  induction es generalizing acc with
  | nil => exact ⟨[], acc, rfl⟩
  | cons p es ih =>
    obtain ⟨off, e⟩ := p
    obtain ⟨acc₁, hvisit⟩ := hskip acc off e (hfree _ List.mem_cons_self)
    obtain ⟨seen, acc₂, hrest⟩ := @ih acc₁ fun p hp => hfree p (List.mem_cons_of_mem _ hp)
    refine ⟨off :: seen, acc₂, ?_⟩
    rw [visitAll, hvisit]
    dsimp only
    rw [hrest]

/-- An entry whose first byte is zero is free. -/
theorem dirEntry_free {i : ℕ} (hi : 32 * i < FS_BLKSIZ) (h : buf.byte (32 * i) = 0) :
    (dirEntry buf i).name = [] := by
  obtain ⟨n, hn⟩ : ∃ n, FS_BLKSIZ - 32 * i = n + 1 := ⟨FS_BLKSIZ - 32 * i - 1, by omega⟩
  show stringAt buf (32 * i) = []
  rw [stringAt, hn, List.range_succ_eq_map, List.map_cons, Nat.add_zero, h]
  rfl

theorem bytesAt_free (h : FreeEntries fs dir) (off len : ℕ) :
    fs.bytesAt dir.inum off len = List.replicate len 0 := by
  rw [bytesAt, List.eq_replicate_iff]
  refine ⟨by rw [List.length_map, List.length_range], fun b hb => ?_⟩
  obtain ⟨i, -, hi⟩ := List.mem_map.mp hb
  rw [← hi, h.byteAt]

/-- A block of free entries has been read. -/
theorem dirEntries_free (pos : ULong) {n : ℕ} (hn : 32 * n ≤ FS_BLKSIZ) :
    ∀ p ∈ dirEntries (buf.memcpy 0 (fun i => (List.replicate FS_BLKSIZ (0 : UChar)).getD i 0)
      FS_BLKSIZ) pos n, p.2.name = [] := by
  intro p hp
  obtain ⟨i, hi, heq⟩ := List.mem_map.mp hp
  have hlt := List.mem_range.mp hi
  have hin : 32 * i < FS_BLKSIZ := by omega
  rw [← heq]
  refine dirEntry_free hin ?_
  rw [Blk.byte_memcpy hin, if_pos ⟨Nat.zero_le _, by omega⟩, Nat.sub_zero,
    List.getD_eq_getElem?_getD, List.getElem?_replicate, if_pos hin]
  rfl

theorem pos_of_long (h : FS_BLKSIZ < dirLen.toNat) : dirLen > 0 := by
  rw [gt_iff_lt, BitVec.lt_def]
  exact Nat.lt_of_le_of_lt (Nat.zero_le _) h

/-- More than a block is read at once. -/
theorem scanLoop_outside (visit : Visit σ β) {blocks : ℕ → Option ℕ} {k : ℕ}
    (hblocks : blocks k = none) (fuel : ℕ) (hfree : FreeEntries fs dir)
    (hpos : dir.pos.toNat + dirLen.toNat = (fs.inode dir.inum).size.toNat)
    (hlong : FS_BLKSIZ < dirLen.toNat) (hlt : dirLen.toNat < 2 ^ 31) :
    scanLoop visit blocks (fuel + 1) fs k dirLen dir buf acc = some ([], .outside) := by
  have hsize := (fs.inode dir.inum).size.isLt
  have hlen : (scanLen dirLen).toNat = dirLen.toNat := by
    rw [scanLen_of_lt hlt, Nat.max_eq_left (Nat.le_of_lt hlong)]
  obtain ⟨e, hread⟩ := readFile_spec hfree.consistent hfree.inum_lt (scanLen dirLen)
    (Or.inr (by omega)) hfree.mode
  have hm : min (scanLen dirLen).toNat ((fs.inode dir.inum).size.toNat - dir.pos.toNat) =
      dirLen.toNat := by omega
  rw [hm, bytesAt_free hfree] at hread
  have hread : fs.readSome none (scanLen dirLen) dir = _ := hread
  rw [scanLoop, if_pos (pos_of_long hlong), hblocks, hread]
  dsimp only
  rw [List.length_replicate, if_pos hlong]

/-- **A directory of more than a block** is never scanned to its end. -/
theorem scanLoop_overruns (hskip : SkipsFree visit) {blocks : ℕ → Option ℕ}
    (hblocks : ∀ k, blocks k = none) (fuel : ℕ) (k : ℕ) :
    FreeEntries fs dir → dir.pos.toNat + dirLen.toNat = (fs.inode dir.inum).size.toNat →
    FS_BLKSIZ < dirLen.toNat →
    scanLoop visit blocks fuel fs k dirLen dir buf acc = none ∨
      ∃ seen, scanLoop visit blocks fuel fs k dirLen dir buf acc = some (seen, .outside) := by
  induction fuel generalizing fs dir dirLen buf acc k with
  | zero => intro _ _ _; exact Or.inl rfl
  | succ fuel ih =>
    intro hfree hpos hlong
    have hsize := (fs.inode dir.inum).size.isLt
    by_cases hlt : dirLen.toNat < 2 ^ 31
    · exact Or.inr ⟨[], scanLoop_outside visit (hblocks k) fuel hfree hpos hlong hlt⟩
    · -- the length is negative, and one block is read
      have hlen := scanLen_of_ge (Nat.le_of_not_lt hlt)
      have hrange : ReadInRange (fs.inode dir.inum).size dir.pos (scanLen dirLen).toNat := by
        right
        rw [hlen]
        simp only [FS_BLKSIZ]
        omega
      obtain ⟨e, hread⟩ := readFile_spec hfree.consistent hfree.inum_lt (scanLen dirLen) hrange
        hfree.mode
      have hm : min (scanLen dirLen).toNat ((fs.inode dir.inum).size.toNat - dir.pos.toNat) =
          FS_BLKSIZ := by omega
      rw [hm, bytesAt_free hfree] at hread
      have hread : fs.readSome none (scanLen dirLen) dir = _ := hread
      have hentries := @dirEntries_free buf dir.pos 32 (Nat.le_refl _)
      obtain ⟨seen, acc₁, hvisit⟩ := @visitAll_free _ _ _ acc hskip _ hentries
      have hfree' : FreeEntries (fs.fail e) { dir with pos := dir.pos + BitVec.ofNat 32 FS_BLKSIZ } :=
        ⟨hfree.consistent.fail e, hfree.inum_lt, hfree.mode, hfree.attr, hfree.byteAt⟩
      have hnext : (dir.pos + BitVec.ofNat 32 FS_BLKSIZ).toNat = dir.pos.toNat + FS_BLKSIZ := by
        apply toNat_pos_add
        simp only [FS_BLKSIZ]
        omega
      have hrest : (dirLen - BitVec.ofInt 32 (FS_BLKSIZ : ℤ)).toNat = dirLen.toNat - FS_BLKSIZ := by
        rw [BitVec.toNat_sub]
        show (2 ^ 32 - 1024 + dirLen.toNat) % 2 ^ 32 = dirLen.toNat - 1024
        omega
      have hsum : (dir.pos + BitVec.ofNat 32 FS_BLKSIZ).toNat +
          (dirLen - BitVec.ofInt 32 (FS_BLKSIZ : ℤ)).toNat = (fs.inode dir.inum).size.toNat := by
        rw [hnext, hrest]
        omega
      have hmore : FS_BLKSIZ < (dirLen - BitVec.ofInt 32 (FS_BLKSIZ : ℤ)).toNat := by
        rw [hrest]
        simp only [FS_BLKSIZ]
        omega
      have hloop := @ih (fs.fail e) { dir with pos := dir.pos + BitVec.ofNat 32 FS_BLKSIZ } _ acc₁
        (buf.memcpy 0 (fun i => (List.replicate FS_BLKSIZ (0 : UChar)).getD i 0) FS_BLKSIZ) (k + 1)
        hfree' hsum hmore
      have hnot : ¬FS_BLKSIZ < (List.replicate FS_BLKSIZ (0 : UChar)).length := by
        rw [List.length_replicate]
        exact Nat.lt_irrefl _
      have hneg : ¬(FS_BLKSIZ : ℤ) < 0 := by decide
      rw [scanLoop, if_pos (pos_of_long hlong), hblocks k, hread]
      dsimp only
      rw [if_neg hnot, if_neg hneg, List.length_replicate]
      have htwo : (FS_BLKSIZ : ℤ).toNat / 32 = 32 := rfl
      rw [htwo, hvisit]
      dsimp only
      refine hloop.imp (fun h => ?_) fun ⟨seen', h⟩ => ⟨seen ++ seen', ?_⟩ <;> rw [h]

end

/-- There are directories of every size, with free entries only. -/
theorem exists_freeEntries (size : ULong) :
    ∃ fs dir, FreeEntries fs dir ∧ (fs.inode dir.inum).size = size ∧ dir.pos = 0 := by
  obtain ⟨fs, hfresh, hsup⟩ := exists_freshlyMade
  have hn : (1 : ULong).toNat < fs.sup.numInodes.toNat := by
    rw [hsup]
    decide
  obtain ⟨now, hinode⟩ := hfresh.inode_eq hn
  rw [if_neg (by decide)] at hinode
  let inode : Inode := { fs.inode 1 with attr := ATTR_DIRECTORY, size := size }
  have hself : (fs.setInode 1 inode).inode 1 = inode := setInode_inode_self fs 1 inode
  have hwalk : ∀ P : Path, P.base.1 = 1 → (fs.setInode 1 inode).walk P = 0 := by
    intro P hP
    induction P with
    | root r =>
      obtain ⟨n, k⟩ := r
      have hP : n = 1 := hP
      rw [hP]
      refine (if_pos hn).trans ?_
      show ((fs.setInode 1 inode).inode 1).data k = 0
      rw [hself]
      show (fs.inode 1).data k = 0
      rw [hinode]
      rfl
    | sub P i ih => exact Forest.walk_sub_of_eq i (ih hP)
  refine ⟨fs.setInode 1 inode, ⟨1, F_READ, 0⟩, ⟨hfresh.consistent.setInode rfl, hn, by decide, ?_,
    fun off => ?_⟩, ?_, rfl⟩
  · rw [hself]
    show ATTR_DIRECTORY &&& ATTR_DIRECTORY ≠ 0
    decide
  · have hzero : (fs.setInode 1 inode).dataBlock 1 (off / FS_BLKSIZ) = 0 :=
      hwalk _ (base_dataPath 1 _)
    show (if (fs.setInode 1 inode).dataBlock 1 (off / FS_BLKSIZ) = 0 then 0 else _) = 0
    rw [if_pos hzero]
  · rw [hself]

/-- A scan that skips free entries overruns `tmp_dir_blk` in every larger directory. -/
theorem scanDir_large {σ β : Type} {visit : Visit σ β} (hskip : SkipsFree visit) (acc : σ)
    {size : ULong} (hsize : FS_BLKSIZ < size.toNat) : ¬ScansRight (scanDir visit acc) size := by
  intro h
  obtain ⟨fs, dir, hfree, hinode, hpos⟩ := exists_freeEntries size
  obtain ⟨fuel, seen, e, hscan, hinside, -⟩ := h fs dir (fun _ => none) Blk.zero hfree.consistent
    hfree.inum_lt hinode
  rw [scanDir, if_neg hfree.attr, seekFile_start] at hscan
  have hfree' : FreeEntries fs { dir with pos := 0 } :=
    ⟨hfree.consistent, hfree.inum_lt, hfree.mode, hfree.attr, hfree.byteAt⟩
  have hsum : (0 : ULong).toNat + (fs.inode dir.inum).size.toNat =
      (fs.inode dir.inum).size.toNat := Nat.zero_add _
  have hloop := @scanLoop_overruns _ _ _ fs { dir with pos := 0 } (fs.inode dir.inum).size acc
    Blk.zero hskip (fun _ => none) (fun _ => rfl) fuel 0 hfree' hsum (by rw [hinode]; exact hsize)
  refine hloop.elim (fun hnone => ?_) fun ⟨seen', hout⟩ => ?_
  · exact absurd (hnone.symm.trans hscan) nofun
  · have heq := Option.some.inj (hout.symm.trans hscan)
    exact hinside (Prod.mk.inj heq).2.symm

/-! ## The four functions -/

theorem findFileEntry_iff (size : ULong) :
    (∀ name, ScansRight (findFileEntry name) size) ↔ size.toNat ≤ FS_BLKSIZ := by
  refine ⟨fun h => ?_, fun hsize name => scanDir_small _ _ hsize⟩
  by_contra hlarge
  refine scanDir_large (fun acc off e hname => ?_) () (Nat.lt_of_not_le hlarge) (h [])
  exact ⟨(), if_neg fun hc => hc.1 hname⟩

theorem createFileEntry_iff (size : ULong) :
    (∀ name, ScansRight (createFileEntry name) size) ↔ size.toNat ≤ FS_BLKSIZ := by
  refine ⟨fun h => ?_, fun hsize name => scanDir_small _ _ hsize⟩
  by_contra hlarge
  refine scanDir_large (fun acc off e hname => ?_) none (Nat.lt_of_not_le hlarge) (h [0x61])
  have hne : ¬[0x61] = e.name := by
    rw [hname]
    exact List.cons_ne_nil _ _
  exact ⟨_, if_neg hne⟩

theorem deleteFileEntry_iff (size : ULong) :
    (∀ name, ScansRight (deleteFileEntry name) size) ↔ size.toNat ≤ FS_BLKSIZ := by
  refine ⟨fun h => ?_, fun hsize name => scanDir_small _ _ hsize⟩
  by_contra hlarge
  refine scanDir_large (fun acc off e hname => ?_) () (Nat.lt_of_not_le hlarge) (h [])
  exact ⟨(), if_neg fun hc => hc.1 hname⟩

theorem directoryEmpty_iff (size : ULong) :
    ScansRight directoryEmpty size ↔ size.toNat ≤ FS_BLKSIZ := by
  refine ⟨fun h => ?_, fun hsize => scanDir_small _ _ hsize⟩
  by_contra hlarge
  refine scanDir_large (fun acc off e hname => ?_) () (Nat.lt_of_not_le hlarge) h
  exact ⟨(), if_neg fun hc => hc.1 hname⟩

/-- **Directory scans.** Each of the four functions scans the directories of a size as it should
exactly if they are not larger than a block. -/
theorem scans_iff (size : ULong) :
    ((∀ name, ScansRight (findFileEntry name) size) ↔ size.toNat ≤ FS_BLKSIZ) ∧
    ((∀ name, ScansRight (createFileEntry name) size) ↔ size.toNat ≤ FS_BLKSIZ) ∧
    ((∀ name, ScansRight (deleteFileEntry name) size) ↔ size.toNat ≤ FS_BLKSIZ) ∧
    (ScansRight directoryEmpty size ↔ size.toNat ≤ FS_BLKSIZ) :=
  ⟨findFileEntry_iff size, createFileEntry_iff size, deleteFileEntry_iff size,
    directoryEmpty_iff size⟩

/-- A directory of 33 entries is read into a buffer for 32. -/
theorem findFileEntry_33 : ∃ fs dir, FreeEntries fs dir ∧
    (fs.inode dir.inum).size = BitVec.ofNat 32 (33 * 32) ∧
    findFileEntry [0x61] 1 (fun _ => none) Blk.zero fs dir = some ([], .outside) := by
  obtain ⟨fs, dir, hfree, hinode, hpos⟩ := exists_freeEntries (BitVec.ofNat 32 (33 * 32))
  refine ⟨fs, dir, hfree, hinode, ?_⟩
  have hfree' : FreeEntries fs { dir with pos := 0 } :=
    ⟨hfree.consistent, hfree.inum_lt, hfree.mode, hfree.attr, hfree.byteAt⟩
  rw [findFileEntry, scanDir, if_neg hfree.attr, seekFile_start]
  refine scanLoop_outside _ rfl 0 hfree' (Nat.zero_add _) ?_ ?_ <;> rw [hinode] <;> decide

end Vmm386.Fs.FileSys
