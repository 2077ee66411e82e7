import Vmm386.Fs.FileWrites
import Vmm386.Fs.MkfsTheorems
import Vmm386.Lib.Runs

/-!
# Runs of file operations

Handles on any inodes are moved about, read, written and truncated in any order. Beside the
file system a state keeps account of what has been written where, and not been truncated since.
-/

namespace Vmm386.Fs.FileSys

/-! ## The system -/

/-- A file system, the handles that are open, and the bytes that have been written. -/
structure FileRun where
  fs : FileSys
  files : ℕ → Option File
  written : ULong → ℕ → Option UChar

/-- A call on a handle. -/
inductive FileOp where
  | seek (h : ℕ) (arg : ULong) (type : SeekType)
  | read (h : ℕ) (len : ULong)
  | write (h : ℕ) (data : List UChar) (now : ULong)
  | truncate (h : ℕ) (now : ULong)

namespace FileRun

/-- Put a handle back. -/
def setFile (s : FileRun) (h : ℕ) (file : File) : FileRun :=
  { s with files := Function.update s.files h (some file) }

/-- Note that `data` has been written to an inode. -/
def note (s : FileRun) (inum : ULong) (off : ℕ) (data : List UChar) : FileRun :=
  { s with written := Function.update s.written inum fun o =>
      if off ≤ o ∧ o < off + data.length then data[o - off]? else s.written inum o }

/-- Note that an inode has been truncated. -/
def forget (s : FileRun) (inum : ULong) : FileRun :=
  { s with written := Function.update s.written inum fun _ => none }

end FileRun

/-- What the call does. Files do not get as long as 2^31 bytes. -/
def fileStep (s : FileRun) : FileOp → Option FileRun
  | .seek h arg type =>
    (s.files h).map fun file =>
      match s.fs.seekFile arg type file with
      | (_, file, fs) => { s with fs }.setFile h file
  | .read h len =>
    (s.files h).map fun file =>
      match s.fs.readFile len file with
      | (_, _, file, fs) => { s with fs }.setFile h file
  | .write h data now =>
    match s.files h with
    | none => none
    | some file =>
      if file.pos.toNat + data.length < 2 ^ 31 then
        match s.fs.writeFile data now file with
        | (ret, file', fs) =>
          some (({ s with fs }.setFile h file').note file.inum file.pos.toNat
            (data.take ret.toNat))
      else none
  | .truncate h now =>
    (s.files h).map fun file => { s with fs := s.fs.truncateFile now file }.forget file.inum

/-- No byte of the inode is different, and it has the same size. -/
def SameFile (fs fs' : FileSys) (inum : ULong) : Prop :=
  (fs'.inode inum).size = (fs.inode inum).size ∧
    ∀ off, fs'.byteAt inum off = fs.byteAt inum off

/-- What a call should return, and what it should leave alone. -/
def ActsOnFile (s : FileRun) : FileOp → Prop
  | .seek h arg type => ∀ file, s.files h = some file →
    ∀ inum, SameFile s.fs (s.fs.seekFile arg type file).2.2 inum
  | .read h len => ∀ file, s.files h = some file →
    ∃ bytes file' fs', s.fs.readFile len file = ((bytes.length : ℤ), bytes, file', fs') ∧
      bytes.length = min len.toNat ((s.fs.inode file.inum).size.toNat - file.pos.toNat) ∧
      (∀ i < bytes.length, ∀ v, s.written file.inum (file.pos.toNat + i) = some v → bytes[i]? = some v) ∧
      file'.pos.toNat = file.pos.toNat + bytes.length ∧ ∀ inum, SameFile s.fs fs' inum
  | .write h data now => ∀ file, s.files h = some file → file.pos.toNat + data.length < 2 ^ 31 →
    ∃ ret file' fs', s.fs.writeFile data now file = (ret, file', fs') ∧
      (ret = data.length ∨ fs'.freeBlocks = []) ∧
      file'.pos.toNat = file.pos.toNat + ret.toNat ∧
      ∀ inum, inum ≠ file.inum → SameFile s.fs fs' inum
  | .truncate h now => ∀ file, s.files h = some file →
    ∀ inum, inum ≠ file.inum → SameFile s.fs (s.fs.truncateFile now file) inum

/-! ## The invariant -/

/-- The handles are open for reading and writing, on inodes of the device. -/
structure Opened (s : FileRun) : Prop where
  consistent : Consistent s.fs
  ioResult : 0 ≤ s.fs.ioResult
  size : ∀ inum : ULong, inum.toNat < s.fs.sup.numInodes.toNat →
    (s.fs.inode inum).size.toNat < 2 ^ 31
  inum : ∀ h file, s.files h = some file → file.inum.toNat < s.fs.sup.numInodes.toNat
  mode : ∀ h file, s.files h = some file → file.mode &&& F_READ ≠ 0 ∧ file.mode &&& F_WRITE ≠ 0
  pos : ∀ h file, s.files h = some file → file.pos.toNat < 2 ^ 31

/-- What has been written is there. -/
structure Kept (s : FileRun) : Prop extends Opened s where
  written : ∀ inum off v, s.written inum off = some v → off < 2 ^ 31 ∧
    s.fs.dataBlock inum (off / FS_BLKSIZ) ≠ 0 ∧ s.fs.byteAt inum off = v

section

variable {s : FileRun} {fs fs' : FileSys} {file file' : File} {inum now : ULong} {h : ℕ}

theorem SameFile.refl (fs : FileSys) (inum : ULong) : SameFile fs fs inum := ⟨rfl, fun _ => rfl⟩

theorem SameFile.fail (fs : FileSys) (e : ℤ) (inum : ULong) : SameFile fs (fs.fail e) inum :=
  ⟨rfl, fun _ => rfl⟩

/-! ### `seek_file` -/

theorem seekFile_spec (fs : FileSys) (arg : ULong) (type : SeekType) (file : File) :
    ∃ ret pos e, fs.seekFile arg type file = (ret, { file with pos }, fs.fail e) ∧
      (pos = file.pos ∨ pos.toNat < 2 ^ 31) := by
  unfold seekFile
  rcases type with _ | whence
  · exact ⟨_, file.pos, _, rfl, .inl rfl⟩
  · simp only
    generalize newPos file (fs.inode file.inum).size arg whence = newPos
    split
    · exact ⟨_, file.pos, _, rfl, .inl rfl⟩
    · rename_i hpos
      refine ⟨_, newPos, fs.errno, rfl, .inr ?_⟩
      have hnonneg : 0 ≤ newPos.toInt := by
        by_contra hneg
        exact hpos (.inl (by omega))
      rw [BitVec.toInt_eq_toNat_cond] at hnonneg
      split at hnonneg <;> omega

/-! ### Files that a call leaves alone -/

/-- A write to another inode. -/
theorem Writes.sameFile {lo hi : ℕ} {val : ℕ → UChar} {n : ULong}
    (hw : Writes fs fs' inum lo hi val) (hne : n ≠ inum) : SameFile fs fs' n := by
  have hblock : ∀ k, fs'.dataBlock n k = fs.dataBlock n k := by
    intro k
    rcases hw.walk (dataPath n k) (valid_dataPath n k) with heq | ⟨hbase, -⟩
    · exact heq
    · rw [base_dataPath] at hbase
      exact absurd hbase hne
  refine ⟨hw.attrs.size n, fun off => ?_⟩
  rw [byteAt, byteAt, hblock]
  by_cases h0 : fs.dataBlock n (off / FS_BLKSIZ) = 0
  · simp only [if_pos h0]
  · have hdisk := hw.others _ (valid_dataPath n _) (dataPath_leaf n _).2
      (by rwa [base_dataPath]) h0
    simp only [if_neg h0]
    exact congrArg (Blk.byte · _) hdisk

theorem SameFile.change {c : Change} {n : ULong} (hk : KeepsPtrs c) (hne : n ≠ inum)
    (hs : SameFile fs fs' n) : SameFile fs (fs'.change inum c) n := by
  refine ⟨?_, fun off => ?_⟩
  · rw [change_inode_of_ne hne, hs.1]
  · rw [byteAt_change hk, hs.2]

theorem Releases.dataBlock (hr : Releases fs fs' inum) (n : ULong) (k : ℕ) :
    fs'.dataBlock n k = if n = inum then 0 else fs.dataBlock n k := by
  rw [FileSys.dataBlock, hr.walk _ (valid_dataPath n k), base_dataPath]
  rfl

theorem Releases.byteAt_of_ne (hr : Releases fs fs' inum) {n : ULong} (hne : n ≠ inum) (off : ℕ) :
    fs'.byteAt n off = fs.byteAt n off := by
  rw [byteAt, byteAt, hr.dataBlock, if_neg hne]
  by_cases h0 : fs.dataBlock n (off / FS_BLKSIZ) = 0
  · simp only [if_pos h0]
  · have hdisk := hr.leaf _ (valid_dataPath n _) (dataPath_leaf n _).2
      (by rwa [base_dataPath]) h0
    simp only [if_neg h0]
    exact congrArg (Blk.byte · _) hdisk

theorem sameFile_deleteInodeData (hc : Consistent fs) (hn : inum.toNat < fs.sup.numInodes.toNat)
    {n : ULong} (hne : n ≠ inum) : SameFile fs (fs.deleteInodeData inum now) n := by
  have hinode := deleteInodeData_inode hc now hn n
  rw [if_neg hne] at hinode
  have hsize := congrArg Inode.size hinode
  exact ⟨hsize, (deleteInodeData_releases hc now hn).byteAt_of_ne hne⟩

/-! ### What a call returns -/

theorem toNat_add_of_lt {pos : ULong} {n : ℕ} (hlt : pos.toNat + n < 2 ^ 31) :
    (pos + BitVec.ofNat 32 n).toNat = pos.toNat + n :=
  toNat_pos_add (by omega)

theorem length_bytesAt (fs : FileSys) (inum : ULong) (off len : ℕ) :
    (fs.bytesAt inum off len).length = len := by
  rw [bytesAt, List.length_map, List.length_range]

theorem getElem?_bytesAt (fs : FileSys) (inum : ULong) (off : ℕ) {i len : ℕ} (hi : i < len) :
    (fs.bytesAt inum off len)[i]? = some (fs.byteAt inum (off + i)) := by
  rw [bytesAt, List.getElem?_map, List.getElem?_range hi]
  rfl

/-- In the states of the invariant, calls act as they should. -/
theorem Kept.acts (hs : Kept s) (op : FileOp) : ActsOnFile s op := by
  cases op with
  | seek h arg type =>
    intro file hfile n
    obtain ⟨ret, pos, e, heq, -⟩ := seekFile_spec s.fs arg type file
    rw [heq]
    exact .fail _ _ _
  | read h len =>
    intro file hfile
    have hsize := hs.size file.inum (hs.inum h file hfile)
    have hpos := hs.pos h file hfile
    obtain ⟨e, heq⟩ := readFile_spec hs.consistent (hs.inum h file hfile)
      len (.inl hsize) (hs.mode h file hfile).1
    refine ⟨_, _, _, by rw [length_bytesAt]; exact heq, length_bytesAt .., ?_, ?_, fun n => .fail _ _ n⟩
    · intro i hi v hv
      rw [length_bytesAt] at hi
      rw [getElem?_bytesAt _ _ _ hi, (hs.written _ _ _ hv).2.2]
    · rw [length_bytesAt]
      exact toNat_add_of_lt (by omega)
  | write h data now =>
    intro file hfile hlen
    obtain ⟨ret, fs₁, heq, hw, hle, hwhy, -⟩ := writeFile_spec hs.consistent (hs.inum h file hfile)
      (hs.mode h file hfile).2 hs.ioResult (show file.pos.toNat + data.length < 2 ^ 32 by omega) now
    refine ⟨_, _, _, heq, ?_, toNat_add_of_lt (by omega), ?_⟩
    · rwa [freeBlocks_change]
    · exact fun n hne => (hw.sameFile hne).change (keepsPtrs_write _ _ _) hne
  | truncate h now =>
    intro file hfile n hne
    exact sameFile_deleteInodeData hs.consistent (hs.inum h file hfile) hne

/-! ### The invariant along runs -/

/-- The handle may move, and the file system change, as long as sizes and positions stay in
bounds. -/
theorem Opened.setFile (hs : Opened s) (hfile : s.files h = some file) {pos : ULong}
    (hpos : pos.toNat < 2 ^ 31) (hc' : Consistent fs') (hsup : fs'.sup = s.fs.sup)
    (hio : fs'.ioResult = s.fs.ioResult) (hsize : ∀ n : ULong, n.toNat < s.fs.sup.numInodes.toNat → (fs'.inode n).size.toNat < 2 ^ 31) :
    Opened ({ s with fs := fs' }.setFile h { file with pos }) := by
  have hfiles : ∀ g f, Function.update s.files h (some { file with pos }) g = some f →
      f = { file with pos } ∨ s.files g = some f := by
    intro g f hf
    rw [Function.update_apply] at hf
    split at hf
    · exact .inl (Option.some.inj hf).symm
    · exact .inr hf
  refine ⟨hc', hio ▸ hs.ioResult, fun n hn => hsize n (hsup ▸ hn), ?_, ?_, ?_⟩
  · intro g f hf
    show f.inum.toNat < fs'.sup.numInodes.toNat
    rw [hsup]
    rcases hfiles g f hf with rfl | hf'
    · exact hs.inum h file hfile
    · exact hs.inum g f hf'
  · intro g f hf
    rcases hfiles g f hf with rfl | hf'
    · exact hs.mode h file hfile
    · exact hs.mode g f hf'
  · intro g f hf
    rcases hfiles g f hf with rfl | hf'
    · exact hpos
    · exact hs.pos g f hf'

/-- A call that changes nothing but the position. -/
theorem Kept.setFile (hs : Kept s) (hfile : s.files h = some file) {pos : ULong}
    (hpos : pos.toNat < 2 ^ 31) (e : ℤ) :
    Kept ({ s with fs := s.fs.fail e }.setFile h { file with pos }) where
  __ := hs.toOpened.setFile hfile hpos (hs.consistent.fail e) rfl rfl hs.size
  written := hs.written

/-- A write. What it has overwritten is not what was there before. -/
theorem Kept.write (hs : Kept s) (hfile : s.files h = some file) {data : List UChar} {ret : ℤ}
    {fs₁ : FileSys} {c : Change} (hk : KeepsPtrs c)
    (hc : ((fs₁.change file.inum c).inode file.inum).size.toNat < 2 ^ 31)
    (hw : Writes s.fs fs₁ file.inum file.pos.toNat (file.pos.toNat + ret.toNat)
      (fun off => data.getD (off - file.pos.toNat) 0))
    (hle : ret.toNat ≤ data.length) (hlen : file.pos.toNat + data.length < 2 ^ 31) :
    Kept (({ s with fs := fs₁.change file.inum c }.setFile h
      { file with pos := file.pos + BitVec.ofNat 32 ret.toNat }).note file.inum file.pos.toNat
        (data.take ret.toNat)) := by
  have hlen' : (data.take ret.toNat).length = ret.toNat := by
    rw [List.length_take]
    omega
  have hopened : Opened ({ s with fs := fs₁.change file.inum c }.setFile h
      { file with pos := file.pos + BitVec.ofNat 32 ret.toNat }) := by
    apply hs.toOpened.setFile hfile _ (hw.consistent.change hk)
    · rw [change_sup, hw.sup]
    · rw [change_ioResult, hw.ioResult]
    · intro n hlt
      by_cases hn : n = file.inum
      · rwa [hn]
      · rw [change_inode_of_ne hn, hw.attrs.size]
        exact hs.size n hlt
    · rw [toNat_add_of_lt] <;> omega
  refine ⟨⟨hopened.consistent, hopened.ioResult, hopened.size, hopened.inum, hopened.mode,
    hopened.pos⟩, ?_⟩
  -- what has been written before, to this inode or another one
  have hold : ∀ n off v, s.written n off = some v →
      (n = file.inum → ¬(file.pos.toNat ≤ off ∧ off < file.pos.toNat + ret.toNat)) →
      off < 2 ^ 31 ∧ (fs₁.change file.inum c).dataBlock n (off / FS_BLKSIZ) ≠ 0 ∧
        (fs₁.change file.inum c).byteAt n off = v := by
    intro n off v hv hout
    obtain ⟨hlt, h0, hbyte⟩ := hs.written n off v hv
    rw [dataBlock_change hk, byteAt_change hk, hw.dataBlock_of_ne h0]
    refine ⟨hlt, h0, ?_⟩
    by_cases hn : n = file.inum
    · subst hn
      rw [hw.kept off (hout rfl) (by omega) h0, hbyte]
    · rw [(hw.sameFile hn).2, hbyte]
  intro n off v hv
  change (Function.update s.written file.inum _) n off = some v at hv
  by_cases hn : n = file.inum
  · rw [hn, Function.update_self, hlen'] at hv
    split at hv
    · rename_i hin
      obtain ⟨h0, hbyte⟩ := hw.written off hin.1 hin.2 (by omega)
      rw [List.getElem?_take_of_lt (by omega)] at hv
      rw [List.getD_eq_getElem?_getD, hv] at hbyte
      refine ⟨by omega, ?_, ?_⟩
      · show (fs₁.change file.inum c).dataBlock n _ ≠ 0
        rwa [dataBlock_change hk, hn]
      · show (fs₁.change file.inum c).byteAt n off = v
        rwa [byteAt_change hk, hn]
    · rename_i hout
      exact hold n off v (hn ▸ hv) fun _ => hout
  · rw [Function.update_of_ne hn] at hv
    exact hold n off v hv fun heq => absurd heq hn

theorem Kept.truncate (hs : Kept s) (hn : inum.toNat < s.fs.sup.numInodes.toNat) (now : ULong) :
    Kept ({ s with fs := s.fs.deleteInodeData inum now }.forget inum) := by
  have hr := deleteInodeData_releases hs.consistent now hn
  have hinode := deleteInodeData_inode hs.consistent now hn
  generalize s.fs.deleteInodeData inum now = fs' at hr hinode ⊢
  have hsup := hr.sup
  refine ⟨⟨hr.consistent, hr.ioResult ▸ hs.ioResult, ?_, ?_, hs.mode, hs.pos⟩, ?_⟩
  · intro n hn'
    have hsize := congrArg (fun i => i.size.toNat) (hinode n)
    dsimp only at hsize
    show (fs'.inode n).size.toNat < _
    rw [hsize]
    split
    · show (0 : ULong).toNat < 2 ^ 31
      decide
    · exact hs.size n (hsup ▸ hn')
  · intro g f hf
    show f.inum.toNat < fs'.sup.numInodes.toNat
    rw [hsup]
    exact hs.inum g f hf
  · intro n off v hv
    change (Function.update s.written inum fun _ => none) n off = some v at hv
    by_cases hne : n = inum
    · rw [hne, Function.update_self] at hv
      cases hv
    · rw [Function.update_of_ne hne] at hv
      obtain ⟨hlt, h0, hbyte⟩ := hs.written n off v hv
      refine ⟨hlt, ?_, ?_⟩
      · show fs'.dataBlock n _ ≠ 0
        rwa [hr.dataBlock, if_neg hne]
      · exact (hr.byteAt_of_ne hne off).trans hbyte

theorem fileStep_kept : Runs.Preserves fileStep (fun _ _ => True) Kept := by
  intro s op s' hs _ hstep
  cases op with
  | seek h arg type =>
    obtain ⟨file, hfile, rfl⟩ := Option.map_eq_some_iff.mp hstep
    obtain ⟨ret, pos, e, heq, hpos⟩ := seekFile_spec s.fs arg type file
    rw [heq]
    apply hs.setFile hfile
    rcases hpos with rfl | hpos
    · exact hs.pos h file hfile
    · exact hpos
  | read h len =>
    obtain ⟨file, hfile, rfl⟩ := Option.map_eq_some_iff.mp hstep
    have hsize := hs.size file.inum (hs.inum h file hfile)
    have hpos := hs.pos h file hfile
    obtain ⟨e, heq⟩ := readFile_spec hs.consistent (hs.inum h file hfile)
      len (.inl hsize) (hs.mode h file hfile).1
    rw [heq]
    apply hs.setFile hfile
    rw [toNat_add_of_lt] <;> omega
  | write h data now =>
    rw [fileStep] at hstep
    rcases hfile : s.files h with _ | file
    · rw [hfile] at hstep
      cases hstep
    · rw [hfile] at hstep
      simp only [Option.ite_none_right_eq_some] at hstep
      obtain ⟨hlen, hstep⟩ := hstep
      obtain ⟨ret, fs₁, heq, hw, hle, -⟩ := writeFile_spec hs.consistent (hs.inum h file hfile)
        (hs.mode h file hfile).2 hs.ioResult (show file.pos.toNat + data.length < 2 ^ 32 by omega) now
      rw [heq] at hstep
      obtain rfl := Option.some.inj hstep
      apply hs.write hfile (keepsPtrs_write _ _ _) _ hw hle hlen
      have hsize := hs.size file.inum (hs.inum h file hfile)
      rw [change_write_size, toNat_add_of_lt (by omega), hw.attrs.size]
      omega
  | truncate h now =>
    obtain ⟨file, hfile, rfl⟩ := Option.map_eq_some_iff.mp hstep
    exact hs.truncate (hs.inum h file hfile) now

/-- **Read your writes.** On any handles, in any order of calls, a read returns what was
written last, and no call touches another file. -/
theorem read_your_writes {files : ℕ → Option File} (hs : Opened ⟨fs, files, fun _ _ => none⟩)
    (ops : List FileOp) : Runs.Along fileStep ActsOnFile ⟨fs, files, fun _ _ => none⟩ ops :=
  fileStep_kept.along (fun _ op hk _ => hk.acts op) ⟨hs, by simp⟩ (Runs.along_true _ ops)

/-- Three bytes, written to a new file and read again. -/
theorem read_your_writes_twenty : ∃ fs, FreshlyMade fs ∧
    Runs.Along fileStep ActsOnFile ⟨fs, fun _ => some ⟨1, F_READ ||| F_WRITE, 0⟩, fun _ _ => none⟩
      [.write 0 [1, 2, 3] 0, .seek 0 0 (some .abs), .read 0 3] := by
  obtain ⟨fs, hfresh, hsup, hio, -⟩ := exists_freshlyMade_on fun _ => Blk.zero
  refine ⟨fs, hfresh, read_your_writes ?_ _⟩
  constructor
  · exact hfresh.consistent
  · rw [hio]
  · intro inum hn
    obtain ⟨now, hinode⟩ := hfresh.inode_eq hn
    show (fs.inode inum).size.toNat < 2 ^ 31
    rw [hinode]
    split
    · show (64 : ULong).toNat < 2 ^ 31
      decide
    · show (0 : ULong).toNat < 2 ^ 31
      decide
  · rintro h file ⟨⟩
    show (1 : ULong).toNat < fs.sup.numInodes.toNat
    rw [hsup]
    decide
  · rintro h file ⟨⟩
    decide
  · rintro h file ⟨⟩
    decide

end

end Vmm386.Fs.FileSys
