import Vmm386.Spooler.Spool

/-!
# What the calls of the file system do to the spooler's files

Opening, copying and closing, and the call `add_spool_file` that is made of them.
-/

namespace Vmm386.SpoolerModule

/-! ## Opening -/

namespace Files

variable {fs fs' : Files} {name : CString} {i f : ℕ}

/-- The names are of files that have been made. -/
def WellFormed (fs : Files) : Prop := ∀ n i, fs.inode n = some i → i < fs.nextInode

@[simp] theorem setFile_inode (x : OpenFile) : (fs.setFile f x).inode = fs.inode := rfl

@[simp] theorem setFile_data (x : OpenFile) : (fs.setFile f x).data = fs.data := rfl

@[simp] theorem setFile_nextInode (x : OpenFile) : (fs.setFile f x).nextInode = fs.nextInode := rfl

@[simp] theorem setFile_nextFile (x : OpenFile) : (fs.setFile f x).nextFile = fs.nextFile := rfl

@[simp] theorem setFile_self (x : OpenFile) : (fs.setFile f x).file f = x := by
  simp only [setFile, Function.update_self]

theorem setFile_of_ne {g : ℕ} (x : OpenFile) (h : g ≠ f) : (fs.setFile f x).file g = fs.file g := by
  simp only [setFile, Function.update_of_ne h]

@[simp] theorem setData_inode (d : List UChar) : (fs.setData i d).inode = fs.inode := rfl

@[simp] theorem setData_file (d : List UChar) : (fs.setData i d).file = fs.file := rfl

@[simp] theorem setData_nextInode (d : List UChar) :
    (fs.setData i d).nextInode = fs.nextInode := rfl

@[simp] theorem setData_nextFile (d : List UChar) : (fs.setData i d).nextFile = fs.nextFile := rfl

@[simp] theorem setData_self (d : List UChar) : (fs.setData i d).data i = d := by
  simp only [setData, Function.update_self]

theorem setData_of_ne {j : ℕ} (d : List UChar) (h : j ≠ i) :
    (fs.setData i d).data j = fs.data j := by
  simp only [setData, Function.update_of_ne h]

/-- `fs'` differs from `fs` in the file `i`, which is empty and has the name `name`, and which
is a new one if there was none of this name. -/
structure Emptied (fs fs' : Files) (name : CString) (i : ℕ) : Prop where
  named : fs'.inode name = some i
  bound : ∀ n j, fs.inode n = some j → fs'.inode n = some j
  empty : fs'.data i = []
  data : ∀ j ≠ i, fs'.data j = fs.data j
  origin : fs.inode name = some i ∨ (fs.inode name = none ∧ i = fs.nextInode)
  nextInode : fs.nextInode ≤ fs'.nextInode
  wellFormed : fs'.WellFormed
  file : fs'.file = fs.file
  nextFile : fs'.nextFile = fs.nextFile

theorem make_inode_self : (fs.make name).inode name = some fs.nextInode := by
  simp only [make, setData_inode, Function.update_self]

theorem make_inode_of_ne {n : CString} (h : n ≠ name) :
    (fs.make name).inode n = fs.inode n := by
  simp only [make, setData_inode, Function.update_of_ne h]

theorem WellFormed.make (h : fs.WellFormed) : (fs.make name).WellFormed := by
  intro n j hj
  by_cases hn : n = name
  · rw [hn, make_inode_self] at hj
    cases hj
    exact Nat.lt_succ_self _
  · rw [make_inode_of_ne hn] at hj
    exact Nat.lt_succ_of_lt (h n j hj)

theorem emptied_make (hwf : fs.WellFormed) (h : fs.inode name = none) :
    Emptied fs (fs.make name) name fs.nextInode where
  named := make_inode_self
  bound n j hj := by
    have hn : n ≠ name := by
      intro hn
      rw [hn, h] at hj
      cases hj
    exact (make_inode_of_ne hn).trans hj
  empty := setData_self []
  data _ hj := setData_of_ne [] hj
  origin := .inr ⟨h, rfl⟩
  nextInode := Nat.le_succ _
  wellFormed := hwf.make
  file := rfl
  nextFile := rfl

theorem emptied_setData (hwf : fs.WellFormed) (h : fs.inode name = some i) :
    Emptied fs (fs.setData i []) name i where
  named := h
  bound _ _ hj := hj
  empty := setData_self []
  data _ hj := setData_of_ne [] hj
  origin := .inl h
  nextInode := Nat.le_refl _
  wellFormed := hwf
  file := rfl
  nextFile := rfl

/-- `fs->open` for writing gives a new structure of an empty file, or fails. When it fails it
has changed nothing, or made an empty file. -/
theorem openWrite_spec (hwf : fs.WellFormed) (name : CString) (ans : OpenAnswer) :
    (ans = .opens ∧ ∃ fs₁ i, Emptied fs fs₁ name i ∧ fs.openWrite name ans = fs₁.makeFile i) ∨
    (ans ≠ .opens ∧ (fs.openWrite name ans).1 = none ∧
      ((fs.openWrite name ans).2 = fs ∨
        (fs.inode name = none ∧ ∃ i, Emptied fs (fs.openWrite name ans).2 name i))) := by
  unfold openWrite
  cases hname : fs.inode name with
  | none =>
    cases ans with
    | opens => exact .inl ⟨rfl, _, _, emptied_make hwf hname, rfl⟩
    | fails made =>
      refine .inr ⟨nofun, ?_⟩
      cases made with
      | false => exact ⟨rfl, .inl rfl⟩
      | true => exact ⟨rfl, .inr ⟨rfl, _, emptied_make hwf hname⟩⟩
  | some i =>
    cases ans with
    | opens => exact .inl ⟨rfl, _, _, emptied_setData hwf hname, rfl⟩
    | fails made => exact .inr ⟨nofun, rfl, .inl rfl⟩

end Files

/-! ## Copying -/

/-- What an answer in the copy loop says: the call of `fs->read` or the one of `fs->write` fails. -/
def CopyAnswer.Fails : CopyAnswer → Prop
  | .readFails => True
  | .copied actual wrote => wrote ≠ actual

instance : DecidablePred CopyAnswer.Fails
  | .readFails => inferInstanceAs (Decidable True)
  | .copied actual wrote => inferInstanceAs (Decidable (wrote ≠ actual))

/-- What copying from `src` to `dst` leaves as it was. -/
structure CopyFrame (src dst : ℕ) (fs fs' : Files) : Prop where
  inode : fs'.inode = fs.inode
  nextInode : fs'.nextInode = fs.nextInode
  nextFile : fs'.nextFile = fs.nextFile
  data : ∀ j ≠ (fs.file dst).inode, fs'.data j = fs.data j
  file : ∀ f, f ≠ src → f ≠ dst → fs'.file f = fs.file f
  fileInode : ∀ f, (fs'.file f).inode = (fs.file f).inode
  closes : ∀ f, (fs'.file f).closes = (fs.file f).closes

namespace CopyFrame

variable {src dst : ℕ} {fs fs₁ fs₂ : Files}

theorem refl : CopyFrame src dst fs fs :=
  ⟨rfl, rfl, rfl, fun _ _ => rfl, fun _ _ _ => rfl, fun _ => rfl, fun _ => rfl⟩

theorem trans (h : CopyFrame src dst fs fs₁) (h' : CopyFrame src dst fs₁ fs₂) :
    CopyFrame src dst fs fs₂ where
  inode := h'.inode.trans h.inode
  nextInode := h'.nextInode.trans h.nextInode
  nextFile := h'.nextFile.trans h.nextFile
  data j hj := (h'.data j (by rwa [h.fileInode])).trans (h.data j hj)
  file f hsrc hdst := (h'.file f hsrc hdst).trans (h.file f hsrc hdst)
  fileInode f := (h'.fileInode f).trans (h.fileInode f)
  closes f := (h'.closes f).trans (h.closes f)

end CopyFrame

section Copying

variable {fs fs' : Files} {src dst : ℕ}

theorem seek_inode (f g n : ℕ) : ((fs.seek f n).file g).inode = (fs.file g).inode := by
  by_cases h : g = f
  · rw [h, Files.seek, Files.setFile_self]
  · rw [Files.seek, Files.setFile_of_ne _ h]

theorem seek_closes (f g n : ℕ) : ((fs.seek f n).file g).closes = (fs.file g).closes := by
  by_cases h : g = f
  · rw [h, Files.seek, Files.setFile_self]
  · rw [Files.seek, Files.setFile_of_ne _ h]

theorem seek_pos (f n : ℕ) : ((fs.seek f n).file f).pos = (fs.file f).pos + n := by
  rw [Files.seek, Files.setFile_self]

theorem seek_of_ne {f g n : ℕ} (h : g ≠ f) : (fs.seek f n).file g = fs.file g :=
  Files.setFile_of_ne _ h

theorem write_data_self (f : ℕ) (buf : List UChar) :
    (fs.write f buf).data (fs.file f).inode =
      overwrite (fs.data (fs.file f).inode) (fs.file f).pos buf :=
  Files.setData_self _

theorem write_data_of_ne {f j : ℕ} (buf : List UChar) (h : j ≠ (fs.file f).inode) :
    (fs.write f buf).data j = fs.data j :=
  Files.setData_of_ne _ h

/-- One pass of the copy loop. -/
theorem copyFrame_pass (n : ℕ) (buf : List UChar) :
    CopyFrame src dst fs ((fs.seek src n).write dst buf) where
  inode := rfl
  nextInode := rfl
  nextFile := rfl
  data j hj := by
    rw [write_data_of_ne buf (by rwa [seek_inode])]
    rfl
  file f hsrc hdst := by
    have hwrite : ((fs.seek src n).write dst buf).file f = (fs.seek src n).file f :=
      seek_of_ne hdst
    rw [hwrite, seek_of_ne hsrc]
  fileInode f := by
    have hwrite : (((fs.seek src n).write dst buf).file f).inode = ((fs.seek src n).file f).inode :=
      seek_inode dst f _
    rw [hwrite, seek_inode]
  closes f := by
    have hwrite :
        (((fs.seek src n).write dst buf).file f).closes = ((fs.seek src n).file f).closes :=
      seek_closes dst f _
    rw [hwrite, seek_closes]

theorem overwrite_take (old buf : List UChar) {n : ℕ} (hn : n ≤ old.length) :
    overwrite (old.take n) n buf = old.take n ++ buf := by
  have hlen : (old.take n).length = n := List.length_take_of_le hn
  unfold overwrite
  rw [hlen, Nat.sub_self, List.replicate_zero, List.append_nil, List.take_of_length_le (by omega),
    List.drop_eq_nil_of_le (by omega), List.append_nil]

/-- The copy is as far as its source has been read. -/
structure Copied (src dst : ℕ) (fs : Files) : Prop where
  pos_le : (fs.file src).pos ≤ (fs.data (fs.file src).inode).length
  pos_eq : (fs.file dst).pos = (fs.file src).pos
  data : fs.data (fs.file dst).inode = (fs.data (fs.file src).inode).take (fs.file src).pos

/-- A pass without failures takes the copy further. -/
theorem Copied.pass (h : Copied src dst fs) (hne : (fs.file src).inode ≠ (fs.file dst).inode)
    {actual : ℕ} (hread : ReadAnswer fs src actual) :
    Copied src dst ((fs.seek src actual).write dst (fs.piece src actual)) := by
  have hsd : src ≠ dst := by
    intro heq
    exact hne (by rw [heq])
  obtain ⟨-, hlen, -⟩ := hread
  have hframe : CopyFrame src dst fs ((fs.seek src actual).write dst (fs.piece src actual)) :=
    copyFrame_pass actual (fs.piece src actual)
  have hpiece : (fs.piece src actual).length = actual := by
    unfold Files.piece
    rw [List.length_take, List.length_drop]
    omega
  have hsrc : (((fs.seek src actual).write dst (fs.piece src actual)).file src).pos =
      (fs.file src).pos + actual := by
    have hwrite : ((fs.seek src actual).write dst (fs.piece src actual)).file src =
        (fs.seek src actual).file src := seek_of_ne hsd
    rw [hwrite, seek_pos]
  have hdst : (((fs.seek src actual).write dst (fs.piece src actual)).file dst).pos =
      (fs.file dst).pos + actual := by
    have hwrite : (((fs.seek src actual).write dst (fs.piece src actual)).file dst).pos =
        ((fs.seek src actual).file dst).pos + (fs.piece src actual).length := seek_pos dst _
    rw [hwrite, hpiece, seek_of_ne hsd.symm]
  have hdata := hframe.data _ hne
  refine ⟨?_, ?_, ?_⟩
  · rw [hframe.fileInode, hdata, hsrc]
    exact hlen
  · rw [hdst, hsrc, h.pos_eq]
  · have hself : ((fs.seek src actual).write dst (fs.piece src actual)).data
        ((fs.seek src actual).file dst).inode =
        overwrite ((fs.seek src actual).data ((fs.seek src actual).file dst).inode)
          ((fs.seek src actual).file dst).pos (fs.piece src actual) := write_data_self dst _
    rw [seek_inode, seek_of_ne hsd.symm] at hself
    have hold : (fs.seek src actual).data = fs.data := rfl
    rw [hold, h.data, h.pos_eq, overwrite_take _ _ h.pos_le] at hself
    rw [hframe.fileInode, hframe.fileInode, hself, hdata, hsrc, List.take_add]
    rfl

/-- The copy loop succeeds if no call fails. -/
theorem copyFile_ok {as : List CopyAnswer} {ok : Bool} :
    ∀ {fs : Files}, copyFile src dst as fs = some (ok, fs') →
      (ok = true ↔ ∀ x ∈ as, ¬x.Fails) := by
  induction as with
  | nil => intro fs h; cases h
  | cons x rest ih =>
    intro fs h
    rw [List.forall_mem_cons]
    cases x with
    | readFails =>
      simp only [copyFile] at h
      split at h
      · cases h
        simp [CopyAnswer.Fails]
      · cases h
    | copied actual wrote =>
      simp only [copyFile] at h
      have hfails : ¬(CopyAnswer.copied actual wrote).Fails ↔ wrote = actual := not_not
      rw [hfails]
      split at h
      · split at h
        next hne =>
          split at h
          · cases h
            simp [hne]
          · cases h
        next hne =>
          split at h
          · rw [ih h]
            exact (and_iff_right (not_not.mp hne)).symm
          · split at h
            next hrest =>
              cases h
              rw [List.isEmpty_iff.mp hrest]
              simpa using hne
            next => cases h
      · cases h

theorem copyFile_frame {as : List CopyAnswer} {ok : Bool} :
    ∀ {fs : Files}, copyFile src dst as fs = some (ok, fs') → CopyFrame src dst fs fs' := by
  induction as with
  | nil => intro fs h; cases h
  | cons x rest ih =>
    intro fs h
    cases x with
    | readFails =>
      simp only [copyFile] at h
      split at h
      · cases h
        exact .refl
      · cases h
    | copied actual wrote =>
      simp only [copyFile] at h
      split at h
      · split at h
        · split at h
          · cases h
            exact copyFrame_pass _ _
          · cases h
        · split at h
          · exact (copyFrame_pass _ _).trans (ih h)
          · split at h
            · cases h
              exact copyFrame_pass _ _
            · cases h
      · cases h

/-- **The copy loop.** When it succeeds, the new file contains what its source contains. -/
theorem copyFile_data {as : List CopyAnswer} :
    ∀ {fs : Files}, copyFile src dst as fs = some (true, fs') → Copied src dst fs →
      (fs.file src).inode ≠ (fs.file dst).inode →
      fs'.data (fs.file dst).inode = fs.data (fs.file src).inode := by
  induction as with
  | nil => intro fs h; cases h
  | cons x rest ih =>
    intro fs h hc hne
    cases x with
    | readFails =>
      simp only [copyFile] at h
      split at h <;> cases h
    | copied actual wrote =>
      simp only [copyFile] at h
      split at h
      next hans =>
        split at h
        · split at h <;> cases h
        next hwrote =>
          have hall : (fs.piece src actual).take wrote = fs.piece src actual := by
            rw [not_not.mp hwrote]
            exact List.take_of_length_le (List.length_take_le _ _)
          have hframe : CopyFrame src dst fs
              ((fs.seek src actual).write dst (fs.piece src actual)) := copyFrame_pass _ _
          have hpass := hc.pass hne hans.1
          rw [hall] at h
          split at h
          · have hrest := ih h hpass (by rwa [hframe.fileInode, hframe.fileInode])
            rw [hframe.fileInode, hframe.fileInode, hframe.data _ hne] at hrest
            exact hrest
          next hzero =>
            split at h
            · cases h
              -- nothing was read, so the source has been read to its end
              have hend := hans.1.2.2 (by omega)
              have hdata := hpass.data
              have hpos : (((fs.seek src actual).write dst (fs.piece src actual)).file src).pos =
                  (fs.file src).pos + actual := by
                have hsd : src ≠ dst := by
                  intro heq
                  exact hne (by rw [heq])
                have hwrite : ((fs.seek src actual).write dst (fs.piece src actual)).file src =
                    (fs.seek src actual).file src := seek_of_ne hsd
                rw [hwrite, seek_pos]
              rw [hframe.fileInode, hframe.fileInode, hframe.data _ hne, hpos] at hdata
              rw [hdata]
              exact List.take_of_length_le (by omega)
            · cases h
      · cases h

end Copying

/-! ## `add_spool_file` -/

theorem close_inode (fs : Files) (f : ℕ) : (fs.close f).inode = fs.inode := rfl

theorem close_data (fs : Files) (f : ℕ) : (fs.close f).data = fs.data := rfl

theorem close_of_ne {fs : Files} {f g : ℕ} (h : g ≠ f) : (fs.close f).file g = fs.file g :=
  Files.setFile_of_ne _ h

theorem close_closes (fs : Files) (f : ℕ) :
    ((fs.close f).file f).closes = (fs.file f).closes + 1 := by
  rw [Files.close, Files.setFile_self]

/-- A call of the file system or of `malloc` fails. -/
def AddAnswers.Fails (a : AddAnswers) : Prop :=
  a.newEntry = false ∨ a.realName = false ∨ a.src = false ∨ a.dst ≠ .opens ∨
    ∃ x ∈ a.copy, x.Fails

/-- `add_spool_file` of `fname` queues nothing. -/
def AddFails (fs : Files) (fname : CString) (a : AddAnswers) : Prop :=
  a.Fails ∨ fs.inode fname = none

/-- `add_spool_file` of `fname` comes to empty its spool file. -/
def Reaches (fs : Files) (fname : CString) (a : AddAnswers) : Prop :=
  a.newEntry = true ∧ a.realName = true ∧ a.src = true ∧ a.dst = .opens ∧ fs.inode fname ≠ none

instance (a : AddAnswers) : Decidable a.Fails :=
  inferInstanceAs (Decidable (_ ∨ _ ∨ _ ∨ _ ∨ _))

instance (fs : Files) (fname : CString) (a : AddAnswers) : Decidable (AddFails fs fname a) :=
  inferInstanceAs (Decidable (_ ∨ _))

instance (fs : Files) (fname : CString) (a : AddAnswers) : Decidable (Reaches fs fname a) :=
  inferInstanceAs (Decidable (_ ∧ _ ∧ _ ∧ _ ∧ _))

/-- What a call of `add_spool_file` does, that returns `ok`. -/
structure Added (s : Spooler) (fname : CString) (a : AddAnswers) (ok : Bool) (s' : Spooler) :
    Prop where
  handles : s'.handles = s.handles
  bound : ∀ n i, s.fs.inode n = some i → s'.fs.inode n = some i
  sourceless : s.fs.inode fname = none → s'.fs.inode = s.fs.inode
  data : ∀ i < s.fs.nextInode, (Reaches s.fs fname a → s.fs.inode a.spoolName ≠ some i) →
    s'.fs.data i = s.fs.data i
  file : ∀ f < s.fs.nextFile, s'.fs.file f = s.fs.file f
  nextFile : s.fs.nextFile ≤ s'.fs.nextFile
  wellFormed : s'.fs.WellFormed
  ok_iff : ok = true ↔ ¬AddFails s.fs fname a
  failed : ok = false → s'.spoolList = s.spoolList ∧
    ∀ f, s.fs.nextFile ≤ f → f < s'.fs.nextFile → (s'.fs.file f).closes = 1
  queued : ok = true → Reaches s.fs fname a ∧
    (∃ i, s'.fs.inode a.spoolName = some i ∧
      (s.fs.inode a.spoolName = some i ∨ s.fs.nextInode ≤ i) ∧
      (s.fs.inode fname ≠ s.fs.inode a.spoolName → s'.fs.data i = s.fs.contents fname)) ∧
    (∃ jobNo, s'.spoolList = s.spoolList ++ [⟨jobNo, a.spoolName, s.fs.contents fname⟩]) ∧
    s'.fs.nextFile = s.fs.nextFile + 2 ∧ (s'.fs.file s.fs.nextFile).closes = 0 ∧
    (s'.fs.file (s.fs.nextFile + 1)).closes = 1

section Adding

variable {s s' : Spooler} {fname : CString} {a : AddAnswers} {ok : Bool}

/-- A call that fails before it opens its source. -/
theorem added_early (hwf : s.fs.WellFormed) (hfails : AddFails s.fs fname a)
    {jobNumber : ULong} : Added s fname a false { s with jobNumber := jobNumber } where
  handles := rfl
  bound _ _ h := h
  sourceless _ := rfl
  data _ _ _ := rfl
  file _ _ := rfl
  nextFile := Nat.le_refl _
  wellFormed := hwf
  ok_iff := by simpa using hfails
  failed _ := ⟨rfl, fun f hle hlt => absurd hlt (Nat.not_lt.mpr hle)⟩
  queued := nofun

/-- A call that cannot open its spool file. -/
theorem added_unopened (hwf : s.fs.WellFormed) {i : ℕ} (hi : s.fs.inode fname = some i)
    (hdst : a.dst ≠ .opens) {fs₁ : Files} (hfs₁ : fs₁ = (s.fs.makeFile i).2) {fs₂ : Files}
    (hfs₂ : fs₂ = fs₁ ∨ (fs₁.inode a.spoolName = none ∧ ∃ j, Files.Emptied fs₁ fs₂ a.spoolName j))
    {jobNumber : ULong} :
    Added s fname a false
      { s with jobNumber := jobNumber, fs := fs₂.close s.fs.nextFile } := by
  have hfile₂ : fs₂.file = fs₁.file ∧ fs₂.nextFile = fs₁.nextFile := by
    rcases hfs₂ with heq | ⟨-, j, hj⟩
    · rw [heq]
      exact ⟨rfl, rfl⟩
    · exact ⟨hj.file, hj.nextFile⟩
  have hnext : fs₁.nextFile = s.fs.nextFile + 1 := by
    rw [hfs₁]
    rfl
  have hnew : (fs₁.file s.fs.nextFile).closes = 0 := by
    rw [hfs₁, Files.makeFile, Files.setFile_self]
  refine ⟨rfl, ?_, by simp [hi], ?_, ?_, ?_, ?_, by simp [AddFails, AddAnswers.Fails, hdst], ?_,
    nofun⟩
  · intro n j hj
    rcases hfs₂ with heq | ⟨-, k, hk⟩
    · rw [close_inode, heq, hfs₁]
      exact hj
    · exact hk.bound n j (by rw [hfs₁]; exact hj)
  · intro j hj _
    rcases hfs₂ with heq | ⟨hnone, k, hk⟩
    · rw [close_data, heq, hfs₁]
      rfl
    · -- the new file has a new number
      have hk' : k = s.fs.nextInode := by
        rcases hk.origin with h | ⟨-, h⟩
        · rw [hnone] at h
          cases h
        · rw [h, hfs₁]
          rfl
      rw [close_data, hk.data j (by omega), hfs₁]
      rfl
  · intro f hf
    rw [close_of_ne (Nat.ne_of_lt hf), hfile₂.1, hfs₁, Files.makeFile,
      Files.setFile_of_ne _ (Nat.ne_of_lt hf)]
  · show s.fs.nextFile ≤ fs₂.nextFile
    rw [hfile₂.2, hnext]
    exact Nat.le_succ _
  · rcases hfs₂ with heq | ⟨-, k, hk⟩
    · rw [heq, hfs₁]
      exact hwf
    · exact hk.wellFormed
  · intro _
    refine ⟨rfl, ?_⟩
    intro f hle hlt
    have hlt' : f < s.fs.nextFile + 1 := by
      have : fs₂.nextFile = s.fs.nextFile + 1 := hfile₂.2.trans hnext
      exact this ▸ hlt
    have hf : f = s.fs.nextFile := by omega
    rw [hf, close_closes, hfile₂.1, hnew]

/-- The file system in front of the copy loop: the source is open, and so is the new file. -/
structure Opened (s : Spooler) (fname : CString) (a : AddAnswers) (fs : Files) : Prop where
  reaches : Reaches s.fs fname a
  bound : ∀ n i, s.fs.inode n = some i → fs.inode n = some i
  wellFormed : fs.WellFormed
  nextFile : fs.nextFile = s.fs.nextFile + 2
  file : ∀ f < s.fs.nextFile, fs.file f = s.fs.file f
  src : ∃ i, s.fs.inode fname = some i ∧ fs.file s.fs.nextFile = ⟨i, 0, 0⟩
  dst : ∃ j, fs.inode a.spoolName = some j ∧ fs.file (s.fs.nextFile + 1) = ⟨j, 0, 0⟩ ∧
    fs.data j = [] ∧ (∀ i ≠ j, fs.data i = s.fs.data i) ∧
    (s.fs.inode a.spoolName = some j ∨
      (s.fs.inode a.spoolName = none ∧ j = s.fs.nextInode))

theorem opened_spec (hentry : a.newEntry = true)
    (hname : a.realName = true) (hsrc : a.src = true) (hdst : a.dst = .opens) {i j : ℕ}
    (hi : s.fs.inode fname = some i) {fs₂ : Files}
    (hfs₂ : Files.Emptied (s.fs.makeFile i).2 fs₂ a.spoolName j) :
    Opened s fname a (fs₂.makeFile j).2 := by
  have hnext : fs₂.nextFile = s.fs.nextFile + 1 := hfs₂.nextFile
  have hfile : ∀ f ≤ s.fs.nextFile, (fs₂.makeFile j).2.file f = (s.fs.makeFile i).2.file f := by
    intro f hf
    have hne : f ≠ fs₂.nextFile := by omega
    rw [← hfs₂.file, Files.makeFile, Files.setFile_of_ne _ hne]
  refine ⟨⟨hentry, hname, hsrc, hdst, by simp [hi]⟩, hfs₂.bound, hfs₂.wellFormed, ?_, ?_, ?_, ?_⟩
  · show fs₂.nextFile + 1 = s.fs.nextFile + 2
    rw [hnext]
  · intro f hf
    rw [hfile f (Nat.le_of_lt hf), Files.makeFile, Files.setFile_of_ne _ (Nat.ne_of_lt hf)]
  · refine ⟨i, hi, ?_⟩
    rw [hfile _ (Nat.le_refl _), Files.makeFile, Files.setFile_self]
  · refine ⟨j, hfs₂.named, ?_, hfs₂.empty, hfs₂.data, hfs₂.origin⟩
    rw [← hnext, Files.makeFile, Files.setFile_self]

/-- The end of a call that has come to the copy loop. -/
theorem added_copied (hwf : s.fs.WellFormed) {fs₁ fs₂ fs₃ : Files} (hopened : Opened s fname a fs₁)
    (hcopy : copyFile s.fs.nextFile (s.fs.nextFile + 1) a.copy fs₁ = some (ok, fs₂))
    (hfs₃ : fs₃ = fs₂.close (s.fs.nextFile + 1) ∧ ok = true ∨
      fs₃ = (fs₂.close (s.fs.nextFile + 1)).close s.fs.nextFile ∧ ok = false)
    (hhandles : s'.handles = s.handles) (hfs : s'.fs = fs₃)
    (hlist : ok = false → s'.spoolList = s.spoolList)
    (hqueue : ok = true → ∃ jobNo,
      s'.spoolList = s.spoolList ++ [⟨jobNo, a.spoolName, s.fs.contents fname⟩]) :
    Added s fname a ok s' := by
  have hframe := copyFile_frame hcopy
  obtain ⟨i, hi, hsrc⟩ := hopened.src
  obtain ⟨j, hj, hdst, hempty, hdata, horigin⟩ := hopened.dst
  obtain ⟨hentry, hname, hasrc, hadst, hfname⟩ := hopened.reaches
  -- the names and the data are those after the copy, whatever has been closed
  have hinode₃ : fs₃.inode = fs₁.inode := by
    rcases hfs₃ with ⟨heq, -⟩ | ⟨heq, -⟩ <;> rw [heq] <;> exact hframe.inode
  have hdata₃ : fs₃.data = fs₂.data := by
    rcases hfs₃ with ⟨heq, -⟩ | ⟨heq, -⟩ <;> rw [heq] <;> rfl
  have hnext₃ : fs₃.nextFile = s.fs.nextFile + 2 := by
    rcases hfs₃ with ⟨heq, -⟩ | ⟨heq, -⟩ <;> rw [heq] <;>
      exact hframe.nextFile.trans hopened.nextFile
  have hnextInode₃ : fs₃.nextInode = fs₁.nextInode := by
    rcases hfs₃ with ⟨heq, -⟩ | ⟨heq, -⟩ <;> rw [heq] <;> exact hframe.nextInode
  have hother : ∀ k ≠ j, fs₃.data k = s.fs.data k := by
    intro k hk
    rw [hdata₃, hframe.data k (by rwa [hdst]), hdata k hk]
  have hsrc₂ : (fs₂.file s.fs.nextFile).closes = 0 := by rw [hframe.closes, hsrc]
  have hdst₂ : (fs₂.file (s.fs.nextFile + 1)).closes = 0 := by rw [hframe.closes, hdst]
  have hne : s.fs.nextFile ≠ s.fs.nextFile + 1 := by omega
  have hdst₃ : (fs₃.file (s.fs.nextFile + 1)).closes = 1 := by
    rcases hfs₃ with ⟨heq, -⟩ | ⟨heq, -⟩
    · rw [heq, close_closes, hdst₂]
    · rw [heq, close_of_ne hne.symm, close_closes, hdst₂]
  have hok : ok = true ↔ ¬AddFails s.fs fname a := by
    rw [copyFile_ok hcopy]
    simp [AddFails, AddAnswers.Fails, hentry, hname, hasrc, hadst, hfname]
  refine ⟨hhandles, ?_, by simp [hi], ?_, ?_, ?_, ?_, hok, ?_, ?_⟩
  · intro n k hk
    rw [hfs, hinode₃]
    exact hopened.bound n k hk
  · intro k hk hunnamed
    have hkj : k ≠ j := by
      intro hkj
      rcases horigin with h | ⟨-, h⟩
      · exact hunnamed hopened.reaches (by rw [h, hkj])
      · omega
    rw [hfs, hother k hkj]
  · intro f hf
    have hf₂ : fs₂.file f = s.fs.file f := by
      rw [hframe.file f (by omega) (by omega), hopened.file f hf]
    have hf₁ : (fs₂.close (s.fs.nextFile + 1)).file f = fs₂.file f := close_of_ne (by omega)
    rw [hfs]
    rcases hfs₃ with ⟨heq, -⟩ | ⟨heq, -⟩
    · rw [heq, hf₁, hf₂]
    · rw [heq, close_of_ne (Nat.ne_of_lt hf), hf₁, hf₂]
  · rw [hfs, hnext₃]
    exact Nat.le_add_right _ 2
  · rw [hfs]
    intro n k hk
    rw [hinode₃] at hk
    rw [hnextInode₃]
    exact hopened.wellFormed n k hk
  · intro hfalse
    refine ⟨hlist hfalse, ?_⟩
    intro f hle hlt
    rw [hfs] at hlt ⊢
    rcases hfs₃ with ⟨-, htrue⟩ | ⟨heq, -⟩
    · rw [hfalse] at htrue
      cases htrue
    · have hf : f = s.fs.nextFile ∨ f = s.fs.nextFile + 1 := by omega
      rcases hf with hf | hf
      · rw [hf, heq, close_closes, close_of_ne hne, hsrc₂]
      · rw [hf, hdst₃]
  · intro htrue
    refine ⟨hopened.reaches, ⟨j, ?_, ?_, ?_⟩, hqueue htrue, ?_, ?_, ?_⟩
    · rw [hfs, hinode₃, hj]
    · exact horigin.imp id fun h => Nat.le_of_eq h.2.symm
    · intro hnames
      have hij : i ≠ j := by
        intro hij
        rcases horigin with h | ⟨-, h⟩
        · exact hnames (by rw [hi, h, hij])
        · have := hwf fname i hi
          omega
      rw [htrue] at hcopy
      have hcopied : Copied s.fs.nextFile (s.fs.nextFile + 1) fs₁ := by
        refine ⟨?_, ?_, ?_⟩ <;> rw [hsrc]
        · exact Nat.zero_le _
        · rw [hdst]
        · rw [hdst, hempty]
          rfl
      have hwhole := copyFile_data hcopy hcopied (by rwa [hsrc, hdst])
      rw [hsrc, hdst] at hwhole
      rw [hfs, hdata₃, hwhole, hdata i hij, Files.contents, hi]
      rfl
    · rw [hfs, hnext₃]
    · rw [hfs]
      rcases hfs₃ with ⟨heq, -⟩ | ⟨-, hfalse⟩
      · rw [heq, close_of_ne hne, hsrc₂]
      · rw [htrue] at hfalse
        cases hfalse
    · rw [hfs, hdst₃]

/-- **`add_spool_file`.** -/
theorem addSpoolFile_spec (hwf : s.fs.WellFormed) (h : s.addSpoolFile fname a = some (ok, s')) :
    Added s fname a ok s' := by
  unfold Spooler.addSpoolFile at h
  dsimp only at h
  split at h
  next hentry =>
    cases h
    exact added_early hwf (.inl (.inl hentry))
  next hentry =>
    split at h
    next hname =>
      cases h
      exact added_early hwf (.inl (.inr (.inl hname)))
    next hname =>
      cases hi : s.fs.inode fname with
      | none =>
        have hopen : s.fs.openRead fname a.src = (none, s.fs) := by
          unfold Files.openRead
          rw [hi]
        rw [hopen] at h
        cases h
        exact added_early hwf (.inr hi)
      | some i =>
        cases hsrc : a.src with
        | false =>
          have hopen : s.fs.openRead fname false = (none, s.fs) := by
            unfold Files.openRead
            rw [hi]
          rw [hsrc, hopen] at h
          cases h
          exact added_early hwf (.inl (.inr (.inr (.inl hsrc))))
        | true =>
          have hopen : s.fs.openRead fname true = s.fs.makeFile i := by
            unfold Files.openRead
            rw [hi]
          rw [hsrc, hopen] at h
          have hwf₁ : (s.fs.makeFile i).2.WellFormed := hwf
          rcases Files.openWrite_spec hwf₁ a.spoolName a.dst with
            ⟨hdst, fs₂, j, hfs₂, hopen₂⟩ | ⟨hdst, hnone, hfs₂⟩
          · have hopened := opened_spec (by simpa using hentry) (by simpa using hname) hsrc hdst hi
              hfs₂
            have hnext : fs₂.nextFile = s.fs.nextFile + 1 := hfs₂.nextFile
            simp only [Files.makeFile] at h hopen₂ hopened
            simp only [hopen₂, hnext] at h hopened
            split at h
            · cases h
            next hcopy =>
              cases h
              exact added_copied hwf hopened hcopy (.inr ⟨rfl, rfl⟩) rfl rfl (fun _ => rfl) nofun
            next hcopy =>
              cases h
              exact added_copied hwf hopened hcopy (.inl ⟨rfl, rfl⟩) rfl rfl nofun
                fun _ => ⟨_, rfl⟩
          · have hopen₂ : (s.fs.makeFile i).2.openWrite a.spoolName a.dst =
                (none, ((s.fs.makeFile i).2.openWrite a.spoolName a.dst).2) :=
              Prod.ext hnone rfl
            simp only [Files.makeFile] at h hopen₂
            rw [hopen₂] at h
            cases h
            exact added_unopened hwf hi hdst rfl hfs₂

end Adding

end Vmm386.SpoolerModule
