import Vmm386.Vfloppy.MediaTheorems

/-!
# The operations of the virtual floppy drive and its invariant

Each operation is made of a few changes: a task goes on, a drive or a handle is new, a handle
is closed and another one put into the drive, the virtual machine's read goes on.
-/

namespace Vmm386.VfloppyModule

variable {I T : Type*} {s s' : MediaSys I T} {t : T}

theorem DriveInv.lt_of_open (h : DriveInv s) {x : ℕ} (hx : s.Open x) : x < s.nextHandle := by
  obtain ⟨y, hy, -⟩ := hx
  exact h.handle_lt x (by rw [hy]; exact nofun)

theorem DriveInv.lt_of_file (h : DriveInv s) {d x : ℕ} (hx : (s.drives d).file = some x) :
    d < s.nextDrive := by
  by_contra hlt
  rw [h.unused d (by omega)] at hx
  cases hx

/-! ## A task goes on -/

section SetPc

variable [DecidableEq T] {pc : MediaPc}

theorem DriveInv.setPc (h : DriveInv s) : DriveInv (s.setPc t pc) :=
  ⟨h.slot_lt, h.unused, h.handle_lt, h.file_known, h.file_open, h.file_unique, h.isFile, h.disk,
    h.once⟩

theorem TasksInv.setPc (h : TasksInv s) (hpc : s.PcOk pc)
    (hnew : ∀ d f z o, pc = .swapping d f z o →
      ∀ u d' z' o', u ≠ t → s.task u ≠ .swapping d' f z' o') : TasksInv (s.setPc t pc) where
  tasks u := by
    show s.PcOk (Function.update s.task t pc u)
    by_cases hu : u = t
    · rw [hu, Function.update_self]
      exact hpc
    · rw [Function.update_of_ne hu]
      exact h.tasks u
  distinct u v d f z o d' z' o' hu hv := by
    have hu : Function.update s.task t pc u = .swapping d f z o := hu
    have hv : Function.update s.task t pc v = .swapping d' f z' o' := hv
    by_cases hut : u = t
    · rw [hut, Function.update_self] at hu
      by_cases hvt : v = t
      · rw [hut, hvt]
      · rw [Function.update_of_ne hvt] at hv
        exact absurd hv (hnew d f z o hu v d' z' o' hvt)
    · rw [Function.update_of_ne hut] at hu
      by_cases hvt : v = t
      · rw [hvt, Function.update_self] at hv
        exact absurd hu (hnew d' f z' o' hv u d z o hut)
      · rw [Function.update_of_ne hvt] at hv
        exact h.distinct u v d f z o d' z' o' hu hv

theorem inHand_setPc {x : ℕ} (hx : s.InHand x) (hheld : s.Holds x (s.task t) → s.Holds x pc) :
    (s.setPc t pc).InHand x := by
  obtain ⟨u, hu⟩ := hx
  by_cases hut : u = t
  · refine ⟨t, ?_⟩
    show s.Holds x (Function.update s.task t pc t)
    rw [Function.update_self]
    exact hheld (hut ▸ hu)
  · refine ⟨u, ?_⟩
    show s.Holds x (Function.update s.task t pc u)
    rw [Function.update_of_ne hut]
    exact hu

/-- An idle task enters a call of the file system. -/
theorem MediaInv.setPc (h : MediaInv s) (hidle : s.task t = .idle) (hpc : s.PcOk pc)
    (hnew : ∀ d f z o, pc ≠ .swapping d f z o) : MediaInv (s.setPc t pc) where
  toDriveInv := h.toDriveInv.setPc
  toTasksInv := h.toTasksInv.setPc hpc fun d f z o heq => absurd heq (hnew d f z o)
  kept x hx := (h.kept x hx).imp_right fun hx => inHand_setPc hx (by rw [hidle]; exact False.elim)
  reader := by
    have hr := h.reader
    revert hr
    show s.ReaderOk s.reader → (s.setPc t pc).ReaderOk s.reader
    cases s.reader <;> exact id
  reads := h.reads

end SetPc

/-! ## A new drive -/

/-- The drive that `create_vfloppy` makes. -/
def MediaSys.newDrive (s : MediaSys I T) : MediaSys I T :=
  { s with nextDrive := s.nextDrive + 1, slot := some s.nextDrive }.setDrive s.nextDrive .zero

theorem file_newDrive {d x : ℕ} :
    (s.newDrive.drives d).file = some x ↔ (s.drives d).file = some x ∧ d ≠ s.nextDrive := by
  show (Function.update s.drives s.nextDrive Vfloppy.zero d).file = some x ↔ _
  by_cases hd : d = s.nextDrive
  · rw [hd, Function.update_self]
    exact ⟨nofun, fun h => absurd rfl h.2⟩
  · rw [Function.update_of_ne hd]
    exact (and_iff_left hd).symm

theorem DriveInv.newDrive (h : DriveInv s) : DriveInv s.newDrive where
  slot_lt d hd := by
    cases hd
    exact Nat.lt_succ_self s.nextDrive
  unused d hd := by
    have hd : s.nextDrive + 1 ≤ d := hd
    by_contra hne
    obtain ⟨x, hx⟩ := Option.ne_none_iff_exists'.mp hne
    exact absurd (h.lt_of_file (file_newDrive.mp hx).1) (by omega)
  handle_lt := h.handle_lt
  file_known d x hx := h.file_known d x (file_newDrive.mp hx).1
  file_open d x hd hx := by
    cases hd
    exact absurd rfl (file_newDrive.mp hx).2
  file_unique d d' x hx hx' :=
    h.file_unique d d' x (file_newDrive.mp hx).1 (file_newDrive.mp hx').1
  isFile d x hx := by
    obtain ⟨hx, hd⟩ := file_newDrive.mp hx
    show (Function.update s.drives s.nextDrive Vfloppy.zero d).isFile = true
    rw [Function.update_of_ne hd]
    exact h.isFile d x hx
  disk d hd hgot := by
    cases hd
    have hgot : (Function.update s.drives s.nextDrive Vfloppy.zero s.nextDrive).gotDisk = true :=
      hgot
    rw [Function.update_self] at hgot
    cases hgot
  once := h.once

theorem pcOk_newDrive {pc : MediaPc} (hpc : s.PcOk pc)
    (hswap : ∀ d f z o, pc ≠ .swapping d f z o) : s.newDrive.PcOk pc := by
  have hlt : s.nextDrive < s.newDrive.nextDrive := Nat.lt_succ_self s.nextDrive
  cases pc with
  | idle => trivial
  | opening flop =>
    intro d hd
    exact (hpc d hd).trans hlt
  | swapping d f size old => exact absurd rfl (hswap d f size old)
  | killing d old =>
    obtain ⟨hd, hknown, hold⟩ := hpc
    exact ⟨hd.trans hlt, hknown, fun hopen => file_newDrive.mpr ⟨hold hopen, by omega⟩⟩
  | deleting d old =>
    obtain ⟨hd, -, hknown, hold⟩ := hpc
    refine ⟨hd.trans hlt, ?_, hknown, fun hopen => file_newDrive.mpr ⟨hold hopen, by omega⟩⟩
    intro heq
    have heq : some s.nextDrive = some d := heq
    cases heq
    exact absurd hd (lt_irrefl _)

theorem MediaInv.newDrive (h : MediaInv s)
    (hfile : ∀ d, s.slot = some d → (s.drives d).file = none)
    (hswap : ∀ u d f z o, s.task u ≠ .swapping d f z o) : MediaInv s.newDrive where
  toDriveInv := h.toDriveInv.newDrive
  tasks u := pcOk_newDrive (h.tasks u) (hswap u)
  distinct := h.distinct
  kept x hx := by
    rcases h.kept x hx with ⟨d, hd, hx⟩ | ⟨u, hu⟩
    · rw [hfile d hd] at hx
      cases hx
    · refine Or.inr ⟨u, ?_⟩
      show s.newDrive.Holds x (s.task u)
      cases hpc : s.task u with
      | swapping d f size old => exact absurd hpc (hswap u d f size old)
      | deleting d old =>
        rw [hpc] at hu
        exact hu
      | idle => simp only [hpc, MediaSys.Holds] at hu
      | opening flop => simp only [hpc, MediaSys.Holds] at hu
      | killing d old => simp only [hpc, MediaSys.Holds] at hu
  reader := by
    show s.newDrive.ReaderOk s.reader
    have hr := h.reader
    cases hpc : s.reader with
    | idle => trivial
    | seeking d f count start =>
      rw [hpc] at hr
      obtain ⟨x, rfl, hopen, hx⟩ := hr
      exact ⟨x, rfl, hopen, file_newDrive.mpr ⟨hx, (h.lt_of_file hx).ne⟩⟩
    | reading d f count start got =>
      rw [hpc] at hr
      obtain ⟨x, rfl, hopen, hx, hgot⟩ := hr
      exact ⟨x, rfl, hopen, file_newDrive.mpr ⟨hx, (h.lt_of_file hx).ne⟩, hgot⟩
  reads := h.reads

/-! ## A new handle -/

/-- What `fs->open` does. -/
def MediaSys.newHandle (s : MediaSys I T) (image : I) : MediaSys I T :=
  { s with nextHandle := s.nextHandle + 1 }.setHandle s.nextHandle (some ⟨image, 0, 0⟩)

section NewHandle

variable {image : I}

theorem handles_newHandle {x : ℕ} (hx : x ≠ s.nextHandle) :
    (s.newHandle image).handles x = s.handles x :=
  Function.update_of_ne hx _ _

theorem handles_newHandle_self :
    (s.newHandle image).handles s.nextHandle = some ⟨image, 0, 0⟩ :=
  Function.update_self _ _ _

theorem isOpen_newHandle_self : (s.newHandle image).Open s.nextHandle :=
  ⟨_, handles_newHandle_self, rfl⟩

theorem isOpen_newHandle {x : ℕ} (hx : x ≠ s.nextHandle) :
    (s.newHandle image).Open x ↔ s.Open x := by
  rw [MediaSys.Open, MediaSys.Open, handles_newHandle hx]

theorem known_newHandle {x : ℕ} (hx : s.handles x ≠ none) :
    (s.newHandle image).handles x ≠ none := by
  by_cases hnew : x = s.nextHandle
  · rw [hnew, handles_newHandle_self]
    exact nofun
  · rw [handles_newHandle hnew]
    exact hx

theorem DriveInv.open_newHandle (h : DriveInv s) {x : ℕ} (hx : s.Open x) :
    (s.newHandle image).Open x :=
  (isOpen_newHandle (h.lt_of_open hx).ne).mpr hx

theorem DriveInv.file_ne_nextHandle (h : DriveInv s) (d : ℕ) :
    (s.drives d).file ≠ some s.nextHandle :=
  fun hd => absurd (h.handle_lt _ (h.file_known d _ hd)) (lt_irrefl _)

theorem DriveInv.newHandle (h : DriveInv s) : DriveInv (s.newHandle image) where
  slot_lt := h.slot_lt
  unused := h.unused
  handle_lt x hx := by
    show x < s.nextHandle + 1
    by_cases hnew : x = s.nextHandle
    · omega
    · rw [handles_newHandle hnew] at hx
      exact (h.handle_lt x hx).trans (Nat.lt_succ_self _)
  file_known d x hx := known_newHandle (h.file_known d x hx)
  file_open d x hd hx := h.open_newHandle (h.file_open d x hd hx)
  file_unique := h.file_unique
  isFile := h.isFile
  disk := h.disk
  once x y hy := by
    by_cases hnew : x = s.nextHandle
    · rw [hnew, handles_newHandle_self] at hy
      cases hy
      exact Nat.zero_le 1
    · rw [handles_newHandle hnew] at hy
      exact h.once x y hy

theorem DriveInv.pcOk_newHandle (h : DriveInv s) {pc : MediaPc} (hpc : s.PcOk pc) :
    (s.newHandle image).PcOk pc := by
  -- a handle that is known is not the new one
  have hold : ∀ {d x}, s.handles x ≠ none → (s.Open x → (s.drives d).file = some x) →
      (s.newHandle image).Open x → (s.drives d).file = some x := by
    intro d x hknown hfile hopen
    exact hfile ((isOpen_newHandle (h.handle_lt x hknown).ne).mp hopen)
  cases pc with
  | idle => trivial
  | opening flop => exact hpc
  | swapping d f size old =>
    obtain ⟨hslot, hopen, hfile, hknown, hfiles⟩ := hpc
    exact ⟨hslot, h.open_newHandle hopen, hfile, known_newHandle hknown, hold hknown hfiles⟩
  | killing d old =>
    obtain ⟨hlt, hknown, hfile⟩ := hpc
    exact ⟨hlt, known_newHandle hknown, hold hknown hfile⟩
  | deleting d old =>
    obtain ⟨hlt, hslot, hknown, hfile⟩ := hpc
    exact ⟨hlt, hslot, known_newHandle hknown, hold hknown hfile⟩

theorem TasksInv.newHandle (h : TasksInv s) (hd : DriveInv s) : TasksInv (s.newHandle image) where
  tasks u := hd.pcOk_newHandle (h.tasks u)
  distinct := h.distinct

theorem MediaInv.kept_newHandle (h : MediaInv s) {x : ℕ} (hx : (s.newHandle image).Open x)
    (hne : x ≠ s.nextHandle) :
    (s.newHandle image).Current x ∨ (s.newHandle image).InHand x := by
  refine (h.kept x ((isOpen_newHandle hne).mp hx)).imp_right ?_
  intro ⟨u, hu⟩
  refine ⟨u, ?_⟩
  show (s.newHandle image).Holds x (s.task u)
  revert hu
  cases s.task u <;> exact id

theorem MediaInv.reader_newHandle (h : MediaInv s) : (s.newHandle image).ReaderOk s.reader := by
  have hr := h.reader
  cases hpc : s.reader with
  | idle => trivial
  | seeking d f count start =>
    rw [hpc] at hr
    obtain ⟨x, rfl, hopen, hfile⟩ := hr
    exact ⟨x, rfl, h.open_newHandle hopen, hfile⟩
  | reading d f count start got =>
    rw [hpc] at hr
    obtain ⟨x, rfl, hopen, hfile, hgot⟩ := hr
    refine ⟨x, rfl, h.open_newHandle hopen, hfile, ?_⟩
    intro y hy
    rw [handles_newHandle (h.lt_of_open hopen).ne] at hy
    exact hgot y hy

end NewHandle

/-! ## The end of `fs->close` -/

theorem replaces_of_eq (hslot : s'.slot = s.slot) (hnextDrive : s'.nextDrive = s.nextDrive)
    (hnextHandle : s'.nextHandle = s.nextHandle) (hhandles : s'.handles = s.handles)
    (hdrives : s'.drives = s.drives) : Replaces s s' none none := by
  refine ⟨hslot, hnextDrive, hnextHandle, ?_, ?_, ?_, ?_⟩ <;>
    simp only [hhandles, hdrives]
  · exact fun _ => trivial
  · exact fun _ x hx => ⟨x, hx, rfl⟩
  · exact fun _ _ hx _ => hx
  · exact fun _ _ hx => Or.inl hx

section Closed

variable {d old f : ℕ} {size : ULong} {v : Vfloppy} {into : Option ℕ}

theorem file_setDrive {d' x : ℕ} : ((s.setDrive d v).drives d').file = some x ↔
    d' = d ∧ v.file = some x ∨ d' ≠ d ∧ (s.drives d').file = some x := by
  show (Function.update s.drives d v d').file = some x ↔ _
  by_cases hd : d' = d
  · rw [hd, Function.update_self]
    simp only [true_and, ne_eq, not_true_eq_false, false_and, or_false]
  · rw [Function.update_of_ne hd]
    simp only [hd, false_and, ne_eq, not_false_eq_true, true_and, false_or]

theorem replaces_setDrive
    (hstays : ∀ x, (s.drives d).file = some x → v.file = some x)
    (hcomes : ∀ x, v.file = some x → (s.drives d).file = some x ∨ into = some x ∧ s.slot = some d) :
    Replaces s (s.setDrive d v) none into where
  slot := rfl
  nextDrive := rfl
  nextHandle := rfl
  known _ := Iff.rfl
  closes h x' hx' := ⟨x', hx', rfl⟩
  stays d' x hx _ := by
    rw [file_setDrive]
    by_cases hd : d' = d
    · exact Or.inl ⟨hd, hstays x (hd ▸ hx)⟩
    · exact Or.inr ⟨hd, hx⟩
  comes d' x hx := by
    rcases file_setDrive.mp hx with ⟨hd, hv⟩ | ⟨-, hfile⟩
    · rw [hd]
      exact hcomes x hv
    · exact Or.inl hfile

theorem handles_closeHandle {x : ℕ} (hx : x ≠ old) :
    (s.closeHandle old).handles x = s.handles x :=
  Function.update_of_ne hx _ _

theorem handles_closeHandle_self : (s.closeHandle old).handles old =
    (s.handles old).map fun x => { x with closes := x.closes + 1 } :=
  Function.update_self _ _ _

theorem replaces_closeHandle
    (hstays : ∀ x, (s.drives d).file = some x → x ≠ old → v.file = some x)
    (hcomes : ∀ x, v.file = some x → (s.drives d).file = some x ∨ into = some x ∧ s.slot = some d) :
    Replaces s ((s.closeHandle old).setDrive d v) (some old) into where
  slot := rfl
  nextDrive := rfl
  nextHandle := rfl
  known h := by
    show (s.closeHandle old).handles h ≠ none ↔ _
    by_cases hh : h = old
    · rw [hh, handles_closeHandle_self, ne_eq, Option.map_eq_none_iff]
    · rw [handles_closeHandle hh]
  closes h x' hx' := by
    have hx' : (s.closeHandle old).handles h = some x' := hx'
    by_cases hh : h = old
    · rw [hh, handles_closeHandle_self, Option.map_eq_some_iff] at hx'
      obtain ⟨x, hx, rfl⟩ := hx'
      exact ⟨x, hh ▸ hx, (if_pos (congrArg some hh.symm)).symm⟩
    · rw [handles_closeHandle hh] at hx'
      refine ⟨x', hx', (if_neg ?_).symm⟩
      intro heq
      exact hh (Option.some_injective ℕ heq).symm
  stays d' x hx hne := by
    rw [file_setDrive]
    by_cases hd : d' = d
    · refine Or.inl ⟨hd, hstays x (hd ▸ hx) ?_⟩
      intro heq
      exact hne (congrArg some heq.symm)
    · exact Or.inr ⟨hd, hx⟩
  comes d' x hx := by
    rcases file_setDrive.mp hx with ⟨hd, hv⟩ | ⟨-, hfile⟩
    · rw [hd]
      exact hcomes x hv
    · exact Or.inl hfile

variable [DecidableEq T]

theorem Replaces.setPc {out : Option ℕ} {pc : MediaPc} (hs : Replaces s s' out into) :
    Replaces s (s'.setPc t pc) out into :=
  ⟨hs.slot, hs.nextDrive, hs.nextHandle, hs.known, hs.closes, hs.stays, hs.comes⟩

theorem task_setPc_idle (s : MediaSys I T) (t u : T) :
    (s.setPc t .idle).task u = s.task u ∧ u ≠ t ∨ (s.setPc t .idle).task u = .idle ∧ u = t := by
  by_cases hu : u = t
  · refine Or.inr ⟨?_, hu⟩
    rw [hu]
    exact Function.update_self t _ _
  · exact Or.inl ⟨Function.update_of_ne hu _ _, hu⟩

/-- A task is done with its call: it has replaced `out` by `into`, which was its own. -/
theorem Replaces.mediaInv_setPc {out : Option ℕ} (hs : Replaces s s' out into) (hd : DriveInv s')
    (ht : TasksInv s) (hr : s.ReaderOk s.reader)
    (hsame : s'.task = s.task ∧ s'.reader = s.reader ∧ s'.returned = s.returned)
    (hkept : ∀ x, s.Open x → into ≠ some x → s.Current x ∨ s.InHand x)
    (hheld : ∀ x, s.Holds x (s.task t) → out = some x ∨ into = some x)
    (hout : ∀ x, out = some x → ∃ d, (s.drives d).file = some x)
    (hnew : ∀ u d f z o, s.task u = .swapping d f z o → u ≠ t → into ≠ some f)
    (hcurrent : ∀ x, into = some x → s'.Current x)
    (hread : ∀ x, s.reader.handle = some (some x) → out ≠ some x ∧ s'.handles x = s.handles x)
    (hreads : ∀ r ∈ s.returned, r.actual = r.count → r.Consecutive) :
    MediaInv (s'.setPc t .idle) where
  toDriveInv := hd.setPc
  toTasksInv := by
    refine hs.setPc.tasksInv ht (fun u => ?_) hout fun u d f z o hu => ?_
    · rw [← hsame.1]
      exact (task_setPc_idle s' t u).imp And.left And.left
    · rcases task_setPc_idle s' t u with ⟨heq, hne⟩ | ⟨heq, -⟩
      · rw [heq, hsame.1] at hu
        exact hnew u d f z o hu hne
      · rw [heq] at hu
        cases hu
  kept := by
    refine hs.setPc.kept hkept (fun u => ?_) hcurrent
    rw [← hsame.1]
    refine (task_setPc_idle s' t u).imp And.left fun ⟨heq, hu⟩ => ⟨heq, fun x hx => hheld x ?_⟩
    rw [hu, hsame.1] at hx
    exact hx
  reader := by
    show (s'.setPc t .idle).ReaderOk s'.reader
    rw [hsame.2.1]
    exact hs.setPc.readerOk hr hread
  reads := by
    show ∀ r ∈ s'.returned, _
    rw [hsame.2.2]
    exact hreads

end Closed

section Tasks

variable [DecidableEq T] {d old f : ℕ} {size : ULong}

/-- `change_vfloppy` closes the old image and puts the new one in. -/
theorem MediaInv.swapped (h : MediaInv s) (ht : s.task t = .swapping d f size old)
    (hopen : s.Open old) (hread : s.reader.handle ≠ some (some old)) :
    MediaInv (s.fileClosed t (.swapping d f size old)) := by
  have hpc : s.PcOk (.swapping d f size old) := ht ▸ h.tasks t
  obtain ⟨hslot, hf, hnone, -, hold⟩ := hpc
  have hfile := hold hopen
  have hne : f ≠ old := fun heq => hnone d (heq ▸ hfile)
  let v := { (s.closeHandle old).drives d with
    file := some f, sectorsPerTrack := size / (512 * 160), lastStat := 0
    gotDisk := true, isFile := true }
  have hs : Replaces s ((s.closeHandle old).setDrive d v) (some old) (some f) := by
    apply replaces_closeHandle
    · intro x hx hxo
      rw [hfile] at hx
      exact absurd (Option.some_injective ℕ hx).symm hxo
    · intro x hx
      exact Or.inr ⟨hx, hslot⟩
  have hdrive : (((s.closeHandle old).setDrive d v).drives d) = v := Function.update_self _ _ _
  have hother : ∀ d' ≠ d, ((s.closeHandle old).setDrive d v).drives d' = s.drives d' :=
    fun d' hd' => Function.update_of_ne hd' _ _
  apply hs.mediaInv_setPc
  · apply hs.driveInv h.toDriveInv
    · intro x hx
      cases hx
      exact hopen
    · intro d' x hx hd' hx'
      cases hx
      cases hslot.symm.trans hd'
      rw [hdrive] at hx'
      exact hne (Option.some_injective ℕ hx')
    · intro x hx
      cases hx
      exact ⟨hf, hnone⟩
    · intro d' x hx
      by_cases hd' : d' = d
      · rw [hd', hdrive]
      · rw [hother d' hd'] at hx ⊢
        exact h.isFile d' x hx
    · intro d' hd' _
      cases hslot.symm.trans hd'
      rw [hdrive]
      exact nofun
  · exact h.toTasksInv
  · exact h.reader
  · exact ⟨rfl, rfl, rfl⟩
  · exact fun x hx _ => h.kept x hx
  · intro x hx
    rw [ht] at hx
    exact Or.inr (congrArg some hx.1)
  · intro x hx
    cases hx
    exact ⟨d, hfile⟩
  · intro u d' f' z o hu hut heq
    cases heq
    exact hut (h.distinct u t _ _ _ _ _ _ _ hu ht)
  · intro x hx
    cases hx
    exact ⟨d, hslot, congrArg Vfloppy.file hdrive⟩
  · intro x hx
    have hxo : x ≠ old := fun heq => hread (heq ▸ hx)
    exact ⟨fun heq => hxo (Option.some_injective ℕ heq).symm, handles_closeHandle hxo⟩
  · exact h.reads

/-- `kill_vfloppy` closes the image. -/
theorem MediaInv.killed (h : MediaInv s) (ht : s.task t = .killing d old)
    (hopen : s.Open old) (hread : s.reader.handle ≠ some (some old))
    (hgot : s.slot = some d → (s.drives d).gotDisk = false) :
    MediaInv (s.fileClosed t (.killing d old)) := by
  have hpc : s.PcOk (.killing d old) := ht ▸ h.tasks t
  obtain ⟨-, -, hold⟩ := hpc
  have hfile := hold hopen
  let v := { s.drives d with file := none }
  have hs : Replaces s ((s.closeHandle old).setDrive d v) (some old) none := by
    apply replaces_closeHandle
    · intro x hx hxo
      rw [hfile] at hx
      exact absurd (Option.some_injective ℕ hx).symm hxo
    · intro x hx
      cases hx
  have hdrive : (((s.closeHandle old).setDrive d v).drives d) = v := Function.update_self _ _ _
  have hother : ∀ d' ≠ d, ((s.closeHandle old).setDrive d v).drives d' = s.drives d' :=
    fun d' hd' => Function.update_of_ne hd' _ _
  apply hs.mediaInv_setPc
  · apply hs.driveInv h.toDriveInv
    · intro x hx
      cases hx
      exact hopen
    · intro d' x hx hd' hx'
      cases hx
      by_cases hdd : d' = d
      · rw [hdd, hdrive] at hx'
        cases hx'
      · rw [hother d' hdd] at hx'
        exact hdd (h.file_unique d' d old hx' hfile)
    · exact nofun
    · intro d' x hx
      by_cases hd' : d' = d
      · rw [hd', hdrive] at hx
        cases hx
      · rw [hother d' hd'] at hx ⊢
        exact h.isFile d' x hx
    · intro d' hd' hg
      by_cases hdd : d' = d
      · rw [hdd, hdrive] at hg
        exact absurd hg (by rw [show v.gotDisk = false from hgot (hdd ▸ hd')]; exact nofun)
      · rw [hother d' hdd] at hg ⊢
        exact h.disk d' hd' hg
  · exact h.toTasksInv
  · exact h.reader
  · exact ⟨rfl, rfl, rfl⟩
  · exact fun x hx _ => h.kept x hx
  · intro x hx
    rw [ht] at hx
    exact hx.elim
  · intro x hx
    cases hx
    exact ⟨d, hfile⟩
  · exact nofun
  · exact nofun
  · intro x hx
    have hxo : x ≠ old := fun heq => hread (heq ▸ hx)
    exact ⟨fun heq => hxo (Option.some_injective ℕ heq).symm, handles_closeHandle hxo⟩
  · exact h.reads

/-- `delete_vfloppy` closes the image of the drive that it has taken away. -/
theorem MediaInv.deleted (h : MediaInv s) (ht : s.task t = .deleting d old)
    (hopen : s.Open old) (hread : s.reader.handle ≠ some (some old)) :
    MediaInv (s.fileClosed t (.deleting d old)) := by
  have hpc : s.PcOk (.deleting d old) := ht ▸ h.tasks t
  obtain ⟨-, hslot, -, hold⟩ := hpc
  have hfile := hold hopen
  have hsame : (s.closeHandle old).setDrive d (s.drives d) = s.closeHandle old := by
    show { s.closeHandle old with drives := Function.update s.drives d (s.drives d) } = _
    rw [Function.update_eq_self]
    rfl
  have hs : Replaces s (s.closeHandle old) (some old) none := by
    rw [← hsame]
    exact replaces_closeHandle (fun x hx _ => hx) fun x hx => Or.inl hx
  apply hs.mediaInv_setPc
  · apply hs.driveInv h.toDriveInv
    · intro x hx
      cases hx
      exact hopen
    · intro d' x hx hd' hx'
      cases hx
      cases h.file_unique d' d old hx' hfile
      exact hslot hd'
    · exact nofun
    · exact h.isFile
    · exact h.disk
  · exact h.toTasksInv
  · exact h.reader
  · exact ⟨rfl, rfl, rfl⟩
  · exact fun x hx _ => h.kept x hx
  · intro x hx
    rw [ht] at hx
    exact Or.inl (congrArg some hx)
  · intro x hx
    cases hx
    exact ⟨d, hfile⟩
  · exact nofun
  · exact nofun
  · intro x hx
    have hxo : x ≠ old := fun heq => hread (heq ▸ hx)
    exact ⟨fun heq => hxo (Option.some_injective ℕ heq).symm, handles_closeHandle hxo⟩
  · exact h.reads

/-- `change_vfloppy` could not open the image. -/
theorem MediaInv.openFailed (h : MediaInv s) (flop : Option ℕ) (ht : s.task t = .opening flop) :
    MediaInv (s.fileOpened t flop none) := by
  have hheld : ∀ x, s.Holds x (s.task t) → none = some x ∨ none = some x := by
    intro x hx
    rw [ht] at hx
    exact hx.elim
  cases flop with
  | none =>
    have hs : Replaces s s none none := replaces_of_eq rfl rfl rfl rfl rfl
    exact hs.mediaInv_setPc h.toDriveInv h.toTasksInv h.reader ⟨rfl, rfl, rfl⟩
      (fun x hx _ => h.kept x hx) hheld nofun nofun nofun (fun _ _ => ⟨nofun, rfl⟩) h.reads
  | some d =>
    let v := { s.drives d with gotDisk := false }
    have hs : Replaces s (s.setDrive d v) none none :=
      replaces_setDrive (fun x hx => hx) fun x hx => Or.inl hx
    have hdrive : (s.setDrive d v).drives d = v := Function.update_self _ _ _
    have hother : ∀ d' ≠ d, (s.setDrive d v).drives d' = s.drives d' :=
      fun d' hd' => Function.update_of_ne hd' _ _
    have hd : DriveInv (s.setDrive d v) := by
      apply hs.driveInv h.toDriveInv nofun nofun nofun
      · intro d' x hx
        by_cases hd' : d' = d
        · rw [hd', hdrive] at hx ⊢
          exact h.isFile d x hx
        · rw [hother d' hd'] at hx ⊢
          exact h.isFile d' x hx
      · intro d' hd' hgot
        by_cases hdd : d' = d
        · rw [hdd, hdrive] at hgot
          cases hgot
        · rw [hother d' hdd] at hgot ⊢
          exact h.disk d' hd' hgot
    exact hs.mediaInv_setPc hd h.toTasksInv h.reader ⟨rfl, rfl, rfl⟩
      (fun x hx _ => h.kept x hx) hheld nofun nofun nofun (fun _ _ => ⟨nofun, rfl⟩) h.reads

/-- `change_vfloppy` has opened the image for the drive that is there, which has none. -/
theorem MediaInv.inserted (h : MediaInv s) {image : I} (ht : s.task t = .opening (some d))
    (hslot : s.slot = some d) (hnone : (s.drives d).file = none) :
    MediaInv ((s.newHandle image).insertFile t d s.nextHandle size) := by
  let r := s.newHandle image
  let v := { r.drives d with
    file := some s.nextHandle, sectorsPerTrack := size / (512 * 160), lastStat := 0
    gotDisk := true, isFile := true }
  have hs : Replaces r (r.setDrive d v) none (some s.nextHandle) := by
    apply replaces_setDrive
    · intro x hx
      have hx : (s.drives d).file = some x := hx
      rw [hnone] at hx
      cases hx
    · intro x hx
      exact Or.inr ⟨hx, hslot⟩
  have hdrive : (r.setDrive d v).drives d = v := Function.update_self _ _ _
  have hother : ∀ d' ≠ d, (r.setDrive d v).drives d' = s.drives d' :=
    fun d' hd' => Function.update_of_ne hd' _ _
  have hd : DriveInv (r.setDrive d v) := by
    apply hs.driveInv h.toDriveInv.newHandle nofun nofun
    · intro x hx
      cases hx
      exact ⟨isOpen_newHandle_self, h.file_ne_nextHandle⟩
    · intro d' x hx
      by_cases hd' : d' = d
      · rw [hd', hdrive]
      · rw [hother d' hd'] at hx ⊢
        exact h.isFile d' x hx
    · intro d' hd' _
      cases hslot.symm.trans hd'
      rw [hdrive]
      exact nofun
  apply hs.mediaInv_setPc hd (h.toTasksInv.newHandle h.toDriveInv) h.reader_newHandle
    ⟨rfl, rfl, rfl⟩
  · intro x hx hne
    exact h.kept_newHandle hx fun heq => hne (congrArg some heq.symm)
  · intro x hx
    have hx : (s.newHandle image).Holds x (s.task t) := hx
    rw [ht] at hx
    exact hx.elim
  · exact nofun
  · intro u d' f' z o hu _ heq
    cases heq
    have hpc : s.PcOk (.swapping d' s.nextHandle z o) := hu ▸ h.tasks u
    exact absurd (h.lt_of_open hpc.2.1) (lt_irrefl _)
  · intro x hx
    cases hx
    exact ⟨d, hslot, congrArg Vfloppy.file hdrive⟩
  · exact fun _ _ => ⟨nofun, rfl⟩
  · exact h.reads

/-- `change_vfloppy` has opened the image, and has to close the old one. -/
theorem MediaInv.swapping (h : MediaInv s) {image : I} (ht : s.task t = .opening (some d))
    (hslot : s.slot = some d) (hold : (s.drives d).file = some old) :
    MediaInv ((s.newHandle image).setPc t (.swapping d s.nextHandle size old)) where
  toDriveInv := h.toDriveInv.newHandle.setPc
  toTasksInv := by
    apply (h.toTasksInv.newHandle h.toDriveInv).setPc
    · exact ⟨hslot, isOpen_newHandle_self, h.file_ne_nextHandle,
        known_newHandle (h.file_known d old hold), fun _ => hold⟩
    · intro d' f' z o heq u d'' z' o' _ hu
      cases heq
      have hpc : s.PcOk (.swapping d'' s.nextHandle z' o') := by
        rw [← show s.task u = _ from hu]
        exact h.tasks u
      exact absurd (h.lt_of_open hpc.2.1) (lt_irrefl _)
  kept x hx := by
    by_cases hne : x = s.nextHandle
    · refine Or.inr ⟨t, ?_⟩
      show (s.newHandle image).Holds x
        (Function.update s.task t (.swapping d s.nextHandle size old) t)
      rw [Function.update_self]
      exact ⟨hne.symm, hslot⟩
    · refine (h.kept_newHandle hx hne).imp_right fun hin => inHand_setPc hin ?_
      intro hheld
      have hheld : (s.newHandle image).Holds x (s.task t) := hheld
      rw [ht] at hheld
      exact hheld.elim
  reader := by
    have hr : (s.newHandle image).ReaderOk s.reader := h.reader_newHandle
    revert hr
    show _ → ((s.newHandle image).setPc t _).ReaderOk s.reader
    cases s.reader <;> exact id
  reads := h.reads

theorem fileOpened_some {old : ℕ} (hfile : (s.drives d).file = some old) (r : I × ULong) :
    s.fileOpened t (some d) (some r) =
      (s.newHandle r.1).setPc t (.swapping d s.nextHandle r.2 old) := by
  unfold MediaSys.fileOpened
  simp only [MediaSys.setHandle, hfile]
  rfl

theorem fileOpened_none (hfile : (s.drives d).file = none) (r : I × ULong) :
    s.fileOpened t (some d) (some r) =
      (s.newHandle r.1).insertFile t d s.nextHandle r.2 := by
  unfold MediaSys.fileOpened
  simp only [MediaSys.setHandle, hfile]
  rfl

theorem MediaInv.fileOpened (h : MediaInv s) (ht : s.task t = .opening (some d))
    (hslot : s.slot = some d) (r : I × ULong) : MediaInv (s.fileOpened t (some d) (some r)) := by
  cases hfile : (s.drives d).file with
  | some old =>
    have heq : s.fileOpened t (some d) (some r) =
        (s.newHandle r.1).setPc t (.swapping d s.nextHandle r.2 old) := fileOpened_some hfile r
    rw [heq]
    exact h.swapping ht hslot hfile
  | none =>
    have heq : s.fileOpened t (some d) (some r) =
        (s.newHandle r.1).insertFile t d s.nextHandle r.2 := fileOpened_none hfile r
    rw [heq]
    exact h.inserted ht hslot hfile

theorem MediaInv.killVfloppy (h : MediaInv s) (ht : s.task t = .idle) :
    MediaInv (s.killVfloppy t) := by
  unfold MediaSys.killVfloppy
  cases hslot : s.slot with
  | none => exact h
  | some d =>
    cases hfile : (s.drives d).file with
    | none =>
      simp only [hfile]
      exact h
    | some old =>
      simp only [hfile]
      exact h.setPc ht ⟨h.slot_lt d hslot, h.file_known d old hfile, fun _ => hfile⟩ nofun

/-- `delete_vfloppy` takes the drive away, when no image is being changed. -/
theorem MediaInv.deleteVfloppy (h : MediaInv s) (ht : s.task t = .idle)
    (hswap : ∀ u d f z o, s.task u ≠ .swapping d f z o) : MediaInv (s.deleteVfloppy t) := by
  unfold MediaSys.deleteVfloppy
  cases hslot : s.slot with
  | none => exact h
  | some d =>
    let r := { s with slot := none }
    have hd : DriveInv r :=
      ⟨nofun, h.unused, h.handle_lt, h.file_known, nofun, h.file_unique, h.isFile, nofun, h.once⟩
    have hpc : ∀ u, r.PcOk (s.task u) := by
      intro u
      have hu := h.tasks u
      cases hpc : s.task u with
      | idle => trivial
      | opening flop =>
        rw [hpc] at hu
        exact hu
      | swapping d f z o => exact absurd hpc (hswap u d f z o)
      | killing d o =>
        rw [hpc] at hu
        exact hu
      | deleting d o =>
        rw [hpc] at hu
        exact ⟨hu.1, nofun, hu.2.2⟩
    have hin : ∀ x, s.InHand x → r.InHand x := by
      intro x ⟨u, hu⟩
      refine ⟨u, ?_⟩
      show r.Holds x (s.task u)
      revert hu
      cases hpc : s.task u with
      | swapping d f z o => exact absurd hpc (hswap u d f z o)
      | _ => exact id
    have hr : r.ReaderOk s.reader := by
      have hr := h.reader
      revert hr
      cases s.reader <;> exact id
    cases hfile : (s.drives d).file with
    | none =>
      have heq : MediaInv r := by
        refine ⟨hd, ⟨hpc, h.distinct⟩, ?_, hr, h.reads⟩
        intro x hx
        rcases h.kept x hx with ⟨d', hd', hx'⟩ | hx'
        · cases hslot.symm.trans hd'
          rw [hfile] at hx'
          cases hx'
        · exact Or.inr (hin x hx')
      cases hisFile : (s.drives d).isFile <;> simp only [hfile, hisFile] <;> exact heq
    | some old =>
      simp only [hfile, h.isFile d old hfile]
      refine ⟨hd.setPc, TasksInv.setPc ⟨hpc, h.distinct⟩ ?_ nofun, ?_, ?_, h.reads⟩
      · exact ⟨h.slot_lt d hslot, nofun, h.file_known d old hfile, fun _ => hfile⟩
      · intro x hx
        rcases h.kept x hx with ⟨d', hd', hx'⟩ | hx'
        · cases hslot.symm.trans hd'
          refine Or.inr ⟨t, ?_⟩
          show r.Holds x (Function.update s.task t (.deleting d old) t)
          rw [Function.update_self]
          exact Option.some_injective ℕ (hfile.symm.trans hx')
        · refine Or.inr (inHand_setPc (hin x hx') ?_)
          intro hheld
          have hheld : r.Holds x (s.task t) := hheld
          rw [ht] at hheld
          exact hheld.elim
      · revert hr
        show _ → (r.setPc t _).ReaderOk s.reader
        cases s.reader <;> exact id

end Tasks

/-! ## The virtual machine reads -/

section Read

variable {d x count : ℕ} {start : ULong} {got : List (I × ULong)}

/-- No file comes or goes. -/
theorem Replaces.mediaInv (hs : Replaces s s' none none) (h : MediaInv s)
    (htask : s'.task = s.task)
    (hdrive : ∀ d, (s'.drives d).gotDisk = (s.drives d).gotDisk ∧
      (s'.drives d).isFile = (s.drives d).isFile ∧ (s'.drives d).file = (s.drives d).file)
    (hr : s'.ReaderOk s'.reader)
    (hreads : ∀ r ∈ s'.returned, r.actual = r.count → r.Consecutive) : MediaInv s' where
  toDriveInv := by
    apply hs.driveInv h.toDriveInv nofun nofun nofun
    · intro d x hx
      obtain ⟨-, hisFile, hfile⟩ := hdrive d
      rw [hisFile]
      exact h.isFile d x (hfile ▸ hx)
    · intro d hd hgot
      obtain ⟨hgd, -, hfile⟩ := hdrive d
      rw [hfile]
      exact h.disk d hd (hgd ▸ hgot)
  toTasksInv := hs.tasksInv h.toTasksInv (fun u => Or.inl (congrFun htask u)) nofun nofun
  kept := hs.kept (fun x hx _ => h.kept x hx) (fun u => Or.inl (congrFun htask u)) nofun
  reader := hr
  reads := hreads

theorem MediaInv.setReader (h : MediaInv s) {pc : ReadPc I} (hr : s.ReaderOk pc) :
    MediaInv { s with reader := pc } := by
  have hs : Replaces s { s with reader := pc } none none := replaces_of_eq rfl rfl rfl rfl rfl
  exact hs.mediaInv h rfl (fun _ => ⟨rfl, rfl, rfl⟩) (hs.readerOk hr fun _ _ => ⟨nofun, rfl⟩)
    h.reads

theorem MediaInv.readReturns (h : MediaInv s) {r : ReadReturn I}
    (hr : r.actual = r.count → r.Consecutive) : MediaInv (s.readReturns r) := by
  have hs : Replaces s (s.readReturns r) none none := replaces_of_eq rfl rfl rfl rfl rfl
  refine hs.mediaInv h rfl (fun _ => ⟨rfl, rfl, rfl⟩) trivial ?_
  intro r' hr'
  rcases List.mem_cons.mp hr' with rfl | hr'
  · exact hr
  · exact h.reads r' hr'

theorem MediaInv.setLastStat (h : MediaInv s) (stat : UShort) :
    MediaInv (s.setLastStat d stat) := by
  have hs : Replaces s (s.setLastStat d stat) none none :=
    replaces_setDrive (fun x hx => hx) fun x hx => Or.inl hx
  refine hs.mediaInv h rfl ?_ (hs.readerOk h.reader fun x _ => ⟨nofun, rfl⟩) h.reads
  intro d'
  show ((Function.update s.drives d _ d').gotDisk = _ ∧ _ ∧ _)
  by_cases hd : d' = d
  · rw [hd, MediaSys.setLastStat, MediaSys.setDrive]
    simp only [Function.update_self, and_self]
  · rw [MediaSys.setLastStat, MediaSys.setDrive]
    simp only [Function.update_of_ne hd, and_self]

/-- Between two calls of the virtual machine, positions do not matter. -/
theorem MediaInv.setPos (h : MediaInv s) (hidle : s.reader = .idle) {y : Handle I}
    (hy : s.handles x = some y) (pos : ULong) :
    MediaInv (s.setHandle x (some { y with pos })) := by
  have hs : Replaces s (s.setHandle x (some { y with pos })) none none := by
    refine ⟨rfl, rfl, rfl, ?_, ?_, fun _ _ h _ => h, fun _ _ h => Or.inl h⟩
    · intro z
      show Function.update s.handles x _ z ≠ none ↔ _
      by_cases hz : z = x
      · rw [hz, Function.update_self, hy]
        exact ⟨nofun, nofun⟩
      · rw [Function.update_of_ne hz]
    · intro z y' hy'
      have hy' : Function.update s.handles x (some { y with pos }) z = some y' := hy'
      by_cases hz : z = x
      · rw [hz, Function.update_self] at hy'
        cases hy'
        exact ⟨y, hz ▸ hy, rfl⟩
      · rw [Function.update_of_ne hz] at hy'
        exact ⟨y', hy', rfl⟩
  refine hs.mediaInv h rfl (fun _ => ⟨rfl, rfl, rfl⟩) ?_ h.reads
  show MediaSys.ReaderOk _ s.reader
  rw [hidle]
  trivial

theorem GotOk.consecutive {y : Handle I} (h : GotOk y start got) {actual : ℕ}
    (hcount : got.length = count) : (⟨count, start, actual, got⟩ : ReadReturn I).Consecutive := by
  obtain ⟨hpos, himage, -⟩ := h
  refine ⟨hcount ▸ hpos, ?_⟩
  intro e he e' he'
  exact (himage e he).trans (himage e' he').symm

theorem GotOk.nil {y : Handle I} : GotOk { y with pos := start } start [] :=
  ⟨rfl, nofun, (BitVec.add_zero start).symm⟩

theorem GotOk.concat {y : Handle I} (h : GotOk y start got) :
    GotOk { y with pos := y.pos + 512 } start (got ++ [(y.image, y.pos)]) := by
  obtain ⟨hpos, himage, hnext⟩ := h
  refine ⟨?_, ?_, ?_⟩
  · rw [List.map_append, hpos, List.length_append, List.length_singleton, List.range_succ,
      List.map_append, List.map_singleton, List.map_singleton, hnext]
  · intro e he
    rcases List.mem_append.mp he with he | he
    · exact himage e he
    · rw [List.mem_singleton.mp he]
  · show y.pos + 512 = _
    rw [hnext, List.length_append, List.length_singleton, BitVec.ofNat_add, BitVec.mul_add]
    exact BitVec.add_assoc _ _ _

theorem MediaInv.readNext (h : MediaInv { s with reader := .idle })
    (hopen : s.Open x) (hfile : (s.drives d).file = some x)
    (hgot : ∀ y, s.handles x = some y → GotOk y start got) :
    MediaInv (s.readNext d count start got) := by
  unfold MediaSys.readNext
  split
  · have hr : MediaSys.ReaderOk { s with reader := .idle }
        (.reading d (s.drives d).file count start got) := ⟨x, hfile, hopen, hfile, hgot⟩
    exact h.setReader hr
  · have hset : MediaInv ({ s with reader := .idle }.setLastStat d 0) := h.setLastStat 0
    obtain ⟨y, hy, -⟩ := hopen
    exact hset.readReturns (hgot y hy).consecutive

theorem MediaInv.readSectors (h : MediaInv s) (r : ReadRequest) : MediaInv (s.readSectors r) := by
  unfold MediaSys.readSectors
  cases hslot : s.slot with
  | none => exact h
  | some d =>
    simp only
    split
    · exact h.setLastStat 0x80
    · rename_i hgot
      split
      · exact h.setLastStat 0x04
      · obtain ⟨x, hx⟩ := Option.ne_none_iff_exists'.mp
          (h.disk d hslot (Bool.eq_true_of_not_eq_false hgot))
        have hr : s.ReaderOk (.seeking d (s.drives d).file r.count
            (MediaSys.startOf (s.drives d) r)) :=
          ⟨x, hx, h.file_open d x hslot hx, hx⟩
        have hset := h.setReader hr
        rw [hslot] at hset
        exact hset

theorem isOpen_setPos {y : Handle I} (hy : s.handles x = some y) (hopen : s.Open x)
    (pos : ULong) : (s.setHandle x (some { y with pos })).Open x := by
  obtain ⟨z, hz, hclosed⟩ := hopen
  cases hy.symm.trans hz
  exact ⟨_, Function.update_self _ _ _, hclosed⟩

theorem MediaInv.sought (h : MediaInv s) {f : Option ℕ}
    (hpc : s.reader = .seeking d f count start) (ok : Bool) :
    MediaInv (s.sought d f count start ok) := by
  have hr : s.ReaderOk (.seeking d f count start) := hpc ▸ h.reader
  obtain ⟨x, rfl, hopen, hfile⟩ := hr
  have hidle : MediaInv { s with reader := .idle } := h.setReader trivial
  obtain ⟨y, hy, hclosed⟩ := hopen
  cases ok with
  | false =>
    have hset : MediaInv ({ s with reader := .idle }.setLastStat d 0x04) := hidle.setLastStat 0x04
    apply hset.readReturns
    intro hcount
    have hnil : GotOk { y with pos := start } start [] := GotOk.nil
    exact hnil.consecutive hcount
  | true =>
    have heq : s.sought d (some x) count start true =
        (s.setHandle x (some { y with pos := start })).readNext d count start [] := by
      show (s.setHandle x ((s.handles x).map _)).readNext d count start [] = _
      rw [hy]
      rfl
    rw [heq]
    have hset := hidle.setPos rfl hy start
    apply MediaInv.readNext hset (isOpen_setPos hy ⟨y, hy, hclosed⟩ start) hfile
    intro z hz
    have hz : Function.update s.handles x (some { y with pos := start }) x = some z := hz
    rw [Function.update_self] at hz
    cases hz
    exact GotOk.nil

theorem MediaInv.blockRead (h : MediaInv s) {f : Option ℕ}
    (hpc : s.reader = .reading d f count start got) (ok : Bool) (pos : ULong) :
    MediaInv (s.blockRead d f count start got ok pos) := by
  have hr : s.ReaderOk (.reading d f count start got) := hpc ▸ h.reader
  obtain ⟨x, rfl, hopen, hfile, hgot⟩ := hr
  have hidle : MediaInv { s with reader := .idle } := h.setReader trivial
  obtain ⟨y, hy, hclosed⟩ := hopen
  have hgot := hgot y hy
  unfold MediaSys.blockRead
  simp only [Option.bind_some, hy]
  cases ok with
  | false =>
    have hpos := hidle.setPos rfl hy pos
    have hset : MediaInv ((({ s with reader := .idle }).setHandle x
        (some { y with pos })).setLastStat d 0x0c) := hpos.setLastStat 0x0c
    exact hset.readReturns hgot.consecutive
  | true =>
    have hset := hidle.setPos rfl hy (y.pos + 512)
    apply MediaInv.readNext hset (isOpen_setPos hy ⟨y, hy, hclosed⟩ (y.pos + 512)) hfile
    intro z hz
    have hz : Function.update s.handles x (some { y with pos := y.pos + 512 }) x = some z := hz
    rw [Function.update_self] at hz
    cases hz
    exact hgot.concat

end Read

end Vmm386.VfloppyModule
