import Vmm386.Lib.Runs
import Vmm386.Vfloppy.MediaSteps

/-!
# The runs of the virtual floppy drive

A run stays in order exactly when every step of it is `Safe`.
-/

namespace Vmm386.VfloppyModule

open Runs

variable {I T : Type*} {s s' : MediaSys I T} {t : T}

theorem mediaInv_init : MediaInv (MediaSys.init I T) where
  slot_lt := nofun
  unused _ _ := rfl
  handle_lt _ hx := absurd rfl hx
  file_known := nofun
  file_open := nofun
  file_unique := nofun
  isFile := nofun
  disk := nofun
  once := nofun
  tasks _ := trivial
  distinct := nofun
  kept _ := nofun
  reader := trivial
  reads := nofun

/-! ## Safe steps -/

section Step

variable [DecidableEq T]

theorem MediaInv.createVfloppy (h : MediaInv s) {arg : Bool} (ht : s.task t = .idle)
    (hsafe : Safe s (.createVfloppy t arg)) : MediaInv (s.createVfloppy t arg) := by
  have hnew : MediaInv s.newDrive := h.newDrive hsafe.1 hsafe.2
  cases arg with
  | false => exact hnew
  | true =>
    refine hnew.setPc ht ?_ nofun
    intro d hd
    cases hd
    exact Nat.lt_succ_self s.nextDrive

theorem mediaInv_step : Preserves (mediaStep (I := I) (T := T)) Safe MediaInv := by
  intro s op s' h hsafe hstep
  cases op with
  | createVfloppy t arg =>
    simp only [mediaStep] at hstep
    split at hstep
    · cases hstep
      exact h.createVfloppy ‹_› hsafe
    · cases hstep
  | changeVfloppy t =>
    simp only [mediaStep] at hstep
    split at hstep
    · cases hstep
      exact h.setPc ‹_› h.slot_lt nofun
    · cases hstep
  | fileOpened t r =>
    simp only [mediaStep] at hstep
    split at hstep
    · rename_i flop ht
      cases hstep
      cases r with
      | none => exact h.openFailed flop ht
      | some r =>
        obtain ⟨hflop, hslot⟩ := hsafe flop ht
        obtain ⟨d, rfl⟩ := Option.ne_none_iff_exists'.mp hflop
        exact h.fileOpened ht hslot.symm r
    · cases hstep
  | killVfloppy t =>
    simp only [mediaStep] at hstep
    split at hstep
    · cases hstep
      exact h.killVfloppy ‹_›
    · cases hstep
  | deleteVfloppy t =>
    simp only [mediaStep] at hstep
    split at hstep
    · cases hstep
      exact h.deleteVfloppy ‹_› hsafe
    · cases hstep
  | fileClosed t =>
    simp only [mediaStep] at hstep
    simp only [Safe] at hsafe
    cases ht : s.task t with
    | idle =>
      rw [ht] at hstep
      cases hstep
    | opening flop =>
      rw [ht] at hstep
      cases hstep
    | swapping d f size old =>
      rw [ht] at hstep hsafe
      cases hstep
      exact h.swapped ht hsafe.1 hsafe.2
    | killing d old =>
      rw [ht] at hstep hsafe
      cases hstep
      exact h.killed ht hsafe.1 hsafe.2.1 hsafe.2.2
    | deleting d old =>
      rw [ht] at hstep hsafe
      cases hstep
      exact h.deleted ht hsafe.1 hsafe.2
  | readSectors r =>
    simp only [mediaStep] at hstep
    split at hstep
    · cases hstep
      exact h.readSectors r
    · cases hstep
  | sought ok =>
    simp only [mediaStep] at hstep
    split at hstep
    · cases hstep
      exact h.sought ‹_› ok
    · cases hstep
  | blockRead ok pos =>
    simp only [mediaStep] at hstep
    split at hstep
    · cases hstep
      exact h.blockRead ‹_› ok pos
    · cases hstep

end Step

/-! ## Steps that are not safe -/

theorem open_of_once {old : ℕ} (hknown : s.handles old ≠ none)
    (honce : ∀ x, (s.closeHandle old).handles old = some x → x.closes ≤ 1) : s.Open old := by
  obtain ⟨y, hy⟩ := Option.ne_none_iff_exists'.mp hknown
  have hclosed := honce { y with closes := y.closes + 1 } (by
    rw [handles_closeHandle_self, hy]
    rfl)
  exact ⟨y, hy, Nat.le_zero.mp (Nat.le_of_succ_le_succ hclosed)⟩

theorem not_open_closeHandle {old : ℕ} : ¬ (s.closeHandle old).Open old := by
  intro ⟨y, hy, hclosed⟩
  rw [handles_closeHandle_self, Option.map_eq_some_iff] at hy
  obtain ⟨z, -, rfl⟩ := hy
  exact absurd hclosed (Nat.succ_ne_zero z.closes)

/-- A task that closes a handle, when what it leaves is in order. -/
theorem MediaOk.closes {old : ℕ} (hknown : s.handles old ≠ none) (hok : MediaOk s')
    (hhandles : s'.handles = (s.closeHandle old).handles) (hreader : s'.reader = s.reader) :
    s.Open old ∧ s.reader.handle ≠ some (some old) := by
  have hopen : ∀ x, s'.Open x → (s.closeHandle old).Open x := by
    intro x ⟨y, hy, hclosed⟩
    exact ⟨y, hhandles ▸ hy, hclosed⟩
  refine ⟨open_of_once hknown (hhandles ▸ hok.once old), ?_⟩
  intro hread
  obtain ⟨x, hx, hopenx⟩ := hok.inUse (some old) (hreader ▸ hread)
  cases hx
  exact not_open_closeHandle (hopen old hopenx)

/-- Of the handles that a task has before a step, none that is in no drive is in hand when the
drive has gone. -/
theorem MediaSys.not_held {pc : MediaPc} {x : ℕ} (hpc : s.PcOk pc)
    (hx : s.Open x) (hslot : s'.slot ≠ s.slot)
    (hfile : ∀ d, (s.drives d).file = some x → s.slot = some d) : ¬ s'.Holds x pc := by
  cases pc with
  | swapping d f z o =>
    intro ⟨_, hd⟩
    exact hslot (hd.trans hpc.1.symm)
  | deleting d o =>
    intro heq
    have heq : o = x := heq
    cases heq
    exact hpc.2.1 (hfile d (hpc.2.2.2 hx))
  | _ => exact id

section Unsafe

variable [DecidableEq T]

theorem MediaInv.createVfloppy_safe (h : MediaInv s) {arg : Bool}
    (hok : MediaOk (s.createVfloppy t arg)) : Safe s (.createVfloppy t arg) := by
  have hslot : (s.createVfloppy t arg).slot ≠ s.slot := by
    have heq : (s.createVfloppy t arg).slot = some s.nextDrive := by cases arg <;> rfl
    intro hs
    exact absurd (h.slot_lt s.nextDrive (hs.symm.trans heq)) (lt_irrefl _)
  -- an open handle that is in no drive, or in the old one, gets lost
  have hlost : ∀ x, s.Open x → (∀ d, (s.drives d).file = some x → s.slot = some d) → False := by
    intro x hx hfile
    have hx' : (s.createVfloppy t arg).Open x := by cases arg <;> exact hx
    rcases hok.kept x hx' with ⟨d, hd, hd'⟩ | ⟨u, hu⟩
    · have hdrives : (s.createVfloppy t arg).drives = s.newDrive.drives := by cases arg <;> rfl
      have hs : (s.createVfloppy t arg).slot = some s.nextDrive := by cases arg <;> rfl
      cases hs.symm.trans hd
      rw [hdrives] at hd'
      exact (file_newDrive.mp hd').2 rfl
    · have hheld : ∀ pc, s.PcOk pc → ¬ (s.createVfloppy t arg).Holds x pc :=
        fun pc hpc => s.not_held hpc hx hslot hfile
      cases arg with
      | false => exact hheld _ (h.tasks u) hu
      | true =>
        by_cases hut : u = t
        · have heq : (s.createVfloppy t true).task u = .opening (some s.nextDrive) := by
            rw [hut]
            exact Function.update_self _ _ _
          rw [heq] at hu
          exact hu
        · have heq : (s.createVfloppy t true).task u = s.task u := Function.update_of_ne hut _ _
          rw [heq] at hu
          exact hheld _ (h.tasks u) hu
  constructor
  · intro d hd
    by_contra hne
    obtain ⟨x, hx⟩ := Option.ne_none_iff_exists'.mp hne
    refine hlost x (h.file_open d x hd hx) ?_
    intro d' hd'
    rw [hd, h.file_unique d d' x hx hd']
  · intro u d f z o hu
    have hpc : s.PcOk (.swapping d f z o) := hu ▸ h.tasks u
    exact hlost f hpc.2.1 fun d' hd' => absurd hd' (hpc.2.2.1 d')

theorem MediaInv.deleteVfloppy_safe (h : MediaInv s)
    (hok : MediaOk (s.deleteVfloppy t)) : Safe s (.deleteVfloppy t) := by
  intro u d f z o hu
  have hpc : s.PcOk (.swapping d f z o) := hu ▸ h.tasks u
  obtain ⟨hslot, hopen, hnone, -, -⟩ := hpc
  have hcase : s.deleteVfloppy t = { s with slot := none } ∨
      ∃ old, (s.drives d).file = some old ∧
        s.deleteVfloppy t = { s with slot := none }.setPc t (.deleting d old) := by
    unfold MediaSys.deleteVfloppy
    rw [hslot]
    cases hfile : (s.drives d).file with
    | none =>
      left
      cases hisFile : (s.drives d).isFile <;> simp only [hfile, hisFile]
    | some old =>
      right
      refine ⟨old, rfl, ?_⟩
      simp only [hfile, h.isFile d old hfile]
  have hheld : ∀ pc, s.PcOk pc → ¬ MediaSys.Holds { s with slot := none } f pc := by
    intro pc hpc
    refine s.not_held hpc hopen (by rw [hslot]; exact nofun) ?_
    intro d' hd'
    exact absurd hd' (hnone d')
  rcases hcase with heq | ⟨old, hold, heq⟩
  · rw [heq] at hok
    rcases hok.kept f hopen with ⟨d', hd', -⟩ | ⟨v, hv⟩
    · cases hd'
    · exact hheld _ (h.tasks v) hv
  · rw [heq] at hok
    rcases hok.kept f hopen with ⟨d', hd', -⟩ | ⟨v, hv⟩
    · cases hd'
    · have hv : MediaSys.Holds { s with slot := none } f
          (Function.update s.task t (.deleting d old) v) := hv
      by_cases hvt : v = t
      · rw [hvt, Function.update_self] at hv
        have hv : old = f := hv
        exact hnone d (hv ▸ hold)
      · rw [Function.update_of_ne hvt] at hv
        exact hheld _ (h.tasks v) hv

theorem MediaInv.fileOpened_safe (h : MediaInv s) {flop : Option ℕ}
    (ht : s.task t = .opening flop) (r : I × ULong) (hok : MediaOk (s.fileOpened t flop (some r))) :
    flop ≠ none ∧ flop = s.slot := by
  -- nobody had the new handle before
  have hheld : ∀ pc, s.PcOk pc → ¬ s.Holds s.nextHandle pc := by
    intro pc hpc hheld
    cases pc with
    | swapping d f z o =>
      obtain ⟨rfl, -⟩ := hheld
      exact absurd (h.lt_of_open hpc.2.1) (lt_irrefl _)
    | deleting d o =>
      have heq : o = s.nextHandle := hheld
      cases heq
      exact absurd (h.handle_lt _ hpc.2.2.1) (lt_irrefl _)
    | _ => exact hheld
  by_contra hne
  cases flop with
  | none =>
    have hnew : (s.fileOpened t none (some r)).Open s.nextHandle := isOpen_newHandle_self
    rcases hok.kept s.nextHandle hnew with ⟨d, -, hd⟩ | ⟨u, hu⟩
    · exact h.file_ne_nextHandle d hd
    · have hu : s.Holds s.nextHandle (Function.update s.task t .idle u) := hu
      by_cases hut : u = t
      · rw [hut, Function.update_self] at hu
        exact hu
      · rw [Function.update_of_ne hut] at hu
        exact hheld _ (h.tasks u) hu
  | some d =>
    have hslot : s.slot ≠ some d := fun hslot => hne ⟨(fun hc => by cases hc), hslot.symm⟩
    cases hfile : (s.drives d).file with
    | none =>
      have heq : s.fileOpened t (some d) (some r) =
          (s.newHandle r.1).insertFile t d s.nextHandle r.2 := fileOpened_none hfile r
      rw [heq] at hok
      rcases hok.kept s.nextHandle isOpen_newHandle_self with ⟨d', hd', hfile'⟩ | ⟨u, hu⟩
      · have hdd : d' ≠ d := fun hdd => hslot (hdd ▸ hd')
        rcases file_setDrive.mp hfile' with ⟨hdd', -⟩ | ⟨-, hfile'⟩
        · exact hdd hdd'
        · exact h.file_ne_nextHandle d' hfile'
      · have hu : s.Holds s.nextHandle (Function.update s.task t .idle u) := hu
        by_cases hut : u = t
        · rw [hut, Function.update_self] at hu
          exact hu
        · rw [Function.update_of_ne hut] at hu
          exact hheld _ (h.tasks u) hu
    | some old =>
      have heq : s.fileOpened t (some d) (some r) =
          (s.newHandle r.1).setPc t (.swapping d s.nextHandle r.2 old) := fileOpened_some hfile r
      rw [heq] at hok
      rcases hok.kept s.nextHandle isOpen_newHandle_self with ⟨d', -, hfile'⟩ | ⟨u, hu⟩
      · exact h.file_ne_nextHandle d' hfile'
      · have hu : s.Holds s.nextHandle
            (Function.update s.task t (.swapping d s.nextHandle r.2 old) u) := hu
        by_cases hut : u = t
        · rw [hut, Function.update_self] at hu
          exact hslot hu.2
        · rw [Function.update_of_ne hut] at hu
          exact hheld _ (h.tasks u) hu

theorem MediaInv.fileClosed_safe (h : MediaInv s) (hok : MediaOk (s.fileClosed t (s.task t))) :
    Safe s (.fileClosed t) := by
  have hpc := h.tasks t
  simp only [Safe]
  cases ht : s.task t with
  | idle => trivial
  | opening flop => trivial
  | swapping d f size old =>
    rw [ht] at hok hpc
    exact hok.closes hpc.2.2.2.1 rfl rfl
  | killing d old =>
    rw [ht] at hok hpc
    obtain ⟨hopen, hread⟩ := hok.closes hpc.2.1 rfl rfl
    refine ⟨hopen, hread, fun hslot => ?_⟩
    by_contra hgot
    have hdrive : (s.fileClosed t (.killing d old)).drives d = { s.drives d with file := none } :=
      Function.update_self _ _ _
    obtain ⟨x, hx, -⟩ := hok.disk d hslot (by
      rw [hdrive]
      exact Bool.eq_true_of_not_eq_false hgot)
    rw [hdrive] at hx
    cases hx
  | deleting d old =>
    rw [ht] at hok hpc
    exact hok.closes hpc.2.2.1 rfl rfl

/-- A step that leaves things in order was safe. -/
theorem MediaInv.safe (h : MediaInv s) {op : MediaOp I T} (hstep : mediaStep s op = some s')
    (hok : MediaOk s') : Safe s op := by
  cases op with
  | createVfloppy t arg =>
    simp only [mediaStep] at hstep
    split at hstep
    · cases hstep
      exact h.createVfloppy_safe hok
    · cases hstep
  | fileOpened t r =>
    cases r with
    | none => trivial
    | some r =>
      intro flop ht
      simp only [mediaStep, ht] at hstep
      cases hstep
      exact h.fileOpened_safe ht r hok
  | deleteVfloppy t =>
    simp only [mediaStep] at hstep
    split at hstep
    · cases hstep
      exact h.deleteVfloppy_safe hok
    · cases hstep
  | fileClosed t =>
    have hs : s' = s.fileClosed t (s.task t) := by
      simp only [mediaStep] at hstep
      split at hstep
      · cases hstep
      · cases hstep
      · cases hstep
        rfl
    exact h.fileClosed_safe (hs ▸ hok)
  | _ => trivial

end Unsafe

/-! ## The drive over a whole run -/

theorem mediaOk_iff [DecidableEq T] (ops : List (MediaOp I T))
    (hrun : run mediaStep (MediaSys.init I T) ops = some s) :
    Along mediaStep (fun s op => ∀ s', mediaStep s op = some s' → MediaOk s')
      (MediaSys.init I T) ops ↔ Along mediaStep Safe (MediaSys.init I T) ops := by
  refine along_iff (I := MediaInv) ?_ mediaInv_step mediaInv_init hrun
  intro s op s' h hstep
  constructor
  · exact fun hok => h.safe hstep (hok s' hstep)
  · intro hsafe r hr
    exact (mediaInv_step h hsafe hr).mediaOk

/-- A drive is created with an image of 1440 KB, and a sector is read. -/
theorem mediaOk_iff_one_sector : ∃ s,
    run mediaStep (MediaSys.init Unit Unit) [.createVfloppy () true,
      .fileOpened () (some ((), 1474560)), .readSectors ⟨0, 0, 1, 1⟩, .sought true,
      .blockRead true 512] = some s ∧
    (Along mediaStep (fun s op => ∀ s', mediaStep s op = some s' → MediaOk s')
        (MediaSys.init Unit Unit) [.createVfloppy () true, .fileOpened () (some ((), 1474560)),
          .readSectors ⟨0, 0, 1, 1⟩, .sought true, .blockRead true 512] ↔
      Along mediaStep Safe (MediaSys.init Unit Unit) [.createVfloppy () true,
        .fileOpened () (some ((), 1474560)), .readSectors ⟨0, 0, 1, 1⟩, .sought true,
        .blockRead true 512]) :=
  ⟨_, rfl, mediaOk_iff _ rfl⟩

/-- `kill_vfloppy` leaves `got_disk` set, and the next read seeks in a `NULL` handle. A
`change_vfloppy` during a read closes the handle that is being read from, and the read returns
its count with sectors of both images. -/
theorem killed_and_changed :
    (∃ s, run mediaStep (MediaSys.init Bool Bool) [.createVfloppy false true,
        .fileOpened false (some (false, 1474560)), .killVfloppy false, .fileClosed false,
        .readSectors ⟨0, 0, 1, 1⟩] = some s ∧
      s.slot = some 0 ∧ (s.drives 0).gotDisk = true ∧ (s.drives 0).file = none ∧
      s.reader.handle = some none) ∧
    (∃ s, run mediaStep (MediaSys.init Bool Bool) [.createVfloppy false true,
        .fileOpened false (some (false, 1474560)), .readSectors ⟨0, 0, 1, 2⟩, .sought true,
        .changeVfloppy true, .fileOpened true (some (true, 1474560)), .blockRead true 512,
        .fileClosed true] = some s ∧
      s.reader.handle = some (some 0) ∧ ¬ s.Open 0) ∧
    ∃ s, run mediaStep (MediaSys.init Bool Bool) [.createVfloppy false true,
        .fileOpened false (some (false, 1474560)), .readSectors ⟨0, 0, 1, 3⟩, .sought true,
        .blockRead true 512, .changeVfloppy true, .fileOpened true (some (true, 1474560)),
        .fileClosed true, .blockRead true 1024, .blockRead true 512] = some s ∧
      s.returned = [⟨3, 0, 3, [(false, 0), (false, 512), (true, 0)]⟩] := by
  refine ⟨⟨_, rfl, rfl, rfl, rfl, rfl⟩, ⟨_, rfl, rfl, ?_⟩, ⟨_, rfl, rfl⟩⟩
  intro ⟨x, hx, hclosed⟩
  cases hx
  cases hclosed

end Vmm386.VfloppyModule
