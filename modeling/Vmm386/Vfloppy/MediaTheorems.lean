import Mathlib.Tactic.ByContra
import Vmm386.Vfloppy.Media

/-!
# When the drive and its handles stay in order

`kill_vfloppy` leaves `got_disk` as it is; `change_vfloppy` closes the old image while the
virtual machine may be reading from it, and keeps the new one even if the drive has gone. What
is wanted of a state is `MediaOk`; what a step must not do is `Safe`.
-/

namespace Vmm386.VfloppyModule

variable {I T : Type*}

namespace MediaSys

variable (s : MediaSys I T)

/-- The handle has been opened and not been closed. -/
def Open (h : ℕ) : Prop := ∃ x, s.handles h = some x ∧ x.closes = 0

/-- The handle is that of the drive. -/
def Current (h : ℕ) : Prop := ∃ d, s.slot = some d ∧ (s.drives d).file = some h

/-- A task there is about to put the handle into the drive, or to close it. -/
def Holds (h : ℕ) : MediaPc → Prop
  | .swapping d f _ _ => f = h ∧ s.slot = some d
  | .deleting _ old => old = h
  | _ => False

def InHand (h : ℕ) : Prop := ∃ t, s.Holds h (s.task t)

end MediaSys

/-- The handle of the call of the file system that a read is in. -/
def ReadPc.handle : ReadPc I → Option (Option ℕ)
  | .idle => none
  | .seeking _ h _ _ => some h
  | .reading _ h _ _ _ => some h

/-- Consecutive sectors of a single image. -/
def ReadReturn.Consecutive (r : ReadReturn I) : Prop :=
  r.got.map Prod.snd = (List.range r.count).map (fun j => r.start + 512 * BitVec.ofNat 32 j) ∧
    ∀ e ∈ r.got, ∀ e' ∈ r.got, e.1 = e'.1

/-- The drive has a disk only while its file is open, a read works on an open handle, a handle
is closed once at most and never forgotten before, and a read that returns its count has read
consecutive sectors of one image. -/
structure MediaOk (s : MediaSys I T) : Prop where
  disk : ∀ d, s.slot = some d → (s.drives d).gotDisk = true →
    ∃ h, (s.drives d).file = some h ∧ s.Open h
  inUse : ∀ h, s.reader.handle = some h → ∃ x, h = some x ∧ s.Open x
  once : ∀ h x, s.handles h = some x → x.closes ≤ 1
  kept : ∀ h, s.Open h → s.Current h ∨ s.InHand h
  reads : ∀ r ∈ s.returned, r.actual = r.count → r.Consecutive

/-- A drive is not created over one that has a file, or deleted, while its image is being
changed; a file that has been opened is for the drive that is there; nobody closes a handle that
has been closed or is being read from; and `kill_vfloppy` does not leave `got_disk` set. -/
def Safe (s : MediaSys I T) : MediaOp I T → Prop
  | .createVfloppy _ _ => (∀ d, s.slot = some d → (s.drives d).file = none) ∧
      ∀ u d f size old, s.task u ≠ .swapping d f size old
  | .fileOpened t (some _) => ∀ flop, s.task t = .opening flop → flop ≠ none ∧ flop = s.slot
  | .fileClosed t =>
    match s.task t with
    | .swapping _ _ _ old => s.Open old ∧ s.reader.handle ≠ some (some old)
    | .killing d old => s.Open old ∧ s.reader.handle ≠ some (some old) ∧
        (s.slot = some d → (s.drives d).gotDisk = false)
    | .deleting _ old => s.Open old ∧ s.reader.handle ≠ some (some old)
    | _ => True
  | .deleteVfloppy _ => ∀ u d f size old, s.task u ≠ .swapping d f size old
  | _ => True

/-! ## The invariant -/

/-- What a task in a call of the file system can rely on. -/
def MediaSys.PcOk (s : MediaSys I T) : MediaPc → Prop
  | .idle => True
  | .opening flop => ∀ d ∈ flop, d < s.nextDrive
  | .swapping d f _ old => s.slot = some d ∧ s.Open f ∧ (∀ d', (s.drives d').file ≠ some f) ∧
      s.handles old ≠ none ∧ (s.Open old → (s.drives d).file = some old)
  | .killing d old => d < s.nextDrive ∧ s.handles old ≠ none ∧
      (s.Open old → (s.drives d).file = some old)
  | .deleting d old => d < s.nextDrive ∧ s.slot ≠ some d ∧ s.handles old ≠ none ∧
      (s.Open old → (s.drives d).file = some old)

/-- What holds of the drives and the handles. -/
structure DriveInv (s : MediaSys I T) : Prop where
  slot_lt : ∀ d, s.slot = some d → d < s.nextDrive
  unused : ∀ d, s.nextDrive ≤ d → (s.drives d).file = none
  handle_lt : ∀ h, s.handles h ≠ none → h < s.nextHandle
  file_known : ∀ d h, (s.drives d).file = some h → s.handles h ≠ none
  file_open : ∀ d h, s.slot = some d → (s.drives d).file = some h → s.Open h
  file_unique : ∀ d d' h, (s.drives d).file = some h → (s.drives d').file = some h → d = d'
  isFile : ∀ d h, (s.drives d).file = some h → (s.drives d).isFile = true
  disk : ∀ d, s.slot = some d → (s.drives d).gotDisk = true → (s.drives d).file ≠ none
  once : ∀ h x, s.handles h = some x → x.closes ≤ 1

/-- What holds of the tasks. No two of them have one new handle. -/
structure TasksInv (s : MediaSys I T) : Prop where
  tasks : ∀ t, s.PcOk (s.task t)
  distinct : ∀ t u d f z o d' z' o', s.task t = .swapping d f z o →
    s.task u = .swapping d' f z' o' → t = u

/-- What has been read so far is where the handle is now, in one image. -/
def GotOk (x : Handle I) (start : ULong) (got : List (I × ULong)) : Prop :=
  got.map Prod.snd = (List.range got.length).map (fun j => start + 512 * BitVec.ofNat 32 j) ∧
    (∀ e ∈ got, e.1 = x.image) ∧ x.pos = start + 512 * BitVec.ofNat 32 got.length

/-- What holds of the virtual machine's read. -/
def MediaSys.ReaderOk (s : MediaSys I T) : ReadPc I → Prop
  | .idle => True
  | .seeking d h _ _ => ∃ x, h = some x ∧ s.Open x ∧ (s.drives d).file = some x
  | .reading d h _ start got => ∃ x, h = some x ∧ s.Open x ∧ (s.drives d).file = some x ∧
      ∀ y, s.handles x = some y → GotOk y start got

structure MediaInv (s : MediaSys I T) : Prop extends DriveInv s, TasksInv s where
  kept : ∀ h, s.Open h → s.Current h ∨ s.InHand h
  reader : s.ReaderOk s.reader
  reads : ∀ r ∈ s.returned, r.actual = r.count → r.Consecutive

theorem MediaInv.mediaOk {s : MediaSys I T} (h : MediaInv s) : MediaOk s where
  disk d hd hgot := by
    cases hfile : (s.drives d).file with
    | none => exact absurd hfile (h.disk d hd hgot)
    | some f => exact ⟨f, rfl, h.file_open d f hd hfile⟩
  inUse x hx := by
    have hr := h.reader
    cases hpc : s.reader with
    | idle =>
      rw [hpc] at hx
      cases hx
    | seeking d f count start =>
      rw [hpc] at hx hr
      cases hx
      obtain ⟨y, hy, hopen, -⟩ := hr
      exact ⟨y, hy, hopen⟩
    | reading d f count start got =>
      rw [hpc] at hx hr
      cases hx
      obtain ⟨y, hy, hopen, -⟩ := hr
      exact ⟨y, hy, hopen⟩
  once := h.once
  kept := h.kept
  reads := h.reads

/-! ## Steps that change the files of the drives -/

/-- From `s` to `s'`, the handle `out` is closed and the handle `into` goes into the drive. -/
structure Replaces (s s' : MediaSys I T) (out into : Option ℕ) : Prop where
  slot : s'.slot = s.slot
  nextDrive : s'.nextDrive = s.nextDrive
  nextHandle : s'.nextHandle = s.nextHandle
  known : ∀ h, s'.handles h ≠ none ↔ s.handles h ≠ none
  closes : ∀ h x', s'.handles h = some x' → ∃ x, s.handles h = some x ∧
    x'.closes = if out = some h then x.closes + 1 else x.closes
  stays : ∀ d h, (s.drives d).file = some h → out ≠ some h → (s'.drives d).file = some h
  comes : ∀ d h, (s'.drives d).file = some h →
    (s.drives d).file = some h ∨ into = some h ∧ s.slot = some d

namespace Replaces

variable {s s' : MediaSys I T} {out into : Option ℕ}

theorem isOpen (hs : Replaces s s' out into) (h : ℕ) : s'.Open h ↔ s.Open h ∧ out ≠ some h := by
  constructor
  · intro ⟨x', hx', hclosed⟩
    obtain ⟨x, hx, heq⟩ := hs.closes h x' hx'
    split at heq
    · omega
    · exact ⟨⟨x, hx, heq ▸ hclosed⟩, ‹_›⟩
  · intro ⟨⟨x, hx, hclosed⟩, hout⟩
    obtain ⟨x', hx'⟩ := Option.ne_none_iff_exists'.mp ((hs.known h).mpr (by rw [hx]; exact nofun))
    obtain ⟨y, hy, heq⟩ := hs.closes h x' hx'
    rw [hx] at hy
    cases hy
    rw [if_neg hout] at heq
    exact ⟨x', hx', heq.trans hclosed⟩

theorem pcOk (hs : Replaces s s' out into) {pc : MediaPc} (h : s.PcOk pc)
    (hout : ∀ x, out = some x → ∃ d, (s.drives d).file = some x)
    (hinto : ∀ d f z o, pc = .swapping d f z o → into ≠ some f) : s'.PcOk pc := by
  cases pc with
  | idle => trivial
  | opening flop =>
    intro d hd
    rw [hs.nextDrive]
    exact h d hd
  | swapping d f size old =>
    obtain ⟨hslot, hopen, hfile, hknown, hold⟩ := h
    refine ⟨hs.slot.trans hslot, (hs.isOpen f).mpr ⟨hopen, ?_⟩, ?_, (hs.known old).mpr hknown, ?_⟩
    · intro hf
      obtain ⟨d', hd'⟩ := hout f hf
      exact hfile d' hd'
    · intro d' hd'
      rcases hs.comes d' f hd' with hf | ⟨hf, -⟩
      · exact hfile d' hf
      · exact hinto d f size old rfl hf
    · intro hopen'
      obtain ⟨hopen', hne⟩ := (hs.isOpen old).mp hopen'
      exact hs.stays d old (hold hopen') hne
  | killing d old =>
    obtain ⟨hlt, hknown, hold⟩ := h
    refine ⟨hs.nextDrive ▸ hlt, (hs.known old).mpr hknown, ?_⟩
    intro hopen
    obtain ⟨hopen, hne⟩ := (hs.isOpen old).mp hopen
    exact hs.stays d old (hold hopen) hne
  | deleting d old =>
    obtain ⟨hlt, hslot, hknown, hold⟩ := h
    refine ⟨hs.nextDrive ▸ hlt, hs.slot ▸ hslot, (hs.known old).mpr hknown, ?_⟩
    intro hopen
    obtain ⟨hopen, hne⟩ := (hs.isOpen old).mp hopen
    exact hs.stays d old (hold hopen) hne

theorem driveInv (hs : Replaces s s' out into) (h : DriveInv s)
    (hopen : ∀ x, out = some x → s.Open x)
    (hout : ∀ d x, out = some x → s.slot = some d → (s'.drives d).file ≠ some x)
    (hinto : ∀ x, into = some x → s.Open x ∧ ∀ d, (s.drives d).file ≠ some x)
    (hisFile : ∀ d x, (s'.drives d).file = some x → (s'.drives d).isFile = true)
    (hdisk : ∀ d, s.slot = some d → (s'.drives d).gotDisk = true → (s'.drives d).file ≠ none) :
    DriveInv s' where
  slot_lt d hd := by
    rw [hs.nextDrive]
    exact h.slot_lt d (hs.slot ▸ hd)
  unused d hd := by
    rw [hs.nextDrive] at hd
    by_contra hne
    obtain ⟨x, hx⟩ := Option.ne_none_iff_exists'.mp hne
    rcases hs.comes d x hx with hx | ⟨-, hslot⟩
    · exact absurd (h.unused d hd) (by rw [hx]; exact nofun)
    · exact absurd (h.slot_lt d hslot) (by omega)
  handle_lt x hx := by
    rw [hs.nextHandle]
    exact h.handle_lt x ((hs.known x).mp hx)
  file_known d x hx := by
    rw [hs.known]
    rcases hs.comes d x hx with hx | ⟨hx, -⟩
    · exact h.file_known d x hx
    · obtain ⟨y, hy, -⟩ := (hinto x hx).1
      rw [hy]
      exact nofun
  file_open d x hd hx := by
    rw [hs.slot] at hd
    refine (hs.isOpen x).mpr ⟨?_, fun heq => hout d x heq hd hx⟩
    rcases hs.comes d x hx with hx | ⟨hx, -⟩
    · exact h.file_open d x hd hx
    · exact (hinto x hx).1
  file_unique d d' x hx hx' := by
    rcases hs.comes d x hx with hx | ⟨hin, hd⟩ <;> rcases hs.comes d' x hx' with hx' | ⟨hin', hd'⟩
    · exact h.file_unique d d' x hx hx'
    · exact absurd hx ((hinto x hin').2 d)
    · exact absurd hx' ((hinto x hin).2 d')
    · exact Option.some_injective ℕ (hd.symm.trans hd')
  isFile := hisFile
  disk d hd := hdisk d (hs.slot ▸ hd)
  once x x' hx' := by
    obtain ⟨y, hy, heq⟩ := hs.closes x x' hx'
    split at heq
    · rename_i hx
      obtain ⟨z, hz, hclosed⟩ := hopen x hx
      rw [hz] at hy
      cases hy
      omega
    · rw [heq]
      exact h.once x y hy

/-- The tasks that are not done with their call are as before. -/
theorem tasksInv (hs : Replaces s s' out into) (h : TasksInv s)
    (htask : ∀ u, s'.task u = s.task u ∨ s'.task u = .idle)
    (hout : ∀ x, out = some x → ∃ d, (s.drives d).file = some x)
    (hinto : ∀ u d f z o, s'.task u = .swapping d f z o → into ≠ some f) : TasksInv s' where
  tasks u := by
    rcases htask u with hu | hu
    · refine hs.pcOk (hu ▸ h.tasks u) hout ?_
      intro d f z o hpc
      exact hinto u d f z o hpc
    · rw [hu]
      trivial
  distinct t u d f z o d' z' o' ht hu := by
    rcases htask t with heq | heq
    · rcases htask u with heq' | heq'
      · exact h.distinct t u d f z o d' z' o' (heq ▸ ht) (heq' ▸ hu)
      · rw [heq'] at hu
        cases hu
    · rw [heq] at ht
      cases ht

theorem kept (hs : Replaces s s' out into)
    (h : ∀ x, s.Open x → into ≠ some x → s.Current x ∨ s.InHand x)
    (htask : ∀ u, s'.task u = s.task u ∨
      s'.task u = .idle ∧ ∀ x, s.Holds x (s.task u) → out = some x ∨ into = some x)
    (hinto : ∀ x, into = some x → s'.Current x) (x : ℕ) (hx : s'.Open x) :
    s'.Current x ∨ s'.InHand x := by
  obtain ⟨hopen, hne⟩ := (hs.isOpen x).mp hx
  by_cases hin : into = some x
  · exact Or.inl (hinto x hin)
  · rcases h x hopen hin with ⟨d, hd, hfile⟩ | ⟨u, hu⟩
    · exact Or.inl ⟨d, hs.slot.trans hd, hs.stays d x hfile hne⟩
    · rcases htask u with heq | ⟨-, hheld⟩
      · refine Or.inr ⟨u, ?_⟩
        rw [heq]
        cases hpc : s.task u with
        | swapping d f size old =>
          rw [hpc] at hu
          exact ⟨hu.1, hs.slot.trans hu.2⟩
        | deleting d old =>
          rw [hpc] at hu
          exact hu
        | idle => simp only [hpc, MediaSys.Holds] at hu
        | opening flop => simp only [hpc, MediaSys.Holds] at hu
        | killing d old => simp only [hpc, MediaSys.Holds] at hu
      · rcases hheld x hu with hx | hx
        · exact absurd hx hne
        · exact absurd hx hin

theorem readerOk (hs : Replaces s s' out into) {pc : ReadPc I} (h : s.ReaderOk pc)
    (hout : ∀ x, pc.handle = some (some x) → out ≠ some x ∧ s'.handles x = s.handles x) :
    s'.ReaderOk pc := by
  cases pc with
  | idle => trivial
  | seeking d f count start =>
    obtain ⟨x, rfl, hopen, hfile⟩ := h
    obtain ⟨hne, -⟩ := hout x rfl
    exact ⟨x, rfl, (hs.isOpen x).mpr ⟨hopen, hne⟩, hs.stays d x hfile hne⟩
  | reading d f count start got =>
    obtain ⟨x, rfl, hopen, hfile, hgot⟩ := h
    obtain ⟨hne, heq⟩ := hout x rfl
    refine ⟨x, rfl, (hs.isOpen x).mpr ⟨hopen, hne⟩, hs.stays d x hfile hne, ?_⟩
    intro y hy
    exact hgot y (heq ▸ hy)

end Replaces

end Vmm386.VfloppyModule
