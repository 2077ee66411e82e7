import Vmm386.Fs.Inode
import Vmm386.Lib.Runs

/-!
# Writing an inode back (`write_inode`, `fs/inode.c`)

Many tasks change one inode in memory and write it to its slot on the device, which never
fails. The slot is what the buffer cache shows of it. `write_inode` copies the inode to its
buffer, sleeps while the buffer is written, and then clears `dirty`: a change made in
between is forgotten. `delete_inode_data` clears the pointers to indirect blocks without
setting `dirty`, and sleeps before it sets it at its end. Apart from these two places, a
clean inode equals its slot (`clean_of_along`).
-/

namespace Vmm386.Fs.InodeWrites

/-- The inode in memory, its `dirty` flag, and its slot. -/
structure Core where
  inode : Inode
  dirty : Bool
  slot : Inode

/-- Where a task is. -/
inductive Pc where
  | idle
  /-- `write_inode` waits for the buffer of the slot. -/
  | reading
  /-- `write_inode` has copied the inode, and the buffer is being written or released. -/
  | storing
  /-- `get_inode_blkno` waits for a new block. -/
  | allocating (k : Fin NR_PTRS)
  /-- `delete_inode_data` frees what the pointer leads to. -/
  | deleting (k : Fin NR_PTRS)

/-- A call that concerns the inode. -/
inductive Call where
  | change (u : Change)
  | writeInode
  | getInodeBlkno (k : Fin NR_PTRS)
  | deleteInodeData (now : ULong)

abbrev TaskId := ℕ

/-- One step: a call by an idle task, or the return from a sleep, with the block that was
allocated (0 for none), whether `bread` found a buffer or `delete_indirect_blocks`
succeeded, and the time. -/
inductive Label where
  | call (t : TaskId) (op : Call)
  | resume (t : TaskId) (blk : ULong) (ok : Bool) (now : ULong)

/-- The inode, and where the tasks are. -/
structure Sys where
  core : Core
  pc : TaskId → Pc

/-! ## The functions, cut at the points where they sleep -/

/-- A change to the inode, with its `dirty` flag. -/
def Core.change (c : Core) (u : Change) : Core :=
  match u.apply c.inode with
  | some i => { c with inode := i, dirty := true }
  | none => c

/-- The first pointer from `k` on that is not zero. -/
def nextPtr (i : Inode) (k : ℕ) : Option (Fin NR_PTRS) :=
  (List.finRange NR_PTRS).find? fun j => decide (k ≤ j.val) && i.data j != 0

/-- The end of `delete_inode_data`. -/
def Core.finishDelete (c : Core) (now : ULong) : Core :=
  { c with inode := { c.inode with size := 0, modtime := now }, dirty := true }

/-- `delete_inode_data` from the pointer `k` on. -/
def Core.deleteFrom (c : Core) (k : ℕ) (now : ULong) : Core × Pc :=
  match nextPtr c.inode k with
  | some j => (c, .deleting j)
  | none => (c.finishDelete now, .idle)

/-- `delete_inode_data` clears a pointer: only for a direct one does it set `dirty`. -/
def Core.clearPtr (c : Core) (k : Fin NR_PTRS) : Core :=
  { c with inode := c.inode.setPtr k 0, dirty := c.dirty || decide (k.val < SINGLE_INDIRECT) }

/-- `delete_inode_data` when the data behind the pointer `k` has been freed. After an
indirect block that could not be freed it deletes no more. -/
def Core.deleteNext (c : Core) (k : Fin NR_PTRS) (ok : Bool) (now : ULong) : Core × Pc :=
  if k.val < SINGLE_INDIRECT || ok then (c.clearPtr k).deleteFrom (k.val + 1) now
  else ((c.clearPtr k).finishDelete now, .idle)

/-- The first segment of a call. -/
def Call.segment (c : Core) : Call → Core × Pc
  | .change u => (c.change u, .idle)
  | .writeInode => (c, if c.dirty then .reading else .idle)
  | .getInodeBlkno k => (c, if c.inode.data k = 0 then .allocating k else .idle)
  | .deleteInodeData now => c.deleteFrom 0 now

/-- The segment a sleeping task goes on with. -/
def Pc.segment (c : Core) (blk : ULong) (ok : Bool) (now : ULong) : Pc → Option (Core × Pc)
  | .idle => none
  | .reading => some (if ok then ({ c with slot := c.inode }, .storing) else (c, .idle))
  | .storing => some ({ c with dirty := false }, .idle)
  | .allocating k => some (if blk = 0 then c else c.change (.setPtr k blk), .idle)
  | .deleting k => some (c.deleteNext k ok now)

/-! ## Steps -/

def Label.task : Label → TaskId
  | .call t _ => t
  | .resume t _ _ _ => t

/-- The segment a step runs. -/
def Sys.segment (s : Sys) : Label → Option (Core × Pc)
  | .call t op => match s.pc t with
    | .idle => some (op.segment s.core)
    | _ => none
  | .resume t blk ok now => (s.pc t).segment s.core blk ok now

/-- One step of the system. -/
def Sys.step (s : Sys) (l : Label) : Option Sys :=
  (s.segment l).map fun r => ⟨r.1, Function.update s.pc l.task r.2⟩

/-- `make_inode` has read the inode, and no task is at work on it. -/
def Sys.init (i : Inode) : Sys := ⟨⟨i, false, i⟩, fun _ => .idle⟩

/-! ## The property -/

/-- No `write_inode` is on its way. -/
def Sys.NoWriter (s : Sys) : Prop := ∀ t, s.pc t ≠ .reading ∧ s.pc t ≠ .storing

/-- A clean inode that nobody is writing equals its slot. -/
def Clean (s : Sys) : Prop := s.NoWriter → s.core.dirty = false → s.core.slot = s.core.inode

/-! ## The condition -/

/-- Some `write_inode` has copied the inode and not yet cleared `dirty`. -/
def Sys.Storing (s : Sys) : Prop := ∃ t, s.pc t = .storing

/-- The step changes the inode. -/
def Sys.Changes (s : Sys) (l : Label) : Prop :=
  ∃ r, s.segment l = some r ∧ r.1.inode ≠ s.core.inode

/-- The step clears a pointer to indirect blocks of a clean inode, and sleeps again. -/
def Sys.ClearsSilently (s : Sys) : Label → Prop
  | .resume t _ ok _ => ∃ k, s.pc t = .deleting k ∧ SINGLE_INDIRECT ≤ k.val ∧ ok = true ∧
      s.core.dirty = false ∧ (nextPtr s.core.inode (k.val + 1)).isSome
  | _ => False

/-- What the state before a step has to satisfy. -/
def StepOk (s : Sys) (l : Label) : Prop := ¬ (s.Storing ∧ s.Changes l) ∧ ¬ s.ClearsSilently l

/-! ## What one segment does -/

/-- What a segment that does not come from `write_inode` leaves: the inode and its flags as
they were, or the slot as it was and the inode dirty. -/
structure Marks (c c' : Core) : Prop where
  slot : c'.slot = c.slot
  marked : c'.dirty = true ∨ c'.dirty = c.dirty ∧ c'.inode = c.inode

theorem Marks.refl (c : Core) : Marks c c := ⟨rfl, Or.inr ⟨rfl, rfl⟩⟩

theorem marks_change (c : Core) (u : Change) : Marks c (c.change u) := by
  unfold Core.change
  split
  · exact ⟨rfl, Or.inl rfl⟩
  · exact Marks.refl c

theorem marks_deleteFrom (c : Core) (k : ℕ) (now : ULong) : Marks c (c.deleteFrom k now).1 := by
  unfold Core.deleteFrom
  split
  · exact Marks.refl c
  · exact ⟨rfl, Or.inl rfl⟩

/-- Clearing a pointer does not change which pointers come after it. -/
theorem nextPtr_setPtr (i : Inode) (k : Fin NR_PTRS) (blk : ULong) :
    nextPtr (i.setPtr k blk) (k.val + 1) = nextPtr i (k.val + 1) := by
  unfold nextPtr
  congr 1
  funext j
  by_cases hj : j = k
  · subst hj
    simp
  · simp [Inode.setPtr, Function.update_of_ne hj]

/-- `delete_inode_data` marks the inode dirty, unless it clears a pointer to indirect blocks
and sleeps again. -/
theorem marks_deleteNext {c : Core} {k : Fin NR_PTRS} {ok : Bool} {now : ULong}
    (h : ¬ (SINGLE_INDIRECT ≤ k.val ∧ ok = true ∧ c.dirty = false ∧
      (nextPtr c.inode (k.val + 1)).isSome)) : Marks c (c.deleteNext k ok now).1 := by
  unfold Core.deleteNext
  split
  · rename_i hgo
    unfold Core.deleteFrom
    split
    · rename_i j hj
      rw [Core.clearPtr, nextPtr_setPtr] at hj
      refine ⟨rfl, Or.inl ?_⟩
      simp only [Core.clearPtr, Bool.or_eq_true, decide_eq_true_eq] at hgo ⊢
      by_contra hclean
      rw [not_or, Bool.not_eq_true, not_lt] at hclean
      have hok : ok = true := hgo.resolve_left (by omega)
      exact h ⟨hclean.2, hok, hclean.1, by rw [hj]; rfl⟩
    · exact ⟨rfl, Or.inl rfl⟩
  · exact ⟨rfl, Or.inl rfl⟩

/-- A task is in `storing` only after it has copied the inode. -/
theorem deleteFrom_ne_storing (c : Core) (k : ℕ) (now : ULong) :
    (c.deleteFrom k now).2 ≠ .storing := by
  unfold Core.deleteFrom
  split <;> exact fun h => nomatch h

theorem deleteNext_ne_storing (c : Core) (k : Fin NR_PTRS) (ok : Bool) (now : ULong) :
    (c.deleteNext k ok now).2 ≠ .storing := by
  unfold Core.deleteNext
  split
  · exact deleteFrom_ne_storing _ _ now
  · exact fun h => nomatch h

/-- **The step classification.** A step marks what it changes, or copies the inode to its
slot, or ends a `write_inode`. -/
theorem segment_cases {s : Sys} {l : Label} {r : Core × Pc} (h : s.segment l = some r)
    (hok : ¬ s.ClearsSilently l) :
    (Marks s.core r.1 ∧ r.2 ≠ .storing) ∨
      (r.1 = { s.core with slot := s.core.inode } ∧ r.2 = .storing) ∨
      (s.pc l.task = .storing ∧ r = ({ s.core with dirty := false }, .idle)) := by
  cases l with
  | call t op =>
    simp only [Sys.segment] at h
    split at h
    · cases h
      refine Or.inl ?_
      cases op with
      | change u => exact ⟨marks_change _ u, fun h => nomatch h⟩
      | writeInode =>
        refine ⟨Marks.refl _, ?_⟩
        simp only [Call.segment]
        split <;> exact fun h => nomatch h
      | getInodeBlkno k =>
        refine ⟨Marks.refl _, ?_⟩
        simp only [Call.segment]
        split <;> exact fun h => nomatch h
      | deleteInodeData now => exact ⟨marks_deleteFrom _ 0 now, deleteFrom_ne_storing _ 0 now⟩
    · cases h
  | resume t blk ok now =>
    simp only [Sys.segment] at h
    cases hpc : s.pc t with
    | idle => rw [hpc] at h; cases h
    | reading =>
      rw [hpc] at h
      simp only [Pc.segment, Option.some.injEq] at h
      cases ok with
      | true => exact Or.inr (Or.inl (by rw [← h]; exact ⟨rfl, rfl⟩))
      | false => exact Or.inl (by rw [← h]; exact ⟨Marks.refl _, fun h => nomatch h⟩)
    | storing =>
      rw [hpc] at h
      cases h
      exact Or.inr (Or.inr ⟨hpc, rfl⟩)
    | allocating k =>
      rw [hpc] at h
      cases h
      refine Or.inl ⟨?_, fun h => nomatch h⟩
      show Marks s.core (if blk = 0 then s.core else s.core.change (.setPtr k blk))
      split
      · exact Marks.refl _
      · exact marks_change _ _
    | deleting k =>
      rw [hpc] at h
      cases h
      refine Or.inl ⟨marks_deleteNext ?_, deleteNext_ne_storing _ k ok now⟩
      exact fun hc => hok ⟨k, hpc, hc⟩

/-! ## The invariant -/

/-- A clean inode equals its slot, and so does an inode that a `write_inode` has copied. -/
structure Inv (s : Sys) : Prop where
  clean : s.core.dirty = false → s.core.slot = s.core.inode
  storing : s.Storing → s.core.slot = s.core.inode

theorem inv_init (i : Inode) : Inv (Sys.init i) :=
  ⟨fun _ => rfl, fun _ => rfl⟩

/-- Steps that satisfy the condition keep the invariant. -/
theorem inv_step : Runs.Preserves Sys.step StepOk Inv := by
  intro s l s' hinv hok hstep
  obtain ⟨r, hr, rfl⟩ := Option.map_eq_some_iff.mp hstep
  -- a task that is in `storing` now was so before, or has just copied the inode
  have hstoring : r.2 ≠ .storing →
      Sys.Storing ⟨r.1, Function.update s.pc l.task r.2⟩ → s.Storing := by
    rintro hne ⟨t, ht⟩
    replace ht : Function.update s.pc l.task r.2 t = .storing := ht
    by_cases htask : t = l.task
    · subst htask
      rw [Function.update_self] at ht
      exact absurd ht hne
    · exact ⟨t, by rwa [Function.update_of_ne htask] at ht⟩
  have hsame : s.Storing → r.1.inode = s.core.inode := by
    intro hs
    by_contra hne
    exact hok.1 ⟨hs, r, hr, hne⟩
  rcases segment_cases hr hok.2 with ⟨hm, hpc⟩ | ⟨hc, -⟩ | ⟨hpc, rfl⟩
  · constructor
    · intro hclean
      rcases hm.marked with hdirty | ⟨hdirty, hinode⟩
      · rw [hdirty] at hclean
        cases hclean
      · show r.1.slot = r.1.inode
        rw [hm.slot, hinode]
        exact hinv.clean (hdirty.symm.trans hclean)
    · intro hs
      show r.1.slot = r.1.inode
      rw [hm.slot, hsame (hstoring hpc hs)]
      exact hinv.storing (hstoring hpc hs)
  · have heq : r.1.slot = r.1.inode := by rw [hc]
    exact ⟨fun _ => heq, fun _ => heq⟩
  · have heq : s.core.slot = s.core.inode := hinv.storing ⟨l.task, hpc⟩
    exact ⟨fun _ => heq, fun _ => heq⟩

/-! ## Runs -/

/-- **No lost update.** In a run in which nothing changes the inode while a `write_inode` has
copied it and not yet cleared `dirty`, and `delete_inode_data` clears no pointer to indirect
blocks of a clean inode before it sleeps, a clean inode equals its slot. -/
theorem clean_of_along {i : Inode} {ls : List Label} {s : Sys}
    (hok : Runs.Along Sys.step StepOk (Sys.init i) ls)
    (hrun : Runs.run Sys.step (Sys.init i) ls = some s) : Clean s :=
  fun _ => (inv_step.run (inv_init i) hok hrun).clean

/-- A task grows the file and writes the inode. -/
def growAndWrite : List Label :=
  [.call 0 (.change (.write 100 true 1)), .call 0 .writeInode, .resume 0 0 true 0,
    .resume 0 0 true 0]

/-- It ends with a clean inode in its slot. -/
theorem clean_growAndWrite :
    ∃ s, Runs.run Sys.step (Sys.init Inode.zero) growAndWrite = some s ∧ Clean s := by
  have hok : Runs.Along Sys.step StepOk (Sys.init Inode.zero) growAndWrite := by
    refine ⟨⟨?_, id⟩, ?_⟩
    · rintro ⟨⟨t, ht⟩, -⟩
      cases ht
    rintro _ ⟨⟩
    refine ⟨⟨?_, id⟩, ?_⟩
    · rintro ⟨⟨t, ht⟩, -⟩
      revert ht
      simp [Sys.init, Call.segment, Function.update_apply]
    rintro _ ⟨⟩
    refine ⟨⟨?_, ?_⟩, ?_⟩
    · rintro ⟨-, r, hr, hne⟩
      cases hr
      exact hne rfl
    · rintro ⟨k, hk, -⟩
      cases hk
    rintro _ ⟨⟩
    refine ⟨⟨?_, ?_⟩, fun _ _ => trivial⟩
    · rintro ⟨-, r, hr, hne⟩
      cases hr
      exact hne rfl
    · rintro ⟨k, hk, -⟩
      cases hk
  exact ⟨_, rfl, clean_of_along hok rfl⟩

/-- A task grows the file and writes the inode; while its buffer is written, another task
grows the file once more. -/
def growWhileStoring : List Label :=
  [.call 0 (.change (.write 100 true 1)), .call 0 .writeInode, .resume 0 0 true 0,
    .call 1 (.change (.write 200 true 2)), .resume 0 0 true 0]

/-- The second growth is lost: the inode is clean, and its slot has size 100. -/
theorem growWhileStoring_lost :
    ¬ ∀ (i : Inode) (ls : List Label) (s : Sys),
      Runs.run Sys.step (Sys.init i) ls = some s → Clean s := by
  intro h
  have hclean := h Inode.zero growWhileStoring _ rfl
  have hw : ∀ t, Function.update (Function.update (Function.update (Function.update
      (Function.update (fun _ => Pc.idle) 0 .idle) 0 .reading) 0 .storing) 1 .idle) 0 .idle t =
      Pc.idle := by
    intro t
    simp only [Function.update_apply]
    split_ifs <;> rfl
  have heq := hclean (fun t => by
    refine ⟨fun ht => ?_, fun ht => ?_⟩
    · cases (hw t).symm.trans ht
    · cases (hw t).symm.trans ht) rfl
  exact absurd (congrArg Inode.size heq) (by decide)

end Vmm386.Fs.InodeWrites
