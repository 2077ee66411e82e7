import Vmm386.Fs.BufferTasks

/-!
# Writes to a medium that has gone

`flush_device_cache(dev, TRUE)` marks the buffers of a device invalid, so that they are not
written to the next medium. `bdirty` respects the mark, and `brelse` does for the last user
of a buffer. Before other users, and in `make_free_buffer`, `kill_buffers` and
`flush_device_cache` itself, only `dirty` is looked at (`writesInvalid_iff`).
-/

namespace Vmm386.Fs

/-! ## The property -/

/-- The device whose buffers the step marks invalid without writing them: through a call,
or when `make_free_buffer` learns from its write that there is no disk. -/
def Sys.flushed (s : Sys) : Label → Option DevId
  | .call t (.flushDeviceCache dev true) => match s.pc t with
    | .idle => some dev
    | _ => none
  | .resume t ret _ => match s.pc t with
    | .evicting x _ =>
      if ret = E_NODISK ∧ s.cache.devInvalid (s.cache.pool x).dev = false then
        some (s.cache.pool x).dev
      else none
    | _ => none
  | _ => none

/-- The step gives the buffer to another block. -/
def Sys.Reassigns (s : Sys) (l : Label) (x : BufId) : Prop :=
  ∃ g, s.segment l = some g ∧ g.took = some x

/-- The data is not written to the device from the buffer `x`, until that is given to
another block. -/
def NeverWritten (x : BufId) (dev : DevId) (data : Blk) : Sys → List Label → Prop
  | _, [] => True
  | s, l :: ls =>
    (∀ w, s.written l = some w → ¬ (w.buf = x ∧ w.dev = dev ∧ w.data = data)) ∧
      (s.Reassigns l x ∨ ∀ s', s.step l = some s' → NeverWritten x dev data s' ls)

/-- Whatever a buffer holds when its device is flushed is not written to the device later
in the run, until the buffer is given to another block (which `make_free_buffer` may do in
the same step). -/
def NoStaleWrites : Sys → List Label → Prop
  | _, [] => True
  | s, l :: ls => ∀ s', s.step l = some s' →
      (∀ dev, s.flushed l = some dev → ∀ x, (s.cache.pool x).dev = dev → ¬ s.Reassigns l x →
        NeverWritten x dev (s.cache.pool x).buf s' ls) ∧
      NoStaleWrites s' ls

/-! ## The condition -/

/-- The buffer must not be written any more, but it is marked for writing. -/
def Stale (c : Cache) (x : BufId) : Prop := (c.pool x).invalid = true ∧ (c.pool x).dirty = true

/-- `brelse` is not called on a stale buffer that has other users. -/
def ReleaseOk (c : Cache) (x : BufId) : Prop := ¬ (Stale c x ∧ (c.pool x).useCount ≠ 1)

/-- The unused buffer `make_free_buffer` finds is not stale. -/
def VictimOk (c : Cache) : Prop :=
  ∀ x, (makeFreeStart c BUFFER_BUCKETS).1 = some x → ¬ Stale c x

/-- If `bread` or `bwrite` has to make a free buffer, then not from a stale one. -/
def LookupOk (k : Caller) (c : Cache) : Prop :=
  findBuffer c k.dev k.blk = none → c.freeList = [] → VictimOk c

/-- What the cache has to satisfy when the call is made. -/
def Call.Ok (c : Cache) : Call → Prop
  | .bread dev blk => LookupOk (.bread dev blk) c
  | .bwrite dev blk data => LookupOk (.bwrite dev blk data) c
  | .brelse x => ReleaseOk c x
  | .makeFreeBuffer => VictimOk c
  | _ => True

/-- What the cache has to satisfy when a sleeping task goes on. -/
def Pc.Ok (c : Cache) : Pc → Prop
  | .waiting k => LookupOk k c
  | .stored x => ReleaseOk c x
  | .flushing dev (x :: _) => ¬ ((c.pool x).dev = dev ∧ Stale c x)
  | .killing (x :: _) => ¬ Stale c x
  | _ => True

/-- What the state before a step has to satisfy. -/
def StepOk (s : Sys) : Label → Prop
  | .call t op => s.pc t = .idle → op.Ok s.cache
  | .resume t _ _ => (s.pc t).Ok s.cache
  | .modify _ _ => True

/-! ## Invalid buffers stay invalid -/

@[simp] theorem Cache.pool_removeNode (c : Cache) (x : BufId) : (c.removeNode x).pool = c.pool := rfl

@[simp] theorem Cache.pool_prependNode (c : Cache) (i : Fin BUFFER_BUCKETS) (x : BufId) :
    (c.prependNode i x).pool = c.pool := rfl

@[simp] theorem Cache.pool_pushFree (c : Cache) (x : BufId) : (c.pushFree x).pool = c.pool := rfl

theorem Cache.pool_set (c : Cache) (x y : BufId) (b : BufHead) :
    (c.set x b).pool y = if y = x then b else c.pool y := by
  simp only [Cache.set, Function.update_apply]

@[simp] theorem pool_makeFreeStart (c : Cache) (tries : ℕ) :
    (makeFreeStart c tries).2.pool = c.pool := by
  induction tries generalizing c with
  | zero => rfl
  | succ tries ih =>
    simp only [makeFreeStart]
    split
    · rfl
    · exact ih _

/-- The buffers that are invalid in `c` are so in `c'`. -/
def KeepsInvalid (c c' : Cache) : Prop :=
  ∀ x, (c.pool x).invalid = true → (c'.pool x).invalid = true

theorem KeepsInvalid.of_pool {c c' : Cache} (h : c'.pool = c.pool) : KeepsInvalid c c' := by
  intro x hx
  rw [h]
  exact hx

theorem KeepsInvalid.trans {a b c : Cache} (h : KeepsInvalid a b) (h' : KeepsInvalid b c) :
    KeepsInvalid a c := fun x hx => h' x (h x hx)

/-- Changing a buffer, but not its mark. -/
theorem KeepsInvalid.set (c : Cache) (x : BufId) {b : BufHead}
    (h : (c.pool x).invalid = true → b.invalid = true) : KeepsInvalid c (c.set x b) := by
  intro y hy
  rw [Cache.pool_set]
  split
  · subst y; exact h hy
  · exact hy

theorem BufHead.invalid_flush {b : BufHead} (dev : DevId) (dontWrite : Bool)
    (h : b.invalid = true) : (b.flush dev dontWrite).invalid = true := by
  unfold BufHead.flush
  split
  · rfl
  · exact h

theorem keepsInvalid_flushDeviceCache (c : Cache) (dev : DevId) (dontWrite : Bool) :
    KeepsInvalid c (flushDeviceCache c dev dontWrite) :=
  fun _ hx => BufHead.invalid_flush dev dontWrite hx

theorem keepsInvalid_handleDeviceError (c : Cache) (x : BufId) :
    KeepsInvalid c (handleDeviceError c x).2 := by
  simp only [handleDeviceError, invalidateDevice]
  split
  · split
    · exact KeepsInvalid.of_pool rfl
    · exact fun y hy => BufHead.invalid_flush _ _ hy
  · exact KeepsInvalid.of_pool rfl

theorem keepsInvalid_makeFreeDone (c : Cache) (x : BufId) (ret : ℤ) :
    KeepsInvalid c (makeFreeDone c x ret) := by
  intro y hy
  simp only [makeFreeDone, Cache.pool_pushFree]
  split
  · exact hy
  · exact keepsInvalid_handleDeviceError { c with errno := ret } x y hy

theorem keepsInvalid_breadDone (c : Cache) (x : BufId) (ret : ℤ) :
    KeepsInvalid c (breadDone c x ret).2 := by
  intro y hy
  simp only [breadDone]
  split
  · exact keepsInvalid_handleDeviceError { c with errno := ret } x y hy
  · exact KeepsInvalid.set { c with errno := ret } x (by exact id) y hy

theorem keepsInvalid_writeDone (c : Cache) (x : BufId) (ret : ℤ) :
    KeepsInvalid c (writeDone c x ret) := by
  intro y hy
  simp only [writeDone]
  split
  · exact KeepsInvalid.set _ x (by exact id) y
      (keepsInvalid_handleDeviceError { c with errno := ret } x y hy)
  · exact hy

theorem keepsInvalid_dropUse (c : Cache) (x : BufId) : KeepsInvalid c (dropUse c x) :=
  KeepsInvalid.set c x fun h => h

theorem keepsInvalid_brelseSegment (c : Cache) (x : BufId) :
    KeepsInvalid c (brelseSegment c x).cache := by
  simp only [brelseSegment, brelseStart]
  repeat' split
  all_goals first
    | exact KeepsInvalid.of_pool rfl
    | exact KeepsInvalid.set c x fun h => h

theorem keepsInvalid_bdirtySegment (c : Cache) (x : BufId) (writeNow : Bool) :
    KeepsInvalid c (bdirtySegment c x writeNow).cache := by
  simp only [bdirtySegment, bdirtyStart]
  repeat' split
  all_goals first
    | exact KeepsInvalid.of_pool rfl
    | exact KeepsInvalid.set c x fun h => h

theorem keepsInvalid_makeFreeSegment (c : Cache) : KeepsInvalid c (makeFreeSegment c).cache := by
  have hpool := pool_makeFreeStart c BUFFER_BUCKETS
  simp only [makeFreeSegment]
  split
  · rename_i h; rw [h] at hpool; exact KeepsInvalid.of_pool hpool
  · rename_i h; rw [h] at hpool; split <;> exact KeepsInvalid.of_pool hpool

theorem keepsInvalid_hit (k : Caller) (c : Cache) (x : BufId) :
    KeepsInvalid c (k.hit c x).cache := by
  have hhit : KeepsInvalid c (hitBuffer c k.blk x) := fun y hy =>
    KeepsInvalid.set c x (by exact id) y hy
  cases k with
  | bread dev blk => exact hhit
  | bwrite dev blk data => exact hhit.trans (KeepsInvalid.set _ x fun h => h)

theorem invalid_take (k : Caller) (c : Cache) {x y : BufId} (hne : x ≠ y)
    (hx : (c.pool x).invalid = true) : ((k.take c y).cache.pool x).invalid = true := by
  cases k <;> simpa [Caller.take, breadStart, bwriteStart, bwriteStore, Cache.pool_set, hne]

theorem took_take (k : Caller) (c : Cache) (x : BufId) : (k.take c x).took = some x := by
  cases k <;> rfl

/-- A lookup keeps every invalid buffer so, but the one it takes from the free list. -/
theorem invalid_again (k : Caller) {x : BufId} (fuel : ℕ) :
    ∀ c : Cache, (c.pool x).invalid = true → (again k c fuel).took ≠ some x →
      ((again k c fuel).cache.pool x).invalid = true := by
  induction fuel with
  | zero => intro c hx _; exact hx
  | succ fuel ih =>
    intro c hx htook
    have hpool := pool_makeFreeStart c BUFFER_BUCKETS
    revert htook
    simp only [again]
    split
    · rename_i y hfind
      split
      · exact fun _ => hx
      · exact fun _ => keepsInvalid_hit k c y x hx
    · split
      · rename_i y ys _
        intro htook
        have hne : x ≠ y := by
          rintro rfl
          exact htook (took_take k c x)
        exact invalid_take k c hne hx
      · split
        · rename_i h
          rw [h] at hpool
          exact fun _ => KeepsInvalid.of_pool hpool x hx
        · rename_i y c' h
          rw [h] at hpool
          split
          · exact fun _ => KeepsInvalid.of_pool hpool x hx
          · exact ih _ (KeepsInvalid.of_pool hpool x hx)

/-- A sleeping task keeps them, too. -/
theorem invalid_resume {c : Cache} {pc : Pc} {ret : ℤ} {data : Blk} {g : Segment}
    (hg : pc.segment c ret data = some g) {x : BufId} (hx : (c.pool x).invalid = true)
    (htook : g.took ≠ some x) : (g.cache.pool x).invalid = true := by
  cases pc with
  | idle => cases hg
  | reading y =>
    cases hg
    exact keepsInvalid_breadDone _ y ret x (KeepsInvalid.set c y (by exact id) x hx)
  | waiting k => cases hg; exact invalid_again k 2 _ hx htook
  | evicting y k =>
    cases k with
    | none => cases hg; exact keepsInvalid_makeFreeDone _ _ _ x hx
    | some k => cases hg; exact invalid_again k 2 _ (keepsInvalid_makeFreeDone _ _ _ x hx) htook
  | stored y => cases hg; exact keepsInvalid_brelseSegment _ _ x hx
  | dirtying y => cases hg; exact keepsInvalid_writeDone _ _ _ x hx
  | releasing y => cases hg; exact keepsInvalid_dropUse _ y x (keepsInvalid_writeDone _ _ _ x hx)
  | flushing dev xs =>
    cases xs with
    | nil => cases hg; exact hx
    | cons y ys => cases hg; exact KeepsInvalid.set c y (BufHead.invalid_flush dev false) x hx
  | killing xs => cases xs <;> cases hg <;> exact hx

/-- Nothing but being given to another block makes an invalid buffer valid. -/
theorem invalid_segment {s : Sys} {l : Label} {g : Segment} (hg : s.segment l = some g)
    {x : BufId} (hx : (s.cache.pool x).invalid = true) (htook : g.took ≠ some x) :
    (g.cache.pool x).invalid = true := by
  cases l with
  | modify y data =>
    cases hg
    exact KeepsInvalid.set s.cache y (by exact id) x hx
  | call t op =>
    simp only [Sys.segment] at hg
    split at hg
    · cases hg
      cases op with
      | bread dev blk => exact invalid_again _ 2 _ hx htook
      | bwrite dev blk data => exact invalid_again _ 2 _ hx htook
      | bdirty y writeNow => exact keepsInvalid_bdirtySegment _ _ _ x hx
      | brelse y => exact keepsInvalid_brelseSegment _ _ x hx
      | makeFreeBuffer => exact keepsInvalid_makeFreeSegment _ x hx
      | flushDeviceCache dev dontWrite =>
        cases dontWrite with
        | true => exact keepsInvalid_flushDeviceCache _ _ _ x hx
        | false => exact hx
      | killBuffers => exact hx
    · cases hg
  | resume t ret data => exact invalid_resume hg hx htook

/-! ## Which steps write an invalid buffer -/

/-- The segment hands a buffer to its device that was invalid before. -/
def Segment.WritesInvalid (g : Segment) (c : Cache) : Prop :=
  ∃ w, g.write = some w ∧ (c.pool w.buf).invalid = true

theorem Segment.not_writesInvalid {g : Segment} (c : Cache) (h : g.write = none) :
    ¬ g.WritesInvalid c := by
  rintro ⟨w, hw, -⟩
  rw [h] at hw
  cases hw

theorem Segment.writesInvalid_iff {g : Segment} {c c' : Cache} {x : BufId}
    (h : g.write = some (writeOf c' x)) : g.WritesInvalid c ↔ (c.pool x).invalid = true := by
  constructor
  · rintro ⟨w, hw, hinv⟩
    rw [h, Option.some.injEq] at hw
    subst w
    exact hinv
  · exact fun hx => ⟨_, h, hx⟩

/-- With a buffer on the free list, a lookup writes nothing. -/
theorem write_again_of_freeList (k : Caller) {c : Cache} {x : BufId} {xs : List BufId}
    (h : c.freeList = x :: xs) (fuel : ℕ) : (again k c fuel).write = none := by
  cases fuel with
  | zero => rfl
  | succ fuel =>
    simp only [again, h]
    split
    · split
      · rfl
      · cases k <;> rfl
    · cases k <;> rfl

theorem again_writesInvalid_iff (k : Caller) (c : Cache) :
    (again k c 2).WritesInvalid c ↔ ¬ LookupOk k c := by
  cases hfind : findBuffer c k.dev k.blk with
  | some y =>
    have hok : LookupOk k c := fun h => by rw [hfind] at h; cases h
    have hnone : (again k c 2).write = none := by
      simp only [again, hfind]
      split
      · rfl
      · cases k <;> rfl
    exact iff_of_false (Segment.not_writesInvalid c hnone) (not_not_intro hok)
  | none =>
    cases hfree : c.freeList with
    | cons x xs =>
      have hok : LookupOk k c := fun _ h => by rw [hfree] at h; cases h
      exact iff_of_false (Segment.not_writesInvalid c (write_again_of_freeList k hfree 2))
        (not_not_intro hok)
    | nil =>
      have hok : LookupOk k c ↔ VictimOk c := ⟨fun h => h hfind hfree, fun h _ _ => h⟩
      have hpool := pool_makeFreeStart c BUFFER_BUCKETS
      rw [hok, VictimOk]
      rcases hstart : makeFreeStart c BUFFER_BUCKETS with ⟨y, c'⟩
      rw [hstart] at hpool
      replace hpool : c'.pool = c.pool := hpool
      cases y with
      | none =>
        refine iff_of_false (Segment.not_writesInvalid c ?_) (not_not_intro fun x hx => by cases hx)
        simp only [again, hfind, hfree, hstart]
      | some x =>
        cases hdirty : (c.pool x).dirty with
        | false =>
          refine iff_of_false (Segment.not_writesInvalid c ?_) (not_not_intro fun y hy => ?_)
          · rw [again]
            simp only [hfind, hfree, hstart, hpool, hdirty, Bool.false_eq_true, if_false]
            exact write_again_of_freeList k rfl 1
          · cases hy
            simp [Stale, hdirty]
        | true =>
          have hw : (again k c 2).write = some (writeOf c' x) := by
            simp [again, hfind, hfree, hstart, hpool, hdirty]
          rw [Segment.writesInvalid_iff hw]
          simp [Stale, hdirty]

theorem makeFreeSegment_writesInvalid_iff (c : Cache) :
    (makeFreeSegment c).WritesInvalid c ↔ ¬ VictimOk c := by
  have hpool := pool_makeFreeStart c BUFFER_BUCKETS
  unfold makeFreeSegment VictimOk
  rcases hstart : makeFreeStart c BUFFER_BUCKETS with ⟨y, c'⟩
  rw [hstart] at hpool
  replace hpool : c'.pool = c.pool := hpool
  cases y with
  | none =>
    exact iff_of_false (Segment.not_writesInvalid c rfl) (not_not_intro fun x hx => by cases hx)
  | some x =>
    cases hdirty : (c.pool x).dirty with
    | false =>
      refine iff_of_false (Segment.not_writesInvalid c ?_) (not_not_intro fun y hy => ?_)
      · simp [hpool, hdirty]
      · cases hy
        simp [Stale, hdirty]
    | true =>
      rw [Segment.writesInvalid_iff (show _ = some (writeOf c' x) by simp [hpool, hdirty])]
      simp [Stale, hdirty]

theorem brelseSegment_writesInvalid_iff (c : Cache) (x : BufId) :
    (brelseSegment c x).WritesInvalid c ↔ ¬ ReleaseOk c x := by
  rw [ReleaseOk, not_not]
  cases hfree : brelseFrees c x with
  | true =>
    have huse : (c.pool x).useCount = 1 := by
      simp only [brelseFrees, Bool.and_eq_true, beq_iff_eq] at hfree
      exact hfree.1
    refine iff_of_false (Segment.not_writesInvalid c ?_) fun h => h.2 huse
    simp [brelseSegment, brelseStart, hfree]
  | false =>
    cases hdirty : (c.pool x).dirty with
    | false =>
      refine iff_of_false (Segment.not_writesInvalid c ?_) fun h => ?_
      · simp [brelseSegment, brelseStart, hfree, hdirty]
      · simp [Stale, hdirty] at h
    | true =>
      have hw : (brelseSegment c x).write = some (writeOf (brelseStart c x).2 x) := by
        simp [brelseSegment, brelseStart, hfree, hdirty]
      rw [Segment.writesInvalid_iff hw]
      simp only [brelseFrees, Bool.and_eq_false_iff, beq_eq_false_iff_ne] at hfree
      simp only [Stale, hdirty, and_true]
      exact ⟨fun h => ⟨h, hfree.resolve_right (by simp [h])⟩, fun h => h.1⟩

/-- `bdirty` looks at the mark. -/
theorem bdirtySegment_not_writesInvalid (c : Cache) (x : BufId) (writeNow : Bool) :
    ¬ (bdirtySegment c x writeNow).WritesInvalid c := by
  cases hinv : (c.pool x).invalid with
  | true => exact Segment.not_writesInvalid c (by simp [bdirtySegment, bdirtyStart, hinv])
  | false =>
    cases writeNow with
    | false => exact Segment.not_writesInvalid c (by simp [bdirtySegment, bdirtyStart, hinv])
    | true =>
      have hw : (bdirtySegment c x true).write = some (writeOf (bdirtyStart c x true).2 x) := by
        simp [bdirtySegment, bdirtyStart, hinv]
      rw [Segment.writesInvalid_iff hw]
      simp [hinv]

/-- A turn that writes the buffer `x` under a condition. -/
theorem Segment.writesInvalid_ite_iff {g : Segment} {c : Cache} {x : BufId} {q : Prop}
    [Decidable q] (h : g.write = if q then some (writeOf c x) else none) :
    g.WritesInvalid c ↔ q ∧ (c.pool x).invalid = true := by
  by_cases hq : q
  · rw [if_pos hq] at h
    rw [Segment.writesInvalid_iff h]
    simp [hq]
  · rw [if_neg hq] at h
    exact iff_of_false (Segment.not_writesInvalid c h) fun hx => hq hx.1

theorem Call.writesInvalid_iff (c : Cache) (op : Call) :
    (op.segment c).WritesInvalid c ↔ ¬ op.Ok c := by
  cases op with
  | bread dev blk => exact again_writesInvalid_iff _ c
  | bwrite dev blk data => exact again_writesInvalid_iff _ c
  | bdirty x writeNow =>
    exact iff_of_false (bdirtySegment_not_writesInvalid c x writeNow) (not_not_intro trivial)
  | brelse x => exact brelseSegment_writesInvalid_iff c x
  | makeFreeBuffer => exact makeFreeSegment_writesInvalid_iff c
  | flushDeviceCache dev dontWrite =>
    refine iff_of_false (Segment.not_writesInvalid c ?_) (not_not_intro trivial)
    cases dontWrite <;> rfl
  | killBuffers => exact iff_of_false (Segment.not_writesInvalid c rfl) (not_not_intro trivial)

theorem Pc.writesInvalid_iff {c : Cache} {pc : Pc} {ret : ℤ} {data : Blk} {g : Segment}
    (h : pc.segment c ret data = some g) : g.WritesInvalid c ↔ ¬ pc.Ok c := by
  -- all points but these four go on without a write
  have hnone : g.write = none → pc.Ok c → (g.WritesInvalid c ↔ ¬ pc.Ok c) := fun hw hok =>
    iff_of_false (Segment.not_writesInvalid c hw) (not_not_intro hok)
  cases pc with
  | idle => cases h
  | waiting k => cases h; exact again_writesInvalid_iff k c
  | stored x => cases h; exact brelseSegment_writesInvalid_iff c x
  | flushing dev xs =>
    cases xs with
    | nil => cases h; exact hnone rfl trivial
    | cons x xs =>
      cases h
      rw [Segment.writesInvalid_ite_iff rfl, Ok, not_not, Stale]
      tauto
  | killing xs =>
    cases xs with
    | nil => cases h; exact hnone rfl trivial
    | cons x xs =>
      cases h
      rw [Segment.writesInvalid_ite_iff rfl, Ok, not_not, Stale]
      tauto
  | evicting x k =>
    cases k with
    | none => cases h; exact hnone rfl trivial
    | some k => cases h; exact hnone (write_again_of_freeList k rfl 2) trivial
  | reading x => cases h; exact hnone rfl trivial
  | dirtying x => cases h; exact hnone rfl trivial
  | releasing x => cases h; exact hnone rfl trivial

/-- The step hands a buffer to its device that was invalid before. -/
def WritesInvalid (s : Sys) (l : Label) : Prop :=
  ∃ g, s.segment l = some g ∧ g.WritesInvalid s.cache

/-- **The condition is exact.** A step that can be taken writes an invalid buffer if and
only if the state before it breaks `StepOk`. -/
theorem writesInvalid_iff {s s' : Sys} {l : Label} (h : s.step l = some s') :
    WritesInvalid s l ↔ ¬ StepOk s l := by
  obtain ⟨g, hg, -⟩ := Sys.step_eq_some h
  have hseg : WritesInvalid s l ↔ g.WritesInvalid s.cache := by
    simp only [WritesInvalid, hg, Option.some.injEq, exists_eq_left']
  rw [hseg]
  cases l with
  | modify x data =>
    cases hg
    exact iff_of_false (Segment.not_writesInvalid _ rfl) (not_not_intro trivial)
  | call t op =>
    simp only [Sys.segment] at hg
    split at hg
    · rename_i hpc
      cases hg
      rw [Call.writesInvalid_iff, StepOk, forall_prop_of_true hpc]
    · cases hg
  | resume t ret data => exact Pc.writesInvalid_iff hg

/-! ## Runs -/

theorem step_invalid {s s' : Sys} {l : Label} (h : s.step l = some s') {x : BufId}
    (hx : (s.cache.pool x).invalid = true) (hr : ¬ s.Reassigns l x) :
    (s'.cache.pool x).invalid = true := by
  obtain ⟨g, hg, hc⟩ := Sys.step_eq_some h
  rw [hc]
  exact invalid_segment hg hx fun htook => hr ⟨g, hg, htook⟩

/-- A step that flushes a device leaves its buffers invalid. -/
theorem invalid_of_flushed {s s' : Sys} {l : Label} {dev : DevId} (h : s.step l = some s')
    (hf : s.flushed l = some dev) {x : BufId} (hx : (s.cache.pool x).dev = dev)
    (hr : ¬ s.Reassigns l x) : (s'.cache.pool x).invalid = true := by
  obtain ⟨g, hg, hc⟩ := Sys.step_eq_some h
  rw [hc]
  have htook : g.took ≠ some x := fun htook => hr ⟨g, hg, htook⟩
  have hflush : ((s.cache.pool x).flush dev true).invalid = true := by
    simp only [BufHead.flush, if_pos hx]
  unfold Sys.flushed at hf
  split at hf
  · rename_i t dev'
    split at hf
    · rename_i hpc
      cases hf
      simp only [Sys.segment, hpc, Option.some.injEq] at hg
      subst g
      exact hflush
    · cases hf
  · rename_i t ret data
    split at hf
    · rename_i y k hpc
      split at hf
      · rename_i hdisk
        cases hf
        have hdone : ((makeFreeDone s.cache y ret).pool x).invalid = true := by
          have hret : ¬ E_NODISK < 0 := by decide
          simp only [makeFreeDone, Cache.pool_pushFree, handleDeviceError, invalidateDevice,
            hdisk, hret, if_false, if_true, Bool.false_eq_true]
          exact hflush
        simp only [Sys.segment, hpc] at hg
        cases k with
        | none => cases hg; exact hdone
        | some k => cases hg; exact invalid_again k 2 _ hdone htook
      · cases hf
    · cases hf
  · cases hf

/-- An invalid buffer is not written while the steps satisfy the condition. -/
theorem neverWritten {x : BufId} (dev : DevId) (data : Blk) {ls : List Label} :
    ∀ {s : Sys}, (s.cache.pool x).invalid = true → Runs.Along Sys.step StepOk s ls →
      NeverWritten x dev data s ls := by
  induction ls with
  | nil => intro s _ _; trivial
  | cons l ls ih =>
    intro s hx hok
    constructor
    · rintro w hw ⟨rfl, -⟩
      obtain ⟨g, hg, hgw⟩ := Option.bind_eq_some_iff.mp hw
      have hstep : s.step l = some (s.after l.task g) := by simp only [Sys.step, hg, Option.map_some]
      exact (writesInvalid_iff hstep).mp ⟨g, hg, w, hgw, hx⟩ hok.1
    · by_cases hr : s.Reassigns l x
      · exact Or.inl hr
      · exact Or.inr fun s' hstep => ih (step_invalid hstep hx hr) (hok.2 s' hstep)

/-- **No stale writes.** In a run in which no stale buffer is released to other users,
chosen as a victim, or met by `kill_buffers` or a writing `flush_device_cache`, what a buffer
held when its device was flushed is never written to the device. -/
theorem noStaleWrites_of_along {ls : List Label} :
    ∀ {s : Sys}, Runs.Along Sys.step StepOk s ls → NoStaleWrites s ls := by
  induction ls with
  | nil => intro s _; trivial
  | cons l ls ih =>
    intro s hok s' hstep
    refine ⟨fun dev hf x hx hr => ?_, ih (hok.2 s' hstep)⟩
    exact neverWritten dev _ (invalid_of_flushed hstep hf hx hr) (hok.2 s' hstep)

/-- A task changes block 5 of device 1, finds that the medium has gone, and releases the
buffer. -/
def soleRelease : List Label :=
  [.call 0 (.bread 1 5), .resume 0 1 (Vector.replicate FS_BLKSIZ 0), .call 0 (.bdirty 0 false),
    .call 0 (.flushDeviceCache 1 true), .call 0 (.brelse 0)]

/-- The only user of a buffer may release it. -/
theorem noStaleWrites_soleRelease : NoStaleWrites Sys.init soleRelease := by
  apply noStaleWrites_of_along
  refine ⟨fun _ _ h => (by cases h), ?_⟩
  rintro _ ⟨⟩
  refine ⟨trivial, ?_⟩
  rintro _ ⟨⟩
  refine ⟨fun _ => trivial, ?_⟩
  rintro _ ⟨⟩
  refine ⟨fun _ => trivial, ?_⟩
  rintro _ ⟨⟩
  exact ⟨fun _ h => h.2 rfl, fun _ _ => trivial⟩

/-- The same with a second user of the buffer. -/
def sharedRelease : List Label :=
  [.call 0 (.bread 1 5), .resume 0 1 (Vector.replicate FS_BLKSIZ 0), .call 1 (.bread 1 5),
    .modify 0 (Vector.replicate FS_BLKSIZ 1), .call 0 (.bdirty 0 false),
    .call 0 (.flushDeviceCache 1 true), .call 0 (.brelse 0)]

/-- `brelse` then writes the change to whatever medium is there. -/
theorem sharedRelease_stale : ¬ ∀ ls, NoStaleWrites Sys.init ls := by
  intro h
  have h := h sharedRelease
  replace h := (h _ rfl).2
  replace h := (h _ rfl).2
  replace h := (h _ rfl).2
  replace h := (h _ rfl).2
  replace h := (h _ rfl).2
  -- the flush leaves buffer 0 with its data, and the next step writes it
  have hstale := (h _ rfl).1 1 rfl 0 rfl (by rintro ⟨g, hg, ht⟩; cases hg; cases ht)
  exact hstale.1 _ rfl ⟨rfl, rfl, rfl⟩

end Vmm386.Fs
