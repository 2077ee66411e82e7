import Vmm386.Hd.FsDevice

/-!
# Device errors and the buffer cache

The drivers answer 1 for success and a positive error code for failure; the cache takes
only negative values for failure. So a failed read is returned as the block's contents, and
a failed write leaves a clean or a recycled buffer (`errorsKept_iff`).
-/

namespace Vmm386.Fs

variable {W : Type}

/-! ## What the drivers promise -/

/-- 1 reports success, one of the codes of `errno.h` failure. -/
def Outcome.Conventional (o : Outcome) : Prop :=
  if o.ok then o.ret = 1 else 1 ≤ o.ret ∧ o.ret ≤ E_MAXLINKS

/-- All transfers report their outcome so. -/
structure Devices.Conventional (d : Devices W) : Prop where
  read : ∀ w dev blk b, (d.readBlocks w dev blk b).1.Conventional
  write : ∀ w dev blk b, (d.writeBlocks w dev blk b).1.Conventional

theorem hdFsOutcome_conventional (ok : Bool) : (Hd.hdFsOutcome ok).Conventional := by
  cases ok <;> simp [Hd.hdFsOutcome, Outcome.Conventional, E_IO, E_MAXLINKS]

/-- The functions a partition is mounted with keep to it. -/
theorem hdDevices_conventional (d : Hd.HdBlockDriver W) (p : DevId → Hd.HdPartition) :
    (Hd.hdDevices d p).Conventional where
  read w dev blk b := by
    show (Hd.hdFsReadBlocks d (p dev) w blk b).1.Conventional
    unfold Hd.hdFsReadBlocks
    split <;> exact hdFsOutcome_conventional _
  write w dev blk b := by
    show (Hd.hdFsWriteBlocks d (p dev) w blk b).1.Conventional
    unfold Hd.hdFsWriteBlocks
    split <;> exact hdFsOutcome_conventional _

/-- No return value of such a device looks like an error to the cache. -/
theorem Outcome.Conventional.not_neg {o : Outcome} (h : o.Conventional) : ¬ o.ret < 0 := by
  unfold Outcome.Conventional at h
  split at h <;> omega

/-! ## What keeping an error means -/

/-- No hash queue holds a valid buffer for the block. -/
def NoValidBuffer (c : Cache) (dev : DevId) (blk : ULong) : Prop :=
  ∀ i, ∀ x ∈ c.table i, (c.pool x).caches dev blk = false

/-- A failed read makes `bread` return `NULL`, and leaves no valid buffer behind. -/
def ReadErrorKept (r : Ret W (Option BufId)) (dev : DevId) (blk : ULong) : Prop :=
  r.Failed → r.val = none ∧ NoValidBuffer r.st.cache dev blk

/-- The buffer still has its data, is dirty, and is neither on the free list nor taken out
of a hash queue. -/
structure KeptDirty (before after : Cache) (x : BufId) : Prop where
  buf : (after.pool x).buf = (before.pool x).buf
  dirty : (after.pool x).dirty = true
  not_free : x ∉ after.freeList
  queued : ∀ i, x ∈ before.table i → x ∈ after.table i

/-- A failed write leaves its buffer as `KeptDirty` says. -/
def WriteErrorKept {α : Type} (before : Cache) (r : Ret W α) : Prop :=
  r.Failed → ∀ a, r.access = some a → KeptDirty before r.st.cache a.buf

/-- What `test_media` leaves to the function that called it. -/
def tested (d : Devices W) (s : St W) (dev : DevId) : St W := (testMedia d s dev).2

/-! ## Looking for a free buffer -/

/-- Nothing that is cached in `c'` was not cached in `c`. -/
structure FewerCached (c c' : Cache) : Prop where
  table : ∀ i, c'.table i ⊆ c.table i
  caches : ∀ x dev blk, (c'.pool x).caches dev blk → (c.pool x).caches dev blk

theorem FewerCached.refl (c : Cache) : FewerCached c c :=
  ⟨fun _ => List.Subset.refl _, fun _ _ _ h => h⟩

theorem FewerCached.trans {a b c : Cache} (h : FewerCached a b) (h' : FewerCached b c) :
    FewerCached a c :=
  ⟨fun i _ hx => h.table i (h'.table i hx),
    fun x dev blk hx => h.caches x dev blk (h'.caches x dev blk hx)⟩

theorem FewerCached.findBuffer {c c' : Cache} (h : FewerCached c c') {dev : DevId} {blk : ULong}
    (hc : findBuffer c dev blk = none) : findBuffer c' dev blk = none := by
  simp only [Fs.findBuffer, List.find?_eq_none] at hc ⊢
  exact fun x hx hx' => hc x (h.table _ hx) (h.caches x dev blk hx')

/-- A flushed buffer caches nothing it did not cache. -/
theorem BufHead.caches_of_flush {b : BufHead} {dev : DevId} {dontWrite : Bool} {dev' : DevId}
    {blk : ULong} (h : (b.flush dev dontWrite).caches dev' blk) : b.caches dev' blk := by
  unfold BufHead.flush at h
  split at h
  · simp [BufHead.caches] at h
  · exact h

theorem fewerCached_flushDeviceCache (c : Cache) (dev : DevId) (dontWrite : Bool) :
    FewerCached c (flushDeviceCache c dev dontWrite) :=
  ⟨fun _ => List.Subset.refl _, fun _ _ _ h => BufHead.caches_of_flush h⟩

theorem fewerCached_handleDeviceError (c : Cache) (x : BufId) :
    FewerCached c (handleDeviceError c x).2 := by
  simp only [handleDeviceError, invalidateDevice]
  split
  · split
    · exact FewerCached.refl c
    · obtain ⟨ht, hc⟩ := fewerCached_flushDeviceCache
        { c with devInvalid := Function.update c.devInvalid (c.pool x).dev true } (c.pool x).dev
        true
      exact ⟨ht, hc⟩
  · exact FewerCached.refl c

theorem fewerCached_makeFreeStart (c : Cache) (tries : ℕ) :
    FewerCached c (makeFreeStart c tries).2 := by
  induction tries generalizing c with
  | zero => exact ⟨fun _ => List.Subset.refl _, fun _ _ _ h => h⟩
  | succ tries ih =>
    simp only [makeFreeStart]
    split
    · exact ⟨fun _ => List.erase_subset, fun _ _ _ h => h⟩
    · obtain ⟨ht, hc⟩ := ih { c with lastBucket := c.lastBucket + 1 }
      exact ⟨ht, hc⟩

/-- `make_free_buffer` caches nothing. -/
theorem fewerCached_makeFreeBuffer (d : Devices W) (s : St W) :
    FewerCached s.cache (makeFreeBuffer d s).st.cache := by
  have hstart := fewerCached_makeFreeStart s.cache BUFFER_BUCKETS
  unfold makeFreeBuffer
  split
  · rename_i h; rw [h] at hstart; exact hstart
  · rename_i x c h
    rw [h] at hstart
    refine hstart.trans ?_
    split
    · simp only [makeFreeDone]
      split
      · exact ⟨fun _ => List.Subset.refl _, fun _ _ _ h => h⟩
      · obtain ⟨ht, hc⟩ := fewerCached_handleDeviceError
          { c with errno := (fsWriteBlocks d { s with cache := c } x).1.ret } x
        exact ⟨ht, hc⟩
    · exact ⟨fun _ => List.Subset.refl _, fun _ _ _ h => h⟩

/-- When it says that it may have freed a buffer, it has. -/
theorem freeList_makeFreeBuffer {d : Devices W} {s : St W} (h : (makeFreeBuffer d s).val = true) :
    ∃ x xs, (makeFreeBuffer d s).st.cache.freeList = x :: xs := by
  unfold makeFreeBuffer at h ⊢
  split
  · rename_i hs; rw [hs] at h; cases h
  · split <;> exact ⟨_, _, rfl⟩

/-! ## The transfers made -/

/-- The read `bread` makes: the state it makes it in, and the buffer it reads into. -/
def breadReads (d : Devices W) (s : St W) (dev : DevId) (blk : ULong) : Option (St W × BufId) :=
  let t := testMedia d s dev
  if t.1 = false ∨ (findBuffer t.2.cache dev blk).isSome then none
  else
    match t.2.cache.freeList with
    | x :: _ => some (t.2, x)
    | [] =>
      let r := makeFreeBuffer d t.2
      if r.val then r.st.cache.freeList.head?.map fun x => (r.st, x) else none

/-- `bread` reads its block as `breadReads` says, or not at all. The two turns of its loop
are enough: the second one finds a free buffer. -/
theorem bread_eq_of_breadReads (d : Devices W) (s : St W) (dev : DevId) (blk : ULong) :
    match breadReads d s dev blk with
    | some (t, x) => bread d s dev blk = some (breadFill d t dev blk x)
    | none => ∀ r, bread d s dev blk = some r → r.access = none := by
  simp only [breadReads, bread]
  generalize testMedia d s dev = t
  cases ht : t.1 with
  | false => simp
  | true =>
    cases hfind : findBuffer t.2.cache dev blk with
    | some x =>
      simp only [Option.isSome_some, or_true, if_true, breadAgain, hfind]
      intro r hr
      split at hr
      · cases hr
      · cases hr; rfl
    | none =>
      simp only [Bool.true_eq_false, Option.isSome_none, Bool.false_eq_true, or_self, if_false,
        if_true, breadAgain, hfind]
      cases hfree : t.2.cache.freeList with
      | cons x xs => rfl
      | nil =>
        cases hval : (makeFreeBuffer d t.2).val with
        | false =>
          simp only [Bool.false_eq_true, if_false]
          intro r hr
          cases hr
          rfl
        | true =>
          obtain ⟨x, xs, hx⟩ := freeList_makeFreeBuffer hval
          have hnone := (fewerCached_makeFreeBuffer d t.2).findBuffer hfind
          simp only [if_true, hx, List.head?_cons, Option.map_some, hnone]

/-- The read `bread` makes fails. -/
def BreadFails (d : Devices W) (s : St W) (dev : DevId) (blk : ULong) : Prop :=
  ∃ t x, breadReads d s dev blk = some (t, x) ∧
    (d.readBlocks t.world dev blk ((breadStart t.cache dev blk x).pool x).buf).1.ok = false

/-- The write `bdirty` makes at once fails. -/
def BdirtyFails (d : Devices W) (s : St W) (x : BufId) : Prop :=
  let t := tested d s (s.cache.pool x).dev
  (t.cache.pool x).invalid = false ∧ (fsWriteBlocks d t x).1.ok = false

/-- The write `brelse` makes fails. -/
def BrelseFails (d : Devices W) (s : St W) (x : BufId) : Prop :=
  let t := tested d s (s.cache.pool x).dev
  brelseFrees t.cache x = false ∧ (t.cache.pool x).dirty = true ∧
    (fsWriteBlocks d t x).1.ok = false

/-- The write `make_free_buffer` makes fails. -/
def MakeFreeFails (d : Devices W) (s : St W) : Prop :=
  ∃ x c, makeFreeStart s.cache BUFFER_BUCKETS = (some x, c) ∧ (c.pool x).dirty = true ∧
    (fsWriteBlocks d { s with cache := c } x).1.ok = false

theorem failed_bread_iff {d : Devices W} {s : St W} {dev : DevId} {blk : ULong}
    {r : Ret W (Option BufId)} (h : bread d s dev blk = some r) :
    r.Failed ↔ BreadFails d s dev blk := by
  have hreads := bread_eq_of_breadReads d s dev blk
  unfold BreadFails
  cases hr : breadReads d s dev blk with
  | none =>
    rw [hr] at hreads
    simp [Ret.Failed, hreads r h]
  | some p =>
    obtain ⟨t, x⟩ := p
    rw [hr] at hreads
    replace hreads : bread d s dev blk = some (breadFill d t dev blk x) := hreads
    rw [h, Option.some.injEq] at hreads
    rw [hreads]
    simp [Ret.Failed, breadFill]

theorem failed_bdirty_iff (d : Devices W) (s : St W) (x : BufId) :
    (bdirty d s x true).Failed ↔ BdirtyFails d s x := by
  simp only [BdirtyFails, tested, bdirty]
  generalize (testMedia d s (s.cache.pool x).dev).2 = t
  cases hinv : (t.cache.pool x).invalid with
  | true => simp [bdirtyStart, hinv, Ret.Failed]
  | false =>
    simp only [bdirtyStart, hinv, Bool.false_eq_true, if_false, if_true, Ret.Failed, true_and,
      Option.some.injEq, exists_eq_left']
    simp [fsWriteBlocks, Cache.set]

theorem failed_brelse_iff (d : Devices W) (s : St W) (x : BufId) :
    (brelse d s x).Failed ↔ BrelseFails d s x := by
  simp only [BrelseFails, tested, brelse]
  generalize (testMedia d s (s.cache.pool x).dev).2 = t
  cases hfree : brelseFrees t.cache x with
  | true => simp [brelseStart, hfree, Ret.Failed]
  | false =>
    cases hdirty : (t.cache.pool x).dirty with
    | false => simp [brelseStart, hfree, hdirty, Ret.Failed]
    | true =>
      simp only [brelseStart, hfree, hdirty, Bool.false_eq_true, if_false, if_true, Ret.Failed,
        true_and, Option.some.injEq, exists_eq_left']
      simp [fsWriteBlocks, Cache.set]

theorem failed_makeFreeBuffer_iff (d : Devices W) (s : St W) :
    (makeFreeBuffer d s).Failed ↔ MakeFreeFails d s := by
  unfold MakeFreeFails makeFreeBuffer
  split
  · rename_i c h
    simp [Ret.Failed, h]
  · rename_i x c h
    cases hdirty : (c.pool x).dirty <;> simp [Ret.Failed, h, hdirty]

/-! ## Reading -/

/-- `bread` returns a buffer whenever it read a block, whatever became of the read. -/
theorem val_breadFill {d : Devices W} (hd : d.Conventional) (s : St W) (dev : DevId)
    (blk : ULong) (x : BufId) : (breadFill d s dev blk x).val = some x := by
  have hret := (hd.read s.world dev blk ((breadStart s.cache dev blk x).pool x).buf).not_neg
  simp only [breadFill, breadDone, hret, false_and, if_false]

theorem val_bread_of_failed {d : Devices W} (hd : d.Conventional) {s : St W} {dev : DevId}
    {blk : ULong} {r : Ret W (Option BufId)} (h : bread d s dev blk = some r) (hf : r.Failed) :
    ∃ x, r.val = some x := by
  obtain ⟨t, x, hr, -⟩ := (failed_bread_iff h).mp hf
  have hreads := bread_eq_of_breadReads d s dev blk
  rw [hr] at hreads
  replace hreads : bread d s dev blk = some (breadFill d t dev blk x) := hreads
  rw [h, Option.some.injEq] at hreads
  exact ⟨x, by rw [hreads]; exact val_breadFill hd t dev blk x⟩

/-- `bread` keeps read errors exactly if there are none. -/
theorem readErrorKept_iff {d : Devices W} (hd : d.Conventional) {s : St W} {dev : DevId}
    {blk : ULong} {r : Ret W (Option BufId)} (h : bread d s dev blk = some r) :
    ReadErrorKept r dev blk ↔ ¬ r.Failed := by
  constructor
  · intro hkept hf
    obtain ⟨x, hx⟩ := val_bread_of_failed hd h hf
    rw [(hkept hf).1] at hx
    cases hx
  · exact fun hf hf' => absurd hf' hf

/-! ## Writing -/

/-- A positive return value leaves the cache as it is, up to `ERRNO`. -/
theorem writeDone_of_not_neg {c : Cache} {x : BufId} {ret : ℤ} (h : ¬ ret < 0) :
    writeDone c x ret = { c with errno := ret } := by
  simp only [writeDone, h, false_and, if_false]

/-- The buffer `bdirty` writes is clean afterwards. -/
theorem dirty_bdirty {d : Devices W} (hd : d.Conventional) {s : St W} {x : BufId}
    {writeNow : Bool} {a : Access} (ha : (bdirty d s x writeNow).access = some a) :
    ((bdirty d s x writeNow).st.cache.pool a.buf).dirty = false := by
  revert ha
  simp only [bdirty]
  generalize (testMedia d s (s.cache.pool x).dev).2 = t
  cases hs : (bdirtyStart t.cache x writeNow).1 with
  | false => intro ha; cases ha
  | true =>
    intro ha
    cases ha
    have hret := (hd.write t.world ((bdirtyStart t.cache x writeNow).2.pool x).dev
      ((bdirtyStart t.cache x writeNow).2.pool x).blkno
      ((bdirtyStart t.cache x writeNow).2.pool x).buf).not_neg
    simp only [fsWriteBlocks, if_true, writeDone_of_not_neg hret]
    simp only [bdirtyStart] at hs ⊢
    split at hs
    · cases hs
    · rename_i hinv
      replace hs : writeNow = true := hs
      simp [hinv, Cache.set, hs]

/-- So is the buffer `brelse` writes. -/
theorem dirty_brelse {d : Devices W} (hd : d.Conventional) {s : St W} {x : BufId} {a : Access}
    (ha : (brelse d s x).access = some a) :
    ((brelse d s x).st.cache.pool a.buf).dirty = false := by
  revert ha
  simp only [brelse]
  generalize (testMedia d s (s.cache.pool x).dev).2 = t
  cases hs : (brelseStart t.cache x).1 with
  | false => intro ha; cases ha
  | true =>
    intro ha
    cases ha
    have hret := (hd.write t.world ((brelseStart t.cache x).2.pool x).dev
      ((brelseStart t.cache x).2.pool x).blkno ((brelseStart t.cache x).2.pool x).buf).not_neg
    simp only [fsWriteBlocks, if_true, brelseDone, writeDone_of_not_neg hret]
    simp only [brelseStart] at hs ⊢
    split at hs
    · cases hs
    · split at hs
      · rename_i hfree hdirty
        simp [hfree, hdirty, Cache.set, dropUse]
      · cases hs

/-- The buffer `make_free_buffer` writes is on the free list afterwards. -/
theorem mem_freeList_makeFreeBuffer {d : Devices W} {s : St W} {a : Access}
    (ha : (makeFreeBuffer d s).access = some a) :
    a.buf ∈ (makeFreeBuffer d s).st.cache.freeList := by
  unfold makeFreeBuffer at ha ⊢
  split
  · rename_i h; rw [h] at ha; cases ha
  · rename_i x c h
    rw [h] at ha
    split
    · rename_i hdirty
      simp only [hdirty, if_true, Option.some.injEq] at ha
      rw [← ha]
      exact List.mem_cons_self
    · rename_i hdirty
      simp [hdirty] at ha

/-- A function that never keeps the buffer of a write keeps write errors exactly if there
are none. -/
theorem writeErrorKept_iff {α : Type} {before : Cache} {r : Ret W α}
    (h : ∀ a, r.access = some a → ¬ KeptDirty before r.st.cache a.buf) :
    WriteErrorKept before r ↔ ¬ r.Failed := by
  constructor
  · intro hkept hf
    obtain ⟨a, ha, -⟩ := id hf
    exact h a ha (hkept hf a ha)
  · exact fun hf hf' => absurd hf' hf

/-! ## The law -/

/-- **Device errors are swallowed.** On devices that report success as 1 and failure as an
error code, each function of the cache keeps a device error exactly if it meets none. -/
theorem errorsKept_iff {d : Devices W} (hd : d.Conventional) (s : St W) :
    (∀ dev blk r, bread d s dev blk = some r →
        (ReadErrorKept r dev blk ↔ ¬ BreadFails d s dev blk)) ∧
      (∀ x, WriteErrorKept (tested d s (s.cache.pool x).dev).cache (bdirty d s x true) ↔
        ¬ BdirtyFails d s x) ∧
      (∀ x, WriteErrorKept (tested d s (s.cache.pool x).dev).cache (brelse d s x) ↔
        ¬ BrelseFails d s x) ∧
      (WriteErrorKept s.cache (makeFreeBuffer d s) ↔ ¬ MakeFreeFails d s) := by
  refine ⟨fun dev blk r h => ?_, fun x => ?_, fun x => ?_, ?_⟩
  · rw [← failed_bread_iff h]
    exact readErrorKept_iff hd h
  · rw [← failed_bdirty_iff]
    refine writeErrorKept_iff fun a ha hk => ?_
    exact absurd (dirty_bdirty hd ha) (by simp [hk.dirty])
  · rw [← failed_brelse_iff]
    refine writeErrorKept_iff fun a ha hk => ?_
    exact absurd (dirty_brelse hd ha) (by simp [hk.dirty])
  · rw [← failed_makeFreeBuffer_iff]
    exact writeErrorKept_iff fun a ha hk => hk.not_free (mem_freeList_makeFreeBuffer ha)

/-- A disk of one sector track that transfers nothing. -/
def deadDisk : Hd.HdBlockDriver Unit where
  readBlocks _ _ buf := (false, buf, ())
  writeBlocks _ _ _ := (false, ())

/-- Every device is a partition of `deadDisk` with 100 sectors. -/
def deadDevices : Devices Unit :=
  Hd.hdDevices deadDisk fun _ => ⟨0, 100, ⟨1, 100, 1, 100, by decide⟩⟩

/-- The law over `deadDevices`, in the state the cache starts in. -/
theorem errorsKept_deadDevices :
    (∀ dev blk r, bread deadDevices ⟨initBuffers, ()⟩ dev blk = some r →
        (ReadErrorKept r dev blk ↔ ¬ BreadFails deadDevices ⟨initBuffers, ()⟩ dev blk)) ∧
      (∀ x, WriteErrorKept
          (tested deadDevices ⟨initBuffers, ()⟩ (initBuffers.pool x).dev).cache
          (bdirty deadDevices ⟨initBuffers, ()⟩ x true) ↔
        ¬ BdirtyFails deadDevices ⟨initBuffers, ()⟩ x) ∧
      (∀ x, WriteErrorKept
          (tested deadDevices ⟨initBuffers, ()⟩ (initBuffers.pool x).dev).cache
          (brelse deadDevices ⟨initBuffers, ()⟩ x) ↔
        ¬ BrelseFails deadDevices ⟨initBuffers, ()⟩ x) ∧
      (WriteErrorKept initBuffers (makeFreeBuffer deadDevices ⟨initBuffers, ()⟩) ↔
        ¬ MakeFreeFails deadDevices ⟨initBuffers, ()⟩) :=
  errorsKept_iff (hdDevices_conventional deadDisk _) ⟨initBuffers, ()⟩

/-- Reading block 0 of device 1 from `deadDisk` gives a buffer, although the read failed. -/
theorem deadRead_not_kept :
    ¬ ∀ (W : Type) (d : Devices W) (s : St W), d.Conventional →
      ∀ dev blk r, bread d s dev blk = some r → ReadErrorKept r dev blk := by
  intro h
  have hkept := h Unit deadDevices ⟨initBuffers, ()⟩ (hdDevices_conventional deadDisk _) 1 0 _ rfl
  have hf : (breadFill deadDevices ⟨initBuffers, ()⟩ 1 0 0).Failed := ⟨_, rfl, by decide⟩
  cases (hkept hf).1

end Vmm386.Fs
