import Vmm386.Fs.Buffer
import Vmm386.Lib.Runs

/-!
# Many tasks in the buffer cache

A task in one of the functions of `buffer.c` sleeps where it waits for a device or for a
locked buffer. A step takes one task from such a point to its next one. `test_media` is no
step of its own: what it does to the cache are calls of `flush_device_cache`, `bread` and
`brelse`, which its task makes before the function that called it goes on.
-/

namespace Vmm386.Fs

/-- The function that `make_free_buffer` returns to. -/
inductive Caller where
  | bread (dev : DevId) (blk : ULong)
  | bwrite (dev : DevId) (blk : ULong) (data : Blk)

/-- Where a task is. -/
inductive Pc where
  | idle
  /-- `bread` reads the block into its buffer. -/
  | reading (x : BufId)
  /-- `bread` or `bwrite` has found its buffer locked. -/
  | waiting (k : Caller)
  /-- `make_free_buffer` writes its victim. -/
  | evicting (x : BufId) (k : Option Caller)
  /-- `bwrite` has stored its data, and calls `brelse`. -/
  | stored (x : BufId)
  /-- `bdirty` writes the buffer. -/
  | dirtying (x : BufId)
  /-- `brelse` writes the buffer. -/
  | releasing (x : BufId)
  /-- `flush_device_cache`, allowed to write, has these buffers to go. -/
  | flushing (dev : DevId) (xs : List BufId)
  /-- `kill_buffers` has these buffers to go. -/
  | killing (xs : List BufId)

/-- A call into the buffer cache. -/
inductive Call where
  | bread (dev : DevId) (blk : ULong)
  | bwrite (dev : DevId) (blk : ULong) (data : Blk)
  | bdirty (x : BufId) (writeNow : Bool)
  | brelse (x : BufId)
  | makeFreeBuffer
  | flushDeviceCache (dev : DevId) (dontWrite : Bool)
  | killBuffers

abbrev TaskId := ℕ

/-- One step: a call by an idle task, the return from a device call (with its return value
and what it read) or from a sleep, or a change of a buffer's data by a task that uses it. -/
inductive Label where
  | call (t : TaskId) (op : Call)
  | resume (t : TaskId) (ret : ℤ) (data : Blk)
  | modify (x : BufId) (data : Blk)

/-- The cache, where the tasks are, and the buffers `bread` gave them that they have not
released. -/
structure Sys where
  cache : Cache
  pc : TaskId → Pc
  held : TaskId → List BufId

/-- A write that is handed to a device: the buffer, its block and its data. -/
structure Write where
  buf : BufId
  dev : DevId
  blkno : ULong
  data : Blk

/-- What a task does between two points where it may sleep: the cache it leaves, the point
it stops at, the buffer it takes from the free list, the buffer it gets or gives back, and
the write it stops in. -/
structure Segment where
  cache : Cache
  pc : Pc
  took : Option BufId := none
  got : Option BufId := none
  released : Option BufId := none
  write : Option Write := none

/-- The write of the buffer `x`. -/
def writeOf (c : Cache) (x : BufId) : Write := ⟨x, (c.pool x).dev, (c.pool x).blkno, (c.pool x).buf⟩

/-! ## The functions, cut at the points where they sleep -/

/-- `bread` and `bwrite` with a buffer from the queues. -/
def Caller.hit (c : Cache) (x : BufId) : Caller → Segment
  | .bread _ blk => { cache := hitBuffer c blk x, pc := .idle, got := some x }
  | .bwrite _ blk data =>
    { cache := bwriteStore (hitBuffer c blk x) x data, pc := .stored x, got := some x }

/-- `bread` and `bwrite` with the buffer at the head of the free list. -/
def Caller.take (c : Cache) (x : BufId) : Caller → Segment
  | .bread dev blk => { cache := breadStart c dev blk x, pc := .reading x, took := some x }
  | .bwrite dev blk data =>
    { cache := bwriteStore (bwriteStart c dev blk x) x data
      pc := .stored x
      took := some x
      got := some x }

def Caller.dev : Caller → DevId
  | .bread dev _ => dev
  | .bwrite dev _ _ => dev

def Caller.blk : Caller → ULong
  | .bread _ blk => blk
  | .bwrite _ blk _ => blk

/-- `bread` and `bwrite` from the label `again`, which is reached at most `fuel` times. -/
def again (k : Caller) (c : Cache) : ℕ → Segment
  | 0 => { cache := c, pc := .waiting k }
  | fuel + 1 =>
    match findBuffer c k.dev k.blk with
    | some x => if (c.pool x).locked then { cache := c, pc := .waiting k } else k.hit c x
    | none =>
      match c.freeList with
      | x :: _ => k.take c x
      | [] =>
        match makeFreeStart c BUFFER_BUCKETS with
        | (none, c) => { cache := c, pc := .idle }
        | (some x, c) =>
          if (c.pool x).dirty then
            { cache := c, pc := .evicting x (some k), write := some (writeOf c x) }
          else again k (c.pushFree x) fuel

/-- `make_free_buffer`, called for its own sake. -/
def makeFreeSegment (c : Cache) : Segment :=
  match makeFreeStart c BUFFER_BUCKETS with
  | (none, c) => { cache := c, pc := .idle }
  | (some x, c) =>
    if (c.pool x).dirty then
      { cache := c, pc := .evicting x none, write := some (writeOf c x) }
    else { cache := c.pushFree x, pc := .idle }

/-- `bdirty`, after `test_media`. -/
def bdirtySegment (c : Cache) (x : BufId) (writeNow : Bool) : Segment :=
  let r := bdirtyStart c x writeNow
  if r.1 then { cache := r.2, pc := .dirtying x, write := some (writeOf r.2 x) }
  else { cache := r.2, pc := .idle }

/-- `brelse`, after `test_media`. -/
def brelseSegment (c : Cache) (x : BufId) : Segment :=
  let r := brelseStart c x
  if r.1 then { cache := r.2, pc := .releasing x, write := some (writeOf r.2 x) }
  else { cache := r.2, pc := .idle, released := some x }

/-- One turn of the loop of `flush_device_cache` when it may write. -/
def flushSegment (c : Cache) (dev : DevId) (x : BufId) (xs : List BufId) : Segment where
  cache := c.set x ((c.pool x).flush dev false)
  pc := .flushing dev xs
  write := if (c.pool x).dev = dev ∧ (c.pool x).dirty then some (writeOf c x) else none

/-- One turn of the loop of `kill_buffers`. -/
def killSegment (c : Cache) (x : BufId) (xs : List BufId) : Segment where
  cache := c
  pc := .killing xs
  write := if (c.pool x).dirty then some (writeOf c x) else none

/-- The first segment of a call. -/
def Call.segment (c : Cache) : Call → Segment
  | .bread dev blk => again (.bread dev blk) c 2
  | .bwrite dev blk data => again (.bwrite dev blk data) c 2
  | .bdirty x writeNow => bdirtySegment c x writeNow
  | .brelse x => brelseSegment c x
  | .makeFreeBuffer => makeFreeSegment c
  | .flushDeviceCache dev true => { cache := Fs.flushDeviceCache c dev true, pc := .idle }
  | .flushDeviceCache dev false =>
    { cache := c, pc := .flushing dev (List.finRange NR_BUFFERS) }
  | .killBuffers => { cache := c, pc := .killing (List.finRange NR_BUFFERS) }

/-- The segment a sleeping task goes on with. -/
def Pc.segment (c : Cache) (ret : ℤ) (data : Blk) : Pc → Option Segment
  | .idle => none
  | .reading x =>
    let r := breadDone (c.set x { c.pool x with buf := data }) x ret
    some { cache := r.2, pc := .idle, got := r.1 }
  | .waiting k => some (again k c 2)
  | .evicting x none => some { cache := makeFreeDone c x ret, pc := .idle }
  | .evicting x (some k) => some (again k (makeFreeDone c x ret) 2)
  | .stored x => some (brelseSegment c x)
  | .dirtying x => some { cache := writeDone c x ret, pc := .idle }
  | .releasing x => some { cache := brelseDone c x ret, pc := .idle, released := some x }
  | .flushing _ [] => some { cache := c, pc := .idle }
  | .flushing dev (x :: xs) => some (flushSegment c dev x xs)
  | .killing [] => some { cache := c, pc := .idle }
  | .killing (x :: xs) => some (killSegment c x xs)

/-! ## Steps -/

/-- The segment a step runs. -/
def Sys.segment (s : Sys) : Label → Option Segment
  | .call t op => match s.pc t with
    | .idle => some (op.segment s.cache)
    | _ => none
  | .resume t ret data => (s.pc t).segment s.cache ret data
  | .modify x data => some { cache := s.cache.set x { s.cache.pool x with buf := data }, pc := .idle }

/-- The task that takes the step. -/
def Label.task : Label → Option TaskId
  | .call t _ => some t
  | .resume t _ _ => some t
  | .modify _ _ => none

/-- The state after a segment of the task `t`. -/
def Sys.after (s : Sys) (t : Option TaskId) (g : Segment) : Sys :=
  match t with
  | none => { s with cache := g.cache }
  | some t =>
    { cache := g.cache
      pc := Function.update s.pc t g.pc
      held := Function.update s.held t
        ((g.got.toList ++ s.held t).diff g.released.toList) }

/-- One step of the system. -/
def Sys.step (s : Sys) (l : Label) : Option Sys := (s.segment l).map (s.after l.task)

/-- The write a step hands to a device. -/
def Sys.written (s : Sys) (l : Label) : Option Write := (s.segment l).bind (·.write)

/-- `init_buffers` has run, and no task is in the cache. -/
def Sys.init : Sys := ⟨initBuffers, fun _ => .idle, fun _ => []⟩

@[simp] theorem Sys.cache_after (s : Sys) (t : Option TaskId) (g : Segment) :
    (s.after t g).cache = g.cache := by
  cases t <;> rfl

/-- A step leaves the cache of its segment. -/
theorem Sys.step_eq_some {s s' : Sys} {l : Label} (h : s.step l = some s') :
    ∃ g, s.segment l = some g ∧ s'.cache = g.cache := by
  obtain ⟨g, hg, rfl⟩ := Option.map_eq_some_iff.mp h
  exact ⟨g, hg, s.cache_after _ _⟩

end Vmm386.Fs
