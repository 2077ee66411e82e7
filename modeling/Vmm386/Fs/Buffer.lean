import Vmm386.Types
import Mathlib.Logic.Function.Basic

/-!
# The buffer cache (`fs/buffer.c`)

The pool of buffers, the hash queues and the free list. Every function of the cache is cut
at the device call where it may sleep: `...Start` is what it does before the call, `...Done`
what it does with the return value. The functions of the source, run by one task, are put
together from these pieces here; the runs of many tasks use the same pieces.
-/

namespace Vmm386.Fs

/-! ## Constants and types -/

abbrev FS_BLKSIZ : ℕ := 1024

abbrev NR_BUFFERS : ℕ := 20

abbrev BUFFER_BUCKETS : ℕ := 4

/-- Error codes (`vmm/errno.h`) the buffer cache deals with. -/
def E_DISKCHANGE : ℤ := 12
def E_IO : ℤ := 13
def E_NODISK : ℤ := 14
def E_NOMEM : ℤ := 17

/-- `E_MAXLINKS`, the last of the error codes. -/
def E_MAXLINKS : ℤ := 21

/-- The contents of a block. -/
abbrev Blk := Vector UChar FS_BLKSIZ

/-- A `struct fs_device *`; the null pointer is 0. -/
abbrev DevId := ℕ

/-- An element of `buffer_pool`. -/
abbrev BufId := Fin NR_BUFFERS

/-- `BUFFER_HASH`. -/
def bufferHash (blk : ULong) : Fin BUFFER_BUCKETS :=
  ⟨blk.toNat % BUFFER_BUCKETS, Nat.mod_lt _ (by decide)⟩

/-- `struct buf_head`, without its links. -/
structure BufHead where
  dev : DevId
  blkno : ULong
  useCount : ℤ
  dirty : Bool
  invalid : Bool
  locked : Bool
  buf : Blk

/-- A zeroed `struct buf_head`. -/
def BufHead.zero : BufHead := ⟨0, 0, 0, false, false, false, Vector.replicate FS_BLKSIZ 0⟩

/-- The static data of `buffer.c`, the `invalid` flags of the devices, and `ERRNO`. A hash
queue is the list of its buffers, the most recently used first. -/
structure Cache where
  table : Fin BUFFER_BUCKETS → List BufId
  freeList : List BufId
  pool : BufId → BufHead
  lastBucket : Fin BUFFER_BUCKETS
  devInvalid : DevId → Bool
  errno : ℤ

namespace Cache

/-- Overwrite one buffer of the pool. -/
def set (c : Cache) (x : BufId) (b : BufHead) : Cache :=
  { c with pool := Function.update c.pool x b }

/-- `remove_node` on a buffer in a hash queue. -/
def removeNode (c : Cache) (x : BufId) : Cache :=
  { c with table := fun i => (c.table i).erase x }

/-- `prepend_node` on a hash queue. -/
def prependNode (c : Cache) (i : Fin BUFFER_BUCKETS) (x : BufId) : Cache :=
  { c with table := Function.update c.table i (x :: c.table i) }

/-- Put a buffer on the free list. -/
def pushFree (c : Cache) (x : BufId) : Cache := { c with freeList := x :: c.freeList }

end Cache

/-- `init_buffers`, on zeroed static data. -/
def initBuffers : Cache where
  table _ := []
  freeList := List.finRange NR_BUFFERS
  pool _ := .zero
  lastBucket := 0
  devInvalid _ := false
  errno := 0

/-! ## Invalidation -/

/-- What the loop of `flush_device_cache` does to a buffer. -/
def BufHead.flush (b : BufHead) (dev : DevId) (dontWrite : Bool) : BufHead :=
  if b.dev = dev then { b with invalid := true, dirty := b.dirty && dontWrite } else b

/-- `flush_device_cache`: what it does to the cache. Without `dontWrite` it also writes
every dirty buffer of the device, and ignores what becomes of the write. -/
def flushDeviceCache (c : Cache) (dev : DevId) (dontWrite : Bool) : Cache :=
  { c with pool := fun x => (c.pool x).flush dev dontWrite }

/-- `invalidate_device`: what it does to the cache. -/
def invalidateDevice (c : Cache) (dev : DevId) : Cache :=
  if c.devInvalid dev then c
  else flushDeviceCache { c with devInvalid := Function.update c.devInvalid dev true } dev true

/-- `handle_device_error`. -/
def handleDeviceError (c : Cache) (x : BufId) : Bool × Cache :=
  (false, if c.errno = E_NODISK then invalidateDevice c (c.pool x).dev else c)

/-! ## Looking up and releasing buffers -/

/-- The buffer is a valid copy of the block. -/
def BufHead.caches (b : BufHead) (dev : DevId) (blk : ULong) : Bool :=
  b.blkno == blk && b.dev == dev && !b.invalid

/-- `find_buffer`. -/
def findBuffer (c : Cache) (dev : DevId) (blk : ULong) : Option BufId :=
  (c.table (bufferHash blk)).find? fun x => (c.pool x).caches dev blk

/-- A cached buffer gets one more user and moves to the head of its queue. -/
def hitBuffer (c : Cache) (blk : ULong) (x : BufId) : Cache :=
  ((c.set x { c.pool x with useCount := (c.pool x).useCount + 1 }).removeNode x).prependNode
    (bufferHash blk) x

/-- The loop of `make_free_buffer` with `tries` turns left: the first unused buffer from the
tail of a queue is taken out of it. -/
def makeFreeStart (c : Cache) : ℕ → Option BufId × Cache
  | 0 => (none, { c with errno := E_NOMEM })
  | tries + 1 =>
    let i := c.lastBucket + 1
    match (c.table i).reverse.find? fun x => (c.pool x).useCount == 0 with
    | some x => (some x, { c with lastBucket := i }.removeNode x)
    | none => makeFreeStart { c with lastBucket := i } tries

/-- `make_free_buffer` after its write has returned `ret`. -/
def makeFreeDone (c : Cache) (x : BufId) (ret : ℤ) : Cache :=
  let c := { c with errno := ret }
  (if ret < 0 then c else (handleDeviceError c x).2).pushFree x

/-- `bread` takes the buffer `x` from the head of the free list. -/
def breadStart (c : Cache) (dev : DevId) (blk : ULong) (x : BufId) : Cache :=
  (({ c with freeList := c.freeList.tail } : Cache).prependNode (bufferHash blk) x).set x
    { c.pool x with
      dev, blkno := blk, useCount := 1, dirty := false, invalid := false, locked := true }

/-- `bread` after its read has returned `ret`. -/
def breadDone (c : Cache) (x : BufId) (ret : ℤ) : Option BufId × Cache :=
  let c := { c with errno := ret }
  if ret < 0 ∧ (handleDeviceError c x).1 = false then
    (none, ((handleDeviceError c x).2.removeNode x).pushFree x)
  else (some x, c.set x { c.pool x with locked := false })

/-- `bwrite` takes the buffer `x` from the head of the free list. -/
def bwriteStart (c : Cache) (dev : DevId) (blk : ULong) (x : BufId) : Cache :=
  (({ c with freeList := c.freeList.tail } : Cache).prependNode (bufferHash blk) x).set x
    { c.pool x with dev, blkno := blk, useCount := 1, invalid := false, locked := false }

/-- `bwrite` stores the data in its buffer. -/
def bwriteStore (c : Cache) (x : BufId) (data : Blk) : Cache :=
  c.set x { c.pool x with buf := data, dirty := true }

/-- `bdirty` up to its write: whether it writes, and the cache. -/
def bdirtyStart (c : Cache) (x : BufId) (writeNow : Bool) : Bool × Cache :=
  if (c.pool x).invalid then (false, c)
  else (writeNow, c.set x { c.pool x with dirty := !writeNow })

/-- `bdirty` and `brelse` look at the return value of their write. -/
def writeDone (c : Cache) (x : BufId) (ret : ℤ) : Cache :=
  let c := { c with errno := ret }
  if ret < 0 ∧ (handleDeviceError c x).1 = false then
    let c := (handleDeviceError c x).2
    c.set x { c.pool x with dirty := true }
  else c

/-- The last user of an invalid buffer puts it on the free list. -/
def brelseFrees (c : Cache) (x : BufId) : Bool :=
  (c.pool x).useCount == 1 && (c.pool x).invalid

/-- `brelse` drops its use of the buffer. -/
def dropUse (c : Cache) (x : BufId) : Cache :=
  c.set x { c.pool x with useCount := (c.pool x).useCount - 1 }

/-- `brelse` up to its write: whether it writes, and the cache. -/
def brelseStart (c : Cache) (x : BufId) : Bool × Cache :=
  if brelseFrees c x then (false, (c.removeNode x).pushFree x)
  else if (c.pool x).dirty then (true, c.set x { c.pool x with dirty := false })
  else (false, dropUse c x)

/-- `brelse` after its write has returned `ret`. -/
def brelseDone (c : Cache) (x : BufId) (ret : ℤ) : Cache := dropUse (writeDone c x ret) x

/-! ## The functions of the cache, run by one task -/

/-- What became of a transfer, and the return value that reports it. -/
structure Outcome where
  ok : Bool
  ret : ℤ

/-- The cache and the devices. -/
structure St (W : Type) where
  cache : Cache
  world : W

/-- The devices, with states in `W`: `read_blocks` and `write_blocks` for one block, and
`test_media`, which is `NULL` for fixed media. `validate_device` reads a new medium through
the functions below and the inode layer above them, so what it does is left open. -/
structure Devices (W : Type) where
  readBlocks : W → DevId → ULong → Blk → Outcome × Blk × W
  writeBlocks : W → DevId → ULong → Blk → Outcome × W
  testMedia : DevId → Option (W → ℤ × W)
  validateDevice : St W → DevId → Bool × St W

/-- The transfer a function makes, if any, and the buffer it makes it with. -/
structure Access where
  buf : BufId
  outcome : Outcome

/-- The result of a function of the cache. -/
structure Ret (W α : Type) where
  val : α
  access : Option Access
  st : St W

/-- The function made a transfer, and it failed. -/
def Ret.Failed {W α : Type} (r : Ret W α) : Prop := ∃ a, r.access = some a ∧ a.outcome.ok = false

variable {W : Type}

/-- `test_media` of the cache. -/
def testMedia (d : Devices W) (s : St W) (dev : DevId) : Bool × St W :=
  match d.testMedia dev with
  | none => (true, s)
  | some test =>
    let r := test s.world
    let failed (e : ℤ) : St W := ⟨{ invalidateDevice s.cache dev with errno := e }, r.2⟩
    if r.1 = E_NODISK then (false, failed E_NODISK)
    else if r.1 = E_DISKCHANGE then d.validateDevice (failed E_DISKCHANGE) dev
    else (!s.cache.devInvalid dev, { s with world := r.2 })

/-- `FS_WRITE_BLOCKS` on a buffer. -/
def fsWriteBlocks (d : Devices W) (s : St W) (x : BufId) : Outcome × W :=
  d.writeBlocks s.world (s.cache.pool x).dev (s.cache.pool x).blkno (s.cache.pool x).buf

/-- `make_free_buffer`. -/
def makeFreeBuffer (d : Devices W) (s : St W) : Ret W Bool :=
  match makeFreeStart s.cache BUFFER_BUCKETS with
  | (none, c) => ⟨false, none, { s with cache := c }⟩
  | (some x, c) =>
    if (c.pool x).dirty then
      let r := fsWriteBlocks d { s with cache := c } x
      ⟨true, some ⟨x, r.1⟩, ⟨makeFreeDone c x r.1.ret, r.2⟩⟩
    else ⟨true, none, { s with cache := c.pushFree x }⟩

/-- `bread` from the point where the buffer `x` is its own: the read of the block. -/
def breadFill (d : Devices W) (s : St W) (dev : DevId) (blk : ULong) (x : BufId) :
    Ret W (Option BufId) :=
  let c := breadStart s.cache dev blk x
  let r := d.readBlocks s.world dev blk (c.pool x).buf
  let done := breadDone (c.set x { c.pool x with buf := r.2.1 }) x r.1.ret
  ⟨done.1, some ⟨x, r.1⟩, ⟨done.2, r.2.2⟩⟩

/-- `bread` from the label `again`, which is reached at most `fuel` times. No result means
that the task sleeps until another task unlocks the buffer. -/
def breadAgain (d : Devices W) (s : St W) (dev : DevId) (blk : ULong) :
    ℕ → Option (Ret W (Option BufId))
  | 0 => none
  | fuel + 1 =>
    match findBuffer s.cache dev blk with
    | some x =>
      if (s.cache.pool x).locked then none
      else some ⟨some x, none, { s with cache := hitBuffer s.cache blk x }⟩
    | none =>
      match s.cache.freeList with
      | x :: _ => some (breadFill d s dev blk x)
      | [] =>
        let r := makeFreeBuffer d s
        if r.val then breadAgain d r.st dev blk fuel
        else some ⟨none, none, r.st⟩

/-- `bread`. -/
def bread (d : Devices W) (s : St W) (dev : DevId) (blk : ULong) :
    Option (Ret W (Option BufId)) :=
  let t := testMedia d s dev
  if t.1 then breadAgain d t.2 dev blk 2 else some ⟨none, none, t.2⟩

/-- `bdirty`. -/
def bdirty (d : Devices W) (s : St W) (x : BufId) (writeNow : Bool) : Ret W Unit :=
  let t := (testMedia d s (s.cache.pool x).dev).2
  let c := bdirtyStart t.cache x writeNow
  if c.1 then
    let r := fsWriteBlocks d { t with cache := c.2 } x
    ⟨(), some ⟨x, r.1⟩, ⟨writeDone c.2 x r.1.ret, r.2⟩⟩
  else ⟨(), none, { t with cache := c.2 }⟩

/-- `brelse`. -/
def brelse (d : Devices W) (s : St W) (x : BufId) : Ret W Unit :=
  let t := (testMedia d s (s.cache.pool x).dev).2
  let c := brelseStart t.cache x
  if c.1 then
    let r := fsWriteBlocks d { t with cache := c.2 } x
    ⟨(), some ⟨x, r.1⟩, ⟨brelseDone c.2 x r.1.ret, r.2⟩⟩
  else ⟨(), none, { t with cache := c.2 }⟩

end Vmm386.Fs
