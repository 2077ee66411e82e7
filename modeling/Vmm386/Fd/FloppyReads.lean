import Vmm386.Fd.FloppyTheorems

/-!
# A read from a floppy disk

A read of some blocks, by a controller that works: every interrupt copies what the request has of a
track, until it is done.
-/

namespace Vmm386.Fd

open Mm Runs

/-- A read that is made while the driver is idle, and the disk `disk` in the drive: its blocks are
on the disk, a cylinder of which fits into the track buffer. -/
structure DiskRead where
  start : FdSys
  p : ULong
  dev : Fin 2
  buf : ULong
  block : ULong
  nblocks : ULong
  disk : ℕ → UChar
  idle : start.current = none
  works : start.Works
  sectors_pos : 0 < (start.devs dev).sectors.toNat
  heads_pos : 0 < (start.devs dev).heads.toNat
  fits : (start.devs dev).sectors.toNat * (start.devs dev).heads.toNat * 512 ≤ TRACKBUF_SIZE
  nblocks_pos : 0 < nblocks.toNat
  inside : block.toNat + nblocks.toNat ≤ (start.devs dev).totalBlocks.toNat
  room : buf.toNat + 512 * nblocks.toNat ≤ 2 ^ 32

namespace DiskRead

variable (x : DiskRead)

/-- Sectors of a track. -/
def sectors : ULong := (x.start.devs x.dev).sectors

/-- Tracks of a cylinder. -/
def heads : ULong := (x.start.devs x.dev).heads

/-- Bytes of a cylinder. -/
def cylinderSize : ℕ := x.sectors.toNat * x.heads.toNat * 512

/-- The request of `floppy_read_blocks`. -/
def request : BlkReq := ⟨x.dev, x.buf, x.block, x.nblocks, FD_CMD_READ, 0, 0, false⟩

/-- After a successful `fdc_read` the result has no error and the number of the drive, and the track
buffer has the whole cylinder. Other tasks have requests of their own. -/
def Good (s : FdSys) : FdOp → Prop
  | .request p _ => p ≠ x.p
  | .interrupt st0 track => ∀ d cyl, s.reading = some (d, cyl) →
      st0 &&& ST0_INTR = 0 ∧ (st0 &&& ST0_DS).toNat = d.val ∧
        (d = x.dev → ∀ i < x.cylinderSize, track i = x.disk (cyl.toNat * x.cylinderSize + i))

/-- The first `n` blocks are in the buffer, and nothing else is changed. -/
def Copied (n : ℕ) (mem : ULong → UChar) : Prop :=
  (∀ i < 512 * n, mem (byteAddr x.buf i) = x.disk (512 * x.block.toNat + i)) ∧
    ∀ a, (∀ i < 512 * n, a ≠ byteAddr x.buf i) → mem a = x.start.mem a

/-- The request has `c` blocks copied and waits for more. -/
structure Pending (c : ℕ) (s : FdSys) : Prop where
  lt : c < x.nblocks.toNat
  works : s.Works
  devs : s.devs = x.start.devs
  dev : (s.req x.p).dev = x.dev
  command : (s.req x.p).command = FD_CMD_READ
  buf : (s.req x.p).buf.toNat = x.buf.toNat + 512 * c
  block : (s.req x.p).block.toNat = x.block.toNat + c
  nblocks : (s.req x.p).nblocks.toNat = x.nblocks.toNat - c
  ended : s.ended = x.start.ended
  copied : x.Copied c s.mem

/-- The controller reads for it. -/
structure Reading (c : ℕ) (s : FdSys) : Prop extends x.Pending c s where
  current : s.current = some x.p
  intr : s.intr = true
  reading : s.reading = some (x.dev, (s.req x.p).block / x.sectors / x.heads)

/-- The request has ended with 0, and all blocks are copied. -/
def Finished (s : FdSys) : Prop :=
  (∃ more, s.ended = more ++ (x.p, 0) :: x.start.ended) ∧ x.Copied x.nblocks.toNat s.mem

/-- The number of interrupts. -/
def interrupts : List FdOp → ℕ
  | [] => 0
  | .request .. :: ops => interrupts ops
  | .interrupt .. :: ops => interrupts ops + 1

/-- The request is started, every interrupt copies a block at least, and at last the request has
ended. -/
def Completes : Prop :=
  ∀ fuel ops, x.start.queue.length + ops.length + 2 ≤ fuel →
    ∃ s₁, fdStep fuel x.start (.request x.p x.request) = some s₁ ∧
      (Along (fdStep fuel) x.Good s₁ ops →
        (∃ s c, run (fdStep fuel) s₁ ops = some s ∧ x.Reading c s ∧ interrupts ops ≤ c) ∨
          ∃ ops₁ ops₂ s, ops = ops₁ ++ ops₂ ∧ run (fdStep fuel) s₁ ops₁ = some s ∧ x.Finished s)

variable {x} {s : FdSys} {c fuel : ℕ}

/-! ## Places on a disk -/

/-- A block is in its cylinder behind the tracks of the lower heads. -/
theorem cylinder_start (block sectors heads : ℕ) :
    block = block / sectors / heads * (sectors * heads) +
      (block % sectors + block / sectors % heads * sectors) := by
  have hsector := Nat.div_add_mod block sectors
  have hhead := Nat.div_add_mod (block / sectors) heads
  calc block = sectors * (block / sectors) + block % sectors := hsector.symm
    _ = sectors * (heads * (block / sectors / heads) + block / sectors % heads) +
        block % sectors := by rw [hhead]
    _ = _ := by ring

/-- What is left of a track is in the cylinder. -/
theorem track_end {block sectors heads n : ℕ} (hsectors : 0 < sectors) (hheads : 0 < heads)
    (hn : n ≤ sectors - block % sectors) :
    block % sectors + block / sectors % heads * sectors + n ≤ sectors * heads := by
  have hsector := Nat.mod_lt block hsectors
  have hhead : block / sectors % heads + 1 ≤ heads := Nat.mod_lt _ hheads
  calc block % sectors + block / sectors % heads * sectors + n
      ≤ (block / sectors % heads + 1) * sectors := by rw [Nat.add_mul]; omega
    _ ≤ heads * sectors := Nat.mul_le_mul_right _ hhead
    _ = sectors * heads := Nat.mul_comm ..

/-! ## The start of a read -/

theorem Pending.setCurrent (h : x.Pending c s) (queue : List ULong) (current : Option ULong) :
    x.Pending c { s with queue := queue, current := current } :=
  ⟨h.lt, ⟨h.works.answers, h.works.calibrated⟩, h.devs, h.dev, h.command, h.buf, h.block,
    h.nblocks, h.ended, h.copied⟩

/-- The request that is current is read for. -/
theorem Pending.serve (h : x.Pending c s) (hcurrent : s.current = some x.p) :
    ∃ s', s.serve x.p = (none, s') ∧ x.Reading c s' ∧ s'.queue = s.queue ∧ s'.req = s.req := by
  have hblock : (s.req x.p).block < (s.devs (s.req x.p).dev).totalBlocks := by
    rw [h.dev, h.devs, BitVec.lt_def, h.block]
    have hinside := x.inside
    have hlt := h.lt
    omega
  obtain ⟨answers, hanswers, hserve⟩ := h.works.serve_read h.command hblock
  have hcylinder : s.cylinder (s.req x.p).dev (s.req x.p).block =
      (s.req x.p).block / x.sectors / x.heads := by
    rw [FdSys.cylinder, h.dev, h.devs]
    rfl
  rw [hcylinder, h.dev] at hserve
  exact ⟨_, hserve, ⟨⟨h.lt, ⟨hanswers, h.works.calibrated⟩, h.devs, h.dev, h.command, h.buf,
    h.block, h.nblocks, h.ended, h.copied⟩, hcurrent, rfl, rfl⟩, rfl, rfl⟩

/-- The request is the first on the queue. -/
theorem Pending.doRequest_next (h : x.Pending c s) {queue : List ULong}
    (hcurrent : s.current = none) (hqueue : s.queue = x.p :: queue) (fuel : ℕ) :
    ∃ s', s.doRequest (fuel + 1) none = some s' ∧ x.Reading c s' ∧ s'.queue = queue := by
  obtain ⟨s', hserve, hreading, hqueue', -⟩ := (h.setCurrent queue (some x.p)).serve rfl
  refine ⟨s', ?_, hreading, hqueue'⟩
  rw [h.works.doRequest_next hcurrent hqueue, hserve]

/-- `floppy_read_blocks` while the driver is idle. -/
theorem request_reading (x : DiskRead) (fuel : ℕ) :
    ∃ s', fdStep (fuel + 1) x.start (.request x.p x.request) = some s' ∧ x.Reading 0 s' ∧
      s'.queue = x.start.queue ∧ (s'.req x.p).retries = 0 := by
  have hreq : (x.start.setReq x.p
      { x.request with retries := 0, completed := false }).req x.p = x.request :=
    Function.update_self ..
  have hpending : x.Pending 0
      (x.start.setReq x.p { x.request with retries := 0, completed := false }) := by
    refine ⟨x.nblocks_pos, ⟨x.works.answers, x.works.calibrated⟩, rfl, ?_, ?_, ?_, ?_, ?_, rfl,
      fun i hi => absurd hi (Nat.not_lt_zero i), fun _ _ => rfl⟩ <;> rw [hreq] <;> rfl
  obtain ⟨s', hserve, hreading, hqueue, hreq'⟩ :=
    (hpending.setCurrent x.start.queue (some x.p)).serve rfl
  refine ⟨s', ?_, hreading, hqueue, by rw [hreq']; exact congrArg BlkReq.retries hreq⟩
  have hserve' : FdSys.serve { x.start.setReq x.p
      { x.request with retries := 0, completed := false } with current := some x.p } x.p =
      (none, s') := hserve
  rw [fdStep, hpending.works.doRequest_some x.idle, hserve']

/-! ## Steps -/

/-- Another task has to wait. -/
theorem Reading.request (h : x.Reading c s) {p : ULong} (hp : p ≠ x.p) (r : BlkReq) (fuel : ℕ) :
    ∃ s', fdStep (fuel + 1) s (.request p r) = some s' ∧ x.Reading c s' ∧
      s'.queue.length = s.queue.length + 1 := by
  have hreq : (s.setReq p { r with retries := 0, completed := false }).req x.p = s.req x.p :=
    Function.update_of_ne hp.symm ..
  have hcurrent : (s.setReq p { r with retries := 0, completed := false }).current ≠ none := by
    change s.current ≠ none
    rw [h.current]
    exact nofun
  refine ⟨(s.setReq p { r with retries := 0, completed := false }).append (some p), if_pos hcurrent,
    ⟨⟨h.lt, ⟨h.works.answers, h.works.calibrated⟩, h.devs, (congrArg BlkReq.dev hreq).trans h.dev,
      (congrArg BlkReq.command hreq).trans h.command, ?_, ?_, ?_, h.ended, h.copied⟩, h.current,
      h.intr, ?_⟩, List.length_append⟩
  · exact (congrArg (fun r : BlkReq => r.buf.toNat) hreq).trans h.buf
  · exact (congrArg (fun r : BlkReq => r.block.toNat) hreq).trans h.block
  · exact (congrArg (fun r : BlkReq => r.nblocks.toNat) hreq).trans h.nblocks
  · refine h.reading.trans ?_
    exact congrArg (fun r : BlkReq => some (x.dev, r.block / x.sectors / x.heads)) hreq.symm

/-- A byte of the part that is copied next. -/
theorem byteAddr_byteAddr (a : ULong) (i j : ℕ) : byteAddr (byteAddr a i) j = byteAddr a (i + j) := by
  rw [byteAddr, byteAddr, byteAddr, BitVec.add_assoc, ← BitVec.ofNat_add]

theorem Copied.copyBytes {mem : ULong → UChar} {track : ℕ → UChar} {buf : ULong} {src m : ℕ}
    (h : x.Copied c mem) (hle : c + m ≤ x.nblocks.toNat) (hbuf : buf = byteAddr x.buf (512 * c))
    (htrack : ∀ j < 512 * m, track (src + j) = x.disk (512 * (x.block.toNat + c) + j)) :
    x.Copied (c + m) (copyBytes track (512 * m) buf src mem) := by
  have hroom := x.room
  have hbytes : 512 * (c + m) = 512 * c + 512 * m := Nat.mul_add ..
  have haddr : ∀ j, byteAddr buf j = byteAddr x.buf (512 * c + j) := by
    intro j
    rw [hbuf, byteAddr_byteAddr]
  refine ⟨fun i hi => ?_, fun a ha => ?_⟩
  · by_cases hold : i < 512 * c
    · rw [copyBytes_of_ne, h.1 i hold]
      intro j hj heq
      rw [haddr] at heq
      have := byteAddr_inj (by omega) (by omega) heq
      omega
    · obtain ⟨j, rfl⟩ := Nat.exists_eq_add_of_le (not_lt.mp hold)
      rw [← haddr, copyBytes_of_lt (by omega) (by omega), htrack j (by omega)]
      congr 1
      omega
  · rw [copyBytes_of_ne, h.2 a]
    · intro i hi
      exact ha i (by omega)
    · intro j hj
      rw [haddr]
      exact ha _ (by omega)

/-- What `read_intr` copies of a track: the sectors that the request wants and the track still has. -/
def trackCount (x : DiskRead) (r : BlkReq) : ULong :=
  if r.nblocks > x.sectors - r.block % x.sectors then x.sectors - r.block % x.sectors
  else r.nblocks

/-- Where they begin in the track buffer. -/
def trackStart (x : DiskRead) (r : BlkReq) : ULong :=
  r.block % x.sectors + r.block / x.sectors % x.heads * x.sectors

theorem cylinderSize_le (x : DiskRead) : x.sectors.toNat * x.heads.toNat ≤ 80 := by
  have hfits := x.fits
  change x.sectors.toNat * x.heads.toNat * 512 ≤ 40960 at hfits
  omega

theorem toNat_sector (x : DiskRead) (block : ULong) :
    (x.sectors - block % x.sectors).toNat = x.sectors.toNat - block.toNat % x.sectors.toNat := by
  have hlt : (block % x.sectors).toNat < x.sectors.toNat := by
    rw [BitVec.toNat_umod]
    exact Nat.mod_lt _ x.sectors_pos
  rw [BitVec.toNat_sub_of_le (BitVec.le_def.mpr hlt.le), BitVec.toNat_umod]

/-- A sector at least is copied, and nothing that the request does not want or the track has not. -/
theorem trackCount_spec (x : DiskRead) (r : BlkReq) (hpos : 0 < r.nblocks.toNat) :
    0 < (x.trackCount r).toNat ∧ (x.trackCount r).toNat ≤ r.nblocks.toNat ∧
      (x.trackCount r).toNat ≤ x.sectors.toNat - r.block.toNat % x.sectors.toNat := by
  have hsector := Nat.mod_lt r.block.toNat x.sectors_pos
  have hleft := x.toNat_sector r.block
  unfold trackCount
  change r.block.toNat % x.sectors.toNat < x.sectors.toNat at hsector
  by_cases hgt : r.nblocks > x.sectors - r.block % x.sectors
  · have hnat : (x.sectors - r.block % x.sectors).toNat < r.nblocks.toNat := hgt
    rw [if_pos hgt]
    omega
  · have hnat : r.nblocks.toNat ≤ (x.sectors - r.block % x.sectors).toNat := BitVec.not_lt.mp hgt
    rw [if_neg hgt]
    omega

theorem toNat_trackStart (x : DiskRead) (r : BlkReq) :
    (x.trackStart r).toNat = r.block.toNat % x.sectors.toNat +
      r.block.toNat / x.sectors.toNat % x.heads.toNat * x.sectors.toNat := by
  have hend : r.block.toNat % x.sectors.toNat +
      r.block.toNat / x.sectors.toNat % x.heads.toNat * x.sectors.toNat + 0 ≤
        x.sectors.toNat * x.heads.toNat :=
    track_end x.sectors_pos x.heads_pos (Nat.zero_le _)
  have hle := x.cylinderSize_le
  have hmul : (r.block / x.sectors % x.heads * x.sectors).toNat =
      r.block.toNat / x.sectors.toNat % x.heads.toNat * x.sectors.toNat := by
    rw [BitVec.toNat_mul, BitVec.toNat_umod, BitVec.toNat_udiv]
    exact Nat.mod_eq_of_lt (by omega)
  rw [trackStart, BitVec.toNat_add, hmul, BitVec.toNat_umod]
  exact Nat.mod_eq_of_lt (by omega)

theorem toNat_mul_sectsiz {n : ULong} (h : n.toNat ≤ 80) :
    (n * FD_SECTSIZ).toNat = 512 * n.toNat := by
  rw [BitVec.toNat_mul]
  change n.toNat * 512 % 2 ^ 32 = _
  rw [Nat.mod_eq_of_lt (by omega), Nat.mul_comm]

/-- The request for the rest. -/
def rest (x : DiskRead) (r : BlkReq) : BlkReq :=
  { r with
    buf := r.buf + x.trackCount r * FD_SECTSIZ
    block := r.block + x.trackCount r
    nblocks := r.nblocks - x.trackCount r }

/-- The driver with the part of a track copied. -/
def copied (x : DiskRead) (s : FdSys) (track : ℕ → UChar) : FdSys :=
  { s.setReq x.p (x.rest (s.req x.p)) with
    current := some x.p
    intr := false
    trackBuf := track
    mem := Fd.copyBytes track (x.trackCount (s.req x.p) * FD_SECTSIZ).toNat (s.req x.p).buf
      (x.trackStart (s.req x.p) * FD_SECTSIZ).toNat s.mem }

/-- `read_intr` after a read without an error. -/
theorem Reading.readIntr (h : x.Reading c s) {st0 : UChar} (hst0 : st0 &&& 1 = 0)
    (track : ℕ → UChar) (fuel : ℕ) :
    fdStep fuel s (.interrupt st0 track) =
      if (x.rest (s.req x.p)).nblocks = 0 then ((x.copied s track).endRequest 0).doRequest fuel none
      else FdSys.doRequest fuel none
        { x.copied s track with queue := x.p :: s.queue, current := none } := by
  have hdev : s.devs (s.req x.p).dev = x.start.devs x.dev := by rw [h.dev, h.devs]
  have htest : ¬st0 &&& (if ST0_INTR ≠ 0 then 1 else 0) ≠ 0 := by
    rw [if_pos (by decide)]
    exact not_not.mpr hst0
  rw [fdStep, if_pos h.intr]
  unfold FdSys.readIntr
  dsimp only
  rw [h.current]
  dsimp only
  rw [if_neg htest, hdev]
  rfl

/-- Where the copied part is on the disk. -/
theorem Good.track {st0 : UChar} {track : ℕ → UChar} (h : x.Reading c s)
    (hgood : x.Good s (.interrupt st0 track)) {j : ℕ}
    (hj : j < 512 * (x.trackCount (s.req x.p)).toNat) :
    track (512 * (x.trackStart (s.req x.p)).toNat + j) =
      x.disk (512 * (x.block.toNat + c) + j) := by
  obtain ⟨-, -, hdata⟩ := hgood _ _ h.reading
  have hpos : 0 < (s.req x.p).nblocks.toNat := by
    rw [h.nblocks]
    exact Nat.sub_pos_of_lt h.lt
  obtain ⟨-, -, hcount⟩ := x.trackCount_spec _ hpos
  have hend := track_end x.sectors_pos x.heads_pos hcount
  have hstart := cylinder_start (s.req x.p).block.toNat x.sectors.toNat x.heads.toNat
  have hsize : x.cylinderSize = x.sectors.toNat * x.heads.toNat * 512 := rfl
  change (s.req x.p).block.toNat % x.sectors.toNat +
    (s.req x.p).block.toNat / x.sectors.toNat % x.heads.toNat * x.sectors.toNat +
      (x.trackCount (s.req x.p)).toNat ≤ x.sectors.toNat * x.heads.toNat at hend
  rw [← x.toNat_trackStart] at hend hstart
  have hplace : (s.req x.p).block.toNat / x.sectors.toNat / x.heads.toNat * x.cylinderSize +
      (512 * (x.trackStart (s.req x.p)).toNat + j) = 512 * (s.req x.p).block.toNat + j := by
    rw [hsize, ← Nat.mul_assoc]
    omega
  rw [hdata rfl _ (by omega), BitVec.toNat_udiv, BitVec.toNat_udiv, hplace, h.block]

/-- The bit that `read_intr` tests is the number of the drive. -/
theorem Good.unit_bit {st0 : UChar} {track : ℕ → UChar} (h : x.Reading c s)
    (hgood : x.Good s (.interrupt st0 track)) : st0 &&& 1 = BitVec.ofNat 8 x.dev.val := by
  obtain ⟨-, hunit, -⟩ := hgood _ _ h.reading
  have hds : st0 &&& ST0_DS = BitVec.ofNat 8 x.dev.val := by
    apply BitVec.eq_of_toNat_eq
    rw [hunit, BitVec.toNat_ofNat]
    have := x.dev.isLt
    omega
  have hmask : (ST0_DS &&& 1 : UChar) = 1 := by decide
  calc st0 &&& 1 = (st0 &&& ST0_DS) &&& 1 := by rw [BitVec.and_assoc, hmask]
    _ = BitVec.ofNat 8 x.dev.val &&& 1 := by rw [hds]
    _ = BitVec.ofNat 8 x.dev.val := by
      generalize x.dev = d
      revert d
      decide

/-- An interrupt without an error copies what the request has of a track, and either the rest is
read for or the request has ended. -/
theorem Reading.interrupt (h : x.Reading c s) {st0 : UChar} {track : ℕ → UChar}
    (hst0 : st0 &&& 1 = 0) (hgood : x.Good s (.interrupt st0 track))
    (hfuel : s.queue.length + 1 < fuel) :
    ∃ s', fdStep fuel s (.interrupt st0 track) = some s' ∧
      ((∃ c', c < c' ∧ x.Reading c' s' ∧ s'.queue.length = s.queue.length) ∨ x.Finished s') := by
  have hnpos : 0 < (s.req x.p).nblocks.toNat := by
    rw [h.nblocks]
    exact Nat.sub_pos_of_lt h.lt
  obtain ⟨hpos, hwanted, htrack⟩ := x.trackCount_spec _ hnpos
  have hend := track_end x.sectors_pos x.heads_pos htrack
  change (s.req x.p).block.toNat % x.sectors.toNat +
    (s.req x.p).block.toNat / x.sectors.toNat % x.heads.toNat * x.sectors.toNat +
      (x.trackCount (s.req x.p)).toNat ≤ x.sectors.toNat * x.heads.toNat at hend
  rw [← x.toNat_trackStart] at hend
  have hsize := x.cylinderSize_le
  have hcount := toNat_mul_sectsiz (show (x.trackCount (s.req x.p)).toNat ≤ 80 by omega)
  have hstart := toNat_mul_sectsiz (show (x.trackStart (s.req x.p)).toNat ≤ 80 by omega)
  have hlt := h.lt
  have hinside := x.inside
  have hroom := x.room
  have hnblocks := h.nblocks
  have hbuf : (s.req x.p).buf = byteAddr x.buf (512 * c) := by
    apply BitVec.eq_of_toNat_eq
    rw [h.buf, byteAddr, BitVec.toNat_add, BitVec.toNat_ofNat]
    omega
  have hmem : x.Copied (c + (x.trackCount (s.req x.p)).toNat) (x.copied s track).mem := by
    change x.Copied _ (Fd.copyBytes track (x.trackCount (s.req x.p) * FD_SECTSIZ).toNat _
      (x.trackStart (s.req x.p) * FD_SECTSIZ).toNat s.mem)
    rw [hcount, hstart]
    exact h.copied.copyBytes (by omega) hbuf fun j hj => Good.track h hgood hj
  have hrest : (x.rest (s.req x.p)).nblocks.toNat =
      (s.req x.p).nblocks.toNat - (x.trackCount (s.req x.p)).toNat :=
    BitVec.toNat_sub_of_le (BitVec.le_def.mpr hwanted)
  rw [h.readIntr hst0]
  by_cases hdone : (x.rest (s.req x.p)).nblocks = 0
  · rw [if_pos hdone]
    rw [hdone] at hrest
    change 0 = _ at hrest
    have hall : c + (x.trackCount (s.req x.p)).toNat = x.nblocks.toNat := by omega
    have hended := FdSys.endRequest_of_current (s := x.copied s track) (p := x.p) rfl 0
    have hworks : ((x.copied s track).endRequest 0).Works := by
      rw [hended]
      exact ⟨h.works.answers, h.works.calibrated⟩
    have hshort : ((x.copied s track).endRequest 0).queue.length < fuel := by
      rw [hended]
      exact Nat.lt_of_succ_lt hfuel
    obtain ⟨s', hs', hserved⟩ := hworks.doRequest (by rw [hended]) hshort
    refine ⟨s', hs', .inr ⟨?_, ?_⟩⟩
    · obtain ⟨more, hmore⟩ := hserved.ended
      refine ⟨more, hmore.trans ?_⟩
      rw [hended]
      exact congrArg (fun ended => more ++ (x.p, 0) :: ended) h.ended
    · rw [hserved.mem, hended, ← hall]
      exact hmem
  · rw [if_neg hdone]
    have hlt' : c + (x.trackCount (s.req x.p)).toNat < x.nblocks.toNat := by
      have hne : (x.rest (s.req x.p)).nblocks.toNat ≠ 0 := fun hz =>
        hdone (BitVec.eq_of_toNat_eq hz)
      omega
    have hreq : (x.copied s track).req x.p = x.rest (s.req x.p) := Function.update_self ..
    have hpending : x.Pending (c + (x.trackCount (s.req x.p)).toNat)
        { x.copied s track with queue := x.p :: s.queue, current := none } := by
      refine ⟨hlt', ⟨h.works.answers, h.works.calibrated⟩, h.devs,
        (congrArg BlkReq.dev hreq).trans h.dev, (congrArg BlkReq.command hreq).trans h.command,
        (congrArg (fun r : BlkReq => r.buf.toNat) hreq).trans ?_,
        (congrArg (fun r : BlkReq => r.block.toNat) hreq).trans ?_,
        (congrArg (fun r : BlkReq => r.nblocks.toNat) hreq).trans ?_, h.ended, hmem⟩
      · rw [rest, BitVec.toNat_add, hcount, h.buf, Nat.mod_eq_of_lt (by omega)]
        omega
      · have htotal := (x.start.devs x.dev).totalBlocks.isLt
        rw [rest, BitVec.toNat_add, h.block, Nat.mod_eq_of_lt (by omega)]
        omega
      · rw [hrest]
        omega
    obtain ⟨fuel, rfl⟩ : ∃ k, fuel = k + 1 := ⟨fuel - 1, by omega⟩
    obtain ⟨s', hs', hreading, hqueue⟩ := hpending.doRequest_next rfl rfl fuel
    exact ⟨s', hs', .inl ⟨_, by omega, hreading, by rw [hqueue]⟩⟩

/-! ## Whole reads -/

/-- **Reads of the drive 0**: every interrupt makes progress, until the request has ended. -/
theorem Reading.run (h : x.Reading c s) (hdev : x.dev = 0) {ops : List FdOp}
    (hfuel : s.queue.length + ops.length + 2 ≤ fuel) (hgood : Along (fdStep fuel) x.Good s ops) :
    (∃ s' c', run (fdStep fuel) s ops = some s' ∧ x.Reading c' s' ∧ c + interrupts ops ≤ c') ∨
      ∃ ops₁ ops₂ s', ops = ops₁ ++ ops₂ ∧ run (fdStep fuel) s ops₁ = some s' ∧ x.Finished s' := by
  induction ops generalizing s c with
  | nil => exact .inl ⟨s, c, rfl, h, le_rfl⟩
  | cons op ops ih =>
    obtain ⟨hop, hops⟩ := hgood
    rw [List.length_cons] at hfuel
    -- the rest of the run, after a step that leaves the request current
    have hcons : ∀ s₁ c₁, fdStep fuel s op = some s₁ → x.Reading c₁ s₁ →
        s₁.queue.length ≤ s.queue.length + 1 → c + interrupts (op :: ops) ≤ c₁ + interrupts ops →
        (∃ s' c', Runs.run (fdStep fuel) s (op :: ops) = some s' ∧ x.Reading c' s' ∧
          c + interrupts (op :: ops) ≤ c') ∨
        ∃ ops₁ ops₂ s', op :: ops = ops₁ ++ ops₂ ∧ Runs.run (fdStep fuel) s ops₁ = some s' ∧
          x.Finished s' := by
      intro s₁ c₁ hstep hreading hqueue hcount
      rcases ih hreading (by omega) (hops s₁ hstep) with
        ⟨s', c', hrun, hreading', hle⟩ | ⟨ops₁, ops₂, s', rfl, hrun, hfinished⟩
      · exact .inl ⟨s', c', run_cons_eq_some.mpr ⟨s₁, hstep, hrun⟩, hreading', hcount.trans hle⟩
      · exact .inr ⟨op :: ops₁, ops₂, s', rfl, run_cons_eq_some.mpr ⟨s₁, hstep, hrun⟩, hfinished⟩
    cases op with
    | request p r =>
      obtain ⟨fuel, rfl⟩ : ∃ k, fuel = k + 1 := ⟨fuel - 1, by omega⟩
      obtain ⟨s₁, hstep, hreading, hqueue⟩ := h.request hop r fuel
      exact hcons s₁ c hstep hreading hqueue.le le_rfl
    | interrupt st0 track =>
      have hbit := Good.unit_bit h hop
      rw [hdev] at hbit
      have hlt : s.queue.length + 1 < fuel := by omega
      obtain ⟨s₁, hstep, ⟨c₁, hc₁, hreading, hqueue⟩ | hfinished⟩ := h.interrupt hbit hop hlt
      · exact hcons s₁ c₁ hstep hreading (by omega) (by rw [interrupts]; omega)
      · exact .inr ⟨[.interrupt st0 track], ops, s₁, rfl,
          run_cons_eq_some.mpr ⟨s₁, hstep, rfl⟩, hfinished⟩

/-- A read of the drive 1 is tried again. -/
theorem Reading.retry (h : x.Reading c s) (hretries : (s.req x.p).retries = 0) {st0 : UChar}
    (hst0 : st0 &&& 1 ≠ 0) (track : ℕ → UChar) (fuel : ℕ) :
    ∃ s', fdStep (fuel + 1) s (.interrupt st0 track) = some s' ∧ x.Reading c s' := by
  let t : FdSys := { s.setReq x.p { s.req x.p with retries := 1 } with
    queue := x.p :: s.queue
    current := none
    intr := false
    trackBuf := track }
  have hreq : t.req x.p = { s.req x.p with retries := 1 } := Function.update_self ..
  have hpending : x.Pending c t :=
    ⟨h.lt, ⟨h.works.answers, h.works.calibrated⟩, h.devs, (congrArg BlkReq.dev hreq).trans h.dev,
      (congrArg BlkReq.command hreq).trans h.command,
      (congrArg (fun r : BlkReq => r.buf.toNat) hreq).trans h.buf,
      (congrArg (fun r : BlkReq => r.block.toNat) hreq).trans h.block,
      (congrArg (fun r : BlkReq => r.nblocks.toNat) hreq).trans h.nblocks, h.ended, h.copied⟩
  obtain ⟨s', hs', hreading, -⟩ := hpending.doRequest_next rfl rfl fuel
  refine ⟨s', ?_, hreading⟩
  have herror : FdSys.handleError { s with intr := false, trackBuf := track } = t := by
    unfold FdSys.handleError
    dsimp only
    rw [h.current]
    dsimp only
    rw [hretries, if_pos (by decide), if_neg (by decide)]
    rfl
  rw [← hs', ← herror, fdStep, if_pos h.intr]
  unfold FdSys.readIntr
  dsimp only
  rw [h.current]
  dsimp only
  rw [if_pos (by rw [if_pos (by decide)]; exact hst0)]

/-- What the controller of the drive hands over at the next interrupt. -/
def nextInterrupt (x : DiskRead) (s : FdSys) : FdOp :=
  .interrupt (BitVec.ofNat 8 x.dev.val) fun i =>
    x.disk (((s.req x.p).block / x.sectors / x.heads).toNat * x.cylinderSize + i)

theorem Reading.good (h : x.Reading c s) : x.Good s (x.nextInterrupt s) := by
  intro d cyl hreading
  rw [h.reading, Option.some.injEq, Prod.mk.injEq] at hreading
  obtain ⟨rfl, rfl⟩ := hreading
  refine ⟨?_, ?_, fun _ i _ => rfl⟩
  · generalize x.dev = d
    revert d
    decide
  · generalize x.dev = d
    revert d
    decide

theorem Reading.count_eq {c' : ℕ} (h : x.Reading c s) (h' : x.Reading c' s) : c = c' := by
  have := h.block.symm.trans h'.block
  omega

theorem Reading.not_finished (h : x.Reading c s) : ¬x.Finished s := by
  rintro ⟨⟨more, hended⟩, -⟩
  have hlength := congrArg List.length (h.ended.symm.trans hended)
  rw [List.length_append, List.length_cons] at hlength
  omega

/-- With the drive 1, not even the first interrupt makes progress. -/
theorem not_completes (hdev : x.dev ≠ 0) : ¬x.Completes := by
  intro hall
  obtain ⟨s₁, hstep, hreading, hqueue, hretries⟩ := x.request_reading (x.start.queue.length + 2)
  obtain ⟨s₁', hstep', hruns⟩ := hall (x.start.queue.length + 3) [x.nextInterrupt s₁] le_rfl
  cases hstep.symm.trans hstep'
  have hbit : (BitVec.ofNat 8 x.dev.val : UChar) &&& 1 ≠ 0 := by
    revert hdev
    generalize x.dev = d
    revert d
    decide
  obtain ⟨s₂, hstep₂, hreading₂⟩ := hreading.retry hretries hbit
    (fun i => x.disk (((s₁.req x.p).block / x.sectors / x.heads).toNat * x.cylinderSize + i))
    (x.start.queue.length + 2)
  have hrun : run (fdStep (x.start.queue.length + 3)) s₁ [x.nextInterrupt s₁] = some s₂ :=
    run_cons_eq_some.mpr ⟨s₂, hstep₂, rfl⟩
  rcases hruns ⟨hreading.good, fun _ _ => trivial⟩ with
    ⟨s, c, hrun', hreading', hle⟩ | ⟨ops₁, ops₂, s, hops, hrun', hfinished⟩
  · cases hrun.symm.trans hrun'
    have hzero := hreading₂.count_eq hreading'
    change 1 ≤ c at hle
    omega
  · cases ops₁ with
    | nil =>
      cases hrun'
      exact hreading.not_finished hfinished
    | cons op ops₁ =>
      rw [List.cons_append, List.cons.injEq] at hops
      obtain ⟨rfl, hnil⟩ := hops
      rw [(List.append_eq_nil_iff.mp hnil.symm).1] at hrun'
      cases hrun.symm.trans hrun'
      exact hreading₂.not_finished hfinished

end DiskRead

/-- **Only the drive 0 is read.** -/
theorem completes_iff (x : DiskRead) : x.Completes ↔ x.dev = 0 := by
  constructor
  · intro hall
    by_contra hdev
    exact DiskRead.not_completes hdev hall
  · intro hdev fuel ops hfuel
    obtain ⟨fuel, rfl⟩ : ∃ k, fuel = k + 1 := ⟨fuel - 1, by omega⟩
    obtain ⟨s₁, hstep, hreading, hqueue, -⟩ := x.request_reading fuel
    refine ⟨s₁, hstep, fun hgood => ?_⟩
    rcases hreading.run hdev (by rw [hqueue]; exact hfuel) hgood with
      ⟨s, c, hrun, hreading', hle⟩ | hfinished
    · exact .inl ⟨s, c, hrun, hreading', by omega⟩
    · exact .inr hfinished

/-- A driver without requests, for two drives with disks of 1.44 MB. -/
def newDriver : FdSys where
  devs _ := ⟨18, 2, 2880, false⟩
  req _ := ⟨0, 0, 0, 0, 0, 0, 0, false⟩
  queue := []
  current := none
  intr := false
  reading := none
  trackBuf _ := 0
  mem _ := 0
  answers _ := true
  ended := []

/-- A read of the first block in a drive. -/
def firstBlock (dev : Fin 2) : DiskRead where
  start := newDriver
  p := 0x1000
  dev := dev
  buf := 0x2000
  block := 0
  nblocks := 1
  disk _ := 0xff
  idle := rfl
  works := ⟨fun _ => rfl, fun _ => rfl⟩
  sectors_pos := (by decide : 0 < (18 : ULong).toNat)
  heads_pos := (by decide : 0 < (2 : ULong).toNat)
  fits := (by decide : (18 : ULong).toNat * (2 : ULong).toNat * 512 ≤ TRACKBUF_SIZE)
  nblocks_pos := by decide
  inside := (by decide : (0 : ULong).toNat + (1 : ULong).toNat ≤ (2880 : ULong).toNat)
  room := by decide

/-- In the drive 1 it is not read. -/
theorem second_drive_not_read : ¬∀ x : DiskRead, x.Completes := fun hall =>
  DiskRead.not_completes (x := firstBlock 1) (by decide) (hall (firstBlock 1))

end Vmm386.Fd
