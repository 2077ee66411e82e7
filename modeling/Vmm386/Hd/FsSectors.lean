import Vmm386.Hd.FsDevice
import Vmm386.Hd.Partitions

/-!
# From blocks of the file system to sectors of a disk

`hd_fs_read_blocks` and `hd_fs_write_blocks` of `drivers/physical/hd/generic.c` for any number of
blocks, on the partitions that `hd_add_dev` makes: what they ask the driver of the disk for.
-/

namespace Vmm386.Hd

open Fs

/-- A call of `hd->read_blocks` or `hd->write_blocks`. The `count` is signed. -/
structure DriverCall where
  block : ULong
  count : ULong
deriving DecidableEq

/-- The sectors of a call. -/
def DriverCall.sectors (call : DriverCall) : List ULong :=
  (List.range call.count.toInt.toNat).map fun i => call.block + BitVec.ofNat 32 i

namespace HdPartition

variable (p : HdPartition)

/-- `hd_read_blocks` and `hd_write_blocks`, up to the call of the driver: none is made where they
return `FALSE`. -/
def hdCall (block count : ULong) : Option DriverCall :=
  if p.accepts block count.toNat then some ⟨block + p.start, count⟩ else none

/-- `hd_fs_read_blocks` and `hd_fs_write_blocks`, up to the call of the driver. -/
def hdFsCall (block count : ULong) : Option DriverCall :=
  p.hdCall (firstSector block) (count * BitVec.ofNat 32 SECTORS_PER_BLOCK)

/-- The functions for one block make the same call. -/
theorem hdFsReadBlocks_eq {W : Type} (d : HdBlockDriver W) (w : W) (block : ULong) (buf : Blk) :
    hdFsReadBlocks d p w block buf =
      match p.hdFsCall block 1 with
      | none => (hdFsOutcome false, buf, w)
      | some call =>
        let r := d.readBlocks w call.block buf
        (hdFsOutcome r.1, r.2) := by
  have hone : (1 * BitVec.ofNat 32 SECTORS_PER_BLOCK).toNat = SECTORS_PER_BLOCK := rfl
  unfold hdFsReadBlocks hdFsCall hdCall
  rw [hone]
  by_cases h : p.accepts (firstSector block) SECTORS_PER_BLOCK = true
  · rw [if_pos h, if_pos h]
  · rw [if_neg h, if_neg h]

/-- The window of the partition is a part of the disk. -/
def OnDisk : Prop := p.start.toNat + p.size.toNat ≤ p.hd.totalBlocks.toNat

/-- The partition is a part of the disk, and `count` blocks from `block` on are refused, or they
are the sectors that the driver is asked for, all in the partition. -/
def Mapped (block count : ULong) : Prop :=
  p.OnDisk ∧ ∀ call, p.hdFsCall block count = some call →
    call.sectors.map BitVec.toNat =
        (List.range (2 * count.toNat)).map (p.start.toNat + 2 * block.toNat + ·) ∧
      ∀ s ∈ call.sectors, p.start.toNat ≤ s.toNat ∧ s.toNat < p.start.toNat + p.size.toNat

/-- The blocks for which the test of `hd_read_blocks` is right: it is not fooled by a sum that
wraps, and the number of sectors is not negative. -/
def TestHolds (block count : ULong) : Prop :=
  count = 0 ∨ p.size.toNat < (2 * block.toNat + 2 * count.toNat) % 2 ^ 32 ∨
    2 * (block.toNat + count.toNat) ≤ p.size.toNat ∧ count.toNat < 2 ^ 30

instance : Decidable p.OnDisk := inferInstanceAs (Decidable (_ ≤ _))

instance (block count : ULong) : Decidable (p.TestHolds block count) :=
  inferInstanceAs (Decidable (_ ∨ _))

variable {p} {block count : ULong}

theorem toNat_double (x : ULong) :
    (x * BitVec.ofNat 32 SECTORS_PER_BLOCK).toNat = 2 * x.toNat % 2 ^ 32 := by
  rw [BitVec.toNat_mul, Nat.mul_comm]
  rfl

theorem hdFsCall_eq :
    p.hdFsCall block count =
      if p.size.toNat < (2 * block.toNat + 2 * count.toNat) % 2 ^ 32 then none
      else some ⟨firstSector block + p.start, count * BitVec.ofNat 32 SECTORS_PER_BLOCK⟩ := by
  have hlt : p.size < firstSector block +
      BitVec.ofNat 32 (count * BitVec.ofNat 32 SECTORS_PER_BLOCK).toNat ↔
        p.size.toNat < (2 * block.toNat + 2 * count.toNat) % 2 ^ 32 := by
    unfold firstSector
    rw [BitVec.lt_def, BitVec.ofNat_toNat, BitVec.setWidth_eq, BitVec.toNat_add, toNat_double,
      toNat_double, Nat.add_mod_mod, Nat.mod_add_mod]
  unfold hdFsCall hdCall accepts
  by_cases h : p.size.toNat < (2 * block.toNat + 2 * count.toNat) % 2 ^ 32
  · rw [decide_eq_true (hlt.mpr h), if_pos h]
    rfl
  · rw [decide_eq_false (mt hlt.mp h), if_neg h]
    rfl

/-- How many sectors the driver finds in the signed number that it is given. -/
theorem count_sectors (count : ULong) :
    (count * BitVec.ofNat 32 SECTORS_PER_BLOCK).toInt.toNat =
      if 2 * count.toNat % 2 ^ 32 < 2 ^ 31 then 2 * count.toNat % 2 ^ 32 else 0 := by
  have hlt : 2 * count.toNat % 2 ^ 32 < 2 ^ 32 := Nat.mod_lt _ (by decide)
  rw [BitVec.toInt_eq_toNat_cond, toNat_double]
  by_cases h : 2 * count.toNat % 2 ^ 32 < 2 ^ 31
  · rw [if_pos (by omega), if_pos h]
    omega
  · rw [if_neg (by omega), if_neg h]
    omega

theorem mapped_of_testHolds (hdisk : p.OnDisk) (h : p.TestHolds block count) :
    p.Mapped block count := by
  refine ⟨hdisk, fun call hcall => ?_⟩
  rw [hdFsCall_eq] at hcall
  unfold OnDisk at hdisk
  have htotal := p.hd.totalBlocks.isLt
  obtain rfl | hrefused | ⟨hin, hcount⟩ := h
  · -- no block is asked for
    split_ifs at hcall with hsize
    obtain rfl := Option.some.inj hcall
    unfold DriverCall.sectors
    rw [count_sectors]
    simp
  · rw [if_pos hrefused] at hcall
    exact absurd hcall (by simp)
  · rw [if_neg (by omega)] at hcall
    obtain rfl := Option.some.inj hcall
    have hat : ∀ i < 2 * count.toNat, (firstSector block + p.start + BitVec.ofNat 32 i).toNat =
        p.start.toNat + 2 * block.toNat + i := by
      intro i hi
      rw [BitVec.toNat_add, BitVec.toNat_add, firstSector, toNat_double, BitVec.toNat_ofNat]
      omega
    have hlength : (count * BitVec.ofNat 32 SECTORS_PER_BLOCK).toInt.toNat = 2 * count.toNat := by
      rw [count_sectors, if_pos (by omega), Nat.mod_eq_of_lt (by omega)]
    unfold DriverCall.sectors
    rw [hlength]
    constructor
    · rw [List.map_map]
      exact List.map_congr_left fun i hi => hat i (List.mem_range.mp hi)
    · intro s hs
      obtain ⟨i, hi, rfl⟩ := List.mem_map.mp hs
      rw [hat i (List.mem_range.mp hi)]
      have := List.mem_range.mp hi
      omega

theorem testHolds_of_mapped (h : p.Mapped block count) : p.TestHolds block count := by
  by_contra hnot
  unfold TestHolds at hnot
  obtain ⟨hzero, haccepted, hout⟩ := by simpa only [not_or] using hnot
  obtain ⟨hsectors, hinside⟩ := h.2 _ (by rw [hdFsCall_eq, if_neg haccepted])
  have hsize := p.size.isLt
  have hpos : 0 < count.toNat := Nat.pos_of_ne_zero fun hc => hzero (BitVec.eq_of_toNat_eq hc)
  -- the lengths agree, so the number of sectors is not negative
  have hlength := congrArg List.length hsectors
  unfold DriverCall.sectors at hlength
  rw [List.length_map, List.length_map, List.length_map, List.length_range, List.length_range,
    count_sectors] at hlength
  have hcount : count.toNat < 2 ^ 30 := by
    split_ifs at hlength <;> omega
  -- the last sector is one of the partition
  have hlast : p.start.toNat + 2 * block.toNat + (2 * count.toNat - 1) ∈
      (DriverCall.sectors ⟨firstSector block + p.start,
        count * BitVec.ofNat 32 SECTORS_PER_BLOCK⟩).map BitVec.toNat := by
    rw [hsectors]
    exact List.mem_map_of_mem (List.mem_range.mpr (by omega))
  obtain ⟨s, hs, heq⟩ := List.mem_map.mp hlast
  have := (hinside s hs).2
  exact hout ⟨by omega, hcount⟩

theorem mapped_iff : p.Mapped block count ↔ p.OnDisk ∧ p.TestHolds block count :=
  ⟨fun h => ⟨h.1, testHolds_of_mapped h⟩, fun h => mapped_of_testHolds h.1 h.2⟩

end HdPartition

/-! ## The partitions that the scan makes -/

/-- A partition as the device of the file system that is on it. -/
def Partition.on (par : Partition) (hd : HdDev) : HdPartition := ⟨par.start, par.size, hd⟩

/-- What the window of a partition comes from: the whole disk, an entry of the partition table,
or the first entry of a table in the chain of one. -/
def Described (d : Disk) (totalBlocks : ULong) (par : Partition) : Prop :=
  (par.start = 0 ∧ par.size = totalBlocks) ∨
    (∃ i < 4, par.start = (entryAt (d.content 0) i).startBlock ∧
      par.size = (entryAt (d.content 0) i).totalBlocks) ∨
    ∃ i < 4, ∃ k, ∃ s, s = tableAt d (entryAt (d.content 0) i).startBlock k ∧
      par.start = (entryAt (d.content s) 0).startBlock + s ∧
      par.size = (entryAt (d.content s) 0).totalBlocks

/-- The partitions of `r'` are those of `r`, and new ones before them that satisfy `P`. -/
def Adds (P : Partition → Prop) (r r' : Registry) : Prop :=
  ∃ new, r'.partitions = new ++ r.partitions ∧ ∀ par ∈ new, P par

namespace Adds

variable {P : Partition → Prop} {r r' r'' : Registry}

theorem same (h : r'.partitions = r.partitions) : Adds P r r' := ⟨[], h, by simp⟩

theorem cons {par : Partition} (h : r'.partitions = par :: r.partitions) (hpar : P par) :
    Adds P r r' := ⟨[par], h, by simpa using hpar⟩

theorem trans (h : Adds P r r') (h' : Adds P r' r'') : Adds P r r'' := by
  obtain ⟨new, hnew, hP⟩ := h
  obtain ⟨new', hnew', hP'⟩ := h'
  refine ⟨new' ++ new, by rw [hnew', hnew, List.append_assoc], fun par hpar => ?_⟩
  exact (List.mem_append.mp hpar).elim (hP' par) (hP par)

end Adds

variable {d : Disk} {name : List UChar} {totalBlocks : ULong} {r r' : Registry}

theorem newPartition_adds {P : Partition → Prop} (name : List UChar) (p : MsdosPartition)
    (minor : ℕ) {start size : ULong} (hP : P ⟨name, some minor, start, size⟩) :
    Adds P r (newPartition r p name minor start size) := by
  unfold newPartition
  dsimp only
  split_ifs
  · exact .same rfl
  · exact .cons rfl hP
  · exact .cons rfl hP

theorem extended_adds {P : Partition → Prop} {pri fuel k ext ext' : ℕ} {extStart : ULong}
    (hP : ∀ k minor, P ⟨name, some minor,
      (entryAt (d.content (tableAt d extStart k)) 0).startBlock + tableAt d extStart k,
      (entryAt (d.content (tableAt d extStart k)) 0).totalBlocks⟩)
    (h : extended d name pri extStart fuel k ext (tableAt d extStart k) r = some (ext', r')) :
    Adds P r r' := by
  induction fuel generalizing k ext r with
  | zero => simp [extended] at h
  | succ fuel ih =>
    have hnew := newPartition_adds (r := r) name (entryAt (d.content (tableAt d extStart k)) 0) ext
      (hP k ext)
    rw [extended] at h
    dsimp only at h
    split_ifs at h with hread hlast
    · obtain ⟨-, rfl⟩ := Prod.mk.inj (Option.some.inj h)
      exact .same rfl
    · obtain ⟨-, rfl⟩ := Prod.mk.inj (Option.some.inj h)
      exact hnew
    · rw [← tableAt_succ] at h
      exact hnew.trans (ih h)

theorem primary_adds {fuel pri : ℕ} (hpri : pri - 1 < 4) {state state' : ℕ × Registry}
    (h : primary d name fuel state pri = some state') :
    Adds (Described d totalBlocks) state.2 state'.2 := by
  have hnew := newPartition_adds (P := Described d totalBlocks) (r := state.2) name
    (entryAt (d.content 0) (pri - 1)) pri (.inr (.inl ⟨pri - 1, hpri, rfl, rfl⟩))
  unfold primary at h
  dsimp only at h
  split_ifs at h with hskip hext
  · obtain rfl := Option.some.inj h
    exact .same rfl
  · refine hnew.trans (extended_adds (k := 0) (fun k minor => ?_) h)
    exact .inr (.inr ⟨pri - 1, hpri, k, _, rfl, rfl, rfl⟩)
  · obtain rfl := Option.some.inj h
    exact hnew

theorem foldlM_adds {fuel : ℕ} {l : List ℕ} (hl : ∀ pri ∈ l, pri - 1 < 4)
    {state state' : ℕ × Registry} (h : l.foldlM (primary d name fuel) state = some state') :
    Adds (Described d totalBlocks) state.2 state'.2 := by
  induction l generalizing state with
  | nil =>
    obtain rfl := Option.some.inj h
    exact .same rfl
  | cons pri l ih =>
    rw [List.foldlM_cons] at h
    obtain ⟨mid, hmid, hrest⟩ := Option.bind_eq_some_iff.mp h
    rw [List.forall_mem_cons] at hl
    exact (primary_adds hl.1 hmid).trans (ih hl.2 hrest)

/-- Every partition that `hd_add_dev` makes is described by the disk. -/
theorem hdAddDev_adds {fuel : ℕ} {ok : Bool}
    (h : hdAddDev d name totalBlocks fuel r = some (ok, r')) :
    Adds (Described d totalBlocks) r r' := by
  unfold hdAddDev at h
  dsimp only at h
  have hwhole : Adds (Described d totalBlocks) r
      (r.add { name, minor := none, start := 0, size := totalBlocks }) :=
    .cons rfl (.inl ⟨rfl, rfl⟩)
  split_ifs at h with hname hfree hmbr
  · obtain ⟨-, rfl⟩ := Prod.mk.inj (Option.some.inj h)
    exact .same rfl
  · obtain ⟨-, rfl⟩ := Prod.mk.inj (Option.some.inj h)
    exact .same rfl
  · obtain ⟨r₁, hscan, hr'⟩ := Option.map_eq_some_iff.mp h
    obtain ⟨state, hstate, rfl⟩ := Option.map_eq_some_iff.mp hscan
    obtain ⟨-, rfl⟩ := Prod.mk.inj hr'
    exact hwhole.trans ((foldlM_adds (by decide) hstate).trans (.same rfl))
  · obtain ⟨-, rfl⟩ := Prod.mk.inj (Option.some.inj h)
    exact hwhole.trans (.same rfl)

/-- **Blocks and sectors.** The partitions that `hd_add_dev` makes are what the tables on the
disk say, and a call for blocks of one reaches the sectors it should just when the disk has the
window that its table describes and the test of the block numbers holds. -/
theorem hdAddDev_mapped_iff (hd : HdDev) {fuel : ℕ} {ok : Bool}
    (h : hdAddDev d name hd.totalBlocks fuel r = some (ok, r')) :
    Adds (fun par => Described d hd.totalBlocks par ∧
      ∀ block count, (par.on hd).Mapped block count ↔
        (par.on hd).OnDisk ∧ (par.on hd).TestHolds block count) r r' := by
  obtain ⟨new, hnew, hdescribed⟩ := hdAddDev_adds h
  exact ⟨new, hnew, fun par hpar => ⟨hdescribed par hpar, fun _ _ => HdPartition.mapped_iff⟩⟩

/-- A disk of one sector that cannot be read. -/
def unreadable : Disk := ⟨fun _ => Vector.replicate 512 0, fun _ => true⟩

/-- Its only partition is the whole disk. -/
theorem hdAddDev_mapped_unreadable :
    Adds (fun par => Described unreadable 1 par ∧
      ∀ block count, (par.on ⟨1, 1, 1, 1, rfl⟩).Mapped block count ↔
        (par.on ⟨1, 1, 1, 1, rfl⟩).OnDisk ∧ (par.on ⟨1, 1, 1, 1, rfl⟩).TestHolds block count)
      ⟨1, [], [], []⟩ ⟨0, [⟨[], none, 0, 1⟩], [], [[]]⟩ :=
  hdAddDev_mapped_iff ⟨1, 1, 1, 1, rfl⟩
    (rfl : hdAddDev unreadable [] 1 0 ⟨1, [], [], []⟩ = some (true, _))

/-- The last block number of all is accepted on it: its two sectors are numbered 2^32 - 2 and
2^32 - 1, and their end wraps to 0. -/
theorem last_block_not_mapped :
    ¬∀ (hd : HdDev) (d : Disk) (name : List UChar) (fuel : ℕ) (r r' : Registry) (ok : Bool),
      hdAddDev d name hd.totalBlocks fuel r = some (ok, r') →
        Adds (fun par => ∀ block count, (par.on hd).Mapped block count) r r' := by
  intro h
  obtain ⟨new, hnew, hall⟩ := h ⟨1, 1, 1, 1, rfl⟩ unreadable [] 0 ⟨1, [], [], []⟩
    ⟨0, [⟨[], none, 0, 1⟩], [], [[]]⟩ true rfl
  rw [List.append_nil] at hnew
  have hmem : (⟨[], none, 0, 1⟩ : Partition) ∈ new := hnew ▸ List.mem_singleton.mpr rfl
  have hmapped := hall _ hmem 0x7fffffff 1
  obtain ⟨-, hinside⟩ := hmapped.2 ⟨0xfffffffe, 2⟩ rfl
  exact absurd (hinside 0xfffffffe (by decide)).2 (by decide)

end Vmm386.Hd
