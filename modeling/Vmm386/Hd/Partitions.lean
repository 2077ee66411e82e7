import Mathlib.Data.Fintype.EquivFin
import Vmm386.Hd.Generic

/-!
# The partitions of a disk (`drivers/physical/hd/generic.c`)

`hd_add_dev`, which makes a partition of every entry of the partition table, and follows the
chains of tables that begin in extended partitions.
-/

namespace Vmm386.Hd

/-- The fields of an `msdos_partition` that are used. -/
structure MsdosPartition where
  system : UChar
  startBlock : ULong
  totalBlocks : ULong

def byteAt (blk : Sector) (i : ℕ) : UChar := blk[i]?.getD 0

/-- A `u_long` of a sector. -/
def longAt (blk : Sector) (i : ℕ) : ULong :=
  byteAt blk (i + 3) ++ byteAt blk (i + 2) ++ byteAt blk (i + 1) ++ byteAt blk i

/-- The `i`-th entry of the table at 0x1BE. -/
def entryAt (blk : Sector) (i : ℕ) : MsdosPartition :=
  { system := byteAt blk (0x1BE + 16 * i + 4)
    startBlock := longAt blk (0x1BE + 16 * i + 8)
    totalBlocks := longAt blk (0x1BE + 16 * i + 12) }

/-- `TEST_SIG`. -/
def TestSig (blk : Sector) : Prop := byteAt blk 510 = 0x55 ∧ byteAt blk 511 = 0xAA

instance (blk : Sector) : Decidable (TestSig blk) := inferInstanceAs (Decidable (_ ∧ _))

abbrev VMM_SYS : UChar := 0x30
abbrev PARTN_NAME_MAX : ℕ := 8

/-- A partition by its name: the device's, and the number that follows it, if any. -/
structure Partition where
  name : List UChar
  minor : Option ℕ
  start : ULong
  size : ULong

/-- The partitions that are left in the pool, `partition_list`, the partitions that
`hd_mount_partition` was called for, and the names in `hd_list`. -/
structure Registry where
  free : ℕ
  partitions : List Partition
  mounts : List Partition
  hdList : List (List UChar)

/-- `alloc_partition` and `add_partition`. -/
def Registry.add (r : Registry) (par : Partition) : Registry :=
  { r with free := r.free - 1, partitions := par :: r.partitions }

/-- `new_partition`. -/
def newPartition (r : Registry) (p : MsdosPartition) (name : List UChar) (minor : ℕ)
    (start size : ULong) : Registry :=
  if r.free = 0 then r
  else
    let par : Partition := { name, minor := some minor, start, size }
    let r := r.add par
    if p.system = VMM_SYS then { r with mounts := par :: r.mounts } else r

/-- The reads of `hd_add_dev`: the first sector, and the tables of the chain that begins in
the entry `pri`. -/
inductive Read
  | mbr
  | table (pri k : ℕ)

/-- A disk, and the reads of it that fail. -/
structure Disk where
  content : ULong → Sector
  fails : Read → Bool

/-- The loop over a chain of extended partitions, from its `k`-th table on. -/
def extended (d : Disk) (name : List UChar) (pri : ℕ) (extStart : ULong) :
    ℕ → ℕ → ℕ → ULong → Registry → Option (ℕ × Registry)
  | 0, _, _, _, _ => none
  | fuel + 1, k, ext, currStart, r =>
    let embr := d.content currStart
    if d.fails (.table pri k) ∨ ¬TestSig embr then some (ext, r)
    else
      -- the first entry is a partition, the second one the link to the next table
      let p := entryAt embr 0
      let r := newPartition r p name ext (p.startBlock + currStart) p.totalBlocks
      if (entryAt embr 1).system ≠ 5 then some (ext + 1, r)
      else
        extended d name pri extStart fuel (k + 1) (ext + 1)
          (extStart + (entryAt embr 1).startBlock) r

/-- The round of the loop over the partition table for the entry `pri`. -/
def primary (d : Disk) (name : List UChar) (fuel : ℕ) (state : ℕ × Registry) (pri : ℕ) :
    Option (ℕ × Registry) :=
  let (ext, r) := state
  let p := entryAt (d.content 0) (pri - 1)
  if p.system = 0 ∨ p.totalBlocks = 0 then some (ext, r)
  else
    let r := newPartition r p name pri p.startBlock p.totalBlocks
    if p.system = 5 then extended d name pri p.startBlock fuel 0 ext p.startBlock r
    else some (ext, r)

/-- `hd_add_dev`, where no chain may take more than `fuel` reads. -/
def hdAddDev (d : Disk) (name : List UChar) (totalBlocks : ULong) (fuel : ℕ) (r : Registry) :
    Option (Bool × Registry) :=
  if PARTN_NAME_MAX - 2 < name.length then some (false, r)
  else if r.free = 0 then some (false, r)
  else
    let r := r.add { name, minor := none, start := 0, size := totalBlocks }
    let scanned :=
      if d.fails .mbr = false ∧ TestSig (d.content 0) then
        ([1, 2, 3, 4].foldlM (primary d name fuel) (5, r)).map Prod.snd
      else some r
    scanned.map fun r => (true, { r with hdList := name :: r.hdList })

/-! ## Chains of tables -/

/-- The table that a table of a chain links to. -/
def nextTable (d : Disk) (start s : ULong) : ULong := start + (entryAt (d.content s) 1).startBlock

/-- The sector of the `k`-th table of the chain that begins at `start`. -/
def tableAt (d : Disk) (start : ULong) (k : ℕ) : ULong := (nextTable d start)^[k] start

/-- A sector that is not a table, or is the last one of its chain. -/
def EndsAt (d : Disk) (s : ULong) : Prop :=
  ¬TestSig (d.content s) ∨ (entryAt (d.content s) 1).system ≠ 5

/-- The chain of the entry `pri` ends with its `k`-th table. -/
def Stops (d : Disk) (pri : ℕ) (start : ULong) (k : ℕ) : Prop :=
  d.fails (.table pri k) = true ∨ EndsAt d (tableAt d start k)

variable {d : Disk} {name : List UChar} {pri fuel k ext : ℕ} {start : ULong} {r : Registry}

theorem tableAt_succ (d : Disk) (start : ULong) (k : ℕ) :
    tableAt d start (k + 1) =
      start + (entryAt (d.content (tableAt d start k)) 1).startBlock :=
  Function.iterate_succ_apply' _ _ _

/-- The loop over a chain ends at the first table that stops it. -/
theorem extended_isSome_iff (d : Disk) (name : List UChar) (pri fuel k ext : ℕ) (start : ULong)
    (r : Registry) :
    (extended d name pri start fuel k ext (tableAt d start k) r).isSome ↔
      ∃ j < fuel, Stops d pri start (k + j) := by
  induction fuel generalizing k ext r with
  | zero => simp [extended]
  | succ fuel ih =>
    rw [extended]
    by_cases hread : d.fails (.table pri k) = true ∨ ¬TestSig (d.content (tableAt d start k))
    · rw [if_pos hread]
      refine iff_of_true rfl ⟨0, Nat.succ_pos fuel, ?_⟩
      exact hread.imp_right .inl
    · rw [if_neg hread]
      by_cases hlast : (entryAt (d.content (tableAt d start k)) 1).system ≠ 5
      · rw [if_pos hlast]
        exact iff_of_true rfl ⟨0, Nat.succ_pos fuel, .inr (.inr hlast)⟩
      · have hgo : ¬Stops d pri start k := by
          rintro (hfails | hsig | hsystem)
          · exact hread (.inl hfails)
          · exact hread (.inr hsig)
          · exact hlast hsystem
        rw [if_neg hlast, ← tableAt_succ, ih]
        constructor
        · rintro ⟨j, hj, hstop⟩
          exact ⟨j + 1, Nat.succ_lt_succ hj, by rwa [← Nat.add_assoc, Nat.add_right_comm]⟩
        · rintro ⟨j, hj, hstop⟩
          cases j with
          | zero => exact absurd hstop hgo
          | succ j =>
            exact ⟨j, Nat.lt_of_succ_lt_succ hj, by rwa [Nat.add_right_comm, Nat.add_assoc]⟩

/-- An entry whose chain is followed. -/
def IsExtended (d : Disk) (pri : ℕ) : Prop :=
  (entryAt (d.content 0) (pri - 1)).system = 5 ∧
    (entryAt (d.content 0) (pri - 1)).totalBlocks ≠ 0

theorem primary_isSome_iff {state : ℕ × Registry} :
    (primary d name fuel state pri).isSome ↔
      (IsExtended d pri →
        ∃ k < fuel, Stops d pri (entryAt (d.content 0) (pri - 1)).startBlock k) := by
  unfold primary IsExtended
  dsimp only
  by_cases hskip : (entryAt (d.content 0) (pri - 1)).system = 0 ∨
      (entryAt (d.content 0) (pri - 1)).totalBlocks = 0
  · rw [if_pos hskip]
    refine iff_of_true rfl fun h => ?_
    rcases hskip with hfree | hempty
    · exact absurd (hfree.symm.trans h.1) (by decide)
    · exact absurd hempty h.2
  · rw [not_or] at hskip
    rw [if_neg (not_or.mpr hskip)]
    by_cases hext : (entryAt (d.content 0) (pri - 1)).system = 5
    · have hchain := extended_isSome_iff d name pri fuel 0 state.1
        (entryAt (d.content 0) (pri - 1)).startBlock
        (newPartition state.2 (entryAt (d.content 0) (pri - 1)) name pri
          (entryAt (d.content 0) (pri - 1)).startBlock
          (entryAt (d.content 0) (pri - 1)).totalBlocks)
      simp only [Nat.zero_add] at hchain
      rw [if_pos hext]
      exact hchain.trans ⟨fun h _ => h, fun h => h ⟨hext, hskip.2⟩⟩
    · rw [if_neg hext]
      exact iff_of_true rfl fun h => absurd h.1 hext

/-- Rounds that end whatever state they begin in. -/
theorem foldlM_isSome_iff {α β : Type*} {f : β → α → Option β} {P : α → Prop}
    (h : ∀ b a, (f b a).isSome ↔ P a) (l : List α) (b : β) :
    (l.foldlM f b).isSome ↔ ∀ a ∈ l, P a := by
  induction l generalizing b with
  | nil => simp
  | cons a l ih =>
    rw [List.foldlM_cons, List.forall_mem_cons, ← h b a]
    cases hb : f b a with
    | none => simp
    | some b' => simpa using ih b'

/-- `hd_add_dev` returns within `fuel` reads of each chain. -/
theorem hdAddDev_isSome_iff (d : Disk) (name : List UChar) (totalBlocks : ULong) (fuel : ℕ)
    (r : Registry) :
    (hdAddDev d name totalBlocks fuel r).isSome ↔
      PARTN_NAME_MAX - 2 < name.length ∨ r.free = 0 ∨ d.fails .mbr = true ∨
        ¬TestSig (d.content 0) ∨
        ∀ pri ∈ [1, 2, 3, 4], IsExtended d pri →
          ∃ k < fuel, Stops d pri (entryAt (d.content 0) (pri - 1)).startBlock k := by
  unfold hdAddDev
  by_cases hname : PARTN_NAME_MAX - 2 < name.length
  · rw [if_pos hname]
    exact iff_of_true rfl (.inl hname)
  rw [if_neg hname, or_iff_right hname]
  by_cases hfree : r.free = 0
  · rw [if_pos hfree]
    exact iff_of_true rfl (.inl hfree)
  rw [if_neg hfree, or_iff_right hfree]
  dsimp only
  rw [Option.isSome_map]
  by_cases hmbr : d.fails .mbr = false ∧ TestSig (d.content 0)
  · have hok : ¬d.fails .mbr = true := fun h => Bool.false_ne_true (hmbr.1.symm.trans h)
    rw [if_pos hmbr, or_iff_right hok, or_iff_right (not_not_intro hmbr.2), Option.isSome_map]
    exact foldlM_isSome_iff (f := primary d name fuel) (fun _ _ => primary_isSome_iff) _ _
  · have hearly : d.fails .mbr = true ∨ ¬TestSig (d.content 0) := by
      rw [not_and_or] at hmbr
      exact hmbr.imp_left Bool.eq_true_of_not_eq_false
    rw [if_neg hmbr, ← or_assoc]
    exact iff_of_true rfl (.inl hearly)

/-- **The scan ends.** `hd_add_dev` returns exactly when it gets no further than the partition
table, or the chain of every extended partition in it comes to a table that cannot be read,
lacks the signature or links to no other one. -/
theorem hdAddDev_returns_iff (d : Disk) (name : List UChar) (totalBlocks : ULong) (r : Registry) :
    (∃ fuel, (hdAddDev d name totalBlocks fuel r).isSome) ↔
      PARTN_NAME_MAX - 2 < name.length ∨ r.free = 0 ∨ d.fails .mbr = true ∨
        ¬TestSig (d.content 0) ∨
        ∀ pri ∈ [1, 2, 3, 4], IsExtended d pri →
          ∃ k, Stops d pri (entryAt (d.content 0) (pri - 1)).startBlock k := by
  simp only [hdAddDev_isSome_iff, exists_or, exists_const]
  refine or_congr_right (or_congr_right (or_congr_right (or_congr_right ?_)))
  constructor
  · rintro ⟨fuel, hall⟩ pri hpri hext
    obtain ⟨k, -, hstop⟩ := hall pri hpri hext
    exact ⟨k, hstop⟩
  · intro hall
    -- the longest chain takes the most reads
    have hbound : ∀ pri, ∃ n, pri ∈ [1, 2, 3, 4] → IsExtended d pri →
        ∃ k < n, Stops d pri (entryAt (d.content 0) (pri - 1)).startBlock k := by
      intro pri
      by_cases h : pri ∈ [1, 2, 3, 4] ∧ IsExtended d pri
      · obtain ⟨k, hstop⟩ := hall pri h.1 h.2
        exact ⟨k + 1, fun _ _ => ⟨k, Nat.lt_succ_self k, hstop⟩⟩
      · exact ⟨0, fun hpri hext => absurd ⟨hpri, hext⟩ h⟩
    choose n hn using hbound
    refine ⟨n 1 + n 2 + n 3 + n 4, fun pri hpri hext => ?_⟩
    obtain ⟨k, hk, hstop⟩ := hn pri hpri hext
    refine ⟨k, ?_, hstop⟩
    simp only [List.mem_cons, List.not_mem_nil, or_false] at hpri
    rcases hpri with rfl | rfl | rfl | rfl <;> omega

/-- A table, and an entry of the type 5 at the index `i` of it that starts at the block 1. -/
def extendedTable (i : ℕ) (start : UChar) : Sector :=
  Vector.ofFn fun j =>
    if j.val = 510 then 0x55
    else if j.val = 511 then 0xAA
    else if j.val = 0x1BE + 16 * i + 4 then 5
    else if j.val = 0x1BE + 16 * i + 8 then start
    else if j.val = 0x1BE + 16 * i + 12 then 1
    else 0

theorem byteAt_extendedTable (i : ℕ) (start : UChar) {j : ℕ} (h : j < 512) :
    byteAt (extendedTable i start) j =
      if j = 510 then 0x55
      else if j = 511 then 0xAA
      else if j = 0x1BE + 16 * i + 4 then 5
      else if j = 0x1BE + 16 * i + 8 then start
      else if j = 0x1BE + 16 * i + 12 then 1
      else 0 := by
  simp [byteAt, extendedTable, h]

/-- A disk whose first entry is an extended partition at the block 1, where a table links to
itself. -/
def selfLinked : Disk :=
  { content := fun s => if s = 0 then extendedTable 0 1 else extendedTable 1 0
    fails := fun _ => false }

theorem selfLinked_mbr :
    TestSig (selfLinked.content 0) ∧ (entryAt (selfLinked.content 0) 0).system = 5 ∧
      (entryAt (selfLinked.content 0) 0).startBlock = 1 ∧
      (entryAt (selfLinked.content 0) 0).totalBlocks ≠ 0 := by
  change TestSig (extendedTable 0 1) ∧ (entryAt (extendedTable 0 1) 0).system = 5 ∧
    (entryAt (extendedTable 0 1) 0).startBlock = 1 ∧
    (entryAt (extendedTable 0 1) 0).totalBlocks ≠ 0
  simp only [TestSig, entryAt, longAt, byteAt_extendedTable, Nat.reduceLT, Nat.reduceAdd,
    Nat.reduceMul, Nat.reduceEqDiff]
  decide

theorem selfLinked_table :
    TestSig (selfLinked.content 1) ∧ (entryAt (selfLinked.content 1) 1).system = 5 ∧
      (entryAt (selfLinked.content 1) 1).startBlock = 0 := by
  change TestSig (extendedTable 1 0) ∧ (entryAt (extendedTable 1 0) 1).system = 5 ∧
    (entryAt (extendedTable 1 0) 1).startBlock = 0
  simp only [TestSig, entryAt, longAt, byteAt_extendedTable, Nat.reduceLT, Nat.reduceAdd,
    Nat.reduceMul, Nat.reduceEqDiff]
  decide

theorem selfLinked_tableAt (k : ℕ) : tableAt selfLinked 1 k = 1 := by
  induction k with
  | zero => rfl
  | succ k ih =>
    rw [tableAt_succ, ih, selfLinked_table.2.2]
    rfl

theorem selfLinked_not_returns :
    ¬∀ (d : Disk) (name : List UChar) (totalBlocks : ULong) (r : Registry),
      ∃ fuel, (hdAddDev d name totalBlocks fuel r).isSome := by
  intro h
  obtain ⟨fuel, hsome⟩ := h selfLinked [] 0 ⟨1, [], [], []⟩
  obtain ⟨hsig, hsystem, hstart, htotal⟩ := selfLinked_mbr
  rcases (hdAddDev_isSome_iff _ _ _ _ _).mp hsome with hname | hfree | hmbr | hnosig | hall
  · exact absurd hname (by decide)
  · exact absurd hfree (by decide)
  · exact Bool.false_ne_true hmbr
  · exact hnosig hsig
  · obtain ⟨k, -, hstop⟩ := hall 1 (by decide) ⟨hsystem, htotal⟩
    rw [Nat.sub_self, hstart, Stops, selfLinked_tableAt] at hstop
    rcases hstop with hfails | hnosig | hlast
    · exact Bool.false_ne_true hfails
    · exact hnosig selfLinked_table.1
    · exact hlast selfLinked_table.2.1

/-! ## Chains without read errors -/

theorem tableAt_add {d : Disk} {start : ULong} {i j : ℕ} (h : tableAt d start i = tableAt d start j)
    (n : ℕ) : tableAt d start (n + i) = tableAt d start (n + j) := by
  unfold tableAt at h ⊢
  rw [Function.iterate_add_apply, Function.iterate_add_apply, h]

/-- A chain that can be read ends unless it comes back to a table it has passed. -/
theorem stops_iff_no_return {d : Disk} {pri : ℕ} (hread : ∀ k, d.fails (.table pri k) = false)
    (start : ULong) :
    (∃ k, Stops d pri start k) ↔
      ∀ i j, i < j → tableAt d start i = tableAt d start j → ∃ k < j, Stops d pri start k := by
  have hiff : ∀ k, Stops d pri start k ↔ EndsAt d (tableAt d start k) := by
    intro k
    rw [Stops, hread k]
    exact or_iff_right Bool.false_ne_true
  constructor
  · rintro ⟨k, hstop⟩ i j hij heq
    -- by induction on `k`: later than `j`, the same table came a round earlier
    induction k using Nat.strong_induction_on with
    | _ k ih =>
      by_cases hk : k < j
      · exact ⟨k, hk, hstop⟩
      · have hback : tableAt d start (k - j + i) = tableAt d start k := by
          rw [tableAt_add heq, Nat.sub_add_cancel (not_lt.mp hk)]
        refine ih (k - j + i) (by omega) ?_
        rwa [hiff, hback, ← hiff]
  · intro h
    have hfinite : Finite ULong := Finite.of_injective BitVec.toFin fun _ _ => BitVec.eq_of_toFin_eq
    obtain ⟨i, j, hne, heq⟩ := Finite.exists_ne_map_eq_of_infinite (tableAt d start)
    rcases Nat.lt_or_gt_of_ne hne with hlt | hlt
    · obtain ⟨k, -, hstop⟩ := h i j hlt heq
      exact ⟨k, hstop⟩
    · obtain ⟨k, -, hstop⟩ := h j i hlt heq.symm
      exact ⟨k, hstop⟩

end Vmm386.Hd
