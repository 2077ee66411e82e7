import Vmm386.Types

/-!
# The result bytes of the floppy controller

`get_results` of `drivers/physical/fd/fdc.c`. What the controller gives is two streams: the byte that
each poll of `FDC_STATUS` reads, and the bytes that `FDC_STSREG` gives one after the other. The stores
go to the memory from `from_fdc` on, of which the array is the first seven bytes.
-/

namespace Vmm386.Fd

abbrev STATUS_BUSY : UChar := 0x10

abbrev STATUS_DIR : UChar := 0x40

abbrev STATUS_READY : UChar := 0x80

abbrev E_OK : ℤ := 0

abbrev E_BADRESULTS : ℤ := 3

/-- Polls that `get_results` makes at most. -/
abbrev MAX_POLLS : ℕ := 102400

/-- Bytes of `from_fdc`. -/
abbrev FROM_FDC_SIZE : ℕ := 7

/-- What the controller gives: `status k` at poll `k`, and `data k` as data byte `k`. -/
structure FdcBus where
  status : ℕ → UChar
  data : ℕ → UChar

/-- The three bits of the status that are looked at. -/
def FdcBus.sts (bus : FdcBus) (k : ℕ) : UChar :=
  bus.status k &&& (STATUS_DIR ||| STATUS_READY ||| STATUS_BUSY)

/-- `res_cnt`, the number of data bytes read so far, the memory at `from_fdc`, and the indices that
were stored to, the last first. -/
structure Results where
  resCnt : ℕ
  reads : ℕ
  fromFdc : ℕ → UChar
  stores : List ℕ

/-- A data byte that is read and forgotten. -/
def Results.drop (r : Results) : Results :=
  { r with resCnt := r.resCnt + 1, reads := r.reads + 1 }

/-- `from_fdc[res_cnt++] = inb_p(FDC_STSREG)`. -/
def Results.store (bus : FdcBus) (r : Results) : Results where
  resCnt := r.resCnt + 1
  reads := r.reads + 1
  fromFdc := Function.update r.fromFdc r.resCnt (bus.data r.reads)
  stores := r.resCnt :: r.stores

/-- The controller has a byte: a full array drops one byte, and stores the next all the same. -/
def Results.take (bus : FdcBus) (r : Results) : Results :=
  (if FROM_FDC_SIZE ≤ r.resCnt then r.drop else r).store bus

/-- The loop of `get_results`, at poll `k` with `left` polls to go. -/
def getResultsLoop (bus : FdcBus) (count : ℤ) : ℕ → ℕ → Results → ℤ × Results
  | 0, _, r => (E_BADRESULTS, r)
  | left + 1, k, r =>
    if bus.sts k = STATUS_READY then
      (if count = r.resCnt then E_OK else E_BADRESULTS, r)
    else if bus.sts k = STATUS_DIR ||| STATUS_READY ||| STATUS_BUSY then
      getResultsLoop bus count left (k + 1) (r.take bus)
    else
      getResultsLoop bus count left (k + 1) r

/-- `get_results`, with what `from_fdc` and the memory behind it hold before. -/
def getResults (bus : FdcBus) (count : ℤ) (mem : ℕ → UChar) : ℤ × Results :=
  getResultsLoop bus count MAX_POLLS 0 ⟨0, 0, mem, []⟩

/-! ## What it should do -/

/-- Stores stay in the array; success means that `count` bytes were read, and that they are there in
order. -/
structure FdcBus.Delivered (bus : FdcBus) (count : ℤ) (out : ℤ × Results) : Prop where
  inside : ∀ i ∈ out.2.stores, i < FROM_FDC_SIZE
  exact : out.1 = E_OK → count = out.2.reads
  inOrder : out.1 = E_OK → ∀ i < out.2.reads, out.2.fromFdc i = bus.data i

/-- Data bytes that the controller offers in the `left` polls from poll `k` on, before it is ready
for a command. -/
def FdcBus.offered (bus : FdcBus) (k left : ℕ) : ℕ :=
  ((List.range' k left).takeWhile fun i => bus.sts i ≠ STATUS_READY).countP fun i =>
    bus.sts i = STATUS_DIR ||| STATUS_READY ||| STATUS_BUSY

variable {bus : FdcBus} {count : ℤ} {k left : ℕ} {r : Results}

theorem FdcBus.offered_ready (h : bus.sts k = STATUS_READY) : bus.offered k (left + 1) = 0 := by
  simp [offered, List.range'_succ, h]

theorem FdcBus.offered_data (h : bus.sts k = STATUS_DIR ||| STATUS_READY ||| STATUS_BUSY) :
    bus.offered k (left + 1) = bus.offered (k + 1) left + 1 := by
  simp [offered, List.range'_succ, h]

theorem FdcBus.offered_idle (h : bus.sts k ≠ STATUS_READY)
    (h' : bus.sts k ≠ STATUS_DIR ||| STATUS_READY ||| STATUS_BUSY) :
    bus.offered k (left + 1) = bus.offered (k + 1) left := by
  simp_all [offered, List.range'_succ]

/-! ## Up to seven bytes -/

/-- The bytes read so far, in order at the start of `from_fdc`. -/
structure Results.Gathered (bus : FdcBus) (r : Results) : Prop where
  counted : r.resCnt = r.reads
  inside : ∀ i ∈ r.stores, i < FROM_FDC_SIZE
  inOrder : ∀ i < r.reads, r.fromFdc i = bus.data i

theorem Results.Gathered.take (h : r.Gathered bus) (hroom : r.resCnt < FROM_FDC_SIZE) :
    (r.take bus).Gathered bus := by
  have htake : r.take bus = r.store bus := by
    rw [Results.take, if_neg (Nat.not_le.mpr hroom)]
  rw [htake]
  refine ⟨congrArg (· + 1) h.counted, ?_, fun i hi => ?_⟩
  · exact List.forall_mem_cons.mpr ⟨hroom, h.inside⟩
  · -- the new byte lies behind all others
    show Function.update r.fromFdc r.resCnt (bus.data r.reads) i = bus.data i
    rw [h.counted]
    rcases Nat.lt_succ_iff_lt_or_eq.mp hi with hlt | rfl
    · rw [Function.update_of_ne hlt.ne]
      exact h.inOrder i hlt
    · exact Function.update_self ..

theorem Results.Gathered.delivered (h : r.Gathered bus) :
    bus.Delivered count (if count = r.resCnt then E_OK else E_BADRESULTS, r) := by
  refine ⟨h.inside, fun hok => ?_, fun _ => h.inOrder⟩
  show count = (r.reads : ℤ)
  rw [← h.counted]
  by_contra hne
  exact absurd (hok.symm.trans (if_neg hne)) (by decide)

theorem delivered_of_offered_le (h : r.Gathered bus)
    (hle : r.resCnt + bus.offered k left ≤ FROM_FDC_SIZE) :
    bus.Delivered count (getResultsLoop bus count left k r) := by
  induction left generalizing k r with
  | zero =>
    have hbad : E_BADRESULTS ≠ E_OK := by decide
    exact ⟨h.inside, fun hok => absurd hok hbad, fun _ => h.inOrder⟩
  | succ left ih =>
    unfold getResultsLoop
    by_cases hready : bus.sts k = STATUS_READY
    · rw [if_pos hready]
      exact h.delivered
    rw [if_neg hready]
    by_cases hdata : bus.sts k = STATUS_DIR ||| STATUS_READY ||| STATUS_BUSY
    · rw [if_pos hdata]
      rw [FdcBus.offered_data hdata] at hle
      have hroom : r.resCnt < FROM_FDC_SIZE := by omega
      refine ih (h.take hroom) ?_
      have hcnt : (r.take bus).resCnt = r.resCnt + 1 := by
        rw [Results.take, if_neg (Nat.not_le.mpr hroom)]
        rfl
      omega
    · rw [if_neg hdata]
      rw [FdcBus.offered_idle hready hdata] at hle
      exact ih h hle

/-! ## The eighth byte -/

theorem Results.mem_stores_take {i : ℕ} (h : i ∈ r.stores) : i ∈ (r.take bus).stores := by
  show i ∈ _ :: _
  refine List.mem_cons_of_mem _ ?_
  split_ifs
  · exact h
  · exact h

/-- What was stored to stays stored to. -/
theorem mem_stores_getResultsLoop {i : ℕ} (h : i ∈ r.stores) :
    i ∈ (getResultsLoop bus count left k r).2.stores := by
  induction left generalizing k r with
  | zero => exact h
  | succ left ih =>
    unfold getResultsLoop
    split_ifs
    · exact h
    · exact h
    · exact ih (Results.mem_stores_take h)
    · exact ih h

/-- The eighth byte is read twice over, and its second half goes to index 8. -/
theorem stores_eight (hfull : r.resCnt ≤ FROM_FDC_SIZE)
    (hgt : FROM_FDC_SIZE < r.resCnt + bus.offered k left) :
    8 ∈ (getResultsLoop bus count left k r).2.stores := by
  induction left generalizing k r with
  | zero => exact absurd hgt (Nat.not_lt.mpr hfull)
  | succ left ih =>
    unfold getResultsLoop
    by_cases hready : bus.sts k = STATUS_READY
    · rw [FdcBus.offered_ready hready] at hgt
      omega
    rw [if_neg hready]
    by_cases hdata : bus.sts k = STATUS_DIR ||| STATUS_READY ||| STATUS_BUSY
    · rw [if_pos hdata]
      rw [FdcBus.offered_data hdata] at hgt
      by_cases hroom : FROM_FDC_SIZE ≤ r.resCnt
      · refine mem_stores_getResultsLoop ?_
        have heq : r.resCnt = FROM_FDC_SIZE := Nat.le_antisymm hfull hroom
        rw [Results.take, if_pos hroom]
        exact List.mem_cons.mpr (.inl (by simp [Results.drop, heq]))
      · have hcnt : (r.take bus).resCnt = r.resCnt + 1 := by
          rw [Results.take, if_neg hroom]
          rfl
        exact ih (by omega) (by omega)
    · rw [if_neg hdata]
      rw [FdcBus.offered_idle hready hdata] at hgt
      exact ih hfull hgt

/-- **Result bytes.** `get_results` stays in `from_fdc`, and is right about its success, exactly when
the controller offers at most seven bytes before it is ready. -/
theorem getResults_delivered_iff (bus : FdcBus) (count : ℤ) (mem : ℕ → UChar) :
    bus.Delivered count (getResults bus count mem) ↔ bus.offered 0 MAX_POLLS ≤ FROM_FDC_SIZE := by
  constructor
  · intro h
    by_contra hgt
    have hstore := @stores_eight bus count 0 MAX_POLLS ⟨0, 0, mem, []⟩ (Nat.zero_le _)
      (by rw [Nat.zero_add]; exact Nat.not_le.mp hgt)
    exact absurd (h.inside 8 hstore) (by decide)
  · intro hle
    refine delivered_of_offered_le ⟨rfl, ?_, ?_⟩ (by rw [Nat.zero_add]; exact hle)
    · intro i hi
      cases hi
    · intro i hi
      cases hi

/-- A controller that gives eight bytes. -/
def eightBytes : FdcBus where
  status k := if k < 8 then 0xd0 else 0x80
  data k := BitVec.ofNat 8 k

theorem eightBytes_stored_outside :
    ¬ eightBytes.Delivered 8 (getResults eightBytes 8 fun _ => 0) := by
  intro h
  have hstores : (getResults eightBytes 8 fun _ => 0).2.stores = [8, 6, 5, 4, 3, 2, 1, 0] := rfl
  exact absurd (h.inside 8 (hstores ▸ List.mem_cons_self)) (by decide)

end Vmm386.Fd
