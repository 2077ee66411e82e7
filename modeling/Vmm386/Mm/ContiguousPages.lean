import Vmm386.Mm.PageTheorems

/-!
# Contiguous pages

Which pages `alloc_pages_64` finds. It is for the buffers of the DMA controller, which cannot
cross a boundary of 64K, and has the lowest 16M only.
-/

namespace Vmm386.Mm

/-- The page starts a block of 64K below 16M. -/
def StartsBlock (x : ULong) : Prop :=
  toPhysical x &&& 0xffff = 0 ∧ toPhysical x < 16 * 1024 * 1024

/-- The pages are in the same block of 64K. -/
def SameBlock (p q : ULong) : Prop :=
  (toPhysical p).toNat / 65536 = (toPhysical q).toNat / 65536

/-- The `n` pages from `x` on are free, and `x` starts a block below 16M. -/
structure FreeRun (l : List ULong) (n x : ULong) : Prop where
  starts : StartsBlock x
  inside : x.toNat + n.toNat * 4096 < 2 ^ 32
  free : ∀ q ∈ pagesFrom x n.toNat, q ∈ l

theorem StartsBlock.toNat {x : ULong} (h : StartsBlock x) :
    (toPhysical x).toNat % 65536 = 0 ∧ x.toNat = (toPhysical x).toNat + 8388608 ∧
      (toPhysical x).toNat < 16777216 := by
  obtain ⟨hmask, hlow⟩ := h
  have hmod : (toPhysical x &&& 0xffff).toNat = (toPhysical x).toNat % 2 ^ 16 := by
    rw [BitVec.toNat_and]
    exact Nat.and_two_pow_sub_one_eq_mod _ 16
  rw [hmask] at hmod
  have hlt : (toPhysical x).toNat < 16777216 := hlow
  have hsub : (toPhysical x).toNat = (2 ^ 32 - 8388608 + x.toNat) % 2 ^ 32 := by
    rw [toPhysical, BitVec.toNat_sub]
    rfl
  have := x.isLt
  exact ⟨hmod.symm, by omega, hlt⟩

theorem StartsBlock.aligned {x : ULong} (h : StartsBlock x) : Aligned x := by
  obtain ⟨hmod, hx, -⟩ := h.toNat
  unfold Aligned
  omega

theorem toNat_toPhysical {q : ULong} (h : 8388608 ≤ q.toNat) :
    (toPhysical q).toNat = q.toNat - 8388608 := by
  have hsub : (toPhysical q).toNat = (2 ^ 32 - 8388608 + q.toNat) % 2 ^ 32 := by
    rw [toPhysical, BitVec.toNat_sub]
    rfl
  have := q.isLt
  omega

/-- Up to sixteen pages from the start of a block are in it, and no others are. -/
theorem StartsBlock.sameBlock_iff {x q : ULong} (h : StartsBlock x) (hle : x.toNat ≤ q.toNat) :
    SameBlock x q ↔ q.toNat < x.toNat + 65536 := by
  obtain ⟨hmod, hx, -⟩ := h.toNat
  rw [SameBlock, toNat_toPhysical (by omega : 8388608 ≤ q.toNat)]
  omega

namespace Pages

variable {s : Pages} {l : List ULong}

/-! ## What the search finds -/

theorem Free.length_lt (h : s.Free l) (ha : ∀ p ∈ l, Aligned p) : l.length < ADDRESSES := by
  have hle := h.length_le ha
  have haddr : ADDRESSES = 4294967296 := by norm_num
  omega

theorem Free.linked (h : s.Free l) : Linked s.links.next NULL s.links.head l := h.1.1

theorem countFree_of_le {x top n : ULong} {k : ℕ} {y found : ULong}
    (h : Linked s.links.next NULL y l) (hk : l.length < k) (hlen : found.toNat + l.length < 2 ^ 32)
    (hn : n.toNat ≤ found.toNat + l.countP (fun p => x < p ∧ p < top))
    (hpos : 0 < l.countP (fun p => x < p ∧ p < top)) :
    s.countFree x top n k y found = true := by
  induction k generalizing y l found with
  | zero => omega
  | succ k ih =>
    rw [countFree]
    by_cases hy : y = NULL
    · rw [hy] at h
      rw [h.eq_nil] at hpos
      cases hpos
    · obtain ⟨l, rfl, hl⟩ := h.exists_cons hy
      rw [List.length_cons] at hk hlen
      have hadd : (found + 1).toNat = found.toNat + 1 := by
        rw [BitVec.toNat_add]
        exact Nat.mod_eq_of_lt (by show found.toNat + 1 < _; omega)
      rw [if_neg hy]
      by_cases hin : x < y ∧ y < top
      · rw [if_pos hin]
        rw [List.countP_cons_of_pos (by simpa using hin)] at hn
        by_cases hdone : n ≤ found + 1
        · rw [if_pos hdone]
        · rw [if_neg hdone]
          rw [BitVec.le_def, hadd] at hdone
          exact ih hl (by omega) (by omega) (by omega) (by omega)
      · rw [if_neg hin]
        rw [List.countP_cons_of_neg (by simpa using hin)] at hn hpos
        exact ih hl (by omega) (by omega) hn hpos

theorem findPages_starts {n x y : ULong} {k : ℕ} (hsome : s.findPages n k y = some x) :
    StartsBlock x := by
  induction k generalizing y with
  | zero => cases hsome
  | succ k ih =>
    rw [findPages] at hsome
    split at hsome
    · cases hsome
    · split at hsome
      next hok =>
        cases hsome
        exact ⟨hok.1, hok.2.1⟩
      next => exact ih hsome

theorem findPages_isSome {n x y : ULong} {k : ℕ} (h : Linked s.links.next NULL y l)
    (hk : l.length < k) (hx : x ∈ l) (hstart : StartsBlock x)
    (hfound : s.countFree x (x + n * PAGE_SIZE) n ADDRESSES s.links.head 1 = true) :
    ∃ x', s.findPages n k y = some x' := by
  induction k generalizing y l with
  | zero => omega
  | succ k ih =>
    rw [findPages]
    by_cases hy : y = NULL
    · rw [hy] at h
      rw [h.eq_nil] at hx
      cases hx
    · obtain ⟨l, rfl, hl⟩ := h.exists_cons hy
      rw [List.length_cons] at hk
      rw [if_neg hy]
      split
      · exact ⟨y, rfl⟩
      next hno =>
        rcases List.mem_cons.mp hx with heq | hx
        · rw [heq] at hstart hfound
          exact absurd ⟨hstart.1, hstart.2, hfound⟩ hno
        · exact ih hl (by omega) hx

/-- The pages behind the first one of a free run are counted. -/
theorem countFree_of_freeRun (h : s.Free l) (ha : ∀ p ∈ l, Aligned p) {n x : ULong}
    (hn : 2 ≤ n.toNat) (hrun : FreeRun l n x) :
    s.countFree x (x + n * PAGE_SIZE) n ADDRESSES s.links.head 1 = true := by
  have hlen := h.length_le ha
  have hinside := hrun.inside
  have hnodup : (pagesFrom x n.toNat).Nodup := nodup_pagesFrom (by omega)
  obtain ⟨m, hm⟩ : ∃ m, n.toNat = m + 1 := ⟨n.toNat - 1, by omega⟩
  have htop : (x + n * PAGE_SIZE).toNat = x.toNat + n.toNat * 4096 := by
    have hpage := toNat_page hrun.inside
    rwa [BitVec.ofNat_toNat, BitVec.setWidth_eq] at hpage
  have hsplit : pagesFrom x n.toNat = x :: pagesFrom (x + PAGE_SIZE) m := by
    rw [hm, pagesFrom_succ]
  have hsub : pagesFrom (x + PAGE_SIZE) m ⊆ l.filter fun p => x < p ∧ p < x + n * PAGE_SIZE := by
    intro q hq
    have hmem : q ∈ pagesFrom x n.toNat := by
      rw [hsplit]
      exact List.mem_cons_of_mem x hq
    have hne : q ≠ x := by
      intro heq
      rw [hsplit, List.nodup_cons] at hnodup
      rw [heq] at hq
      exact hnodup.1 hq
    have hnat : q.toNat ≠ x.toNat := fun heq => hne (BitVec.eq_of_toNat_eq heq)
    obtain ⟨-, hle, hlt⟩ := (mem_pagesFrom (by omega) hrun.starts.aligned).mp hmem
    refine List.mem_filter.mpr ⟨hrun.free q hmem, decide_eq_true ?_⟩
    rw [BitVec.lt_def, BitVec.lt_def, htop]
    omega
  have hcount := (List.nodup_cons.mp (hsplit ▸ hnodup)).2.subperm hsub |>.length_le
  rw [length_pagesFrom, ← List.countP_eq_length_filter] at hcount
  have hone : (1 : ULong).toNat = 1 := rfl
  exact countFree_of_le h.linked (h.length_lt ha) (by rw [hone]; omega) (by rw [hone]; omega) (by omega)

/-- Where the search is over one page, it counts none. -/
theorem findPages_one (h : s.Free l) (ha : ∀ p ∈ l, Aligned p) (k : ℕ) (y : ULong) :
    Linked s.links.next NULL y l → s.findPages 1 k y = none := by
  intro hl
  cases hfind : s.findPages 1 k y with
  | none => rfl
  | some x =>
    obtain ⟨hx, hcount⟩ := findPages_some hl hfind
    have hlen := h.length_le ha
    obtain ⟨-, hpos⟩ := countFree_le h.linked (by show 1 + l.length < _; omega) hcount
    obtain ⟨p, hp, hin⟩ := List.countP_pos_iff.mp hpos
    obtain ⟨hlt, htop⟩ := of_decide_eq_true hin
    have hpa := ha p hp
    have hxa := ha x hx
    have hsum : (x + 1 * PAGE_SIZE).toNat = (x.toNat + 4096) % 2 ^ 32 := by
      rw [BitVec.toNat_add]
      rfl
    unfold Aligned at hpa hxa
    rw [BitVec.lt_def] at hlt htop
    rw [hsum] at htop
    omega

/-- `alloc_pages_64` for two pages and more. -/
theorem allocPages64_eq_null_iff (h : s.Free l) (ha : ∀ p ∈ l, Aligned p) {n : ULong}
    (hn : 2 ≤ n.toNat) : (s.allocPages64 n).1 = NULL ↔ ¬∃ x, FreeRun l n x := by
  rw [allocPages64]
  cases hfind : s.findPages n ADDRESSES s.links.head with
  | none =>
    refine iff_of_true rfl ?_
    rintro ⟨x, hrun⟩
    have hx : x ∈ pagesFrom x n.toNat := by
      have hinside := hrun.inside
      exact (mem_pagesFrom (by omega) hrun.starts.aligned).mpr
        ⟨hrun.starts.aligned, Nat.le_refl _, by omega⟩
    obtain ⟨x', hx'⟩ := findPages_isSome h.linked (h.length_lt ha)
      (hrun.free x hx) hrun.starts (countFree_of_freeRun h ha hn hrun)
    rw [hfind] at hx'
    cases hx'
  | some x =>
    obtain ⟨hx, hcount⟩ := findPages_some h.linked hfind
    obtain ⟨hinside, -, hfree⟩ := found_pages h ha hx hcount
    exact iff_of_false (h.ne_null hx)
      (not_not.mpr ⟨x, findPages_starts hfind, hinside, hfree⟩)

theorem allocPages64_one (h : s.Free l) (ha : ∀ p ∈ l, Aligned p) :
    s.allocPages64 1 = (NULL, s) := by
  rw [allocPages64, findPages_one h ha _ _ h.linked]

/-- The pages that `alloc_pages_64` returns start a block. -/
theorem allocPages64_starts {n : ULong} (hne : (s.allocPages64 n).1 ≠ NULL) :
    StartsBlock (s.allocPages64 n).1 := by
  rw [allocPages64] at hne ⊢
  cases hfind : s.findPages n ADDRESSES s.links.head with
  | none =>
    rw [hfind] at hne
    exact absurd rfl hne
  | some x => exact findPages_starts hfind

/-! ## What `alloc_pages_64` is for -/

/-- The pages that `alloc_pages_64` returns, or the reason why it returns none. -/
structure Alloc64Ok (s : Pages) (l : List ULong) (n : ULong) : Prop where
  pages : n.toNat ≤ 16 → (s.allocPages64 n).1 ≠ NULL →
    (∀ q ∈ pagesFrom (s.allocPages64 n).1 n.toNat, q ∈ l ∧ (toPhysical q).toNat + 4096 ≤ 2 ^ 24) ∧
      (s.allocPages64 n).2.Free (l.filter (· ∉ pagesFrom (s.allocPages64 n).1 n.toNat))
  block : (s.allocPages64 n).1 ≠ NULL →
    ∀ q ∈ pagesFrom (s.allocPages64 n).1 n.toNat, SameBlock (s.allocPages64 n).1 q
  none : n.toNat ≤ 16 → (s.allocPages64 n).1 = NULL →
    (s.allocPages64 n).2 = s ∧ ¬∃ x, FreeRun l n x

theorem alloc64Ok_of_le (h : s.Free l) (ha : ∀ p ∈ l, Aligned p) {n : ULong} (hn : 2 ≤ n.toNat)
    (hle : n.toNat ≤ 16) : Alloc64Ok s l n := by
  rcases allocPages64_spec h ha n with hnull | ⟨x, s', hx, hne, -, hpages, hfree, -⟩
  · have hnone := (allocPages64_eq_null_iff h ha hn).mp (by rw [hnull])
    refine ⟨fun _ hne => absurd (by rw [hnull]) hne, fun hne => absurd (by rw [hnull]) hne, ?_⟩
    intro _ _
    exact ⟨by rw [hnull], hnone⟩
  · have hstarts := allocPages64_starts (by rw [hx]; exact hne)
    rw [hx] at hstarts
    dsimp only at hstarts
    obtain ⟨hmod, hnat, hlow⟩ := hstarts.toNat
    have hmem : ∀ q ∈ pagesFrom x n.toNat, x.toNat ≤ q.toNat ∧ q.toNat + 4096 ≤ x.toNat + 65536 := by
      intro q hq
      obtain ⟨hqa, hxq, hlt⟩ := (mem_pagesFrom (by omega) hstarts.aligned).mp hq
      have hxa := hstarts.aligned
      unfold Aligned at hqa hxa
      omega
    refine ⟨fun _ _ => ?_, fun _ q hq => ?_, fun _ hnull => ?_⟩
    · rw [hx]
      refine ⟨fun q hq => ⟨hpages q hq, ?_⟩, hfree⟩
      have hq := hmem q hq
      rw [toNat_toPhysical (by omega)]
      omega
    · rw [hx] at hq ⊢
      have hq := hmem q hq
      exact (hstarts.sameBlock_iff hq.1).mpr (by omega)
    · rw [hx] at hnull
      exact absurd hnull hne

/-- **`alloc_pages_64`** does what it is for when it is called for two to sixteen pages. For one
page it never finds any, and more pages than sixteen cross a boundary whenever it finds
them. -/
theorem alloc64Ok_iff (h : s.Free l) (ha : ∀ p ∈ l, Aligned p) {n : ULong} (hn : 1 ≤ n.toNat) :
    Alloc64Ok s l n ↔ (2 ≤ n.toNat ∧ n.toNat ≤ 16) ∨ ¬∃ x, FreeRun l n x := by
  by_cases hone : n.toNat = 1
  · obtain rfl : n = 1 := BitVec.eq_of_toNat_eq hone
    have hnull := allocPages64_one h ha
    constructor
    · intro hok
      exact .inr (hok.none (by decide) (by rw [hnull])).2
    · intro hcond
      have hnone := hcond.resolve_left fun hc => absurd hc.1 (by decide)
      refine ⟨fun _ hne => absurd (by rw [hnull]) hne, fun hne => absurd (by rw [hnull]) hne, ?_⟩
      exact fun _ _ => ⟨by rw [hnull], hnone⟩
  · by_cases hle : n.toNat ≤ 16
    · exact iff_of_true (alloc64Ok_of_le h ha (by omega) hle) (.inl ⟨by omega, hle⟩)
    · have hiff := allocPages64_eq_null_iff h ha (by omega : 2 ≤ n.toNat)
      constructor
      · intro hok
        refine .inr (hiff.mp ?_)
        by_contra hne
        -- the seventeenth page is in the next block
        have hstarts := allocPages64_starts hne
        obtain ⟨-, hnat, hlow⟩ := hstarts.toNat
        have hpage := toNat_page (p := (s.allocPages64 n).1) (n := 16) (by omega)
        have hsame := hok.block hne _ (List.mem_map.mpr ⟨16, List.mem_range.mpr (by omega), rfl⟩)
        rw [hstarts.sameBlock_iff (by omega), hpage] at hsame
        omega
      · intro hcond
        have hnull := hiff.mpr (hcond.resolve_left fun hc => hle hc.2)
        exact ⟨fun hc => absurd hc hle, fun hne => absurd hnull hne, fun hc => absurd hc hle⟩

/-! ## Two free pages -/

/-- The first two pages of the physical memory are free. -/
def twoPages : Pages :=
  Pages.freePage 0x800000 (Pages.freePage 0x801000 ⟨⟨NULL, fun _ => NULL⟩, 2, 0⟩)

theorem twoPages_free : twoPages.Free [0x800000, 0x801000] := by
  have hnone : Pages.Free ⟨⟨NULL, fun _ => NULL⟩, 2, 0⟩ [] :=
    ⟨⟨rfl, nofun⟩, rfl⟩
  exact freePage_free (freePage_free hnone (by decide) (by decide)) (by decide) (by decide)

theorem twoPages_aligned : ∀ p ∈ [(0x800000 : ULong), 0x801000], Aligned p := by
  intro p hp
  rcases List.mem_pair.mp hp with rfl | rfl <;> rfl

theorem alloc64Ok_two : Alloc64Ok twoPages [0x800000, 0x801000] 2 :=
  (alloc64Ok_iff twoPages_free twoPages_aligned (by decide)).mpr (.inl ⟨by decide, by decide⟩)

/-- The first page is free and starts a block, but is not found alone. -/
theorem alloc64_one_fails : ∃ s l, s.Free l ∧ (∀ p ∈ l, Aligned p) ∧ (∃ x, FreeRun l 1 x) ∧
    s.allocPages64 1 = (NULL, s) ∧ ¬Alloc64Ok s l 1 := by
  have hnull := allocPages64_one twoPages_free twoPages_aligned
  have hrun : FreeRun [0x800000, 0x801000] 1 0x800000 := by
    refine ⟨⟨by decide, by decide⟩, by decide, ?_⟩
    intro q hq
    have hq : q = 0x800000 := by simpa [pagesFrom] using hq
    rw [hq]
    exact List.mem_cons_self
  refine ⟨twoPages, _, twoPages_free, twoPages_aligned, ⟨_, hrun⟩, hnull, fun hok => ?_⟩
  exact (hok.none (by decide) (by rw [hnull])).2 ⟨_, hrun⟩

end Pages

end Vmm386.Mm
