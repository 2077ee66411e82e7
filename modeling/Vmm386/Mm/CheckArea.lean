import Vmm386.Mm.PageTables

/-!
# Areas that are all present

`check_area` of `kernel/mm/page.c`: whether all pages that an area of linear addresses touches are
mapped.
-/

namespace Vmm386.Mm

/-- The loop of `check_area`. -/
def checkLoop (m : Mem) (pd addr extent : ULong) : Bool :=
  if ¬ Present (m.getPte pd addr) then false
  else if extent ≤ PAGE_SIZE then true
  else checkLoop m pd (addr + PAGE_SIZE) (extent - PAGE_SIZE)
termination_by extent.toNat
decreasing_by
  have hsize : PAGE_SIZE.toNat = 4096 := rfl
  bv_omega

/-- `check_area`. -/
def checkArea (m : Mem) (pd start extent : ULong) : Bool :=
  let addr := start &&& PAGE_MASK
  checkLoop m pd addr (extent + (start - addr))

/-- The page at `p` overlaps the area. -/
def Overlaps (p start extent : ULong) : Prop :=
  start.toNat < p.toNat + 4096 ∧ p.toNat < start.toNat + extent.toNat

variable {m : Mem} {pd addr start extent p : ULong}

/-- A page that starts where the area does overlaps it; the rest of the area is what the other pages
overlap. -/
theorem overlaps_iff (haddr : Aligned addr) (hp : Aligned p) (hsize : PAGE_SIZE < extent)
    (hwrap : addr.toNat + extent.toNat < 2 ^ 32) :
    Overlaps p addr extent ↔ p = addr ∨ Overlaps p (addr + PAGE_SIZE) (extent - PAGE_SIZE) := by
  unfold Overlaps Aligned at *
  have hsz : PAGE_SIZE.toNat = 4096 := rfl
  have hlt : 4096 < extent.toNat := hsize
  have hadd : (addr + PAGE_SIZE).toNat = addr.toNat + 4096 := by
    bv_omega
  have hsub : (extent - PAGE_SIZE).toNat = extent.toNat - 4096 := by
    bv_omega
  rw [hadd, hsub, ← BitVec.toNat_inj]
  omega

/-- The only page that overlaps an area no longer than a page. -/
theorem overlaps_iff_eq (haddr : Aligned addr) (hp : Aligned p) (hpos : 0 < extent.toNat)
    (hsize : extent ≤ PAGE_SIZE) : Overlaps p addr extent ↔ p = addr := by
  unfold Overlaps Aligned at *
  have hle : extent.toNat ≤ 4096 := hsize
  rw [← BitVec.toNat_inj]
  omega

/-- From the start of a page the loop looks at all pages up to the end of the area. -/
theorem checkLoop_iff (haddr : Aligned addr) (hpos : 0 < extent.toNat)
    (hwrap : addr.toNat + extent.toNat < 2 ^ 32) :
    checkLoop m pd addr extent = true ↔
      ∀ p, Aligned p → Overlaps p addr extent → Present (m.getPte pd p) := by
  induction hn : extent.toNat using Nat.strong_induction_on generalizing addr extent with
  | _ n ih =>
    subst hn
    have hself : Overlaps addr addr extent := ⟨by omega, by omega⟩
    unfold checkLoop
    by_cases hpte : Present (m.getPte pd addr)
    · rw [if_neg (not_not.mpr hpte)]
      by_cases hsize : extent ≤ PAGE_SIZE
      · -- the last page
        rw [if_pos hsize]
        refine iff_of_true rfl fun p hp hover => ?_
        rw [(overlaps_iff_eq haddr hp hpos hsize).mp hover]
        exact hpte
      · have hlt : 4096 < extent.toNat := by
          have hsz : PAGE_SIZE.toNat = 4096 := rfl
          bv_omega
        have hadd : (addr + PAGE_SIZE).toNat = addr.toNat + 4096 := by
          have hsz : PAGE_SIZE.toNat = 4096 := rfl
          bv_omega
        have hsub : (extent - PAGE_SIZE).toNat = extent.toNat - 4096 := by
          have hsz : PAGE_SIZE.toNat = 4096 := rfl
          bv_omega
        have hnext : Aligned (addr + PAGE_SIZE) := by
          unfold Aligned at *
          omega
        rw [if_neg hsize, ih _ (by omega) hnext (by omega) (by omega) rfl]
        constructor
        · intro h p hp hover
          rcases (overlaps_iff haddr hp (BitVec.not_le.mp hsize) hwrap).mp hover with rfl | hrest
          · exact hpte
          · exact h p hp hrest
        · intro h p hp hrest
          exact h p hp ((overlaps_iff haddr hp (BitVec.not_le.mp hsize) hwrap).mpr (.inr hrest))
    · rw [if_pos hpte]
      exact iff_of_false Bool.false_ne_true fun h => hpte (h addr haddr hself)

/-- The extent counted from the start of the first page. -/
theorem toNat_extent (hwrap : start.toNat + extent.toNat < 2 ^ 32) :
    (extent + (start - (start &&& PAGE_MASK))).toNat = extent.toNat + start.toNat % 4096 := by
  have hmask := toNat_and_mask start
  bv_omega

/-- The area and the one from the start of its first page overlap the same pages. -/
theorem overlaps_start_iff (hp : Aligned p) (hpos : 0 < extent.toNat)
    (hwrap : start.toNat + extent.toNat < 2 ^ 32) :
    Overlaps p (start &&& PAGE_MASK) (extent + (start - (start &&& PAGE_MASK))) ↔
      Overlaps p start extent := by
  unfold Overlaps Aligned at *
  rw [toNat_extent hwrap, toNat_and_mask]
  omega

/-- **`check_area`.** An area of at least one byte, which does not go around the end of the address
space, is found present exactly if every page that it overlaps is. -/
theorem checkArea_iff (m : Mem) (pd start extent : ULong) (hpos : 0 < extent.toNat)
    (hwrap : start.toNat + extent.toNat < 2 ^ 32) :
    checkArea m pd start extent = true ↔
      ∀ p, Aligned p → Overlaps p start extent → Present (m.getPte pd p) := by
  have hmask := toNat_and_mask start
  have haddr : Aligned (start &&& PAGE_MASK) := by
    unfold Aligned
    omega
  have hextent := toNat_extent hwrap
  unfold checkArea
  dsimp only
  rw [checkLoop_iff haddr (by omega) (by omega)]
  exact forall₂_congr fun p hp => imp_congr_left (overlaps_start_iff hp hpos hwrap)

/-- Every entry of every table is present. -/
def allPresent : Mem where
  pages := ⟨⟨NULL, fun _ => NULL⟩, 0, 0⟩
  table _ _ := PTE_PRESENT

/-- Two bytes on both sides of a page boundary. -/
theorem checkArea_two_pages : checkArea allPresent 0 0x1fff 2 = true :=
  (checkArea_iff allPresent 0 0x1fff 2 (by decide) (by decide)).mpr fun p _ _ => by
    have hpte : allPresent.getPte 0 p = PTE_PRESENT :=
      if_neg (show ¬ ¬ Present PTE_PRESENT by decide)
    rw [hpte]
    decide

end Vmm386.Mm
