import Vmm386.Fs.InodeCache
import Mathlib.Data.List.Count
import Mathlib.Data.List.Perm.Basic
import Mathlib.Tactic

/-!
# The inode cache stays intact

The invariant counts the references to each inode: the ones callers hold, the root pointer
of its device, the `close_inode`s on their way and the `make_inode` that reads it. The count
is at most `use_count`, so a `close_inode` that brings that to zero takes the last reference
(`inv_drop`). A call that goes on is taken from the list of those that sleep; as the order of
that list does not matter, it may be thought of as the first (`Inv.perm`).
-/

namespace Vmm386.Fs.InodeCache

/-! ## The invariant -/

/-- The root pointer of its device leads to the inode. -/
def Sys.rootRef (s : Sys) (x : InodeId) : ℕ :=
  if (s.tab.dev (s.tab.pool x).dev).root = some x then 1 else 0

/-- The sleeping calls that have a reference to the inode. -/
def actRefs (acts : List Act) (x : InodeId) : ℕ :=
  acts.count (.closing x) + acts.count (.making x .caller) + acts.count (.making x .validate)

/-- The references to an inode. -/
def Sys.refs (s : Sys) (x : InodeId) : ℕ := s.held x + s.rootRef x + actRefs s.acts x

structure Inv (s : Sys) : Prop where
  partition : ∀ x, s.inCore.count x + s.tab.freeList.count x = 1
  refs_le : ∀ x ∈ s.tab.openList, (s.refs x : ℤ) ≤ (s.tab.pool x).useCount
  refs_zero : ∀ x, x ∉ s.tab.openList → s.refs x = 0
  making : ∀ x k, .making x k ∈ s.acts →
    (s.tab.pool x).locked = true ∧ (s.tab.pool x).useCount = 1
  rootDev : ∀ d x, (s.tab.dev d).root = some x → (s.tab.pool x).dev = d
  unique : ∀ x ∈ s.inCore, ∀ y ∈ s.inCore, (s.tab.pool x).invalid = false →
    (s.tab.pool y).invalid = false → (s.tab.pool x).dev = (s.tab.pool y).dev →
    (s.tab.pool x).inum = (s.tab.pool y).inum → x = y
  mounted : ∀ d, (1 + s.inCore.countP fun x => (s.tab.pool x).dev = d : ℕ) ≤
    (s.tab.dev d).useCount

/-! ## Activities -/

/-- The inode a sleeping call has to do with. -/
def Act.inode : Act → Option InodeId
  | .making x _ => some x
  | .closing x => some x
  | .deleting x => some x
  | _ => none

/-- The invariant looks at the sleeping calls only through the inodes and the references
they have. -/
theorem Inv.congr {s s' : Sys} (h : Inv s) (htab : s'.tab = s.tab)
    (hcore : s.inCore.Perm s'.inCore) (hrefs : ∀ x, s'.refs x = s.refs x)
    (hmaking : ∀ x k, .making x k ∈ s'.acts → .making x k ∈ s.acts) : Inv s' := by
  constructor
  · intro x
    rw [htab, ← hcore.count_eq]
    exact h.partition x
  · intro x hx
    rw [htab] at hx ⊢
    rw [hrefs]
    exact h.refs_le x hx
  · intro x hx
    rw [htab] at hx
    rw [hrefs]
    exact h.refs_zero x hx
  · intro x k hk
    rw [htab]
    exact h.making x k (hmaking x k hk)
  · rw [htab]
    exact h.rootDev
  · rw [htab]
    exact fun x hx y hy => h.unique x (hcore.mem_iff.mpr hx) y (hcore.mem_iff.mpr hy)
  · intro d
    rw [htab, ← hcore.countP_eq]
    exact h.mounted d

/-- The order of the sleeping calls does not matter. -/
theorem Inv.perm {s : Sys} {acts : List Act} (h : Inv s) (hp : s.acts.Perm acts) :
    Inv { s with acts } := by
  refine h.congr rfl ((hp.filterMap Act.unlinked).append_left _) (fun x => ?_)
    fun x k hk => hp.mem_iff.mpr hk
  simp only [Sys.refs, Sys.rootRef, actRefs, hp.count_eq]

/-- Nor does a call that has nothing to do with an inode. -/
theorem inv_cons_iff {s : Sys} {a : Act} (ha : a.inode = none) (acts : List Act) :
    Inv { s with acts := a :: acts } ↔ Inv { s with acts } := by
  have hcore : ({ s with acts := a :: acts } : Sys).inCore = ({ s with acts } : Sys).inCore := by
    cases a <;> first | rfl | cases ha
  have hrefs : ∀ x, ({ s with acts := a :: acts } : Sys).refs x =
      ({ s with acts } : Sys).refs x := by
    intro x
    simp only [Sys.refs, Sys.rootRef, actRefs]
    cases a <;> first | (simp [List.count_cons]; done) | cases ha
  have hmem : ∀ x k, .making x k ∈ a :: acts ↔ .making x k ∈ acts := by
    intro x k
    cases a <;> first | (simp; done) | cases ha
  constructor
  · intro h
    exact h.congr rfl (by rw [hcore]) (fun x => (hrefs x).symm) fun x k => (hmem x k).mpr
  · intro h
    exact h.congr rfl (by rw [hcore]) hrefs fun x k => (hmem x k).mp

/-! ## Small facts -/

theorem actRefs_cons (a : Act) (acts : List Act) (x : InodeId) :
    actRefs (a :: acts) x = actRefs acts x + actRefs [a] x := by
  simp only [actRefs, List.count_cons, List.count_nil]
  omega

theorem actRefs_closing (x y : InodeId) :
    actRefs [.closing x] y = if x = y then 1 else 0 := by
  simp [actRefs, List.count_cons]

theorem actRefs_making (x y : InodeId) (k : Origin) :
    actRefs [.making x k] y = if x = y then 1 else 0 := by
  cases k <;> simp [actRefs, List.count_cons]

theorem actRefs_deleting (x y : InodeId) : actRefs [.deleting x] y = 0 := by
  simp [actRefs]

/-- An inode with a reference is open. -/
theorem Inv.mem_open {s : Sys} (h : Inv s) {x : InodeId} (hx : 0 < s.refs x) :
    x ∈ s.tab.openList := by
  by_contra hno
  rw [h.refs_zero x hno] at hx
  omega

/-- The open list has no inode twice, and none that is free or being deleted. -/
theorem Inv.count_open {s : Sys} (h : Inv s) {x : InodeId} (hx : x ∈ s.tab.openList) :
    s.tab.openList.count x = 1 ∧ (s.acts.filterMap Act.unlinked).count x = 0 ∧
      s.tab.freeList.count x = 0 := by
  have hpart := h.partition x
  have hpos := List.count_pos_iff.mpr hx
  rw [Sys.inCore, List.count_append] at hpart
  omega

theorem Inv.not_mem_erase {s : Sys} (h : Inv s) (x : InodeId) :
    x ∉ s.tab.openList.erase x := by
  intro hx
  have hpos := List.count_pos_iff.mpr hx
  have hone := (h.count_open (List.mem_of_mem_erase hx)).1
  rw [List.count_erase_self, hone] at hpos
  omega

/-- A call that has begun to make an inode has the only reference to it. -/
theorem Inv.refs_of_making {s : Sys} (h : Inv s) {x : InodeId} {k : Origin}
    (hk : .making x k ∈ s.acts) :
    s.refs x = 1 ∧ actRefs s.acts x = 1 ∧ s.held x = 0 ∧ s.rootRef x = 0 ∧
      x ∈ s.tab.openList := by
  have hpos : 0 < actRefs s.acts x := by
    have := List.count_pos_iff.mpr hk
    cases k <;> simp only [actRefs] <;> omega
  have hopen : x ∈ s.tab.openList := h.mem_open (by unfold Sys.refs; omega)
  have hle := h.refs_le x hopen
  rw [(h.making x k hk).2] at hle
  unfold Sys.refs at hle ⊢
  refine ⟨?_, ?_, ?_, ?_, hopen⟩ <;> omega

/-! ## Steps that keep the inodes in use -/

/-- The fields of an inode that say which file it is. -/
structure SameFile (i j : CoreInode) : Prop where
  dev : j.dev = i.dev
  inum : j.inum = i.inum
  invalid : j.invalid = false → i.invalid = false

theorem SameFile.refl (i : CoreInode) : SameFile i i := ⟨rfl, rfl, id⟩

/-- The invariant after a step that neither takes an inode into use nor frees one. -/
theorem Inv.of_inCore {s s' : Sys} (h : Inv s) (hcore : s.inCore.Perm s'.inCore)
    (hfree : s'.tab.freeList = s.tab.freeList)
    (hfile : ∀ x, SameFile (s.tab.pool x) (s'.tab.pool x))
    (hdev : ∀ d, (s.tab.dev d).useCount ≤ (s'.tab.dev d).useCount)
    (refs_le : ∀ x ∈ s'.tab.openList, (s'.refs x : ℤ) ≤ (s'.tab.pool x).useCount)
    (refs_zero : ∀ x, x ∉ s'.tab.openList → s'.refs x = 0)
    (making : ∀ x k, .making x k ∈ s'.acts →
      (s'.tab.pool x).locked = true ∧ (s'.tab.pool x).useCount = 1)
    (rootDev : ∀ d x, (s'.tab.dev d).root = some x → (s'.tab.pool x).dev = d) : Inv s' := by
  refine ⟨fun x => ?_, refs_le, refs_zero, making, rootDev, fun x hx y hy hxv hyv hd hn => ?_,
    fun d => ?_⟩
  · rw [hfree, ← hcore.count_eq]
    exact h.partition x
  · refine h.unique x (hcore.mem_iff.mpr hx) y (hcore.mem_iff.mpr hy) ((hfile x).invalid hxv)
      ((hfile y).invalid hyv) ?_ ?_
    · rw [← (hfile x).dev, ← (hfile y).dev, hd]
    · rw [← (hfile x).inum, ← (hfile y).inum, hn]
  · have hcount : (s'.inCore.countP fun x => (s'.tab.pool x).dev = d) =
        s.inCore.countP fun x => (s.tab.pool x).dev = d := by
      rw [hcore.countP_eq]
      simp only [(hfile _).dev]
    rw [hcount]
    exact le_trans (h.mounted d) (hdev d)

/-- The invariant after a step that frees the inode `x`. -/
theorem Inv.of_freed {s s' : Sys} (h : Inv s) (x : InodeId) (hcore : s.inCore.Perm (x :: s'.inCore))
    (hfree : s'.tab.freeList = x :: s.tab.freeList)
    (hfile : ∀ y, SameFile (s.tab.pool y) (s'.tab.pool y))
    (hdev : ∀ d, (s'.tab.dev d).useCount =
      (s.tab.dev d).useCount - if (s.tab.pool x).dev = d then 1 else 0)
    (refs_le : ∀ y ∈ s'.tab.openList, (s'.refs y : ℤ) ≤ (s'.tab.pool y).useCount)
    (refs_zero : ∀ y, y ∉ s'.tab.openList → s'.refs y = 0)
    (making : ∀ y k, .making y k ∈ s'.acts →
      (s'.tab.pool y).locked = true ∧ (s'.tab.pool y).useCount = 1)
    (rootDev : ∀ d y, (s'.tab.dev d).root = some y → (s'.tab.pool y).dev = d) : Inv s' := by
  have hmem : ∀ y ∈ s'.inCore, y ∈ s.inCore := fun y hy =>
    hcore.mem_iff.mpr (List.mem_cons_of_mem _ hy)
  refine ⟨fun y => ?_, refs_le, refs_zero, making, rootDev, fun y hy z hz hyv hzv hd hn => ?_,
    fun d => ?_⟩
  · have hpart := h.partition y
    rw [hcore.count_eq, List.count_cons] at hpart
    rw [hfree, List.count_cons]
    omega
  · refine h.unique y (hmem y hy) z (hmem z hz) ((hfile y).invalid hyv) ((hfile z).invalid hzv) ?_ ?_
    · rw [← (hfile y).dev, ← (hfile z).dev, hd]
    · rw [← (hfile y).inum, ← (hfile z).inum, hn]
  · have hold := h.mounted d
    rw [hcore.countP_eq, List.countP_cons] at hold
    rw [hdev d]
    simp only [(hfile _).dev, decide_eq_true_eq] at hold ⊢
    split at hold <;> rename_i hx <;> simp only [hx, if_true, if_false] <;> push_cast at hold ⊢ <;>
      omega

/-! ## The tables after an operation -/

theorem pool_addUse (t : Tables) (x y : InodeId) :
    (t.addUse x).pool y =
      { t.pool y with useCount := (t.pool y).useCount + if y = x then 1 else 0 } := by
  by_cases h : y = x
  · subst h; simp [Tables.addUse, Tables.set]
  · simp [Tables.addUse, Tables.set, h]

theorem pool_dropUse (t : Tables) (x y : InodeId) :
    (t.dropUse x).pool y =
      { t.pool y with useCount := (t.pool y).useCount - if y = x then 1 else 0 } := by
  by_cases h : y = x
  · subst h; simp [Tables.dropUse, Tables.set]
  · simp [Tables.dropUse, Tables.set, h]

theorem pool_makeDone (t : Tables) (x y : InodeId) :
    (t.makeDone x).pool y =
      { t.pool y with locked := if y = x then false else (t.pool y).locked } := by
  by_cases h : y = x
  · subst h; simp [Tables.makeDone, Tables.set]
  · simp [Tables.makeDone, Tables.set, h]

theorem dev_setDev (t : Tables) (d d' : DevId) (v : Device) :
    (t.setDev d v).dev d' = if d' = d then v else t.dev d' := by
  simp only [Tables.setDev, Function.update_apply]

@[simp] theorem pool_setDev (t : Tables) (d : DevId) (v : Device) : (t.setDev d v).pool = t.pool :=
  rfl

theorem root_releaseDevice (t : Tables) (d d' : DevId) :
    ((t.releaseDevice d).dev d').root = (t.dev d').root := by
  simp only [Tables.releaseDevice, dev_setDev]
  split
  · rename_i h; rw [h]
  · rfl

theorem useCount_releaseDevice (t : Tables) (d d' : DevId) :
    ((t.releaseDevice d).dev d').useCount =
      (t.dev d').useCount - if d = d' then 1 else 0 := by
  simp only [Tables.releaseDevice, dev_setDev]
  by_cases h : d' = d
  · simp [h]
  · simp [h, Ne.symm h]

/-- References are counted alike where holders, devices and calls agree. -/
theorem refs_congr {s s' : Sys} {x : InodeId} (hheld : s'.held x = s.held x)
    (hdev : (s'.tab.pool x).dev = (s.tab.pool x).dev)
    (hroot : ∀ d, (s'.tab.dev d).root = (s.tab.dev d).root)
    (hacts : actRefs s'.acts x = actRefs s.acts x) : s'.refs x = s.refs x := by
  simp only [Sys.refs, Sys.rootRef, hheld, hdev, hroot, hacts]

/-! ## `close_inode` -/

/-- What is known of an inode that a `close_inode` is about to give up. -/
structure Closing (s : Sys) (x : InodeId) : Prop where
  isOpen : x ∈ s.tab.openList
  refs_lt : (s.refs x : ℤ) + 1 ≤ (s.tab.pool x).useCount
  refs_le : ∀ y, y ≠ x → y ∈ s.tab.openList → (s.refs y : ℤ) ≤ (s.tab.pool y).useCount
  refs_zero : ∀ y, y ≠ x → y ∉ s.tab.openList → s.refs y = 0
  making : ∀ y k, .making y k ∈ s.acts →
    y ≠ x ∧ (s.tab.pool y).locked = true ∧ (s.tab.pool y).useCount = 1

theorem Inv.closing {s : Sys} {x : InodeId} (h : Inv { s with acts := .closing x :: s.acts }) :
    Closing s x := by
  have hrefs : ∀ y, ({ s with acts := .closing x :: s.acts } : Sys).refs y =
      s.refs y + if x = y then 1 else 0 := by
    intro y
    show s.held y + s.rootRef y + actRefs (.closing x :: s.acts) y = _
    rw [actRefs_cons, actRefs_closing, Sys.refs]
    omega
  have hother : ∀ y, y ≠ x →
      ({ s with acts := .closing x :: s.acts } : Sys).refs y = s.refs y := by
    intro y hy
    rw [hrefs, if_neg (Ne.symm hy), Nat.add_zero]
  have hopen : x ∈ s.tab.openList := h.mem_open (by rw [hrefs, if_pos rfl]; omega)
  have hlt : (s.refs x : ℤ) + 1 ≤ (s.tab.pool x).useCount := by
    have hle := h.refs_le x hopen
    rw [hrefs, if_pos rfl] at hle
    exact_mod_cast hle
  refine ⟨hopen, hlt, fun y hy ho => ?_, fun y hy ho => ?_, fun y k hk => ?_⟩
  · rw [← hother y hy]
    exact h.refs_le y ho
  · rw [← hother y hy]
    exact h.refs_zero y ho
  · have hm := h.making y k (List.mem_cons_of_mem _ hk)
    refine ⟨?_, hm⟩
    -- who makes an inode has the only reference to it
    rintro rfl
    have hone := (h.refs_of_making (List.mem_cons_of_mem _ hk)).1
    rw [hrefs, if_pos rfl] at hone
    have hpos : 0 < s.refs y := by
      have := List.count_pos_iff.mpr hk
      unfold Sys.refs actRefs
      cases k <;> omega
    omega

theorem sameFile_dropUse (t : Tables) (x y : InodeId) :
    SameFile (t.pool y) ((t.dropUse x).pool y) := by
  rw [pool_dropUse]
  exact ⟨rfl, rfl, id⟩

theorem Closing.making_dropUse {s : Sys} {x : InodeId} (hc : Closing s x) {y : InodeId} {k : Origin}
    (hk : .making y k ∈ s.acts) :
    ((s.tab.dropUse x).pool y).locked = true ∧ ((s.tab.dropUse x).pool y).useCount = 1 := by
  obtain ⟨hne, hl, hu⟩ := hc.making y k hk
  rw [pool_dropUse]
  simp [hne, hl, hu]

/-- The inodes that stay open when the last reference to `x` goes. -/
theorem Closing.refs_le_erase {s : Sys} {x : InodeId} (hc : Closing s x)
    (hnot : x ∉ s.tab.openList.erase x) {y : InodeId} (hy : y ∈ s.tab.openList.erase x) :
    (s.refs y : ℤ) ≤ ((s.tab.dropUse x).pool y).useCount := by
  have hne : y ≠ x := fun he => hnot (he ▸ hy)
  rw [pool_dropUse]
  simp only [hne, if_false, sub_zero]
  exact hc.refs_le y hne (List.mem_of_mem_erase hy)

theorem Closing.refs_zero_erase {s : Sys} {x : InodeId} (hc : Closing s x)
    (hzero : ((s.tab.dropUse x).pool x).useCount = 0) {y : InodeId}
    (hy : y ∉ s.tab.openList.erase x) : s.refs y = 0 := by
  by_cases hyx : y = x
  · have hlt := hc.refs_lt
    rw [pool_dropUse] at hzero
    simp only [if_true] at hzero
    rw [hyx]
    omega
  · exact hc.refs_zero y hyx fun ho => hy ((List.mem_erase_of_ne hyx).mpr ho)

/-- A `close_inode` that has written the inode gives up its reference. -/
theorem inv_drop {s : Sys} {x : InodeId} (nolinks : Bool)
    (h : Inv { s with acts := .closing x :: s.acts }) : Inv (s.drop x nolinks) := by
  have hc := h.closing
  have hroot : ∀ d y, (s.tab.dev d).root = some y → ((s.tab.dropUse x).pool y).dev = d := by
    intro d y hy
    rw [(sameFile_dropUse s.tab x y).dev]
    exact h.rootDev d y hy
  have hperm : s.tab.openList.Perm (x :: s.tab.openList.erase x) := List.perm_cons_erase hc.isOpen
  unfold Sys.drop
  by_cases hzero : ((s.tab.dropUse x).pool x).useCount = 0
  · simp only [hzero, if_true]
    split
    · -- the file goes too: the inode moves from the open list to those being deleted
      have hrefs : ∀ y, Sys.refs { s with
          tab := (s.tab.dropUse x).unlink x, acts := .deleting x :: s.acts } y = s.refs y := by
        intro y
        refine refs_congr rfl (sameFile_dropUse s.tab x y).dev (fun _ => rfl) ?_
        rw [actRefs_cons, actRefs_deleting, Nat.add_zero]
      refine h.of_inCore ?_ rfl (sameFile_dropUse s.tab x) (fun d => le_refl _) (fun y hy => ?_)
        (fun y hy => ?_) (fun y k hk => ?_) hroot
      · exact (hperm.append_right _).trans List.perm_middle.symm
      · rw [hrefs]
        exact hc.refs_le_erase (h.not_mem_erase x) hy
      · rw [hrefs]
        exact hc.refs_zero_erase hzero hy
      · exact hc.making_dropUse (List.mem_of_ne_of_mem (by simp) hk)
    · have hrefs : ∀ y, Sys.refs { s with
          tab := ((s.tab.dropUse x).unlink x).freeInode x } y = s.refs y := fun y =>
        refs_congr rfl (sameFile_dropUse s.tab x y).dev (fun _ => root_releaseDevice _ _ _) rfl
      refine h.of_freed x (hperm.append_right _) rfl (sameFile_dropUse s.tab x) (fun d => ?_)
        (fun y hy => ?_) (fun y hy => ?_) (fun y k hk => hc.making_dropUse hk) (fun d y hy => ?_)
      · show ((Tables.releaseDevice _ _).dev d).useCount = _
        rw [useCount_releaseDevice]
        show _ - (if ((s.tab.dropUse x).pool x).dev = d then 1 else 0) = _
        rw [(sameFile_dropUse s.tab x x).dev]
        rfl
      · rw [hrefs]
        exact hc.refs_le_erase (h.not_mem_erase x) hy
      · rw [hrefs]
        exact hc.refs_zero_erase hzero hy
      · exact hroot d y ((root_releaseDevice _ _ _).symm.trans hy)
  · simp only [hzero, if_false]
    have hrefs : ∀ y, Sys.refs { s with tab := s.tab.dropUse x } y = s.refs y := fun y =>
      refs_congr rfl (sameFile_dropUse s.tab x y).dev (fun _ => rfl) rfl
    refine h.of_inCore (List.Perm.refl _) rfl (sameFile_dropUse s.tab x) (fun d => le_refl _)
      (fun y hy => ?_) (fun y hy => ?_) (fun y k hk => hc.making_dropUse hk) hroot
    · rw [hrefs]
      show _ ≤ ((s.tab.dropUse x).pool y).useCount
      rw [pool_dropUse]
      by_cases hyx : y = x
      · subst hyx
        have := hc.refs_lt
        simp only [if_true]
        omega
      · simp only [hyx, if_false, sub_zero]
        exact hc.refs_le y hyx hy
    · rw [hrefs]
      have hyx : y ≠ x := fun he => hy (he ▸ hc.isOpen)
      exact hc.refs_zero y hyx hy

end Vmm386.Fs.InodeCache
