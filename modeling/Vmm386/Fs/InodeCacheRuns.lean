import Vmm386.Fs.InodeCacheTheorems

/-!
# Runs of the inode cache

`make_inode`, the device functions, and the steps and runs of the inode cache. The failure
path of `make_inode` takes the head of the open list for the inode it has put there. Other
calls have run since then; where they have put another inode in front, it is lost.
-/

namespace Vmm386.Fs.InodeCache

/-! ## `make_inode` and `dup_inode` -/

/-- One more user of an inode nobody is making. -/
theorem inv_addUse {s : Sys} (h : Inv s) {x : InodeId} (hx : ∀ k, .making x k ∉ s.acts) :
    Inv { s with tab := s.tab.addUse x } := by
  have hfile : ∀ y, SameFile (s.tab.pool y) ((s.tab.addUse x).pool y) := by
    intro y
    rw [pool_addUse]
    exact ⟨rfl, rfl, id⟩
  have hrefs : ∀ y, Sys.refs { s with tab := s.tab.addUse x } y = s.refs y := fun y =>
    refs_congr rfl (hfile y).dev (fun _ => rfl) rfl
  refine h.of_inCore (List.Perm.refl _) rfl hfile (fun d => le_refl _) (fun y hy => ?_)
    (fun y hy => ?_) (fun y k hk => ?_) (fun d y hy => ?_)
  · rw [hrefs]
    show _ ≤ ((s.tab.addUse x).pool y).useCount
    have hle := h.refs_le y hy
    rw [pool_addUse]
    show _ ≤ (s.tab.pool y).useCount + if y = x then 1 else 0
    split <;> omega
  · rw [hrefs]
    exact h.refs_zero y hy
  · have hne : y ≠ x := by
      rintro rfl
      exact hx k hk
    show ((s.tab.addUse x).pool y).locked = true ∧ ((s.tab.addUse x).pool y).useCount = 1
    rw [pool_addUse]
    simp [hne, h.making y k hk]
  · rw [(hfile y).dev]
    exact h.rootDev d y hy

/-- Handing out a reference adds at most one to the references of the inode. -/
theorem refs_deliver_le (s : Sys) {dev : DevId} {x : InodeId} (hdev : (s.tab.pool x).dev = dev)
    (k : Origin) (y : InodeId) :
    (s.deliver dev (some x) k).refs y ≤ s.refs y + if y = x then 1 else 0 := by
  cases k with
  | caller =>
    show Function.update s.held x (s.held x + 1) y + s.rootRef y + actRefs s.acts y ≤ _
    rw [Function.update_apply, Sys.refs]
    split
    · rename_i hy; subst hy; omega
    · omega
  | validate =>
    have hroot : (s.deliver dev (some x) .validate).rootRef y ≤
        s.rootRef y + if y = x then 1 else 0 := by
      simp only [Sys.deliver, Sys.rootRef, pool_setDev, dev_setDev]
      by_cases hd : (s.tab.pool y).dev = dev
      · by_cases hyx : y = x
        · simp only [hyx, if_true]
          split <;> split <;> omega
        · simp [hd, hyx, Ne.symm hyx]
      · simp only [hd, if_false]
        omega
    show s.held y + (s.deliver dev (some x) .validate).rootRef y + actRefs s.acts y ≤ _
    rw [Sys.refs]
    omega

/-- A reference is handed out that `use_count` already counts. -/
theorem inv_deliver_some {s : Sys} (h : Inv s) {dev : DevId} {x : InodeId}
    (hx : x ∈ s.tab.openList) (hlt : (s.refs x : ℤ) + 1 ≤ (s.tab.pool x).useCount)
    (hdev : (s.tab.pool x).dev = dev) (k : Origin) : Inv (s.deliver dev (some x) k) := by
  have hrefs := refs_deliver_le s hdev k
  have htab : (s.deliver dev (some x) k).tab.openList = s.tab.openList ∧
      (s.deliver dev (some x) k).tab.freeList = s.tab.freeList ∧
      (s.deliver dev (some x) k).tab.pool = s.tab.pool ∧
      (s.deliver dev (some x) k).acts = s.acts := by
    cases k <;> exact ⟨rfl, rfl, rfl, rfl⟩
  obtain ⟨hopen, hfree, hpool, hacts⟩ := htab
  refine h.of_inCore ?_ hfree (fun y => ?_) (fun d => ?_) (fun y hy => ?_) (fun y hy => ?_)
    (fun y k' hk => ?_) (fun d y hy => ?_)
  · rw [Sys.inCore, Sys.inCore, hopen, hacts]
  · rw [hpool]
    exact SameFile.refl _
  · cases k with
    | caller => exact le_refl _
    | validate =>
      simp only [Sys.deliver, dev_setDev]
      split
      · rename_i hd; rw [hd]
      · exact le_refl _
  · rw [hopen] at hy
    have hle := h.refs_le y hy
    have hadd := hrefs y
    rw [hpool]
    split at hadd
    · rename_i hyx; subst hyx; omega
    · omega
  · rw [hopen] at hy
    have hyx : y ≠ x := fun he => hy (he ▸ hx)
    have hadd := hrefs y
    rw [if_neg hyx, h.refs_zero y hy] at hadd
    omega
  · rw [hacts] at hk
    rw [hpool]
    exact h.making y k' hk
  · rw [hpool]
    cases k with
    | caller => exact h.rootDev d y hy
    | validate =>
      simp only [Sys.deliver, dev_setDev] at hy
      split at hy
      · rename_i hd
        cases hy
        rw [hd, hdev]
      · exact h.rootDev d y hy

/-- Changing flags and dropping root pointers of devices. -/
theorem inv_dropRoots {s : Sys} (h : Inv s) {dev : DevId → Device}
    (hroot : ∀ d x, (dev d).root = some x → (s.tab.dev d).root = some x)
    (hcount : ∀ d, (dev d).useCount = (s.tab.dev d).useCount) :
    Inv { s with tab := { s.tab with dev } } := by
  have hrefs : ∀ x, Sys.refs { s with tab := { s.tab with dev } } x ≤ s.refs x := by
    intro x
    have : Sys.rootRef { s with tab := { s.tab with dev } } x ≤ s.rootRef x := by
      simp only [Sys.rootRef]
      split
      · rename_i hr
        rw [if_pos (hroot _ _ hr)]
      · omega
    show s.held x + _ + actRefs s.acts x ≤ s.held x + s.rootRef x + actRefs s.acts x
    omega
  refine h.of_inCore (List.Perm.refl _) rfl (fun x => SameFile.refl _)
    (fun d => (hcount d).ge) (fun x hx => ?_) (fun x hx => ?_) h.making
    (fun d x hx => h.rootDev d x (hroot d x hx))
  · exact le_trans (by exact_mod_cast hrefs x) (h.refs_le x hx)
  · have := h.refs_zero x hx
    have := hrefs x
    omega

theorem inv_deliver_none {s : Sys} (h : Inv s) (dev : DevId) (k : Origin) :
    Inv (s.deliver dev none k) := by
  cases k with
  | caller => exact h
  | validate =>
    refine inv_dropRoots h (fun d x hx => ?_) fun d => ?_
    · rw [Function.update_apply] at hx
      split at hx
      · cases hx
      · exact hx
    · rw [Function.update_apply]
      split
      · rename_i hd; rw [hd]
      · rfl

/-- The search finds an open, valid inode. -/
theorem find_eq_some {t : Tables} {dev : DevId} {inum : ULong} {x : InodeId}
    (h : t.find dev inum = some x) : x ∈ t.openList ∧ (t.pool x).dev = dev := by
  refine ⟨List.mem_of_find?_eq_some h, ?_⟩
  have := List.find?_some h
  simp only [Bool.and_eq_true, beq_iff_eq] at this
  exact this.1.2

theorem find_eq_none {t : Tables} {dev : DevId} {inum : ULong} (h : t.find dev inum = none)
    {x : InodeId} (hx : x ∈ t.openList) :
    ¬ ((t.pool x).invalid = false ∧ (t.pool x).dev = dev ∧ (t.pool x).inum = inum) := by
  rintro ⟨hv, hd, hn⟩
  have := List.find?_eq_none.mp h x hx
  simp [hv, hd, hn] at this

/-- `make_inode` takes an inode into use that is neither open nor being deleted. -/
theorem inv_insert {s : Sys} (h : Inv s) {dev : DevId} {inum : ULong} {x : InodeId}
    {xs : List InodeId} (k : Origin) (hfree : s.tab.freeList = x :: xs)
    (hnew : ∀ y ∈ s.inCore, ¬ ((s.tab.pool y).invalid = false ∧ (s.tab.pool y).dev = dev ∧
      (s.tab.pool y).inum = inum)) :
    Inv { s with tab := s.tab.insert dev inum x, acts := .making x k :: s.acts } := by
  have hcount : s.inCore.count x = 0 := by
    have := h.partition x
    rw [hfree, List.count_cons_self] at this
    omega
  have hcore : x ∉ s.inCore := List.count_eq_zero.mp hcount
  have hopen : x ∉ s.tab.openList := fun hx => hcore (List.mem_append_left _ hx)
  have hzero := h.refs_zero x hopen
  have hnoroot : ∀ d, (s.tab.dev d).root ≠ some x := by
    intro d hd
    have : s.rootRef x = 1 := by rw [Sys.rootRef, h.rootDev d x hd, if_pos hd]
    unfold Sys.refs at hzero
    omega
  have hpool : ∀ y, y ≠ x → (s.tab.insert dev inum x).pool y = s.tab.pool y := fun y hy =>
    Function.update_of_ne hy _ _
  have hroot : ∀ d, ((s.tab.insert dev inum x).dev d).root = (s.tab.dev d).root := by
    intro d
    simp only [Tables.insert, Function.update_apply]
    split
    · rename_i hd; rw [hd]
    · rfl
  have hrefs : ∀ y, y ≠ x → Sys.refs { s with
      tab := s.tab.insert dev inum x, acts := .making x k :: s.acts } y = s.refs y := by
    intro y hy
    refine refs_congr rfl (by rw [hpool y hy]) hroot ?_
    rw [actRefs_cons, actRefs_making, if_neg (Ne.symm hy), Nat.add_zero]
  have hself : Sys.refs { s with
      tab := s.tab.insert dev inum x, acts := .making x k :: s.acts } x = 1 := by
    have hr : Sys.rootRef { s with
        tab := s.tab.insert dev inum x, acts := .making x k :: s.acts } x = 0 := by
      rw [Sys.rootRef, if_neg]
      rw [hroot]
      exact hnoroot _
    show s.held x + _ + actRefs (.making x k :: s.acts) x = 1
    rw [hr, actRefs_cons, actRefs_making, if_pos rfl]
    unfold Sys.refs at hzero
    omega
  refine ⟨fun y => ?_, fun y hy => ?_, fun y hy => ?_, fun y k' hk => ?_, fun d y hy => ?_,
    fun y hy z hz hyv hzv hd hn => ?_, fun d => ?_⟩
  · have hpart := h.partition y
    rw [hfree] at hpart
    show (x :: s.inCore).count y + s.tab.freeList.tail.count y = 1
    rw [hfree]
    simp only [List.count_cons, List.tail_cons] at hpart ⊢
    omega
  · by_cases hyx : y = x
    · rw [hyx, hself]
      show _ ≤ ((s.tab.insert dev inum x).pool x).useCount
      simp [Tables.insert]
    · rw [hrefs y hyx]
      show _ ≤ ((s.tab.insert dev inum x).pool y).useCount
      rw [hpool y hyx]
      exact h.refs_le y (List.mem_of_ne_of_mem hyx hy)
  · have hyx : y ≠ x := fun he => hy (he ▸ List.mem_cons_self)
    rw [hrefs y hyx]
    exact h.refs_zero y fun ho => hy (List.mem_cons_of_mem _ ho)
  · show ((s.tab.insert dev inum x).pool y).locked = true ∧
      ((s.tab.insert dev inum x).pool y).useCount = 1
    by_cases hyx : y = x
    · subst hyx; simp [Tables.insert]
    · rw [hpool y hyx]
      rcases List.mem_cons.mp hk with heq | hk
      · cases heq
        exact absurd rfl hyx
      · exact h.making y k' hk
  · have hy' := (hroot d).symm.trans hy
    have hyx : y ≠ x := fun he => hnoroot d (he ▸ hy')
    show ((s.tab.insert dev inum x).pool y).dev = d
    rw [hpool y hyx]
    exact h.rootDev d y hy'
  · replace hy : y ∈ x :: s.inCore := hy
    replace hz : z ∈ x :: s.inCore := hz
    have hnewpool : (s.tab.insert dev inum x).pool x = ⟨1, dev, inum, false, true⟩ := by
      simp [Tables.insert]
    by_cases hyx : y = x
    · by_cases hzx : z = x
      · rw [hyx, hzx]
      · simp only [hyx, hnewpool, hpool z hzx] at hd hn hzv
        exact absurd ⟨hzv, hd.symm, hn.symm⟩ (hnew z (List.mem_of_ne_of_mem hzx hz))
    · by_cases hzx : z = x
      · simp only [hzx, hnewpool, hpool y hyx] at hd hn hyv
        exact absurd ⟨hyv, hd, hn⟩ (hnew y (List.mem_of_ne_of_mem hyx hy))
      · simp only [hpool y hyx, hpool z hzx] at hyv hzv hd hn
        exact h.unique y (List.mem_of_ne_of_mem hyx hy) z (List.mem_of_ne_of_mem hzx hz)
          hyv hzv hd hn
  · have hold := h.mounted d
    have hcongr : (s.inCore.countP fun y => ((s.tab.insert dev inum x).pool y).dev = d) =
        s.inCore.countP fun y => (s.tab.pool y).dev = d := by
      refine List.countP_congr fun y hy => ?_
      have hyx : y ≠ x := fun he => hcore (he ▸ hy)
      rw [hpool y hyx]
    show ((1 + (x :: s.inCore).countP _ : ℕ) : ℤ) ≤ ((s.tab.insert dev inum x).dev d).useCount
    rw [List.countP_cons, hcongr]
    simp only [Tables.insert, Function.update_apply, if_true, decide_eq_true_eq]
    by_cases hd : d = dev
    · simp only [hd, if_true] at hold ⊢
      push_cast at hold ⊢
      omega
    · simp only [hd, Ne.symm hd, if_false] at hold ⊢
      push_cast at hold ⊢
      omega

/-- `make_inode` does not make an inode that is being deleted. -/
def NotDeleted (s : Sys) (dev : DevId) (inum : ULong) : Prop :=
  ∀ x, .deleting x ∈ s.acts →
    ¬ ((s.tab.pool x).invalid = false ∧ (s.tab.pool x).dev = dev ∧ (s.tab.pool x).inum = inum)

theorem mem_inCore {s : Sys} {x : InodeId} :
    x ∈ s.inCore ↔ x ∈ s.tab.openList ∨ .deleting x ∈ s.acts := by
  simp only [Sys.inCore, List.mem_append, List.mem_filterMap]
  refine or_congr_right ⟨?_, fun h => ⟨_, h, rfl⟩⟩
  rintro ⟨a, ha, hx⟩
  cases a <;> cases hx
  exact ha

theorem inv_lookup {s : Sys} (h : Inv s) {dev : DevId} {inum : ULong} (k : Origin)
    (hnew : NotDeleted s dev inum) : Inv (s.lookup dev inum k) := by
  unfold Sys.lookup
  cases hfind : s.tab.find dev inum with
  | some x =>
    obtain ⟨hx, hdev⟩ := find_eq_some hfind
    cases hlock : (s.tab.pool x).locked with
    | true =>
      simp only [hlock, if_true]
      exact (inv_cons_iff rfl _).mpr h
    | false =>
      simp only [hlock, Bool.false_eq_true, if_false]
      have hmaking : ∀ k, .making x k ∉ s.acts := by
        intro k hk
        rw [(h.making x k hk).1] at hlock
        cases hlock
      have hpool := pool_addUse s.tab x x
      rw [if_pos rfl] at hpool
      refine inv_deliver_some (inv_addUse h hmaking) hx ?_ ?_ k
      · show (Sys.refs { s with tab := s.tab.addUse x } x : ℤ) + 1 ≤
          ((s.tab.addUse x).pool x).useCount
        have hrefs : Sys.refs { s with tab := s.tab.addUse x } x = s.refs x :=
          refs_congr rfl (by rw [hpool]) (fun _ => rfl) rfl
        have hle := h.refs_le x hx
        rw [hrefs, hpool]
        show (s.refs x : ℤ) + 1 ≤ (s.tab.pool x).useCount + 1
        omega
      · show ((s.tab.addUse x).pool x).dev = dev
        rw [hpool, hdev]
  | none =>
    cases hfree : s.tab.freeList with
    | nil => exact inv_deliver_none h dev k
    | cons x xs =>
      refine inv_insert h k hfree fun y hy => ?_
      rcases mem_inCore.mp hy with hy | hy
      · exact find_eq_none hfind hy
      · exact hnew y hy

/-- `make_inode` has read its inode, and has a reference to hand out. -/
theorem inv_makeDone {s : Sys} {x : InodeId} {k : Origin}
    (h : Inv { s with acts := .making x k :: s.acts }) :
    Inv { s with tab := s.tab.makeDone x } ∧ x ∈ s.tab.openList ∧
      (Sys.refs { s with tab := s.tab.makeDone x } x : ℤ) + 1 ≤
        ((s.tab.makeDone x).pool x).useCount := by
  have hm : .making x k ∈ ({ s with acts := .making x k :: s.acts } : Sys).acts :=
    List.mem_cons_self
  obtain ⟨hone, hact, -, -, hopen⟩ := h.refs_of_making hm
  have huse : (s.tab.pool x).useCount = 1 := (h.making x k hm).2
  have hfile : ∀ y, SameFile (s.tab.pool y) ((s.tab.makeDone x).pool y) := by
    intro y
    rw [pool_makeDone]
    exact ⟨rfl, rfl, id⟩
  have hrefs : ∀ y, Sys.refs { s with tab := s.tab.makeDone x } y + (if x = y then 1 else 0) =
      ({ s with acts := .making x k :: s.acts } : Sys).refs y := by
    intro y
    have heq : Sys.refs { s with tab := s.tab.makeDone x } y = s.refs y :=
      refs_congr rfl (hfile y).dev (fun _ => rfl) rfl
    rw [heq]
    show s.held y + s.rootRef y + actRefs s.acts y + _ =
      s.held y + s.rootRef y + actRefs (.making x k :: s.acts) y
    rw [actRefs_cons, actRefs_making]
    omega
  have hzero : Sys.refs { s with tab := s.tab.makeDone x } x = 0 := by
    have := hrefs x
    rw [if_pos rfl, hone] at this
    omega
  refine ⟨?_, hopen, ?_⟩
  · refine h.of_inCore (List.Perm.refl _) rfl hfile (fun d => le_refl _) (fun y hy => ?_)
      (fun y hy => ?_) (fun y k' hk => ?_) (fun d y hy => ?_)
    · have hle := h.refs_le y hy
      have hadd := hrefs y
      show _ ≤ ((s.tab.makeDone x).pool y).useCount
      rw [pool_makeDone]
      show _ ≤ (s.tab.pool y).useCount
      replace hle : (_ : ℤ) ≤ (s.tab.pool y).useCount := hle
      omega
    · have := h.refs_zero y hy
      have := hrefs y
      omega
    · replace hk : .making y k' ∈ s.acts := hk
      have hyx : y ≠ x := by
        rintro rfl
        have hpos := List.count_pos_iff.mpr hk
        rw [actRefs_cons, actRefs_making, if_pos rfl] at hact
        unfold actRefs at hact
        cases k' <;> omega
      show ((s.tab.makeDone x).pool y).locked = true ∧ ((s.tab.makeDone x).pool y).useCount = 1
      rw [pool_makeDone]
      simp only [hyx, if_false]
      exact h.making y k' (List.mem_cons_of_mem _ hk)
    · rw [(hfile y).dev]
      exact h.rootDev d y hy
  · rw [hzero, pool_makeDone]
    show (0 : ℤ) + 1 ≤ (s.tab.pool x).useCount
    omega

/-- `make_inode` has not been able to read its inode, which is at the head of the open list. -/
theorem inv_makeFailed {s : Sys} {x : InodeId} {k : Origin}
    (h : Inv { s with acts := .making x k :: s.acts }) (hhead : s.tab.openList.head? = some x) :
    Inv { s with tab := s.tab.makeFailed x } := by
  obtain ⟨xs, hxs⟩ : ∃ xs, s.tab.openList = x :: xs := by
    cases hl : s.tab.openList with
    | nil => rw [hl] at hhead; cases hhead
    | cons y ys => rw [hl] at hhead; cases hhead; exact ⟨ys, rfl⟩
  have hopen' : (s.tab.makeFailed x).openList = xs := by
    show (s.tab.openList.dropWhile (· != x)).tail = xs
    rw [hxs]
    simp
  have hm : .making x k ∈ ({ s with acts := .making x k :: s.acts } : Sys).acts :=
    List.mem_cons_self
  obtain ⟨hone, hact, -, -, -⟩ := h.refs_of_making hm
  have hnot : x ∉ xs := by
    have := h.not_mem_erase x
    rw [show ({ s with acts := .making x k :: s.acts } : Sys).tab.openList = x :: xs from hxs,
      List.erase_cons_head] at this
    exact this
  have hrefs : ∀ y, Sys.refs { s with tab := s.tab.makeFailed x } y + (if x = y then 1 else 0) =
      ({ s with acts := .making x k :: s.acts } : Sys).refs y := by
    intro y
    have heq : Sys.refs { s with tab := s.tab.makeFailed x } y = s.refs y :=
      refs_congr rfl rfl (fun _ => root_releaseDevice _ _ _) rfl
    rw [heq]
    show s.held y + s.rootRef y + actRefs s.acts y + _ =
      s.held y + s.rootRef y + actRefs (.making x k :: s.acts) y
    rw [actRefs_cons, actRefs_making]
    omega
  refine h.of_freed x ?_ rfl (fun y => SameFile.refl _) (fun d => useCount_releaseDevice _ _ _)
    (fun y hy => ?_) (fun y hy => ?_) (fun y k' hk => ?_) (fun d y hy => ?_)
  · show (s.tab.openList ++ _).Perm (x :: ((s.tab.makeFailed x).openList ++ _))
    rw [hopen', hxs]
    exact List.Perm.refl _
  · rw [hopen'] at hy
    have hle := h.refs_le y (hxs ▸ List.mem_cons_of_mem x hy)
    have hadd := hrefs y
    show _ ≤ (s.tab.pool y).useCount
    replace hle : (_ : ℤ) ≤ (s.tab.pool y).useCount := hle
    omega
  · rw [hopen'] at hy
    have hadd := hrefs y
    by_cases hyx : x = y
    · rw [if_pos hyx, ← hyx, hone] at hadd
      rw [← hyx]
      omega
    · have hz := h.refs_zero y fun ho =>
        hy (List.mem_of_ne_of_mem (Ne.symm hyx) (hxs ▸ ho))
      omega
  · exact h.making y k' (List.mem_cons_of_mem _ hk)
  · exact h.rootDev d y ((root_releaseDevice _ _ _).symm.trans hy)

/-- The end of a `close_inode` that has deleted the file. -/
theorem inv_freeInode {s : Sys} {x : InodeId}
    (h : Inv { s with acts := .deleting x :: s.acts }) : Inv { s with tab := s.tab.freeInode x } := by
  have hrefs : ∀ y, Sys.refs { s with tab := s.tab.freeInode x } y =
      ({ s with acts := .deleting x :: s.acts } : Sys).refs y := by
    intro y
    refine refs_congr rfl rfl (fun _ => root_releaseDevice _ _ _) ?_
    rw [actRefs_cons, actRefs_deleting, Nat.add_zero]
  refine h.of_freed x List.perm_middle rfl (fun y => SameFile.refl _)
    (fun d => useCount_releaseDevice _ _ _) (fun y hy => ?_) (fun y hy => ?_)
    (fun y k hk => h.making y k (List.mem_cons_of_mem _ hk)) (fun d y hy => ?_)
  · rw [hrefs]
    exact h.refs_le y hy
  · rw [hrefs]
    exact h.refs_zero y hy
  · exact h.rootDev d y ((root_releaseDevice _ _ _).symm.trans hy)

/-! ## `invalidate_device` -/

/-- Marking inodes invalid. -/
theorem inv_setInvalid {s : Sys} (h : Inv s) {pool : InodeId → CoreInode}
    (hpool : ∀ x, pool x = s.tab.pool x ∨ pool x = { s.tab.pool x with invalid := true }) :
    Inv { s with tab := { s.tab with pool } } := by
  have hfile : ∀ x, SameFile (s.tab.pool x) (pool x) := by
    intro x
    rcases hpool x with hx | hx <;> rw [hx]
    · exact SameFile.refl _
    · exact ⟨rfl, rfl, fun hi => by cases hi⟩
  have hcount : ∀ x, (pool x).useCount = (s.tab.pool x).useCount ∧
      (pool x).locked = (s.tab.pool x).locked := by
    intro x
    rcases hpool x with hx | hx <;> rw [hx] <;> exact ⟨rfl, rfl⟩
  have hrefs : ∀ x, Sys.refs { s with tab := { s.tab with pool } } x = s.refs x := fun x =>
    refs_congr rfl (hfile x).dev (fun _ => rfl) rfl
  refine h.of_inCore (List.Perm.refl _) rfl hfile (fun d => le_refl _) (fun x hx => ?_)
    (fun x hx => ?_) (fun x k hk => ?_) (fun d x hx => ?_)
  · rw [hrefs, (hcount x).1]
    exact h.refs_le x hx
  · rw [hrefs]
    exact h.refs_zero x hx
  · rw [(hcount x).1, (hcount x).2]
    exact h.making x k hk
  · rw [(hfile x).dev]
    exact h.rootDev d x hx

/-- The root pointer of a device. -/
def Tables.setRoot (t : Tables) (d : DevId) (r : Option InodeId) : Tables :=
  t.setDev d { t.dev d with root := r }

/-- `close_inode` does not look at the root pointer. -/
theorem drop_setRoot (s : Sys) (d : DevId) (r : Option InodeId) (x : InodeId) (nolinks : Bool) :
    ({ s with tab := s.tab.setRoot d r } : Sys).drop x nolinks =
      { s.drop x nolinks with tab := (s.drop x nolinks).tab.setRoot d r } := by
  have hswap : ∀ d', Tables.dev (Tables.freeInode (((s.tab.setRoot d r).dropUse x).unlink x) x) d' =
      Tables.dev (Tables.setRoot (((s.tab.dropUse x).unlink x).freeInode x) d r) d' := by
    intro d'
    simp only [Tables.freeInode, Tables.setRoot, Tables.releaseDevice, Tables.unlink,
      Tables.dropUse, Tables.set, Tables.setDev, Function.update_apply]
    split_ifs <;> simp_all
  unfold Sys.drop
  by_cases hzero : ((s.tab.dropUse x).pool x).useCount = 0
  · have hzero' : (((s.tab.setRoot d r).dropUse x).pool x).useCount = 0 := hzero
    simp only [hzero, hzero', if_true]
    by_cases hdel : (!((((s.tab.dropUse x).unlink x).pool x).invalid) && nolinks) = true
    · have hdel' : (!(((((s.tab.setRoot d r).dropUse x).unlink x).pool x).invalid) && nolinks) =
        true := hdel
      simp only [hdel, hdel', if_true]
      rfl
    · have hdel' : ¬ (!(((((s.tab.setRoot d r).dropUse x).unlink x).pool x).invalid) && nolinks) =
        true := hdel
      rw [if_neg hdel, if_neg hdel']
      have hdev := funext hswap
      exact congrArg (fun f => ({ s with
        tab := { ((s.tab.dropUse x).unlink x).freeInode x with dev := f } } : Sys)) hdev
  · have hzero' : ¬ (((s.tab.setRoot d r).dropUse x).pool x).useCount = 0 := hzero
    simp only [hzero, hzero', if_false]
    rfl

/-- The root pointer of a device becomes the reference of a `close_inode`. -/
theorem inv_closeRoot {s : Sys} (h : Inv s) {d : DevId} {r : InodeId}
    (hr : (s.tab.dev d).root = some r) :
    Inv { s with tab := s.tab.setRoot d none, acts := .closing r :: s.acts } := by
  have hdev := h.rootDev d r hr
  have hroot : ∀ d', ((s.tab.setRoot d none).dev d').root =
      if d' = d then none else (s.tab.dev d').root := by
    intro d'
    simp only [Tables.setRoot, dev_setDev]
    split <;> rfl
  have hrefs : ∀ y, Sys.refs { s with
      tab := s.tab.setRoot d none, acts := .closing r :: s.acts } y = s.refs y := by
    intro y
    have hrr : Sys.rootRef { s with tab := s.tab.setRoot d none, acts := .closing r :: s.acts } y +
        (if r = y then 1 else 0) = s.rootRef y := by
      simp only [Sys.rootRef, hroot]
      show (if (if (s.tab.pool y).dev = d then none else (s.tab.dev (s.tab.pool y).dev).root) =
        some y then 1 else 0) + _ = _
      by_cases hyd : (s.tab.pool y).dev = d
      · simp [hyd, hr]
      · have hry : r ≠ y := by
          rintro rfl
          exact hyd hdev
        simp [hyd, hry]
    show s.held y + _ + actRefs (.closing r :: s.acts) y = s.held y + s.rootRef y + actRefs s.acts y
    rw [actRefs_cons, actRefs_closing]
    omega
  refine h.of_inCore (List.Perm.refl _) rfl (fun x => SameFile.refl _) (fun d' => ?_)
    (fun x hx => ?_) (fun x hx => ?_) (fun x k hk => ?_) (fun d' x hx => ?_)
  · show _ ≤ ((s.tab.setRoot d none).dev d').useCount
    simp only [Tables.setRoot, dev_setDev]
    split
    · rename_i hd; rw [hd]
    · exact le_refl _
  · rw [hrefs]
    exact h.refs_le x hx
  · rw [hrefs]
    exact h.refs_zero x hx
  · exact h.making x k (List.mem_of_ne_of_mem (by simp) hk)
  · replace hx : ((s.tab.setRoot d none).dev d').root = some x := hx
    rw [hroot] at hx
    split at hx
    · cases hx
    · exact h.rootDev d' x hx

/-- `close_inode` of the root, before the root pointer is cleared. -/
theorem inv_drop_root {s : Sys} (h : Inv s) {d : DevId} {r : InodeId}
    (hr : (s.tab.dev d).root = some r) :
    Inv { s.drop r false with tab := (s.drop r false).tab.setRoot d none } := by
  rw [← drop_setRoot]
  exact inv_drop (s := { s with tab := s.tab.setRoot d none }) false (inv_closeRoot h hr)

theorem inv_dropRoot {s : Sys} (h : Inv s) (d : DevId) :
    Inv { s.dropRoot d with tab := (s.dropRoot d).tab.setRoot d none } := by
  unfold Sys.dropRoot
  cases hr : (s.tab.dev d).root with
  | none =>
    refine inv_dropRoots h (fun d' x hx => ?_) fun d' => ?_
    · rw [Function.update_apply] at hx
      split at hx
      · cases hx
      · exact hx
    · rw [Function.update_apply]
      split
      · rename_i hd; rw [hd]
      · rfl
  | some r =>
    have hinv : Inv { s with tab := s.tab.set r { s.tab.pool r with invalid := true } } := by
      refine inv_setInvalid h fun x => ?_
      rw [Function.update_apply]
      split
      · rename_i hx; rw [hx]; exact Or.inr rfl
      · exact Or.inl rfl
    exact inv_drop_root hinv hr

theorem inv_setFlag {s : Sys} {d : DevId} (h : Inv { s with tab := s.tab.setRoot d none }) :
    Inv { s with tab := s.tab.setDev d ⟨none, true, (s.tab.dev d).useCount⟩ } := by
  refine inv_dropRoots h (fun d' x hx => ?_) fun d' => ?_
  · rw [Function.update_apply] at hx
    split at hx
    · cases hx
    · rename_i hd
      show ((s.tab.setRoot d none).dev d').root = some x
      simp only [Tables.setRoot, dev_setDev, if_neg hd]
      exact hx
  · rw [Function.update_apply]
    simp only [Tables.setRoot, dev_setDev]
    split <;> rfl

theorem inv_invalidateDevice {s : Sys} (h : Inv s) (d : DevId) : Inv (s.invalidateDevice d) := by
  unfold Sys.invalidateDevice
  split
  · exact h
  · have hroot := inv_dropRoot h d
    generalize s.dropRoot d = s' at hroot ⊢
    have hflag := inv_setFlag hroot
    refine inv_setInvalid hflag fun x => ?_
    split
    · exact Or.inr rfl
    · exact Or.inl rfl

/-! ## Steps and runs -/

/-- A reference held by a caller becomes the reference of a `close_inode`. -/
theorem inv_closeHeld {s : Sys} (h : Inv s) {x : InodeId} (hx : s.held x ≠ 0) :
    Inv { s with held := Function.update s.held x (s.held x - 1), acts := .closing x :: s.acts } := by
  refine h.congr rfl (List.Perm.refl _) (fun y => ?_) fun y k hk =>
    List.mem_of_ne_of_mem (by simp) hk
  show Function.update s.held x (s.held x - 1) y + s.rootRef y + actRefs (.closing x :: s.acts) y =
    s.held y + s.rootRef y + actRefs s.acts y
  rw [actRefs_cons, actRefs_closing, Function.update_apply]
  by_cases hyx : y = x
  · subst hyx
    simp only [if_true]
    omega
  · simp only [hyx, Ne.symm hyx, if_false]
    omega

theorem inv_dupInode {s : Sys} (h : Inv s) {x : InodeId} (hx : s.Referenced x) :
    Inv (({ s with tab := s.tab.addUse x } : Sys).deliver (s.tab.pool x).dev (some x) .caller) := by
  have hpos : 0 < s.held x + s.rootRef x := by
    rcases hx with hheld | hroot
    · omega
    · rw [Sys.rootRef, if_pos hroot]
      omega
  have hopen : x ∈ s.tab.openList := h.mem_open (by unfold Sys.refs; omega)
  have hmaking : ∀ k, .making x k ∉ s.acts := by
    intro k hk
    have := h.refs_of_making hk
    omega
  have hpool := pool_addUse s.tab x x
  rw [if_pos rfl] at hpool
  have hrefs : Sys.refs { s with tab := s.tab.addUse x } x = s.refs x :=
    refs_congr rfl (by rw [hpool]) (fun _ => rfl) rfl
  refine inv_deliver_some (inv_addUse h hmaking) hopen ?_ ?_ .caller
  · have hle := h.refs_le x hopen
    show (Sys.refs { s with tab := s.tab.addUse x } x : ℤ) + 1 ≤ ((s.tab.addUse x).pool x).useCount
    rw [hrefs, hpool]
    show (s.refs x : ℤ) + 1 ≤ (s.tab.pool x).useCount + 1
    omega
  · show ((s.tab.addUse x).pool x).dev = _
    rw [hpool]

/-- A call that goes on. -/
theorem inv_resume {s : Sys} {a : Act} {ok nolinks : Bool} {acts : List Act}
    (h : Inv { s with acts := a :: acts })
    (hhead : ∀ x k, a = .making x k → ok = false → s.tab.openList.head? = some x)
    (hnew : ∀ dev inum, Label.looksUp (.resume a ok nolinks) = some (dev, inum) →
      NotDeleted { s with acts } dev inum) :
    Inv (({ s with acts } : Sys).resume ok nolinks a) := by
  cases a with
  | waiting dev inum k =>
    have hidle : Act.inode (.waiting dev inum k) = none := rfl
    exact inv_lookup ((inv_cons_iff hidle _).mp h) k (hnew dev inum rfl)
  | making x k =>
    cases ok with
    | true =>
      obtain ⟨hdone, hopen, hlt⟩ := inv_makeDone (s := { s with acts }) h
      refine inv_deliver_some hdone hopen hlt ?_ k
      show ((s.tab.makeDone x).pool x).dev = (s.tab.pool x).dev
      rw [pool_makeDone]
    | false => exact inv_deliver_none (inv_makeFailed (s := { s with acts }) h (hhead x k rfl rfl)) _ k
  | closing x => exact inv_drop (s := { s with acts }) nolinks h
  | deleting x => exact inv_freeInode (s := { s with acts }) h
  | reading dev =>
    have hidle : Act.inode (.reading dev) = none := rfl
    have h' := (inv_cons_iff hidle _).mp h
    cases ok with
    | false => exact h'
    | true =>
      have hset : Inv { s with
          tab := s.tab.setDev dev { s.tab.dev dev with invalid := false }, acts } := by
        refine inv_dropRoots h' (fun d x hx => ?_) fun d => ?_
        · rw [Function.update_apply] at hx
          split at hx
          · rename_i hd; rw [hd]; exact hx
          · exact hx
        · rw [Function.update_apply]
          split
          · rename_i hd; rw [hd]
          · rfl
      have hnext : Act.inode (.validated dev) = none := rfl
      exact (inv_cons_iff (s := { s with
        tab := s.tab.setDev dev { s.tab.dev dev with invalid := false } }) hnext acts).mpr hset
  | validated dev =>
    have hidle : Act.inode (.validated dev) = none := rfl
    exact inv_lookup ((inv_cons_iff hidle _).mp h) .validate (hnew dev ROOT_INUM rfl)

/-- Steps that satisfy the condition keep the invariant. -/
theorem inv_step : Runs.Preserves Sys.step StepOk Inv := by
  intro s l s' h hok hstep
  cases l with
  | makeInode dev inum =>
    cases hstep
    exact inv_lookup h .caller (hok.notDeleted dev inum rfl)
  | dupInode x =>
    simp only [Sys.step] at hstep
    split at hstep
    · rename_i hx
      cases hstep
      exact inv_dupInode h hx
    · cases hstep
  | closeInode x nolinks =>
    simp only [Sys.step] at hstep
    split at hstep
    · cases hstep
    · rename_i hx
      have hclose := inv_closeHeld h hx
      split at hstep
      · cases hstep
        exact inv_drop nolinks hclose
      · cases hstep
        exact hclose
  | invalidateDevice dev =>
    cases hstep
    exact inv_invalidateDevice h dev
  | validateDevice dev =>
    simp only [Sys.step] at hstep
    split at hstep
    · cases hstep
      exact (inv_cons_iff rfl _).mpr h
    · cases hstep
      exact h
  | resume a ok nolinks =>
    simp only [Sys.step] at hstep
    split at hstep
    · rename_i ha
      cases hstep
      refine inv_resume (h.perm (List.perm_cons_erase ha)) (fun x k hx hfail => ?_)
        fun dev inum hl x hx => ?_
      · subst hx hfail
        exact hok.atHead x k nolinks rfl
      · exact hok.notDeleted dev inum hl x (List.mem_of_mem_erase hx)
    · cases hstep

theorem inv_init : Inv Sys.init := by
  have hrefs : ∀ x, Sys.init.refs x = 0 := fun x => rfl
  refine ⟨fun x => ?_, fun x hx => ?_, fun x _ => hrefs x, fun x k hk => ?_, fun d x hx => ?_,
    fun x hx => ?_, fun d => ?_⟩
  · show 0 + (List.finRange NR_INODES).count x = 1
    rw [Nat.zero_add]
    exact List.count_eq_one_of_mem (List.nodup_finRange _) (List.mem_finRange x)
  · cases hx
  · cases hk
  · cases hx
  · cases hx
  · exact le_refl _

theorem Inv.intact {s : Sys} (h : Inv s) : Intact s := by
  refine ⟨h.partition, fun x hx => h.mem_open ?_, h.unique⟩
  unfold Sys.refs
  rcases hx with hheld | ⟨d, hd⟩ | hclosing | ⟨k, hk⟩
  · omega
  · have : s.rootRef x = 1 := by rw [Sys.rootRef, h.rootDev d x hd, if_pos hd]
    omega
  · have := List.count_pos_iff.mpr hclosing
    unfold actRefs
    omega
  · have := List.count_pos_iff.mpr hk
    unfold actRefs
    cases k <;> omega

/-- One `make_inode` whose read fails, and one whose read succeeds, after each other. -/
def failThenMake : List Label :=
  [.makeInode 1 5, .resume (.making 0 .caller) false false, .makeInode 2 0,
    .resume (.making 0 .caller) true false]

/-- While the first `make_inode` reads, a second one puts its inode in front and succeeds;
then the first one fails. -/
def failBehindMake : List Label :=
  [.makeInode 1 5, .makeInode 2 0, .resume (.making 1 .caller) true false,
    .resume (.making 0 .caller) false false]

end Vmm386.Fs.InodeCache
