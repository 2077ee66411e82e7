import Vmm386.Malloc.Layout

/-!
# Freeing blocks

A busy cluster becomes free. It is joined with the free clusters beside it, and what is at the end of the
heap goes back to the system.
-/

namespace Vmm386.Malloc

open Pieces TwoWay Table

namespace Heap

variable {h : Heap} {l r segs : List Seg} {m n k : ℕ}

/-- Only entries are other ones. -/
def Entries (h h' : Heap) : Prop := ∃ info, h' = { h with heapinfo := info }

theorem Entries.refl (h : Heap) : h.Entries h := ⟨h.heapinfo, rfl⟩

theorem Entries.trans {h₁ h₂ : Heap} (h₁' : h.Entries h₁) (h₂' : h₁.Entries h₂) : h.Entries h₂ := by
  obtain ⟨_, rfl⟩ := h₁'
  obtain ⟨_, rfl⟩ := h₂'
  exact ⟨_, rfl⟩

theorem entries_setSize (b v : ℕ) : h.Entries (h.setSize b v) := ⟨_, rfl⟩

theorem entries_setNext (b v : ℕ) : h.Entries (h.setNext b v) := ⟨_, rfl⟩

theorem entries_setPrev (b v : ℕ) : h.Entries (h.setPrev b v) := ⟨_, rfl⟩

/-! ## One step each -/

/-- The cluster before a segment that is not free takes it in. -/
theorem table_grow {s : Seg} (ht : Table h.heapinfo (l ++ .free m :: s :: r))
    (hs : s.isFree = false) :
    Table (h.setSize (1 + total Seg.size l) (m + s.size)).heapinfo
      (l ++ .free (m + s.size) :: r) := by
  have hposl := fun s hs => ht.pos s (List.mem_append_left _ hs)
  have hposr := fun s hs => ht.pos s (List.mem_append_right _ (List.mem_cons_of_mem _
    (List.mem_cons_of_mem _ hs)))
  have hm := ht.pos (.free m) (List.mem_append_right _ List.mem_cons_self)
  obtain ⟨⟨hnext, hprev⟩, hnext', hprev'⟩ := ht.links_of_free
  rw [behind_cons_of_not hs] at hnext' hprev'
  rw [Seg.size_free] at hm
  refine ht.replace [.free m, s] [.free (m + s.size)] ?_ (fun t ht => ?_) ?_ (fun p hp => ?_)
    fun b hb => ?_
  · simp
  · rw [List.mem_singleton.mp ht, Seg.size_free]
    omega
  · simp [linked_cons_cons, linked_singleton, ← Nat.add_assoc, *]
  · rw [placed_cons, placed_nil, List.mem_singleton] at hp
    simp [hp, Seg.Right]
  · have hne : b ≠ 1 + total Seg.size l := by
      simp at hb
      omega
    simp [hne]

/-- A segment that is not free becomes free, and is linked in. -/
theorem table_linkBlock (ht : Table h.heapinfo (l ++ .busy n :: r))
    (hne : 1 + total Seg.size l ≠ before l + (h.heapinfo (before l)).size) :
    ∃ h', h.linkBlock (before l) (1 + total Seg.size l) = (1 + total Seg.size l, h') ∧
      h.Entries h' ∧ Table h'.heapinfo (l ++ .free n :: r) := by
  have hposl := fun s hs => ht.pos s (List.mem_append_left _ hs)
  have hposr := fun s hs => ht.pos s (List.mem_append_right _ (List.mem_cons_of_mem _ hs))
  have hn := ht.pos (.busy n) (List.mem_append_right _ List.mem_cons_self)
  obtain ⟨hnext, hprev⟩ := ht.links_of_not rfl
  have hright := ht.right (1 + total Seg.size l, .busy n) (by simp)
  have hbefore := before_lt hposl
  have hbehind := behind_eq_or (b := 1 + total Seg.size l + n) hposr
  rw [Seg.size_busy] at hnext hprev hn
  rw [linkBlock, if_neg hne]
  refine ⟨_, rfl, ?_, ?_⟩
  · exact (((entries_setSize _ _).trans (entries_setNext _ _)).trans
      ((entries_setPrev _ _).trans (entries_setNext _ _))).trans (entries_setPrev _ _)
  · refine ht.replace [.busy n] [.free n] rfl (fun s hs => ?_) ?_ (fun p hp => ?_) fun b hb => ?_
    · rw [List.mem_singleton.mp hs]
      exact hn
    · have hu : before l ≠ 1 + total Seg.size l := by omega
      have hv : behind (1 + total Seg.size l + n) r ≠ 1 + total Seg.size l := by omega
      simp [linked_cons_cons, linked_singleton, hnext, hu.symm, hv.symm]
    · rw [placed_cons, placed_nil, List.mem_singleton] at hp
      simp [hp, Seg.Right, hright.2]
    · have hne : b ≠ 1 + total Seg.size l := by
        simp at hb
        omega
      have hu : 1 + total Seg.size l ≠ before l := by omega
      refine ⟨by simp [hne], fun hb => ?_, fun hb => ?_⟩
      · simp [hne, hb]
      · simp only [total_cons, total_nil, Seg.size_busy, Nat.add_zero] at hb
        simp [hne, hu, hnext, hb]

/-- Two free clusters side by side become one. -/
theorem table_joinNext (ht : Table h.heapinfo (l ++ .free n :: .free k :: r)) :
    h.Entries (h.joinNext (1 + total Seg.size l)) ∧
      Table (h.joinNext (1 + total Seg.size l)).heapinfo (l ++ .free (n + k) :: r) := by
  have hposl := fun s hs => ht.pos s (List.mem_append_left _ hs)
  have hposr := fun s hs => ht.pos s (List.mem_append_right _ (List.mem_cons_of_mem _
    (List.mem_cons_of_mem _ hs)))
  have hn : 0 < n := ht.pos (.free n) (List.mem_append_right _ List.mem_cons_self)
  have hk : 0 < k := ht.pos (.free k)
    (List.mem_append_right _ (List.mem_cons_of_mem _ List.mem_cons_self))
  have hbefore := before_lt hposl
  have hbehind := behind_eq_or (b := 1 + total Seg.size l + n + k) hposr
  obtain ⟨⟨hnext, hprev⟩, hnext', -⟩ := ht.links_of_free
  have hassoc : Table h.heapinfo ((l ++ [.free n]) ++ .free k :: r) := by
    rw [← List.append_cons]
    exact ht
  obtain ⟨-, hlast, -⟩ := hassoc.links_of_free
  have hright := ht.right (1 + total Seg.size l, .free n) (by simp)
  have hright' := ht.right (1 + total Seg.size l + n, .free k) (by simp)
  change _ = 1 + total Seg.size l + n at hnext'
  simp [← Nat.add_assoc] at hlast
  simp [Seg.Right] at hright hright'
  rw [joinNext, if_pos (by rw [hright, hnext'])]
  refine ⟨((entries_setSize _ _).trans (entries_setNext _ _)).trans (entries_setPrev _ _), ?_⟩
  have hu : before l ≠ 1 + total Seg.size l := by omega
  have hd : 1 + total Seg.size l + n ≠ 1 + total Seg.size l := by omega
  have hv : behind (1 + total Seg.size l + n + k) r ≠ 1 + total Seg.size l := by omega
  refine ht.replace [.free n, .free k] [.free (n + k)] (by simp) (fun s hs => ?_) ?_
    (fun p hp => ?_) fun b hb => ?_
  · rw [List.mem_singleton.mp hs, Seg.size_free]
    omega
  · simp [linked_cons_cons, linked_singleton, ← Nat.add_assoc, hv.symm, *]
  · rw [placed_cons, placed_nil, List.mem_singleton] at hp
    subst hp
    simp [Seg.Right, *]
  · have hne : b ≠ 1 + total Seg.size l := by
      simp at hb
      omega
    refine ⟨by simp [hne], fun _ => by simp [hne], fun hb => ?_⟩
    simp only [total_cons, total_nil, Seg.size_free, Nat.add_zero, ← Nat.add_assoc] at hb
    simp [hnext', hlast, hb]

/-! ## The search -/

/-- From a cluster behind the block, back to the one before it. -/
theorem backLoop_eq {block : ℕ} {F₁ A B : List ℕ} {x fuel : ℕ}
    (hring : Linked (fun b => (h.heapinfo b).next) (fun b => (h.heapinfo b).prev) (fun _ => True)
      (0 :: ((F₁ ++ A) ++ x :: (B ++ [0]))))
    (hbefore : F₁.getLastD 0 ≤ block) (hA : ∀ y ∈ A, block < y) (hx : block < x)
    (hfuel : A.length + 2 ≤ fuel) : h.backLoop block fuel x = some (F₁.getLastD 0) := by
  induction fuel generalizing A x B with
  | zero => omega
  | succ k ih =>
    have hprev := hring.prev_eq trivial
    rw [backLoop, if_pos hx, hprev]
    rcases List.eq_nil_or_concat A with rfl | ⟨A', y, rfl⟩
    · obtain ⟨k', rfl⟩ : ∃ k', k = k' + 1 := ⟨k - 1, by simp at hfuel; omega⟩
      rw [List.append_nil, backLoop, if_neg (by omega)]
    · rw [List.concat_eq_append] at hring hA hfuel ⊢
      rw [← List.append_assoc, List.getLastD_concat]
      refine ih (A := A') (B := x :: B) ?_ (fun z hz => hA z (List.mem_append_left _ hz))
        (hA y (List.mem_append_right _ List.mem_cons_self)) ?_
      · simpa using hring
      · rw [List.length_append, List.length_singleton] at hfuel
        omega

/-- From a cluster before the block, on to the first one behind it. -/
theorem aheadLoop_eq {block : ℕ} {F B : List ℕ} {x fuel : ℕ}
    (hring : Linked (fun b => (h.heapinfo b).next) (fun b => (h.heapinfo b).prev) (fun _ => True)
      (x :: ((B ++ F) ++ [0])))
    (hbehind : F.headD 0 = 0 ∨ block ≤ F.headD 0) (hB : ∀ y ∈ B, 0 < y ∧ y < block)
    (hfuel : B.length + 1 ≤ fuel) : h.aheadLoop block fuel x = some (F.headD 0) := by
  induction B generalizing x fuel with
  | nil =>
    obtain ⟨k, rfl⟩ : ∃ k, fuel = k + 1 := ⟨fuel - 1, by simp at hfuel; omega⟩
    have hnext := hring.next_last (l := [])
    dsimp only [List.getLastD_nil] at hnext
    rw [aheadLoop, hnext]
    exact if_neg (by rw [List.nil_append]; omega)
  | cons y B ih =>
    obtain ⟨k, rfl⟩ : ∃ k, fuel = k + 1 := ⟨fuel - 1, by simp at hfuel; omega⟩
    have hy := hB y List.mem_cons_self
    have hcons := linked_cons_cons.mp hring
    have hnext := hcons.1.1
    rw [aheadLoop, hnext]
    rw [if_pos hy]
    refine ih hcons.2 (fun z hz => hB z (List.mem_cons_of_mem y hz)) ?_
    rw [List.length_cons] at hfuel
    omega

theorem freeBefore_eq {s : Seg} (ht : Table h.heapinfo (l ++ s :: r)) (hs : s.isFree = false)
    (hindex : h.heapindex ∈ 0 :: frees 1 (l ++ s :: r))
    (hfuel : (frees 1 (l ++ s :: r)).length ≤ h.heapsize) :
    h.freeBefore (1 + total Seg.size l) = some (before l) := by
  have hposl := fun s hs => ht.pos s (List.mem_append_left _ hs)
  have hposr := fun s hs => ht.pos s (List.mem_append_right _ (List.mem_cons_of_mem _ hs))
  have hsize := ht.pos s (List.mem_append_right _ List.mem_cons_self)
  have hbefore := before_lt hposl
  have hbehind := behind_eq_or (b := 1 + total Seg.size l + s.size) hposr
  have hring := ht.ring
  have hlinks := ht.links_of_not hs
  rw [frees_append, frees_cons_of_not hs] at hring hindex hfuel
  rw [List.length_append] at hfuel
  rw [freeBefore]
  rcases List.mem_append.mp (List.cons_append ▸ hindex) with hmem | hmem
  · obtain ⟨A, B, hsplit⟩ := List.append_of_mem hmem
    have hle : h.heapindex ≤ 1 + total Seg.size l := by
      rcases List.mem_cons.mp hmem with h0 | h1
      · omega
      · exact (frees_bounds hposl h1).2.le
    have hlen : B.length ≤ (frees 1 l).length := by
      have hlen := congrArg List.length hsplit
      simp at hlen
      omega
    rw [if_neg (by omega), aheadLoop_eq (F := frees (1 + total Seg.size l + s.size) r) (B := B) _
      (hbehind.imp id fun h => by rw [behind] at h; omega) _ (by omega)]
    · exact congrArg some hlinks.2
    · have hchain : (0 :: (frees 1 l ++ frees (1 + total Seg.size l + s.size) r ++ [0])) =
          A ++ h.heapindex :: ((B ++ frees (1 + total Seg.size l + s.size) r) ++ [0]) := by
        rw [List.append_assoc, ← List.cons_append, hsplit]
        simp
      rw [hchain] at hring
      exact (linked_split.mp hring).2
    · intro y hy
      have hmem : y ∈ frees 1 l := by
        cases A with
        | nil => exact (List.cons.inj hsplit).2 ▸ hy
        | cons a A =>
          rw [(List.cons.inj hsplit).2]
          exact List.mem_append_right _ (List.mem_cons_of_mem _ hy)
      have hy' := frees_bounds hposl hmem
      omega
  · obtain ⟨A, B, hsplit⟩ := List.append_of_mem hmem
    have hge := (frees_bounds hposr hmem).1
    have hlen : A.length + 1 ≤ (frees (1 + total Seg.size l + s.size) r).length := by
      have hlen := congrArg List.length hsplit
      simp at hlen
      omega
    rw [hsplit] at hring
    rw [if_pos (by omega)]
    refine backLoop_eq (A := A) (B := B) ?_ hbefore.le (fun y hy => ?_) (by omega) (by omega)
    · simpa using hring
    · have hy' : y ∈ frees (1 + total Seg.size l + s.size) r := by
        rw [hsplit]
        exact List.mem_append_left _ hy
      have hge' := (frees_bounds hposr hy').1
      omega

/-! ## The steps, with all cases -/

/-- The free cluster that a free cluster of `n` blocks behind `l` becomes. -/
def Left (l : List Seg) (n : ℕ) (l' : List Seg) (n' : ℕ) : Prop :=
  (l' = l ∧ n' = n ∧ ∀ l₁ m, l ≠ l₁ ++ [.free m]) ∨ ∃ m, l = l' ++ [.free m] ∧ n' = m + n

/-- The free cluster that a free cluster of `n` blocks before `r` becomes. -/
def Right (r : List Seg) (n : ℕ) (r' : List Seg) (n' : ℕ) : Prop :=
  (r' = r ∧ n' = n ∧ ∀ k r₁, r ≠ .free k :: r₁) ∨ ∃ k, r = .free k :: r' ∧ n' = n + k

theorem Left.total {l' : List Seg} {n' : ℕ} (hl : Left l n l' n') :
    Pieces.total Seg.size l' + n' = Pieces.total Seg.size l + n := by
  rcases hl with ⟨rfl, rfl, -⟩ | ⟨m, rfl, rfl⟩
  · rfl
  · simp
    omega

theorem Right.total {r' : List Seg} {n' : ℕ} (hr : Right r n r' n') :
    n' + Pieces.total Seg.size r' = n + Pieces.total Seg.size r := by
  rcases hr with ⟨rfl, rfl, -⟩ | ⟨k, rfl, rfl⟩
  · rfl
  · simp
    omega

theorem linkBlock_spec (ht : Table h.heapinfo (l ++ .busy n :: r)) : ∃ l' n' h', Left l n l' n' ∧
    h.linkBlock (before l) (1 + total Seg.size l) = (1 + total Seg.size l', h') ∧
    h.Entries h' ∧ Table h'.heapinfo (l' ++ .free n' :: r) := by
  have hposl := fun s hs => ht.pos s (List.mem_append_left _ hs)
  by_cases hfree : ∃ l' m, l = l' ++ [.free m]
  · obtain ⟨l', m, rfl⟩ := hfree
    have hright := ht.right _ (mem_placed 1 (l' ++ [.free m]) (.busy n) r)
    rw [← List.append_cons] at ht
    have hlast := ht.right _ (mem_placed 1 l' (.free m) (.busy n :: r))
    have hbefore : before (l' ++ [.free m]) = 1 + total Seg.size l' := by
      rw [before, frees_append, frees_free, frees_nil, List.getLastD_concat]
    refine ⟨l', m + n, _, .inr ⟨m, rfl, rfl⟩, ?_, entries_setSize _ _, table_grow ht rfl⟩
    simp only [Seg.Right] at hlast
    rw [linkBlock, hbefore, if_pos (by simp [hlast]; omega), hlast, hright.2]
    rfl
  · have hne : 1 + total Seg.size l ≠ before l + (h.heapinfo (before l)).size := by
      intro heq
      rcases List.mem_cons.mp (getLastD_mem (frees 1 l) 0) with h0 | hmem
      · rw [before, h0, ht.root] at heq
        omega
      · obtain ⟨m, hm⟩ := mem_frees.mp hmem
        have hsize := ht.right _ (by
          rw [placed_append]
          exact List.mem_append_left _ hm)
        obtain ⟨l₁, l₂, hl, hplace⟩ := split_of_mem hm
        have hnil : l₂ = [] := by
          cases l₂ with
          | nil => rfl
          | cons t l₂ =>
            have ht := hposl t (by rw [hl]; simp)
            rw [before] at heq
            simp only [Seg.Right] at hsize
            rw [hsize, hplace, hl] at heq
            simp at heq
            omega
        exact hfree ⟨l₁, m, by rw [hl, hnil]⟩
    obtain ⟨h', hlink, hentries, htable⟩ := table_linkBlock ht hne
    exact ⟨l, n, h', .inl ⟨rfl, rfl, fun l₁ m hl => hfree ⟨l₁, m, hl⟩⟩, hlink, hentries, htable⟩

theorem joinNext_spec (ht : Table h.heapinfo (l ++ .free n :: r)) : ∃ r' n', Right r n r' n' ∧
    h.Entries (h.joinNext (1 + total Seg.size l)) ∧
    Table (h.joinNext (1 + total Seg.size l)).heapinfo (l ++ .free n' :: r') := by
  by_cases hfree : ∃ k r', r = .free k :: r'
  · obtain ⟨k, r', rfl⟩ := hfree
    exact ⟨r', n + k, .inr ⟨k, rfl, rfl⟩, table_joinNext ht⟩
  · have hsame : h.joinNext (1 + total Seg.size l) = h := by
      have hright := ht.right (1 + total Seg.size l, .free n) (by simp)
      obtain ⟨-, hnext, -⟩ := ht.links_of_free
      simp only [Seg.Right] at hright
      rw [joinNext, if_neg]
      rw [hright, hnext]
      cases r with
      | nil =>
        rw [behind, frees_nil, List.headD_nil]
        omega
      | cons s r =>
        have hs : s.isFree = false := by
          cases s with
          | free k => exact absurd ⟨k, r, rfl⟩ hfree
          | busy k => rfl
          | frags log avail => rfl
          | other k => rfl
        have hpos := ht.pos s (by simp)
        have hposr := fun t ht' => ht.pos t
          (List.mem_append_right l (List.mem_cons_of_mem _ (List.mem_cons_of_mem s ht')))
        rw [behind_cons_of_not hs]
        rcases behind_eq_or (b := 1 + total Seg.size l + n + s.size) hposr with h | h
        · omega
        · omega
    rw [hsame]
    exact ⟨r, n, .inl ⟨rfl, rfl, fun k r₁ hr => hfree ⟨k, r₁, hr⟩⟩, .refl h, ht⟩

/-- What `free` changes: entries, its own variables, and the break. -/
def Freed (h h' : Heap) : Prop := ∃ info index limit brk, brk ≤ h.brk ∧
  h' = { h with heapinfo := info, heapindex := index, heaplimit := limit, brk := brk }

theorem Entries.freed {h' : Heap} (he : h.Entries h') : h.Freed h' := by
  obtain ⟨info, rfl⟩ := he
  exact ⟨info, h.heapindex, h.heaplimit, h.brk, le_rfl, rfl⟩

theorem trim_spec (ht : Table h.heapinfo (l ++ .free n :: r)) (hsp : Space h (l ++ .free n :: r)) :
    ∃ b h' segs, h.trim (1 + total Seg.size l) = (b, h') ∧ h.Freed h' ∧ Table h'.heapinfo segs ∧
      Space h' segs ∧ b ∈ 0 :: frees 1 segs ∧
      (segs = l ++ .free n :: r ∧ b = 1 + total Seg.size l ∨ segs = l ∧ r = [] ∧ h.heaplimit ≠ 0) := by
  have hn : 0 < n := ht.pos (.free n) (List.mem_append_right _ List.mem_cons_self)
  have hright := ht.right _ (mem_placed 1 l (.free n) r)
  obtain ⟨⟨hprev, hprev'⟩, hnext, hnext'⟩ := ht.links_of_free
  simp only [Seg.Right] at hright
  rw [trim, hright]
  dsimp only
  split
  · rename_i hcond
    obtain ⟨-, hlimit, hend⟩ := hcond
    have hbrk := hsp.brk
    rw [moreBreak_zero hsp.brk_lt, Nat.add_assoc, address_succ, hbrk] at hend
    have hnil : r = [] := by
      cases r with
      | nil => rfl
      | cons s r =>
        have hs := ht.pos s (List.mem_append_right _ (List.mem_cons_of_mem _ List.mem_cons_self))
        simp at hend
        omega
    subst hnil
    have hle : n * 4096 ≤ h.brk := by
      rw [hbrk]
      simp
      omega
    have hneg := moreBreak_neg (h := { h with heaplimit := h.heaplimit - n }) (n := n) hsp.brk_lt hle
    have hcast : ((-(n * BLOCKSIZE) : ℤ)) = -(n * 4096 : ℕ) := by push_cast; rfl
    rw [hcast, hneg]
    refine ⟨_, _, l, rfl, ⟨_, _, _, h.brk - n * 4096, Nat.sub_le _ _, rfl⟩, ?_, ?_, ?_,
      .inr ⟨rfl, rfl, by omega⟩⟩
    · exact (ht.unlink (fun b => by simp) (fun b => by simp [hprev', hnext])
        fun b => by simp [hprev', hnext]).dropLast rfl
    · refine ⟨hsp.base_pos, hsp.base, ?_, lt_of_le_of_lt (Nat.sub_le _ _) hsp.brk_lt⟩
      simp at hbrk
      change h.brk - n * 4096 = h.heapbase + total Seg.size l * 4096
      omega
    · simp only [prev_setPrev, prev_setNext, next_setNext, ite_self, hnext, hprev']
      exact getLastD_mem (frees 1 l) 0
  · refine ⟨_, h, _, rfl, (Entries.refl h).freed, ht, hsp, ?_, .inl ⟨rfl, rfl⟩⟩
    rw [frees_append, frees_free]
    exact List.mem_cons_of_mem _ (List.mem_append_right _ List.mem_cons_self)

/-! ## Free -/

/-- The segments after a busy cluster was freed, and where the next search begins. If `limit` is not 0,
the last free cluster may have gone back to the system. -/
def Merged (l : List Seg) (n : ℕ) (r : List Seg) (limit : ℕ) (segs : List Seg) (index : ℕ) : Prop :=
  ∃ l' n' n'' r', Left l n l' n' ∧ Right r n' r' n'' ∧
    (segs = l' ++ .free n'' :: r' ∧ index = 1 + total Seg.size l' ∨ segs = l' ∧ r' = [] ∧ limit ≠ 0)

namespace Merged

variable {limit index : ℕ}

theorem coalesced (hm : Merged l n r limit segs index) (hc : Coalesced (l ++ .busy n :: r)) :
    Coalesced segs := by
  obtain ⟨l', n', n'', r', hleft, hright, hsegs⟩ := hm
  have hl := hc.left
  have hr : Coalesced r := Coalesced.right (l := [.busy n]) hc.right
  have hl' : Coalesced l' ∧ ∀ l₁ m, l' ≠ l₁ ++ [.free m] := by
    rcases hleft with ⟨rfl, -, hnot⟩ | ⟨m, rfl, -⟩
    · exact ⟨hl, hnot⟩
    · exact ⟨hl.left, hl.not_endsFree⟩
  have hr' : Coalesced r' ∧ ∀ k r₁, r' ≠ .free k :: r₁ := by
    rcases hright with ⟨rfl, -, hnot⟩ | ⟨k, rfl, -⟩
    · exact ⟨hr, hnot⟩
    · exact ⟨Coalesced.right (l := [.free k]) hr, hr.not_startsFree⟩
  rcases hsegs with ⟨rfl, -⟩ | ⟨rfl, -, -⟩
  · exact hl'.1.free hr'.1 hl'.2 hr'.2
  · exact hl'.1

/-- Only free clusters are other ones. -/
theorem part_eq {q : Seg → Bool} (hq : ∀ k, q (.free k) = false)
    (hm : Merged l n r limit segs index) :
    part q 1 segs = part q 1 l ++ part q (1 + total Seg.size l + n) r := by
  obtain ⟨l', n', n'', r', hleft, hright, hsegs⟩ := hm
  have htotal := hleft.total
  have hl : part q 1 l = part q 1 l' := by
    rcases hleft with ⟨rfl, -, -⟩ | ⟨m, rfl, -⟩
    · rfl
    · rw [part_append, part_cons_of_neg (hq m), part_nil, List.append_nil]
  have hr : part q (1 + total Seg.size l + n) r = part q (1 + total Seg.size l' + n'') r' := by
    rcases hright with ⟨rfl, rfl, -⟩ | ⟨k, rfl, rfl⟩
    · congr 1
      omega
    · rw [part_cons_of_neg (hq k), Seg.size_free]
      congr 1
      omega
  rw [hl, hr]
  rcases hsegs with ⟨rfl, -⟩ | ⟨rfl, rfl, -⟩
  · rw [part_append, part_cons_of_neg (hq n''), Seg.size_free]
  · rw [part_nil, List.append_nil]

theorem inTable {heapsize : ℕ} (hm : Merged l n r limit segs index)
    (hin : InTable heapsize 1 (l ++ .busy n :: r)) : InTable heapsize 1 segs := by
  obtain ⟨l', n', n'', r', hleft, hright, hsegs⟩ := hm
  have htotal := hleft.total
  have hl : ∀ p ∈ placed Seg.size 1 l', p ∈ placed Seg.size 1 l := by
    rcases hleft with ⟨rfl, -, -⟩ | ⟨m, rfl, -⟩
    · exact fun p hp => hp
    · exact fun p hp => placed_append _ _ _ _ ▸ List.mem_append_left _ hp
  -- the cluster, and what is behind it
  have hr : 1 + total Seg.size l' + n'' ≤ heapsize ∧
      ∀ p ∈ placed Seg.size (1 + total Seg.size l' + n'') r',
        p ∈ placed Seg.size (1 + total Seg.size l + n) r := by
    rcases hright with ⟨rfl, rfl, -⟩ | ⟨k, rfl, rfl⟩
    · have hplace : 1 + total Seg.size l' + n'' = 1 + total Seg.size l + n := by omega
      rw [hplace]
      exact ⟨hin _ (mem_placed 1 l (.busy n) r') rfl, fun p hp => hp⟩
    · have hplace : 1 + total Seg.size l' + (n' + k) = 1 + total Seg.size l + n + k := by omega
      rw [hplace]
      refine ⟨hin (1 + total Seg.size l + n, .free k) ?_ rfl, fun p hp => List.mem_cons_of_mem _ hp⟩
      rw [placed_append]
      exact List.mem_append_right _ (List.mem_cons_of_mem _ List.mem_cons_self)
  have hin' : ∀ p, p ∈ placed Seg.size 1 l ∨ p ∈ placed Seg.size (1 + total Seg.size l + n) r →
      p.2.isOther = false → p.1 + p.2.size ≤ heapsize := by
    intro p hp
    refine hin p ?_
    rw [placed_append]
    exact List.mem_append.mpr (hp.imp id (List.mem_cons_of_mem _))
  rcases hsegs with ⟨rfl, -⟩ | ⟨rfl, -, -⟩
  · intro p hp hother
    rw [placed_append] at hp
    rcases List.mem_append.mp hp with hp | hp
    · exact hin' p (.inl (hl p hp)) hother
    rcases List.mem_cons.mp hp with rfl | hp
    · exact hr.1
    · exact hin' p (.inr (hr.2 p hp)) hother
  · exact fun p hp hother => hin' p (.inl (hl p hp)) hother

/-- What is behind a segment that is not free stays as it is. -/
theorem of_append {s : Seg} {k : List Seg} (hs : s.isFree = false)
    (hm : Merged l n (r ++ s :: k) limit segs index) :
    ∃ segs', segs = segs' ++ s :: k ∧ Merged l n r 0 segs' index := by
  obtain ⟨l', n', n'', r', hleft, hright, hsegs⟩ := hm
  obtain ⟨r₀, rfl, hright'⟩ : ∃ r₀, r' = r₀ ++ s :: k ∧ Right r n' r₀ n'' := by
    rcases hright with ⟨rfl, rfl, hnot⟩ | ⟨m, heq, rfl⟩
    · refine ⟨r, rfl, .inl ⟨rfl, rfl, fun m r₁ hr => hnot m (r₁ ++ s :: k) ?_⟩⟩
      rw [hr, List.cons_append]
    · cases r with
      | nil =>
        rw [(List.cons.inj heq).1] at hs
        cases hs
      | cons u r =>
        obtain ⟨rfl, rfl⟩ := List.cons.inj heq
        exact ⟨r, rfl, .inr ⟨m, rfl, rfl⟩⟩
  rcases hsegs with ⟨rfl, hindex⟩ | ⟨-, hnil, -⟩
  · exact ⟨l' ++ .free n'' :: r₀, by simp, l', n', n'', r₀, hleft, hright', .inl ⟨rfl, hindex⟩⟩
  · simp at hnil

/-- A free cluster at the end of the heap stays there, if none goes back to the system. -/
theorem endsFree {x : List Seg} {m : ℕ} (hm : Merged l n (x ++ [.free m]) 0 segs index) :
    ∃ x' m', segs = x' ++ [.free m'] ∧ m ≤ m' := by
  obtain ⟨l', n', n'', r', -, hright, hsegs⟩ := hm
  rcases hsegs with ⟨rfl, -⟩ | ⟨-, -, hne⟩
  · rcases hright with ⟨rfl, -, -⟩ | ⟨k, heq, hn⟩
    · exact ⟨l' ++ .free n'' :: x, m, by simp, le_rfl⟩
    · cases x with
      | nil =>
        rw [List.nil_append, List.cons.injEq, Seg.free.injEq] at heq
        exact ⟨l', n'', by rw [← heq.2], by omega⟩
      | cons u x =>
        rw [List.cons_append, List.cons.injEq] at heq
        exact ⟨l' ++ .free n'' :: x, m, by rw [← heq.2]; simp, le_rfl⟩
  · exact absurd rfl hne

theorem total (hm : Merged l n r 0 segs index) :
    Pieces.total Seg.size segs = Pieces.total Seg.size l + n + Pieces.total Seg.size r := by
  obtain ⟨l', n', n'', r', hleft, hright, hsegs⟩ := hm
  have hl := hleft.total
  have hr := hright.total
  rcases hsegs with ⟨rfl, -⟩ | ⟨-, -, hne⟩
  · simp
    omega
  · exact absurd rfl hne

end Merged

theorem freeBlocks_spec (ht : Table h.heapinfo (l ++ .busy n :: r))
    (hsp : Space h (l ++ .busy n :: r)) (hindex : h.heapindex ∈ 0 :: frees 1 (l ++ .busy n :: r))
    (hfuel : (frees 1 (l ++ .busy n :: r)).length ≤ h.heapsize) : ∃ h' segs,
    h.freeBlocks (1 + total Seg.size l) = some h' ∧ h.Freed h' ∧ Table h'.heapinfo segs ∧
      Space h' segs ∧ h'.heapindex ∈ 0 :: frees 1 segs ∧
      Merged l n r h.heaplimit segs h'.heapindex := by
  obtain ⟨l', n', h₁, hleft, hlink, he₁, ht₁⟩ := linkBlock_spec ht
  obtain ⟨r', n'', hright, he₂, ht₂⟩ := joinNext_spec ht₁
  have hentries := he₁.trans he₂
  have hsp₂ : Space (h₁.joinNext (1 + total Seg.size l')) (l' ++ .free n'' :: r') := by
    obtain ⟨info, hinfo⟩ := hentries
    have htotal := hright.total
    have htotal' := hleft.total
    have heq : total Seg.size (l' ++ .free n'' :: r') = total Seg.size (l ++ .busy n :: r) := by
      simp only [total_append, total_cons, Seg.size_busy, Seg.size_free]
      omega
    rw [hinfo]
    refine ⟨hsp.base_pos, hsp.base, ?_, hsp.brk_lt⟩
    rw [heq]
    exact hsp.brk
  obtain ⟨b, h₃, segs, htrim, hfreed, ht₃, hsp₃, hb, hsegs⟩ := trim_spec ht₂ hsp₂
  refine ⟨{ h₃ with heapindex := b }, segs, ?_, ?_, ht₃, ⟨hsp₃.1, hsp₃.2, hsp₃.3, hsp₃.4⟩, hb,
    l', n', n'', r', hleft, hright, hsegs.imp id fun h' => ⟨h'.1, h'.2.1, ?_⟩⟩
  · rw [freeBlocks, freeBefore_eq ht rfl hindex hfuel]
    simp only [Option.map_some, hlink, htrim]
  · obtain ⟨info, hinfo⟩ := hentries
    rw [hinfo] at hfreed
    obtain ⟨info', index, limit, brk, hle, rfl⟩ := hfreed
    exact ⟨info', b, limit, brk, hle, rfl⟩
  · obtain ⟨info, hinfo⟩ := hentries
    rw [hinfo] at h'
    exact h'.2.2

theorem blocks_freeBlocks (hb : Blocks h (l ++ .busy n :: r)) : ∃ h' segs,
    h.freeBlocks (1 + total Seg.size l) = some h' ∧ h.Freed h' ∧ Blocks h' segs ∧
      Merged l n r h.heaplimit segs h'.heapindex := by
  obtain ⟨h', segs, hfree, hfreed, ht, hsp, hindex, hm⟩ :=
    freeBlocks_spec hb.toTable hb.toSpace hb.index (length_frees hb.pos hb.inTable)
  refine ⟨h', segs, hfree, hfreed, ⟨ht, hsp, hindex, ?_⟩, hm⟩
  obtain ⟨info, index, limit, brk, -, rfl⟩ := hfreed
  exact hm.inTable hb.inTable

end Heap

end Vmm386.Malloc
