import Vmm386.Malloc.MallocBlocks

/-!
# The search for blocks

The free clusters are visited once around the ring. If none is large enough, the last one gets new memory
behind it, or there is a new cluster.
-/

namespace Vmm386.Malloc

open Pieces TwoWay Table

namespace Heap

variable {h : Heap} {l r segs : List Seg} {m n : ℕ}

theorem takeBlocks_allocated {h₁ : Heap} (hgrown : h.Grown h₁)
    (hused : part Seg.isUsed 1 (l ++ .free m :: r) = part Seg.isUsed 1 segs)
    (hb : Blocks h₁ (l ++ .free m :: r)) (honly : OnlyTable h₁ (l ++ .free m :: r))
    (hco : Coalesced (l ++ .free m :: r)) (hn : 0 < n) (hle : n ≤ m) : ∃ h',
    h₁.takeBlocks n (1 + total Seg.size l) = (h₁.address (1 + total Seg.size l), h') ∧
      h.Allocated h' segs n (h₁.address (1 + total Seg.size l)) := by
  obtain ⟨h', htake, htaken, hb'⟩ := takeBlocks_spec hb hn hle
  -- what is not free stays where it is
  have hrest : ∀ q : Seg → Bool, (∀ k, q (.free k) = false) →
      part q (1 + total Seg.size l + n) (rest m n r) = part q (1 + total Seg.size l + m) r := by
    intro q hq
    rw [rest]
    split
    · rw [part_cons_of_neg (hq _), Seg.size_free]
      congr 1
      omega
    · congr 1
      omega
  have hco' : Coalesced (rest m n r) := by
    have hr : Coalesced (.free m :: r) := hco.right
    rw [rest]
    split
    · exact Coalesced.free (l := []) .nil (Coalesced.right (l := [.free m]) hr)
        (fun l₁ k hnil => by simp at hnil) hr.not_startsFree
    · exact Coalesced.right (l := [.free m]) hr
  refine ⟨h', htake, l, rest m n r, hgrown.trans htaken, hb', ?_, hco.left.cons hco' rfl, ?_, ?_⟩
  · refine htaken.onlyTable (honly.congr ?_)
    rw [part_append, part_append, part_cons_of_neg rfl, part_cons_of_neg rfl, Seg.size_busy,
      hrest _ fun _ => rfl, Seg.size_free]
  · exact (htaken.address _).symm
  · rw [← hused, part_append, part_cons_of_neg rfl, Seg.size_free, hrest _ fun _ => rfl]

/-! ## The last free cluster -/

theorem prev_zero (ht : Table h.heapinfo segs) : (h.heapinfo 0).prev = before segs := by
  have hring := ht.ring
  rw [← List.nil_append [0]] at hring
  exact hring.prev_head (r := []) trivial

/-- The free cluster at the end of the heap, or the root. -/
theorem before_cases (segs : List Seg) : before segs = 0 ∨
    ∃ l m r, segs = l ++ .free m :: r ∧ before segs = 1 + total Seg.size l := by
  rcases List.mem_cons.mp (getLastD_mem (frees 1 segs) 0) with h | h
  · exact .inl h
  · obtain ⟨m, hm⟩ := mem_frees.mp h
    obtain ⟨l, r, hsegs, hplace⟩ := split_of_mem hm
    exact .inr ⟨l, m, r, hsegs, hplace⟩


theorem extendLast_spec (hb : Blocks h segs) (honly : OnlyTable h segs) (hco : Coalesced segs)
    (hlt : n * 4096 < 2 ^ 31) (hsmall : ∀ p ∈ placed Seg.size 1 segs, p.2.isFree → p.2.size < n) :
    ∃ p h', h.extendLast n = some (p, h') ∧ (p = none ∧ h.Refused h' ∨
      ∃ x m tail, p = some (1 + total Seg.size x) ∧ n ≤ m ∧ h.Grown h' ∧
        Blocks h' (x ++ .free m :: tail) ∧ OnlyTable h' (x ++ .free m :: tail) ∧
        Coalesced (x ++ .free m :: tail) ∧
        part Seg.isUsed 1 (x ++ .free m :: tail) = part Seg.isUsed 1 segs) := by
  rw [extendLast, prev_zero hb.toTable]
  dsimp only
  split
  · rename_i hcond
    obtain ⟨hne, hlimit, hend⟩ := hcond
    rw [moreBreak_zero hb.brk_lt, hb.brk] at hend
    -- the last free cluster is at the end of the heap
    rcases before_cases segs with hzero | ⟨l, m, r, rfl, hplace⟩
    · rw [hzero, hb.root] at hlimit
      omega
    have hright := hb.right _ (mem_placed 1 l (.free m) r)
    simp only [Seg.Right] at hright
    rw [hplace, hright, Nat.add_assoc, address_succ] at hend
    rw [hplace, hright]
    have hnil : r = [] := by
      cases r with
      | nil => rfl
      | cons s r =>
        have hs := hb.pos s (List.mem_append_right _ (List.mem_cons_of_mem _ List.mem_cons_self))
        simp at hend
        omega
    subst hnil
    have hm : m < n := hsmall _ (mem_placed 1 l (.free m) []) rfl
    have hlt' : (n - m) * 4096 < 2 ^ 31 :=
      lt_of_le_of_lt (Nat.mul_le_mul_right _ (Nat.sub_le n m)) hlt
    obtain ⟨p, h₁, hmore, hcases⟩ := morecore_spec hb honly hco (Nat.sub_pos_of_lt hm) hlt'
    rw [ulong_blocks hlt', hmore]
    rcases hcases with ⟨rfl, hrefused⟩ | ⟨rfl, segs', tail, hgrown, hb₁, honly₁, hmoved, hsize, htail⟩
    · exact ⟨none, h₁, rfl, .inl ⟨rfl, hrefused⟩⟩
    obtain ⟨x, m', rfl, hmle⟩ := hmoved.endsFree l m rfl
    obtain ⟨hused, hco'⟩ := part_tail htail (1 + total Seg.size x + (m' + (n - m)))
    have htail' : ∀ b, frees b tail = [] := by
      rcases htail with rfl | ⟨t, rfl⟩
      · exact fun _ => rfl
      · exact fun _ => rfl
    have hlast : (h₁.heapinfo 0).prev = 1 + total Seg.size x := by
      rw [prev_zero hb₁.toTable, before, List.append_assoc, frees_append, List.singleton_append,
        frees_free, frees_cons_of_not rfl, htail', List.getLastD_concat]
    have hbrk : h.brk ≠ 0 := by
      have hbase := hb.base_pos
      have hbrk := hb.brk
      omega
    have hassoc : (x ++ [.free m']) ++ .other (n - m) :: tail =
        x ++ .free m' :: .other (n - m) :: tail := by rw [← List.append_cons]
    rw [hassoc] at hb₁
    have hright₁ := hb₁.right _ (mem_placed 1 x (.free m') (.other (n - m) :: tail))
    have htable := table_grow hb₁.toTable rfl
    rw [Seg.size_other] at htable
    simp only [Seg.Right] at hright₁
    have hentries : h₁.Entries (h₁.setSize (1 + total Seg.size x) (m' + (n - m))) :=
      entries_setSize _ _
    refine ⟨some (1 + total Seg.size x), _, by
      simp only [Option.map_some, if_neg hbrk, hlast, hright₁],
      .inr ⟨x, m' + (n - m), tail, rfl, by omega, hgrown.trans hentries.taken, ⟨htable,
        hentries.taken.space hb₁.toSpace (by simp; omega), ?_, ?_⟩, ?_, ?_, ?_⟩⟩
    · have hindex := hb₁.index
      rw [frees_append, frees_free, frees_cons_of_not rfl] at hindex
      rw [frees_append, frees_free, htail']
      rw [htail'] at hindex
      exact hindex
    · obtain ⟨hinl, hinr⟩ := inTable_append.mp hb₁.inTable
      have htotal := hmoved.total
      simp only [total_append, total_cons, total_nil, Seg.size_free] at htotal hsize
      refine inTable_append.mpr ⟨hinl, inTable_cons.mpr ⟨fun _ => ?_, ?_⟩⟩
      · change _ ≤ h₁.heapsize
        simp only [Seg.size_free]
        omega
      · have hrest := (inTable_cons.mp (inTable_cons.mp hinr).2).2
        simp only [Seg.size_free, Seg.size_other] at hrest ⊢
        rwa [Nat.add_assoc _ m'] at hrest
    · refine hentries.taken.onlyTable (honly₁.congr ?_)
      rw [List.append_assoc, List.singleton_append, part_append, part_append, part_cons_of_neg rfl,
        part_cons_of_neg rfl, part_cons_of_neg rfl, Seg.size_free, Seg.size_free, Seg.size_busy,
        Nat.add_assoc _ m']
    · have hx := hmoved.coalesced
      refine hx.left.free hco' hx.not_endsFree ?_
      rcases htail with rfl | ⟨t, rfl⟩
      · intro _ _ hc
        cases hc
      · intro _ _ hc
        cases hc
    · rw [← hmoved.used, part_append, part_append, part_cons_of_neg rfl, part_cons_of_neg rfl,
        Seg.size_free, hused, part_nil]
  · exact ⟨none, h, rfl, .inl ⟨rfl, .refl h⟩⟩

/-! ## The search -/

/-- A failure without a trace, or blocks that are new. -/
def Served (h : Heap) (segs : List Seg) (n p : ℕ) (h' : Heap) : Prop :=
  p = 0 ∧ h.Refused h' ∨ h.Allocated h' segs n p

/-- A cluster that is large enough. -/
theorem takeBlocks_found {block : ℕ} (hb : Blocks h segs) (honly : OnlyTable h segs)
    (hco : Coalesced segs) (hn : 0 < n) (hblock : block ∈ 0 :: frees 1 segs)
    (hsize : n ≤ (h.heapinfo block).size) :
    ∃ p h', some (h.takeBlocks n block) = some (p, h') ∧ h.Served segs n p h' := by
  rcases List.mem_cons.mp hblock with rfl | hmem
  · rw [hb.root] at hsize
    omega
  · obtain ⟨m, hm⟩ := mem_frees.mp hmem
    have hright := hb.right _ hm
    simp only [Seg.Right] at hright
    obtain ⟨l, r, rfl, rfl⟩ := split_of_mem hm
    obtain ⟨h', htake, halloc⟩ :=
      takeBlocks_allocated (.refl h) rfl hb honly hco hn (hright ▸ hsize)
    exact ⟨_, h', by rw [htake], .inr halloc⟩

/-- All clusters are too small. -/
theorem extendOrCore_spec {start k : ℕ} (hb : Blocks h segs) (honly : OnlyTable h segs)
    (hco : Coalesced segs) (hn : 0 < n) (hlt : n * 4096 < 2 ^ 31)
    (hsmall : ∀ p ∈ placed Seg.size 1 segs, p.2.isFree → p.2.size < n) :
    ∃ p h', ((h.extendLast n).bind fun
      | (some block, h) => findBlocks n start (k + 1) block h
      | (none, h) => h.coreBlocks n) = some (p, h') ∧ h.Served segs n p h' := by
  obtain ⟨p, h₁, hextend, hcases⟩ := extendLast_spec hb honly hco hlt hsmall
  rw [hextend]
  rcases hcases with ⟨rfl, hrefused⟩ | ⟨x, m, tail, rfl, hle, hgrown, hb₁, honly₁, hco₁, hused⟩
  · obtain ⟨p, h₂, hcore, hcases⟩ :=
      coreBlocks_spec (hrefused.blocks hb) (hrefused.onlyTable honly) hco hn hlt
    refine ⟨p, h₂, ?_, hcases.imp (fun hc => ⟨hc.1, hrefused.trans hc.2⟩) hrefused.allocated⟩
    rw [Option.bind_some]
    exact hcore
  · obtain ⟨h₂, htake, halloc⟩ := takeBlocks_allocated hgrown hused hb₁ honly₁ hco₁ hn hle
    have hsize := hb₁.right _ (mem_placed 1 x (.free m) tail)
    simp only [Seg.Right] at hsize
    refine ⟨_, h₂, ?_, .inr halloc⟩
    simp only [Option.bind_some]
    rw [findBlocks, if_neg (by rw [hsize]; omega), htake]

/-- From a free cluster, or the root, on: those that were visited are too small. -/
theorem findBlocks_walk {start block fuel : ℕ} {ys : List ℕ} (hb : Blocks h segs)
    (honly : OnlyTable h segs) (hco : Coalesced segs) (hn : 0 < n) (hlt : n * 4096 < 2 ^ 31)
    (hring : (block :: (ys ++ [start])).IsChain fun b c => (h.heapinfo b).next = c)
    (hmem : ∀ c ∈ block :: ys, c ∈ 0 :: frees 1 segs) (hstart : start ∉ ys)
    (hsmall : ∀ c ∈ frees 1 segs, c ∈ block :: ys ∨ (h.heapinfo c).size < n)
    (hfuel : ys.length + 2 ≤ fuel) :
    ∃ p h', findBlocks n start fuel block h = some (p, h') ∧ h.Served segs n p h' := by
  induction ys generalizing block fuel with
  | nil =>
    obtain ⟨k, rfl⟩ : ∃ k, fuel = k + 2 := ⟨fuel - 2, by simp at hfuel; omega⟩
    have hnext := (List.isChain_cons_cons.mp hring).1
    rw [findBlocks, hnext, if_pos rfl]
    by_cases hsize : (h.heapinfo block).size < n
    · rw [if_pos hsize]
      refine extendOrCore_spec hb honly hco hn hlt fun p hp hfree => ?_
      obtain ⟨c, s⟩ := p
      obtain ⟨m, rfl⟩ := Seg.eq_free hfree
      have hright := hb.right _ hp
      simp only [Seg.Right] at hright
      rcases hsmall c (mem_frees.mpr ⟨m, hp⟩) with h | h
      · rw [List.mem_singleton.mp h] at hright
        exact hright ▸ hsize
      · exact hright ▸ h
    · rw [if_neg hsize]
      exact takeBlocks_found hb honly hco hn (hmem block List.mem_cons_self) (not_lt.mp hsize)
  | cons y ys ih =>
    obtain ⟨k, rfl⟩ : ∃ k, fuel = k + 1 := ⟨fuel - 1, by simp at hfuel; omega⟩
    obtain ⟨hnext, hrest⟩ := List.isChain_cons_cons.mp hring
    rw [findBlocks, hnext]
    by_cases hsize : (h.heapinfo block).size < n
    · have hne : y ≠ start := fun heq => hstart (heq ▸ List.mem_cons_self)
      rw [if_pos hsize]
      dsimp only
      rw [if_neg hne]
      refine ih hrest (fun c hc => hmem c (List.mem_cons_of_mem _ hc))
        (fun hc => hstart (List.mem_cons_of_mem _ hc)) (fun c hc => ?_)
        (by rw [List.length_cons] at hfuel; omega)
      rcases hsmall c hc with h | h
      · rcases List.mem_cons.mp h with rfl | h
        · exact .inr hsize
        · exact .inl h
      · exact .inr h
    · rw [if_neg hsize]
      exact takeBlocks_found hb honly hco hn (hmem block List.mem_cons_self) (not_lt.mp hsize)

/-- The ring of the free clusters, from one of them on. -/
theorem ring_from (ht : Table h.heapinfo segs) {index : ℕ} (hindex : index ∈ 0 :: frees 1 segs) :
    ∃ ys, (index :: (ys ++ [index])).IsChain (fun b c => (h.heapinfo b).next = c) ∧
      (index :: ys).Perm (0 :: frees 1 segs) := by
  have hring : (0 :: (frees 1 segs ++ [0])).IsChain fun b c => (h.heapinfo b).next = c :=
    ht.ring.imp fun _ _ h => h.1
  obtain ⟨A, B, hsplit⟩ := List.append_of_mem hindex
  cases A with
  | nil =>
    obtain ⟨rfl, hB⟩ := List.cons.inj hsplit
    exact ⟨B, hB ▸ hring, by rw [hB]⟩
  | cons a A =>
    obtain ⟨rfl, hA⟩ := List.cons.inj hsplit
    change frees 1 segs = A ++ index :: B at hA
    rw [hA, List.append_assoc, List.cons_append, ← List.cons_append] at hring
    obtain ⟨hfirst, hlast⟩ := List.isChain_split.mp hring
    refine ⟨B ++ 0 :: A, ?_, ?_⟩
    · rw [List.append_assoc, ← List.cons_append]
      exact List.isChain_split.mpr ⟨hlast, hfirst⟩
    · rw [hA]
      change ((index :: B) ++ 0 :: A).Perm (0 :: A ++ index :: B)
      exact List.perm_append_comm

theorem mallocBlocks_spec (hb : Blocks h segs) (honly : OnlyTable h segs) (hco : Coalesced segs)
    (hn : 0 < n) (hlt : n * 4096 < 2 ^ 31) :
    ∃ p h', h.mallocBlocks n = some (p, h') ∧ h.Served segs n p h' := by
  obtain ⟨ys, hring, hperm⟩ := ring_from hb.toTable hb.index
  have hnodup : (h.heapindex :: ys).Nodup := by
    refine hperm.nodup_iff.mpr (List.nodup_cons.mpr ⟨fun hmem => ?_, nodup_frees hb.pos⟩)
    have hge := (frees_bounds hb.pos hmem).1
    omega
  have hlen : ys.length = (frees 1 segs).length := by
    have hlen := hperm.length_eq
    rwa [List.length_cons, List.length_cons, Nat.add_right_cancel_iff] at hlen
  have hfuel := length_frees hb.pos hb.inTable
  exact findBlocks_walk hb honly hco hn hlt hring (fun c hc => hperm.mem_iff.mp hc)
    (List.nodup_cons.mp hnodup).1
    (fun c hc => .inl (hperm.mem_iff.mpr (List.mem_cons_of_mem 0 hc))) (by omega)

end Heap

end Vmm386.Malloc
