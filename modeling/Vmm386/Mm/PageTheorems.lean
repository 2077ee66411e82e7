import Vmm386.Mm.Page

/-!
# The free list

Every operation of the allocator as an operation on the list of free pages, and what every
sequence of calls keeps.
-/

namespace Vmm386.Mm

/-- The page starts at a multiple of `PAGE_SIZE`. -/
def Aligned (p : ULong) : Prop := p.toNat % 4096 = 0

/-! ## Page addresses -/

/-- No list is longer than there are addresses. -/
theorem length_le_addresses {l : List ULong} (h : l.Nodup) : l.length ≤ ADDRESSES := by
  have hmap : (l.map BitVec.toNat).Nodup := h.map fun a b heq => BitVec.eq_of_toNat_eq heq
  have hsub : l.map BitVec.toNat ⊆ List.range (2 ^ 32) := by
    intro n hn
    obtain ⟨a, -, rfl⟩ := List.mem_map.mp hn
    exact List.mem_range.mpr a.isLt
  have hlen := (hmap.subperm hsub).length_le
  rwa [List.length_map, List.length_range] at hlen

theorem getLsbD_pageMask {i : ℕ} (hi : i < 32) : PAGE_MASK.getLsbD i = decide (12 ≤ i) := by
  interval_cases i <;> rfl

theorem toNat_and_mask (x : ULong) : (x &&& PAGE_MASK).toNat = x.toNat / 4096 * 4096 := by
  have hbits : x &&& PAGE_MASK = x >>> 12 <<< 12 := by
    apply BitVec.eq_of_getLsbD_eq
    intro i hi
    rw [BitVec.getLsbD_and, BitVec.getLsbD_shiftLeft, BitVec.getLsbD_ushiftRight,
      getLsbD_pageMask hi]
    by_cases h : i < 12
    · have hle : ¬12 ≤ i := by omega
      rw [decide_eq_true h, decide_eq_false hle, Bool.and_false, Bool.not_true,
        Bool.and_false, Bool.false_and]
    · have hle : 12 ≤ i := by omega
      rw [decide_eq_false h, decide_eq_true hle, decide_eq_true hi, Bool.and_true, Bool.not_false,
        Bool.and_true, Bool.true_and, Nat.add_sub_cancel' hle]
  rw [hbits, BitVec.toNat_shiftLeft, BitVec.toNat_ushiftRight, Nat.shiftRight_eq_div_pow,
    Nat.shiftLeft_eq]
  have := x.isLt
  omega

theorem toNat_roundTo {x : ULong} (h : x.toNat + 4095 < 2 ^ 32) :
    (roundTo x PAGE_SIZE).toNat = (x.toNat + 4095) / 4096 * 4096 := by
  have hmask : ~~~(PAGE_SIZE - 1) = PAGE_MASK := by decide
  have hadd : (x + (PAGE_SIZE - 1)).toNat = x.toNat + 4095 := by
    rw [BitVec.toNat_add]
    exact Nat.mod_eq_of_lt h
  rw [roundTo, hmask, toNat_and_mask, hadd]

section PagesFrom

variable {p q : ULong} {k n : ℕ}

theorem pagesFrom_succ (p : ULong) (k : ℕ) :
    pagesFrom p (k + 1) = p :: pagesFrom (p + PAGE_SIZE) k := by
  rw [pagesFrom, pagesFrom, List.range_succ_eq_map, List.map_cons, List.map_map]
  refine List.cons_eq_cons.mpr ⟨?_, ?_⟩
  · show p + 0#32 * PAGE_SIZE = p
    rw [BitVec.zero_mul, BitVec.add_zero]
  · apply List.map_congr_left
    intro i _
    rw [Function.comp_apply, Nat.succ_eq_add_one, BitVec.ofNat_add, BitVec.add_mul,
      BitVec.one_mul, BitVec.add_comm (_ * _), BitVec.add_assoc]

theorem length_pagesFrom (p : ULong) (k : ℕ) : (pagesFrom p k).length = k := by
  rw [pagesFrom, List.length_map, List.length_range]

theorem toNat_page (h : p.toNat + n * 4096 < 2 ^ 32) :
    (p + BitVec.ofNat 32 n * PAGE_SIZE).toNat = p.toNat + n * 4096 := by
  have hmul : (BitVec.ofNat 32 n * PAGE_SIZE).toNat = n * 4096 := by
    rw [BitVec.toNat_mul, BitVec.toNat_ofNat, Nat.mod_eq_of_lt (by omega : n < 2 ^ 32)]
    exact Nat.mod_eq_of_lt (by show n * 4096 < 2 ^ 32; omega)
  rw [BitVec.toNat_add, hmul, Nat.mod_eq_of_lt h]

theorem mem_pagesFrom (h : p.toNat + k * 4096 ≤ 2 ^ 32) (hp : Aligned p) :
    q ∈ pagesFrom p k ↔ Aligned q ∧ p.toNat ≤ q.toNat ∧ q.toNat < p.toNat + k * 4096 := by
  unfold Aligned at *
  rw [pagesFrom, List.mem_map]
  constructor
  · rintro ⟨i, hi, rfl⟩
    have hlt := List.mem_range.mp hi
    rw [toNat_page (by omega)]
    omega
  · rintro ⟨hq, hle, hlt⟩
    refine ⟨(q.toNat - p.toNat) / 4096, List.mem_range.mpr (by omega), ?_⟩
    apply BitVec.eq_of_toNat_eq
    rw [toNat_page (by omega)]
    omega

theorem nodup_pagesFrom (h : p.toNat + k * 4096 ≤ 2 ^ 32) : (pagesFrom p k).Nodup := by
  refine List.Nodup.map_on ?_ List.nodup_range
  intro i hi j hj heq
  have hi := List.mem_range.mp hi
  have hj := List.mem_range.mp hj
  have hnat := congrArg BitVec.toNat heq
  rw [toNat_page (by omega), toNat_page (by omega)] at hnat
  omega

end PagesFrom

namespace Pages

variable {s : Pages} {l : List ULong} {p : ULong}

/-- `l` are the free pages, in the order of the free list. -/
def Free (s : Pages) (l : List ULong) : Prop :=
  s.links.ListAt NULL none l ∧ s.availablePages = l.length

/-- The number of pages that the allocator knows of. -/
def total (s : Pages) : ℤ := s.usedPages + s.availablePages

theorem Free.ne_null (h : s.Free l) (hp : p ∈ l) : p ≠ NULL := h.1.1.ne_null hp

theorem Free.nodup (h : s.Free l) : l.Nodup := h.1.1.nodup

/-- There are no more pages than fit into the address space. -/
theorem Free.length_le (h : s.Free l) (ha : ∀ p ∈ l, Aligned p) : l.length ≤ 2 ^ 20 := by
  have hmap : (l.map fun p : ULong => p.toNat / 4096).Nodup := by
    refine h.nodup.map_on ?_
    intro p hp q hq heq
    have hp : p.toNat % 4096 = 0 := ha p hp
    have hq : q.toNat % 4096 = 0 := ha q hq
    exact BitVec.eq_of_toNat_eq (by omega)
  have hsub : (l.map fun p : ULong => p.toNat / 4096) ⊆ List.range (2 ^ 20) := by
    intro i hi
    obtain ⟨p, -, rfl⟩ := List.mem_map.mp hi
    have := p.isLt
    exact List.mem_range.mpr (by omega)
  have hlen := (hmap.subperm hsub).length_le
  rwa [List.length_map, List.length_range] at hlen

/-! ## Single pages -/

theorem allocPage_nil (h : s.Free []) : s.allocPage = (NULL, s) := by
  have hhead : s.links.head = NULL := h.1.1
  rw [allocPage, if_neg (not_not.mpr hhead), hhead]

theorem allocPage_cons (h : s.Free (p :: l)) :
    s.allocPage.1 = p ∧ s.allocPage.2.Free l ∧ s.allocPage.2.total = s.total ∧
      s.allocPage.2.usedPages = s.usedPages + 1 := by
  have hhead : s.links.head = p := h.1.1.1
  have hne : s.links.head ≠ NULL := hhead ▸ h.1.1.2.1
  rw [allocPage, if_pos hne, hhead]
  refine ⟨rfl, ⟨h.1.unlink, ?_⟩, ?_, rfl⟩
  · have hlen := h.2
    rw [List.length_cons] at hlen
    show s.availablePages - 1 = _
    omega
  · show s.usedPages + 1 + (s.availablePages - 1) = _
    rw [total]
    omega

theorem freePage_free (h : s.Free l) (hne : p ≠ NULL) (hp : p ∉ l) :
    (s.freePage p).Free (p :: l) := by
  refine ⟨h.1.push hne hp, ?_⟩
  rw [List.length_cons, Nat.cast_succ, ← h.2]
  rfl

theorem total_freePage (s : Pages) (p : ULong) : (s.freePage p).total = s.total := by
  show s.usedPages - 1 + (s.availablePages + 1) = s.usedPages + s.availablePages
  omega

/-! ## Several pages -/

theorem freePages_spec {k : ℕ} (h : s.Free l) (hnodup : (pagesFrom p k).Nodup)
    (hne : ∀ q ∈ pagesFrom p k, q ≠ NULL) (hl : ∀ q ∈ pagesFrom p k, q ∉ l) :
    (s.freePages k p).Free ((pagesFrom p k).reverse ++ l) ∧
      (s.freePages k p).total = s.total ∧
      (s.freePages k p).usedPages = s.usedPages - k := by
  induction k generalizing s l p with
  | zero => exact ⟨h, rfl, by rw [Nat.cast_zero, sub_zero]; rfl⟩
  | succ k ih =>
    rw [pagesFrom_succ] at hnodup hne hl ⊢
    have hp := List.nodup_cons.mp hnodup
    have hfree : (s.freePage p).Free (p :: l) :=
      freePage_free h (hne p (List.mem_cons_self ..)) (hl p (List.mem_cons_self ..))
    obtain ⟨hrest, htotal, hused⟩ := ih hfree hp.2
      (fun q hq => hne q (List.mem_cons_of_mem p hq)) (by
        intro q hq hmem
        rcases List.mem_cons.mp hmem with rfl | hmem
        · exact hp.1 hq
        · exact hl q (List.mem_cons_of_mem p hq) hmem)
    rw [List.reverse_cons, List.append_assoc]
    refine ⟨hrest, htotal.trans (total_freePage s p), hused.trans ?_⟩
    show s.usedPages - 1 - k = _
    rw [Nat.cast_succ]
    omega

theorem addLoop_spec {stop : ULong} {m k : ℕ} {start : ULong} (hm : m ≤ k)
    (hstop : stop.toNat - start.toNat = m * 4096) (h : s.Free l)
    (hnodup : (pagesFrom (toLogical start) m).Nodup)
    (hne : ∀ q ∈ pagesFrom (toLogical start) m, q ≠ NULL)
    (hl : ∀ q ∈ pagesFrom (toLogical start) m, q ∉ l) :
    (addLoop stop k start s).Free ((pagesFrom (toLogical start) m).reverse ++ l) ∧
      (addLoop stop k start s).usedPages = s.usedPages := by
  induction m generalizing s l start k with
  | zero =>
    have hle : ¬start < stop := by
      rw [BitVec.lt_def]
      omega
    cases k with
    | zero => exact ⟨h, rfl⟩
    | succ k =>
      rw [addLoop, if_neg hle]
      exact ⟨h, rfl⟩
  | succ m ih =>
    obtain ⟨k, rfl⟩ : ∃ j, k = j + 1 := ⟨k - 1, by omega⟩
    have hlt : start < stop := by
      rw [BitVec.lt_def]
      omega
    have hstep : toLogical start + PAGE_SIZE = toLogical (start + PAGE_SIZE) := by
      rw [toLogical, toLogical, BitVec.add_assoc, BitVec.add_comm PHYS_MAP, BitVec.add_assoc]
    have hnat : (start + PAGE_SIZE).toNat = start.toNat + 4096 := by
      rw [BitVec.toNat_add]
      exact Nat.mod_eq_of_lt (by have := stop.isLt; show start.toNat + 4096 < 2 ^ 32; omega)
    rw [pagesFrom_succ, hstep] at hnodup hne hl ⊢
    rw [addLoop, if_pos hlt]
    have hp := List.nodup_cons.mp hnodup
    have hpush := h.1.push (hne _ (List.mem_cons_self ..)) (hl _ (List.mem_cons_self ..))
    obtain ⟨hrest, hused⟩ := ih (k := k)
      (s := { s with
        links := (s.links.set (some (toLogical start)) s.links.head).set none (toLogical start)
        availablePages := s.availablePages + 1 })
      (l := toLogical start :: l) (by omega)
      (show stop.toNat - (start + PAGE_SIZE).toNat = m * 4096 by omega)
      ⟨hpush, by rw [List.length_cons, Nat.cast_succ, ← h.2]⟩ hp.2
      (fun q hq => hne q (List.mem_cons_of_mem _ hq)) (by
        intro q hq hmem
        rcases List.mem_cons.mp hmem with rfl | hmem
        · exact hp.1 hq
        · exact hl q (List.mem_cons_of_mem _ hq) hmem)
    rw [List.reverse_cons, List.append_assoc]
    exact ⟨hrest, hused⟩

/-! ## Contiguous pages -/

/-- The page is one of those from `x` to `top`. -/
abbrev Between (x top p : ULong) : Prop := x ≤ p ∧ p < top

theorem countFree_le {x top n : ULong} {k : ℕ} {y found : ULong}
    (h : Linked s.links.next NULL y l) (hlen : found.toNat + l.length < 2 ^ 32)
    (htrue : s.countFree x top n k y found = true) :
    n.toNat ≤ found.toNat + l.countP (fun p => x < p ∧ p < top) ∧
      0 < l.countP (fun p => x < p ∧ p < top) := by
  induction k generalizing y l found with
  | zero => cases htrue
  | succ k ih =>
    rw [countFree] at htrue
    split at htrue
    · cases htrue
    · rename_i hne
      obtain ⟨l, rfl, hl⟩ := h.exists_cons hne
      rw [List.length_cons] at hlen
      have hadd : (found + 1).toNat = found.toNat + 1 := by
        rw [BitVec.toNat_add]
        exact Nat.mod_eq_of_lt (by show found.toNat + 1 < _; omega)
      split at htrue
      · rename_i hin
        rw [List.countP_cons_of_pos (by simpa using hin)]
        split at htrue
        · rename_i hn
          rw [BitVec.le_def, hadd] at hn
          omega
        · have := ih hl (by omega) htrue
          omega
      · rename_i hin
        rw [List.countP_cons_of_neg (by simpa using hin)]
        exact ih hl (by omega) htrue

theorem findPages_some {n x y : ULong} {k : ℕ} (h : Linked s.links.next NULL y l)
    (hsome : s.findPages n k y = some x) :
    x ∈ l ∧ s.countFree x (x + n * PAGE_SIZE) n ADDRESSES s.links.head 1 = true := by
  induction k generalizing y l with
  | zero => cases hsome
  | succ k ih =>
    rw [findPages] at hsome
    split at hsome
    · cases hsome
    · rename_i hne
      obtain ⟨l, rfl, hl⟩ := h.exists_cons hne
      split at hsome
      · rename_i hok
        cases hsome
        exact ⟨List.mem_cons_self .., hok.2.2⟩
      · obtain ⟨hmem, hcount⟩ := ih hl hsome
        exact ⟨List.mem_cons_of_mem y hmem, hcount⟩

/-- Where `top` is above `x`, the sum that gives it has wrapped around a whole number of
times. -/
theorem toNat_top {x n : ULong} (h : x < x + n * PAGE_SIZE) :
    ∃ m ≤ n.toNat, (x + n * PAGE_SIZE).toNat = x.toNat + m * 4096 := by
  have hmul : (n * PAGE_SIZE).toNat = n.toNat % 2 ^ 20 * 4096 := by
    rw [BitVec.toNat_mul]
    show n.toNat * 4096 % 2 ^ 32 = _
    omega
  refine ⟨n.toNat % 2 ^ 20, Nat.mod_le _ _, ?_⟩
  rw [BitVec.lt_def, BitVec.toNat_add, hmul] at h
  rw [BitVec.toNat_add, hmul]
  have := x.isLt
  omega

/-- The `n` pages that were found are all free. -/
theorem found_pages (h : s.Free l) (ha : ∀ p ∈ l, Aligned p) {n x : ULong} (hx : x ∈ l)
    (hfound : s.countFree x (x + n * PAGE_SIZE) n ADDRESSES s.links.head 1 = true) :
    x.toNat + n.toNat * 4096 < 2 ^ 32 ∧ (x + n * PAGE_SIZE).toNat = x.toNat + n.toNat * 4096 ∧
      ∀ q ∈ pagesFrom x n.toNat, q ∈ l := by
  have hlen := h.length_le ha
  obtain ⟨hcount, hpos⟩ := countFree_le h.1.1 (by show 1 + l.length < _; omega) hfound
  obtain ⟨y, -, hy⟩ := List.countP_pos_iff.mp hpos
  have hy := of_decide_eq_true hy
  obtain ⟨m, hm, htop⟩ := toNat_top (BitVec.lt_trans hy.1 hy.2)
  have hlt := (x + n * PAGE_SIZE).isLt
  rw [htop] at hlt
  -- `x` and the pages that were counted are `n` different ones of the pages up to `top`
  let found := x :: l.filter fun p => x < p ∧ p < x + n * PAGE_SIZE
  have hnodup : found.Nodup := by
    refine List.nodup_cons.mpr ⟨?_, h.nodup.filter _⟩
    intro hmem
    exact BitVec.lt_irrefl x (of_decide_eq_true (List.mem_filter.mp hmem).2).1
  have hsub : found ⊆ pagesFrom x m := by
    intro q hq
    rw [mem_pagesFrom (by omega) (ha x hx)]
    rcases List.mem_cons.mp hq with rfl | hq
    · have hy1 := hy.1
      have hy2 := hy.2
      rw [BitVec.lt_def] at hy1 hy2
      exact ⟨ha q hx, Nat.le_refl _, by omega⟩
    · obtain ⟨hmem, hin⟩ := List.mem_filter.mp hq
      have hin := of_decide_eq_true hin
      rw [BitVec.lt_def, BitVec.lt_def, htop] at hin
      exact ⟨ha q hmem, Nat.le_of_lt hin.1, hin.2⟩
  have hsubperm := hnodup.subperm hsub
  have hlength : found.length = 1 + l.countP (fun p => x < p ∧ p < x + n * PAGE_SIZE) := by
    rw [List.length_cons, List.countP_eq_length_filter, Nat.add_comm]
  have hle := hsubperm.length_le
  rw [length_pagesFrom, hlength] at hle
  have hone : (1 : ULong).toNat = 1 := rfl
  rw [hone] at hcount
  obtain rfl : m = n.toNat := by omega
  refine ⟨hlt, htop, ?_⟩
  intro q hq
  have hperm := hsubperm.perm_of_length_le (by rw [length_pagesFrom, hlength]; omega)
  rcases List.mem_cons.mp (hperm.mem_iff.mpr hq) with rfl | hmem
  · exact hx
  · exact List.mem_of_mem_filter hmem

/-- The walk unlinks the pages between `x` and `top` from the rest of the list, and stores
no other pointer. -/
theorem unlinkPages_spec {x top n : ULong} {k : ℕ} {c : Option ULong}
    (h : s.links.ListAt NULL c l) (hk : l.length ≤ k)
    (hn : n.toNat = l.countP (Between x top ·)) :
    (unlinkPages x top k c n s).links.ListAt NULL c (l.filter (¬Between x top ·)) ∧
      (∀ d, d ≠ c → (∀ a ∈ l, d ≠ some a) →
        (unlinkPages x top k c n s).links.get d = s.links.get d) ∧
      (unlinkPages x top k c n s).availablePages = s.availablePages - n.toNat ∧
      (unlinkPages x top k c n s).usedPages = s.usedPages + n.toNat := by
  induction l generalizing s k c n with
  | nil =>
    obtain rfl : n = 0 := BitVec.eq_of_toNat_eq hn
    have hs : unlinkPages x top k c 0 s = s := by
      cases k with
      | zero => rfl
      | succ k => rw [unlinkPages, if_neg (not_not.mpr rfl)]
    rw [hs]
    exact ⟨h, fun _ _ _ => rfl, by simp, by simp⟩
  | cons a l ih =>
    obtain ⟨k, rfl⟩ : ∃ j, k = j + 1 := ⟨k - 1, by rw [List.length_cons] at hk; omega⟩
    rw [List.length_cons] at hk
    have hget : s.links.get c = a := h.1.1
    rw [unlinkPages]
    by_cases h0 : n = 0
    · -- no page is left to unlink
      rw [if_neg (not_not.mpr h0)]
      subst h0
      rw [List.filter_eq_self.mpr]
      · exact ⟨h, fun _ _ _ => rfl, by simp, by simp⟩
      · intro b hb
        have hzero := List.countP_eq_zero.mp hn.symm b hb
        exact decide_eq_true fun hin => hzero (decide_eq_true hin)
    · have hpos : 0 < n.toNat := by
        rw [Nat.pos_iff_ne_zero]
        exact fun heq => h0 (BitVec.eq_of_toNat_eq heq)
      rw [if_pos h0, hget]
      by_cases hin : Between x top a
      · rw [if_pos hin, List.filter_cons_of_neg (by simpa using hin)]
        rw [List.countP_cons_of_pos (p := fun b => decide (Between x top b))
          (decide_eq_true hin)] at hn
        have hsub : (n - 1).toNat = n.toNat - 1 := by
          rw [BitVec.toNat_sub]
          show (2 ^ 32 - 1 + n.toNat) % 2 ^ 32 = _
          have := n.isLt
          omega
        obtain ⟨hlist, hframe, havail, hused⟩ := ih (s := { links := s.links.set c (s.links.next a)
                                                            usedPages := s.usedPages + 1
                                                            availablePages := s.availablePages - 1 })
          (n := n - 1) (k := k) h.unlink (by omega) (by omega)
        refine ⟨hlist, ?_, ?_, ?_⟩
        · intro d hd hl
          rw [hframe d hd fun b hb => hl b (List.mem_cons_of_mem a hb)]
          exact Links.get_set_of_ne hd
        · rw [havail, hsub]
          show s.availablePages - 1 - _ = _
          omega
        · rw [hused, hsub]
          show s.usedPages + 1 + _ = _
          omega
      · rw [if_neg hin, List.filter_cons_of_pos (p := fun b => decide ¬Between x top b)
          (decide_eq_true hin)]
        rw [List.countP_cons_of_neg (p := fun b => decide (Between x top b))
          (fun htrue => hin (of_decide_eq_true htrue))] at hn
        obtain ⟨hlist, hframe, havail, hused⟩ := ih (k := k) (c := some a) h.tail (by omega) hn
        have hc : c ≠ some a := h.2 a (List.mem_cons_self ..)
        refine ⟨⟨⟨?_, h.1.2.1, hlist.1⟩, ?_⟩, ?_, havail, hused⟩
        · rw [hframe c hc fun b hb => h.2 b (List.mem_cons_of_mem a hb), hget]
        · intro b hb
          apply h.2
          rcases List.mem_cons.mp hb with rfl | hb
          · exact List.mem_cons_self ..
          · exact List.mem_cons_of_mem a (List.mem_of_mem_filter hb)
        · intro d hd hl
          apply hframe d (hl a (List.mem_cons_self ..))
          exact fun b hb => hl b (List.mem_cons_of_mem a hb)

/-- **`alloc_pages_64`** returns `NULL` and does nothing, or takes `n` contiguous pages out
of the free list. -/
theorem allocPages64_spec (h : s.Free l) (ha : ∀ p ∈ l, Aligned p) (n : ULong) :
    s.allocPages64 n = (NULL, s) ∨ ∃ x s', s.allocPages64 n = (x, s') ∧ x ≠ NULL ∧
      (pagesFrom x n.toNat).Nodup ∧ (∀ q ∈ pagesFrom x n.toNat, q ∈ l) ∧
      s'.Free (l.filter (· ∉ pagesFrom x n.toNat)) ∧ s'.total = s.total ∧
      s'.usedPages = s.usedPages + n.toNat := by
  rw [allocPages64]
  rcases hfind : s.findPages n ADDRESSES s.links.head with _ | x
  · exact .inl rfl
  · obtain ⟨hx, hcount⟩ := findPages_some h.1.1 hfind
    obtain ⟨hlt, htop, hfree⟩ := found_pages h ha hx hcount
    have hlen := h.length_le ha
    have hfuel : l.length ≤ ADDRESSES := Nat.le_trans hlen (by decide)
    have hnodup : (pagesFrom x n.toNat).Nodup := nodup_pagesFrom (by omega)
    have hbetween : ∀ p ∈ l, (Between x (x + n * PAGE_SIZE) p ↔ p ∈ pagesFrom x n.toNat) := by
      intro p hp
      rw [mem_pagesFrom (by omega) (ha x hx), Between, BitVec.le_def, BitVec.lt_def, htop]
      exact ⟨fun hb => ⟨ha p hp, hb⟩, fun hb => hb.2⟩
    -- as many pages are unlinked as were asked for
    have hperm : (l.filter (Between x (x + n * PAGE_SIZE) ·)).Perm (pagesFrom x n.toNat) := by
      rw [List.perm_ext_iff_of_nodup (h.nodup.filter _) hnodup]
      intro p
      rw [List.mem_filter, decide_eq_true_iff]
      exact ⟨fun hp => (hbetween p hp.1).mp hp.2,
        fun hp => ⟨hfree p hp, (hbetween p (hfree p hp)).mpr hp⟩⟩
    have hcountP : n.toNat = l.countP (Between x (x + n * PAGE_SIZE) ·) := by
      rw [List.countP_eq_length_filter, hperm.length_eq, length_pagesFrom]
    have hfilter : l.filter (¬Between x (x + n * PAGE_SIZE) ·) =
        l.filter (· ∉ pagesFrom x n.toNat) := by
      apply List.filter_congr
      intro p hp
      rw [decide_eq_decide, hbetween p hp]
    obtain ⟨hlist, -, havail, hused⟩ :=
      unlinkPages_spec h.1 hfuel hcountP
    rw [hfilter] at hlist
    have hlength : l.length = n.toNat + (l.filter (· ∉ pagesFrom x n.toNat)).length := by
      have hsplit := List.length_eq_countP_add_countP (Between x (x + n * PAGE_SIZE) ·) (l := l)
      rw [← hcountP] at hsplit
      rw [← hfilter, ← List.countP_eq_length_filter]
      simpa using hsplit
    refine .inr ⟨x, _, rfl, h.ne_null hx, hnodup, hfree, ⟨hlist, ?_⟩, ?_, hused⟩
    · have havail0 := h.2
      omega
    · rw [total, total, havail, hused]
      omega

end Pages

/-! ## Sequences of calls -/

/-- The free list is a list of different page-aligned pages, `available_pages` of them, and
every page that was added is counted once. -/
structure FreeListKept (s : PageSys) : Prop where
  freeList : ∃ l, Linked s.pages.links.next NULL s.pages.links.head l ∧ l.Nodup ∧
    (∀ p ∈ l, Aligned p) ∧ s.pages.availablePages = l.length
  total : s.pages.usedPages + s.pages.availablePages = s.added.card

/-- The call returns no page that is handed out, and no page twice. -/
def HandsOutOnce (s : PageSys) (op : PageOp) : Prop :=
  (op.given s.pages).Nodup ∧ ∀ p ∈ op.given s.pages, p ∉ s.handed

/-- **The invariant**: every page that was added is either in the free list `l` or handed
out. -/
structure Owned (s : PageSys) (l : List ULong) : Prop where
  free : s.pages.Free l
  added : ∀ p, p ∈ s.added ↔ p ∈ l ∨ p ∈ s.handed
  apart : ∀ p ∈ l, p ∉ s.handed
  used : s.pages.usedPages = s.handed.card
  aligned : ∀ p ∈ s.added, Aligned p
  notNull : NULL ∉ s.added

namespace Owned

variable {s : PageSys} {l : List ULong}

theorem aligned_free (h : Owned s l) : ∀ p ∈ l, Aligned p :=
  fun p hp => h.aligned p ((h.added p).mpr (.inl hp))

theorem ne_null {p : ULong} (h : Owned s l) (hp : p ∈ s.added) : p ≠ NULL :=
  fun heq => h.notNull (heq ▸ hp)

theorem kept (h : Owned s l) : FreeListKept s := by
  refine ⟨⟨l, h.free.1.1, h.free.nodup, h.aligned_free, h.free.2⟩, ?_⟩
  have hunion : s.added = l.toFinset ∪ s.handed := by
    ext p
    rw [h.added, Finset.mem_union, List.mem_toFinset]
  have hdisj : Disjoint l.toFinset s.handed :=
    Finset.disjoint_left.mpr fun p hp => h.apart p (List.mem_toFinset.mp hp)
  rw [hunion, Finset.card_union_of_disjoint hdisj, List.toFinset_card_of_nodup h.free.nodup, h.used,
    h.free.2]
  omega

/-- Pages leave the free list for their users. -/
theorem hand {given l' : List ULong} {pages : Pages} (h : Owned s l)
    (hfree : pages.Free l') (hl' : ∀ p, p ∈ l' ↔ p ∈ l ∧ p ∉ given) (hgiven : ∀ p ∈ given, p ∈ l)
    (hnodup : given.Nodup) (hused : pages.usedPages = s.pages.usedPages + given.length) :
    Owned { s with pages, handed := s.handed ∪ given.toFinset } l' := by
  have hdisj : Disjoint s.handed given.toFinset :=
    Finset.disjoint_right.mpr fun p hp => h.apart p (hgiven p (List.mem_toFinset.mp hp))
  refine ⟨hfree, ?_, ?_, ?_, h.aligned, h.notNull⟩
  · intro p
    show p ∈ s.added ↔ _
    rw [h.added, Finset.mem_union, List.mem_toFinset, hl']
    have := hgiven p
    tauto
  · intro p hp hmem
    rw [hl'] at hp
    rcases Finset.mem_union.mp hmem with hmem | hmem
    · exact h.apart p hp.1 hmem
    · exact hp.2 (List.mem_toFinset.mp hmem)
  · show pages.usedPages = _
    rw [Finset.card_union_of_disjoint hdisj, List.toFinset_card_of_nodup hnodup, hused, h.used]
    rfl

/-- Pages come back from their users. -/
theorem giveBack {b l' : List ULong} {pages : Pages} (h : Owned s l)
    (hfree : pages.Free l') (hl' : ∀ p, p ∈ l' ↔ p ∈ b ∨ p ∈ l) (hback : ∀ p ∈ b, p ∈ s.handed)
    (hnodup : b.Nodup) (hused : pages.usedPages = s.pages.usedPages - b.length) :
    Owned { s with pages, handed := s.handed \ b.toFinset } l' := by
  have hsub : b.toFinset ⊆ s.handed := fun p hp => hback p (List.mem_toFinset.mp hp)
  refine ⟨hfree, ?_, ?_, ?_, h.aligned, h.notNull⟩
  · intro p
    show p ∈ s.added ↔ _
    rw [h.added, Finset.mem_sdiff, List.mem_toFinset, hl']
    have := hback p
    tauto
  · intro p hp hmem
    rw [Finset.mem_sdiff, List.mem_toFinset] at hmem
    rcases (hl' p).mp hp with hp | hp
    · exact hmem.2 hp
    · exact h.apart p hp hmem.1
  · show pages.usedPages = _
    rw [Finset.card_sdiff_of_subset hsub, List.toFinset_card_of_nodup hnodup, hused, h.used]
    have := Finset.card_le_card hsub
    rw [List.toFinset_card_of_nodup hnodup] at this
    omega

end Owned

theorem roundTo_aligned {x : ULong} (h : Aligned x) : roundTo x PAGE_SIZE = x := by
  unfold Aligned at h
  have := x.isLt
  apply BitVec.eq_of_toNat_eq
  rw [toNat_roundTo (by omega)]
  omega

theorem aligned_toLogical {x : ULong} (h : Aligned x) : Aligned (toLogical x) := by
  unfold Aligned at *
  rw [toLogical, BitVec.toNat_add]
  show (x.toNat + 8388608) % 2 ^ 32 % 4096 = 0
  omega

theorem aligned_pagesFrom {p q : ULong} {k : ℕ} (hp : Aligned p) (hq : q ∈ pagesFrom p k) :
    Aligned q := by
  induction k generalizing p with
  | zero => cases hq
  | succ k ih =>
    rw [pagesFrom_succ] at hq
    rcases List.mem_cons.mp hq with rfl | hq
    · exact hp
    · apply ih _ hq
      unfold Aligned at *
      rw [BitVec.toNat_add]
      show (p.toNat + 4096) % 2 ^ 32 % 4096 = 0
      omega

theorem Owned.init : Owned PageSys.init [] where
  free := ⟨⟨rfl, nofun⟩, rfl⟩
  added := by simp [PageSys.init]
  apart := nofun
  used := rfl
  aligned := nofun
  notNull := nofun

theorem Owned.addPages {s : PageSys} {l : List ULong} {start stop : ULong} (h : Owned s l)
    (hstart : Aligned start) (hstop : Aligned stop) (hne : NULL ∉ pagesBetween start stop)
    (hnew : ∀ p ∈ pagesBetween start stop, p ∉ s.added) :
    Owned { s with
        pages := s.pages.addPages start stop
        added := s.added ∪ (pagesBetween start stop).toFinset }
      ((pagesBetween start stop).reverse ++ l) := by
  unfold Aligned at hstart hstop
  have hlt := stop.isLt
  have hnodup : (pagesBetween start stop).Nodup := by
    refine List.Nodup.map_on ?_ List.nodup_range
    intro i hi j hj heq
    have hi := List.mem_range.mp hi
    have hj := List.mem_range.mp hj
    -- fewer pages than would come round to the first one again
    have heq := congrArg BitVec.toNat ((BitVec.add_right_inj _).mp heq)
    rw [BitVec.toNat_mul, BitVec.toNat_mul, BitVec.toNat_ofNat, BitVec.toNat_ofNat] at heq
    change i % 2 ^ 32 * 4096 % 2 ^ 32 = j % 2 ^ 32 * 4096 % 2 ^ 32 at heq
    omega
  obtain ⟨hfree, hused⟩ := Pages.addLoop_spec (k := ADDRESSES)
    (m := (stop.toNat - start.toNat) / 4096) (by show _ ≤ 2 ^ 32; omega)
    (show stop.toNat - start.toNat = (stop.toNat - start.toNat) / 4096 * 4096 by omega) h.free hnodup
    (fun q hq heq => hne (heq ▸ hq))
    (fun q hq hmem => hnew q hq ((h.added q).mpr (.inl hmem)))
  rw [Pages.addPages, roundTo_aligned hstart]
  refine ⟨hfree, ?_, ?_, hused.trans h.used, ?_, ?_⟩
  · intro p
    rw [Finset.mem_union, List.mem_toFinset, List.mem_append, List.mem_reverse, h.added]
    exact ⟨fun hp => by tauto, fun hp => by
      rcases hp with (hp | hp) | hp
      · exact .inr hp
      · exact .inl (.inl hp)
      · exact .inl (.inr hp)⟩
  · intro p hp hmem
    rcases List.mem_append.mp hp with hp | hp
    · exact hnew p (List.mem_reverse.mp hp) ((h.added p).mpr (.inr hmem))
    · exact h.apart p hp hmem
  · intro p hp
    rcases Finset.mem_union.mp hp with hp | hp
    · exact h.aligned p hp
    · exact aligned_pagesFrom (aligned_toLogical hstart) (List.mem_toFinset.mp hp)
  · intro hp
    rcases Finset.mem_union.mp hp with hp | hp
    · exact h.notNull hp
    · exact hne (List.mem_toFinset.mp hp)

/-- The pages that a call hands out come from the free list. -/
theorem Owned.given {s : PageSys} {l : List ULong} (h : Owned s l) (op : PageOp) :
    (op.given s.pages).Nodup ∧ ∀ p ∈ op.given s.pages, p ∈ l := by
  cases op with
  | allocPage =>
    rw [PageOp.given]
    split
    · exact ⟨List.nodup_nil, nofun⟩
    · rename_i hne
      refine ⟨List.nodup_singleton _, ?_⟩
      intro p hp
      rw [List.mem_singleton.mp hp]
      cases l with
      | nil => exact absurd (congrArg Prod.fst (Pages.allocPage_nil h.free)) hne
      | cons q l =>
        rw [(Pages.allocPage_cons h.free).1]
        exact List.mem_cons_self ..
  | allocPages64 n =>
    rw [PageOp.given]
    rcases Pages.allocPages64_spec h.free h.aligned_free n with heq | ⟨x, s', heq, hx, hnodup, hmem, -⟩
    · rw [if_pos (congrArg Prod.fst heq)]
      exact ⟨List.nodup_nil, nofun⟩
    · rw [heq, if_neg hx]
      exact ⟨hnodup, hmem⟩
  | addPages _ _ => exact ⟨List.nodup_nil, nofun⟩
  | freePage _ => exact ⟨List.nodup_nil, nofun⟩
  | freePages _ _ => exact ⟨List.nodup_nil, nofun⟩
  | write _ _ => exact ⟨List.nodup_nil, nofun⟩

theorem Owned.handsOutOnce {s : PageSys} {l : List ULong} (h : Owned s l) (op : PageOp) :
    HandsOutOnce s op :=
  ⟨(h.given op).1, fun p hp => h.apart p ((h.given op).2 p hp)⟩

theorem pageStep_owned :
    Runs.Preserves pageStep (fun _ _ => True) fun s => ∃ l, Owned s l := by
  rintro s op s' ⟨l, h⟩ - hstep
  cases op with
  | addPages start stop =>
    obtain ⟨⟨hstart, hstop, hne, hnew⟩, hs⟩ := Option.ite_none_right_eq_some.mp hstep
    cases hs
    exact ⟨_, h.addPages hstart hstop hne hnew⟩
  | allocPage =>
    cases hstep
    rw [PageOp.given]
    cases l with
    | nil =>
      rw [Pages.allocPage_nil h.free, if_pos rfl]
      exact ⟨[], by simpa using h⟩
    | cons p l =>
      have hne : p ≠ NULL := h.free.ne_null (List.mem_cons_self ..)
      have hp := List.nodup_cons.mp h.free.nodup
      obtain ⟨hfst, hfree, -, hused⟩ := Pages.allocPage_cons h.free
      rw [hfst, if_neg hne]
      refine ⟨l, h.hand hfree ?_ ?_ (List.nodup_singleton p) hused⟩
      · intro q
        rw [List.mem_cons, List.mem_singleton]
        exact ⟨fun hq => ⟨.inr hq, fun heq => hp.1 (heq ▸ hq)⟩, fun hq => hq.1.resolve_left hq.2⟩
      · intro q hq
        rw [List.mem_singleton.mp hq]
        exact List.mem_cons_self ..
  | allocPages64 n =>
    cases hstep
    rw [PageOp.given]
    rcases Pages.allocPages64_spec h.free h.aligned_free n with
      heq | ⟨x, pages, heq, hx, hnodup, hmem, hfree, -, hused⟩
    · rw [heq, if_pos rfl]
      exact ⟨l, by simpa using h⟩
    · rw [heq, if_neg hx]
      refine ⟨_, h.hand hfree ?_ hmem hnodup (by rw [length_pagesFrom]; exact hused)⟩
      intro p
      rw [List.mem_filter, decide_eq_true_iff]
  | freePage p =>
    obtain ⟨hp, hs⟩ := Option.ite_none_right_eq_some.mp hstep
    cases hs
    have hl : p ∉ l := fun hmem => h.apart p hmem hp
    have hne := h.ne_null ((h.added p).mpr (.inr hp))
    rw [← Finset.sdiff_singleton_eq_erase]
    refine ⟨_, h.giveBack (b := [p]) (Pages.freePage_free h.free hne hl) ?_ ?_
      (List.nodup_singleton p) rfl⟩
    · intro q
      rw [List.mem_cons, List.mem_singleton]
    · intro q hq
      rwa [List.mem_singleton.mp hq]
  | freePages p n =>
    obtain ⟨⟨hnodup, hp⟩, hs⟩ := Option.ite_none_right_eq_some.mp hstep
    cases hs
    obtain ⟨hfree, -, hused⟩ := Pages.freePages_spec h.free hnodup
      (fun q hq => h.ne_null ((h.added q).mpr (.inr (hp q hq))))
      (fun q hq hmem => h.apart q hmem (hp q hq))
    refine ⟨_, h.giveBack hfree ?_ hp hnodup (by rw [length_pagesFrom]; exact hused)⟩
    intro q
    rw [List.mem_append, List.mem_reverse]
  | write p val =>
    obtain ⟨hp, hs⟩ := Option.ite_none_right_eq_some.mp hstep
    cases hs
    have hl : p ∉ l := fun hmem => h.apart p hmem hp
    exact ⟨l, ⟨⟨h.free.1.1.update hl val, fun _ _ => nofun⟩, h.free.2⟩, h.added, h.apart, h.used,
      h.aligned, h.notNull⟩

/-- **The page allocator**: after every sequence of calls the free list is in order and all
pages are accounted for, and on the way no page was handed out twice without being freed in
between. -/
theorem free_list_kept {ops : List PageOp} {s : PageSys}
    (h : Runs.run pageStep PageSys.init ops = some s) :
    FreeListKept s ∧ Runs.Along pageStep HandsOutOnce PageSys.init ops := by
  have hinit : ∃ l, Owned PageSys.init l := ⟨[], .init⟩
  constructor
  · obtain ⟨l, hl⟩ := pageStep_owned.run hinit (Runs.along_true _ _) h
    exact hl.kept
  · apply pageStep_owned.along _ hinit (Runs.along_true _ _)
    intro s op hs _
    obtain ⟨l, hl⟩ := hs
    exact hl.handsOutOnce op

/-- Two pages are added, and one of them is taken. -/
theorem free_list_kept_two : ∃ s, FreeListKept s ∧
    Runs.Along pageStep HandsOutOnce PageSys.init [.addPages 0x100000 0x102000, .allocPage] := by
  have hadd : ∃ s, pageStep PageSys.init (.addPages 0x100000 0x102000) = some s := by
    simp only [pageStep]
    exact ⟨_, if_pos ⟨rfl, rfl, by decide, fun p _ => Finset.notMem_empty p⟩⟩
  obtain ⟨s, hs⟩ := hadd
  exact ⟨_, free_list_kept (Runs.run_cons_eq_some.mpr ⟨s, hs, rfl⟩)⟩

end Vmm386.Mm
