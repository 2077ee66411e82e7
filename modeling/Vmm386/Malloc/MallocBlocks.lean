import Mathlib.Tactic.Linarith
import Mathlib.Tactic.Ring
import Vmm386.Malloc.FreeBlocks

/-!
# Allocating blocks

Blocks are taken from the first free cluster that is large enough, from the one at the end of the heap
together with new memory, or from new memory alone. The table moves when it is too small.
-/

namespace Vmm386.Malloc

open Pieces TwoWay Table

namespace Heap

variable {h : Heap} {l r segs : List Seg} {m n : ℕ}

/-! ## From a free cluster -/

/-- What is left of a free cluster. -/
def rest (m n : ℕ) (r : List Seg) : List Seg := if m > n then .free (m - n) :: r else r

/-- Only entries are other ones, and where the next search begins. -/
def Taken (h h' : Heap) : Prop := ∃ info index, h' = { h with heapinfo := info, heapindex := index }

theorem Entries.taken {h' : Heap} (he : h.Entries h') : h.Taken h' := by
  obtain ⟨info, rfl⟩ := he
  exact ⟨info, h.heapindex, rfl⟩

theorem Taken.trans {h₁ h₂ : Heap} (h₁' : h.Taken h₁) (h₂' : h₁.Taken h₂) : h.Taken h₂ := by
  obtain ⟨_, _, rfl⟩ := h₁'
  obtain ⟨_, _, rfl⟩ := h₂'
  exact ⟨_, _, rfl⟩

theorem taken_index (i : ℕ) : h.Taken { h with heapindex := i } := ⟨h.heapinfo, i, rfl⟩

theorem Taken.space {h' : Heap} {segs' : List Seg} (ht : h.Taken h') (hs : Space h segs)
    (htotal : total Seg.size segs' = total Seg.size segs) : Space h' segs' := by
  obtain ⟨info, index, rfl⟩ := ht
  refine ⟨hs.base_pos, hs.base, ?_, hs.brk_lt⟩
  rw [htotal]
  exact hs.brk

theorem taken_splitBlocks (blocks block : ℕ) : h.Taken (h.splitBlocks blocks block) :=
  ((entries_setSize _ _).trans ((entries_setNext _ _).trans (entries_setPrev _ _))).taken.trans
    ((taken_index _).trans ((entries_setPrev _ _).trans (entries_setNext _ _)).taken)

theorem taken_unlinkBlocks (block : ℕ) : h.Taken (h.unlinkBlocks block) :=
  (entries_setPrev _ _).taken.trans ((taken_index _).trans (entries_setNext _ _).taken)

theorem splitBlocks_spec (hb : Blocks h (l ++ .free m :: r)) (hn : 0 < n) (hlt : n < m) :
    Blocks (h.splitBlocks n (1 + total Seg.size l)) (l ++ .other n :: .free (m - n) :: r) := by
  have hposl := fun s hs => hb.pos s (List.mem_append_left _ hs)
  have hposr := fun s hs => hb.pos s (List.mem_append_right _ (List.mem_cons_of_mem _ hs))
  have hright := hb.right _ (mem_placed 1 l (.free m) r)
  have hbefore := before_lt hposl
  have hbehind := behind_eq_or (b := 1 + total Seg.size l + m) hposr
  obtain ⟨⟨hnext, hprev⟩, hnext', hprev'⟩ := hb.links_of_free
  have hu : 1 + total Seg.size l + n ≠ before l := by omega
  have hv : 1 + total Seg.size l + n ≠ behind (1 + total Seg.size l + m) r := by omega
  have hc : 1 + total Seg.size l ≠ behind (1 + total Seg.size l + m) r := by omega
  obtain ⟨hinl, hinr⟩ := inTable_append.mp hb.inTable
  obtain ⟨hin, hinr⟩ := inTable_cons.mp hinr
  simp only [Seg.Right] at hright
  simp only [Seg.size_free] at hin hinr
  refine ⟨?_, (taken_splitBlocks _ _).space hb.toSpace (by simp; omega), ?_, ?_⟩
  · refine hb.split hn hlt (fun b => ?_) (fun b => ?_) fun b => ?_
    · simp [splitBlocks, hright]
    · simp [splitBlocks, hnext', hprev, hc]
    · simp [splitBlocks, hnext', hprev]
  · rw [frees_append, frees_cons_of_not rfl, frees_free]
    exact List.mem_cons_of_mem 0 (List.mem_append_right _ List.mem_cons_self)
  · refine inTable_append.mpr ⟨hinl,
      inTable_cons.mpr ⟨(fun hc => by cases hc), inTable_cons.mpr ⟨fun _ => ?_, ?_⟩⟩⟩
    · have hle := hin rfl
      simp only [Seg.size_other, Seg.size_free]
      change _ ≤ h.heapsize
      omega
    · simp only [Seg.size_other, Seg.size_free]
      have hplace : 1 + total Seg.size l + n + (m - n) = 1 + total Seg.size l + m := by omega
      rw [hplace]
      exact hinr

theorem unlinkBlocks_spec (hb : Blocks h (l ++ .free n :: r)) :
    Blocks (h.unlinkBlocks (1 + total Seg.size l)) (l ++ .other n :: r) := by
  obtain ⟨⟨hnext, hprev⟩, hnext', hprev'⟩ := hb.links_of_free
  obtain ⟨hinl, hinr⟩ := inTable_append.mp hb.inTable
  refine ⟨?_, (taken_unlinkBlocks _).space hb.toSpace (by simp), ?_, ?_⟩
  · refine hb.unlink (fun b => ?_) (fun b => ?_) fun b => ?_
    · simp [unlinkBlocks]
    · simp [unlinkBlocks, hnext', hprev]
    · simp [unlinkBlocks, hnext', hprev]
  · have hindex : (h.unlinkBlocks (1 + total Seg.size l)).heapindex =
        behind (1 + total Seg.size l + n) r := hnext' ▸ by simp [unlinkBlocks, setNext, setInfo]
    rw [hindex, frees_append, frees_cons_of_not rfl]
    rcases List.mem_append.mp (headD_mem (frees (1 + total Seg.size l + n) r) 0) with h' | h'
    · exact List.mem_cons_of_mem 0 (List.mem_append_right _ h')
    · rw [behind, List.mem_singleton.mp h']
      exact List.mem_cons_self
  · exact inTable_append.mpr ⟨hinl,
      inTable_cons.mpr ⟨(fun hc => by cases hc), (inTable_cons.mp hinr).2⟩⟩

/-- The entry of a busy cluster is set. -/
theorem table_setBusy {s : Seg} (ht : Table h.heapinfo (l ++ s :: r)) (hs : s.isFree = false) :
    Table ((h.setSize (1 + total Seg.size l) 0).setNext (1 + total Seg.size l) s.size).heapinfo
      (l ++ .busy s.size :: r) := by
  have hpos := ht.pos s (List.mem_append_right _ List.mem_cons_self)
  refine ht.setOther [.busy s.size] hs (by simp) (fun t ht => ?_) (fun t ht => ?_) (fun p hp => ?_)
    fun b hout => ?_
  · rw [List.mem_singleton.mp ht]
    exact hpos
  · rw [List.mem_singleton.mp ht]
    rfl
  · rw [placed_cons, placed_nil, List.mem_singleton] at hp
    subst hp
    simp [Seg.Right]
  · have hne : b ≠ 1 + total Seg.size l := by omega
    exact Info.ext (by simp [hne]) (by simp [hne]) (by simp)

theorem setBusy_spec {s : Seg} (hb : Blocks h (l ++ s :: r)) (hs : s.isFree = false)
    (hin : 1 + total Seg.size l + s.size ≤ h.heapsize) :
    Blocks ((h.setSize (1 + total Seg.size l) 0).setNext (1 + total Seg.size l) s.size)
      (l ++ .busy s.size :: r) := by
  obtain ⟨hinl, hinr⟩ := inTable_append.mp hb.inTable
  have hentries : h.Entries ((h.setSize (1 + total Seg.size l) 0).setNext (1 + total Seg.size l)
      s.size) := (entries_setSize _ _).trans (entries_setNext _ _)
  refine ⟨table_setBusy hb.toTable hs, hentries.taken.space hb.toSpace (by simp), ?_, ?_⟩
  · have hindex := hb.index
    rw [frees_append, frees_cons_of_not hs] at hindex
    rw [frees_append, frees_cons_of_not rfl]
    exact hindex
  · exact inTable_append.mpr ⟨hinl, inTable_cons.mpr ⟨fun _ => hin, (inTable_cons.mp hinr).2⟩⟩

theorem takeBlocks_spec (hb : Blocks h (l ++ .free m :: r)) (hn : 0 < n) (hle : n ≤ m) :
    ∃ h', h.takeBlocks n (1 + total Seg.size l) = (h.address (1 + total Seg.size l), h') ∧
      h.Taken h' ∧ Blocks h' (l ++ .busy n :: rest m n r) := by
  have hright := hb.right _ (mem_placed 1 l (.free m) r)
  have hin := hb.inTable _ (mem_placed 1 l (.free m) r) rfl
  have hentries : ∀ h' : Heap, h'.Taken ((h'.setSize (1 + total Seg.size l) 0).setNext
      (1 + total Seg.size l) n) :=
    fun h' => ((entries_setSize _ _).trans (entries_setNext _ _)).taken
  simp only [Seg.Right] at hright
  simp only [Seg.size_free] at hin
  rw [takeBlocks, hright, rest]
  by_cases hlt : m > n
  · rw [if_pos hlt, if_pos hlt]
    refine ⟨_, rfl, (taken_splitBlocks _ _).trans (hentries _), ?_⟩
    refine setBusy_spec (s := .other n) (splitBlocks_spec hb hn hlt) rfl ?_
    change _ ≤ h.heapsize
    simp only [Seg.size_other]
    omega
  · obtain rfl : m = n := by omega
    rw [if_neg hlt, if_neg hlt]
    refine ⟨_, rfl, (taken_unlinkBlocks _).trans (hentries _), ?_⟩
    exact setBusy_spec (s := .other m) (unlinkBlocks_spec hb) rfl hin

/-! ## More memory -/

theorem align_spec (hs : Space h segs) (hn : 0 < n) (hlt : n * 4096 < 2 ^ 31) :
    ∃ grants mem, (∀ a < h.brk, mem a = h.mem a) ∧
      (h.align (n * 4096) =
          (h.brk, { h with brk := h.brk + n * 4096, grants := grants, mem := mem }) ∧
        h.brk + n * 4096 < PHYS_MAP ∨
      h.align (n * 4096) = (0, { h with grants := grants, mem := mem })) := by
  obtain ⟨grants, mem, hmem, hmore⟩ := moreBreak_pos hs.brk_lt hn hlt
  have hbrk := hs.brk
  have hbase := hs.base
  refine ⟨grants, mem, hmem, hmore.imp (fun hok => ⟨?_, hok.2⟩) fun hfail => ?_⟩
  · have hmod : h.brk % BLOCKSIZE = 0 := by
      change h.brk % 4096 = 0
      omega
    rw [align, hok.1]
    dsimp only
    rw [if_neg (not_not.mpr hmod)]
  · rw [align, hfail]
    rfl

theorem newSize_spec (limit k : ℕ) {size : ℕ} (hsize : 0 < size) (hlimit : limit ≤ size * 2 ^ k) :
    limit ≤ newSize limit k size ∧ (∃ j, newSize limit k size = size * 2 ^ j) ∧
      (newSize limit k size = size ∨ newSize limit k size < 2 * limit) := by
  induction k generalizing size with
  | zero => exact ⟨by simpa [newSize] using hlimit, ⟨0, by simp [newSize]⟩, .inl rfl⟩
  | succ k ih =>
    rw [newSize]
    by_cases hlt : limit > size
    · rw [if_pos hlt]
      obtain ⟨hle, ⟨j, hj⟩, hbound⟩ := ih (Nat.mul_pos hsize two_pos)
        (by rw [pow_succ] at hlimit; linarith)
      refine ⟨hle, ⟨j + 1, by rw [hj, pow_succ]; ring⟩, .inr ?_⟩
      rcases hbound with h | h
      · omega
      · exact h
    · rw [if_neg hlt]
      exact ⟨by omega, ⟨0, by simp⟩, .inl rfl⟩

/-! ## A larger table -/

/-- The segments when the old table, if it moved, is free. -/
structure Moved (segs segs' : List Seg) : Prop where
  total : total Seg.size segs' = total Seg.size segs
  coalesced : Coalesced segs'
  used : part Seg.isUsed 1 segs' = part Seg.isUsed 1 segs
  endsFree : ∀ x m, segs = x ++ [.free m] → ∃ x' m', segs' = x' ++ [.free m'] ∧ m ≤ m'

/-- What `morecore` changes. What is below the break stays. -/
def Grown (h h' : Heap) : Prop := ∃ brk grants mem tableAddr info heapsize index limit,
  (∀ a < h.brk, mem a = h.mem a) ∧ h' = { h with
    brk := brk, grants := grants, mem := mem, tableAddr := tableAddr, heapinfo := info,
    heapsize := heapsize, heapindex := index, heaplimit := limit }

theorem part_singleton_of {b : ℕ} {s : Seg} {q : Seg → Bool} (h : part q 1 segs = [(b, s)]) :
    ∃ l r, segs = l ++ s :: r ∧ b = 1 + total Seg.size l ∧ part q 1 l = [] ∧
      part q (1 + total Seg.size l + s.size) r = [] := by
  have hmem : (b, s) ∈ part q 1 segs := by
    rw [h]
    exact List.mem_cons_self
  obtain ⟨hplaced, hq⟩ := mem_part.mp hmem
  obtain ⟨l, r, rfl, rfl⟩ := split_of_mem hplaced
  rw [part_append, part_cons_of_pos hq] at h
  cases hl : part q 1 l with
  | nil =>
    rw [hl, List.nil_append] at h
    exact ⟨l, r, rfl, rfl, hl, (List.cons.inj h).2⟩
  | cons p l' =>
    rw [hl] at h
    have hlen := congrArg List.length h
    simp at hlen

/-- The table moves behind the new memory, and the old one is freed. -/
theorem moveTable_spec {t' newsize : ℕ} (ht : Table h.heapinfo segs)
    (hs : Space h (segs ++ .other n :: [.other t'])) (hindex : h.heapindex ∈ 0 :: frees 1 segs)
    (hin : InTable h.heapsize 1 segs) (honly : OnlyTable h segs) (hco : Coalesced segs) (hn : 0 < n)
    (ht' : t' * 4096 = newsize * 12) (hsize : 1 + total Seg.size segs + n ≤ newsize)
    (hle : h.heapsize < newsize) : ∃ h' segs',
    h.moveTable (h.address (1 + total Seg.size segs + n)) newsize = some h' ∧
      h.Grown h' ∧ h'.heapsize = newsize ∧ Blocks h' (segs' ++ .other n :: [.other t']) ∧
      OnlyTable h' (segs' ++ .busy n :: [.other t']) ∧ Moved segs segs' := by
  obtain ⟨b, t, hpart, haddr, hsize'⟩ := honly
  obtain ⟨l, r, rfl, rfl, hl, hr⟩ := part_singleton_of hpart
  rw [Seg.size_other] at hr
  have htpos : 0 < t := ht.pos (.other t) (List.mem_append_right _ List.mem_cons_self)
  have hold : h.block h.tableAddr = 1 + total Seg.size l := by
    rw [haddr, block_address _ (by omega)]
  have hblockify : blockify (h.heapsize * INFO_SIZE) = t := by
    have hbrk := hs.brk
    have hlt := hs.brk_lt
    simp at hbrk
    change blockify (h.heapsize * 12) = t
    rw [← hsize', blockify_eq (by omega)]
    omega
  have hassoc : (l ++ .other t :: r) ++ .other n :: [.other t'] =
      l ++ .other t :: (r ++ [.other n, .other t']) := by simp
  rw [hassoc] at hs
  -- the new table, with an entry for the old one
  obtain ⟨old, hold'⟩ : ∃ old : Heap, old = { h with
    tableAddr := h.address (1 + total Seg.size (l ++ .other t :: r) + n)
    heapinfo := fun b =>
      if b < h.heapsize then h.heapinfo b else if b < newsize then ⟨0, 0, 0⟩ else h.heapinfo b } :=
    ⟨_, rfl⟩
  have htable : Table old.heapinfo (l ++ .other t :: (r ++ [.other n, .other t'])) := by
    rw [← hassoc, List.append_cons]
    refine ((ht.congr hin (by omega) fun b hb => ?_).concat hn).concat (by omega)
    rw [hold']
    exact if_pos hb
  have hbusy := table_setBusy htable rfl
  rw [Seg.size_other] at hbusy
  have hspace : Space ((old.setSize (1 + total Seg.size l) 0).setNext (1 + total Seg.size l) t)
      (l ++ .busy t :: (r ++ [.other n, .other t'])) := by
    rw [hold']
    refine ⟨hs.base_pos, hs.base, ?_, hs.brk_lt⟩
    have hbrk := hs.brk
    simp only [total_append, total_cons, Seg.size_busy, Seg.size_other] at hbrk ⊢
    exact hbrk
  have hfrees : frees 1 (l ++ .busy t :: (r ++ [.other n, .other t'])) =
      frees 1 (l ++ .other t :: r) := by
    rw [frees_append, frees_append, frees_cons_of_not rfl, frees_cons_of_not rfl, frees_append,
      frees_cons_of_not rfl, frees_cons_of_not rfl, frees_nil, List.append_nil]
    rfl
  have hindex' : ((old.setSize (1 + total Seg.size l) 0).setNext (1 + total Seg.size l) t).heapindex ∈
      0 :: frees 1 (l ++ .busy t :: (r ++ [.other n, .other t'])) := by
    rw [hold', hfrees]
    exact hindex
  have hfuel : (frees 1 (l ++ .busy t :: (r ++ [.other n, .other t']))).length ≤
      ((old.setSize (1 + total Seg.size l) 0).setNext (1 + total Seg.size l) t).heapsize := by
    rw [hold', hfrees]
    exact length_frees ht.pos hin
  obtain ⟨h₃, segs₃, hfree, hfreed, ht₃, hs₃, hindex₃, hm⟩ :=
    freeBlocks_spec hbusy hspace hindex' hfuel
  obtain ⟨segs', rfl, hm'⟩ := hm.of_append rfl
  have hpart' : ∀ q : Seg → Bool, (∀ k, q (.free k) = false) → q (.other t) = false →
      part q 1 segs' = part q 1 (l ++ .other t :: r) := by
    intro q hfree hother
    rw [hm'.part_eq hfree, part_append, part_cons_of_neg hother, Seg.size_other]
  refine ⟨{ h₃ with heapsize := newsize }, segs', ?_, ?_, rfl, ⟨ht₃, ⟨hs₃.1, hs₃.2, hs₃.3, hs₃.4⟩, hindex₃,
    ?_⟩, ⟨1 + total Seg.size segs' + n, t', ?_, ?_, ht'⟩, hm'.total.trans (by simp; omega), ?_,
    hpart' Seg.isUsed (fun _ => rfl) rfl, fun x m hx => ?_⟩
  · rw [moveTable, hold, hblockify, ← hold', hfree]
    rfl
  · obtain ⟨info, index, limit, brk, -, rfl⟩ := hfreed
    rw [hold']
    exact ⟨_, _, h.mem, _, _, _, _, _, fun _ _ => rfl, rfl⟩
  · refine inTable_append.mpr ⟨hm'.inTable ?_, inTable_cons.mpr ⟨nofun, inTable_cons.mpr ⟨nofun,
      nofun⟩⟩⟩
    obtain ⟨hinl, hinr⟩ := inTable_append.mp hin
    have hmono : ∀ b k, InTable h.heapsize b k → InTable newsize b k :=
      fun b k hk p hp ho => (hk p hp ho).trans hle.le
    refine inTable_append.mpr ⟨hmono _ _ hinl, inTable_cons.mpr ⟨fun _ => ?_,
      hmono _ _ (inTable_cons.mp hinr).2⟩⟩
    simp at hsize
    simp only [Seg.size_busy]
    omega
  · rw [part_append, part_cons_of_neg rfl, part_cons_of_pos rfl, part_nil, hm'.part_eq fun _ => rfl,
      hl, hr]
    rfl
  · have hbase : h₃.heapbase = h.heapbase ∧
        h₃.tableAddr = h.address (1 + total Seg.size (l ++ .other t :: r) + n) := by
      obtain ⟨info, index, limit, brk, -, rfl⟩ := hfreed
      rw [hold']
      exact ⟨rfl, rfl⟩
    have htotal : total Seg.size segs' = total Seg.size (l ++ .other t :: r) :=
      hm'.total.trans (by simp; omega)
    change h₃.tableAddr = (_ - 1) * BLOCKSIZE + h₃.heapbase
    rw [hbase.1, hbase.2, htotal, address]
  · exact hm'.coalesced (hco.left.cons (Coalesced.right (l := [.other t]) hco.right) rfl)
  · rcases List.eq_nil_or_concat r with rfl | ⟨r₁, s, rfl⟩
    · cases (List.cons.inj (List.append_inj_right' hx rfl)).1
    · rw [List.concat_eq_append] at hx hm'
      rw [← List.cons_append, ← List.append_assoc] at hx
      rw [List.append_inj_right' hx rfl] at hm'
      exact hm'.endsFree

/-- There is no memory, and nothing happens. -/
def Refused (h h' : Heap) : Prop := ∃ grants mem, (∀ a < h.brk, mem a = h.mem a) ∧
  h' = { h with grants := grants, mem := mem }

/-- There is memory at the end of the heap, before the table if it moved. -/
def Extended (h h' : Heap) (segs : List Seg) (n : ℕ) : Prop := ∃ segs' tail, h.Grown h' ∧
  Blocks h' (segs' ++ .other n :: tail) ∧ OnlyTable h' (segs' ++ .busy n :: tail) ∧
  Moved segs segs' ∧ 1 + total Seg.size segs + n ≤ h'.heapsize ∧
  (tail = [] ∨ ∃ t, tail = [.other t])

theorem growTable_spec {h₁ : Heap} {grants : List (Option Mem)} {mem : Mem} (hb : Blocks h segs)
    (honly : OnlyTable h segs) (hco : Coalesced segs) (hn : 0 < n) (hlt : n * 4096 < 2 ^ 31)
    (hmem : ∀ a < h.brk, mem a = h.mem a)
    (hh₁ : h₁ = { h with brk := h.brk + n * 4096, grants := grants, mem := mem })
    (hspace : h.brk + n * 4096 < PHYS_MAP) (hgrow : 1 + total Seg.size segs + n > h.heapsize) :
    ∃ r h', h₁.growTable h.brk (n * 4096) (1 + total Seg.size segs + n) = some (r, h') ∧
      (r = 0 ∧ h.Refused h' ∨ r = h.brk ∧ h.Extended h' segs n) := by
  have hbrk := hb.brk
  have hlt' : h.brk + n * 4096 < 8 * 1024 * 1024 := hspace
  have htotal : total Seg.size segs + n < 2048 := by omega
  have haddress : h.brk + n * 4096 = h.address (1 + total Seg.size segs + n) := by
    rw [Nat.add_assoc, address_succ]
    omega
  obtain ⟨b, t, hpart, haddr, hsize⟩ := honly
  have hpos : 0 < h.heapsize := by
    have ht := hb.pos (.other t) (by
      obtain ⟨l, r, rfl, -⟩ := part_singleton_of hpart
      exact List.mem_append_right _ List.mem_cons_self)
    rw [Seg.size_other] at ht
    omega
  obtain ⟨hle, ⟨j, hj⟩, hbound⟩ := newSize_spec (1 + total Seg.size segs + n) 32 hpos (by omega)
  obtain ⟨newsize, hnew⟩ : ∃ newsize,
      newsize = newSize (1 + total Seg.size segs + n) 32 h.heapsize := ⟨_, rfl⟩
  rw [← hnew] at hle hj hbound
  have htable : t * 2 ^ j * 4096 = newsize * 12 := by
    rw [hj, mul_right_comm, hsize, mul_right_comm]
  generalize t * 2 ^ j = t' at htable
  clear hj
  have hs₁ : Space h₁ (segs ++ [.other n]) := by
    rw [hh₁]
    refine ⟨hb.base_pos, hb.base, ?_, hspace⟩
    simp only [total_append, total_cons, total_nil, Seg.size_other]
    omega
  have hh₁' : h₁.heapsize = h.heapsize := by rw [hh₁]
  have hbrk₁ : h₁.brk = h.brk + n * 4096 := by rw [hh₁]
  have hsmall : newsize < 8192 := by
    rcases hbound with h | h
    · linarith
    · linarith
  obtain ⟨grants₂, mem₂, hmem₂, halign⟩ := align_spec hs₁ (n := t') (by linarith) (by linarith)
  have hmem' : ∀ a < h.brk, mem₂ a = h.mem a := by
    intro a ha
    rw [hmem₂ a (by omega), hh₁]
    exact hmem a ha
  have hinfo : newsize * INFO_SIZE = t' * 4096 := htable.symm
  rw [growTable, hh₁', ← hnew, hinfo]
  rcases halign with ⟨hok, hspace₂⟩ | hfail
  · have hne : h₁.brk ≠ 0 := by
      have hbase := hb.base_pos
      omega
    obtain ⟨h₂, hh₂⟩ : ∃ h₂ : Heap, h₂ = { h with
        brk := h.brk + n * 4096 + t' * 4096, grants := grants₂, mem := mem₂ } := ⟨_, rfl⟩
    have hok' : h₁.align (t' * 4096) = (h.brk + n * 4096, h₂) := by
      rw [hok, hh₂, hh₁]
    have hs₂ : Space h₂ (segs ++ .other n :: [.other t']) := by
      rw [hh₂]
      refine ⟨hb.base_pos, hb.base, ?_, hbrk₁ ▸ hspace₂⟩
      simp only [total_append, total_cons, total_nil, Seg.size_other]
      linarith
    have honly₂ : OnlyTable h₂ segs := by
      rw [hh₂]
      exact ⟨b, t, hpart, haddr, hsize⟩
    obtain ⟨h', segs', hmove, hgrown, hsize', hb', honly', hmoved⟩ := moveTable_spec (h := h₂) (n := n)
      (by rw [hh₂]; exact hb.toTable) hs₂ (by rw [hh₂]; exact hb.index)
      (by rw [hh₂]; exact hb.inTable) honly₂ hco hn htable hle
      (by rw [hh₂]; exact lt_of_lt_of_le hgrow hle)
    have haddress₂ : h₂.address (1 + total Seg.size segs + n) = h.brk + n * 4096 := by
      rw [haddress, hh₂]
      rfl
    rw [haddress₂] at hmove
    rw [hok']
    dsimp only
    rw [if_neg (hbrk₁ ▸ hne), hmove]
    refine ⟨h.brk, _, rfl, .inr ⟨rfl, segs', [.other t'], ?_, ⟨hb'.toTable, ?_, hb'.index,
      hb'.inTable⟩, ?_, hmoved, ?_, .inr ⟨t', rfl⟩⟩⟩
    · obtain ⟨_, _, mem', _, _, _, _, _, hmem₃, rfl⟩ := hgrown
      rw [hh₂] at hmem₃ ⊢
      exact ⟨_, _, mem', _, _, _, _, _,
        fun a ha => (hmem₃ a (lt_of_lt_of_le ha (by dsimp only; omega))).trans (hmem' a ha), rfl⟩
    · exact ⟨hb'.base_pos, hb'.base, hb'.brk, hb'.brk_lt⟩
    · obtain ⟨b, t, hpart, haddr, hsize⟩ := honly'
      exact ⟨b, t, hpart, haddr, hsize⟩
    · change _ ≤ h'.heapsize
      rw [hsize']
      exact hle
  · have hneg := moreBreak_neg (n := n)
      (h := { h₁ with grants := grants₂, mem := mem₂ }) (hbrk₁ ▸ hspace) (by rw [hbrk₁]; omega)
    rw [hfail]
    dsimp only
    rw [if_pos rfl, hneg]
    refine ⟨0, _, rfl, .inl ⟨rfl, grants₂, mem₂, hmem', ?_⟩⟩
    rw [hh₁]
    simp

theorem morecore_spec (hb : Blocks h segs) (honly : OnlyTable h segs) (hco : Coalesced segs)
    (hn : 0 < n) (hlt : n * 4096 < 2 ^ 31) : ∃ r h', h.morecore (n * 4096) = some (r, h') ∧
      (r = 0 ∧ h.Refused h' ∨ r = h.brk ∧ h.Extended h' segs n) := by
  obtain ⟨grants, mem, hmem, ⟨hok, hspace⟩ | hfail⟩ := align_spec hb.toSpace hn hlt
  · have hbrk := hb.brk
    have hbase := hb.base_pos
    obtain ⟨h₁, hh₁⟩ : ∃ h₁ : Heap, h₁ = { h with
      brk := h.brk + n * 4096, grants := grants, mem := mem } := ⟨_, rfl⟩
    have hlimit : h₁.block (h.brk + n * 4096) = 1 + total Seg.size segs + n := by
      have haddress : h.brk + n * 4096 = h₁.address (1 + total Seg.size segs + n) := by
        rw [Nat.add_assoc, address_succ, hh₁]
        dsimp only
        omega
      rw [haddress, block_address _ (by omega)]
    have hsize : h₁.heapsize = h.heapsize := by rw [hh₁]
    rw [morecore, hok, ← hh₁]
    dsimp only
    rw [if_neg (by omega), hlimit, hsize]
    by_cases hgrow : 1 + total Seg.size segs + n > h.heapsize
    · rw [if_pos hgrow]
      exact growTable_spec hb honly hco hn hlt hmem hh₁ hspace hgrow
    · rw [if_neg hgrow]
      refine ⟨h.brk, _, rfl, .inr ⟨rfl, segs, [], ?_, ?_, ?_, ⟨rfl, hco, rfl, fun x m hx =>
        ⟨x, m, hx, le_rfl⟩⟩, ?_, .inl rfl⟩⟩
      · rw [hh₁]
        exact ⟨_, _, mem, _, _, _, _, _, hmem, rfl⟩
      · rw [hh₁]
        refine ⟨hb.toTable.concat hn, ⟨hb.base_pos, hb.base, ?_, hspace⟩, ?_, ?_⟩
        · simp only [total_append, total_cons, total_nil, Seg.size_other]
          omega
        · rw [frees_append, frees_cons_of_not rfl, frees_nil, List.append_nil]
          exact hb.index
        · exact inTable_append.mpr ⟨hb.inTable, inTable_cons.mpr ⟨nofun, nofun⟩⟩
      · obtain ⟨b, t, hpart, haddr, hsize⟩ := honly
        rw [hh₁]
        refine ⟨b, t, ?_, haddr, hsize⟩
        rw [part_append, part_cons_of_neg rfl, part_nil, List.append_nil]
        exact hpart
      · exact not_lt.mp hgrow
  · rw [morecore, hfail]
    exact ⟨0, _, rfl, .inl ⟨rfl, grants, mem, hmem, rfl⟩⟩

/-! ## Allocated blocks -/

theorem Grown.refl (h : Heap) : h.Grown h :=
  ⟨h.brk, h.grants, h.mem, h.tableAddr, h.heapinfo, h.heapsize, h.heapindex, h.heaplimit,
    fun _ _ => rfl, rfl⟩

theorem Refused.refl (h : Heap) : h.Refused h := ⟨h.grants, h.mem, fun _ _ => rfl, rfl⟩

theorem Refused.trans {h₁ h₂ : Heap} (hr : h.Refused h₁) (hr' : h₁.Refused h₂) : h.Refused h₂ := by
  obtain ⟨_, _, hmem, rfl⟩ := hr
  obtain ⟨_, mem, hmem', rfl⟩ := hr'
  exact ⟨_, mem, fun a ha => (hmem' a ha).trans (hmem a ha), rfl⟩

theorem Refused.blocks {h' : Heap} (hr : h.Refused h') (hb : Blocks h segs) : Blocks h' segs := by
  obtain ⟨_, _, -, rfl⟩ := hr
  exact ⟨hb.toTable, ⟨hb.base_pos, hb.base, hb.brk, hb.brk_lt⟩, hb.index, hb.inTable⟩

theorem Refused.onlyTable {h' : Heap} (hr : h.Refused h') (ho : OnlyTable h segs) :
    OnlyTable h' segs := by
  obtain ⟨_, _, -, rfl⟩ := hr
  obtain ⟨b, t, hpart, haddr, hsize⟩ := ho
  exact ⟨b, t, hpart, haddr, hsize⟩

/-- `n` blocks were allocated at `p`. -/
def Allocated (h h' : Heap) (segs : List Seg) (n p : ℕ) : Prop := ∃ l r, h.Grown h' ∧
  Blocks h' (l ++ .busy n :: r) ∧ OnlyTable h' (l ++ .busy n :: r) ∧
  Coalesced (l ++ .busy n :: r) ∧ p = h'.address (1 + total Seg.size l) ∧
  part Seg.isUsed 1 segs = part Seg.isUsed 1 l ++ part Seg.isUsed (1 + total Seg.size l + n) r

theorem Refused.allocated {h₁ h' : Heap} {p : ℕ} (hr : h.Refused h₁)
    (ha : h₁.Allocated h' segs n p) : h.Allocated h' segs n p := by
  obtain ⟨l, r, hgrown, hrest⟩ := ha
  refine ⟨l, r, ?_, hrest⟩
  obtain ⟨_, _, hmem, rfl⟩ := hr
  obtain ⟨_, _, mem, _, _, _, _, _, hmem', rfl⟩ := hgrown
  exact ⟨_, _, mem, _, _, _, _, _, fun a ha => (hmem' a ha).trans (hmem a ha), rfl⟩

theorem Taken.onlyTable {h' : Heap} (ht : h.Taken h') (ho : OnlyTable h segs) :
    OnlyTable h' segs := by
  obtain ⟨_, _, rfl⟩ := ht
  obtain ⟨b, t, hpart, haddr, hsize⟩ := ho
  exact ⟨b, t, hpart, haddr, hsize⟩

theorem Grown.trans {h₁ h₂ : Heap} (hg : h.Grown h₁) (ht : h₁.Taken h₂) : h.Grown h₂ := by
  obtain ⟨_, _, mem, _, _, _, _, _, hmem, rfl⟩ := hg
  obtain ⟨_, _, rfl⟩ := ht
  exact ⟨_, _, mem, _, _, _, _, _, hmem, rfl⟩

theorem Grown.address {h' : Heap} (hg : h.Grown h') (b : ℕ) : h'.address b = h.address b := by
  obtain ⟨_, _, _, _, _, _, _, _, _, rfl⟩ := hg
  rfl

theorem Taken.address {h' : Heap} (ht : h.Taken h') (b : ℕ) : h'.address b = h.address b := by
  obtain ⟨_, _, rfl⟩ := ht
  rfl

theorem ulong_blocks (hlt : n * 4096 < 2 ^ 31) : ulong (n * BLOCKSIZE) = n * 4096 := by
  have hcast : ((n : ℤ) * (BLOCKSIZE : ℕ)) = (n * 4096 : ℕ) := by
    push_cast
    rfl
  rw [hcast, ulong_eq (by omega)]

/-- A table that moved, or nothing, is behind the new memory. -/
theorem part_tail {tail : List Seg} (ht : tail = [] ∨ ∃ t, tail = [.other t]) (b : ℕ) :
    part Seg.isUsed b tail = [] ∧ Coalesced tail := by
  rcases ht with rfl | ⟨t, rfl⟩
  · exact ⟨rfl, .nil⟩
  · exact ⟨rfl, .singleton _⟩

theorem coreBlocks_spec (hb : Blocks h segs) (honly : OnlyTable h segs) (hco : Coalesced segs)
    (hn : 0 < n) (hlt : n * 4096 < 2 ^ 31) : ∃ p h', h.coreBlocks n = some (p, h') ∧
      (p = 0 ∧ h.Refused h' ∨ h.Allocated h' segs n p) := by
  obtain ⟨r, h₁, hmore, hcases⟩ := morecore_spec hb honly hco hn hlt
  rw [coreBlocks, ulong_blocks hlt, hmore]
  rcases hcases with ⟨rfl, hrefused⟩ | ⟨rfl, segs', tail, hgrown, hb₁, honly₁, hmoved, hsize, htail⟩
  · exact ⟨0, h₁, rfl, .inl ⟨rfl, hrefused⟩⟩
  · have hbase := hb.base_pos
    have hbrk := hb.brk
    have hplace : h.brk = h₁.address (1 + total Seg.size segs') := by
      rw [hgrown.address, address_succ, hmoved.total, hbrk]
    have hblock : h₁.block h.brk = 1 + total Seg.size segs' := by
      rw [hplace, block_address _ (by omega)]
    have htaken : h₁.Taken ((h₁.setSize (1 + total Seg.size segs') 0).setNext
        (1 + total Seg.size segs') n) := ((entries_setSize _ _).trans (entries_setNext _ _)).taken
    obtain ⟨hused, hco'⟩ := part_tail htail (1 + total Seg.size segs' + n)
    have hne : h.brk ≠ 0 := by omega
    refine ⟨h.brk, _, by simp only [Option.map_some, if_neg hne, hblock], .inr ⟨segs', tail,
      hgrown.trans htaken, ?_, htaken.onlyTable honly₁, hmoved.coalesced.cons hco' rfl, ?_, ?_⟩⟩
    · refine setBusy_spec (s := .other n) hb₁ rfl ?_
      rw [hmoved.total]
      exact hsize
    · rw [hplace]
      rfl
    · rw [hused, List.append_nil, hmoved.used]

end Heap

end Vmm386.Malloc
