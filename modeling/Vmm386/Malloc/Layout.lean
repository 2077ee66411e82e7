import Mathlib.Data.Finset.Card
import Vmm386.Lib.Pieces
import Vmm386.Lib.TwoWay
import Vmm386.Malloc.Malloc

/-!
# The layout of the heap

The blocks of the heap, from the first one to the break, are segments side by side: free and busy
clusters, blocks that are broken up, and blocks that the entries of the table say nothing about, such as
those of the table. The entries represent the segments.
-/

namespace Vmm386.Malloc

open Pieces TwoWay

/-- A segment of the heap. `avail` are the numbers of the free fragments, in the order of their list. -/
inductive Seg where
  | free (n : ℕ)
  | busy (n : ℕ)
  | frags (log : ℕ) (avail : List ℕ)
  | other (n : ℕ)

namespace Seg

/-- Its blocks. -/
def size : Seg → ℕ
  | free n => n
  | busy n => n
  | frags _ _ => 1
  | other n => n

def isFree : Seg → Bool
  | free _ => true
  | _ => false

/-- The table says nothing about it. -/
def isOther : Seg → Bool
  | other _ => true
  | _ => false

/-- It was allocated. -/
def isUsed : Seg → Bool
  | busy _ => true
  | frags _ _ => true
  | _ => false

/-- The entry of its first block. The links of a free cluster are those of a ring. -/
def Right (i : Info) : Seg → Prop
  | free n => i.size = n
  | busy n => i.type = 0 ∧ i.busySize = n
  | frags log avail => i.type = log ∧ i.nfree = avail.length ∧ ∀ k ∈ avail.head?, i.first = k
  | other _ => True

@[simp] theorem size_free (n : ℕ) : (free n).size = n := rfl
@[simp] theorem size_busy (n : ℕ) : (busy n).size = n := rfl
@[simp] theorem size_frags (log : ℕ) (avail : List ℕ) : (frags log avail).size = 1 := rfl
@[simp] theorem size_other (n : ℕ) : (other n).size = n := rfl

theorem eq_free {s : Seg} (h : s.isFree) : ∃ n, s = free n := by
  cases s with
  | free n => exact ⟨n, rfl⟩
  | busy n => cases h
  | frags log avail => cases h
  | other n => cases h

/-- Only the size is read of the entry of a free cluster. -/
theorem Right.congr {s : Seg} {i i' : Info} (h : s.Right i) (hsize : i'.size = i.size)
    (hlinks : s.isFree = false → i' = i) : s.Right i' := by
  cases s with
  | free n => exact hsize.trans h
  | busy n => exact (hlinks rfl).symm ▸ h
  | frags log avail => exact (hlinks rfl).symm ▸ h
  | other n => trivial

end Seg

/-- The places of the free clusters. -/
def frees (b : ℕ) : List Seg → List ℕ
  | [] => []
  | s :: l => if s.isFree then b :: frees (b + s.size) l else frees (b + s.size) l

variable {b c : ℕ} {l r segs : List Seg} {s : Seg}

@[simp] theorem frees_nil (b : ℕ) : frees b [] = [] := rfl

@[simp] theorem frees_append (b : ℕ) (l r : List Seg) :
    frees b (l ++ r) = frees b l ++ frees (b + total Seg.size l) r := by
  induction l generalizing b with
  | nil => rfl
  | cons s l ih =>
    rw [List.cons_append, frees, frees, ih, total_cons, Nat.add_assoc]
    split
    · rfl
    · rfl

@[simp] theorem frees_free (b n : ℕ) (l : List Seg) :
    frees b (.free n :: l) = b :: frees (b + n) l := rfl

theorem frees_cons_of_not (h : s.isFree = false) (b : ℕ) (l : List Seg) :
    frees b (s :: l) = frees (b + s.size) l := by
  rw [frees, h]
  exact if_neg nofun

theorem frees_eq_nil (h : ∀ s ∈ segs, s.isFree = false) : frees b segs = [] := by
  induction segs generalizing b with
  | nil => rfl
  | cons s l ih =>
    rw [frees_cons_of_not (h s List.mem_cons_self)]
    exact ih fun t ht => h t (List.mem_cons_of_mem s ht)

theorem mem_frees : c ∈ frees b segs ↔ ∃ n, (c, Seg.free n) ∈ placed Seg.size b segs := by
  induction segs generalizing b with
  | nil => exact ⟨nofun, nofun⟩
  | cons s l ih =>
    rw [placed_cons, frees]
    constructor
    · intro h
      split at h
      · rename_i hs
        rcases List.mem_cons.mp h with rfl | h
        · cases s with
          | free n => exact ⟨n, List.mem_cons_self⟩
          | busy n => cases hs
          | frags log avail => cases hs
          | other n => cases hs
        · obtain ⟨n, hn⟩ := ih.mp h
          exact ⟨n, List.mem_cons_of_mem _ hn⟩
      · obtain ⟨n, hn⟩ := ih.mp h
        exact ⟨n, List.mem_cons_of_mem _ hn⟩
    · intro ⟨n, h⟩
      rcases List.mem_cons.mp h with heq | h
      · cases heq
        exact List.mem_cons_self
      · split
        · exact List.mem_cons_of_mem _ (ih.mpr ⟨n, h⟩)
        · exact ih.mpr ⟨n, h⟩

/-- A free cluster is in the range of the segments. -/
theorem frees_bounds (hpos : ∀ s ∈ segs, 0 < s.size) (h : c ∈ frees b segs) :
    b ≤ c ∧ c < b + total Seg.size segs := by
  obtain ⟨n, hn⟩ := mem_frees.mp h
  obtain ⟨l₁, l₂, rfl, rfl⟩ := split_of_mem hn
  have hsize := hpos (.free n) (List.mem_append_right _ List.mem_cons_self)
  rw [total_append, total_cons]
  omega

theorem nodup_frees (hpos : ∀ s ∈ segs, 0 < s.size) : (frees b segs).Nodup := by
  induction segs generalizing b with
  | nil => exact List.nodup_nil
  | cons s l ih =>
    have hl := fun t ht => hpos t (List.mem_cons_of_mem s ht)
    rw [frees]
    split
    · refine List.nodup_cons.mpr ⟨fun hmem => ?_, ih hl⟩
      have hge := (frees_bounds hl hmem).1
      have hsize := hpos s List.mem_cons_self
      omega
    · exact ih hl

theorem placed_pos {p : ℕ × Seg} (hpos : ∀ s ∈ segs, 0 < s.size)
    (hp : p ∈ placed Seg.size b segs) : 0 < p.2.size := by
  obtain ⟨l₁, l₂, rfl, -⟩ := split_of_mem hp
  exact hpos p.2 (List.mem_append_right _ List.mem_cons_self)

/-- No other segment is at the place of a free cluster. -/
theorem not_mem_frees {p : ℕ × Seg} (hpos : ∀ s ∈ segs, 0 < s.size)
    (hp : p ∈ placed Seg.size b segs) (hs : p.2.isFree = false) : p.1 ∉ frees b segs := by
  intro hmem
  obtain ⟨n, hn⟩ := mem_frees.mp hmem
  have hp' := placed_pos hpos hp
  have hn' := placed_pos hpos hn
  rcases eq_or_apart hp hn with heq | h | h
  · rw [heq] at hs
    cases hs
  · dsimp only at h
    omega
  · dsimp only at h hn'
    omega

/-! ## The table -/

/-- The entries represent the segments. -/
structure Table (info : ℕ → Info) (segs : List Seg) : Prop where
  pos : ∀ s ∈ segs, 0 < s.size
  root : (info 0).size = 0
  ring : Linked (fun b => (info b).next) (fun b => (info b).prev) (fun _ => True)
    (0 :: (frees 1 segs ++ [0]))
  right : ∀ p ∈ placed Seg.size 1 segs, p.2.Right (info p.1)

namespace Table

variable {info info' : ℕ → Info} {n : ℕ}

/-- The free cluster before a place, or the root. -/
def before (l : List Seg) : ℕ := (frees 1 l).getLastD 0

/-- The free cluster from a place on, or the root. -/
def behind (b : ℕ) (r : List Seg) : ℕ := (frees b r).headD 0

theorem behind_cons_of_not (hs : s.isFree = false) (b : ℕ) (r : List Seg) :
    behind b (s :: r) = behind (b + s.size) r := by
  rw [behind, frees_cons_of_not hs, behind]

theorem before_lt (hpos : ∀ s ∈ l, 0 < s.size) : before l < 1 + total Seg.size l := by
  rcases List.mem_cons.mp (getLastD_mem (frees 1 l) 0) with h | h
  · rw [before, h]
    omega
  · exact (frees_bounds hpos h).2

theorem behind_eq_or (hpos : ∀ s ∈ r, 0 < s.size) : behind b r = 0 ∨ b ≤ behind b r := by
  rcases List.mem_append.mp (headD_mem (frees b r) 0) with h | h
  · exact .inr (frees_bounds hpos h).1
  · exact .inl (List.mem_singleton.mp h)

/-- The links around a segment that is not free. -/
theorem links_of_not (ht : Table info (l ++ s :: r)) (hs : s.isFree = false) :
    (info (before l)).next = behind (1 + total Seg.size l + s.size) r ∧
      (info (behind (1 + total Seg.size l + s.size) r)).prev = before l := by
  have hring := ht.ring
  rw [frees_append, frees_cons_of_not hs, List.append_assoc] at hring
  exact ⟨hring.next_last, hring.prev_head trivial⟩

/-- The links around a free cluster, and its own ones. -/
theorem links_of_free (ht : Table info (l ++ .free n :: r)) :
    ((info (before l)).next = 1 + total Seg.size l ∧
      (info (1 + total Seg.size l)).prev = before l) ∧
    (info (1 + total Seg.size l)).next = behind (1 + total Seg.size l + n) r ∧
      (info (behind (1 + total Seg.size l + n) r)).prev = 1 + total Seg.size l := by
  have hring := ht.ring
  rw [frees_append, frees_free, List.append_assoc, List.cons_append] at hring
  have hassoc := hring
  rw [List.append_cons] at hassoc
  have hlast := hassoc.next_last
  have hhead := hassoc.prev_head trivial
  rw [List.getLastD_concat] at hlast hhead
  exact ⟨⟨hring.next_last (r := _ :: _), hring.prev_eq trivial⟩, hlast, hhead⟩

/-- Segments that are replaced by others of the same size. -/
theorem replace (old new : List Seg) (ht : Table info (l ++ (old ++ r)))
    (hsize : total Seg.size new = total Seg.size old)
    (hpos : ∀ s ∈ new, 0 < s.size)
    (hlinks : Linked (fun b => (info' b).next) (fun b => (info' b).prev) (fun _ => True)
      (before l :: (frees (1 + total Seg.size l) new ++
        [behind (1 + total Seg.size l + total Seg.size old) r])))
    (hright : ∀ p ∈ placed Seg.size (1 + total Seg.size l) new, p.2.Right (info' p.1))
    (hsame : ∀ b, b < 1 + total Seg.size l ∨ 1 + total Seg.size l + total Seg.size old ≤ b →
      (info' b).size = (info b).size ∧ (b ≠ before l → (info' b).next = (info b).next) ∧
        (b ≠ behind (1 + total Seg.size l + total Seg.size old) r →
          (info' b).prev = (info b).prev)) :
    Table info' (l ++ (new ++ r)) := by
  have hposl := fun s hs => ht.pos s (List.mem_append_left _ hs)
  have hposr := fun s hs => ht.pos s (List.mem_append_right _ (List.mem_append_right _ hs))
  have hbefore := before_lt hposl
  have hbehind := behind_eq_or (b := 1 + total Seg.size l + total Seg.size old) hposr
  -- a free cluster on the left or the right, or the root
  have hout : ∀ x, x = 0 ∨ x ∈ frees 1 l ∨
      x ∈ frees (1 + total Seg.size l + total Seg.size old) r →
      x < 1 + total Seg.size l ∨ 1 + total Seg.size l + total Seg.size old ≤ x := by
    rintro x (rfl | hx | hx)
    · exact .inl (by omega)
    · exact .inl (frees_bounds hposl hx).2
    · exact .inr (frees_bounds hposr hx).1
  refine ⟨?_, ?_, ?_, ?_⟩
  · intro s hs
    rcases List.mem_append.mp hs with hs | hs
    · exact hposl s hs
    rcases List.mem_append.mp hs with hs | hs
    · exact hpos s hs
    · exact hposr s hs
  · rw [(hsame 0 (.inl (by omega))).1]
    exact ht.root
  · have hring := ht.ring
    have hnd := nodup_frees (b := 1) ht.pos
    simp only [frees_append, List.append_assoc] at hring hnd ⊢
    rw [hsize]
    have hnd' : (frees 1 l ++ frees (1 + total Seg.size l + total Seg.size old) r).Nodup :=
      hnd.sublist (List.Sublist.append_left (List.sublist_append_right _ _) _)
    have hzero : 0 ∉ frees 1 l ++ frees (1 + total Seg.size l + total Seg.size old) r := by
      intro hmem
      rcases List.mem_append.mp hmem with hmem | hmem
      · have hge := (frees_bounds hposl hmem).1
        omega
      · have hge := (frees_bounds hposr hmem).1
        omega
    refine hring.splice hlinks (List.nodup_cons.mpr ⟨hzero, hnd'⟩) hzero
      (fun x hx hne => ?_) fun y hy hne _ => ?_
    · refine (hsame x (hout x ?_)).2.1 hne
      rcases List.mem_cons.mp hx with rfl | hx
      · exact .inl rfl
      · exact .inr (List.mem_append.mp hx)
    · refine (hsame y (hout y ?_)).2.2 hne
      rcases List.mem_append.mp hy with hy | hy
      · exact .inr (List.mem_append.mp hy)
      · exact .inl (List.mem_singleton.mp hy)
  · intro p hp
    have hp' := ht.right p
    rw [placed_append, placed_append] at hp hp'
    rw [hsize] at hp
    rcases List.mem_append.mp hp with hp | hp
    · have hbounds := bounds_of_mem hp
      have hsize' := placed_pos hposl hp
      have hkept := hsame p.1 (.inl (by omega))
      refine (hp' (List.mem_append_left _ hp)).congr hkept.1 fun hfree => ?_
      have hnot := not_mem_frees hposl hp hfree
      refine Info.ext hkept.1 (hkept.2.1 fun heq => ?_) (hkept.2.2 (by omega))
      rcases List.mem_cons.mp (getLastD_mem (frees 1 l) 0) with h | h
      · rw [before, h] at heq
        omega
      · exact hnot (heq ▸ h)
    rcases List.mem_append.mp hp with hp | hp
    · exact hright p hp
    · have hbounds := bounds_of_mem hp
      have hkept := hsame p.1 (.inr hbounds.1)
      refine (hp' (List.mem_append_right _ (List.mem_append_right _ hp))).congr hkept.1
        fun hfree => ?_
      have hnot := not_mem_frees hposr hp hfree
      refine Info.ext hkept.1 (hkept.2.1 (by omega)) (hkept.2.2 fun heq => ?_)
      rcases List.mem_append.mp (headD_mem (frees _ r) 0) with h | h
      · exact hnot (heq ▸ h)
      · rw [behind, List.mem_singleton.mp h] at heq
        omega

/-- A free cluster is unlinked. -/
theorem unlink (ht : Table info (l ++ .free n :: r)) (hsize : ∀ b, (info' b).size = (info b).size)
    (hnext : ∀ b, (info' b).next =
      if b = before l then behind (1 + total Seg.size l + n) r else (info b).next)
    (hprev : ∀ b, (info' b).prev =
      if b = behind (1 + total Seg.size l + n) r then before l else (info b).prev) :
    Table info' (l ++ .other n :: r) := by
  have hn : 0 < n := ht.pos (.free n) (List.mem_append_right _ List.mem_cons_self)
  refine ht.replace [.free n] [.other n] rfl (fun s hs => ?_) ?_ (fun p hp => ?_) fun b _ => ?_
  · rw [List.mem_singleton.mp hs]
    exact hn
  · rw [frees_cons_of_not rfl, frees_nil]
    simp [linked_cons_cons, linked_singleton, hnext, hprev]
  · rw [placed_cons, placed_nil, List.mem_singleton] at hp
    subst hp
    trivial
  · refine ⟨hsize b, fun hb => ?_, fun hb => ?_⟩
    · rw [hnext, if_neg hb]
    · rw [total_cons, total_nil, Seg.size_free, Nat.add_zero] at hb
      rw [hprev, if_neg hb]

/-- Entries that nothing is said about may be anything, and the blocks may be divided. -/
theorem setOther (new : List Seg) (ht : Table info (l ++ s :: r)) (hs : s.isFree = false)
    (hsize : total Seg.size new = s.size) (hpos : ∀ t ∈ new, 0 < t.size)
    (hnot : ∀ t ∈ new, t.isFree = false)
    (hright : ∀ p ∈ placed Seg.size (1 + total Seg.size l) new, p.2.Right (info' p.1))
    (hsame : ∀ b, b < 1 + total Seg.size l ∨ 1 + total Seg.size l + s.size ≤ b →
      info' b = info b) : Table info' (l ++ (new ++ r)) := by
  have hposl := fun s hs => ht.pos s (List.mem_append_left _ hs)
  have hposr := fun s hs => ht.pos s (List.mem_append_right _ (List.mem_cons_of_mem _ hs))
  have hs' := ht.pos s (List.mem_append_right _ List.mem_cons_self)
  have hbefore := before_lt hposl
  have hbehind := behind_eq_or (b := 1 + total Seg.size l + s.size) hposr
  obtain ⟨hnext, hprev⟩ := ht.links_of_not hs
  refine ht.replace [s] new (by simp [hsize]) hpos ?_ hright fun b hb => ?_
  · rw [frees_eq_nil hnot]
    refine linked_cons_cons.mpr ⟨⟨?_, fun _ => ?_⟩, linked_singleton _⟩
    · rw [hsame _ (.inl hbefore), hnext]
      simp
    · simp only [total_cons, total_nil, Nat.add_zero]
      rw [hsame _ (hbehind.imp (fun h => by omega) id), hprev]
  · rw [hsame b (by simpa using hb)]
    exact ⟨rfl, fun _ => rfl, fun _ => rfl⟩

/-- The end of a free cluster remains free. -/
theorem split {m : ℕ} (ht : Table info (l ++ .free m :: r)) (hn : 0 < n) (hlt : n < m)
    (hsize : ∀ b, (info' b).size =
      if b = 1 + total Seg.size l + n then m - n else (info b).size)
    (hnext : ∀ b, (info' b).next =
      if b = before l then 1 + total Seg.size l + n
      else if b = 1 + total Seg.size l + n then behind (1 + total Seg.size l + m) r
      else (info b).next)
    (hprev : ∀ b, (info' b).prev =
      if b = behind (1 + total Seg.size l + m) r then 1 + total Seg.size l + n
      else if b = 1 + total Seg.size l + n then before l
      else (info b).prev) : Table info' (l ++ (.other n :: .free (m - n) :: r)) := by
  have hposl := fun s hs => ht.pos s (List.mem_append_left _ hs)
  have hposr := fun s hs => ht.pos s (List.mem_append_right _ (List.mem_cons_of_mem _ hs))
  have hbefore := before_lt hposl
  have hbehind := behind_eq_or (b := 1 + total Seg.size l + m) hposr
  refine ht.replace [.free m] [.other n, .free (m - n)] ?_ (fun s hs => ?_) ?_ (fun p hp => ?_)
    fun b hb => ?_
  · simp
    omega
  · simp at hs
    rcases hs with rfl | rfl
    · exact hn
    · exact Nat.sub_pos_of_lt hlt
  · rw [frees_cons_of_not rfl, frees_free, frees_nil]
    have hu : 1 + total Seg.size l + n ≠ before l := by omega
    have hv : 1 + total Seg.size l + n ≠ behind (1 + total Seg.size l + m) r := by omega
    simp [linked_cons_cons, linked_singleton, hnext, hprev, hu, hv]
  · simp at hp
    rcases hp with rfl | rfl
    · trivial
    · simp [Seg.Right, hsize]
  · simp only [total_cons, total_nil, Seg.size_free, Nat.add_zero] at hb ⊢
    have hne : b ≠ 1 + total Seg.size l + n := by omega
    refine ⟨by simp [hsize, hne], fun hb => by simp [hnext, hne, hb], fun hb => ?_⟩
    simp [hprev, hne, hb]

/-- What is at the end of the heap goes. -/
theorem dropLast (ht : Table info (l ++ [s])) (hs : s.isFree = false) : Table info l := by
  have hring := ht.ring
  rw [frees_append, frees_cons_of_not hs, frees_nil, List.append_nil] at hring
  refine ⟨fun t h => ht.pos t (List.mem_append_left _ h), ht.root, hring, fun p hp => ?_⟩
  refine ht.right p ?_
  rw [placed_append]
  exact List.mem_append_left _ hp

/-- Blocks are added at the end of the heap. -/
theorem concat (ht : Table info l) (hn : 0 < n) : Table info (l ++ [.other n]) := by
  refine ⟨fun t h => ?_, ht.root, ?_, fun p hp => ?_⟩
  · rcases List.mem_append.mp h with h | h
    · exact ht.pos t h
    · rw [List.mem_singleton.mp h]
      exact hn
  · rw [frees_append, frees_cons_of_not rfl, frees_nil, List.append_nil]
    exact ht.ring
  · rw [placed_append] at hp
    rcases List.mem_append.mp hp with hp | hp
    · exact ht.right p hp
    · rw [placed_cons, placed_nil, List.mem_singleton] at hp
      subst hp
      trivial

end Table

/-! ## The break -/

theorem long_eq {v : ℤ} (hlo : -2 ^ 31 ≤ v) (hhi : v < 2 ^ 31) : long v = v :=
  Int.bmod_eq_of_le (by omega) (by omega)

theorem ulong_eq {v : ℕ} (h : v < 2 ^ 32) : ulong v = v := by
  rw [ulong, Int.emod_eq_of_lt (by omega) (by omega)]
  exact Int.toNat_natCast v

theorem blockify_eq {size : ℕ} (h : size + 4095 < 2 ^ 32) : blockify size = (size + 4095) / 4096 := by
  have hcast : ((size : ℤ) + (BLOCKSIZE : ℕ) - 1) = (size + 4095 : ℕ) := by
    push_cast
    omega
  rw [blockify, hcast, ulong_eq h]

/-- The segments are between the base of the heap and the break. -/
structure Space (h : Heap) (segs : List Seg) : Prop where
  base_pos : 0 < h.heapbase
  base : h.heapbase % 4096 = 0
  brk : h.brk = h.heapbase + total Seg.size segs * 4096
  brk_lt : h.brk < 8 * 1024 * 1024

namespace Heap

variable {h : Heap} {n : ℕ}

theorem address_succ (h : Heap) (k : ℕ) : h.address (1 + k) = h.heapbase + k * 4096 := by
  rw [address, Nat.add_sub_cancel_left, Nat.add_comm]

theorem block_address (h : Heap) {b : ℕ} (hb : 0 < b) : h.block (h.address b) = b := by
  rw [block, address, Nat.add_sub_cancel, Nat.mul_div_cancel _ (by decide)]
  omega

theorem moreBreak_zero (hbrk : h.brk < PHYS_MAP) : (h.moreBreak 0).1 = h.brk := by
  have hulong : ulong (h.brk + (0 + 3) / 4 * 4) = h.brk := by
    have heq : ((h.brk : ℤ) + (0 + 3) / 4 * 4) = h.brk := by omega
    rw [heq, ulong_eq (hbrk.trans (by decide))]
  rw [moreBreak, hulong, if_pos hbrk, if_pos le_rfl]

/-- Blocks go back to the system. -/
theorem moreBreak_neg (hbrk : h.brk < PHYS_MAP) (hn : n * 4096 ≤ h.brk) :
    h.moreBreak (long (-(n * 4096 : ℕ))) = (h.brk, { h with brk := h.brk - n * 4096 }) := by
  have hbound : h.brk < 8 * 1024 * 1024 := hbrk
  have hlong : long (-(n * 4096 : ℕ)) = -(n * 4096 : ℕ) := long_eq (by omega) (by omega)
  have hulong : ulong (h.brk + (-((n * 4096 : ℕ) : ℤ) + 3) / 4 * 4) = h.brk - n * 4096 := by
    have heq : ((h.brk : ℤ) + (-((n * 4096 : ℕ) : ℤ) + 3) / 4 * 4) =
        (h.brk - n * 4096 : ℕ) := by omega
    rw [heq, ulong_eq (by omega)]
  rw [moreBreak, hlong, hulong, if_pos (lt_of_le_of_lt (Nat.sub_le _ _) hbrk),
    if_pos (Nat.sub_le _ _)]

/-- The break is raised, or nothing happens. What is below the break stays. -/
theorem moreBreak_pos (hbrk : h.brk < PHYS_MAP) (hn : 0 < n) (hlt : n * 4096 < 2 ^ 31) :
    ∃ grants mem, (∀ a < h.brk, mem a = h.mem a) ∧
      (h.moreBreak (long (n * 4096 : ℕ)) =
          (h.brk, { h with brk := h.brk + n * 4096, grants := grants, mem := mem }) ∧
        h.brk + n * 4096 < PHYS_MAP ∨
      h.moreBreak (long (n * 4096 : ℕ)) = (0, { h with grants := grants, mem := mem })) := by
  have hbound : h.brk < 8 * 1024 * 1024 := hbrk
  have hlong : long (n * 4096 : ℕ) = (n * 4096 : ℕ) := long_eq (by omega) (by omega)
  have hulong : ulong (h.brk + (((n * 4096 : ℕ) : ℤ) + 3) / 4 * 4) = h.brk + n * 4096 := by
    have heq : ((h.brk : ℤ) + (((n * 4096 : ℕ) : ℤ) + 3) / 4 * 4) =
        (h.brk + n * 4096 : ℕ) := by omega
    rw [heq, ulong_eq (by omega)]
  rw [moreBreak, hlong, hulong]
  split
  · rename_i hspace
    rw [if_neg (by omega)]
    split
    · rename_i fresh grants _
      refine ⟨grants, _, fun a ha => ?_, .inl ⟨rfl, hspace⟩⟩
      exact if_neg (by omega)
    · exact ⟨_, h.mem, fun _ _ => rfl, .inr rfl⟩
    · exact ⟨h.grants, h.mem, fun _ _ => rfl, .inr rfl⟩
  · exact ⟨h.grants, h.mem, fun _ _ => rfl, .inr rfl⟩

end Heap

/-! ## The invariant of the blocks -/

/-- The segments of a kind, with their places. -/
def part (q : Seg → Bool) (b : ℕ) (segs : List Seg) : List (ℕ × Seg) :=
  (placed Seg.size b segs).filter fun p => q p.2

variable {q : Seg → Bool} {n : ℕ}

@[simp] theorem part_nil (q : Seg → Bool) (b : ℕ) : part q b [] = [] := rfl

@[simp] theorem part_append (q : Seg → Bool) (b : ℕ) (l r : List Seg) :
    part q b (l ++ r) = part q b l ++ part q (b + total Seg.size l) r := by
  rw [part, placed_append, List.filter_append, part, part]

theorem part_cons_of_pos (h : q s = true) (b : ℕ) (r : List Seg) :
    part q b (s :: r) = (b, s) :: part q (b + s.size) r :=
  List.filter_cons_of_pos h

theorem part_cons_of_neg (h : q s = false) (b : ℕ) (r : List Seg) :
    part q b (s :: r) = part q (b + s.size) r :=
  List.filter_cons_of_neg (by simp [h])

theorem mem_part {p : ℕ × Seg} :
    p ∈ part q b segs ↔ p ∈ placed Seg.size b segs ∧ q p.2 = true :=
  List.mem_filter

/-- What the table represents is in it. -/
def InTable (heapsize b : ℕ) (segs : List Seg) : Prop :=
  ∀ p ∈ placed Seg.size b segs, p.2.isOther = false → p.1 + p.2.size ≤ heapsize

theorem inTable_append {heapsize : ℕ} : InTable heapsize b (l ++ r) ↔
    InTable heapsize b l ∧ InTable heapsize (b + total Seg.size l) r := by
  rw [InTable, placed_append]
  exact List.forall_mem_append

theorem inTable_cons {heapsize : ℕ} : InTable heapsize b (s :: r) ↔
    (s.isOther = false → b + s.size ≤ heapsize) ∧ InTable heapsize (b + s.size) r := by
  rw [InTable, placed_cons]
  exact List.forall_mem_cons

/-- Only the entries of the table are read. -/
theorem Table.congr {info info' : ℕ → Info} {heapsize : ℕ} (ht : Table info segs)
    (hin : InTable heapsize 1 segs) (hpos : 0 < heapsize)
    (hsame : ∀ b < heapsize, info' b = info b) : Table info' segs := by
  have hfree : ∀ c ∈ 0 :: frees 1 segs, c < heapsize := by
    intro c hc
    rcases List.mem_cons.mp hc with rfl | hc
    · exact hpos
    · obtain ⟨n, hn⟩ := mem_frees.mp hc
      have hle := hin _ hn rfl
      have hn' := placed_pos ht.pos hn
      exact lt_of_lt_of_le (by omega) hle
  refine ⟨ht.pos, ?_, ht.ring.congr (fun c hc => ?_) fun c hc _ => ?_, fun p hp => ?_⟩
  · rw [hsame 0 hpos]
    exact ht.root
  · rw [← List.cons_append, List.dropLast_concat] at hc
    rw [hsame c (hfree c hc)]
  · rw [hsame c (hfree c ?_)]
    rcases List.mem_append.mp hc with hc | hc
    · exact List.mem_cons_of_mem 0 hc
    · rw [List.mem_singleton.mp hc]
      exact List.mem_cons_self
  · have hright := ht.right p hp
    by_cases hother : p.2.isOther = false
    · have hle := hin p hp hother
      have hpos' := placed_pos ht.pos hp
      rw [hsame p.1 (by omega)]
      exact hright
    · obtain ⟨c, s⟩ := p
      cases s with
      | free n => exact absurd rfl hother
      | busy n => exact absurd rfl hother
      | frags log avail => exact absurd rfl hother
      | other n => trivial

/-- The blocks of the heap. -/
structure Blocks (h : Heap) (segs : List Seg) : Prop extends Table h.heapinfo segs, Space h segs where
  index : h.heapindex ∈ 0 :: frees 1 segs
  inTable : InTable h.heapsize 1 segs

theorem length_frees {heapsize : ℕ} (hpos : ∀ s ∈ segs, 0 < s.size)
    (hin : InTable heapsize 1 segs) : (frees 1 segs).length ≤ heapsize := by
  have hsub : (frees 1 segs).toFinset ⊆ Finset.range heapsize := by
    intro c hc
    obtain ⟨n, hn⟩ := mem_frees.mp (List.mem_toFinset.mp hc)
    have hle := hin _ hn rfl
    have hn' := placed_pos hpos hn
    exact Finset.mem_range.mpr (by omega)
  have hcard := Finset.card_le_card hsub
  rwa [List.toFinset_card_of_nodup (nodup_frees hpos), Finset.card_range] at hcard

/-- The only blocks that the table says nothing about are its own. -/
def OnlyTable (h : Heap) (segs : List Seg) : Prop := ∃ b t, part Seg.isOther 1 segs = [(b, .other t)] ∧
  h.tableAddr = h.address b ∧ t * 4096 = h.heapsize * 12

theorem OnlyTable.congr {h : Heap} {segs' : List Seg} (ho : OnlyTable h segs)
    (heq : part Seg.isOther 1 segs' = part Seg.isOther 1 segs) : OnlyTable h segs' := by
  obtain ⟨b, t, hpart, haddr, hsize⟩ := ho
  exact ⟨b, t, heq.trans hpart, haddr, hsize⟩

/-- No two free clusters are side by side. -/
def Coalesced (segs : List Seg) : Prop := segs.IsChain fun s t => ¬(s.isFree ∧ t.isFree)

theorem Coalesced.left (hc : Coalesced (l ++ r)) : Coalesced l := (List.isChain_append.mp hc).1

theorem Coalesced.right (hc : Coalesced (l ++ r)) : Coalesced r := (List.isChain_append.mp hc).2.1

theorem Coalesced.free (hl : Coalesced l) (hr : Coalesced r) (hl' : ∀ l₁ m, l ≠ l₁ ++ [.free m])
    (hr' : ∀ k r₁, r ≠ .free k :: r₁) : Coalesced (l ++ .free n :: r) := by
  refine List.isChain_append.mpr ⟨hl, List.isChain_cons.mpr ⟨fun s hs hfree => ?_, hr⟩,
    fun s hs t ht hfree => ?_⟩
  · obtain ⟨r₁, rfl⟩ : ∃ r₁, r = s :: r₁ := by
      cases r with
      | nil => cases hs
      | cons t r => exact ⟨r, by rw [Option.some.inj hs]⟩
    obtain ⟨k, rfl⟩ := Seg.eq_free hfree.2
    exact hr' k r₁ rfl
  · obtain ⟨l₁, rfl⟩ : ∃ l₁, l = l₁ ++ [s] := by
      rw [Option.mem_def, List.getLast?_eq_some_iff] at hs
      exact hs
    obtain ⟨k, rfl⟩ := Seg.eq_free hfree.1
    exact hl' l₁ k rfl

theorem Coalesced.not_endsFree {m : ℕ} (hc : Coalesced (l ++ [.free m])) (l₁ : List Seg) (k : ℕ) :
    l ≠ l₁ ++ [.free k] := by
  rintro rfl
  refine (List.isChain_append.mp hc).2.2 (.free k) ?_ (.free m) rfl ⟨rfl, rfl⟩
  exact List.getLast?_concat

theorem Coalesced.not_startsFree {m : ℕ} (hc : Coalesced (.free m :: r)) (k : ℕ) (r₁ : List Seg) :
    r ≠ .free k :: r₁ := by
  rintro rfl
  exact (List.isChain_cons_cons.mp hc).1 ⟨rfl, rfl⟩

/-- A segment that is not free between two lists. -/
theorem Coalesced.cons (hl : Coalesced l) (hr : Coalesced r) (hs : s.isFree = false) :
    Coalesced (l ++ s :: r) := by
  refine List.isChain_append.mpr ⟨hl, List.isChain_cons.mpr ⟨fun t _ hfree => ?_, hr⟩,
    fun t _ u hu hfree => ?_⟩
  · rw [hs] at hfree
    exact nomatch hfree.1
  · obtain rfl : s = u := Option.some.inj hu
    rw [hs] at hfree
    exact nomatch hfree.2

end Vmm386.Malloc
