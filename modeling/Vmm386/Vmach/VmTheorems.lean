import Vmm386.Vmach.Vm

/-!
# The memory of a virtual machine

With the A20 gate disabled the page tables show the first 64K twice, and what the machine had
from 1M on is in `himem_ptes`. The entry of a page with the gate enabled, its home entry, is
what the gate does not change; each operation is described by what it does to the home
entries.
-/

namespace Vmm386.Vmach

open Mm

/-! ## Addresses -/

section Addresses

variable {lin k : ULong}

theorem user_pageDirOffset (h : lin < KERNEL_BASE_ADDR) : User (pageDirOffset lin) := by
  have h : lin.toNat < 4160749568 := h
  show (pageDirOffset lin).toNat < 992
  rw [toNat_pageDirOffset]
  omega

theorem pageDirOffset_and (lin : ULong) : pageDirOffset (lin &&& PAGE_MASK) = pageDirOffset lin := by
  apply BitVec.eq_of_toNat_eq
  rw [toNat_pageDirOffset, toNat_pageDirOffset, toNat_and_mask]
  omega

theorem pageTableOffset_and (lin : ULong) :
    pageTableOffset (lin &&& PAGE_MASK) = pageTableOffset lin := by
  apply BitVec.eq_of_toNat_eq
  rw [toNat_pageTableOffset, toNat_pageTableOffset, toNat_and_mask]
  omega

theorem toNat_lowAddr (h : k < 16) : (lowAddr k).toNat = k.toNat * 4096 := by
  have h : k.toNat < 16 := h
  rw [lowAddr, BitVec.toNat_mul]
  show k.toNat * 4096 % 2 ^ 32 = _
  omega

theorem toNat_highAddr (h : k < 16) : (highAddr k).toNat = 1048576 + k.toNat * 4096 := by
  have h' : k.toNat < 16 := h
  have hlow : (k * PAGE_SIZE).toNat = k.toNat * 4096 := toNat_lowAddr h
  rw [highAddr, BitVec.toNat_add, hlow]
  show (1048576 + k.toNat * 4096) % 2 ^ 32 = _
  omega

theorem toNat_add_256 (h : k < 16) : (256 + k).toNat = 256 + k.toNat := by
  have h : k.toNat < 16 := h
  rw [BitVec.toNat_add]
  show (256 + k.toNat) % 2 ^ 32 = _
  omega

theorem pageDirOffset_lowAddr (h : k < 16) : pageDirOffset (lowAddr k) = 0 := by
  have h' : k.toNat < 16 := h
  apply BitVec.eq_of_toNat_eq
  rw [toNat_pageDirOffset, toNat_lowAddr h]
  show _ = 0
  omega

theorem pageTableOffset_lowAddr (h : k < 16) : pageTableOffset (lowAddr k) = k := by
  have h' : k.toNat < 16 := h
  apply BitVec.eq_of_toNat_eq
  rw [toNat_pageTableOffset, toNat_lowAddr h]
  omega

theorem pageDirOffset_highAddr (h : k < 16) : pageDirOffset (highAddr k) = 0 := by
  have h' : k.toNat < 16 := h
  apply BitVec.eq_of_toNat_eq
  rw [toNat_pageDirOffset, toNat_highAddr h]
  show _ = 0
  omega

theorem pageTableOffset_highAddr (h : k < 16) : pageTableOffset (highAddr k) = 256 + k := by
  have h' : k.toNat < 16 := h
  apply BitVec.eq_of_toNat_eq
  rw [toNat_pageTableOffset, toNat_highAddr h, toNat_add_256 h]
  omega

end Addresses

/-! ## Home entries -/

/-- The entries of the pages from 1M to 1M + 64K. -/
abbrev IsHigh (i j : ULong) : Prop := i = 0 ∧ 256 ≤ j ∧ j < 272

theorem isHigh_add {k : ULong} (h : k < 16) : IsHigh 0 (256 + k) := by
  have h' : k.toNat < 16 := h
  refine ⟨rfl, ?_, ?_⟩
  · show 256 ≤ (256 + k).toNat
    rw [toNat_add_256 h]
    omega
  · show (256 + k).toNat < 272
    rw [toNat_add_256 h]
    omega

/-- The entries of the pages from 1M to 1M + 64K, counted from the first of them. -/
theorem IsHigh.eq_add {i j : ULong} (h : IsHigh i j) : ∃ k, k < 16 ∧ i = 0 ∧ j = 256 + k := by
  obtain ⟨hi, hle, hlt⟩ := h
  have hle : 256 ≤ j.toNat := hle
  have hlt : j.toNat < 272 := hlt
  have hk : (j - 256).toNat = j.toNat - 256 := by
    rw [BitVec.toNat_sub]
    show (2 ^ 32 - 256 + j.toNat) % 2 ^ 32 = _
    omega
  have hk' : j - 256 < 16 := by
    show (j - 256).toNat < 16
    omega
  refine ⟨j - 256, hk', hi, ?_⟩
  apply BitVec.eq_of_toNat_eq
  rw [toNat_add_256 hk', hk]
  omega

theorem add_256_ne {k q : ULong} (hk : k < 16) (hq : q < 16) : 256 + k ≠ q := by
  intro hc
  have hq : q.toNat < 16 := hq
  have hc := congrArg BitVec.toNat hc
  rw [toNat_add_256 hk] at hc
  omega

theorem add_sub_256 (k : ULong) : 256 + k - 256 = k := by
  rw [BitVec.add_comm, BitVec.add_sub_cancel]

theorem add_256_inj {k q : ULong} (h : 256 + k = 256 + q) : k = q := by
  rw [← add_sub_256 k, h, add_sub_256]

namespace VmSys

/-- Entry `j` of page table `i`. -/
def entry (s : VmSys) (i j : ULong) : ULong := s.mem.entry s.vm.pageDir i j

/-- The entry with the gate enabled. -/
def home (s : VmSys) (i j : ULong) : ULong :=
  if s.vm.a20State = false ∧ IsHigh i j then s.vm.himemPtes (j - 256) else s.entry i j

/-- Entry `i` of the page directory. -/
def pde (s : VmSys) (i : ULong) : ULong := s.mem.table s.vm.pageDir i

theorem getPte_eq (s : VmSys) (addr : ULong) :
    s.getPte addr = s.entry (pageDirOffset addr) (pageTableOffset addr) := rfl

theorem getPte_low (s : VmSys) {k : ULong} (h : k < 16) : s.getPte (lowAddr k) = s.entry 0 k := by
  rw [getPte_eq, pageDirOffset_lowAddr h, pageTableOffset_lowAddr h]

theorem getPte_high (s : VmSys) {k : ULong} (h : k < 16) :
    s.getPte (highAddr k) = s.entry 0 (256 + k) := by
  rw [getPte_eq, pageDirOffset_highAddr h, pageTableOffset_highAddr h]

end VmSys

/-- While the gate is disabled the pages from 1M on are those from 0 on, without being owned
twice. -/
def Twin (s : VmSys) : Prop :=
  s.vm.a20State = false → ∀ k, k < 16 →
    (Present (s.entry 0 (256 + k)) ↔ Present (s.entry 0 k)) ∧
      pteGetAddr (s.entry 0 (256 + k)) = pteGetAddr (s.entry 0 k) ∧
      ¬Freeable (s.entry 0 (256 + k))

/-- The page tables are in order. -/
structure Maps (s : VmSys) (l : List ULong) : Prop where
  tables : Tables s.mem s.vm.pageDir l
  dir : Present (s.pde 0)
  owned : ∀ i, User i → Present (s.pde i) → Freeable (s.pde i)
  kernel : ∀ i, ¬User i → ¬Freeable (s.pde i)
  twin : Twin s

/-- Nothing has changed in the page directory. -/
theorem Maps.of_pde {s s' : VmSys} {l l' : List ULong} (h : Maps s l)
    (htables : Tables s'.mem s'.vm.pageDir l') (hdir : ∀ i, s'.pde i = s.pde i)
    (htwin : Twin s') : Maps s' l' where
  tables := htables
  dir := by
    rw [hdir]
    exact h.dir
  owned i hi hp := by
    rw [hdir] at hp ⊢
    exact h.owned i hi hp
  kernel i hi := by
    rw [hdir]
    exact h.kernel i hi
  twin := htwin

/-! ## The A20 gate -/

section Gate

variable {s : VmSys} {l : List ULong}

/-- One more of the pages from 1M on has its entry changed. -/
theorem ite_high_succ {k i j e : ULong} {n : ℕ} {w : ULong → ULong} (hlt : k < 16)
    (hk : k.toNat = n) :
    (if i = 0 ∧ j = 256 + k then w k
      else if i = 0 ∧ 256 ≤ j.toNat ∧ j.toNat < 256 + n then w (j - 256) else e) =
      if i = 0 ∧ 256 ≤ j.toNat ∧ j.toNat < 256 + (n + 1) then w (j - 256) else e := by
  have hadd := toNat_add_256 hlt
  by_cases hij : i = 0 ∧ j = 256 + k
  · obtain ⟨rfl, rfl⟩ := hij
    rw [if_pos ⟨rfl, rfl⟩, if_pos ⟨rfl, by omega, by omega⟩, add_sub_256]
  · have hne : i = 0 → j.toNat ≠ 256 + n := by
      intro hi hj
      refine hij ⟨hi, BitVec.eq_of_toNat_eq ?_⟩
      rw [hadd, hk, hj]
    rw [if_neg hij]
    refine if_congr ?_ rfl rfl
    constructor
    · rintro ⟨hi, hle, hn⟩
      exact ⟨hi, hle, by omega⟩
    · rintro ⟨hi, hle, hn⟩
      have := hne hi
      exact ⟨hi, hle, by omega⟩

/-- `set_gate_a20` when it disables the gate, after `n` iterations. -/
theorem foldl_aliasHigh (h : Tables s.mem s.vm.pageDir l) (hdir : Present (s.pde 0)) {n : ℕ}
    (hn : n ≤ 16) :
    ∃ m himem, (List.range n).foldl VmSys.aliasHigh s =
        { s with mem := m, vm := { s.vm with himemPtes := himem } } ∧
      Tables m s.vm.pageDir l ∧ (∀ i, m.table s.vm.pageDir i = s.pde i) ∧
      (∀ i j, User i → m.entry s.vm.pageDir i j =
        if i = 0 ∧ 256 ≤ j.toNat ∧ j.toNat < 256 + n then
          s.entry 0 (j - 256) &&& ~~~PTE_FREEABLE
        else s.entry i j) ∧
      ∀ k, k < 16 → himem k = if k.toNat < n then s.entry 0 (256 + k) else s.vm.himemPtes k := by
  induction n with
  | zero =>
    refine ⟨s.mem, s.vm.himemPtes, rfl, h, fun _ => rfl, ?_, fun k _ => rfl⟩
    intro i j _
    rw [if_neg (by omega)]
    rfl
  | succ n ih =>
    obtain ⟨m, himem, heq, htables, htable, hentry, hsaved⟩ := ih (by omega)
    have hk : (BitVec.ofNat 32 n : ULong).toNat = n := by
      rw [BitVec.toNat_ofNat]
      omega
    have hlt : (BitVec.ofNat 32 n : ULong) < 16 := by
      show (BitVec.ofNat 32 n : ULong).toNat < 16
      omega
    generalize hkk : (BitVec.ofNat 32 n : ULong) = k at *
    have hhigh : m.getPte s.vm.pageDir (highAddr k) = s.entry 0 (256 + k) := by
      show m.entry s.vm.pageDir (pageDirOffset _) (pageTableOffset _) = _
      rw [pageDirOffset_highAddr hlt, pageTableOffset_highAddr hlt, hentry 0 _ (by decide),
        if_neg (by rw [toNat_add_256 hlt]; omega)]
    have hlow : m.getPte s.vm.pageDir (lowAddr k) = s.entry 0 k := by
      show m.entry s.vm.pageDir (pageDirOffset _) (pageTableOffset _) = _
      rw [pageDirOffset_lowAddr hlt, pageTableOffset_lowAddr hlt, hentry 0 _ (by decide),
        if_neg (by omega)]
    obtain ⟨htables', htable', hentry'⟩ := htables.setPte_of_present (highAddr k)
      (s.entry 0 k &&& ~~~PTE_FREEABLE)
      (by rw [pageDirOffset_highAddr hlt]; decide)
      (by rw [pageDirOffset_highAddr hlt, htable]; exact hdir)
    rw [pageDirOffset_highAddr hlt, pageTableOffset_highAddr hlt] at hentry'
    refine ⟨_, Function.update himem k (s.entry 0 (256 + k)), ?_, htables', ?_, ?_, ?_⟩
    · rw [List.range_succ, List.foldl_append, heq, List.foldl_cons, List.foldl_nil,
        VmSys.aliasHigh, hkk]
      show VmSys.setPte { s with
        mem := m
        vm := { s.vm with himemPtes := Function.update himem k (m.getPte _ (highAddr k)) } } _
          (m.getPte _ (lowAddr k) &&& ~~~PTE_FREEABLE) = _
      rw [hhigh, hlow]
      rfl
    · intro i
      rw [htable', htable]
    · intro i j hi
      rw [hentry' i j hi, hentry i j hi]
      exact ite_high_succ (w := fun k => s.entry 0 k &&& ~~~PTE_FREEABLE) hlt hk
    · intro q hq
      by_cases hqk : q = k
      · subst hqk
        rw [Function.update_self, if_pos (by omega)]
      · have hne : q.toNat ≠ n := fun hc => hqk (BitVec.eq_of_toNat_eq (hc.trans hk.symm))
        rw [Function.update_of_ne hqk, hsaved q hq]
        by_cases hqn : q.toNat < n
        · rw [if_pos hqn, if_pos (by omega)]
        · rw [if_neg hqn, if_neg (by omega)]

/-- `set_gate_a20` when it enables the gate, after `n` iterations. -/
theorem foldl_restoreHigh (h : Tables s.mem s.vm.pageDir l) (hdir : Present (s.pde 0)) {n : ℕ}
    (hn : n ≤ 16) :
    ∃ m, (List.range n).foldl VmSys.restoreHigh s = { s with mem := m } ∧
      Tables m s.vm.pageDir l ∧ (∀ i, m.table s.vm.pageDir i = s.pde i) ∧
      ∀ i j, User i → m.entry s.vm.pageDir i j =
        if i = 0 ∧ 256 ≤ j.toNat ∧ j.toNat < 256 + n then s.vm.himemPtes (j - 256)
        else s.entry i j := by
  induction n with
  | zero =>
    refine ⟨s.mem, rfl, h, fun _ => rfl, ?_⟩
    intro i j _
    rw [if_neg (by omega)]
    rfl
  | succ n ih =>
    obtain ⟨m, heq, htables, htable, hentry⟩ := ih (by omega)
    have hk : (BitVec.ofNat 32 n : ULong).toNat = n := by
      rw [BitVec.toNat_ofNat]
      omega
    have hlt : (BitVec.ofNat 32 n : ULong) < 16 := by
      show (BitVec.ofNat 32 n : ULong).toNat < 16
      omega
    generalize hkk : (BitVec.ofNat 32 n : ULong) = k at *
    obtain ⟨htables', htable', hentry'⟩ := htables.setPte_of_present (highAddr k)
      (s.vm.himemPtes k) (by rw [pageDirOffset_highAddr hlt]; decide)
      (by rw [pageDirOffset_highAddr hlt, htable]; exact hdir)
    rw [pageDirOffset_highAddr hlt, pageTableOffset_highAddr hlt] at hentry'
    refine ⟨_, ?_, htables', ?_, ?_⟩
    · rw [List.range_succ, List.foldl_append, heq, List.foldl_cons, List.foldl_nil,
        VmSys.restoreHigh, hkk]
      rfl
    · intro i
      rw [htable', htable]
    · intro i j hi
      rw [hentry' i j hi, hentry i j hi]
      exact ite_high_succ (w := s.vm.himemPtes) hlt hk

theorem present_clear {x : ULong} : Present (x &&& ~~~PTE_FREEABLE) ↔ Present x := by
  rw [Present, BitVec.and_assoc]
  exact Iff.rfl

theorem pteGetAddr_clear (x : ULong) : pteGetAddr (x &&& ~~~PTE_FREEABLE) = pteGetAddr x := by
  rw [pteGetAddr, BitVec.and_assoc]
  rfl

theorem not_freeable_clear (x : ULong) : ¬Freeable (x &&& ~~~PTE_FREEABLE) := by
  rw [Freeable, BitVec.and_assoc]
  exact not_not.mpr BitVec.and_zero

theorem isHigh_iff {i j : ULong} :
    IsHigh i j ↔ i = 0 ∧ 256 ≤ j.toNat ∧ j.toNat < 256 + 16 := Iff.rfl

theorem home_of_not_high {i j : ULong} (h : s.vm.a20State = false → ¬IsHigh i j) :
    s.home i j = s.entry i j := if_neg fun hc => h hc.1 hc.2

theorem home_of_enabled (h : s.vm.a20State = true) (i j : ULong) : s.home i j = s.entry i j :=
  home_of_not_high fun hc => absurd (hc.symm.trans h) Bool.false_ne_true

theorem home_high {k : ULong} (h : s.vm.a20State = false) (hk : k < 16) :
    s.home 0 (256 + k) = s.vm.himemPtes k := by
  rw [VmSys.home, if_pos ⟨h, isHigh_add hk⟩, add_sub_256]

theorem home_low {k : ULong} (hk : k < 16) : s.home 0 k = s.entry 0 k := by
  refine home_of_not_high fun _ hc => ?_
  have hk : k.toNat < 16 := hk
  have hle : 256 ≤ k.toNat := hc.2.1
  omega

/-- `set_gate_a20` leaves the home entries alone. -/
theorem Maps.setGateA20 (h : Maps s l) (state : Bool) :
    ∃ m himem, s.setGateA20 state = { s with
        mem := m
        vm := { s.vm with a20State := state, himemPtes := himem } } ∧
      Maps (s.setGateA20 state) l ∧ (∀ i, (s.setGateA20 state).pde i = s.pde i) ∧
      ∀ i j, User i → (s.setGateA20 state).home i j = s.home i j := by
  by_cases hsame : s.vm.a20State = state
  · have heq : s.setGateA20 state = s := if_pos hsame
    rw [heq]
    refine ⟨s.mem, s.vm.himemPtes, ?_, h, fun _ => rfl, fun _ _ _ => rfl⟩
    rw [← hsame]
  · cases state with
    | false =>
      have hon : s.vm.a20State = true := Bool.eq_true_of_not_eq_false hsame
      obtain ⟨m, himem, heq, htables, hdir, hentry, hsaved⟩ :=
        foldl_aliasHigh h.tables h.dir (le_refl 16)
      have hset : s.setGateA20 false = { s with
          mem := m
          vm := { s.vm with a20State := false, himemPtes := himem } } := by
        rw [VmSys.setGateA20, if_neg hsame]
        show VmSys.mk _ _ = _
        rw [if_neg Bool.false_ne_true, heq]
      rw [hset]
      refine ⟨m, himem, rfl, h.of_pde htables hdir ?_, hdir, ?_⟩
      · intro _ k hk
        have hhigh := hentry 0 (256 + k) (by decide)
        rw [if_pos (isHigh_iff.mp (isHigh_add hk)), add_sub_256] at hhigh
        have hlow := hentry 0 k (by decide)
        rw [if_neg fun hc => by have : k.toNat < 16 := hk; omega] at hlow
        show (Present (m.entry _ 0 (256 + k)) ↔ Present (m.entry _ 0 k)) ∧
          pteGetAddr (m.entry _ 0 (256 + k)) = pteGetAddr (m.entry _ 0 k) ∧
            ¬Freeable (m.entry _ 0 (256 + k))
        rw [hhigh, hlow]
        exact ⟨present_clear, pteGetAddr_clear _, not_freeable_clear _⟩
      · intro i j hi
        rw [home_of_enabled hon]
        by_cases hhigh : IsHigh i j
        · obtain ⟨k, hk, rfl, rfl⟩ := hhigh.eq_add
          rw [home_high rfl hk]
          exact (hsaved k hk).trans (if_pos hk)
        · rw [home_of_not_high fun _ => hhigh]
          exact (hentry i j hi).trans (if_neg hhigh)
    | true =>
      have hoff : s.vm.a20State = false := Bool.eq_false_of_not_eq_true hsame
      obtain ⟨m, heq, htables, hdir, hentry⟩ := foldl_restoreHigh h.tables h.dir (le_refl 16)
      have hset : s.setGateA20 true = { s with mem := m, vm := { s.vm with a20State := true } } := by
        rw [VmSys.setGateA20, if_neg hsame]
        show VmSys.mk _ _ = _
        rw [if_pos rfl, heq]
      rw [hset]
      refine ⟨m, s.vm.himemPtes, rfl, h.of_pde htables hdir ?_, hdir, ?_⟩
      · exact fun hc => absurd hc.symm Bool.false_ne_true
      · intro i j hi
        rw [home_of_enabled rfl]
        by_cases hhigh : IsHigh i j
        · obtain ⟨k, hk, rfl, rfl⟩ := hhigh.eq_add
          rw [home_high hoff hk]
          refine (hentry 0 _ hi).trans ((if_pos (isHigh_iff.mp hhigh)).trans ?_)
          rw [add_sub_256]
        · rw [home_of_not_high fun _ => hhigh]
          exact (hentry i j hi).trans (if_neg hhigh)

end Gate

/-! ## Mapping a page -/

/-- The page `p` is mapped with the home entry `e` at entry `j` of table `i`. The page that
was owned there is freed, and a table that was not there is taken from the free pages `l`. -/
structure Placed (s s' : VmSys) (l l' : List ULong) (p i j e : ULong) : Prop where
  same : s' = { s with mem := s'.mem, bytes := s'.bytes }
  maps : Maps s' l'
  user : User i
  page : entryPage e = p
  present : Present e
  home : ∀ i' j', User i' → s'.home i' j' = if i' = i ∧ j' = j then e else s.home i' j'
  other : ∀ i', i' ≠ i → s'.pde i' = s.pde i'
  pages : (Present (s.pde i) ∧ s'.pde i = s.pde i ∧ l' = ownedPage (s.home i j) ++ l) ∨
    (¬Present (s.pde i) ∧ ownedPage (s.home i j) = [] ∧ Owning (s'.pde i) ∧
      l = entryPage (s'.pde i) :: l')

section Mapping

variable {s s' : VmSys} {l l' l₀ back : List ULong} {i j e p flags addr lin : ULong}

/-- At most one entry of the page directory has changed. -/
theorem Maps.of_dir (h : Maps s l₀) (htables : Tables s'.mem s'.vm.pageDir l')
    (hother : ∀ i', i' ≠ i → s'.pde i' = s.pde i')
    (hself : s'.pde i = s.pde i ∨ User i ∧ Owning (s'.pde i)) (htwin : Twin s') : Maps s' l' := by
  have hcases : ∀ i', s'.pde i' = s.pde i' ∨ User i' ∧ Owning (s'.pde i') := by
    intro i'
    by_cases heq : i' = i
    · rw [heq]
      exact hself
    · exact .inl (hother i' heq)
  refine ⟨htables, ?_, ?_, ?_, htwin⟩
  · rcases hcases 0 with hsame | ⟨-, hown⟩
    · rw [hsame]
      exact h.dir
    · exact hown.1
  · intro i' hi' hp
    rcases hcases i' with hsame | ⟨-, hown⟩
    · rw [hsame] at hp ⊢
      exact h.owned i' hi' hp
    · exact hown.2
  · intro i' hi'
    rcases hcases i' with hsame | ⟨hi, -⟩
    · rw [hsame]
      exact h.kernel i' hi'
    · exact absurd hi hi'

/-- `alloc_page` and `map_page`. -/
theorem Maps.mapPage (h : Maps s (p :: l)) (addr : ULong) (hi : User (pageDirOffset addr))
    (hflags : flags &&& PTE_ADDR = 0) (hpres : Present flags)
    (hroom : ¬Present (s.pde (pageDirOffset addr)) → l ≠ [])
    (hold : Owning (s.entry (pageDirOffset addr) (pageTableOffset addr)) →
      Apart s.mem s.vm.pageDir (p :: l)
        (entryPage (s.entry (pageDirOffset addr) (pageTableOffset addr)))) :
    s.mem.pages.allocPage.1 = p ∧ Aligned p ∧
      ∃ l', Mapped s.mem
        (Mem.mapPage { s.mem with pages := s.mem.pages.allocPage.2 } s.vm.pageDir p
          (addr &&& PAGE_MASK) flags)
        s.vm.pageDir (pageDirOffset addr) (pageTableOffset addr) (toPhysical p ||| flags) l l'
        (ownedPage (s.entry (pageDirOffset addr) (pageTableOffset addr))) := by
  obtain ⟨hp, htables⟩ := h.tables.allocPage
  have hdir := pageDirOffset_and addr
  have htab := pageTableOffset_and addr
  refine ⟨hp, h.tables.aligned p (List.mem_cons_self ..), ?_⟩
  obtain ⟨l', hm⟩ := htables.mapPage p (addr &&& PAGE_MASK) (hdir ▸ hi) hflags
    hpres (hdir ▸ hroom) (by
      rw [hdir, htab]
      intro hown
      obtain ⟨hnot, hne⟩ := hold hown
      refine ⟨fun hmem => hnot ?_, hne⟩
      rw [List.mem_cons, List.mem_cons] at hmem ⊢
      exact hmem.imp_right fun hmem => hmem.imp_right (List.mem_cons_of_mem p))
  rw [hdir, htab] at hm
  exact ⟨l', hm.tables, hm.entry, hm.other, hm.pages⟩

/-- The entries of the pages below 64K. -/
abbrev IsLow (i j : ULong) : Prop := i = 0 ∧ j < 16

theorem home_of_entry (s s' : VmSys) (hvm : s'.vm = s.vm) (hnot : s.vm.a20State = false → ¬IsHigh i j)
    (hentry : ∀ i' j', User i' → (s.vm.a20State = false → ¬IsHigh i' j') →
      s'.entry i' j' = if i' = i ∧ j' = j then e else s.entry i' j') {i' j' : ULong}
    (hi' : User i') : s'.home i' j' = if i' = i ∧ j' = j then e else s.home i' j' := by
  by_cases hhigh : s.vm.a20State = false ∧ IsHigh i' j'
  · have hne : ¬(i' = i ∧ j' = j) := by
      rintro ⟨rfl, rfl⟩
      exact hnot hhigh.1 hhigh.2
    rw [if_neg hne, VmSys.home, VmSys.home, hvm, if_pos hhigh, if_pos hhigh]
  · rw [VmSys.home, VmSys.home, hvm, if_neg hhigh, if_neg hhigh]
    exact hentry i' j' hi' fun h hc => hhigh ⟨h, hc⟩

/-- A page that is mapped elsewhere leaves the entries of the first 64K and of the pages from
1M on alone. -/
theorem twin_of_unchanged {k : ULong} (h : Maps s l₀)
    (hentry : ∀ i' j', User i' →
      s'.entry i' j' = if i' = i ∧ j' = j then e else s.entry i' j')
    (hlow : ¬(0 = i ∧ k = j)) (hhigh : ¬(0 = i ∧ 256 + k = j)) (hoff : s.vm.a20State = false)
    (hk : k < 16) :
    (Present (s'.entry 0 (256 + k)) ↔ Present (s'.entry 0 k)) ∧
      pteGetAddr (s'.entry 0 (256 + k)) = pteGetAddr (s'.entry 0 k) ∧
      ¬Freeable (s'.entry 0 (256 + k)) := by
  rw [hentry 0 _ (by decide), hentry 0 _ (by decide), if_neg hlow, if_neg hhigh]
  exact h.twin hoff k hk

/-- The flags of a page that was mapped by its old entry. -/
theorem flags_and_addr {c : ULong} (hc : c &&& PTE_ADDR = 0) (x : ULong) :
    ((x &&& c) ||| PTE_PRESENT) &&& PTE_ADDR = 0 := by
  rw [or_and, BitVec.and_assoc, hc]
  exact BitVec.or_eq_zero_iff.mpr ⟨BitVec.and_zero, by decide⟩

theorem present_flags (x : ULong) : Present (x ||| PTE_PRESENT) :=
  or_and_ne_zero.mpr (.inr (by decide))

/-- A page is mapped that the gate does not concern. -/
theorem Maps.placed {m : Mem} {bytes : ULong → UChar} (h : Maps s l₀)
    (hm : Mapped s.mem m s.vm.pageDir i j e l l' (ownedPage (s.entry i j))) (hi : User i)
    (hpage : entryPage e = p) (hpres : Present e)
    (hnot : s.vm.a20State = false → ¬IsHigh i j ∧ ¬IsLow i j) :
    Placed s { s with mem := m, bytes } l l' p i j e := by
  have hentry : ∀ i' j', User i' → VmSys.entry { s with mem := m, bytes } i' j' =
      if i' = i ∧ j' = j then e else s.entry i' j' := hm.entry
  refine ⟨rfl, h.of_dir hm.tables hm.other (hm.dir_cases hi) ?_, hi, hpage, hpres, ?_, hm.other, ?_⟩
  · intro hoff k hk
    have hlow : ¬(0 = i ∧ k = j) := by
      rintro ⟨rfl, rfl⟩
      exact (hnot hoff).2 ⟨rfl, hk⟩
    have hhigh : ¬(0 = i ∧ 256 + k = j) := by
      rintro ⟨rfl, rfl⟩
      exact (hnot hoff).1 (isHigh_add hk)
    exact twin_of_unchanged h hentry hlow hhigh hoff hk
  · intro i' j' hi'
    exact home_of_entry s { s with mem := m, bytes } rfl (fun hc => (hnot hc).1)
      (fun i' j' hi' _ => hentry i' j' hi') hi'
  · rw [home_of_not_high fun hc => (hnot hc).1]
    exact hm.pages

/-- A low page is mapped twice while the gate is disabled. -/
theorem Maps.placed_low {m m' : Mem} {k e' : ULong} (h : Maps s l₀)
    (hoff : s.vm.a20State = false) (hk : k < 16)
    (hm : Mapped s.mem m s.vm.pageDir 0 k e l l' (ownedPage (s.entry 0 k)))
    (htables : Tables m' s.vm.pageDir l')
    (hdir : ∀ i, m'.table s.vm.pageDir i = m.table s.vm.pageDir i)
    (hhigh : ∀ i j, User i → m'.entry s.vm.pageDir i j =
      if i = 0 ∧ j = 256 + k then e' else m.entry s.vm.pageDir i j)
    (hpage : entryPage e = p) (hpres : Present e)
    (hpres' : Present e') (haddr : pteGetAddr e' = pteGetAddr e) (hfree : ¬Freeable e') :
    Placed s { s with mem := m' } l l' p 0 k e := by
  have hself : m.table s.vm.pageDir 0 = s.pde 0 := hm.dir_of_present h.dir
  have hother : ∀ i, i ≠ 0 → m'.table s.vm.pageDir i = s.pde i :=
    fun i hne => (hdir i).trans (hm.other i hne)
  have hentry : ∀ i j, User i → VmSys.entry { s with mem := m' } i j =
      if i = 0 ∧ j = 256 + k then e'
      else if i = 0 ∧ j = k then e else s.entry i j := by
    intro i j hi
    refine (hhigh i j hi).trans ?_
    rw [hm.entry i j hi]
    rfl
  have hnot : s.vm.a20State = false → ¬IsHigh 0 k := by
    intro _ hc
    obtain ⟨q, hq, -, rfl⟩ := hc.eq_add
    exact add_256_ne hq hk rfl
  refine ⟨rfl, h.of_dir (i := 0) htables hother (.inl ((hdir 0).trans hself)) ?_, by decide, hpage,
    hpres, ?_, hother, ?_⟩
  · intro _ q hq
    rw [hentry 0 (256 + q) (by decide), hentry 0 q (by decide),
      if_neg fun hc : _ ∧ q = 256 + k => add_256_ne hk hq hc.2.symm,
      if_neg fun hc : _ ∧ 256 + q = k => add_256_ne hq hk hc.2]
    by_cases hqk : q = k
    · subst hqk
      rw [if_pos ⟨rfl, rfl⟩, if_pos ⟨rfl, rfl⟩]
      exact ⟨iff_of_true hpres' hpres, haddr, hfree⟩
    · rw [if_neg fun hc => hqk (add_256_inj hc.2), if_neg fun hc => hqk hc.2]
      exact h.twin hoff q hq
  · intro i' j' hi'
    refine home_of_entry s { s with mem := m' } rfl hnot (fun i' j' hi' hnot' => ?_) hi'
    have hne : ¬(i' = 0 ∧ j' = 256 + k) := by
      rintro ⟨rfl, rfl⟩
      exact hnot' hoff (isHigh_add hk)
    rw [hentry i' j' hi', if_neg hne]
  · rw [home_of_not_high hnot]
    exact .inl ⟨h.dir, (hdir 0).trans hself, (hm.pages.resolve_right fun hc => hc.1 h.dir).2.2⟩

/-- The page that `put_pd_val` maps. -/
theorem putPdVal_mem (size : ℕ) (val : ULong) (h : s.mem.linToPhys s.vm.pageDir lin = 0) :
    (s.putPdVal size val lin).mem =
      Mem.mapPage { s.mem with pages := s.mem.pages.allocPage.2 } s.vm.pageDir
        s.mem.pages.allocPage.1 (lin &&& PAGE_MASK)
        (PTE_READ_WRITE ||| PTE_USER ||| PTE_PRESENT) := by
  show (if s.mem.linToPhys s.vm.pageDir lin = 0 then _ else _ : ULong × Mem).2 = _
  rw [if_pos h]

/-- `put_pd_val` where no page is mapped. -/
theorem Maps.putPdVal_new (h : Maps s (p :: l)) (size : ℕ) (val : ULong)
    (hlin : lin < KERNEL_BASE_ADDR) (hphys : s.mem.linToPhys s.vm.pageDir lin = 0)
    (hnot : s.vm.a20State = false → ¬IsHigh (pageDirOffset lin) (pageTableOffset lin) ∧
      ¬IsLow (pageDirOffset lin) (pageTableOffset lin))
    (hroom : ¬Present (s.pde (pageDirOffset lin)) → l ≠ [])
    (hold : Owning (s.entry (pageDirOffset lin) (pageTableOffset lin)) →
      Apart s.mem s.vm.pageDir (p :: l)
        (entryPage (s.entry (pageDirOffset lin) (pageTableOffset lin)))) :
    ∃ l', Placed s (s.putPdVal size val lin) l l' p (pageDirOffset lin) (pageTableOffset lin)
      (toPhysical p ||| (PTE_READ_WRITE ||| PTE_USER ||| PTE_PRESENT)) := by
  have hi := user_pageDirOffset hlin
  have hflags : (PTE_READ_WRITE ||| PTE_USER ||| PTE_PRESENT) &&& PTE_ADDR = 0 := by decide
  obtain ⟨hp, halign, l', hm⟩ := h.mapPage _ hi hflags (present_flags _) hroom hold
  have hmem := putPdVal_mem size val hphys
  rw [hp] at hmem
  rw [← hmem] at hm
  exact ⟨l', h.placed hm hi (entryPage_or halign hflags)
    ((present_or halign).mpr (present_flags _)) hnot⟩

/-- The address whose page `vm_pfl_handler` maps. -/
def VmSys.truncate (s : VmSys) (lin : ULong) : ULong :=
  if s.vm.a20State = false ∧ 0x100000 ≤ lin then lin - 0x100000 else lin

theorem vmPflHandler_eq (lin : ULong) {errorCode : ULong} (herr : errorCode &&& PF_ERROR_PROTECTION = 0) :
    (s.vmPflHandler errorCode lin).2 = { s with
      mem :=
        let new := s.mem.pages.allocPage
        let pte := s.getPte (s.truncate lin)
        let m := Mem.mapPage { s.mem with pages := new.2 } s.vm.pageDir new.1
          (s.truncate lin &&& PAGE_MASK)
          ((pte &&& (PTE_USER ||| PTE_READ_WRITE ||| PTE_FREEABLE)) ||| PTE_PRESENT)
        if s.vm.a20State = false ∧ s.truncate lin < 0x10000 then
          m.mapPage s.vm.pageDir new.1 ((s.truncate lin &&& PAGE_MASK) + 0x100000)
            ((pte &&& (PTE_USER ||| PTE_READ_WRITE)) ||| PTE_PRESENT)
        else m } := by
  rw [VmSys.vmPflHandler, if_neg (not_not.mpr herr)]
  show (if s.vm.a20State = false ∧ s.truncate lin < 0x10000 then _ else _ : VmSys) = _
  by_cases hlow : s.vm.a20State = false ∧ s.truncate lin < 0x10000
  · rw [if_pos hlow]
    simp only [if_pos hlow]
    rfl
  · rw [if_neg hlow]
    simp only [if_neg hlow]
    rfl

/-- The entry that the page fault handler makes from the old entry. -/
def faultEntry (p pte : ULong) : ULong :=
  toPhysical p ||| ((pte &&& (PTE_USER ||| PTE_READ_WRITE ||| PTE_FREEABLE)) ||| PTE_PRESENT)

/-- The mapping from 1M on that `vm_pfl_handler` adds to the one of a low page. -/
theorem Maps.mapHigh {m : Mem} {k e₁ : ULong} (h : Maps s l₀) (addr : ULong)
    (hoff : s.vm.a20State = false) (hm : Mapped s.mem m s.vm.pageDir 0 k e₁ l l' back) (hk : k < 16)
    (haddr : addr.toNat = k.toNat * 4096) (hflags : flags &&& PTE_ADDR = 0)
    (hpres : Present flags) :
    Tables (m.mapPage s.vm.pageDir p (addr + 0x100000) flags) s.vm.pageDir l' ∧
      (∀ i, (m.mapPage s.vm.pageDir p (addr + 0x100000) flags).table s.vm.pageDir i =
        m.table s.vm.pageDir i) ∧
      ∀ i j, User i → (m.mapPage s.vm.pageDir p (addr + 0x100000) flags).entry s.vm.pageDir i j =
        if i = 0 ∧ j = 256 + k then toPhysical p ||| flags else m.entry s.vm.pageDir i j := by
  have hk' : k.toNat < 16 := hk
  have heq : addr + 0x100000 = highAddr k := by
    apply BitVec.eq_of_toNat_eq
    rw [BitVec.toNat_add, toNat_highAddr hk, haddr]
    show (k.toNat * 4096 + 1048576) % 2 ^ 32 = _
    omega
  have hdir : Present (m.table s.vm.pageDir 0) := by
    rcases hm.pages with ⟨-, hsame, -⟩ | ⟨hnp, -⟩
    · rw [hsame]
      exact h.dir
    · exact absurd h.dir hnp
  have hold : ¬Owning (m.entry s.vm.pageDir 0 (256 + k)) := by
    rw [hm.entry 0 _ (by decide), if_neg ?_]
    · exact fun hown => (h.twin hoff k hk).2.2 hown.2
    · rintro ⟨-, hc⟩
      have hc := congrArg BitVec.toNat hc
      rw [toNat_add_256 hk] at hc
      omega
  obtain ⟨l₁, hm'⟩ := hm.tables.mapPage p (highAddr k)
    (by rw [pageDirOffset_highAddr hk]; decide) hflags hpres
    (fun hnp => absurd (pageDirOffset_highAddr hk ▸ hdir) hnp)
    (fun hown => by
      rw [pageDirOffset_highAddr hk, pageTableOffset_highAddr hk] at hown
      exact absurd hown hold)
  rw [pageDirOffset_highAddr hk, pageTableOffset_highAddr hk, ownedPage, if_neg hold] at hm'
  obtain ⟨-, hsame, rfl⟩ := hm'.pages.resolve_right fun hc => hc.1 hdir
  rw [heq]
  refine ⟨hm'.tables, fun i => ?_, hm'.entry⟩
  by_cases hi : i = 0
  · rw [hi, hsame]
  · exact hm'.other i hi

/-- `vm_pfl_handler` for a page that is not present. -/
theorem Maps.vmPflHandler (h : Maps s (p :: l)) (lin : ULong) {errorCode a : ULong}
    (herr : errorCode &&& PF_ERROR_PROTECTION = 0) (ha : s.truncate lin = a)
    (haddr : a < KERNEL_BASE_ADDR)
    (hnot : s.vm.a20State = false → ¬IsHigh (pageDirOffset a) (pageTableOffset a))
    (hroom : ¬Present (s.pde (pageDirOffset a)) → l ≠ [])
    (hold : Owning (s.entry (pageDirOffset a) (pageTableOffset a)) →
      Apart s.mem s.vm.pageDir (p :: l)
        (entryPage (s.entry (pageDirOffset a) (pageTableOffset a)))) :
    ∃ l', Placed s (s.vmPflHandler errorCode lin).2 l l' p (pageDirOffset a) (pageTableOffset a)
      (faultEntry p (s.getPte a)) := by
  have hi := user_pageDirOffset haddr
  have hflags := flags_and_addr (c := PTE_USER ||| PTE_READ_WRITE ||| PTE_FREEABLE) (by decide)
    (s.getPte a)
  have hflags' := flags_and_addr (c := PTE_USER ||| PTE_READ_WRITE) (by decide) (s.getPte a)
  obtain ⟨hp, halign, l', hm⟩ := h.mapPage _ hi hflags (present_flags _) hroom hold
  have hhome := home_of_not_high (s := s) hnot
  have hpage : entryPage (faultEntry p (s.getPte a)) = p := entryPage_or halign hflags
  have hpresent : Present (faultEntry p (s.getPte a)) :=
    (present_or halign).mpr (present_flags _)
  have heq := vmPflHandler_eq (s := s) lin herr
  rw [ha] at heq
  simp only [hp] at heq
  rw [heq]
  clear heq
  by_cases hlow : s.vm.a20State = false ∧ a < 0x10000
  · obtain ⟨hoff, hlt⟩ := hlow
    have hlt : a.toNat < 65536 := hlt
    have hi0 : pageDirOffset a = 0 := by
      apply BitVec.eq_of_toNat_eq
      rw [toNat_pageDirOffset]
      show _ = 0
      omega
    have hj : (pageTableOffset a).toNat = a.toNat / 4096 := by
      rw [toNat_pageTableOffset]
      omega
    rw [hi0] at hm hhome hnot ⊢
    generalize pageTableOffset a = k at hm hhome hj hnot ⊢
    have hk : k < 16 := by
      show k.toNat < 16
      omega
    obtain ⟨htables, hdir, hentry⟩ := h.mapHigh (p := p) (a &&& PAGE_MASK) hoff hm hk
      (by rw [toNat_and_mask, hj]) hflags' (present_flags _)
    rw [if_pos ⟨hoff, hlt⟩]
    refine ⟨l', h.placed_low hoff hk hm htables hdir hentry hpage hpresent
      ((present_or halign).mpr (present_flags _)) ?_ ?_⟩
    · exact (pteGetAddr_or (aligned_toPhysical halign) hflags').trans
        (pteGetAddr_or (aligned_toPhysical halign) hflags).symm
    · rw [freeable_or halign, Freeable, or_and, BitVec.and_assoc]
      exact not_not.mpr (BitVec.or_eq_zero_iff.mpr ⟨BitVec.and_zero, by decide⟩)
  · rw [if_neg hlow]
    refine ⟨l', h.placed hm hi hpage hpresent fun hoff => ⟨hnot hoff, ?_⟩⟩
    rintro ⟨h₁, h₂⟩
    refine hlow ⟨hoff, ?_⟩
    show a.toNat < 65536
    have h₁ := congrArg BitVec.toNat h₁
    rw [toNat_pageDirOffset] at h₁
    have h₁ : a.toNat / 4194304 = 0 := h₁
    have h₂ : (pageTableOffset a).toNat < 16 := h₂
    rw [toNat_pageTableOffset] at h₂
    omega

end Mapping

end Vmm386.Vmach
