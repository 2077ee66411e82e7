import Vmm386.Mm.PageDirs

/-!
# Page tables of a task

What `set_pte` and `map_page` do to the page tables below `KERNEL_BASE_ADDR` of a page
directory, and to the free list. A page is known by its entry in the directory and its entry
in the table.
-/

namespace Vmm386.Mm

/-- The entries of a page directory that are not the kernel's. -/
abbrev User (i : ULong) : Prop := i < 992

/-- Entry `j` of the table in entry `i` of the directory `pd`, or zero without a table. -/
def Mem.entry (m : Mem) (pd i j : ULong) : ULong :=
  if ¬Present (m.table pd i) then 0 else m.table (entryPage (m.table pd i)) j

@[simp] theorem Mem.withPages_entry (m : Mem) (pages : Pages) (pd i j : ULong) :
    Mem.entry { m with pages } pd i j = m.entry pd i j := rfl

theorem Mem.entry_of_not_present {m : Mem} {pd i : ULong} (h : ¬Present (m.table pd i))
    (j : ULong) : m.entry pd i j = 0 := if_pos h

theorem not_present_zero : ¬Present 0 := by decide

theorem Mem.present_of_entry {m : Mem} {pd i j : ULong} (h : Present (m.entry pd i j)) :
    Present (m.table pd i) :=
  not_not.mp fun hnp => not_present_zero (Mem.entry_of_not_present hnp j ▸ h)

/-- The page of an entry goes back to the allocator when the entry is deleted. -/
abbrev Owning (e : ULong) : Prop := Present e ∧ Freeable e

/-- How often the entry owns the page `p`. -/
def owner (e p : ULong) : ℕ := if Owning e ∧ entryPage e = p then 1 else 0

theorem owner_of_owning {e : ULong} (h : Owning e) (p : ULong) :
    owner e p = if entryPage e = p then 1 else 0 := if_congr (and_iff_right h) rfl rfl

theorem owner_of_not {e : ULong} (h : ¬Owning e) (p : ULong) : owner e p = 0 :=
  if_neg fun hc => h hc.1

/-- The page directory `pd` with its tables, apart from one another and from the free pages `l`. -/
structure Tables (m : Mem) (pd : ULong) (l : List ULong) : Prop where
  free : m.pages.Free l
  aligned : ∀ p ∈ l, Aligned p
  dir : pd ∉ l
  table : ∀ i, User i → Present (m.table pd i) →
    entryPage (m.table pd i) ∉ l ∧ entryPage (m.table pd i) ≠ pd
  inj : ∀ i i', User i → User i' → Present (m.table pd i) → Present (m.table pd i') →
    entryPage (m.table pd i) = entryPage (m.table pd i') → i = i'

/-- The page `q` is not null, not free, and none of the tables. -/
def Apart (m : Mem) (pd : ULong) (l : List ULong) (q : ULong) : Prop :=
  q ∉ NULL :: pd :: l ∧ ∀ i, User i → Present (m.table pd i) → q ≠ entryPage (m.table pd i)

theorem Apart.congr {m m' : Mem} {pd q : ULong} {l : List ULong} (h : Apart m pd l q) (hdir : ∀ i, m'.table pd i = m.table pd i) :
    Apart m' pd l q := by
  refine ⟨h.1, fun i hi hp => ?_⟩
  rw [hdir] at hp ⊢
  exact h.2 i hi hp

theorem Apart.of_cons {m : Mem} {pd p q : ULong} {l : List ULong} (h : Apart m pd (p :: l) q) : Apart m pd l q := by
  refine ⟨fun hmem => h.1 ?_, h.2⟩
  rw [List.mem_cons, List.mem_cons] at hmem ⊢
  exact hmem.imp_right fun hmem => hmem.imp_right (List.mem_cons_of_mem p)

theorem Apart.cons {m : Mem} {pd p q : ULong} {l : List ULong} (h : Apart m pd l q) (hne : q ≠ p) : Apart m pd (p :: l) q := by
  refine ⟨fun hmem => h.1 ?_, h.2⟩
  rw [List.mem_cons, List.mem_cons, List.mem_cons] at hmem
  rw [List.mem_cons, List.mem_cons]
  exact hmem.imp_right fun hmem => hmem.imp_right fun hmem => hmem.resolve_left hne

theorem Apart.not_mem {m : Mem} {pd q : ULong} {l : List ULong} (h : Apart m pd l q) : q ∉ l :=
  fun hmem => h.1 (List.mem_cons_of_mem _ (List.mem_cons_of_mem _ hmem))

/-- The first free page. -/
theorem Tables.apart_head {m : Mem} {pd p : ULong} {l : List ULong} (h : Tables m pd (p :: l)) : Apart m pd l p := by
  refine ⟨?_, fun i hi hp hc => (h.table i hi hp).1 (hc ▸ List.mem_cons_self ..)⟩
  rw [List.mem_cons, List.mem_cons, not_or, not_or]
  exact ⟨h.free.ne_null (List.mem_cons_self ..), fun hc => h.dir (hc ▸ List.mem_cons_self ..),
    (List.nodup_cons.mp h.free.nodup).1⟩

namespace Tables

variable {m : Mem} {pd i j e pt bits p : ULong} {l : List ULong}

/-- Other pages of the allocator do not matter to the tables. -/
theorem withPages {pages : Pages} {l' : List ULong} (h : Tables m pd l) (hfree : pages.Free l')
    (halign : ∀ p ∈ l', Aligned p) (hpd : pd ∉ l')
    (htable : ∀ i, User i → Present (m.table pd i) → entryPage (m.table pd i) ∉ l') :
    Tables { m with pages } pd l' where
  free := hfree
  aligned := halign
  dir := hpd
  table i hi hp := ⟨htable i hi hp, (h.table i hi hp).2⟩
  inj := h.inj

/-- `alloc_page`. -/
theorem allocPage (h : Tables m pd (p :: l)) :
    m.pages.allocPage.1 = p ∧ Tables { m with pages := m.pages.allocPage.2 } pd l := by
  obtain ⟨hp, hfree, -⟩ := Pages.allocPage_cons h.free
  refine ⟨hp, h.withPages hfree (fun q hq => h.aligned q (List.mem_cons_of_mem p hq))
    (fun hmem => h.dir (List.mem_cons_of_mem p hmem)) ?_⟩
  exact fun i hi hpres hmem => (h.table i hi hpres).1 (List.mem_cons_of_mem p hmem)

/-- `free_page` of a page that is neither a table nor free. -/
theorem freePage (h : Tables m pd l) (halign : Aligned p) (hp : Apart m pd l p) :
    Tables { m with pages := m.pages.freePage p } pd (p :: l) := by
  obtain ⟨hnot, htable⟩ := hp
  rw [List.mem_cons, List.mem_cons, not_or, not_or] at hnot
  obtain ⟨hne, hpd, hl⟩ := hnot
  refine h.withPages (Pages.freePage_free h.free hne hl) ?_ ?_ ?_
  · intro q hq
    rcases List.mem_cons.mp hq with rfl | hq
    · exact halign
    · exact h.aligned q hq
  · intro hmem
    rcases List.mem_cons.mp hmem with heq | hmem
    · exact hpd heq.symm
    · exact h.dir hmem
  · intro i hi hp hmem
    rcases List.mem_cons.mp hmem with heq | hmem
    · exact htable i hi hp heq.symm
    · exact (h.table i hi hp).1 hmem

/-- A store into a table. -/
theorem setEntry (h : Tables m pd l) (hi : User i) (hp : Present (m.table pd i)) :
    Tables (m.setEntry (entryPage (m.table pd i)) j e) pd l ∧
      (∀ i', (m.setEntry (entryPage (m.table pd i)) j e).table pd i' = m.table pd i') ∧
      ∀ i' j', User i' →
        (m.setEntry (entryPage (m.table pd i)) j e).entry pd i' j' =
          if i' = i ∧ j' = j then e else m.entry pd i' j' := by
  have hdir : ∀ i', (m.setEntry (entryPage (m.table pd i)) j e).table pd i' = m.table pd i' := by
    intro i'
    rw [Mem.setEntry_table, if_neg fun hc => (h.table i hi hp).2 hc.1.symm]
  refine ⟨⟨h.free, h.aligned, h.dir, ?_, ?_⟩, hdir, ?_⟩
  · intro i' hi' hp'
    rw [hdir] at hp' ⊢
    exact h.table i' hi' hp'
  · intro i₁ i₂ h₁ h₂ hp₁ hp₂ heq
    rw [hdir] at hp₁ hp₂
    rw [hdir, hdir] at heq
    exact h.inj i₁ i₂ h₁ h₂ hp₁ hp₂ heq
  · intro i' j' hi'
    rw [Mem.entry, hdir, Mem.entry]
    by_cases hp' : Present (m.table pd i')
    · rw [if_neg (not_not.mpr hp'), if_neg (not_not.mpr hp'), Mem.setEntry_table]
      by_cases heq : i' = i
      · subst heq
        simp only [true_and]
      · have hne : entryPage (m.table pd i') ≠ entryPage (m.table pd i) :=
          fun hc => heq (h.inj i' i hi' hi hp' hp hc)
        simp only [hne, heq, false_and, if_false]
    · have hne : i' ≠ i := fun hc => hp' (hc ▸ hp)
      rw [if_pos hp', if_pos hp']
      simp only [hne, false_and, if_false]

/-- A new table. -/
theorem newTable (h : Tables m pd (pt :: l)) (hi : User i) (hnew : ¬Present (m.table pd i))
    (hbits : bits &&& PTE_ADDR = 0) :
    (m.newTable pd i bits).1 = pt ∧ Tables (m.newTable pd i bits).2 pd l ∧
      (∀ i', (m.newTable pd i bits).2.table pd i' =
        if i' = i then toPhysical pt ||| bits else m.table pd i') ∧
      ∀ i' j, User i' → (m.newTable pd i bits).2.entry pd i' j = m.entry pd i' j := by
  obtain ⟨hpt, htables⟩ := h.allocPage
  have halign := h.aligned pt (List.mem_cons_self ..)
  have hnd := h.free.nodup
  have hnotin : pt ∉ l := (List.nodup_cons.mp hnd).1
  have hpd : pd ≠ pt := fun hc => h.dir (hc ▸ List.mem_cons_self ..)
  have hold : ∀ i', User i' → Present (m.table pd i') → entryPage (m.table pd i') ≠ pt :=
    fun i' hi' hp' hc => (h.table i' hi' hp').1 (hc ▸ List.mem_cons_self ..)
  have hfst : (m.newTable pd i bits).1 = pt := hpt
  have htab : ∀ q k, (m.newTable pd i bits).2.table q k =
      if q = pd ∧ k = i then toPhysical pt ||| bits else if q = pt then 0 else m.table q k := by
    intro q k
    show (((Mem.clearTable _ m.pages.allocPage.1).setEntry pd i
      (toPhysical m.pages.allocPage.1 ||| bits)).table q k) = _
    rw [hpt, Mem.setEntry_table, Mem.clearTable_table]
  have hdir : ∀ i', (m.newTable pd i bits).2.table pd i' =
      if i' = i then toPhysical pt ||| bits else m.table pd i' := by
    intro i'
    rw [htab, if_neg (c := pd = pt) hpd]
    simp only [true_and]
  have hpage : entryPage (toPhysical pt ||| bits) = pt := entryPage_or halign hbits
  refine ⟨hfst, ⟨htables.free, htables.aligned, htables.dir, ?_, ?_⟩, hdir, ?_⟩
  · intro i' hi' hp'
    rw [hdir] at hp' ⊢
    by_cases heq : i' = i
    · rw [if_pos heq, hpage]
      exact ⟨hnotin, hpd.symm⟩
    · rw [if_neg heq] at hp' ⊢
      exact htables.table i' hi' hp'
  · intro i₁ i₂ h₁ h₂ hp₁ hp₂ heq
    rw [hdir] at hp₁ hp₂
    rw [hdir, hdir] at heq
    by_cases hi₁ : i₁ = i <;> by_cases hi₂ : i₂ = i
    · exact hi₁.trans hi₂.symm
    · rw [if_neg hi₂] at hp₂ heq
      rw [if_pos hi₁, hpage] at heq
      exact absurd heq.symm (hold i₂ h₂ hp₂)
    · rw [if_neg hi₁] at hp₁ heq
      rw [if_pos hi₂, hpage] at heq
      exact absurd heq (hold i₁ h₁ hp₁)
    · rw [if_neg hi₁] at hp₁ heq
      rw [if_neg hi₂] at hp₂ heq
      exact h.inj i₁ i₂ h₁ h₂ hp₁ hp₂ heq
  · intro i' j hi'
    rw [Mem.entry, Mem.entry, hdir]
    by_cases heq : i' = i
    · subst heq
      have hzero : (m.newTable pd i' bits).2.table pt j = 0 := by
        rw [htab, if_neg fun hc => hpd hc.1.symm, if_pos rfl]
      rw [if_pos rfl, if_pos hnew, hpage, hzero, ite_self]
    · rw [if_neg heq]
      by_cases hp' : Present (m.table pd i')
      · rw [if_neg (not_not.mpr hp'), if_neg (not_not.mpr hp'), htab,
          if_neg fun hc => (h.table i' hi' hp').2 hc.1, if_neg (hold i' hi' hp')]
      · rw [if_pos hp', if_pos hp']

end Tables

/-! ## Mapping a page -/

/-- Entry `j` of table `i` becomes `e`, and the pages `back` are freed: `l` and `l'` are the
free pages before and after. A table that was not there is taken from the free pages. -/
structure Mapped (m m' : Mem) (pd i j e : ULong) (l l' back : List ULong) : Prop where
  tables : Tables m' pd l'
  entry : ∀ i' j', User i' →
    m'.entry pd i' j' = if i' = i ∧ j' = j then e else m.entry pd i' j'
  other : ∀ i', i' ≠ i → m'.table pd i' = m.table pd i'
  pages : (Present (m.table pd i) ∧ m'.table pd i = m.table pd i ∧ l' = back ++ l) ∨
    (¬Present (m.table pd i) ∧ back = [] ∧ Owning (m'.table pd i) ∧
      l = entryPage (m'.table pd i) :: l')

theorem Mapped.dir_of_present {m m' : Mem} {pd i j e : ULong} {l l' back : List ULong}
    (h : Mapped m m' pd i j e l l' back) (hp : Present (m.table pd i)) :
    m'.table pd i = m.table pd i := (h.pages.resolve_right fun hc => hc.1 hp).2.1

theorem Mapped.dir_cases {m m' : Mem} {pd i j e : ULong} {l l' back : List ULong}
    (h : Mapped m m' pd i j e l l' back) (hi : User i) :
    m'.table pd i = m.table pd i ∨ User i ∧ Owning (m'.table pd i) := by
  rcases h.pages with ⟨-, hsame, -⟩ | ⟨-, -, hown, -⟩
  · exact .inl hsame
  · exact .inr ⟨hi, hown⟩

/-- The page of the entry `e`, if the entry owns it. -/
def ownedPage (e : ULong) : List ULong := if Owning e then [entryPage e] else []

theorem or_and_ne_zero {x y b : ULong} : (x ||| y) &&& b ≠ 0 ↔ x &&& b ≠ 0 ∨ y &&& b ≠ 0 := by
  have hzero := BitVec.or_eq_zero_iff (x := x &&& b) (y := y &&& b)
  rw [or_and]
  exact (not_congr hzero).trans not_and_or

theorem aligned_entryPage (e : ULong) : Aligned (entryPage e) := by
  refine aligned_toLogical ?_
  unfold Aligned
  rw [pteGetAddr, toNat_and_mask]
  omega

namespace Tables

variable {m : Mem} {pd i j e bits flags addr pg : ULong} {l : List ULong}

/-- The first step of `set_pte` and `map_page`: the table is there, or a new one is made. -/
theorem findTable (h : Tables m pd l) (hi : User i) (hbits : bits &&& PTE_ADDR = 0)
    (hpres : Present bits) (hfree : Freeable bits) (hroom : ¬Present (m.table pd i) → l ≠ []) :
    ∃ m' l', (if ¬Present (m.table pd i) then m.newTable pd i bits
        else (entryPage (m.table pd i), m)) = (entryPage (m'.table pd i), m') ∧
      Present (m'.table pd i) ∧ Tables m' pd l' ∧
      (∀ i' j, User i' → m'.entry pd i' j = m.entry pd i' j) ∧
      (∀ i', i' ≠ i → m'.table pd i' = m.table pd i') ∧
      ((Present (m.table pd i) ∧ m' = m ∧ l' = l) ∨
        (¬Present (m.table pd i) ∧ Owning (m'.table pd i) ∧
          l = entryPage (m'.table pd i) :: l')) := by
  by_cases hp : Present (m.table pd i)
  · exact ⟨m, l, if_neg (not_not.mpr hp), hp, h, fun _ _ _ => rfl, fun _ _ => rfl,
      .inl ⟨hp, rfl, rfl⟩⟩
  · obtain ⟨pt, l', rfl⟩ := List.exists_cons_of_ne_nil (hroom hp)
    have halign := h.aligned pt (List.mem_cons_self ..)
    obtain ⟨hfst, htables, hdir, hentry⟩ := h.newTable hi hp hbits
    have hself : (m.newTable pd i bits).2.table pd i = toPhysical pt ||| bits := by
      rw [hdir, if_pos rfl]
    have hpage : entryPage ((m.newTable pd i bits).2.table pd i) = pt := by
      rw [hself, entryPage_or halign hbits]
    have hown : Owning ((m.newTable pd i bits).2.table pd i) := by
      rw [hself]
      exact ⟨(present_or halign).mpr hpres, (freeable_or halign).mpr hfree⟩
    refine ⟨(m.newTable pd i bits).2, l', ?_, hown.1, htables, hentry, ?_, .inr ⟨hp, hown, ?_⟩⟩
    · rw [if_pos hp, hpage]
      exact Prod.ext hfst rfl
    · intro i' hne
      rw [hdir, if_neg hne]
    · rw [hpage]

/-- `set_pte`. -/
theorem setPte (h : Tables m pd l) (hi : User (pageDirOffset addr))
    (hroom : ¬Present (m.table pd (pageDirOffset addr)) → l ≠ []) :
    ∃ l', Mapped m (m.setPte pd addr e) pd (pageDirOffset addr) (pageTableOffset addr) e l l' [] := by
  have hbits : (PTE_PRESENT ||| PTE_FREEABLE ||| (e &&& (PTE_USER ||| PTE_READ_WRITE))) &&&
      PTE_ADDR = 0 := by
    rw [or_and, BitVec.and_assoc]
    exact BitVec.or_eq_zero_iff.mpr ⟨by decide, BitVec.and_zero⟩
  have hpres : Present (PTE_PRESENT ||| PTE_FREEABLE ||| (e &&& (PTE_USER ||| PTE_READ_WRITE))) :=
    or_and_ne_zero.mpr (.inl (by decide))
  have hfree : Freeable (PTE_PRESENT ||| PTE_FREEABLE ||| (e &&& (PTE_USER ||| PTE_READ_WRITE))) :=
    or_and_ne_zero.mpr (.inl (by decide))
  obtain ⟨m', l', heq, hp, htables, hentry, hother, hpages⟩ :=
    h.findTable hi hbits hpres hfree hroom
  have hset : m.setPte pd addr e =
      m'.setEntry (entryPage (m'.table pd (pageDirOffset addr))) (pageTableOffset addr) e := by
    simp only [Mem.setPte, heq]
  obtain ⟨htables', hdir, hentry'⟩ := htables.setEntry (j := pageTableOffset addr) (e := e) hi hp
  refine ⟨l', ?_⟩
  rw [hset]
  refine ⟨htables', ?_, ?_, ?_⟩
  · intro i' j' hi'
    rw [hentry' i' j' hi', hentry i' j' hi']
  · intro i' hne
    rw [hdir, hother i' hne]
  · rw [hdir]
    rcases hpages with ⟨hp, rfl, rfl⟩ | ⟨hnp, hown, hl⟩
    · exact .inl ⟨hp, rfl, rfl⟩
    · exact .inr ⟨hnp, rfl, hown, hl⟩

/-- `set_pte` where the table is there. -/
theorem setPte_of_present (h : Tables m pd l) (addr e : ULong) (hi : User (pageDirOffset addr))
    (hp : Present (m.table pd (pageDirOffset addr))) :
    Tables (m.setPte pd addr e) pd l ∧ (∀ i, (m.setPte pd addr e).table pd i = m.table pd i) ∧
      ∀ i j, User i → (m.setPte pd addr e).entry pd i j =
        if i = pageDirOffset addr ∧ j = pageTableOffset addr then e else m.entry pd i j := by
  obtain ⟨l', hm⟩ := h.setPte (e := e) hi fun hnp => absurd hp hnp
  obtain ⟨-, hdir, rfl⟩ := hm.pages.resolve_right fun hc => hc.1 hp
  refine ⟨hm.tables, fun i => ?_, hm.entry⟩
  by_cases heq : i = pageDirOffset addr
  · rw [heq, hdir]
  · exact hm.other i heq

/-- `map_page`, where the page that it frees is neither a table nor free. -/
theorem mapPage (h : Tables m pd l) (pg addr : ULong) (hi : User (pageDirOffset addr))
    (hflags : flags &&& PTE_ADDR = 0) (hpres : Present flags)
    (hroom : ¬Present (m.table pd (pageDirOffset addr)) → l ≠ [])
    (hold : Owning (m.entry pd (pageDirOffset addr) (pageTableOffset addr)) →
      Apart m pd l (entryPage (m.entry pd (pageDirOffset addr) (pageTableOffset addr)))) :
    ∃ l', Mapped m (m.mapPage pd pg addr flags) pd (pageDirOffset addr) (pageTableOffset addr)
      (toPhysical pg ||| flags) l l'
      (ownedPage (m.entry pd (pageDirOffset addr) (pageTableOffset addr))) := by
  generalize hi' : pageDirOffset addr = i at *
  generalize hj : pageTableOffset addr = j at *
  have hbits : (PTE_FREEABLE ||| flags) &&& PTE_ADDR = 0 := by
    rw [or_and, hflags]
    decide
  obtain ⟨m', l', heq, hp, htables, hentry, hother, hpages⟩ := h.findTable (i := i) hi hbits
    (or_and_ne_zero.mpr (.inr hpres)) (or_and_ne_zero.mpr (.inl (by decide))) hroom
  have hread : m'.table (entryPage (m'.table pd i)) j = m.entry pd i j := by
    rw [← hentry i j hi, Mem.entry, if_neg (not_not.mpr hp)]
  have hmap : m.mapPage pd pg addr flags = Mem.setEntry
      (if Owning (m.entry pd i j) then
        { m' with pages := m'.pages.freePage (entryPage (m.entry pd i j)) } else m')
      (entryPage (m'.table pd i)) j (toPhysical pg ||| flags) := by
    simp only [Mem.mapPage, hi', hj, heq, hread]
  rw [hmap]
  by_cases hown : Owning (m.entry pd i j)
  · have hpm : Present (m.table pd i) := Mem.present_of_entry hown.1
    obtain ⟨-, rfl, rfl⟩ := hpages.resolve_right fun hc => hc.1 hpm
    obtain ⟨htables', hdir, hentry'⟩ :=
      (h.freePage (aligned_entryPage _) (hold hown)).setEntry (i := i) (j := j)
        (e := toPhysical pg ||| flags) hi hpm
    rw [if_pos hown, ownedPage, if_pos hown]
    refine ⟨_, htables', ?_, fun i' _ => hdir i', .inl ⟨hpm, hdir i, ?_⟩⟩
    · intro i₁ j₁ h₁
      rw [hentry' i₁ j₁ h₁, Mem.withPages_entry]
    · rw [List.singleton_append]
  · obtain ⟨htables', hdir, hentry'⟩ :=
      htables.setEntry (j := j) (e := toPhysical pg ||| flags) hi hp
    rw [if_neg hown, ownedPage, if_neg hown]
    refine ⟨l', htables', ?_, ?_, ?_⟩
    · intro i₁ j₁ h₁
      rw [hentry' i₁ j₁ h₁, hentry i₁ j₁ h₁]
    · intro i₁ hne
      rw [hdir, hother i₁ hne]
    · rw [hdir]
      rcases hpages with ⟨hp, rfl, rfl⟩ | ⟨hnp, hown', hl⟩
      · exact .inl ⟨hp, rfl, rfl⟩
      · exact .inr ⟨hnp, rfl, hown', hl⟩

end Tables

/-! ## Counting pages -/

/-- Sums over places of which one changes. -/
theorem sum_change {ι : Type*} [DecidableEq ι] {t : Finset ι} {f g : ι → ℕ} {i : ι} (hi : i ∈ t)
    (h : ∀ k ∈ t, k ≠ i → g k = f k) : ∑ k ∈ t, g k + f i = ∑ k ∈ t, f k + g i := by
  have hsum : ∑ k ∈ t.erase i, g k = ∑ k ∈ t.erase i, f k :=
    Finset.sum_congr rfl fun k hk =>
      h k (Finset.mem_of_mem_erase hk) (Finset.ne_of_mem_erase hk)
  rw [← Finset.add_sum_erase t f hi, ← Finset.add_sum_erase t g hi, hsum]
  omega

/-- How often the user's entries of the directory `pd` own `p` as a table. -/
def dirSum (m : Mem) (pd p : ULong) : ℕ :=
  ∑ i ∈ Finset.range 992, owner (m.table pd (BitVec.ofNat 32 i)) p

theorem ofNat_toNat (i : ULong) : BitVec.ofNat 32 i.toNat = i :=
  BitVec.eq_of_toNat_eq (by rw [BitVec.toNat_ofNat, Nat.mod_eq_of_lt i.isLt])

/-- No page is lost or made when one is mapped. -/
theorem Mapped.count {m m' : Mem} {pd i j e : ULong} {l l' back : List ULong}
    (h : Mapped m m' pd i j e l l' back) (hi : User i) (p : ULong) :
    l'.count p + dirSum m' pd p = l.count p + dirSum m pd p + back.count p := by
  have hmem : i.toNat ∈ Finset.range 992 := Finset.mem_range.mpr hi
  have hsum := sum_change (f := fun k => owner (m.table pd (BitVec.ofNat 32 k)) p)
    (g := fun k => owner (m'.table pd (BitVec.ofNat 32 k)) p) hmem (by
      intro k hk hne
      have hk := Finset.mem_range.mp hk
      have hother : BitVec.ofNat 32 k ≠ i := by
        rintro rfl
        rw [BitVec.toNat_ofNat] at hne
        omega
      rw [h.other _ hother])
  simp only [ofNat_toNat] at hsum
  rw [dirSum, dirSum]
  rcases h.pages with ⟨-, hsame, rfl⟩ | ⟨hnp, rfl, hown, rfl⟩
  · rw [hsame] at hsum
    rw [List.count_append]
    omega
  · rw [owner_of_not (fun hc => hnp hc.1), owner_of_owning hown] at hsum
    rw [List.count_cons, List.count_nil]
    simp only [beq_iff_eq]
    omega

/-- `make_task_page_dir`: the new directory has the kernel's tables and no others. -/
theorem makeTaskPageDir_spec {m : Mem} {pd : ULong} (kernelPd : ULong) {l : List ULong}
    (hfree : m.pages.Free (pd :: l)) (halign : ∀ p ∈ pd :: l, Aligned p) :
    (m.makeTaskPageDir kernelPd).1 = pd ∧ Tables (m.makeTaskPageDir kernelPd).2 pd l ∧
      ∀ i, (m.makeTaskPageDir kernelPd).2.table pd i =
        if User i then 0 else m.table kernelPd i := by
  obtain ⟨hpd, hrest, -⟩ := Pages.allocPage_cons hfree
  have hne : pd ≠ NULL := hfree.ne_null (List.mem_cons_self ..)
  have hnotin : pd ∉ l := (List.nodup_cons.mp hfree.nodup).1
  have heq : m.makeTaskPageDir kernelPd = (pd, {
      pages := m.pages.allocPage.2
      table := Function.update m.table pd fun i => if User i then 0 else m.table kernelPd i }) := by
    rw [Mem.makeTaskPageDir, hpd, if_pos hne]
    rfl
  have hdir : ∀ i, (m.makeTaskPageDir kernelPd).2.table pd i =
      if User i then 0 else m.table kernelPd i := by
    intro i
    rw [heq]
    show Function.update m.table pd _ pd i = _
    rw [Function.update_self]
  have hnone : ∀ i, User i → ¬Present ((m.makeTaskPageDir kernelPd).2.table pd i) := by
    intro i hi
    rw [hdir, if_pos hi]
    exact not_present_zero
  refine ⟨by rw [heq], ⟨?_, fun p hp => halign p (List.mem_cons_of_mem pd hp), hnotin,
    fun i hi hp => absurd hp (hnone i hi), fun i _ hi _ hp => absurd hp (hnone i hi)⟩, hdir⟩
  rw [heq]
  exact hrest

/-! ## Pages that can be taken -/

/-- `alloc_page` finds a page `n` times. -/
def Pages.HasFree (s : Pages) : ℕ → Prop
  | 0 => True
  | n + 1 => s.allocPage.1 ≠ NULL ∧ s.allocPage.2.HasFree n

theorem Pages.Free.hasFree_iff {s : Pages} {l : List ULong} {n : ℕ} (h : s.Free l) :
    s.HasFree n ↔ n ≤ l.length := by
  induction n generalizing s l with
  | zero => exact ⟨fun _ => Nat.zero_le _, fun _ => trivial⟩
  | succ n ih =>
    cases l with
    | nil =>
      have hnull : s.allocPage.1 = NULL := congrArg Prod.fst (Pages.allocPage_nil h)
      exact ⟨fun hc => absurd hnull hc.1, fun hc => absurd hc (Nat.not_succ_le_zero n)⟩
    | cons p l =>
      obtain ⟨hp, hfree, -⟩ := Pages.allocPage_cons h
      have hne : s.allocPage.1 ≠ NULL := hp ▸ h.ne_null (List.mem_cons_self ..)
      rw [Pages.HasFree, ih hfree, List.length_cons, Nat.succ_le_succ_iff]
      exact and_iff_right hne

/-! ## Deleting a page directory -/

/-- `p` may be freed once, and not at all if it is null. -/
def once (p : ULong) : ℕ := if p = NULL then 0 else 1

theorem freePage_count {s : Pages} {l : List ULong} {q : ULong} (h : s.Free l)
    (honce : ∀ p, l.count p + (if q = p then 1 else 0) ≤ once p) :
    (s.freePage q).Free (q :: l) := by
  have hq := honce q
  rw [if_pos rfl, once] at hq
  split_ifs at hq with hnull
  · omega
  · exact Pages.freePage_free h hnull (List.count_eq_zero.mp (by omega))

/-- A loop whose steps only free pages, the page `p` as often as `c i p` says. -/
theorem foldl_frees {m : Mem} {f : Mem → ℕ → Mem} {c : ℕ → ULong → ℕ} {n : ℕ}
    (hstep : ∀ i < n, ∀ (s : Pages) (l : List ULong), s.Free l →
      (∀ p, l.count p + c i p ≤ once p) → ∃ s' l', f { m with pages := s } i =
        { m with pages := s' } ∧ s'.Free l' ∧ ∀ p, l'.count p = l.count p + c i p)
    {l : List ULong} (h : m.pages.Free l)
    (honce : ∀ p, l.count p + ∑ i ∈ Finset.range n, c i p ≤ once p) :
    ∃ s' l', (List.range n).foldl f m = { m with pages := s' } ∧ s'.Free l' ∧
      ∀ p, l'.count p = l.count p + ∑ i ∈ Finset.range n, c i p := by
  induction n with
  | zero => exact ⟨m.pages, l, rfl, h, fun p => rfl⟩
  | succ n ih =>
    have hsum : ∀ p, ∑ i ∈ Finset.range (n + 1), c i p =
        ∑ i ∈ Finset.range n, c i p + c n p := fun p => Finset.sum_range_succ ..
    obtain ⟨s, l₁, heq, hs, hcount⟩ := ih (fun i hi => hstep i (Nat.lt_succ_of_lt hi)) (by
      intro p
      have := honce p
      have := hsum p
      omega)
    obtain ⟨s', l', heq', hs', hcount'⟩ := hstep n (Nat.lt_succ_self n) s l₁ hs (by
      intro p
      have := honce p
      have := hsum p
      have := hcount p
      omega)
    refine ⟨s', l', ?_, hs', ?_⟩
    · rw [List.range_succ, List.foldl_append, heq]
      exact heq'
    · intro p
      rw [hcount', hcount, hsum, Nat.add_assoc]

/-- How often the entries of the table `pt` own `p`. -/
def tableOwners (m : Mem) (pt p : ULong) : ℕ :=
  ∑ j ∈ Finset.range PAGE_ENTRIES, owner (m.table pt (BitVec.ofNat 32 j)) p

/-- How often entry `i` of the directory `pd` owns `p`, as a table or through it. -/
def dirOwners (m : Mem) (pd : ULong) (i : ℕ) (p : ULong) : ℕ :=
  if Owning (m.table pd (BitVec.ofNat 32 i)) then
    tableOwners m (entryPage (m.table pd (BitVec.ofNat 32 i))) p +
      (if entryPage (m.table pd (BitVec.ofNat 32 i)) = p then 1 else 0)
  else 0

theorem deletePageTable_spec {m : Mem} {pt : ULong} {l : List ULong} (h : m.pages.Free l)
    (honce : ∀ p, l.count p + (tableOwners m pt p + if pt = p then 1 else 0) ≤ once p) :
    ∃ s' l', m.deletePageTable pt = { m with pages := s' } ∧ s'.Free l' ∧
      ∀ p, l'.count p = l.count p + (tableOwners m pt p + if pt = p then 1 else 0) := by
  obtain ⟨s, l₁, heq, hs, hcount⟩ := foldl_frees (m := m) (n := PAGE_ENTRIES)
    (f := fun m i =>
      if Owning (m.table pt (BitVec.ofNat 32 i)) then
        { m with pages := m.pages.freePage (entryPage (m.table pt (BitVec.ofNat 32 i))) }
      else m)
    (c := fun i p => owner (m.table pt (BitVec.ofNat 32 i)) p) (by
      intro i _ s l hs honce
      by_cases hown : Owning (m.table pt (BitVec.ofNat 32 i))
      · have howner := owner_of_owning hown
        refine ⟨_, _, if_pos hown, freePage_count hs fun p => howner p ▸ honce p, ?_⟩
        intro p
        rw [howner, List.count_cons]
        simp only [beq_iff_eq]
      · refine ⟨s, l, if_neg hown, hs, fun p => ?_⟩
        rw [owner_of_not hown, Nat.add_zero]) h
    fun p => (Nat.add_le_add_left (Nat.le_add_right ..) _).trans (honce p)
  refine ⟨s.freePage pt, pt :: l₁, ?_, freePage_count hs ?_, ?_⟩
  · rw [Mem.deletePageTable]
    show Mem.mk (Pages.freePage pt (List.foldl _ m _).pages) (List.foldl _ m _).table = _
    rw [heq]
  · intro p
    have := honce p
    have := hcount p
    rw [tableOwners] at *
    omega
  · intro p
    rw [List.count_cons, hcount, tableOwners, Nat.add_assoc]
    simp only [beq_iff_eq]

/-- **`delete_page_dir`** frees the directory, the tables it owns, and the pages they own. -/
theorem deletePageDir_spec {m : Mem} {pd : ULong} {l : List ULong} (h : m.pages.Free l)
    (honce : ∀ p, l.count p + (∑ i ∈ Finset.range PAGE_ENTRIES, dirOwners m pd i p +
      if pd = p then 1 else 0) ≤ once p) :
    ∃ l', (m.deletePageDir pd).pages.Free l' ∧
      ∀ p, l'.count p = l.count p + (∑ i ∈ Finset.range PAGE_ENTRIES, dirOwners m pd i p +
        if pd = p then 1 else 0) := by
  obtain ⟨s, l₁, heq, hs, hcount⟩ := foldl_frees (m := m) (n := PAGE_ENTRIES)
    (f := fun m i =>
      if Owning (m.table pd (BitVec.ofNat 32 i)) then
        m.deletePageTable (entryPage (m.table pd (BitVec.ofNat 32 i)))
      else m)
    (c := dirOwners m pd) (by
      intro i _ s l hs honce
      by_cases hown : Owning (m.table pd (BitVec.ofNat 32 i))
      · have howner : ∀ p, dirOwners m pd i p = _ := fun p => if_pos hown
        obtain ⟨s', l', heq, hs', hcount⟩ := deletePageTable_spec (m := { m with pages := s }) hs
          fun p => howner p ▸ honce p
        refine ⟨s', l', (if_pos hown).trans heq, hs', fun p => ?_⟩
        rw [howner, hcount]
        rfl
      · refine ⟨s, l, if_neg hown, hs, fun p => ?_⟩
        rw [dirOwners, if_neg hown, Nat.add_zero]) h
    fun p => (Nat.add_le_add_left (Nat.le_add_right ..) _).trans (honce p)
  refine ⟨pd :: l₁, ?_, ?_⟩
  · rw [Mem.deletePageDir]
    show (Pages.freePage pd (List.foldl _ m _).pages).Free _
    rw [heq]
    refine freePage_count hs fun p => ?_
    have := honce p
    have := hcount p
    omega
  · intro p
    rw [List.count_cons, hcount, Nat.add_assoc]
    simp only [beq_iff_eq]

end Vmm386.Mm
