import Vmm386.Mm.PageDirs

/-!
# Page tables as a map

What `map_page`, `map_pages` and `set_pte` make of a page directory, seen as a map from pages to
entries.
-/

namespace Vmm386.Mm

open Runs

/-- The number of the page of a linear address. -/
def pageNo (x : ULong) : ULong := x / PAGE_SIZE

/-- The loop of `map_pages`. -/
def Mem.mapLoop (pd stop flags : ULong) : ℕ → ULong → ULong → Mem → Mem
  | 0, _, _, m => m
  | k + 1, start, addr, m =>
    if start < stop then
      mapLoop pd stop flags k (start + PAGE_SIZE) (addr + PAGE_SIZE)
        (m.mapPage pd (toLogical start) addr flags)
    else m

/-- `map_pages`. -/
def Mem.mapPages (m : Mem) (pd start stop addr flags : ULong) : Mem :=
  m.mapLoop pd stop flags ADDRESSES start addr

/-! ## Calls -/

/-- A call of `map_page` or `set_pte`, for a page directory. -/
inductive TableCall where
  | mapPage (pg addr flags : ULong)
  | setPte (addr pte : ULong)

def TableCall.run (pd : ULong) (m : Mem) : TableCall → Mem
  | .mapPage pg addr flags => m.mapPage pd pg addr flags
  | .setPte addr pte => m.setPte pd addr pte

/-- What a call does to the map from pages to entries. -/
def TableCall.set (a : ULong → ULong) : TableCall → ULong → ULong
  | .mapPage pg addr flags => Function.update a (pageNo addr) (toPhysical pg ||| flags)
  | .setPte addr pte => Function.update a (pageNo addr) pte

/-- A call of one of the functions that change a page directory. -/
inductive TableOp where
  | call (c : TableCall)
  | mapPages (start stop addr flags : ULong)

def TableOp.run (pd : ULong) (m : Mem) : TableOp → Mem
  | .call c => c.run pd m
  | .mapPages start stop addr flags => m.mapPages pd start stop addr flags

/-- The first `n` calls of `map_pages`. -/
def mapCalls (flags : ULong) : ℕ → ULong → ULong → List TableCall
  | 0, _, _ => []
  | n + 1, start, addr =>
    .mapPage (toLogical start) addr flags ::
      mapCalls flags n (start + PAGE_SIZE) (addr + PAGE_SIZE)

/-- The calls of `map_page` and `set_pte` in a call. -/
def TableOp.calls : TableOp → List TableCall
  | .call c => [c]
  | .mapPages start stop addr flags =>
    mapCalls flags ((stop.toNat - start.toNat) / 4096) start addr

/-- The addresses of a range are those of pages. -/
def TableOp.PageAligned : TableOp → Prop
  | .call _ => True
  | .mapPages start stop _ _ => Aligned start ∧ Aligned stop

/-- A page that is not the directory `pd` or one of its tables. -/
structure NewPage (m : Mem) (pd p : ULong) : Prop where
  ne_null : p ≠ NULL
  aligned : Aligned p
  ne_dir : p ≠ pd
  ne_table : ∀ i < 1024, Present (m.table pd i) → entryPage (m.table pd i) ≠ p

/-- If a table is needed for `addr`, there is a page for it. -/
def AllocOk (m : Mem) (pd addr : ULong) : Prop :=
  ¬Present (m.table pd (pageDirOffset addr)) → NewPage m pd m.pages.allocPage.1

/-- The flags of a call of `map_page` are flags, with `PTE_PRESENT` among them, and the page
for a new table is there. -/
def CallOk (pd : ULong) (m : Mem) : TableCall → Prop
  | .mapPage _ addr flags => flags &&& PTE_ADDR = 0 ∧ Present flags ∧ AllocOk m pd addr
  | .setPte addr _ => AllocOk m pd addr

def callStep (pd : ULong) (m : Mem) (c : TableCall) : Option Mem := some (c.run pd m)

/-- The page directory has its tables in different pages, and in none of its own. -/
structure Directory (m : Mem) (pd : ULong) : Prop where
  table : ∀ i < 1024, Present (m.table pd i) → entryPage (m.table pd i) ≠ pd
  inj : ∀ i < 1024, ∀ i' < 1024, Present (m.table pd i) → Present (m.table pd i') →
    entryPage (m.table pd i) = entryPage (m.table pd i') → i = i'

/-- The tables of `m'` are those of `m`, and one for `addr`. -/
structure NewTables (m m' : Mem) (pd addr : ULong) : Prop where
  other : ∀ k ≠ pageDirOffset addr, m'.table pd k = m.table pd k
  entry : entryPage (m'.table pd (pageDirOffset addr)) =
    if Present (m.table pd (pageDirOffset addr)) then entryPage (m.table pd (pageDirOffset addr))
    else m.pages.allocPage.1

/-! ## Page numbers -/

theorem pageDirOffset_lt (x : ULong) : pageDirOffset x < 1024 := by
  rw [BitVec.lt_def, toNat_pageDirOffset]
  show _ < 1024
  have := x.isLt
  omega

theorem toNat_pageNo (x : ULong) : (pageNo x).toNat = x.toNat / 4096 := by
  rw [pageNo, BitVec.toNat_udiv]
  rfl

/-- An entry is found by the number of its page. -/
theorem pageNo_eq_iff {x y : ULong} :
    pageNo x = pageNo y ↔
      pageDirOffset x = pageDirOffset y ∧ pageTableOffset x = pageTableOffset y := by
  rw [← BitVec.toNat_inj, ← BitVec.toNat_inj, ← BitVec.toNat_inj, toNat_pageNo, toNat_pageNo,
    toNat_pageDirOffset, toNat_pageDirOffset, toNat_pageTableOffset, toNat_pageTableOffset]
  omega

/-! ## One call -/

namespace Directory

variable {m : Mem} {pd addr bits e flags : ULong}

/-- A store into a table of the directory. -/
theorem setEntry (h : Directory m pd) (hp : Present (m.table pd (pageDirOffset addr)))
    (e : ULong) :
    let m' := m.setEntry (entryPage (m.table pd (pageDirOffset addr))) (pageTableOffset addr) e
    Directory m' pd ∧ (∀ i, m'.table pd i = m.table pd i) ∧
      ∀ x, m'.getPte pd x = if pageNo x = pageNo addr then e else m.getPte pd x := by
  intro m'
  have hlt := pageDirOffset_lt addr
  have hdir : ∀ i, m'.table pd i = m.table pd i := by
    intro i
    rw [Mem.setEntry_table, if_neg fun hc => h.table _ hlt hp hc.1.symm]
  refine ⟨⟨?_, ?_⟩, hdir, ?_⟩
  · intro i hi hpi
    rw [hdir] at hpi ⊢
    exact h.table i hi hpi
  · intro i hi i' hi' hpi hpi' heq
    rw [hdir] at hpi hpi'
    rw [hdir, hdir] at heq
    exact h.inj i hi i' hi' hpi hpi' heq
  · intro x
    rw [Mem.getPte, hdir, Mem.getPte]
    by_cases hpx : Present (m.table pd (pageDirOffset x))
    · rw [if_neg (not_not.mpr hpx), if_neg (not_not.mpr hpx), Mem.setEntry_table]
      refine if_congr ?_ rfl rfl
      rw [pageNo_eq_iff]
      refine and_congr_left fun _ => ⟨fun heq => ?_, fun heq => by rw [heq]⟩
      exact h.inj _ (pageDirOffset_lt x) _ hlt hpx hp heq
    · have hne : pageNo x ≠ pageNo addr := by
        intro heq
        rw [(pageNo_eq_iff.mp heq).1] at hpx
        exact hpx hp
      rw [if_pos hpx, if_pos hpx, if_neg hne]

/-- A new table for an entry of the directory. -/
theorem newTable (h : Directory m pd) (hnew : ¬Present (m.table pd (pageDirOffset addr)))
    (hpage : NewPage m pd m.pages.allocPage.1) (hbits : bits &&& PTE_ADDR = 0)
    (hpres : Present bits) :
    let m' := (m.newTable pd (pageDirOffset addr) bits).2
    Directory m' pd ∧ Present (m'.table pd (pageDirOffset addr)) ∧
      entryPage (m'.table pd (pageDirOffset addr)) = m.pages.allocPage.1 ∧
      (∀ k ≠ pageDirOffset addr, m'.table pd k = m.table pd k) ∧
      ∀ x, m'.getPte pd x = m.getPte pd x := by
  intro m'
  generalize hpt : m.pages.allocPage.1 = pt at hpage
  have htab : ∀ q k, m'.table q k =
      if q = pd ∧ k = pageDirOffset addr then toPhysical pt ||| bits
      else if q = pt then 0 else m.table q k := by
    intro q k
    show ((Mem.clearTable _ m.pages.allocPage.1).setEntry pd
      (pageDirOffset addr)
      (toPhysical m.pages.allocPage.1 ||| bits)).table q k = _
    rw [hpt, Mem.setEntry_table, Mem.clearTable_table]
  have hself : m'.table pd (pageDirOffset addr) = toPhysical pt ||| bits := by
    rw [htab, if_pos ⟨rfl, rfl⟩]
  have hother : ∀ k ≠ pageDirOffset addr, m'.table pd k = m.table pd k := by
    intro k hk
    rw [htab, if_neg fun hc => hk hc.2, if_neg hpage.ne_dir.symm]
  have hentry : entryPage (m'.table pd (pageDirOffset addr)) = pt := by
    rw [hself, entryPage_or hpage.aligned hbits]
  refine ⟨⟨?_, ?_⟩, ?_, hentry, hother, ?_⟩
  · intro k hk hp
    by_cases hki : k = pageDirOffset addr
    · rw [hki, hentry]
      exact hpage.ne_dir
    · rw [hother k hki] at hp ⊢
      exact h.table k hk hp
  · intro k hk k' hk' hp hp' heq
    by_cases hki : k = pageDirOffset addr <;> by_cases hki' : k' = pageDirOffset addr
    · exact hki.trans hki'.symm
    · rw [hother k' hki'] at hp' heq
      rw [hki, hentry] at heq
      exact absurd heq.symm (hpage.ne_table k' hk' hp')
    · rw [hother k hki] at hp heq
      rw [hki', hentry] at heq
      exact absurd heq (hpage.ne_table k hk hp)
    · rw [hother k hki] at hp heq
      rw [hother k' hki'] at hp' heq
      exact h.inj k hk k' hk' hp hp' heq
  · rw [hself]
    exact (present_or hpage.aligned).mpr hpres
  · intro x
    rw [Mem.getPte, Mem.getPte]
    by_cases hx : pageDirOffset x = pageDirOffset addr
    · -- the new table is empty
      have hzero : m'.table pt (pageTableOffset x) = 0 := by
        rw [htab, if_neg fun hc => hpage.ne_dir hc.1, if_pos rfl]
      rw [hx, hentry, hzero, ite_self, if_pos hnew]
    · rw [hother _ hx]
      refine ite_congr rfl (fun _ => rfl) fun hp => ?_
      have hp := not_not.mp hp
      have hlt := pageDirOffset_lt x
      rw [htab, if_neg fun hc => h.table _ hlt hp hc.1, if_neg (hpage.ne_table _ hlt hp)]

/-- The first step of `map_page` and `set_pte`. -/
theorem findTable (h : Directory m pd) (halloc : AllocOk m pd addr) (hbits : bits &&& PTE_ADDR = 0)
    (hpres : Present bits) :
    ∃ m', (if ¬Present (m.table pd (pageDirOffset addr)) then
          m.newTable pd (pageDirOffset addr) bits
        else (entryPage (m.table pd (pageDirOffset addr)), m)) =
        (entryPage (m'.table pd (pageDirOffset addr)), m') ∧
      Directory m' pd ∧ Present (m'.table pd (pageDirOffset addr)) ∧
      (∀ x, m'.getPte pd x = m.getPte pd x) ∧
      (m'.pages = if Present (m.table pd (pageDirOffset addr)) then m.pages
        else m.pages.allocPage.2) ∧ NewTables m m' pd addr := by
  by_cases hp : Present (m.table pd (pageDirOffset addr))
  · exact ⟨m, if_neg (not_not.mpr hp), h, hp, fun _ => rfl, (if_pos hp).symm, fun _ _ => rfl,
      (if_pos hp).symm⟩
  · obtain ⟨hdir, hpres', hentry, hother, hget⟩ := h.newTable hp (halloc hp) hbits hpres
    refine ⟨_, ?_, hdir, hpres', hget, (if_neg hp).symm, hother, hentry.trans (if_neg hp).symm⟩
    rw [if_pos hp, hentry]
    rfl

/-- **`set_pte`.** -/
theorem setPte (h : Directory m pd) (halloc : AllocOk m pd addr) :
    Directory (m.setPte pd addr e) pd ∧
      (∀ x, (m.setPte pd addr e).getPte pd x =
        if pageNo x = pageNo addr then e else m.getPte pd x) ∧
      (m.setPte pd addr e).pages = if Present (m.table pd (pageDirOffset addr)) then m.pages
        else m.pages.allocPage.2 := by
  have hbits : (PTE_PRESENT ||| PTE_FREEABLE ||| (e &&& (PTE_USER ||| PTE_READ_WRITE))) &&&
      PTE_ADDR = 0 := by
    rw [or_and, BitVec.and_assoc]
    exact BitVec.or_eq_zero_iff.mpr ⟨by decide, BitVec.and_zero⟩
  have hpres :
      Present (PTE_PRESENT ||| PTE_FREEABLE ||| (e &&& (PTE_USER ||| PTE_READ_WRITE))) := by
    intro hzero
    rw [or_and] at hzero
    exact absurd (BitVec.or_eq_zero_iff.mp hzero).1 (by decide)
  obtain ⟨m', heq, hdir, hp, hget, hpages, -⟩ := h.findTable halloc hbits hpres
  have hset : m.setPte pd addr e =
      m'.setEntry (entryPage (m'.table pd (pageDirOffset addr))) (pageTableOffset addr) e := by
    simp only [Mem.setPte, heq]
  obtain ⟨hdir', -, hget'⟩ := hdir.setEntry hp e
  rw [hset]
  refine ⟨hdir', fun x => ?_, hpages⟩
  rw [hget', hget]

/-- **`map_page`.** -/
theorem mapPage (h : Directory m pd) (pg : ULong) (halloc : AllocOk m pd addr)
    (hflags : flags &&& PTE_ADDR = 0) (hpres : Present flags) :
    Directory (m.mapPage pd pg addr flags) pd ∧
      (∀ x, (m.mapPage pd pg addr flags).getPte pd x =
        if pageNo x = pageNo addr then toPhysical pg ||| flags else m.getPte pd x) ∧
      Present ((m.mapPage pd pg addr flags).table pd (pageDirOffset addr)) ∧
      NewTables m (m.mapPage pd pg addr flags) pd addr ∧
      (m.mapPage pd pg addr flags).pages =
        if Present (m.table pd (pageDirOffset addr)) then
          if Present (m.getPte pd addr) ∧ Freeable (m.getPte pd addr) then
            m.pages.freePage (entryPage (m.getPte pd addr))
          else m.pages
        else m.pages.allocPage.2 := by
  have hbits : (PTE_FREEABLE ||| flags) &&& PTE_ADDR = 0 := by
    rw [or_and, hflags]
    decide
  have hpres' : Present (PTE_FREEABLE ||| flags) := by
    intro hzero
    rw [or_and] at hzero
    exact hpres (BitVec.or_eq_zero_iff.mp hzero).2
  obtain ⟨m', heq, hdir, hp, hget, hpages, htables⟩ := h.findTable halloc hbits hpres'
  have hread : m'.table (entryPage (m'.table pd (pageDirOffset addr))) (pageTableOffset addr) =
      m.getPte pd addr := by
    rw [← hget addr, Mem.getPte, if_neg (not_not.mpr hp)]
  have hmap : m.mapPage pd pg addr flags = Mem.setEntry
      (if Present (m.getPte pd addr) ∧ Freeable (m.getPte pd addr) then
        { m' with pages := m'.pages.freePage (entryPage (m.getPte pd addr)) } else m')
      (entryPage (m'.table pd (pageDirOffset addr))) (pageTableOffset addr)
      (toPhysical pg ||| flags) := by
    simp only [Mem.mapPage, heq, hread]
  -- freeing the replaced page changes no table
  have hfreed : ∃ m'' : Mem, m.mapPage pd pg addr flags =
        m''.setEntry (entryPage (m''.table pd (pageDirOffset addr))) (pageTableOffset addr)
          (toPhysical pg ||| flags) ∧ m''.table = m'.table ∧
      m''.pages = if Present (m.getPte pd addr) ∧ Freeable (m.getPte pd addr) then
        m'.pages.freePage (entryPage (m.getPte pd addr)) else m'.pages := by
    by_cases hold : Present (m.getPte pd addr) ∧ Freeable (m.getPte pd addr)
    · rw [if_pos hold] at hmap
      exact ⟨_, hmap, rfl, (if_pos hold).symm⟩
    · rw [if_neg hold] at hmap
      exact ⟨_, hmap, rfl, (if_neg hold).symm⟩
  obtain ⟨m'', hmap'', htable, hpages''⟩ := hfreed
  have hdir'' : Directory m'' pd := by
    refine ⟨?_, ?_⟩ <;> rw [htable]
    · exact hdir.table
    · exact hdir.inj
  have hp'' : Present (m''.table pd (pageDirOffset addr)) := by rwa [htable]
  have hget'' : ∀ x, m''.getPte pd x = m.getPte pd x := by
    intro x
    rw [← hget x, Mem.getPte, Mem.getPte, htable]
  obtain ⟨hdirS, hsame, hgetS⟩ :=
    hdir''.setEntry hp'' (toPhysical pg ||| flags)
  rw [hmap'']
  refine ⟨hdirS, fun x => by rw [hgetS, hget''], by rw [hsame]; exact hp'', ⟨fun k hk => ?_, ?_⟩,
    ?_⟩
  · rw [hsame, htable]
    exact htables.other k hk
  · rw [hsame, htable]
    exact htables.entry
  show m''.pages = _
  rw [hpages'', hpages]
  by_cases hpd : Present (m.table pd (pageDirOffset addr))
  · rw [if_pos hpd, if_pos hpd]
  · -- without a table there was no entry to replace
    have hzero : m.getPte pd addr = 0 := by
      rw [Mem.getPte, if_pos hpd]
    have hnot : ¬(Present (m.getPte pd addr) ∧ Freeable (m.getPte pd addr)) := by
      rw [hzero]
      decide
    rw [if_neg hpd, if_neg hpd, if_neg hnot]

end Directory

/-! ## Sequences of calls -/

/-- The calls of `map_page` in a call of `map_pages`. -/
theorem mapLoop_eq {pd stop flags : ULong} (hstop : Aligned stop) {k : ℕ} {start addr : ULong}
    {m : Mem} (hstart : Aligned start) (hk : (stop.toNat - start.toNat) / 4096 ≤ k) :
    m.mapLoop pd stop flags k start addr =
      (mapCalls flags ((stop.toNat - start.toNat) / 4096) start addr).foldl
        (TableCall.run pd) m := by
  unfold Aligned at hstart hstop
  induction k generalizing start addr m with
  | zero =>
    have hzero : (stop.toNat - start.toNat) / 4096 = 0 := by omega
    rw [hzero]
    rfl
  | succ k ih =>
    rw [Mem.mapLoop]
    by_cases hlt : start < stop
    · rw [if_pos hlt]
      rw [BitVec.lt_def] at hlt
      have hstopLt := stop.isLt
      have hnext : (start + PAGE_SIZE).toNat = start.toNat + 4096 := by
        rw [BitVec.toNat_add]
        exact Nat.mod_eq_of_lt (by show start.toNat + 4096 < 2 ^ 32; omega)
      obtain ⟨n, hn⟩ : ∃ n, (stop.toNat - start.toNat) / 4096 = n + 1 :=
        ⟨(stop.toNat - start.toNat) / 4096 - 1, by omega⟩
      have hrest : (stop.toNat - (start + PAGE_SIZE).toNat) / 4096 = n := by
        rw [hnext]
        omega
      rw [ih (by rw [hnext]; omega) (by omega), hrest, hn]
      rfl
    · rw [if_neg hlt]
      rw [BitVec.lt_def] at hlt
      have hzero : (stop.toNat - start.toNat) / 4096 = 0 := by omega
      rw [hzero]
      rfl

theorem TableOp.run_eq {pd : ULong} {op : TableOp} (h : op.PageAligned) (m : Mem) :
    op.run pd m = op.calls.foldl (TableCall.run pd) m := by
  cases op with
  | call c => rfl
  | mapPages start stop addr flags =>
    have hle : (stop.toNat - start.toNat) / 4096 ≤ ADDRESSES := by
      have haddr : ADDRESSES = 4294967296 := by norm_num
      have := stop.isLt
      omega
    exact mapLoop_eq h.2 h.1 hle

/-- What a call does to the free list, and to the directory entry. -/
def CallKept (pd : ULong) (m : Mem) : TableCall → Prop
  | .mapPage pg addr flags =>
    Present ((m.mapPage pd pg addr flags).table pd (pageDirOffset addr)) ∧
      (m.mapPage pd pg addr flags).pages =
        if Present (m.table pd (pageDirOffset addr)) then
          if Present (m.getPte pd addr) ∧ Freeable (m.getPte pd addr) then
            m.pages.freePage (entryPage (m.getPte pd addr))
          else m.pages
        else m.pages.allocPage.2
  | .setPte addr e =>
    (m.setPte pd addr e).pages =
      if Present (m.table pd (pageDirOffset addr)) then m.pages else m.pages.allocPage.2

/-- The entries of a page directory, by the numbers of the pages. -/
def Mem.entries (m : Mem) (pd p : ULong) : ULong := m.getPte pd (p * PAGE_SIZE)

theorem Mem.getPte_congr {m : Mem} {pd x y : ULong} (h : pageNo x = pageNo y) :
    m.getPte pd x = m.getPte pd y := by
  obtain ⟨hdir, htable⟩ := pageNo_eq_iff.mp h
  rw [Mem.getPte, Mem.getPte, hdir, htable]

theorem Mem.getPte_eq_entries (m : Mem) (pd x : ULong) :
    m.getPte pd x = m.entries pd (pageNo x) := by
  refine Mem.getPte_congr ?_
  apply BitVec.eq_of_toNat_eq
  rw [toNat_pageNo, toNat_pageNo, BitVec.toNat_mul, toNat_pageNo]
  show _ = x.toNat / 4096 * 4096 % 2 ^ 32 / 4096
  have := x.isLt
  omega

/-- One call. -/
theorem Directory.call {m : Mem} {pd : ULong} (h : Directory m pd) {c : TableCall}
    (hok : CallOk pd m c) {a : ULong → ULong} (ha : ∀ x, m.getPte pd x = a (pageNo x)) :
    Directory (c.run pd m) pd ∧ CallKept pd m c ∧
      ∀ x, (c.run pd m).getPte pd x = c.set a (pageNo x) := by
  cases c with
  | mapPage pg addr flags =>
    obtain ⟨hflags, hpres, halloc⟩ := hok
    obtain ⟨hdir, hget, hpresent, -, hpages⟩ := h.mapPage pg halloc hflags hpres
    refine ⟨hdir, ⟨hpresent, hpages⟩, fun x => (hget x).trans ?_⟩
    rw [TableCall.set, Function.update_apply, ha]
  | setPte addr e =>
    obtain ⟨hdir, hget, hpages⟩ := h.setPte (e := e) hok
    refine ⟨hdir, hpages, fun x => (hget x).trans ?_⟩
    rw [TableCall.set, Function.update_apply, ha]

/-- Every sequence of calls. -/
theorem Directory.calls {pd : ULong} {cs : List TableCall} : ∀ {m : Mem} {a : ULong → ULong},
    Directory m pd → Along (callStep pd) (CallOk pd) m cs → (∀ x, m.getPte pd x = a (pageNo x)) →
    Along (callStep pd) (CallKept pd) m cs ∧
      ∀ x, (cs.foldl (TableCall.run pd) m).getPte pd x = cs.foldl TableCall.set a (pageNo x) := by
  induction cs with
  | nil => intro m a _ _ ha; exact ⟨trivial, ha⟩
  | cons c cs ih =>
    intro m a h hok ha
    obtain ⟨hdir, hkept, hget⟩ := h.call hok.1 ha
    obtain ⟨hrest, hall⟩ := ih hdir (hok.2 _ rfl) hget
    refine ⟨⟨hkept, fun m' hm' => ?_⟩, hall⟩
    cases hm'
    exact hrest

/-! ## The map -/

/-- The page directory `pd` is the map `a` from pages to entries. -/
structure MapsTo (m : Mem) (pd : ULong) (a : ULong → ULong) : Prop where
  getPte : ∀ x, m.getPte pd x = a (pageNo x)
  readPageMapping : ∀ x, m.readPageMapping pd x =
    if Present (a (pageNo x)) then pteGetAddr (a (pageNo x)) else 0
  linToPhys : ∀ x, m.linToPhys pd x =
    if Present (a (pageNo x)) then pteGetAddr (a (pageNo x)) + pageOffset x else 0

theorem frame_add_offset (e x : ULong) :
    pteGetAddr e + pageOffset x = pteGetAddr e ||| pageOffset x := by
  refine BitVec.add_eq_or_of_and_eq_zero _ _ ?_
  have hswap : (e &&& PTE_ADDR) &&& (x &&& 0xfff) = (e &&& x) &&& (PTE_ADDR &&& 0xfff) := by
    ac_rfl
  have hmask : PTE_ADDR &&& 0xfff = 0 := by decide
  rw [pteGetAddr, pageOffset, hswap, hmask]
  exact BitVec.and_zero

/-- `lin_to_phys` is right unless a page is mapped to the first page of the physical memory, whose
address is the one that stands for an unmapped page. -/
theorem mapsTo_iff {m : Mem} {pd : ULong} {a : ULong → ULong}
    (hget : ∀ x, m.getPte pd x = a (pageNo x)) :
    MapsTo m pd a ↔ ∀ x, Present (a (pageNo x)) → pteGetAddr (a (pageNo x)) ≠ 0 := by
  have hread : ∀ x, m.readPageMapping pd x =
      if Present (a (pageNo x)) then pteGetAddr (a (pageNo x)) else 0 := by
    intro x
    rw [Mem.readPageMapping, hget]
  constructor
  · intro h x hpres hzero
    -- the second byte of the page
    let y : ULong := BitVec.ofNat 32 (x.toNat / 4096 * 4096 + 1)
    have hy : y.toNat = x.toNat / 4096 * 4096 + 1 := by
      have := x.isLt
      exact Nat.mod_eq_of_lt (by omega)
    have hpage : pageNo y = pageNo x := by
      apply BitVec.eq_of_toNat_eq
      rw [toNat_pageNo, toNat_pageNo, hy]
      omega
    have hoffset : pageOffset y = 1 := by
      apply BitVec.eq_of_toNat_eq
      rw [pageOffset, BitVec.toNat_and]
      show y.toNat &&& 2 ^ 12 - 1 = 1
      rw [Nat.and_two_pow_sub_one_eq_mod, hy]
      omega
    have hlin := h.linToPhys y
    rw [Mem.linToPhys, hread, hpage, if_pos hpres, if_pos hpres, hzero, hoffset] at hlin
    exact absurd hlin (by decide)
  · intro hframe
    refine ⟨hget, hread, fun x => ?_⟩
    rw [Mem.linToPhys, hread]
    by_cases hpres : Present (a (pageNo x))
    · rw [if_pos hpres, if_pos (hframe x hpres), if_pos hpres, frame_add_offset]
    · rw [if_neg hpres, if_neg (not_not.mpr rfl), if_neg hpres]

/-- **Page tables.** After every sequence of calls the directory is the map that the calls make,
no call has freed anything but the page that `map_page` replaced, and the directory entry of
a page that has been mapped is present; but the addresses that `lin_to_phys` gives are right
only as long as nothing maps the first page of the physical memory. -/
theorem pageTables_iff {m : Mem} {pd : ULong} (h : Directory m pd) {ops : List TableOp}
    (haligned : ∀ op ∈ ops, op.PageAligned)
    (hok : Along (callStep pd) (CallOk pd) m (ops.flatMap TableOp.calls)) :
    MapsTo (ops.foldl (TableOp.run pd) m) pd
        ((ops.flatMap TableOp.calls).foldl TableCall.set (m.entries pd)) ∧
      Along (callStep pd) (CallKept pd) m (ops.flatMap TableOp.calls) ↔
    ∀ x, Present ((ops.flatMap TableOp.calls).foldl TableCall.set (m.entries pd) (pageNo x)) →
      pteGetAddr
        ((ops.flatMap TableOp.calls).foldl TableCall.set (m.entries pd) (pageNo x)) ≠ 0 := by
  have hflat : ∀ {ops : List TableOp} {m : Mem}, (∀ op ∈ ops, op.PageAligned) →
      ops.foldl (TableOp.run pd) m = (ops.flatMap TableOp.calls).foldl (TableCall.run pd) m := by
    intro ops
    induction ops with
    | nil => intro m _; rfl
    | cons op ops ih =>
      intro m hall
      rw [List.foldl_cons, List.flatMap_cons, List.foldl_append,
        ih fun op' hop' => hall op' (List.mem_cons_of_mem op hop'),
        TableOp.run_eq (hall op List.mem_cons_self)]
  obtain ⟨hkept, hget⟩ := h.calls hok (m.getPte_eq_entries pd)
  rw [hflat haligned, and_iff_left hkept]
  exact mapsTo_iff hget

/-! ## The first two pages -/

/-- A page directory without tables, and a free page for one. -/
def emptyDir : Mem where
  pages := Pages.freePage 0x801000 ⟨⟨NULL, fun _ => NULL⟩, 1, 0⟩
  table _ _ := 0

theorem zero_not_present : ¬Present 0 := by decide

theorem emptyDir_directory : Directory emptyDir 0x900000 :=
  ⟨fun _ _ h => absurd h zero_not_present, fun _ _ _ _ h => absurd h zero_not_present⟩

theorem emptyDir_callOk (pg addr : ULong) :
    Along (callStep 0x900000) (CallOk 0x900000) emptyDir [.mapPage pg addr PTE_PRESENT] := by
  refine ⟨⟨by decide, by decide, fun _ => ?_⟩, fun _ _ => trivial⟩
  exact ⟨by decide, rfl, by decide, fun _ _ h => absurd h zero_not_present⟩

theorem emptyDir_entries (p : ULong) : emptyDir.entries 0x900000 p = 0 := if_pos zero_not_present

/-- The third physical page is mapped. -/
theorem pageTables_third :
    MapsTo (emptyDir.mapPage 0x900000 0x802000 0x5000 PTE_PRESENT) 0x900000
      (Function.update (emptyDir.entries 0x900000) 5 0x2001) := by
  have haligned :
      ∀ op ∈ [TableOp.call (.mapPage 0x802000 0x5000 PTE_PRESENT)], op.PageAligned := by
    simp [TableOp.PageAligned]
  refine ((pageTables_iff emptyDir_directory haligned (emptyDir_callOk 0x802000 0x5000)).mpr
    fun x hpres => ?_).1
  have hset : ∀ p, Function.update (emptyDir.entries 0x900000) 5 0x2001 p =
      if p = 5 then 0x2001 else 0 := by
    intro p
    rw [Function.update_apply, emptyDir_entries]
  have hpres : Present (Function.update (emptyDir.entries 0x900000) 5 0x2001 (pageNo x)) := hpres
  show pteGetAddr (Function.update (emptyDir.entries 0x900000) 5 0x2001 (pageNo x)) ≠ 0
  rw [hset] at hpres ⊢
  by_cases hx : pageNo x = 5
  · rw [if_pos hx]
    decide
  · rw [if_neg hx] at hpres
    exact absurd hpres zero_not_present

/-- The first physical page is mapped, and its sixth byte has no address. -/
theorem linToPhys_first_page :
    Directory emptyDir 0x900000 ∧
    Along (callStep 0x900000) (CallOk 0x900000) emptyDir [.mapPage 0x800000 0x5000 PTE_PRESENT] ∧
    ¬MapsTo (emptyDir.mapPage 0x900000 0x800000 0x5000 PTE_PRESENT) 0x900000
      (Function.update (emptyDir.entries 0x900000) 5 PTE_PRESENT) := by
  refine ⟨emptyDir_directory, emptyDir_callOk 0x800000 0x5000, fun hmaps => ?_⟩
  have hzero : (emptyDir.mapPage 0x900000 0x800000 0x5000 PTE_PRESENT).linToPhys 0x900000 0x5005 =
      0 := by decide
  exact absurd (hzero.symm.trans (hmaps.linToPhys 0x5005)) (by decide)

end Vmm386.Mm
