import Vmm386.Fs.CreateFile

/-!
# When `create_file` does all or nothing

A file that could not be entered in its directory is closed, and its handle returned. An entry
that could not be looked for is taken to have been made.
-/

namespace Vmm386.Fs.FileTables

open Tables

/-- The inode bitmap, the directories, the free handles, and the references to inodes are the
same. -/
structure SameTables (s s' : Tables) : Prop where
  inodeBitmap : s'.inodeBitmap = s.inodeBitmap
  entries : s'.entries = s.entries
  freeFiles : s'.freeFiles = s.freeFiles
  freeInodes : s'.freeInodes = s.freeInodes
  uses : ∀ m, (s'.core m).map CoreInode.useCount = (s.core m).map CoreInode.useCount

/-- The handle is open, and its inode has one link, the attributes, and an entry. -/
def Created (s : Tables) (dir file : ℕ) (name : List UChar) (attr : ULong) : Prop :=
  ∃ inum c, s.files file = some inum ∧ file ∉ s.freeFiles ∧ s.inodeBitmap inum = true ∧
    s.core inum = some c ∧ c.inode.nlinks = 1 ∧ c.inode.attr = attr ∧
    ⟨name, inum⟩ ∈ s.entries dir

/-- `create_file` has done all, or nothing. -/
def Atomic (s : Tables) (dir : Option ℕ) (name : List UChar) (attr : ULong) :
    Option (Option ℕ × Tables) → Prop
  | none => False
  | some (none, s') => SameTables s s'
  | some (some file, s') => ∃ d, dir = some d ∧ Created s' d file name attr

/-- What the functions of the file system keep: an inode in memory is in use and allocated, an
allocated inode that is not in memory has links, an entry is of an allocated inode, and a free
handle has no inode. -/
structure Tables.Ok (s : Tables) : Prop where
  core : ∀ m c, s.core m = some c → 0 < c.useCount ∧ s.inodeBitmap m = true
  linked : ∀ m, s.inodeBitmap m = true → s.core m = none → (s.inodes m).nlinks ≠ 0
  entry : ∀ d, ∀ e ∈ s.entries d, e.name ≠ [] → s.inodeBitmap e.inum = true
  nodup : s.freeFiles.Nodup
  closed : ∀ h ∈ s.freeFiles, s.files h = none

/-! ## What decides it -/

namespace Tables

variable (s : Tables) (f : Faults)

/-- `make_inode` has, or gets, the inode. -/
def CanMake (inum : ℕ) : Prop :=
  s.core inum ≠ none ∨ 0 < s.freeInodes ∧ f.readInode inum = false

/-- The inode as `make_inode` gives it. -/
def inodeOf (inum : ℕ) : Inode := ((s.core inum).map CoreInode.inode).getD (s.inodes inum)

def HasDirAttr (inum : ℕ) : Prop := ((s.inodeOf inum).attr &&& ATTR_DIRECTORY != 0) = true

/-- The room for inodes that is left besides the directory. -/
def roomBeside (dir : ℕ) : ℕ := if s.core dir = none then s.freeInodes - 1 else s.freeInodes

/-- `find_file_entry` sees an entry of that name, and gets its inode. -/
def Finds (dir : ℕ) (name : List UChar) : Prop :=
  s.HasDirAttr dir ∧ ∃ e, ((readEntries (s.entries dir) f.search).1.find? fun e =>
    e.name ≠ [] ∧ e.name = name) = some e ∧
    (e.inum = dir ∨ s.core e.inum ≠ none ∨ 0 < s.roomBeside dir ∧ f.readInode e.inum = false)

/-- The directory is one, is not longer than a block, can be read again and has no such name;
the entry can be written, and `strncpy` ends its name. -/
def CanEnter (dir : ℕ) (name junk : List UChar) : Prop :=
  s.HasDirAttr dir ∧ (readEntries (s.entries dir) f.enter).2 = true ∧
    (s.entries dir).length ≤ DIR_ENTRIES_PER_BLOCK ∧ (∀ e ∈ s.entries dir, e.name ≠ name) ∧
    f.write = false ∧ entryName name junk = name

/-- If a new inode gets as far as its handle, it can be entered in the directory; if not, it can
be given back. What is read of the directory is not longer than a block. -/
def Meets (dir : ℕ) (name junk : List UChar) : Prop :=
  s.CanMake f dir → s.freeFiles ≠ [] → name ≠ [] →
    (s.HasDirAttr dir → (readEntries (s.entries dir) f.search).1.length ≤ DIR_ENTRIES_PER_BLOCK) ∧
    (¬ s.Finds f dir name → ∀ inum, f.alloc = false → s.freeInum = some inum →
      if 0 < s.roomBeside dir ∧ f.readInode inum = false then
        if 2 ≤ s.freeFiles.length then s.CanEnter f dir name junk
        else f.closeFree = false ∨ f.free = false
      else f.free = false)

/-! ## References -/

/-- The same but for what the inodes hold, but their links. -/
structure Alike (s s' : Tables) : Prop where
  inodeBitmap : s'.inodeBitmap = s.inodeBitmap
  entries : s'.entries = s.entries
  freeFiles : s'.freeFiles = s.freeFiles
  files : s'.files = s.files
  freeInodes : s'.freeInodes = s.freeInodes
  core : ∀ m, (s'.core m).map (fun c => (c.useCount, c.inode.nlinks)) =
    (s.core m).map fun c => (c.useCount, c.inode.nlinks)

variable {s f} {s' r : Tables} {m n file : ℕ} {c : CoreInode}

theorem Alike.refl (s : Tables) : Alike s s := ⟨rfl, rfl, rfl, rfl, rfl, fun _ => rfl⟩

theorem Alike.symm (h : Alike s s') : Alike s' s :=
  ⟨h.1.symm, h.2.symm, h.3.symm, h.4.symm, h.5.symm, fun m => (h.core m).symm⟩

theorem Alike.trans (h : Alike s s') (h' : Alike s' r) : Alike s r :=
  ⟨h'.1.trans h.1, h'.2.trans h.2, h'.3.trans h.3, h'.4.trans h.4, h'.5.trans h.5,
    fun m => (h'.core m).trans (h.core m)⟩

theorem Alike.sameTables (h : Alike s s') : SameTables s s' where
  inodeBitmap := h.inodeBitmap
  entries := h.entries
  freeFiles := h.freeFiles
  freeInodes := h.freeInodes
  uses m := by
    have hcore := congrArg (Option.map Prod.fst) (h.core m)
    rwa [Option.map_map, Option.map_map] at hcore

/-- An inode in memory has its counterpart. -/
theorem Alike.core_some (h : Alike s s') (hc : s.core m = some c) :
    ∃ c', s'.core m = some c' ∧ c'.useCount = c.useCount ∧ c'.inode.nlinks = c.inode.nlinks := by
  have hcore := h.core m
  rw [hc, Option.map_some, Option.map_eq_some_iff] at hcore
  obtain ⟨c', hc', heq⟩ := hcore
  exact ⟨c', hc', (Prod.mk.inj heq).1, (Prod.mk.inj heq).2⟩

theorem Alike.core_none (h : Alike s s') (hc : s.core m = none) : s'.core m = none := by
  have hcore := h.core m
  rwa [hc, Option.map_none, Option.map_eq_none_iff] at hcore

/-- Inodes that are put in the same place are alike if they are. -/
theorem Alike.setCore (h : Alike s s') {a b : Option CoreInode}
    (hab : b.map (fun c => (c.useCount, c.inode.nlinks)) =
      a.map fun c => (c.useCount, c.inode.nlinks)) :
    Alike (s.setCore m a) (s'.setCore m b) where
  inodeBitmap := h.inodeBitmap
  entries := h.entries
  freeFiles := h.freeFiles
  files := h.files
  freeInodes := h.freeInodes
  core k := by
    show (Function.update s'.core m b k).map _ = (Function.update s.core m a k).map _
    by_cases hk : k = m
    · rw [hk, Function.update_self, Function.update_self, hab]
    · rw [Function.update_of_ne hk, Function.update_of_ne hk]
      exact h.core k

theorem alike_setCore (hc : s.core m = some c) {c' : CoreInode} (huse : c'.useCount = c.useCount)
    (hlinks : c'.inode.nlinks = c.inode.nlinks) : Alike s (s.setCore m (some c')) where
  inodeBitmap := rfl
  entries := rfl
  freeFiles := rfl
  files := rfl
  freeInodes := rfl
  core k := by
    show (Function.update s.core m (some c') k).map _ = _
    by_cases hk : k = m
    · rw [hk, Function.update_self, hc, Option.map_some, Option.map_some, huse, hlinks]
    · rw [Function.update_of_ne hk]

theorem alike_writeInode (s : Tables) (f : Faults) (m : ℕ) : Alike s (s.writeInode f m) := by
  unfold writeInode
  cases hc : s.core m with
  | none => exact Alike.refl s
  | some c =>
    simp only
    split
    · have hset : Alike s (s.setCore m (some { c with dirty := false })) := alike_setCore hc rfl rfl
      exact ⟨rfl, rfl, rfl, rfl, rfl, hset.core⟩
    · exact Alike.refl s

theorem Alike.dropInode (h : Alike s s') (f : Faults) (m : ℕ) :
    Alike (s.dropInode f m) (s'.dropInode f m) := by
  unfold Tables.dropInode
  cases hc : s.core m with
  | none =>
    rw [h.core_none hc]
    exact h
  | some c =>
    obtain ⟨c', hc', huse, hlinks⟩ := h.core_some hc
    have hnone : Alike { s with freeInodes := s.freeInodes + 1 }
        { s' with freeInodes := s'.freeInodes + 1 } :=
      ⟨h.1, h.2, h.3, h.4, congrArg (· + 1) h.5, h.6⟩
    have hunlinked := hnone.setCore (m := m) (a := none) (b := none) rfl
    simp only [hc', huse, hlinks]
    split
    · split
      · unfold Tables.freeInode
        split
        · exact hunlinked
        · refine ⟨?_, hunlinked.2, hunlinked.3, hunlinked.4, hunlinked.5, hunlinked.6⟩
          exact congrArg (Function.update · m false) h.inodeBitmap
      · exact hunlinked
    · apply h.setCore
      rw [Option.map_some, Option.map_some, hlinks]

theorem Alike.closeInode (h : Alike s s') (f : Faults) (m : ℕ) :
    Alike (s.closeInode f m) (s'.closeInode f m) := by
  -- both are like what they are without the write
  have hs : Alike (s.dropInode f m) (s.closeInode f m) := (alike_writeInode s f m).dropInode f m
  have hs' : Alike (s'.dropInode f m) (s'.closeInode f m) :=
    (alike_writeInode s' f m).dropInode f m
  exact (hs.symm.trans (h.dropInode f m)).trans hs'

theorem Alike.closeFile (h : Alike s s') (f : Faults) (file : ℕ) :
    Alike (s.closeFile f file) (s'.closeFile f file) := by
  unfold Tables.closeFile
  rw [h.files]
  cases s.files file with
  | none => exact h
  | some inum =>
    have hclose := h.closeInode f inum
    exact ⟨hclose.1, hclose.2, congrArg (file :: ·) hclose.3,
      congrArg (Function.update · file none) hclose.4, hclose.5, hclose.6⟩

/-- `close_inode` after `make_inode`. -/
theorem alike_makeInode (hok : s.Ok) (hm : s.inodeBitmap m = true)
    (hmake : s.makeInode f m = some s') : Alike s (s'.closeInode f m) := by
  refine Alike.trans ?_ ((alike_writeInode s' f m).dropInode f m)
  unfold makeInode at hmake
  cases hc : s.core m with
  | some c =>
    simp only [hc] at hmake
    cases hmake
    have hpos := (hok.core m c hc).1
    have hcore : (s.setCore m (some { c with useCount := c.useCount + 1 })).core m =
        some { c with useCount := c.useCount + 1 } := Function.update_self _ _ _
    unfold dropInode
    rw [hcore]
    simp only
    rw [if_neg (by omega)]
    refine ⟨rfl, rfl, rfl, rfl, rfl, fun k => ?_⟩
    show (Function.update (Function.update s.core m _) m _ k).map _ = _
    rw [Function.update_idem]
    by_cases hk : k = m
    · rw [hk, Function.update_self, hc]
      rfl
    · rw [Function.update_of_ne hk]
  | none =>
    simp only [hc] at hmake
    split at hmake
    · cases hmake
    · rename_i hroom
      rw [not_or] at hroom
      cases hmake
      have hlinks := hok.linked m hm hc
      have hcore : ({ s with freeInodes := s.freeInodes - 1 }.setCore m
          (some ⟨s.inodes m, 1, false⟩)).core m = some ⟨s.inodes m, 1, false⟩ :=
        Function.update_self _ _ _
      unfold dropInode
      rw [hcore]
      simp only
      rw [if_pos trivial, if_neg hlinks]
      refine ⟨rfl, rfl, rfl, rfl, Nat.succ_pred_eq_of_pos (Nat.pos_of_ne_zero hroom.1), ?_⟩
      intro k
      show (Function.update (Function.update s.core m _) m _ k).map _ = _
      rw [Function.update_idem]
      by_cases hk : k = m
      · rw [hk, Function.update_self, hc]
      · rw [Function.update_of_ne hk]

/-! ## The directory -/

/-- `find_parent` has opened the directory `n`. -/
structure Opened (s s' : Tables) (f : Faults) (n file : ℕ) : Prop where
  inodeBitmap : s'.inodeBitmap = s.inodeBitmap
  numInodes : s'.numInodes = s.numInodes
  entries : s'.entries = s.entries
  freeFiles : s.freeFiles = file :: s'.freeFiles
  files : s'.files = Function.update s.files file (some n)
  freeInodes : s'.freeInodes = s.roomBeside n
  core : ∀ m, m ≠ n → s'.core m = s.core m
  inodes : ∀ m, m ≠ n → s'.inodes m = s.inodes m
  parent : ∃ c, s'.core n = some c ∧ 0 < c.useCount ∧ c.inode = s.inodeOf n
  closes : Alike s (s'.closeFile f file)

theorem canMake_of_makeInode (hmake : s.makeInode f m = some s') : s.CanMake f m := by
  unfold makeInode at hmake
  cases hc : s.core m with
  | some c => exact Or.inl (by rw [hc]; exact nofun)
  | none =>
    simp only [hc] at hmake
    split at hmake
    · cases hmake
    · rename_i hroom
      rw [not_or] at hroom
      exact Or.inr ⟨Nat.pos_of_ne_zero hroom.1, Bool.eq_false_of_not_eq_true hroom.2⟩

theorem not_canMake_of_makeInode (hmake : s.makeInode f m = none) : ¬ s.CanMake f m := by
  unfold makeInode at hmake
  cases hc : s.core m with
  | some c =>
    simp only [hc] at hmake
    cases hmake
  | none =>
    simp only [hc] at hmake
    split at hmake
    · rename_i hroom
      rintro (hne | ⟨hpos, hread⟩)
      · exact hne hc
      · rcases hroom with hzero | hfail
        · omega
        · rw [hread] at hfail
          cases hfail
    · cases hmake

/-- What `make_inode` leaves. -/
theorem makeInode_spec (hmake : s.makeInode f m = some s') :
    s' = { s with freeInodes := s.roomBeside m }.setCore m (s'.core m) ∧
      ∃ c, s'.core m = some c ∧ 0 < c.useCount ∧ c.inode = s.inodeOf m ∧
        (s.core m = none → c.useCount = 1 ∧ c.dirty = false) := by
  unfold makeInode at hmake
  cases hc : s.core m with
  | some c =>
    simp only [hc] at hmake
    cases hmake
    have hcore : (s.setCore m (some { c with useCount := c.useCount + 1 })).core m =
        some { c with useCount := c.useCount + 1 } := Function.update_self _ _ _
    rw [hcore]
    refine ⟨?_, _, rfl, Nat.succ_pos _, ?_, nofun⟩
    · rw [roomBeside, if_neg (by rw [hc]; exact nofun)]
    · rw [inodeOf, hc]
      rfl
  | none =>
    simp only [hc] at hmake
    split at hmake
    · cases hmake
    · cases hmake
      have hcore : ({ s with freeInodes := s.freeInodes - 1 }.setCore m
          (some ⟨s.inodes m, 1, false⟩)).core m = some ⟨s.inodes m, 1, false⟩ :=
        Function.update_self _ _ _
      rw [hcore]
      refine ⟨?_, _, rfl, Nat.one_pos, ?_, fun _ => ⟨rfl, rfl⟩⟩
      · rw [roomBeside, if_pos hc]
      · rw [inodeOf, hc]
        rfl

/-- `write_inode` may write the inode, and it may then not be dirty any more. -/
theorem writeInode_spec (f : Faults) (hc : s.core m = some c) : ∃ inode dirty,
    s.writeInode f m = { s with inodes := Function.update s.inodes m inode }.setCore m
      (some { c with dirty }) := by
  unfold writeInode
  rw [hc]
  simp only
  split
  · exact ⟨c.inode, false, rfl⟩
  · refine ⟨s.inodes m, c.dirty, ?_⟩
    rw [Function.update_eq_self]
    show s = { s with core := Function.update s.core m (some c) }
    rw [← hc, Function.update_eq_self]

/-- The inode is in use after `close_inode`. -/
theorem closeInode_of_one_lt (f : Faults) (hc : s.core m = some c) (huse : 1 < c.useCount) :
    ∃ inode dirty, s.closeInode f m = { s with inodes := Function.update s.inodes m inode }.setCore m
      (some { c with useCount := c.useCount - 1, dirty }) := by
  obtain ⟨inode, dirty, hwrite⟩ := writeInode_spec f hc
  refine ⟨inode, dirty, ?_⟩
  have hcore : ({ s with inodes := Function.update s.inodes m inode }.setCore m
      (some { c with dirty })).core m = some { c with dirty } := Function.update_self _ _ _
  unfold closeInode dropInode
  rw [hwrite, hcore]
  simp only
  rw [if_neg (by omega)]
  show { s with inodes := _, core := Function.update (Function.update s.core m _) m _ } = _
  rw [Function.update_idem]
  rfl

/-- `close_inode` has nothing to do with handles. -/
theorem closeInode_files (s : Tables) (f : Faults) (m : ℕ) (freeFiles : List ℕ)
    (files : ℕ → Option ℕ) :
    { s with freeFiles, files }.closeInode f m =
      { s.closeInode f m with freeFiles, files } := by
  unfold closeInode writeInode
  cases hc : s.core m with
  | none =>
    simp only [dropInode, hc]
  | some c =>
    simp only
    split
    · simp only [dropInode, setCore, Function.update_self, Tables.freeInode]
      split
      · split
        · split <;> rfl
        · rfl
      · rfl
    · simp only [dropInode, hc, setCore, Tables.freeInode]
      split
      · split
        · split <;> rfl
        · rfl
      · rfl

theorem makeFile_eq_some {a b : Tables} (h : a.makeFile n = some (file, b)) :
    ∃ rest c, a.freeFiles = file :: rest ∧ a.core n = some c ∧
      b = { a with
        freeFiles := rest, files := Function.update a.files file (some n) }.setCore n
          (some { c with useCount := c.useCount + 1 }) := by
  unfold makeFile at h
  split at h
  · rename_i rest c hfree hc
    cases h
    exact ⟨rest, c, hfree, hc, rfl⟩
  · cases h

/-- The handle has one reference to the inode, and its maker has given its own back. -/
theorem closeInode_makeFile {a b : Tables} (f : Faults) (hc : a.core n = some c)
    (hpos : 0 < c.useCount) (h : a.makeFile n = some (file, b)) :
    ∃ rest inode dirty, a.freeFiles = file :: rest ∧ b.closeInode f n =
      { a with
        freeFiles := rest, files := Function.update a.files file (some n)
        inodes := Function.update a.inodes n inode }.setCore n (some { c with dirty }) := by
  obtain ⟨rest, c', hfree, hc', rfl⟩ := makeFile_eq_some h
  cases hc.symm.trans hc'
  have hcore : ({ a with
      freeFiles := rest, files := Function.update a.files file (some n) }.setCore n
        (some { c with useCount := c.useCount + 1 })).core n =
      some { c with useCount := c.useCount + 1 } := Function.update_self _ _ _
  obtain ⟨inode, dirty, heq⟩ := closeInode_of_one_lt f hcore (Nat.succ_lt_succ hpos)
  refine ⟨rest, inode, dirty, hfree, heq.trans ?_⟩
  show { a with
      freeFiles := _, files := _, inodes := _
      core := Function.update (Function.update a.core n _) n _ } = _
  rw [Function.update_idem]
  rfl

theorem opened {a b : Tables} (hok : s.Ok) (hn : s.inodeBitmap n = true)
    (hmake : s.makeInode f n = some a) (hfile : a.makeFile n = some (file, b)) :
    Opened s (b.closeInode f n) f n file := by
  obtain ⟨ha, c, hc, hpos, hinode, -⟩ := makeInode_spec hmake
  obtain ⟨rest, inode, dirty, hfree, heq⟩ := closeInode_makeFile f hc hpos hfile
  have hfields : a.inodeBitmap = s.inodeBitmap ∧ a.numInodes = s.numInodes ∧
      a.entries = s.entries ∧ a.freeFiles = s.freeFiles ∧ a.files = s.files ∧
      a.freeInodes = s.roomBeside n ∧ a.inodes = s.inodes ∧ ∀ m, m ≠ n → a.core m = s.core m := by
    rw [ha]
    exact ⟨rfl, rfl, rfl, rfl, rfl, rfl, rfl, fun m hm => Function.update_of_ne hm _ _⟩
  obtain ⟨hbitmap, hnum, hentries, hff, hfiles, hroom, hinodes, hcore⟩ := hfields
  have hclosed : s.files file = none := hok.closed file (by rw [← hff, hfree]; exact List.mem_cons_self)
  have hclose : Alike s ((b.closeInode f n).closeFile f file) := by
    -- closing the handle is closing the inode of `make_inode`
    let e := { a with freeFiles := rest, files := Function.update a.files file (some n) }
    have halike : Alike e (b.closeInode f n) := by
      rw [heq]
      have hce : e.core n = some c := hc
      have hset : Alike e (e.setCore n (some { c with dirty })) := alike_setCore hce rfl rfl
      exact ⟨rfl, rfl, rfl, rfl, rfl, hset.core⟩
    have he : e.closeFile f file = a.closeInode f n := by
      unfold closeFile
      rw [show e.files file = some n from Function.update_self _ _ _]
      simp only
      rw [closeInode_files, Function.update_idem, ← hfree, ← hclosed, ← hfiles,
        Function.update_eq_self]
      have hsame := closeInode_files a f n a.freeFiles a.files
      exact hsame.symm
    have hmade := alike_makeInode hok hn hmake
    rw [← he] at hmade
    exact hmade.trans (halike.closeFile f file)
  rw [heq] at hclose ⊢
  refine ⟨hbitmap, hnum, hentries, hff ▸ hfree, ?_,
    hroom, ?_, ?_, ⟨{ c with dirty }, Function.update_self _ _ _, hpos, hinode⟩, hclose⟩
  · show Function.update a.files file (some n) = _
    rw [hfiles]
  · intro m hm
    exact (Function.update_of_ne hm _ _).trans (hcore m hm)
  · intro m hm
    exact (Function.update_of_ne hm _ _).trans (congrFun hinodes m)

theorem findParent_some {t : Tables} (hok : s.Ok) (hn : s.inodeBitmap n = true)
    (h : s.findParent f n = (some file, t)) :
    s.CanMake f n ∧ s.freeFiles ≠ [] ∧ Opened s t f n file := by
  unfold findParent at h
  cases hmake : s.makeInode f n with
  | none =>
    rw [hmake] at h
    cases h
  | some a =>
    simp only [hmake] at h
    cases hfile : a.makeFile n with
    | none =>
      rw [hfile] at h
      cases h
    | some r =>
      obtain ⟨file', b⟩ := r
      simp only [hfile] at h
      cases h
      have hopened := opened hok hn hmake hfile
      refine ⟨canMake_of_makeInode hmake, ?_, hopened⟩
      rw [hopened.freeFiles]
      exact List.cons_ne_nil _ _

theorem findParent_none {t : Tables} (hok : s.Ok) (hn : s.inodeBitmap n = true)
    (h : s.findParent f n = (none, t)) : (s.CanMake f n → s.freeFiles = []) ∧ Alike s t := by
  unfold findParent at h
  cases hmake : s.makeInode f n with
  | none =>
    rw [hmake] at h
    cases h
    exact ⟨fun hcan => absurd hcan (not_canMake_of_makeInode hmake), Alike.refl s⟩
  | some a =>
    simp only [hmake] at h
    obtain ⟨ha, c, hc, -⟩ := makeInode_spec hmake
    cases hfile : a.makeFile n with
    | some r =>
      rw [hfile] at h
      cases h
    | none =>
      rw [hfile] at h
      cases h
      refine ⟨fun _ => ?_, alike_makeInode hok hn hmake⟩
      unfold makeFile at hfile
      split at hfile
      · cases hfile
      · rename_i hnone
        have hff : a.freeFiles = s.freeFiles := by rw [ha]; rfl
        cases hfree : s.freeFiles with
        | nil => rfl
        | cons file rest => exact absurd hc (hnone file rest c (hff.trans hfree))

/-! ### What is there when the directory is open -/

namespace Opened

variable {t : Tables}

theorem ok (h : Opened s t f n file) (hok : s.Ok) (hn : s.inodeBitmap n = true) : t.Ok where
  core m c hc := by
    rw [h.inodeBitmap]
    by_cases hm : m = n
    · obtain ⟨c', hc', hpos, -⟩ := h.parent
      rw [hm] at hc ⊢
      cases hc'.symm.trans hc
      exact ⟨hpos, hn⟩
    · rw [h.core m hm] at hc
      exact hok.core m c hc
  linked m hbit hc := by
    have hm : m ≠ n := by
      intro hm
      obtain ⟨c', hc', -⟩ := h.parent
      rw [hm, hc'] at hc
      cases hc
    rw [h.inodeBitmap] at hbit
    rw [h.core m hm] at hc
    rw [h.inodes m hm]
    exact hok.linked m hbit hc
  entry d e he hne := by
    rw [h.entries] at he
    rw [h.inodeBitmap]
    exact hok.entry d e he hne
  nodup := by
    have hnodup := hok.nodup
    rw [h.freeFiles] at hnodup
    exact (List.nodup_cons.mp hnodup).2
  closed x hx := by
    have hnodup := hok.nodup
    rw [h.freeFiles] at hnodup
    have hne : x ≠ file := fun heq => (List.nodup_cons.mp hnodup).1 (heq ▸ hx)
    rw [h.files, Function.update_of_ne hne]
    exact hok.closed x (by rw [h.freeFiles]; exact List.mem_cons_of_mem _ hx)

theorem isDir_iff (h : Opened s t f n file) : t.isDir n = true ↔ s.HasDirAttr n := by
  obtain ⟨c, hc, -, hinode⟩ := h.parent
  unfold isDir HasDirAttr
  rw [hc, ← hinode]

theorem overruns_iff (h : Opened s t f n file) (fault : Option ℕ) : t.Overruns n fault ↔
    s.HasDirAttr n ∧ DIR_ENTRIES_PER_BLOCK < (readEntries (s.entries n) fault).1.length := by
  unfold Overruns
  rw [h.isDir_iff, h.entries]

theorem canMake_iff (h : Opened s t f n file) (m : ℕ) : t.CanMake f m ↔
    m = n ∨ s.core m ≠ none ∨ 0 < s.roomBeside n ∧ f.readInode m = false := by
  unfold CanMake
  rw [h.freeInodes]
  by_cases hm : m = n
  · obtain ⟨c, hc, -⟩ := h.parent
    rw [hm, hc]
    exact ⟨fun _ => Or.inl rfl, fun _ => Or.inl nofun⟩
  · rw [h.core m hm]
    exact ⟨Or.inr, fun hor => hor.resolve_left hm⟩

theorem freeInum_eq (h : Opened s t f n file) : t.freeInum = s.freeInum := by
  unfold freeInum
  rw [h.numInodes, h.inodeBitmap]

/-- `file_exists_p` finds the name, and leaves everything as it was. -/
theorem fileExists_true (h : Opened s t f n file) (hok : t.Ok) {name : List UChar} {t' : Tables}
    (hexists : t.fileExists f n name = (true, t')) : s.Finds f n name ∧ Alike t t' := by
  unfold fileExists at hexists
  cases hfind : t.findEntry f n name with
  | none =>
    rw [hfind] at hexists
    cases hexists
  | some e =>
    simp only [hfind] at hexists
    cases hmake : t.makeInode f e.inum with
    | none =>
      rw [hmake] at hexists
      cases hexists
    | some a =>
      rw [hmake] at hexists
      cases hexists
      unfold findEntry at hfind
      split at hfind
      · rename_i hdir
        rw [h.entries] at hfind
        have hname := List.find?_some hfind
        have hmem := List.mem_of_find?_eq_some hfind
        have hin : e ∈ s.entries n := by
          unfold readEntries at hmem
          split at hmem
          · exact hmem
          · split at hmem
            · exact List.mem_of_mem_take hmem
            · exact hmem
        have hbit : t.inodeBitmap e.inum = true :=
          hok.entry n e (by rw [h.entries]; exact hin) (of_decide_eq_true hname).1
        refine ⟨⟨h.isDir_iff.mp hdir, e, hfind, ?_⟩, alike_makeInode hok hbit hmake⟩
        exact (h.canMake_iff e.inum).mp (canMake_of_makeInode hmake)
      · cases hfind

theorem fileExists_false (h : Opened s t f n file) {name : List UChar} {t' : Tables}
    (hexists : t.fileExists f n name = (false, t')) : ¬ s.Finds f n name ∧ t' = t := by
  unfold fileExists at hexists
  cases hfind : t.findEntry f n name with
  | none =>
    rw [hfind] at hexists
    cases hexists
    refine ⟨?_, rfl⟩
    intro ⟨hdir, e, he, _⟩
    unfold findEntry at hfind
    rw [if_pos (h.isDir_iff.mpr hdir), h.entries, he] at hfind
    cases hfind
  | some e =>
    simp only [hfind] at hexists
    cases hmake : t.makeInode f e.inum with
    | some a =>
      rw [hmake] at hexists
      cases hexists
    | none =>
      rw [hmake] at hexists
      cases hexists
      refine ⟨?_, rfl⟩
      intro ⟨hdir, e', he', hcan⟩
      unfold findEntry at hfind
      rw [if_pos (h.isDir_iff.mpr hdir), h.entries, he'] at hfind
      cases hfind
      exact not_canMake_of_makeInode hmake ((h.canMake_iff e.inum).mpr hcan)

end Opened

/-! ## The new inode -/

/-- `close_inode` of the last reference to an inode without links. -/
theorem closeInode_of_unlinked (f : Faults) (hc : s.core m = some c) (huse : c.useCount = 1)
    (hlinks : c.inode.nlinks = 0) : ∃ inode, s.closeInode f m =
      ({ s with
        inodes := Function.update s.inodes m inode
        freeInodes := s.freeInodes + 1 }.setCore m none).freeInode f.closeFree m := by
  obtain ⟨inode, dirty, hwrite⟩ := writeInode_spec f hc
  refine ⟨inode, ?_⟩
  have hcore : ({ s with inodes := Function.update s.inodes m inode }.setCore m
      (some { c with dirty })).core m = some { c with dirty } := Function.update_self _ _ _
  unfold closeInode dropInode
  rw [hwrite, hcore]
  simp only
  rw [if_pos huse, if_pos hlinks]
  congr 1
  show { s with
      inodes := _, freeInodes := _, core := Function.update (Function.update s.core m _) m _ } = _
  rw [Function.update_idem]
  rfl

/-- `close_inode` leaves the other inodes alone. -/
theorem closeInode_other (s : Tables) (f : Faults) (n : ℕ) :
    (∀ m, m ≠ n → (s.closeInode f n).core m = s.core m ∧
      (s.closeInode f n).inodeBitmap m = s.inodeBitmap m) ∧
    (s.closeInode f n).entries = s.entries ∧ (s.closeInode f n).freeFiles = s.freeFiles ∧
    (s.closeInode f n).files = s.files := by
  have hwrite : (∀ m, m ≠ n → (s.writeInode f n).core m = s.core m) ∧
      (s.writeInode f n).inodeBitmap = s.inodeBitmap ∧ (s.writeInode f n).entries = s.entries ∧
      (s.writeInode f n).freeFiles = s.freeFiles ∧ (s.writeInode f n).files = s.files := by
    cases hc : s.core n with
    | none =>
      have heq : s.writeInode f n = s := by
        unfold writeInode
        rw [hc]
      rw [heq]
      exact ⟨fun _ _ => rfl, rfl, rfl, rfl, rfl⟩
    | some c =>
      obtain ⟨inode, dirty, heq⟩ := writeInode_spec f hc
      rw [heq]
      exact ⟨fun m hm => Function.update_of_ne hm _ _, rfl, rfl, rfl, rfl⟩
  obtain ⟨hcore, hbitmap, hentries, hfree, hfiles⟩ := hwrite
  unfold closeInode
  generalize s.writeInode f n = r at hcore hbitmap hentries hfree hfiles
  rw [← hentries, ← hfree, ← hfiles, ← hbitmap]
  unfold dropInode
  cases hc : r.core n with
  | none => exact ⟨fun m hm => ⟨hcore m hm, rfl⟩, rfl, rfl, rfl⟩
  | some c =>
    have hother : ∀ m, m ≠ n → ∀ o, Function.update r.core n o m = s.core m :=
      fun m hm o => (Function.update_of_ne hm _ _).trans (hcore m hm)
    simp only [Tables.freeInode]
    split
    · split
      · split
        · exact ⟨fun m hm => ⟨hother m hm _, rfl⟩, rfl, rfl, rfl⟩
        · exact ⟨fun m hm => ⟨hother m hm _, Function.update_of_ne hm _ _⟩, rfl, rfl, rfl⟩
      · exact ⟨fun m hm => ⟨hother m hm _, rfl⟩, rfl, rfl, rfl⟩
    · exact ⟨fun m hm => ⟨hother m hm _, rfl⟩, rfl, rfl, rfl⟩

/-- `alloc_inode` has got the inode `k`. -/
structure Allocated (t t' : Tables) (k : ℕ) : Prop where
  eq : t' = { t with inodeBitmap := Function.update t.inodeBitmap k true }
  free : t.inodeBitmap k = false
  notCore : t.core k = none

theorem allocated {t t' : Tables} {k : ℕ} (hok : t.Ok) (h : t.allocInode f = some (k, t')) :
    f.alloc = false ∧ t.freeInum = some k ∧ Allocated t t' k := by
  unfold allocInode at h
  split at h
  · cases h
  · rename_i halloc
    obtain ⟨k', hk, heq⟩ := Option.map_eq_some_iff.mp h
    cases heq
    have hfree : t.inodeBitmap k = false := by
      have hfound := List.find?_some hk
      rwa [Bool.not_eq_true'] at hfound
    refine ⟨Bool.eq_false_of_not_eq_true halloc, hk, rfl, hfree, ?_⟩
    cases hc : t.core k with
    | none => rfl
    | some c => exact absurd (hok.core k c hc).2 (by rw [hfree]; exact nofun)

theorem allocInode_none {t : Tables} (h : t.allocInode f = none) :
    ¬ (f.alloc = false ∧ ∃ k, t.freeInum = some k) := by
  intro ⟨halloc, k, hk⟩
  unfold allocInode at h
  rw [if_neg (by rw [halloc]; exact nofun), hk] at h
  cases h

namespace Allocated

variable {t t' a b : Tables} {k : ℕ}

theorem makeInode_iff (h : Allocated t t' k) : t'.CanMake f k ↔
    0 < t.freeInodes ∧ f.readInode k = false := by
  rw [h.eq]
  exact ⟨fun hor => hor.resolve_left fun hne => hne h.notCore, Or.inr⟩

/-- The inode is given back if `free_inode` can do it. -/
theorem freed (h : Allocated t t' k) :
    (f.free = false → Alike t (t'.freeInode f.free k)) ∧
      (f.free = true → (t'.freeInode f.free k).inodeBitmap k = true) := by
  rw [h.eq]
  unfold Tables.freeInode
  cases f.free with
  | false =>
    refine ⟨fun _ => ⟨?_, rfl, rfl, rfl, rfl, fun _ => rfl⟩, nofun⟩
    show Function.update (Function.update t.inodeBitmap k true) k false = _
    rw [Function.update_idem, ← h.free, Function.update_eq_self]
  | true => exact ⟨nofun, fun _ => Function.update_self _ _ _⟩

/-- What there is of the new inode when it has been cleared. -/
theorem cleared (h : Allocated t t' k) (hmake : t'.makeInode f k = some a) (now : ULong) :
    0 < t.freeInodes ∧ ∃ c, a.clearInode k now =
      { t' with freeInodes := t.freeInodes - 1 }.setCore k (some c) ∧
      c.useCount = 1 ∧ c.inode = { Inode.zero with modtime := now } := by
  have hnone : t'.core k = none := by
    rw [h.eq]
    exact h.notCore
  obtain ⟨ha, c, hc, -, -, hnew⟩ := makeInode_spec hmake
  obtain ⟨hpos, -⟩ := h.makeInode_iff.mp (canMake_of_makeInode hmake)
  have hroom : t'.roomBeside k = t.freeInodes - 1 := by
    rw [roomBeside, if_pos hnone, h.eq]
  refine ⟨hpos, { c with inode := { Inode.zero with modtime := now }, dirty := true }, ?_,
    (hnew hnone).1, rfl⟩
  unfold clearInode
  rw [hc]
  simp only
  rw [ha, hroom]
  show { t' with freeInodes := _, core := Function.update (Function.update t'.core k _) k _ } = _
  rw [Function.update_idem]
  rfl

/-- Without a handle, the inode is given back twice; once is enough. -/
theorem unmade (h : Allocated t t' k) (hmake : t'.makeInode f k = some a) (now : ULong) :
    (f.closeFree = false ∨ f.free = false →
      Alike t (((a.clearInode k now).closeInode f k).freeInode f.free k)) ∧
    (f.closeFree = true ∧ f.free = true →
      (((a.clearInode k now).closeInode f k).freeInode f.free k).inodeBitmap k = true) := by
  obtain ⟨hpos, c, heq, huse, hinode⟩ := h.cleared hmake now
  have hcore : (a.clearInode k now).core k = some c := by
    rw [heq]
    exact Function.update_self _ _ _
  obtain ⟨inode, hclose⟩ := closeInode_of_unlinked f hcore huse (by rw [hinode]; rfl)
  have hroom : t.freeInodes - 1 + 1 = t.freeInodes := Nat.succ_pred_eq_of_pos hpos
  rw [hclose, heq, h.eq]
  have hcores : ∀ m, (Function.update (Function.update t.core k (some c)) k none m).map
      (fun c => (c.useCount, c.inode.nlinks)) = (t.core m).map fun c => (c.useCount, c.inode.nlinks) := by
    intro m
    rw [Function.update_idem]
    by_cases hm : m = k
    · rw [hm, Function.update_self, h.notCore]
    · rw [Function.update_of_ne hm]
  have hgone : Function.update (Function.update t.inodeBitmap k true) k false = t.inodeBitmap := by
    rw [Function.update_idem, ← h.free, Function.update_eq_self]
  unfold Tables.freeInode
  cases f.closeFree <;> cases f.free
  · refine ⟨fun _ => ⟨?_, rfl, rfl, rfl, hroom, hcores⟩, fun hno => absurd hno.1 nofun⟩
    show Function.update (Function.update (Function.update t.inodeBitmap k true) k false) k false = _
    rw [hgone, ← h.free, Function.update_eq_self]
  · exact ⟨fun _ => ⟨hgone, rfl, rfl, rfl, hroom, hcores⟩, fun hno => absurd hno.1 nofun⟩
  · exact ⟨fun _ => ⟨hgone, rfl, rfl, rfl, hroom, hcores⟩, fun hno => absurd hno.2 nofun⟩
  · exact ⟨fun hno => absurd hno (by simp), fun _ => Function.update_self _ _ _⟩

theorem files_unmade (h : Allocated t t' k) (hmake : t'.makeInode f k = some a) (now : ULong) :
    (((a.clearInode k now).closeInode f k).freeInode f.free k).files = t.files := by
  obtain ⟨-, c, heq, -⟩ := h.cleared hmake now
  have hfree : ∀ r : Tables, (r.freeInode f.free k).files = r.files := by
    intro r
    unfold Tables.freeInode
    split <;> rfl
  obtain ⟨-, -, -, hfiles⟩ := closeInode_other (a.clearInode k now) f k
  rw [hfree, hfiles, heq, h.eq]
  rfl

end Allocated

/-! ## The new entry -/

/-- The new inode `k` has its handle `new`. -/
structure Prepared (t r : Tables) (k new : ℕ) : Prop where
  freeFiles : t.freeFiles = new :: r.freeFiles
  files : r.files = Function.update t.files new (some k)
  entries : r.entries = t.entries
  bit : r.inodeBitmap k = true
  inode : ∃ c, r.core k = some c ∧ c.inode.nlinks = 0
  core : ∀ m, m ≠ k → r.core m = t.core m

theorem Allocated.prepared {t t' a b : Tables} {k new : ℕ} (h : Allocated t t' k)
    (hmake : t'.makeInode f k = some a) {now : ULong}
    (hfile : (a.clearInode k now).makeFile k = some (new, b)) :
    Prepared t (b.closeInode f k) k new := by
  obtain ⟨-, c, heq, huse, hinode⟩ := h.cleared hmake now
  have hcore : (a.clearInode k now).core k = some c := by
    rw [heq]
    exact Function.update_self _ _ _
  obtain ⟨rest, inode, dirty, hfree, hclose⟩ :=
    closeInode_makeFile f hcore (by rw [huse]; exact Nat.one_pos) hfile
  rw [hclose]
  rw [heq, h.eq] at hfree ⊢
  refine ⟨hfree, rfl, rfl, ?_, ⟨{ c with dirty }, Function.update_self _ _ _, by rw [hinode]; rfl⟩, ?_⟩
  · exact Function.update_self _ _ _
  · intro m hm
    show Function.update (Function.update t.core k (some c)) k _ m = _
    rw [Function.update_idem, Function.update_of_ne hm]

/-- The entries of a directory after a new one are the new one and some of the old ones. -/
theorem mem_putEntry {es : List DirEntry} {e e' : DirEntry} (h : e' ∈ putEntry es e) :
    e' ∈ es ∨ e' = e := by
  unfold putEntry at h
  split at h
  · exact List.mem_or_eq_of_mem_set h
  · rcases List.mem_append.mp h with h | h
    · exact Or.inl h
    · exact Or.inr (List.mem_singleton.mp h)

theorem self_mem_putEntry (es : List DirEntry) (e : DirEntry) : e ∈ putEntry es e := by
  unfold putEntry
  split
  · rename_i hlt
    exact List.mem_set hlt e
  · exact List.mem_append_right es (List.mem_singleton_self e)

theorem readEntries_all {es : List DirEntry} {fault : Option ℕ}
    (h : (readEntries es fault).2 = true) : (readEntries es fault).1 = es := by
  unfold readEntries at h ⊢
  split
  · rfl
  · split
    · rename_i hlt
      simp only [hlt, if_true] at h
      cases h
    · rfl

theorem readEntries_subset {es : List DirEntry} {fault : Option ℕ} {e : DirEntry}
    (h : e ∈ (readEntries es fault).1) : e ∈ es := by
  unfold readEntries at h
  split at h
  · exact h
  · split at h
    · exact List.mem_of_mem_take h
    · exact h

/-- Closing the handle of the directory leaves the new file as it is. -/
theorem created_closeFile {r : Tables} {dir parent new k : ℕ} {name : List UChar} {attr : ULong}
    (hparent : r.files parent = some dir) (hnew : r.files new = some k) (hk : k ≠ dir)
    (hne : new ≠ parent) :
    Created (r.closeFile f parent) dir new name attr ↔ Created r dir new name attr := by
  obtain ⟨hother, hentries, hfree, hfiles⟩ := closeInode_other r f dir
  have hclose : r.closeFile f parent =
      { r.closeInode f dir with
        freeFiles := parent :: (r.closeInode f dir).freeFiles
        files := Function.update (r.closeInode f dir).files parent none } := by
    unfold closeFile
    rw [hparent]
  have hfile : (r.closeFile f parent).files new = r.files new := by
    rw [hclose, hfiles]
    exact Function.update_of_ne hne _ _
  have hmem : new ∉ (r.closeFile f parent).freeFiles ↔ new ∉ r.freeFiles := by
    rw [hclose, hfree]
    exact not_congr ((List.mem_cons).trans (or_iff_right hne))
  have hbit : (r.closeFile f parent).inodeBitmap k = r.inodeBitmap k := by
    rw [hclose]
    exact (hother k hk).2
  have hcore : (r.closeFile f parent).core k = r.core k := by
    rw [hclose]
    exact (hother k hk).1
  have hes : (r.closeFile f parent).entries = r.entries := by
    rw [hclose]
    exact hentries
  unfold Created
  rw [hfile, hnew, hmem, hes]
  constructor
  · intro ⟨inum, c, hinum, hfree', hb, hc, hrest⟩
    cases hinum
    exact ⟨k, c, rfl, hfree', hbit.symm.trans hb, hcore.symm.trans hc, hrest⟩
  · intro ⟨inum, c, hinum, hfree', hb, hc, hrest⟩
    cases hinum
    exact ⟨k, c, rfl, hfree', hbit.trans hb, hcore.trans hc, hrest⟩

/-- A handle that is free stays free. -/
theorem mem_freeFiles_closeFile {r : Tables} {new parent : ℕ} (h : new ∈ r.freeFiles) :
    new ∈ (r.closeFile f parent).freeFiles := by
  unfold closeFile
  cases r.files parent with
  | none => exact h
  | some dir =>
    obtain ⟨-, -, hfree, -⟩ := closeInode_other r f dir
    refine List.mem_cons_of_mem parent ?_
    rw [hfree]
    exact h

theorem writeEntry_other (r : Tables) (dir : ℕ) (e : DirEntry) (now : ULong) :
    (r.writeEntry dir e now).files = r.files ∧ (r.writeEntry dir e now).freeFiles = r.freeFiles ∧
      (r.writeEntry dir e now).inodeBitmap = r.inodeBitmap ∧
      (∀ k, k ≠ dir → (r.writeEntry dir e now).core k = r.core k) ∧
      (r.writeEntry dir e now).entries dir = putEntry (r.entries dir) e := by
  unfold writeEntry
  simp only
  split
  · exact ⟨rfl, rfl, rfl, fun k hk => Function.update_of_ne hk _ _, Function.update_self _ _ _⟩
  · exact ⟨rfl, rfl, rfl, fun _ _ => rfl, Function.update_self _ _ _⟩

/-- The entry is made, and the inode gets its link, or the handle is closed. -/
theorem created_enterFile {t r : Tables} {dir parent new k : ℕ} {name junk : List UChar}
    {attr now : ULong} (h : Prepared t r k new) (hok : t.Ok) (hfree : t.inodeBitmap k = false)
    (hname : name ≠ []) (hparent : r.files parent = some dir) (hk : k ≠ dir) (hne : new ≠ parent) :
    Created ((r.enterFile f dir new k name junk attr now).2.closeFile f parent) dir new name attr ↔
      r.isDir dir = true ∧ (readEntries (t.entries dir) f.enter).2 = true ∧
        (∀ e ∈ t.entries dir, e.name ≠ name) ∧ f.write = false ∧ entryName name junk = name := by
  have hnew : r.files new = some k := by
    rw [h.files]
    exact Function.update_self _ _ _
  -- the handle is closed
  have hclosed : ¬ Created ((r.closeFile f new).closeFile f parent) dir new name attr := by
    intro ⟨_, _, _, hnot, _⟩
    refine hnot (mem_freeFiles_closeFile ?_)
    unfold closeFile
    rw [hnew]
    exact List.mem_cons_self
  -- no entry was of the new inode
  have hold : ∀ e ∈ t.entries dir, e.name = name → e.inum ≠ k := by
    intro e he heq hek
    have hbit := hok.entry dir e he (heq ▸ hname)
    rw [hek, hfree] at hbit
    cases hbit
  have hout : new ∉ r.freeFiles := by
    have hnodup := hok.nodup
    rw [h.freeFiles] at hnodup
    exact (List.nodup_cons.mp hnodup).1
  -- the inode gets its link, in tables `q` with these entries
  have hlinked : ∀ q : Tables, q.files = r.files → q.freeFiles = r.freeFiles →
      q.inodeBitmap = r.inodeBitmap → q.core k = r.core k →
      (Created (((q.linkInode k attr).writeInode f k).closeFile f parent) dir new name attr ↔
        ⟨name, k⟩ ∈ q.entries dir) := by
    intro q hfiles hqfree hbitmap hcore
    obtain ⟨c, hc, hlinks⟩ := h.inode
    have hlink : q.linkInode k attr = q.setCore k
        (some { c with inode := { c.inode with nlinks := c.inode.nlinks + 1, attr }, dirty := true }) := by
      unfold linkInode
      rw [hcore, hc]
    have hcore' : (q.linkInode k attr).core k =
        some { c with inode := { c.inode with nlinks := c.inode.nlinks + 1, attr }, dirty := true } := by
      rw [hlink]
      exact Function.update_self _ _ _
    obtain ⟨inode, dirty, hwrite⟩ := writeInode_spec f hcore'
    have hqnew : ((q.linkInode k attr).writeInode f k).files new = some k := by
      rw [hwrite, hlink]
      exact (congrFun hfiles new).trans hnew
    have hqparent : ((q.linkInode k attr).writeInode f k).files parent = some dir := by
      rw [hwrite, hlink]
      exact (congrFun hfiles parent).trans hparent
    rw [created_closeFile hqparent hqnew hk hne, hwrite, hlink]
    constructor
    · intro ⟨inum, _, hinum, _, _, _, _, _, hmem⟩
      cases hinum.symm.trans ((congrFun hfiles new).trans hnew)
      exact hmem
    · intro hmem
      refine ⟨k, _, (congrFun hfiles new).trans hnew, ?_, ?_, Function.update_self _ _ _, ?_, rfl, hmem⟩
      · show new ∉ q.freeFiles
        rw [hqfree]
        exact hout
      · show q.inodeBitmap k = true
        rw [hbitmap]
        exact h.bit
      · show c.inode.nlinks + 1 = 1
        rw [hlinks]
        rfl
  unfold enterFile createFileEntry
  rw [h.entries]
  cases hdir : r.isDir dir with
  | false =>
    simp only [Bool.false_eq_true, if_false, false_and, iff_false]
    exact hclosed
  | true =>
    simp only [if_true, true_and]
    cases hread : readEntries (t.entries dir) f.enter with
    | mk seen all =>
      have hsub : ∀ e ∈ seen, e ∈ t.entries dir := by
        intro e he
        exact readEntries_subset (by rw [hread]; exact he)
      simp only
      by_cases hany : seen.any (fun e => e.name = name) = true
      · rw [if_pos hany]
        refine iff_of_false hclosed ?_
        intro ⟨_, hno, _⟩
        obtain ⟨e, he, heq⟩ := List.any_eq_true.mp hany
        exact hno e (hsub e he) (of_decide_eq_true heq)
      · rw [if_neg hany]
        cases all with
        | false =>
          simp only [Bool.not_false, if_true, Bool.false_eq_true, false_and, iff_false]
          rw [hlinked r rfl rfl rfl rfl, h.entries]
          exact fun hmem => hold _ hmem rfl rfl
        | true =>
          have hall : seen = t.entries dir := by
            have hread' := readEntries_all (by rw [hread] : (readEntries _ f.enter).2 = true)
            rw [← hread', hread]
          have hno : ∀ e ∈ t.entries dir, e.name ≠ name := by
            intro e he heq
            refine hany (List.any_eq_true.mpr ⟨e, hall ▸ he, ?_⟩)
            exact decide_eq_true heq
          simp only [Bool.not_true, Bool.false_eq_true, if_false, true_and]
          cases hwrite : f.write with
          | true =>
            simp only [if_true, Bool.true_eq_false, false_and, and_false, iff_false]
            exact hclosed
          | false =>
            simp only [Bool.false_eq_true, if_false, true_and]
            rw [and_iff_right hno]
            obtain ⟨hfiles, hqfree, hbitmap, hcore, hentries⟩ :=
              writeEntry_other r dir ⟨entryName name junk, k⟩ now
            rw [hlinked _ hfiles hqfree hbitmap (hcore k hk), hentries, h.entries]
            constructor
            · intro hmem
              rcases mem_putEntry hmem with hmem | heq
              · exact absurd rfl (hold _ hmem rfl)
              · exact (DirEntry.mk.inj heq).1.symm
            · intro heq
              rw [heq]
              exact self_mem_putEntry _ _

/-! ## The whole call -/

section Call

variable {t : Tables} {name junk : List UChar} {attr now : ULong}

/-- With the bit of the bitmap. -/
theorem atomic_createInode {t' : Tables} {k : ℕ} (h : Opened s t f n file) (hok : t.Ok)
    (hn : t.inodeBitmap n = true) (halloc : Allocated t t' k) (hname : name ≠ []) :
    Atomic s (some n) name attr ((t'.createInode f n k name junk attr now).map
      fun r => (r.1, r.2.closeFile f file)) ↔
    if 0 < s.roomBeside n ∧ f.readInode k = false then
      if 2 ≤ s.freeFiles.length then s.CanEnter f n name junk
      else f.closeFree = false ∨ f.free = false
    else f.free = false := by
  have hcan : t'.CanMake f k ↔ 0 < s.roomBeside n ∧ f.readInode k = false := by
    rw [halloc.makeInode_iff, h.freeInodes]
  have hfile : t.files file = some n := by
    rw [h.files]
    exact Function.update_self _ _ _
  have hkn : k ≠ n := by
    intro hkn
    rw [← hkn, halloc.free] at hn
    cases hn
  -- an inode that is not given back is missed
  have hleak : ∀ r : Tables, r.files = t.files → r.inodeBitmap k = true →
      ¬ SameTables s (r.closeFile f file) := by
    intro r hfiles hbit hsame
    obtain ⟨hother, -⟩ := closeInode_other r f n
    have hclose : (r.closeFile f file).inodeBitmap k = (r.closeInode f n).inodeBitmap k := by
      unfold closeFile
      rw [hfiles, hfile]
    have hk := congrFun hsame.inodeBitmap k
    rw [hclose, (hother k hkn).2, hbit, ← h.inodeBitmap, halloc.free] at hk
    cases hk
  have hback : ∀ r : Tables, Alike t r → SameTables s (r.closeFile f file) :=
    fun r hr => (h.closes.trans (hr.closeFile f file)).sameTables
  unfold createInode
  cases hmake : t'.makeInode f k with
  | none =>
    rw [if_neg (hcan.not.mp (not_canMake_of_makeInode hmake))]
    have hfiles : (t'.freeInode f.free k).files = t.files := by
      rw [halloc.eq]
      unfold Tables.freeInode
      split <;> rfl
    show SameTables s ((t'.freeInode f.free k).closeFile f file) ↔ _
    constructor
    · intro hsame
      by_contra hfree
      exact hleak _ hfiles (halloc.freed.2 (Bool.eq_true_of_not_eq_false hfree)) hsame
    · exact fun hfree => hback _ (halloc.freed.1 hfree)
  | some a =>
    rw [if_pos (hcan.mp (canMake_of_makeInode hmake))]
    obtain ⟨-, c, hclear, -⟩ := halloc.cleared hmake now
    simp only
    cases hmf : (a.clearInode k now).makeFile k with
    | none =>
      have hfull : ¬ 2 ≤ s.freeFiles.length := by
        unfold makeFile at hmf
        split at hmf
        · cases hmf
        · rename_i hnone
          have hff : (a.clearInode k now).freeFiles = t.freeFiles := by
            rw [hclear, halloc.eq]
            rfl
          have hcore : (a.clearInode k now).core k = some c := by
            rw [hclear]
            exact Function.update_self _ _ _
          cases hfree : t.freeFiles with
          | nil =>
            rw [h.freeFiles, hfree]
            exact Nat.not_succ_le_self 1
          | cons x rest => exact absurd hcore (hnone x rest c (hff.trans hfree))
      rw [if_neg hfull]
      have hfiles := halloc.files_unmade hmake now
      obtain ⟨hgiven, hkept⟩ := halloc.unmade hmake now
      show SameTables s ((((a.clearInode k now).closeInode f k).freeInode f.free k).closeFile f file) ↔ _
      constructor
      · intro hsame
        by_contra hfree
        rw [not_or, Bool.not_eq_false, Bool.not_eq_false] at hfree
        exact hleak _ hfiles (hkept hfree) hsame
      · exact fun hfree => hback _ (hgiven hfree)
    | some q =>
      obtain ⟨new, b⟩ := q
      have hprep := halloc.prepared hmake hmf
      have hroom : 2 ≤ s.freeFiles.length := by
        rw [h.freeFiles, hprep.freeFiles]
        exact Nat.succ_le_succ (Nat.succ_le_succ (Nat.zero_le _))
      rw [if_pos hroom]
      have hne : new ≠ file := by
        intro hne
        have hclosed := hok.closed new (by rw [hprep.freeFiles]; exact List.mem_cons_self)
        rw [hne, hfile] at hclosed
        cases hclosed
      have hparent : (b.closeInode f k).files file = some n := by
        rw [hprep.files, Function.update_of_ne (Ne.symm hne)]
        exact hfile
      have hdir : (b.closeInode f k).isDir n = true ↔ s.HasDirAttr n := by
        rw [← h.isDir_iff]
        unfold isDir
        rw [hprep.core n (Ne.symm hkn)]
      have hentries : (b.closeInode f k).entries n = s.entries n := by
        rw [hprep.entries, h.entries]
      simp only
      by_cases hover : (b.closeInode f k).Overruns n f.enter
      · rw [if_pos hover]
        refine iff_of_false id ?_
        intro ⟨_, hall, hlen, _⟩
        have hlong := hover.2
        rw [hentries, readEntries_all hall] at hlong
        omega
      · rw [if_neg hover]
        have hmap : (some ((b.closeInode f k).enterFile f n new k name junk attr now)).map
            (fun r => (r.1, r.2.closeFile f file)) = some (some new,
              ((b.closeInode f k).enterFile f n new k name junk attr now).2.closeFile f file) := by
          unfold enterFile
          split <;> rfl
        rw [hmap]
        have hcreated : Created (((b.closeInode f k).enterFile f n new k name junk attr now).2.closeFile
            f file) n new name attr ↔ _ :=
          created_enterFile hprep hok halloc.free hname hparent hkn hne
        rw [hdir, h.entries] at hcreated
        constructor
        · intro ⟨d, hd, hc⟩
          cases hd
          obtain ⟨hattr, hall, hno, hwrite, hentry⟩ := hcreated.mp hc
          refine ⟨hattr, hall, ?_, hno, hwrite, hentry⟩
          by_contra hlong
          refine hover ⟨hdir.mpr hattr, ?_⟩
          rw [hentries, readEntries_all hall]
          omega
        · intro ⟨hattr, hall, _, hno, hwrite, hentry⟩
          exact ⟨n, rfl, hcreated.mpr ⟨hattr, hall, hno, hwrite, hentry⟩⟩

/-- With the directory open. -/
theorem atomic_createIn (h : Opened s t f n file) (hok : t.Ok) (hn : t.inodeBitmap n = true) :
    Atomic s (some n) name attr ((t.createIn f n name junk attr now).map
      fun r => (r.1, r.2.closeFile f file)) ↔
    (name ≠ [] →
      (s.HasDirAttr n →
        (readEntries (s.entries n) f.search).1.length ≤ DIR_ENTRIES_PER_BLOCK) ∧
      (¬ s.Finds f n name → ∀ inum, f.alloc = false → s.freeInum = some inum →
        if 0 < s.roomBeside n ∧ f.readInode inum = false then
          if 2 ≤ s.freeFiles.length then s.CanEnter f n name junk
          else f.closeFree = false ∨ f.free = false
        else f.free = false)) := by
  have hback : ∀ r : Tables, Alike t r → SameTables s (r.closeFile f file) :=
    fun r hr => (h.closes.trans (hr.closeFile f file)).sameTables
  unfold createIn
  by_cases hname : name = []
  · rw [if_pos hname]
    exact iff_of_true (hback t (Alike.refl t)) fun hne => absurd hname hne
  · rw [if_neg hname]
    by_cases hover : t.Overruns n f.search
    · rw [if_pos hover]
      obtain ⟨hattr, hlong⟩ := (h.overruns_iff f.search).mp hover
      refine iff_of_false id ?_
      intro hmeets
      have hshort := (hmeets hname).1 hattr
      omega
    · rw [if_neg hover]
      have hshort : s.HasDirAttr n →
          (readEntries (s.entries n) f.search).1.length ≤ DIR_ENTRIES_PER_BLOCK := by
        intro hattr
        by_contra hlong
        exact hover ((h.overruns_iff f.search).mpr ⟨hattr, by omega⟩)
      rw [imp_iff_right hname, and_iff_right hshort]
      cases hexists : t.fileExists f n name with
      | mk found r =>
        cases found with
        | true =>
          obtain ⟨hfinds, halike⟩ := h.fileExists_true hok hexists
          exact iff_of_true (hback r halike) fun hno => absurd hfinds hno
        | false =>
          obtain ⟨hfinds, rfl⟩ := h.fileExists_false hexists
          rw [imp_iff_right hfinds]
          cases halloc : r.allocInode f with
          | none =>
            simp only [halloc]
            have hnone := allocInode_none halloc
            rw [h.freeInum_eq] at hnone
            refine iff_of_true (hback r (Alike.refl r)) ?_
            intro inum hfault hinum
            exact absurd ⟨hfault, inum, hinum⟩ hnone
          | some q =>
            obtain ⟨k, t'⟩ := q
            obtain ⟨hfault, hinum, hallocated⟩ := allocated hok halloc
            rw [h.freeInum_eq] at hinum
            simp only [halloc]
            refine (atomic_createInode h hok hn hallocated hname).trans ?_
            constructor
            · intro hmeets inum _ heq
              cases hinum.symm.trans heq
              exact hmeets
            · intro hmeets
              exact hmeets k hfault hinum

end Call

end Tables

theorem createFile_atomic_iff {s : Tables} (hok : s.Ok) (f : Faults) (dir : Option ℕ)
    (hdir : ∀ n, dir = some n → s.inodeBitmap n = true) (name junk : List UChar)
    (attr now : ULong) :
    Atomic s dir name attr (s.createFile f dir name junk attr now) ↔
      ∀ n, dir = some n → s.Meets f n name junk := by
  unfold createFile
  cases dir with
  | none => exact iff_of_true (Alike.refl s).sameTables nofun
  | some n =>
    have hn := hdir n rfl
    simp only
    cases hfind : s.findParent f n with
    | mk parent t =>
      cases parent with
      | none =>
        obtain ⟨hfull, halike⟩ := findParent_none hok hn hfind
        refine iff_of_true halike.sameTables ?_
        intro n' hn' hcan hfree
        cases hn'
        exact absurd (hfull hcan) hfree
      | some file =>
        obtain ⟨hcan, hfree, hopened⟩ := findParent_some hok hn hfind
        have htn : t.inodeBitmap n = true := by
          rw [hopened.inodeBitmap]
          exact hn
        refine (atomic_createIn hopened (hopened.ok hok hn) htn).trans ?_
        constructor
        · intro hmeets n' hn' _ _
          cases hn'
          exact hmeets
        · intro hmeets
          exact hmeets n rfl hcan hfree

/-- A root directory with an entry for a file, which is inode 1. -/
def rootWithFile : Tables where
  numInodes := 4
  inodeBitmap i := i < 2
  inodes i := if i = 0 then { Inode.zero with attr := ATTR_DIRECTORY, nlinks := 2, size := 32 }
    else { Inode.zero with nlinks := 1 }
  core _ := none
  freeInodes := 3
  freeFiles := [0, 1, 2]
  files _ := none
  entries d := if d = 0 then [⟨[0x66], 1⟩] else []

def noFaults : Faults :=
  ⟨fun _ => false, fun _ => false, none, false, false, none, false, false⟩

theorem rootWithFile_ok : rootWithFile.Ok where
  core := nofun
  linked m _ _ := by
    show ((if m = 0 then _ else _ : Inode)).nlinks ≠ 0
    split <;> decide
  entry d e he _ := by
    have he : e ∈ (if d = 0 then [⟨[0x66], 1⟩] else [] : List DirEntry) := he
    split at he
    · cases List.mem_singleton.mp he
      decide
    · cases he
  nodup := by decide
  closed _ _ := rfl

/-- The file `x` is created in the root directory. -/
theorem createFile_atomic_x :
    Atomic rootWithFile (some 0) [0x78] 5 (rootWithFile.createFile noFaults (some 0) [0x78] [] 5 0) ↔
      ∀ n, some 0 = some n → rootWithFile.Meets noFaults n [0x78] [] :=
  createFile_atomic_iff rootWithFile_ok noFaults (some 0) (fun n hn => by cases hn; decide)
    [0x78] [] 5 0

/-- `x` cannot be created in the file `f`, which is no directory, and yet a handle is returned,
that has been closed. When the directory can be read the first time only, the file gets no
entry. -/
theorem createFile_returns_closed :
    (∃ file s', rootWithFile.createFile noFaults (some 1) [0x78] [] 5 0 = some (some file, s') ∧
      file ∈ s'.freeFiles ∧ s'.files file = none) ∧
    ∃ file s', rootWithFile.createFile { noFaults with enter := some 0 } (some 0) [0x78] [] 5 0 =
      some (some file, s') ∧ s'.files file = some 2 ∧ (s'.entries 0).map DirEntry.inum = [1] :=
  ⟨⟨1, _, rfl, by decide, rfl⟩, 1, _, rfl, rfl, rfl⟩

end Vmm386.Fs.FileTables
