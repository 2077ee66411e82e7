import Vmm386.Fs.Path

/-!
# What path operations keep

The steps that look at the name space leave it as it is (`Quiet`), but for inodes without links,
which go when the last reference does. A relation that allows them, and what `find_parent` does to
its buffer and `read_symlink` to its counter, holds over `find_parent` whenever it holds over the
calls of `open_file` in it.
-/

namespace Vmm386.Fs.Paths

open Programs

/-! ## Steps that look -/

/-- The data of an inode are the same, or they are gone with its last reference. -/
def DataKept (s s' : NameSpace) (node : Node) : Prop :=
  (s'.content node = s.content node ∧ s'.entries node = s.entries node ∧
    s'.inUse node = s.inUse node) ∨
  (s.nlinks node = 0 ∧ s'.content node = [] ∧ s'.entries node = [])

theorem DataKept.refl (s : NameSpace) (node : Node) : DataKept s s node := .inl ⟨rfl, rfl, rfl⟩

theorem DataKept.of_links {s s' : NameSpace} {node : Node} (h : DataKept s s' node)
    (hn : s.nlinks node ≠ 0) : s'.content node = s.content node ∧
    s'.entries node = s.entries node ∧ s'.inUse node = s.inUse node :=
  h.resolve_right fun h => hn h.1

/-- The counters, the current directory and the devices are the same, and so are the inodes that
have links. -/
structure Quiet (s s' : NameSpace) : Prop where
  nesting : s'.symlinkNesting = s.symlinkNesting
  activations : s'.activations = s.activations
  refused : s'.refused = s.refused
  copies : s'.copies = s.copies
  rootDir : s'.rootDir = s.rootDir
  faults : s'.faults = s.faults
  junk : s'.junk = s.junk
  devices : s'.devices = s.devices
  mounted : s'.mounted = s.mounted
  numInodes : s'.numInodes = s.numInodes
  currentDir : s'.currentDir = s.currentDir
  attr : s'.attr = s.attr
  nlinks : s'.nlinks = s.nlinks
  data : ∀ node, DataKept s s' node

instance : Std.Refl Quiet where
  refl s := ⟨rfl, rfl, rfl, rfl, rfl, rfl, rfl, rfl, rfl, rfl, rfl, rfl, rfl, DataKept.refl s⟩

theorem Quiet.trans {s s' s'' : NameSpace} (h : Quiet s s') (h' : Quiet s' s'') :
    Quiet s s'' where
  nesting := h'.nesting.trans h.nesting
  activations := h'.activations.trans h.activations
  refused := h'.refused.trans h.refused
  copies := h'.copies.trans h.copies
  rootDir := h'.rootDir.trans h.rootDir
  faults := h'.faults.trans h.faults
  junk := h'.junk.trans h.junk
  devices := h'.devices.trans h.devices
  mounted := h'.mounted.trans h.mounted
  numInodes := h'.numInodes.trans h.numInodes
  currentDir := h'.currentDir.trans h.currentDir
  attr := h'.attr.trans h.attr
  nlinks := h'.nlinks.trans h.nlinks
  data := by
    intro node
    rcases h'.data node with ⟨hc', he', hu'⟩ | ⟨hn', hc', he'⟩
    · rcases h.data node with ⟨hc, he, hu⟩ | ⟨hn, hc, he⟩
      · exact .inl ⟨hc'.trans hc, he'.trans he, hu'.trans hu⟩
      · exact .inr ⟨hn, hc'.trans hc, he'.trans he⟩
    · exact .inr ⟨h.nlinks ▸ hn', hc', he'⟩

instance : IsTrans NameSpace Quiet where
  trans _ _ _ := Quiet.trans

/-- A step that changes only what `Quiet` does not speak of. -/
theorem Quiet.of_eq {s s' : NameSpace} (h : s' = { s with
    errno := s'.errno, useCount := s'.useCount, files := s'.files, nextFile := s'.nextFile,
    clock := s'.clock }) : Quiet s s' := by
  rw [h]
  exact ⟨rfl, rfl, rfl, rfl, rfl, rfl, rfl, rfl, rfl, rfl, rfl, rfl, rfl, DataKept.refl s⟩

theorem quiet_deleteInode {s : NameSpace} {node : Node} (h : s.nlinks node = 0) :
    Quiet s (s.deleteInode node) where
  nesting := rfl
  activations := rfl
  refused := rfl
  copies := rfl
  rootDir := rfl
  faults := rfl
  junk := rfl
  devices := rfl
  mounted := rfl
  numInodes := rfl
  currentDir := rfl
  attr := rfl
  nlinks := rfl
  data := by
    intro other
    by_cases hne : other = node
    · rw [hne]
      exact .inr ⟨h, Function.update_self .., Function.update_self ..⟩
    · exact .inl ⟨Function.update_of_ne hne _ _, Function.update_of_ne hne _ _,
        Function.update_of_ne hne _ _⟩

theorem quiet_setErrno (e : ℤ) : Sure Quiet (setErrno e) :=
  Sure.modify fun _ => Quiet.of_eq rfl

theorem quiet_fault : Sure Quiet fault := by
  intro s
  unfold fault
  cases s.faults s.clock with
  | none => exact ⟨_, _, rfl, Quiet.of_eq rfl⟩
  | some f => exact ⟨_, _, rfl, Quiet.of_eq rfl⟩

theorem quiet_fails : Sure Quiet fails := quiet_fault.bind fun _ => Sure.pure _

theorem quiet_addRef (node : Node) (n : ℤ) :
    Sure Quiet (modify fun s : NameSpace => s.addRef node n) :=
  Sure.modify fun _ => Quiet.of_eq rfl

theorem quiet_makeInode (node : Node) : Sure Quiet (makeInode node) :=
  quiet_fails.bind fun _ => (Sure.pure _).ite ((quiet_addRef node 1).bind fun _ => Sure.pure _)

theorem quiet_writeInode : Sure Quiet writeInode := quiet_fails.bind fun _ => Sure.pure _

/-- An inode without links goes. -/
theorem quiet_drop (node : Node) : Sure Quiet (do
    let s ← get
    if s.useCount node = 0 ∧ s.nlinks node = 0 then
      if ← fails then pure () else modify (·.deleteInode node)
    else pure () : Op Unit) := by
  apply Sure.get_bind
  intro s
  split
  · rename_i hz
    obtain ⟨b, s', hrun, hq⟩ := quiet_fails s
    rw [bind_eq hrun]
    cases b with
    | true => exact ⟨(), s', rfl, hq⟩
    | false =>
      refine ⟨(), s'.deleteInode node, rfl, hq.trans (quiet_deleteInode ?_)⟩
      rw [hq.nlinks]
      exact hz.2
  · exact Sure.pure () s

theorem quiet_closeInode (node : Node) : Sure Quiet (closeInode node) :=
  quiet_writeInode.bind fun _ => (quiet_addRef node (-1)).bind fun _ => quiet_drop node

theorem quiet_makeFile (node : Node) : Sure Quiet (makeFile node) := by
  apply quiet_fails.bind
  intro b
  refine Sure.ite (Sure.pure _) ?_
  apply Sure.get_bind
  intro s
  exact ⟨_, _, rfl, Quiet.of_eq rfl⟩

theorem quiet_closeFile (file : Handle) : Sure Quiet (closeFile file) :=
  quiet_fails.bind fun _ => (quiet_closeInode file.node).bind fun _ =>
    Sure.modify fun _ => Quiet.of_eq rfl

theorem quiet_dupFile (file : Option Handle) : Sure Quiet (dupFile file) := by
  cases file with
  | none => exact (quiet_setErrno _).bind fun _ => Sure.pure _
  | some file =>
    apply (quiet_makeFile file.node).bind
    intro new
    cases new <;> exact Sure.pure _

theorem quiet_readEntries (dir : Handle) : Sure Quiet (readEntries dir) := by
  apply Sure.get_bind
  intro s
  split
  · exact Sure.pure _ s
  · split
    · exact ((quiet_setErrno _).bind fun _ => Sure.pure _) s
    · refine quiet_fault.bind (fun f => ?_) s
      cases f <;> exact Sure.pure _

theorem quiet_findFileEntry (dir : Handle) (name : List UChar) :
    Sure Quiet (findFileEntry dir name) := by
  apply Sure.get_bind
  intro s
  split
  · refine (quiet_readEntries dir).bind (fun (es, all) => ?_) s
    dsimp only
    split
    · exact (quiet_makeInode _).bind fun _ => (Sure.pure _).ite (Sure.pure _)
    · exact Sure.ite ((quiet_setErrno _).bind fun _ => Sure.pure _) (Sure.pure _)
  · exact ((quiet_setErrno _).bind fun _ => Sure.pure _) s

theorem quiet_fileExistsP (dir : Handle) (name : List UChar) :
    Sure Quiet (fileExistsP dir name) := by
  apply (quiet_findFileEntry dir name).bind
  intro inode
  cases inode with
  | none => exact Sure.pure _
  | some inode => exact (quiet_closeInode inode).bind fun _ => Sure.pure _

theorem quiet_readLink (link : Handle) : Sure Quiet (readLink link) := by
  apply Sure.get_bind
  intro s
  split
  · exact ((quiet_setErrno _).bind fun _ => Sure.pure _) s
  · refine quiet_fails.bind (fun b => ?_) s
    exact Sure.ite (Sure.pure _) (Sure.ite (Sure.pure _) (Sure.pure _))

/-! ## Steps that write -/

/-- What no step of `create_file_entry`, `swap_current_dir` and so on touches. -/
structure Still (s s' : NameSpace) : Prop where
  nesting : s'.symlinkNesting = s.symlinkNesting
  activations : s'.activations = s.activations
  refused : s'.refused = s.refused
  copies : s'.copies = s.copies
  rootDir : s'.rootDir = s.rootDir
  faults : s'.faults = s.faults
  junk : s'.junk = s.junk

instance : Std.Refl Still where
  refl _ := ⟨rfl, rfl, rfl, rfl, rfl, rfl, rfl⟩

instance : IsTrans NameSpace Still where
  trans _ _ _ h h' := ⟨h'.nesting.trans h.nesting, h'.activations.trans h.activations,
    h'.refused.trans h.refused, h'.copies.trans h.copies, h'.rootDir.trans h.rootDir,
    h'.faults.trans h.faults, h'.junk.trans h.junk⟩

theorem Quiet.still {s s' : NameSpace} (h : Quiet s s') : Still s s' :=
  ⟨h.nesting, h.activations, h.refused, h.copies, h.rootDir, h.faults, h.junk⟩

theorem still_of_quiet {α : Type} {m : Op α} (h : Sure Quiet m) : Sure Still m :=
  h.mono fun _ _ => Quiet.still

theorem still_setErrno (e : ℤ) : Sure Still (setErrno e) := still_of_quiet (quiet_setErrno e)

theorem still_fails : Sure Still fails := still_of_quiet quiet_fails

theorem still_truncateFile (file : Handle) : Sure Still (truncateFile file) :=
  still_fails.bind fun _ => (Sure.pure _).ite
    (Sure.modify fun _ => ⟨rfl, rfl, rfl, rfl, rfl, rfl, rfl⟩)

theorem still_writeEntry (dir : Handle) (name : List UChar) (inum : ℕ) :
    Sure Still (writeEntry dir name inum) := by
  refine Sure.ite ((still_setErrno _).bind fun _ => Sure.pure _) ?_
  apply still_fails.bind
  intro b
  refine Sure.ite (Sure.pure _) ?_
  exact (Sure.modify fun _ => ⟨rfl, rfl, rfl, rfl, rfl, rfl, rfl⟩).bind fun _ => Sure.pure _

theorem still_createFileEntry (dir : Handle) (name : List UChar) (inum : ℕ) :
    Sure Still (createFileEntry dir name inum) := by
  apply Sure.get_bind
  intro s
  split
  · refine (still_of_quiet (quiet_readEntries dir)).bind (fun (es, all) => ?_) s
    refine Sure.ite ((still_setErrno _).bind fun _ => Sure.pure _) ?_
    exact Sure.ite (still_writeEntry dir name inum) (Sure.pure _)
  · exact ((still_setErrno _).bind fun _ => Sure.pure _) s

theorem still_swapCurrentDir (dir : Option Handle) : Sure Still (swapCurrentDir dir) := by
  apply Sure.get_bind
  intro s
  cases dir with
  | none => exact ⟨_, _, rfl, rfl, rfl, rfl, rfl, rfl, rfl, rfl⟩
  | some dir =>
    refine still_fails.bind (fun b => ?_) s
    refine Sure.ite (Sure.pure _) ?_
    apply Sure.get_bind
    intro s'
    split
    · exact ⟨_, _, rfl, rfl, rfl, rfl, rfl, rfl, rfl, rfl⟩
    · exact ((still_setErrno _).bind fun _ => Sure.pure _) s'

theorem still_allocInode (dev : ℕ) : Sure Still (allocInode dev) := by
  apply still_fails.bind
  intro b
  refine Sure.ite (Sure.pure _) ?_
  apply Sure.get_bind
  intro s
  cases (List.range (s.numInodes dev)).find? fun i => !s.inUse ⟨dev, i⟩ with
  | none => exact Sure.pure _ s
  | some inum => exact ⟨_, _, rfl, rfl, rfl, rfl, rfl, rfl, rfl, rfl⟩

theorem still_freeInode (node : Node) : Sure Still (freeInode node) :=
  still_fails.bind fun _ => (Sure.pure _).ite
    (Sure.modify fun _ => ⟨rfl, rfl, rfl, rfl, rfl, rfl, rfl⟩)

theorem still_newFile (node : Node) : Sure Still (newFile node) := by
  apply (still_of_quiet (quiet_makeInode node)).bind
  intro b
  refine Sure.ite ?_ (Sure.pure _)
  have hclear : Sure Still (clearInode node) :=
    Sure.modify fun _ => ⟨rfl, rfl, rfl, rfl, rfl, rfl, rfl⟩
  exact hclear.bind fun _ => (still_of_quiet (quiet_makeFile node)).bind fun _ =>
    (still_of_quiet (quiet_closeInode node)).bind fun _ => Sure.pure _

theorem still_enterFile (dir file : Handle) (name : List UChar) (attr : ULong) :
    Sure Still (enterFile dir file name attr) := by
  apply (still_createFileEntry dir name _).bind
  intro b
  have hlink : Sure Still (linkInode file.node attr) :=
    Sure.modify fun _ => ⟨rfl, rfl, rfl, rfl, rfl, rfl, rfl⟩
  apply Sure.ite
  · exact hlink.bind fun _ => (still_of_quiet quiet_writeInode).bind fun _ => Sure.pure _
  · exact (still_of_quiet (quiet_closeFile file)).bind fun _ => Sure.pure _

theorem still_createIn (dir : Handle) (name : List UChar) (attr : ULong) :
    Sure Still (createIn dir name attr) := by
  apply (still_of_quiet (quiet_fileExistsP dir name)).bind
  intro b
  refine Sure.ite ((still_setErrno _).bind fun _ => Sure.pure _) ?_
  apply (still_allocInode _).bind
  intro inum
  cases inum with
  | none => exact Sure.pure _
  | some inum =>
    apply (still_newFile _).bind
    intro file
    cases file with
    | none => exact (still_freeInode _).bind fun _ => Sure.pure _
    | some file => exact still_enterFile dir file name attr

theorem still_setMode (file : Handle) (mode : ULong) : Sure Still (setMode file mode) := by
  have hwrite : Sure Still (do
      writeInode
      pure { file with mode } : Op Handle) :=
    (still_of_quiet quiet_writeInode).bind fun _ => Sure.pure _
  unfold setMode
  exact Sure.ite ((still_truncateFile file).bind fun _ => hwrite) hwrite

/-! ## `find_parent` and `read_symlink` -/

/-- `R` allows what `find_parent` and `read_symlink` do besides looking. -/
structure Allows (R : NameSpace → NameSpace → Prop) : Prop where
  quiet : ∀ s s', Quiet s s' → R s s'
  copy : ∀ len, Keeps R (copyToBuf len)
  activate : ∀ s : NameSpace, s.symlinkNesting ≤ MAX_SYMLINK_DEPTH →
    R s { s with activations := s.symlinkNesting :: s.activations }
  refuse : ∀ s : NameSpace, R s { s with refused := s.refused + 1 }
  nested : ∀ m : Op (Option Handle), Keeps R m → Keeps R (nested m)

/-- A mode without `F_CREATE` and `F_TRUNCATE`. -/
def Plain (mode : ULong) : Prop := mode &&& F_CREATE = 0 ∧ mode &&& F_TRUNCATE = 0

instance (mode : ULong) : Decidable (Plain mode) := inferInstanceAs (Decidable (_ ∧ _))

theorem or_and_eq_zero {a b c : ULong} (h : a &&& c = 0) (h' : b &&& c = 0) :
    (a ||| b) &&& c = 0 := by
  rw [BitVec.and_comm, BitVec.and_or_distrib_left, BitVec.and_comm c a, BitVec.and_comm c b, h, h']
  rfl

theorem Plain.link {mode : ULong} (h : Plain mode) : Plain (F_READ ||| mode) :=
  ⟨or_and_eq_zero (by decide) h.1, or_and_eq_zero (by decide) h.2⟩

theorem quiet_setMode (file : Handle) {mode : ULong} (h : Plain mode) :
    Sure Quiet (setMode file mode) := by
  unfold setMode
  rw [if_neg (not_not.mpr h.2)]
  exact quiet_writeInode.bind fun _ => Sure.pure _

theorem makeFile_mode {node : Node} {s s' : NameSpace} {file : Handle}
    (h : makeFile node s = some (some file, s')) :
    file.mode = F_READ ||| F_WRITE ∧ file.node = node := by
  unfold makeFile at h
  have ⟨b, s₁, _, h⟩ := bind_eq_some.mp h
  cases b
  · cases h
    exact ⟨rfl, rfl⟩
  · cases h

theorem nested_eq_some {α : Type} {m : Op α} {s s' : NameSpace} {a : α} :
    nested m s = some (a, s') ↔
      ∃ s₁, m { s with symlinkNesting := s.symlinkNesting + 1 } = some (a, s₁) ∧
        s' = { s₁ with symlinkNesting := s₁.symlinkNesting - 1 } := by
  constructor
  · intro hrun
    have ⟨_, s₀, hup, hin⟩ := bind_eq_some.mp hrun
    have ⟨a', s₁, h₁, hout⟩ := bind_eq_some.mp hin
    cases hup
    cases hout
    exact ⟨s₁, h₁, rfl⟩
  · intro ⟨s₁, h₁, heq⟩
    rw [heq]
    unfold nested
    exact bind_eq_some.mpr ⟨(), _, rfl, bind_eq_some.mpr ⟨a, s₁, h₁, rfl⟩⟩

theorem Allows.of_quiet {R : NameSpace → NameSpace → Prop} (hR : Allows R) {α : Type} {m : Op α}
    (h : Sure Quiet m) : Keeps R m :=
  h.keeps.mono hR.quiet

section Looking

variable {R : NameSpace → NameSpace → Prop} [Std.Refl R] [IsTrans NameSpace R] (hR : Allows R)
variable {openFile : Opener}

include hR

theorem keeps_openLink {link : Handle} (ho : ∀ path, Keeps R (openFile path link.mode)) :
    Keeps R (openLink openFile link) := by
  apply (hR.of_quiet (quiet_readLink link)).bind
  intro buf
  cases buf with
  | none => exact Keeps.pure _
  | some buf => exact ho buf

theorem keeps_readSymlink {link : Handle} (ho : ∀ path, Keeps R (openFile path link.mode)) :
    Keeps R (readSymlink openFile link) := by
  apply hR.nested
  apply Keeps.get_bind
  intro s
  split
  · rename_i hdeep
    apply Holds.bind
    apply Holds.modify
    have hact := hR.activate s hdeep
    have hrest : Keeps R (if s.isSymlink link.node then
        if (s.content link.node).length < 256 then openLink openFile link
        else do
          setErrno E_NOMEM
          pure none
      else do
        setErrno E_NOTLINK
        pure none) :=
      Keeps.ite (Keeps.ite (keeps_openLink hR ho)
          ((hR.of_quiet (quiet_setErrno _)).bind fun _ => Keeps.pure _))
        ((hR.of_quiet (quiet_setErrno _)).bind fun _ => Keeps.pure _)
    exact (hrest _).mono fun _ s' h => IsTrans.trans _ _ s' hact h
  · have hrest : Keeps R (do
        modify fun s : NameSpace => { s with refused := s.refused + 1 }
        setErrno E_MAXLINKS
        pure none : Op (Option Handle)) :=
      (Keeps.modify hR.refuse).bind fun _ =>
        (hR.of_quiet (quiet_setErrno _)).bind fun _ => Keeps.pure _
    exact hrest s

theorem keeps_startDir (name : List UChar)
    (ho : ∀ path mode, Plain mode → Keeps R (openFile path mode)) :
    Keeps R (startDir openFile name) := by
  apply Keeps.get_bind
  intro s
  split
  · exact ((ho s.rootDir.path _ (by decide)).bind fun _ => Keeps.pure _) s
  · split
    · split
      · exact ((hR.of_quiet (quiet_makeFile _)).bind fun _ => Keeps.pure _) s
      · exact ((hR.of_quiet (quiet_setErrno _)).bind fun _ => Keeps.pure _) s
    · refine (hR.copy _).bind (fun _ => ?_) s
      split
      · exact (hR.of_quiet (quiet_setErrno _)).bind fun _ => Keeps.pure _
      · exact Keeps.ite ((hR.of_quiet (quiet_makeFile _)).bind fun _ => Keeps.pure _)
          ((hR.of_quiet (quiet_setErrno _)).bind fun _ => Keeps.pure _)
    · exact ((hR.of_quiet (quiet_dupFile _)).bind fun _ => Keeps.pure _) s

theorem keeps_enterChild (child : Node)
    (ho : ∀ path mode, Plain mode → Keeps R (openFile path mode)) :
    Keeps R (enterChild openFile child) := by
  apply Keeps.get_bind
  intro s
  split
  · apply Holds.bind
    intro link s₁ hlink
    have h₁ := hR.quiet _ _ ((quiet_makeFile child).keeps s link s₁ hlink)
    apply Holds.bind
    intro _ s₂ hclose
    have h₂ := IsTrans.trans _ _ _ h₁ (hR.quiet _ _ ((quiet_closeInode child).keeps s₁ _ s₂ hclose))
    cases link with
    | none => exact Holds.pure h₂
    | some link =>
      have hmode : Plain (link.mode ||| F_ALLOW_DIR) := by
        rw [(makeFile_mode hlink).1]
        decide
      have hrest : Keeps R (do
          let dir ← readSymlink openFile { link with mode := link.mode ||| F_ALLOW_DIR }
          closeFile link
          pure dir) :=
        (keeps_readSymlink hR fun path => ho path _ hmode).bind fun dir =>
          (hR.of_quiet (quiet_closeFile link)).bind fun _ => Keeps.pure _
      exact (hrest s₂).mono fun _ s' h => IsTrans.trans _ _ s' h₂ h
  · exact ((hR.of_quiet (quiet_makeFile child)).bind fun _ =>
      (hR.of_quiet (quiet_closeInode child)).bind fun _ => Keeps.pure _) s

theorem keeps_walk (ho : ∀ path mode, Plain mode → Keeps R (openFile path mode)) (fuel : ℕ) :
    ∀ dir name, Keeps R (walk openFile fuel dir name) := by
  induction fuel with
  | zero => exact fun _ _ => Keeps.failure
  | succ fuel ih =>
    intro dir name
    apply Keeps.get_bind
    intro s
    split
    · split
      · exact Holds.pure (Std.Refl.refl s)
      · refine (hR.copy _).bind (fun _ => ?_) s
        apply (hR.of_quiet (quiet_findFileEntry dir _)).bind
        intro child
        apply (hR.of_quiet (quiet_closeFile dir)).bind
        intro _
        cases child with
        | none => exact Keeps.pure _
        | some child =>
          apply (keeps_enterChild hR child ho).bind
          intro dir
          cases dir with
          | none => exact Keeps.pure _
          | some dir => exact ih dir _
    · exact Holds.pure (Std.Refl.refl s)

theorem keeps_findParent (name : List UChar)
    (ho : ∀ path mode, Plain mode → Keeps R (openFile path mode)) :
    Keeps R (findParent openFile name) := by
  apply (keeps_startDir hR name ho).bind
  intro (dir, name)
  cases dir with
  | none => exact Keeps.pure _
  | some dir => exact keeps_walk hR ho _ dir name

/-! ## `open_file` in a plain mode -/

theorem keeps_openInode (inode : Node) (mode : ULong)
    (ho : ∀ path, Keeps R (openFile path (F_READ ||| mode))) :
    Keeps R (openInode openFile inode mode) := by
  apply Keeps.get_bind
  intro s
  split
  · refine (hR.of_quiet (quiet_makeFile inode)).bind (fun link => ?_) s
    cases link with
    | none => exact Keeps.pure _
    | some link =>
      exact (keeps_readSymlink hR ho).bind fun _ =>
        (hR.of_quiet (quiet_closeFile link)).bind fun _ => Keeps.pure _
  · split
    · exact ((hR.of_quiet (quiet_setErrno _)).bind fun _ => Keeps.pure _) s
    · split
      · exact ((hR.of_quiet (quiet_setErrno _)).bind fun _ => Keeps.pure _) s
      · exact hR.of_quiet (quiet_makeFile inode) s

theorem keeps_openBody (name : List UChar) {mode : ULong} (hp : Plain mode)
    (ho : ∀ path mode, Plain mode → Keeps R (openFile path mode)) :
    Keeps R (openBody openFile name mode) := by
  apply (keeps_findParent hR name ho).bind
  intro (dir, name)
  cases dir with
  | none => exact Keeps.pure _
  | some dir =>
    cases name with
    | nil => exact Keeps.pure _
    | cons c name =>
      have hopen : Keeps R (openIn openFile dir (c :: name) mode) := by
        apply (hR.of_quiet (quiet_findFileEntry dir _)).bind
        intro inode
        cases inode with
        | none =>
          dsimp only
          rw [if_neg (not_not.mpr hp.1)]
          exact Keeps.pure _
        | some inode =>
          exact (keeps_openInode hR inode mode fun path => ho path _ hp.link).bind fun _ =>
            (hR.of_quiet (quiet_closeInode inode)).bind fun _ => Keeps.pure _
      apply hopen.bind
      intro file
      cases file with
      | none => exact (hR.of_quiet (quiet_closeFile dir)).bind fun _ => Keeps.pure _
      | some file =>
        exact (hR.of_quiet (quiet_setMode file hp)).bind fun _ =>
          (hR.of_quiet (quiet_closeFile dir)).bind fun _ => Keeps.pure _

/-- What `find_parent` and `read_symlink` may do, `open_file` may. -/
theorem keeps_openFile (fuel : ℕ) :
    ∀ path mode, Plain mode → Keeps R (Paths.openFile fuel path mode) := by
  induction fuel with
  | zero => exact fun _ _ _ => Keeps.failure
  | succ fuel ih => exact fun path mode hp => keeps_openBody hR path hp ih

/-! ## `open_file` in any mode -/

theorem keeps_createFile (hw : ∀ s s', Still s s' → R s s') (name : List UChar) (attr : ULong)
    (ho : ∀ path mode, Plain mode → Keeps R (openFile path mode)) :
    Keeps R (createFile openFile name attr) := by
  apply (keeps_findParent hR name ho).bind
  intro (dir, name)
  cases dir with
  | none => exact Keeps.pure _
  | some dir =>
    cases name with
    | nil => exact (hR.of_quiet (quiet_closeFile dir)).bind fun _ => Keeps.pure _
    | cons c name =>
      exact ((still_createIn dir _ attr).keeps.mono hw).bind fun _ =>
        (hR.of_quiet (quiet_closeFile dir)).bind fun _ => Keeps.pure _

theorem keeps_openIn (hw : ∀ s s', Still s s' → R s s') (dir : Handle) (name : List UChar)
    (mode : ULong) (ho : ∀ path mode, Keeps R (openFile path mode)) :
    Keeps R (openIn openFile dir name mode) := by
  apply (hR.of_quiet (quiet_findFileEntry dir name)).bind
  intro inode
  cases inode with
  | none =>
    refine Keeps.ite ?_ (Keeps.pure _)
    apply ((still_swapCurrentDir _).keeps.mono hw).bind
    intro oldDir
    apply (keeps_createFile hR hw name 0 fun path mode _ => ho path mode).bind
    intro file
    exact ((still_swapCurrentDir _).keeps.mono hw).bind fun _ => Keeps.pure _
  | some inode =>
    exact (keeps_openInode hR inode mode fun path => ho path _).bind fun _ =>
      (hR.of_quiet (quiet_closeInode inode)).bind fun _ => Keeps.pure _

/-- What the steps that write may do besides, `open_file` may in any mode. -/
theorem keeps_openFile_any (hw : ∀ s s', Still s s' → R s s') (fuel : ℕ) :
    ∀ path mode, Keeps R (Paths.openFile fuel path mode) := by
  induction fuel with
  | zero => exact fun _ _ => Keeps.failure
  | succ fuel ih =>
    intro path mode
    apply (keeps_findParent hR path fun path mode _ => ih path mode).bind
    intro (dir, name)
    cases dir with
    | none => exact Keeps.pure _
    | some dir =>
      cases name with
      | nil => exact Keeps.pure _
      | cons c name =>
        apply (keeps_openIn hR hw dir _ mode ih).bind
        intro file
        cases file with
        | none => exact (hR.of_quiet (quiet_closeFile dir)).bind fun _ => Keeps.pure _
        | some file =>
          exact ((still_setMode file mode).keeps.mono hw).bind fun _ =>
            (hR.of_quiet (quiet_closeFile dir)).bind fun _ => Keeps.pure _

end Looking

end Vmm386.Fs.Paths
