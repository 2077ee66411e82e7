import Vmm386.Fs.PathTheorems

/-!
# Path resolution ends

`symlink_nesting` is what it was after each call, and no link is followed where it is above
`MAX_SYMLINK_DEPTH`. So `open_file` calls itself for a link with a higher `symlink_nesting`, and
for `root_dir` with a path that does not ask for `root_dir` again. The loop of `find_parent` goes
on with a shorter path.
-/

namespace Vmm386.Fs.Paths

open Programs

/-! ## `symlink_nesting` -/

/-- `symlink_nesting` is back, and has not been above the limit where a link was followed. -/
structure Level (s s' : NameSpace) : Prop where
  nesting : s'.symlinkNesting = s.symlinkNesting
  activations : ∃ new, s'.activations = new ++ s.activations ∧ ∀ k ∈ new, k ≤ MAX_SYMLINK_DEPTH

instance : Std.Refl Level where
  refl _ := ⟨rfl, [], rfl, by simp⟩

instance : IsTrans NameSpace Level where
  trans := by
    intro s s' s'' h h'
    obtain ⟨new, hnew, hle⟩ := h.activations
    obtain ⟨new', hnew', hle'⟩ := h'.activations
    refine ⟨h'.nesting.trans h.nesting, new' ++ new, ?_, ?_⟩
    · rw [hnew', hnew, List.append_assoc]
    · intro k hk
      rcases List.mem_append.mp hk with hk | hk
      · exact hle' k hk
      · exact hle k hk

theorem Still.level {s s' : NameSpace} (h : Still s s') : Level s s' :=
  ⟨h.nesting, [], h.activations, by simp⟩

theorem level_nested (m : Op (Option Handle)) (h : Keeps Level m) : Keeps Level (nested m) := by
  intro s dest s' hrun
  have ⟨s₁, h₁, heq⟩ := nested_eq_some.mp hrun
  have hL := h _ dest s₁ h₁
  have hn : s₁.symlinkNesting = s.symlinkNesting + 1 := hL.nesting
  rw [heq]
  refine ⟨?_, hL.activations⟩
  change s₁.symlinkNesting - 1 = s.symlinkNesting
  omega

theorem level_copyToBuf (len : ℕ) : Sure Level (copyToBuf len) :=
  Sure.modify fun _ => ⟨rfl, [], rfl, by simp⟩

theorem allows_level : Allows Level where
  quiet _ _ h := h.still.level
  copy len := (level_copyToBuf len).keeps
  activate s h := ⟨rfl, [s.symlinkNesting], rfl, by simpa using h⟩
  refuse _ := ⟨rfl, [], rfl, by simp⟩
  nested := level_nested

theorem level_openFile (fuel : ℕ) (path : List UChar) (mode : ULong) :
    Keeps Level (openFile fuel path mode) :=
  keeps_openFile_any allows_level (fun _ _ h => h.level) fuel path mode

/-! ## Ends, at one level -/

/-- Every run where `symlink_nesting` is `k` comes to an end. -/
def HaltsAt (k : ℤ) {α : Type} (m : Op α) : Prop := ∀ s, s.symlinkNesting = k → Halts m s

variable {k : ℤ} {α β : Type}

theorem HaltsAt.bind {m : Op α} {f : α → Op β} (hm : HaltsAt k m) (hlevel : Keeps Level m)
    (hf : ∀ a, HaltsAt k (f a)) : HaltsAt k (m >>= f) := by
  intro s hs
  apply Halts.bind (hm s hs)
  intro a s' hrun
  exact hf a s' ((hlevel s a s' hrun).nesting.trans hs)

theorem HaltsAt.bind_still {m : Op α} {f : α → Op β} (hm : Sure Still m)
    (hf : ∀ a, HaltsAt k (f a)) : HaltsAt k (m >>= f) :=
  HaltsAt.bind (fun s _ => hm.halts s) (hm.keeps.mono fun _ _ h => h.level) hf

theorem HaltsAt.bind_quiet {m : Op α} {f : α → Op β} (hm : Sure Quiet m)
    (hf : ∀ a, HaltsAt k (f a)) : HaltsAt k (m >>= f) :=
  HaltsAt.bind_still (still_of_quiet hm) hf

theorem HaltsAt.bind_copy (len : ℕ) {f : Unit → Op β} (hf : ∀ a, HaltsAt k (f a)) :
    HaltsAt k (copyToBuf len >>= f) :=
  HaltsAt.bind (fun s _ => (level_copyToBuf len).halts s) (level_copyToBuf len).keeps hf

theorem HaltsAt.pure (a : α) : HaltsAt k (Pure.pure a) := fun _ _ => Halts.pure a

theorem HaltsAt.ite {c : Prop} [Decidable c] {m m' : Op α} (hm : c → HaltsAt k m)
    (hm' : HaltsAt k m') : HaltsAt k (if c then m else m') := by
  split
  · exact hm ‹_›
  · exact hm'

theorem haltsAt_nested {m : Op (Option Handle)} (h : HaltsAt (k + 1) m) : HaltsAt k (nested m) := by
  intro s hs
  apply Halts.bind (Halts.modify _)
  apply Holds.modify
  apply Halts.bind (h _ (by rw [← hs]))
  intro dest s' _
  exact ⟨_, rfl⟩

theorem haltsAt_setErrno (e : ℤ) (a : α) : HaltsAt k (do
    setErrno e
    Pure.pure a) :=
  HaltsAt.bind_quiet (quiet_setErrno e) fun _ => HaltsAt.pure a

section Bodies

variable {openFile : Opener}

theorem haltsAt_readSymlink (link : Handle)
    (hlink : k < MAX_SYMLINK_DEPTH → ∀ path mode, HaltsAt (k + 1) (openFile path mode)) :
    HaltsAt k (readSymlink openFile link) := by
  apply haltsAt_nested
  intro s hs
  apply Halts.get_bind
  split
  · rename_i hdeep
    have hopen : HaltsAt (k + 1) (openLink openFile link) := by
      apply HaltsAt.bind_quiet (quiet_readLink link)
      intro buf
      cases buf with
      | none => exact HaltsAt.pure _
      | some buf => exact hlink (by omega) buf link.mode
    have hrest : HaltsAt (k + 1) (if s.isSymlink link.node then
        if (s.content link.node).length < 256 then openLink openFile link
        else do
          setErrno E_NOMEM
          pure none
      else do
        setErrno E_NOTLINK
        pure none) :=
      HaltsAt.ite (fun _ => HaltsAt.ite (fun _ => hopen) (haltsAt_setErrno _ _))
        (haltsAt_setErrno _ _)
    apply Halts.bind (Halts.modify _)
    apply Holds.modify
    exact hrest _ hs
  · exact ⟨_, rfl⟩

theorem haltsAt_startDir (name : List UChar)
    (hkeep : ∀ path mode, Keeps Level (openFile path mode))
    (hroot : name.head? = some slash → ∀ path mode, Plain mode → path.head? ≠ some slash →
      HaltsAt k (openFile path mode)) :
    HaltsAt k (startDir openFile name) := by
  intro s hs
  apply Halts.get_bind
  split
  · rename_i hslash
    have hopen := hroot hslash s.rootDir.path (F_READ ||| F_WRITE ||| F_ALLOW_DIR) (by decide)
      s.rootDir.noSlash
    exact hopen.bind (hkeep _ _) (fun _ => HaltsAt.pure _) s hs
  · split
    · split
      · exact HaltsAt.bind_quiet (quiet_makeFile _) (fun _ => HaltsAt.pure _) s hs
      · exact haltsAt_setErrno _ _ s hs
    · refine HaltsAt.bind_copy _ (fun _ => ?_) s hs
      split
      · exact haltsAt_setErrno _ _
      · exact HaltsAt.ite (fun _ => HaltsAt.bind_quiet (quiet_makeFile _) fun _ => HaltsAt.pure _)
          (haltsAt_setErrno _ _)
    · exact HaltsAt.bind_quiet (quiet_dupFile _) (fun _ => HaltsAt.pure _) s hs

theorem haltsAt_enterChild (child : Node)
    (hkeep : ∀ path mode, Keeps Level (openFile path mode))
    (hlink : k < MAX_SYMLINK_DEPTH → ∀ path mode, HaltsAt (k + 1) (openFile path mode)) :
    HaltsAt k (enterChild openFile child) := by
  intro s hs
  apply Halts.get_bind
  split
  · refine HaltsAt.bind_quiet (quiet_makeFile child) (fun link => ?_) s hs
    apply HaltsAt.bind_quiet (quiet_closeInode child)
    intro _
    cases link with
    | none => exact HaltsAt.pure _
    | some link =>
      apply (haltsAt_readSymlink _ hlink).bind
      · exact keeps_readSymlink allows_level fun path => hkeep path _
      · exact fun _ => HaltsAt.bind_quiet (quiet_closeFile link) fun _ => HaltsAt.pure _
  · exact HaltsAt.bind_quiet (quiet_makeFile child) (fun _ =>
      HaltsAt.bind_quiet (quiet_closeInode child) fun _ => HaltsAt.pure _) s hs

theorem strchr_length {name before after : List UChar} {c : UChar}
    (h : strchr name c = some (before, after)) : after.length < name.length := by
  induction name generalizing before after with
  | nil => cases h
  | cons d name ih =>
    unfold strchr at h
    split at h
    · cases h
      exact Nat.lt_succ_self _
    · obtain ⟨⟨b, a⟩, hba, heq⟩ := Option.map_eq_some_iff.mp h
      cases heq
      exact (ih hba).trans (Nat.lt_succ_self _)

theorem haltsAt_walk (hkeep : ∀ path mode, Keeps Level (openFile path mode))
    (hlink : k < MAX_SYMLINK_DEPTH → ∀ path mode, HaltsAt (k + 1) (openFile path mode))
    (fuel : ℕ) : ∀ dir name, name.length < fuel → HaltsAt k (walk openFile fuel dir name) := by
  induction fuel with
  | zero => exact fun _ _ h => absurd h (Nat.not_lt_zero _)
  | succ fuel ih =>
    intro dir name hlen s hs
    apply Halts.get_bind
    split
    · split
      · exact Halts.pure _
      · rename_i buf rest hsplit
        refine HaltsAt.bind_copy _ (fun _ => ?_) s hs
        apply HaltsAt.bind_quiet (quiet_findFileEntry dir buf)
        intro child
        apply HaltsAt.bind_quiet (quiet_closeFile dir)
        intro _
        cases child with
        | none => exact HaltsAt.pure _
        | some child =>
          apply (haltsAt_enterChild child hkeep hlink).bind
          · exact keeps_enterChild allows_level child fun path mode _ => hkeep path mode
          · intro dir
            cases dir with
            | none => exact HaltsAt.pure _
            | some dir =>
              have hlt := strchr_length hsplit
              exact ih dir rest (by omega)
    · exact Halts.pure _

theorem haltsAt_findParent (name : List UChar)
    (hkeep : ∀ path mode, Keeps Level (openFile path mode))
    (hroot : name.head? = some slash → ∀ path mode, Plain mode → path.head? ≠ some slash →
      HaltsAt k (openFile path mode))
    (hlink : k < MAX_SYMLINK_DEPTH → ∀ path mode, HaltsAt (k + 1) (openFile path mode)) :
    HaltsAt k (findParent openFile name) := by
  apply (haltsAt_startDir name hkeep hroot).bind
  · exact keeps_startDir allows_level name fun path mode _ => hkeep path mode
  · intro (dir, name)
    cases dir with
    | none => exact HaltsAt.pure _
    | some dir => exact haltsAt_walk hkeep hlink _ dir name (Nat.lt_succ_self _)

theorem haltsAt_createFile (name : List UChar) (attr : ULong)
    (hkeep : ∀ path mode, Keeps Level (openFile path mode))
    (hroot : ∀ path mode, Plain mode → path.head? ≠ some slash → HaltsAt k (openFile path mode))
    (hlink : k < MAX_SYMLINK_DEPTH → ∀ path mode, HaltsAt (k + 1) (openFile path mode)) :
    HaltsAt k (createFile openFile name attr) := by
  apply (haltsAt_findParent name hkeep (fun _ => hroot) hlink).bind
  · exact keeps_findParent allows_level name fun path mode _ => hkeep path mode
  · intro (dir, name)
    cases dir with
    | none => exact HaltsAt.pure _
    | some dir =>
      cases name with
      | nil => exact HaltsAt.bind_quiet (quiet_closeFile dir) fun _ => HaltsAt.pure _
      | cons c name =>
        exact HaltsAt.bind_still (still_createIn dir _ attr) fun _ =>
          HaltsAt.bind_quiet (quiet_closeFile dir) fun _ => HaltsAt.pure _

theorem haltsAt_openInode (inode : Node) (mode : ULong)
    (hkeep : ∀ path mode, Keeps Level (openFile path mode))
    (hlink : k < MAX_SYMLINK_DEPTH → ∀ path mode, HaltsAt (k + 1) (openFile path mode)) :
    HaltsAt k (openInode openFile inode mode) := by
  intro s hs
  apply Halts.get_bind
  split
  · refine HaltsAt.bind_quiet (quiet_makeFile inode) (fun link => ?_) s hs
    cases link with
    | none => exact HaltsAt.pure _
    | some link =>
      apply (haltsAt_readSymlink _ hlink).bind
      · exact keeps_readSymlink allows_level fun path => hkeep path _
      · exact fun _ => HaltsAt.bind_quiet (quiet_closeFile link) fun _ => HaltsAt.pure _
  · split
    · exact haltsAt_setErrno _ _ s hs
    · split
      · exact haltsAt_setErrno _ _ s hs
      · exact (quiet_makeFile inode).halts s

theorem haltsAt_openIn (dir : Handle) (name : List UChar) (mode : ULong)
    (hkeep : ∀ path mode, Keeps Level (openFile path mode))
    (hroot : mode &&& F_CREATE ≠ 0 → ∀ path mode, Plain mode → path.head? ≠ some slash →
      HaltsAt k (openFile path mode))
    (hlink : k < MAX_SYMLINK_DEPTH → ∀ path mode, HaltsAt (k + 1) (openFile path mode)) :
    HaltsAt k (openIn openFile dir name mode) := by
  apply HaltsAt.bind_quiet (quiet_findFileEntry dir name)
  intro inode
  cases inode with
  | none =>
    refine HaltsAt.ite (fun hcreate => ?_) (HaltsAt.pure _)
    apply HaltsAt.bind_still (still_swapCurrentDir _)
    intro oldDir
    apply (haltsAt_createFile name 0 hkeep (hroot hcreate) hlink).bind
    · exact keeps_createFile allows_level (fun _ _ h => h.level) name 0 fun path mode _ =>
        hkeep path mode
    · exact fun _ => HaltsAt.bind_still (still_swapCurrentDir _) fun _ => HaltsAt.pure _
  | some inode =>
    apply (haltsAt_openInode inode mode hkeep hlink).bind
    · exact keeps_openInode allows_level inode mode fun path => hkeep path _
    · exact fun _ => HaltsAt.bind_quiet (quiet_closeInode inode) fun _ => HaltsAt.pure _

/-- `root_dir` is opened for a path that begins with `/`, and for one of `create_file`. -/
theorem haltsAt_openBody (name : List UChar) (mode : ULong)
    (hkeep : ∀ path mode, Keeps Level (openFile path mode))
    (hroot : name.head? = some slash ∨ mode &&& F_CREATE ≠ 0 → ∀ path mode, Plain mode →
      path.head? ≠ some slash → HaltsAt k (openFile path mode))
    (hlink : k < MAX_SYMLINK_DEPTH → ∀ path mode, HaltsAt (k + 1) (openFile path mode)) :
    HaltsAt k (openBody openFile name mode) := by
  apply (haltsAt_findParent name hkeep (fun h => hroot (.inl h)) hlink).bind
  · exact keeps_findParent allows_level name fun path mode _ => hkeep path mode
  · intro (dir, name)
    cases dir with
    | none => exact HaltsAt.pure _
    | some dir =>
      cases name with
      | nil => exact HaltsAt.pure _
      | cons c name =>
        apply (haltsAt_openIn dir _ mode hkeep (fun h => hroot (.inr h)) hlink).bind
        · exact keeps_openIn allows_level (fun _ _ h => h.level) dir _ mode hkeep
        · intro file
          cases file with
          | none => exact HaltsAt.bind_quiet (quiet_closeFile dir) fun _ => HaltsAt.pure _
          | some file =>
            exact HaltsAt.bind_still (still_setMode file mode) fun _ =>
              HaltsAt.bind_quiet (quiet_closeFile dir) fun _ => HaltsAt.pure _

end Bodies

/-- How many calls of `open_file` can go inside one another where `symlink_nesting` is `k`. -/
def depthFrom (k : ℤ) : ℕ := 2 * (MAX_SYMLINK_DEPTH - k).toNat + 2

theorem haltsAt_openFile (fuel : ℕ) :
    (∀ k path mode, depthFrom k ≤ fuel → HaltsAt k (openFile fuel path mode)) ∧
    ∀ k path mode, Plain mode → path.head? ≠ some slash → depthFrom k ≤ fuel + 1 →
      HaltsAt k (openFile fuel path mode) := by
  induction fuel with
  | zero =>
    refine ⟨?_, ?_⟩ <;> intros <;> unfold depthFrom at * <;> omega
  | succ fuel ih =>
    have hlink : ∀ k, depthFrom k ≤ fuel + 2 → k < MAX_SYMLINK_DEPTH → ∀ path mode,
        HaltsAt (k + 1) (openFile fuel path mode) := by
      intro k hfuel hk path mode
      apply ih.1
      unfold depthFrom at *
      omega
    constructor
    · intro k path mode hfuel
      exact haltsAt_openBody path mode (level_openFile fuel)
        (fun _ path mode hp hs => ih.2 k path mode hp hs hfuel) (hlink k (by omega))
    · intro k path mode hp hs hfuel
      apply haltsAt_openBody path mode (level_openFile fuel) _ (hlink k hfuel)
      rintro (h | h)
      · exact absurd h hs
      · exact absurd hp.1 h

theorem haltsAt_findParent_openFile {fuel : ℕ} (h : depthFrom k ≤ fuel + 1) (name : List UChar) :
    HaltsAt k (findParent (openFile fuel) name) := by
  apply haltsAt_findParent name (level_openFile fuel)
  · exact fun _ path mode hp hs => (haltsAt_openFile fuel).2 k path mode hp hs h
  · intro hk path mode
    apply (haltsAt_openFile fuel).1
    unfold depthFrom at *
    omega

end Vmm386.Fs.Paths
