import Vmm386.Fs.PathEnds

/-!
# The limit on symbolic links

Once a call of `read_symlink` is too deep, nothing is opened any more: each function that is under
way returns `NULL`, and what is left to do is to close handles. The error is that of `read_symlink`
then, unless closing a handle fails.
-/

namespace Vmm386.Fs.Paths

open Programs

/-! ## More fuel -/

section Fuel

variable {o o' : Opener} (h : ∀ path mode, Below (o path mode) (o' path mode))

include h

theorem below_readSymlink (link : Handle) : Below (readSymlink o link) (readSymlink o' link) := by
  apply (Below.refl _).bind
  intro _
  refine Below.bind ?_ fun _ => Below.refl _
  apply (Below.refl _).bind
  intro s
  refine Below.ite ?_ (Below.refl _)
  apply (Below.refl _).bind
  intro _
  refine Below.ite (Below.ite ?_ (Below.refl _)) (Below.refl _)
  apply (Below.refl _).bind
  intro buf
  cases buf with
  | none => exact Below.refl _
  | some buf => exact h buf link.mode

theorem below_startDir (name : List UChar) : Below (startDir o name) (startDir o' name) := by
  apply (Below.refl _).bind
  intro s
  exact Below.ite ((h _ _).bind fun _ => Below.refl _) (Below.refl _)

theorem below_enterChild (child : Node) : Below (enterChild o child) (enterChild o' child) := by
  apply (Below.refl _).bind
  intro s
  refine Below.ite ?_ (Below.refl _)
  apply (Below.refl _).bind
  intro link
  apply (Below.refl _).bind
  intro _
  cases link with
  | none => exact Below.refl _
  | some link => exact (below_readSymlink h _).bind fun _ => Below.refl _

theorem below_walk (fuel : ℕ) : ∀ dir name, Below (walk o fuel dir name) (walk o' fuel dir name) := by
  induction fuel with
  | zero => exact fun _ _ => Below.refl _
  | succ fuel ih =>
    intro dir name
    apply (Below.refl _).bind
    intro s
    refine Below.ite ?_ (Below.refl _)
    cases strchr name slash with
    | none => exact Below.refl _
    | some split =>
      apply (Below.refl _).bind
      intro _
      apply (Below.refl _).bind
      intro child
      apply (Below.refl _).bind
      intro _
      cases child with
      | none => exact Below.refl _
      | some child =>
        apply (below_enterChild h child).bind
        intro dir
        cases dir with
        | none => exact Below.refl _
        | some dir => exact ih dir _

theorem below_findParent (name : List UChar) : Below (findParent o name) (findParent o' name) := by
  apply (below_startDir h name).bind
  intro (dir, name)
  cases dir with
  | none => exact Below.refl _
  | some dir => exact below_walk h _ dir name

theorem below_createFile (name : List UChar) (attr : ULong) :
    Below (createFile o name attr) (createFile o' name attr) :=
  (below_findParent h name).bind fun _ => Below.refl _

theorem below_openInode (inode : Node) (mode : ULong) :
    Below (openInode o inode mode) (openInode o' inode mode) := by
  apply (Below.refl _).bind
  intro s
  refine Below.ite ?_ (Below.refl _)
  apply (Below.refl _).bind
  intro link
  cases link with
  | none => exact Below.refl _
  | some link => exact (below_readSymlink h _).bind fun _ => Below.refl _

theorem below_openIn (dir : Handle) (name : List UChar) (mode : ULong) :
    Below (openIn o dir name mode) (openIn o' dir name mode) := by
  apply (Below.refl _).bind
  intro inode
  cases inode with
  | none =>
    refine Below.ite ?_ (Below.refl _)
    apply (Below.refl _).bind
    intro oldDir
    exact (below_createFile h name 0).bind fun _ => Below.refl _
  | some inode => exact (below_openInode h inode mode).bind fun _ => Below.refl _

theorem below_openBody (name : List UChar) (mode : ULong) :
    Below (openBody o name mode) (openBody o' name mode) := by
  apply (below_findParent h name).bind
  intro (dir, name)
  cases dir with
  | none => exact Below.refl _
  | some dir =>
    cases name with
    | nil => exact Below.refl _
    | cons c name => exact (below_openIn h dir _ mode).bind fun _ => Below.refl _

end Fuel

theorem below_openFile_succ (fuel : ℕ) :
    ∀ path mode, Below (openFile fuel path mode) (openFile (fuel + 1) path mode) := by
  induction fuel with
  | zero => exact fun _ _ => Below.failure _
  | succ fuel ih => exact below_openBody ih

theorem below_openFile {fuel fuel' : ℕ} (h : fuel ≤ fuel') (path : List UChar) (mode : ULong) :
    Below (openFile fuel path mode) (openFile fuel' path mode) := by
  induction h with
  | refl => exact Below.refl _
  | step _ ih => exact ih.trans (below_openFile_succ _ path mode)

/-! ## What a refusal leaves -/

/-- No device and no pool fails, and the current directory is one. -/
structure Sound (s : NameSpace) : Prop where
  faultless : ∀ t, s.faults t = none
  cwd : ∀ dir, s.currentDir = some dir → s.isDir dir.node = true

/-- The attributes, the current directory and the faults to come. -/
structure Same (s s' : NameSpace) : Prop where
  attr : s'.attr = s.attr
  currentDir : s'.currentDir = s.currentDir
  faults : s'.faults = s.faults

instance : Std.Refl Same where
  refl _ := ⟨rfl, rfl, rfl⟩

instance : IsTrans NameSpace Same where
  trans _ _ _ h h' := ⟨h'.attr.trans h.attr, h'.currentDir.trans h.currentDir,
    h'.faults.trans h.faults⟩

theorem Quiet.same {s s' : NameSpace} (h : Quiet s s') : Same s s' :=
  ⟨h.attr, h.currentDir, h.faults⟩

theorem allows_same : Allows Same where
  quiet _ _ h := h.same
  copy _ := Keeps.modify fun _ => ⟨rfl, rfl, rfl⟩
  activate _ _ := ⟨rfl, rfl, rfl⟩
  refuse _ := ⟨rfl, rfl, rfl⟩
  nested := by
    intro m hm s dest s' hrun
    have ⟨s₁, h₁, heq⟩ := nested_eq_some.mp hrun
    have hS := hm _ dest s₁ h₁
    rw [heq]
    exact ⟨hS.attr, hS.currentDir, hS.faults⟩

theorem Sound.of_same {s s' : NameSpace} (h : Sound s) (hs : Same s s') : Sound s' where
  faultless t := by
    rw [hs.faults]
    exact h.faultless t
  cwd dir hdir := by
    unfold NameSpace.isDir
    rw [hs.attr]
    exact h.cwd dir (hs.currentDir ▸ hdir)

/-- Without a fault the error stays. -/
def Mute (s s' : NameSpace) : Prop :=
  (∀ t, s.faults t = none) → s'.errno = s.errno ∧ ∀ t, s'.faults t = none

instance : Std.Refl Mute where
  refl _ hf := ⟨rfl, hf⟩

instance : IsTrans NameSpace Mute where
  trans _ _ _ h h' hf := ⟨(h' (h hf).2).1.trans (h hf).1, (h' (h hf).2).2⟩

theorem mute_fails : Keeps Mute fails := by
  apply Keeps.bind _ fun _ => Keeps.pure _
  intro s f s' hrun hf
  unfold fault at hrun
  rw [hf s.clock] at hrun
  cases hrun
  exact ⟨rfl, hf⟩

theorem mute_closeInode (node : Node) : Keeps Mute (closeInode node) := by
  refine Keeps.bind (mute_fails.bind fun _ => Keeps.pure _) fun _ => ?_
  refine Keeps.bind (Keeps.modify fun _ hf => ⟨rfl, hf⟩) fun _ => ?_
  apply Keeps.get_bind
  intro s
  refine Keeps.ite ?_ (Keeps.pure _) s
  exact mute_fails.bind fun _ => (Keeps.pure _).ite (Keeps.modify fun _ hf => ⟨rfl, hf⟩)

theorem mute_closeFile (file : Handle) : Keeps Mute (closeFile file) :=
  mute_fails.bind fun _ => (mute_closeInode file.node).bind fun _ =>
    Keeps.modify fun _ hf => ⟨rfl, hf⟩

variable {α β : Type} {F : α → Prop} {G : β → Prop}

/-- If `read_symlink` refuses a link, the result is one of those that say so, and the error too. -/
def Reports (F : α → Prop) (m : Op α) : Prop :=
  ∀ s, Holds m (fun a s' => s'.refused = s.refused ∨
    (F a ∧ (Sound s → s'.errno = E_MAXLINKS))) s

/-- What comes after a refusal. -/
def Passes (G : β → Prop) (m : Op β) : Prop := ∀ s, Holds m (fun b s' => G b ∧ Mute s s') s

theorem Passes.pure {b : β} (h : G b) : Passes G (Pure.pure b) :=
  fun s => Holds.pure ⟨h, Std.Refl.refl s⟩

theorem Passes.bind_mute {m : Op α} {f : α → Op β} (hm : Keeps Mute m) (hf : ∀ a, Passes G (f a)) :
    Passes G (m >>= f) := by
  intro s
  apply Holds.bind
  intro a s' hrun b s'' hrun'
  have ⟨hb, hmute⟩ := hf a s' b s'' hrun'
  exact ⟨hb, IsTrans.trans s s' s'' (hm s a s' hrun) hmute⟩

theorem Reports.of_still {m : Op α} (h : Keeps Still m) : Reports F m :=
  fun s a s' hrun => .inl (h s a s' hrun).refused

theorem Reports.pure (a : α) : Reports F (Pure.pure a) :=
  fun _ => Holds.pure (.inl rfl)

theorem Reports.ite {c : Prop} [Decidable c] {m m' : Op α} (hm : Reports F m)
    (hm' : Reports F m') : Reports F (if c then m else m') := by
  split
  · exact hm
  · exact hm'

theorem Reports.bind {m : Op α} {f : α → Op β} (hm : Reports F m) (hsame : Keeps Same m)
    (hf : ∀ a, Reports G (f a)) (hpass : ∀ a, F a → Passes G (f a)) : Reports G (m >>= f) := by
  intro s
  apply Holds.bind
  intro a s' hrun b s'' hrun'
  have hS := hsame s a s' hrun
  rcases hm s a s' hrun with hr | ⟨ha, herr⟩
  · rcases hf a s' b s'' hrun' with hr' | ⟨hb, herr⟩
    · exact .inl (hr'.trans hr)
    · exact .inr ⟨hb, fun hs => herr (hs.of_same hS)⟩
  · have ⟨hb, hmute⟩ := hpass a ha s' b s'' hrun'
    refine .inr ⟨hb, fun hs => ?_⟩
    rw [(hmute (hs.of_same hS).faultless).1]
    exact herr hs

/-- The faults to come stay as they are. -/
def Fated (s s' : NameSpace) : Prop := s'.faults = s.faults

instance : Std.Refl Fated where
  refl _ := rfl

instance : IsTrans NameSpace Fated where
  trans _ _ _ h h' := Eq.trans h' h

theorem allows_fated : Allows Fated where
  quiet _ _ h := h.faults
  copy _ := Keeps.modify fun _ => rfl
  activate _ _ := rfl
  refuse _ := rfl
  nested := by
    intro m hm s dest s' hrun
    have ⟨s₁, h₁, heq⟩ := nested_eq_some.mp hrun
    have hF := hm _ dest s₁ h₁
    rw [heq]
    exact hF

/-- What comes after `m` refuses no link. -/
theorem Reports.bind_still {m : Op α} {f : α → Op β} (hm : Reports F m) (hfated : Keeps Fated m)
    (hf : ∀ a, Sure Still (f a)) (hpass : ∀ a, F a → Passes G (f a)) : Reports G (m >>= f) := by
  intro s
  apply Holds.bind
  intro a s' hrun b s'' hrun'
  rcases hm s a s' hrun with hr | ⟨ha, herr⟩
  · exact .inl (((hf a).keeps s' b s'' hrun').refused.trans hr)
  · have ⟨hb, hmute⟩ := hpass a ha s' b s'' hrun'
    refine .inr ⟨hb, fun hs => ?_⟩
    have hfaults : ∀ t, s'.faults t = none := by
      intro t
      rw [hfated s a s' hrun]
      exact hs.faultless t
    rw [(hmute hfaults).1]
    exact herr hs

/-- `m` refuses no link. -/
theorem Reports.bind_of {m : Op α} {f : α → Op β}
    (hm : ∀ s, Holds m (fun a s' => (s'.refused = s.refused ∧ Same s s') ∧ F a) s)
    (hf : ∀ a, F a → Reports G (f a)) : Reports G (m >>= f) := by
  intro s
  apply Holds.bind
  intro a s' hrun b s'' hrun'
  have ⟨⟨hr, hS⟩, ha⟩ := hm s a s' hrun
  rcases hf a ha s' b s'' hrun' with hr' | ⟨hb, herr⟩
  · exact .inl (hr'.trans hr)
  · exact .inr ⟨hb, fun hs => herr (hs.of_same hS)⟩

theorem Reports.bind_quiet {m : Op α} {f : α → Op β} (hm : Sure Quiet m)
    (hf : ∀ a, Reports G (f a)) : Reports G (m >>= f) := by
  refine Reports.bind_of (fun s => ?_) (fun a (_ : True) => hf a)
  exact (hm.keeps s).mono fun _ s' hq => ⟨⟨hq.refused, hq.same⟩, trivial⟩

theorem Reports.bind_modify {g : NameSpace → NameSpace} {f : Unit → Op β}
    (hg : ∀ s, (g s).refused = s.refused ∧ Same s (g s)) (hf : ∀ a, Reports G (f a)) :
    Reports G (modify g >>= f) :=
  Reports.bind_of (fun s => Holds.modify ⟨hg s, trivial⟩) (fun a (_ : True) => hf a)

theorem Reports.bind_copy (len : ℕ) {f : Unit → Op β} (hf : ∀ a, Reports G (f a)) :
    Reports G (copyToBuf len >>= f) :=
  Reports.bind_modify (fun _ => ⟨rfl, rfl, rfl, rfl⟩) hf

theorem Reports.get_bind {f : NameSpace → Op β}
    (h : ∀ s, Holds (f s) (fun b s' => s'.refused = s.refused ∨
      (G b ∧ (Sound s → s'.errno = E_MAXLINKS))) s) : Reports G (MonadState.get >>= f) :=
  fun s => Holds.bind (Holds.get (h s))

theorem reports_setErrno (e : ℤ) (b : β) : Reports G (do
    setErrno e
    Pure.pure b) :=
  Reports.bind_quiet (quiet_setErrno e) fun _ => Reports.pure b

section Bodies

variable {openFile : Opener} (hsame : ∀ path mode, Plain mode → Keeps Same (openFile path mode))
variable (ho : ∀ path mode, Reports (· = none) (openFile path mode))

include ho

theorem reports_readSymlink (link : Handle) :
    Reports (· = none) (readSymlink openFile link) := by
  have hopen : Reports (· = none) (openLink openFile link) := by
    apply Reports.bind_quiet (quiet_readLink link)
    intro buf
    cases buf with
    | none => exact Reports.pure _
    | some buf => exact ho buf link.mode
  intro s dest s' hrun
  have ⟨s₁, h₁, heq⟩ := nested_eq_some.mp hrun
  rw [heq]
  have hbody := Reports.get_bind (G := fun dest : Option Handle => dest = none)
    (fun s => ?_) _ dest s₁ h₁
  · exact hbody.imp id fun h => ⟨h.1, fun hs => h.2 ⟨hs.1, hs.2⟩⟩
  split
  · apply Holds.bind
    apply Holds.modify
    have hrest := Reports.ite (c := s.isSymlink link.node) (Reports.ite
      (c := (s.content link.node).length < 256) hopen (reports_setErrno E_NOMEM none))
      (reports_setErrno E_NOTLINK none)
    exact (hrest _).mono fun _ s' h => h.imp id fun h => ⟨h.1, fun hs => h.2 ⟨hs.1, hs.2⟩⟩
  · intro dest s' hrun
    cases hrun
    exact .inr ⟨rfl, fun _ => rfl⟩

include hsame

theorem reports_startDir (name : List UChar) :
    Reports (·.1 = none) (startDir openFile name) := by
  have hquiet : ∀ {m : Op (Option Handle)} {rest : List UChar}, Sure Quiet m →
      Reports (·.1 = none) (m >>= fun dir => Pure.pure (dir, rest)) :=
    fun hm => Reports.bind_quiet hm fun _ => Reports.pure _
  apply Reports.get_bind
  intro s
  split
  · refine (ho s.rootDir.path _).bind (hsame _ _ (by decide)) (fun _ => Reports.pure _) ?_ s
    exact fun dir hdir => Passes.pure hdir
  · split
    · split
      · exact hquiet (quiet_makeFile _) s
      · exact reports_setErrno _ _ s
    · refine Reports.bind_copy _ (fun _ => ?_) s
      split
      · exact reports_setErrno _ _
      · exact Reports.ite (hquiet (quiet_makeFile _)) (reports_setErrno _ _)
    · exact hquiet (quiet_dupFile _) s

theorem reports_enterChild (child : Node) :
    Reports (· = none) (enterChild openFile child) := by
  apply Reports.get_bind
  intro s
  split
  · refine Reports.bind_of (F := fun link : Option Handle => ∀ file, link = some file →
      file.mode = F_READ ||| F_WRITE) (fun s link s' hrun => ?_) (fun link hmode => ?_) s
    · have hq := (quiet_makeFile child).keeps s link s' hrun
      refine ⟨⟨hq.refused, hq.same⟩, ?_⟩
      intro file hfile
      exact (makeFile_mode (hfile ▸ hrun)).1
    · apply Reports.bind_quiet (quiet_closeInode child)
      intro _
      cases link with
      | none => exact Reports.pure _
      | some link =>
        have hplain : Plain (link.mode ||| F_ALLOW_DIR) := by
          rw [hmode link rfl]
          decide
        apply (reports_readSymlink ho _).bind
        · exact keeps_readSymlink allows_same fun path => hsame path _ hplain
        · exact fun dir => Reports.bind_quiet (quiet_closeFile link) fun _ => Reports.pure _
        · exact fun dir hdir =>
            Passes.bind_mute (mute_closeFile link) fun _ => Passes.pure hdir
  · exact Reports.bind_quiet (quiet_makeFile child) (fun _ =>
      Reports.bind_quiet (quiet_closeInode child) fun _ => Reports.pure _) s

theorem reports_walk (fuel : ℕ) :
    ∀ dir name, Reports (·.1 = none) (walk openFile fuel dir name) := by
  induction fuel with
  | zero => exact fun _ _ _ => Holds.failure
  | succ fuel ih =>
    intro dir name
    apply Reports.get_bind
    intro s
    split
    · split
      · exact Reports.pure _ s
      · refine Reports.bind_copy _ (fun _ => ?_) s
        apply Reports.bind_quiet (quiet_findFileEntry dir _)
        intro child
        apply Reports.bind_quiet (quiet_closeFile dir)
        intro _
        cases child with
        | none => exact Reports.pure _
        | some child =>
          apply (reports_enterChild hsame ho child).bind
          · exact keeps_enterChild allows_same child hsame
          · intro dir
            cases dir with
            | none => exact Reports.pure _
            | some dir => exact ih dir _
          · intro dir hdir
            cases hdir
            exact Passes.pure rfl
    · exact Reports.pure _ s

theorem reports_findParent (name : List UChar) :
    Reports (·.1 = none) (findParent openFile name) := by
  apply (reports_startDir hsame ho name).bind
  · exact keeps_startDir allows_same name hsame
  · intro (dir, name)
    cases dir with
    | none => exact Reports.pure _
    | some dir => exact reports_walk hsame ho _ dir name
  · intro (dir, name) hdir
    cases hdir
    exact Passes.pure rfl

theorem reports_createFile (name : List UChar) (attr : ULong) :
    Reports (· = none) (createFile openFile name attr) := by
  apply (reports_findParent hsame ho name).bind
  · exact keeps_findParent allows_same name hsame
  · intro (dir, name)
    cases dir with
    | none => exact Reports.pure _
    | some dir =>
      cases name with
      | nil => exact Reports.bind_quiet (quiet_closeFile dir) fun _ => Reports.pure _
      | cons c name =>
        apply Reports.of_still
        exact ((still_createIn dir _ attr).bind fun _ =>
          (still_of_quiet (quiet_closeFile dir)).bind fun _ => Sure.pure _).keeps
  · intro (dir, name) hdir
    cases hdir
    exact Passes.pure rfl

/-- Where `create_file` meets a refusal, it has changed nothing. -/
theorem createFile_refused {name : List UChar} {attr : ULong} {s s' : NameSpace}
    {file : Option Handle} (hrun : createFile openFile name attr s = some (file, s')) :
    s'.refused = s.refused ∨
      (file = none ∧ Same s s' ∧ (Sound s → s'.errno = E_MAXLINKS)) := by
  have ⟨(dir, rest), s₁, h₁, hrest⟩ := bind_eq_some.mp hrun
  have hS := keeps_findParent allows_same name hsame s _ s₁ h₁
  rcases reports_findParent hsame ho name s _ s₁ h₁ with hr | ⟨hdir, herr⟩
  · left
    have hstill : Still s₁ s' := by
      cases dir with
      | none =>
        cases hrest
        exact Std.Refl.refl _
      | some dir =>
        cases rest with
        | nil =>
          exact ((still_of_quiet (quiet_closeFile dir)).bind fun _ =>
            Sure.pure _).keeps s₁ file s' hrest
        | cons c name =>
          exact ((still_createIn dir _ attr).bind fun _ =>
            (still_of_quiet (quiet_closeFile dir)).bind fun _ => Sure.pure _).keeps s₁ file s' hrest
    exact hstill.refused.trans hr
  · cases hdir
    cases hrest
    exact .inr ⟨rfl, hS, herr⟩

end Bodies

/-! ## The current directory of `create_file` -/

theorem fails_faultless {s s' : NameSpace} {b : Bool} (hf : ∀ t, s.faults t = none)
    (hrun : fails s = some (b, s')) : b = false ∧ s' = { s with clock := s.clock + 1 } := by
  have ⟨f, s₁, h₁, hrest⟩ := bind_eq_some.mp hrun
  unfold fault at h₁
  rw [hf s.clock] at h₁
  cases h₁
  cases hrest
  exact ⟨rfl, rfl⟩

/-- The directory that it was can be the current directory again. -/
theorem swapCurrentDir_sound {dir : Handle} {s s' : NameSpace} {old : Option Handle}
    (hs : Sound s) (hrun : swapCurrentDir (some dir) s = some (old, s')) :
    Sound s' ∧ ∀ d, old = some d → s'.isDir d.node = true := by
  have ⟨_, _, hget, hrun₁⟩ := bind_eq_some.mp hrun
  cases hget
  have ⟨b, s₁, hfails, hrun₂⟩ := bind_eq_some.mp hrun₁
  have ⟨hb, heq⟩ := fails_faultless hs.faultless hfails
  rw [hb, heq] at hrun₂
  have ⟨_, _, hget₂, hrun₃⟩ := bind_eq_some.mp hrun₂
  cases hget₂
  split at hrun₃
  · rename_i hdir
    cases hrun₃
    refine ⟨⟨hs.faultless, ?_⟩, hs.cwd⟩
    intro d hd
    cases hd
    exact hdir
  · cases hrun₃
    exact ⟨⟨hs.faultless, hs.cwd⟩, fun d hd => by cases hd⟩

theorem swapCurrentDir_errno {old : Option Handle} {s s' : NameSpace} {tmp : Option Handle}
    (hf : ∀ t, s.faults t = none) (hold : ∀ d, old = some d → s.isDir d.node = true)
    (hrun : swapCurrentDir old s = some (tmp, s')) : s'.errno = s.errno := by
  have ⟨_, _, hget, hrun₁⟩ := bind_eq_some.mp hrun
  cases hget
  cases old with
  | none =>
    cases hrun₁
    rfl
  | some d =>
    have ⟨b, s₁, hfails, hrun₂⟩ := bind_eq_some.mp hrun₁
    have ⟨hb, heq⟩ := fails_faultless hf hfails
    rw [hb, heq] at hrun₂
    have ⟨_, _, hget₂, hrun₃⟩ := bind_eq_some.mp hrun₂
    cases hget₂
    have hdir : ({ s with clock := s.clock + 1 } : NameSpace).isDir d.node = true := hold d rfl
    rw [if_pos hdir] at hrun₃
    cases hrun₃
    rfl

/-! ## `open_file` -/

section Opening

variable {openFile : Opener} (hsame : ∀ path mode, Plain mode → Keeps Same (openFile path mode))
variable (hfated : ∀ path mode, Keeps Fated (openFile path mode))
variable (ho : ∀ path mode, Reports (· = none) (openFile path mode))

include ho hfated

theorem reports_openInode (inode : Node) (mode : ULong) :
    Reports (· = none) (openInode openFile inode mode) := by
  apply Reports.get_bind
  intro s
  split
  · refine Reports.bind_quiet (quiet_makeFile inode) (fun link => ?_) s
    cases link with
    | none => exact Reports.pure _
    | some link =>
      apply (reports_readSymlink ho _).bind_still
      · exact keeps_readSymlink allows_fated fun path => hfated path _
      · exact fun _ => (still_of_quiet (quiet_closeFile link)).bind fun _ => Sure.pure _
      · exact fun file hfile => Passes.bind_mute (mute_closeFile link) fun _ => Passes.pure hfile
  · split
    · exact reports_setErrno _ _ s
    · split
      · exact reports_setErrno _ _ s
      · exact Reports.of_still (still_of_quiet (quiet_makeFile inode)).keeps s

include hsame

theorem reports_openIn (dir : Handle) (name : List UChar) (mode : ULong) :
    Reports (· = none) (openIn openFile dir name mode) := by
  apply Reports.bind_quiet (quiet_findFileEntry dir name)
  intro inode
  cases inode with
  | some inode =>
    apply (reports_openInode hfated ho inode mode).bind_still
    · exact keeps_openInode allows_fated inode mode fun path => hfated path _
    · exact fun _ => (still_of_quiet (quiet_closeInode inode)).bind fun _ => Sure.pure _
    · exact fun file hfile => Passes.bind_mute (mute_closeInode inode) fun _ => Passes.pure hfile
  | none =>
    refine Reports.ite ?_ (Reports.pure _)
    intro s file s' hrun
    have ⟨old, s₁, hswap, hrun₁⟩ := bind_eq_some.mp hrun
    have ⟨created, s₂, hcreate, hrun₂⟩ := bind_eq_some.mp hrun₁
    have ⟨tmp, s₃, hback, hrun₃⟩ := bind_eq_some.mp hrun₂
    cases hrun₃
    have hr₁ := ((still_swapCurrentDir _).keeps s old s₁ hswap).refused
    have hr₃ := ((still_swapCurrentDir _).keeps s₂ tmp s' hback).refused
    rcases createFile_refused hsame ho hcreate with hr₂ | ⟨hnone, hS, herr⟩
    · exact .inl (hr₃.trans (hr₂.trans hr₁))
    · refine .inr ⟨hnone, fun hs => ?_⟩
      have ⟨hs₁, hold⟩ := swapCurrentDir_sound hs hswap
      have hdir : ∀ d, old = some d → s₂.isDir d.node = true := by
        intro d hd
        unfold NameSpace.isDir
        rw [hS.attr]
        exact hold d hd
      rw [swapCurrentDir_errno (hs₁.of_same hS).faultless hdir hback]
      exact herr hs₁

theorem reports_openBody (name : List UChar) (mode : ULong) :
    Reports (· = none) (openBody openFile name mode) := by
  apply (reports_findParent hsame ho name).bind
  · exact keeps_findParent allows_same name hsame
  · intro (dir, name)
    cases dir with
    | none => exact Reports.pure _
    | some dir =>
      cases name with
      | nil => exact Reports.pure _
      | cons c name =>
        apply (reports_openIn hsame hfated ho dir _ mode).bind_still
        · exact keeps_openIn allows_fated (fun _ _ h => h.faults) dir _ mode hfated
        · intro file
          cases file with
          | none => exact (still_of_quiet (quiet_closeFile dir)).bind fun _ => Sure.pure _
          | some file =>
            exact (still_setMode file mode).bind fun _ =>
              (still_of_quiet (quiet_closeFile dir)).bind fun _ => Sure.pure _
        · intro file hfile
          cases hfile
          exact Passes.bind_mute (mute_closeFile dir) fun _ => Passes.pure rfl
  · intro (dir, name) hdir
    cases hdir
    exact Passes.pure rfl

end Opening

theorem reports_openFile (fuel : ℕ) :
    ∀ path mode, Reports (· = none) (openFile fuel path mode) := by
  induction fuel with
  | zero => exact fun _ _ _ => Holds.failure
  | succ fuel ih =>
    exact reports_openBody (keeps_openFile allows_same fuel)
      (keeps_openFile_any allows_fated (fun _ _ h => h.faults) fuel) ih

/-! ## Ends, and the limit -/

/-- With enough fuel, `run` comes to one end from `s`. There `symlink_nesting` is back; no call of
`read_symlink` has gone on above the limit; and if one has been refused, then the result says so,
and so does the error. -/
def Resolves {α : Type} (run : ℕ → Op α) (failed : α → Prop) (s : NameSpace) : Prop :=
  ∃ fuel r s', (∀ n ≥ fuel, run n s = some (r, s')) ∧
    s'.symlinkNesting = s.symlinkNesting ∧
    (∃ new, s'.activations = new ++ s.activations ∧ ∀ k ∈ new, k ≤ MAX_SYMLINK_DEPTH) ∧
    (s'.refused = s.refused ∨ (failed r ∧ (Sound s → s'.errno = E_MAXLINKS)))

theorem resolves_of {α : Type} {run : ℕ → Op α} {failed : α → Prop} {s : NameSpace} (fuel : ℕ)
    (hhalt : Halts (run fuel) s) (hmono : ∀ n ≥ fuel, Below (run fuel) (run n))
    (hlevel : Keeps Level (run fuel)) (hreport : Reports failed (run fuel)) :
    Resolves run failed s := by
  obtain ⟨⟨r, s'⟩, hrun⟩ := hhalt
  have hL := hlevel s r s' hrun
  exact ⟨fuel, r, s', fun n hn => hmono n hn s _ hrun, hL.nesting, hL.activations,
    hreport s r s' hrun⟩

/-- The call of `read_symlink` that is too deep fails with `E_MAXLINKS`. -/
theorem readSymlink_refused (openFile : Opener) (link : Handle) {s : NameSpace}
    (h : MAX_SYMLINK_DEPTH ≤ s.symlinkNesting) :
    readSymlink openFile link s =
      some (none, { s with errno := E_MAXLINKS, refused := s.refused + 1 }) := by
  apply nested_eq_some.mpr
  have hdeep : ¬s.symlinkNesting + 1 ≤ MAX_SYMLINK_DEPTH := by
    omega
  let up : NameSpace := { s with symlinkNesting := s.symlinkNesting + 1 }
  refine ⟨{ up with errno := E_MAXLINKS, refused := s.refused + 1 }, ?_, ?_⟩
  · rw [bind_eq (get_eq _), if_neg hdeep]
    rfl
  · simp [up]

/-- Path resolution ends in every name space: `open_file`, `find_parent`, and what `read_symlink`
does once it is too deep. -/
theorem resolution_ends (s : NameSpace) :
    (∀ path mode, Resolves (fun n => openFile n path mode) (· = none) s) ∧
    (∀ path, Resolves (fun n => findParent (openFile n) path) (·.1 = none) s) ∧
    ∀ fuel link, MAX_SYMLINK_DEPTH ≤ s.symlinkNesting → readSymlink (openFile fuel) link s =
      some (none, { s with errno := E_MAXLINKS, refused := s.refused + 1 }) := by
  refine ⟨fun path mode => ?_, fun path => ?_, fun fuel link => readSymlink_refused _ link⟩
  · apply resolves_of (depthFrom s.symlinkNesting)
    · exact (haltsAt_openFile _).1 _ path mode (le_refl _) s rfl
    · exact fun n hn => below_openFile hn path mode
    · exact level_openFile _ path mode
    · exact reports_openFile _ path mode
  · apply resolves_of (depthFrom s.symlinkNesting)
    · exact haltsAt_findParent_openFile (Nat.le_succ _) path s rfl
    · exact fun n hn => below_findParent (fun path mode => below_openFile hn path mode) path
    · exact keeps_findParent allows_level path fun path mode _ => level_openFile _ path mode
    · exact reports_findParent (keeps_openFile allows_same _) (reports_openFile _) path

end Vmm386.Fs.Paths
