import Mathlib.Data.List.Infix
import Vmm386.Fs.PathLinks

/-!
# The buffer of `find_parent`

`find_parent` copies the name of a device, and each component of a path that it looks up, to a
buffer with room for 40 characters, whatever their lengths. A component is looked up if the ones
before it have been found, and an empty one never is.
-/

namespace Vmm386.Fs.Paths

open Programs
open FileTables (DirEntry)

/-! ## Paths that fit -/

/-- `sizeof(buf)`. -/
abbrev BUF_LEN : ℕ := 40

/-- Each component before a `/` has room in the buffer with its zero, up to the first empty one.
The first component has `n` more characters. -/
def FitsFrom : ℕ → List UChar → Prop
  | _, [] => True
  | n, c :: name =>
    if c = slash then n < BUF_LEN ∧ (n ≠ 0 → FitsFrom 0 name) else FitsFrom (n + 1) name

theorem fitsFrom_cons (n : ℕ) (c : UChar) (name : List UChar) : FitsFrom n (c :: name) =
    if c = slash then n < BUF_LEN ∧ (n ≠ 0 → FitsFrom 0 name) else FitsFrom (n + 1) name :=
  rfl

instance decidableFitsFrom : ∀ n name, Decidable (FitsFrom n name)
  | _, [] => isTrue trivial
  | n, c :: name =>
    have := decidableFitsFrom 0 name
    have := decidableFitsFrom (n + 1) name
    inferInstanceAs (Decidable
      (if c = slash then n < BUF_LEN ∧ (n ≠ 0 → FitsFrom 0 name) else FitsFrom (n + 1) name))

/-- The name of the device has room too. -/
def PathFits (path : List UChar) : Prop :=
  if path.head? = some slash then FitsFrom 0 path.tail
  else
    match strchr path colon with
    | some (dev, rest) => dev.length < BUF_LEN ∧ FitsFrom 0 rest
    | none => FitsFrom 0 path

instance (path : List UChar) : Decidable (PathFits path) := by
  unfold PathFits
  cases strchr path colon <;> infer_instance

theorem strchr_eq_some {name before after : List UChar} {c : UChar}
    (h : strchr name c = some (before, after)) : name = before ++ c :: after := by
  induction name generalizing before after with
  | nil => cases h
  | cons d name ih =>
    unfold strchr at h
    split at h
    · rename_i hd
      cases h
      rw [hd]
      rfl
    · obtain ⟨⟨b, a⟩, hba, heq⟩ := Option.map_eq_some_iff.mp h
      cases heq
      rw [ih hba]
      rfl

theorem fitsFrom_of_none {name : List UChar} (h : strchr name slash = none) (n : ℕ) :
    FitsFrom n name := by
  induction name generalizing n with
  | nil => trivial
  | cons c name ih =>
    unfold strchr at h
    unfold FitsFrom
    split at h
    · cases h
    · rename_i hc
      rw [if_neg hc]
      exact ih (Option.map_eq_none_iff.mp h) (n + 1)

theorem fitsFrom_iff_of_some {name buf rest : List UChar}
    (h : strchr name slash = some (buf, rest)) (n : ℕ) :
    FitsFrom n name ↔
      n + buf.length < BUF_LEN ∧ (n + buf.length ≠ 0 → FitsFrom 0 rest) := by
  induction name generalizing n buf with
  | nil => cases h
  | cons c name ih =>
    unfold strchr at h
    rw [fitsFrom_cons]
    split at h
    · rename_i hc
      cases h
      rw [if_pos hc, List.length_nil, Nat.add_zero]
    · rename_i hc
      obtain ⟨⟨b, a⟩, hba, heq⟩ := Option.map_eq_some_iff.mp h
      cases heq
      rw [if_neg hc, ih hba (n + 1), List.length_cons, Nat.add_right_comm n 1, Nat.add_assoc]

theorem fitsFrom_of_length {name : List UChar} {n : ℕ} (h : n + name.length ≤ BUF_LEN) :
    FitsFrom n name := by
  induction name generalizing n with
  | nil => trivial
  | cons c name ih =>
    rw [List.length_cons] at h
    unfold FitsFrom
    split
    · exact ⟨by omega, fun _ => ih (by omega)⟩
    · exact ih (by omega)

theorem pathFits_of_length {path : List UChar} (h : path.length < BUF_LEN) : PathFits path := by
  unfold PathFits
  split
  · apply fitsFrom_of_length
    rw [List.length_tail]
    omega
  · split
    · rename_i dev rest hsplit
      have hlen := congrArg List.length (strchr_eq_some hsplit)
      rw [List.length_append, List.length_cons] at hlen
      exact ⟨by omega, fitsFrom_of_length (by omega)⟩
    · exact fitsFrom_of_length (by omega)

/-! ## Name spaces that fit -/

/-- What `read_symlink` opens for a link that it has read at some time. -/
def linkText (s : NameSpace) (node : Node) (t : ℕ) : List UChar :=
  (s.content node ++ s.junk t).takeWhile (· ≠ 0)

/-- Whatever a symbolic link says fits. -/
def LinksFit (s : NameSpace) : Prop :=
  ∀ node, s.isSymlink node = true → s.content node ≠ [] → (s.content node).length < 256 →
    ∀ t, PathFits (linkText s node t)

/-- What symbolic links say fits, and so did all that has been copied. -/
structure Fine (s : NameSpace) : Prop where
  links : LinksFit s
  copies : ∀ len ∈ s.copies, len < BUF_LEN

/-- A step leaves the name space fine. -/
def StaysFine (s s' : NameSpace) : Prop := Fine s → Fine s'

instance : Std.Refl StaysFine where
  refl _ := id

instance : IsTrans NameSpace StaysFine where
  trans _ _ _ h h' hs := h' (h hs)

theorem Quiet.linksFit {s s' : NameSpace} (h : Quiet s s') (hl : LinksFit s) : LinksFit s' := by
  intro node hsym hne hlen t
  unfold NameSpace.isSymlink at hsym
  rw [h.attr] at hsym
  unfold linkText
  rw [h.junk]
  rcases h.data node with ⟨hc, -⟩ | ⟨-, hc, -⟩
  · rw [hc] at hne hlen ⊢
    exact hl node hsym hne hlen t
  · exact absurd hc hne

theorem Quiet.fine {s s' : NameSpace} (h : Quiet s s') : StaysFine s s' :=
  fun hs => ⟨h.linksFit hs.links, h.copies ▸ hs.copies⟩

theorem fine_of_quiet {α : Type} {m : Op α} (h : Sure Quiet m) : Keeps StaysFine m :=
  h.keeps.mono fun _ _ => Quiet.fine

theorem fine_copyToBuf {len : ℕ} (h : len < BUF_LEN) : Keeps StaysFine (copyToBuf len) := by
  apply Keeps.modify
  intro s hs
  refine ⟨hs.links, ?_⟩
  intro k hk
  rcases List.mem_cons.mp hk with hk | hk
  · exact hk ▸ h
  · exact hs.copies k hk

theorem fine_nested {m : Op (Option Handle)} (h : Keeps StaysFine m) :
    Keeps StaysFine (nested m) := by
  intro s dest s' hrun hs
  have ⟨s₁, h₁, heq⟩ := nested_eq_some.mp hrun
  have hF := h _ dest s₁ h₁ ⟨hs.links, hs.copies⟩
  rw [heq]
  exact ⟨hF.links, hF.copies⟩

theorem readLink_some {link : Handle} {s s' : NameSpace} {buf : List UChar}
    (h : readLink link s = some (some buf, s')) :
    s.content link.node ≠ [] ∧ ∃ t, buf = linkText s link.node t := by
  have ⟨_, _, hget, h₁⟩ := bind_eq_some.mp h
  cases hget
  split at h₁
  · cases h₁
  · have ⟨b, s₁, hfails, h₂⟩ := bind_eq_some.mp h₁
    cases b
    · rw [if_neg Bool.false_ne_true] at h₂
      split at h₂
      · cases h₂
      · rename_i hne
        cases h₂
        exact ⟨hne, s.clock, rfl⟩
    · cases h₂

/-- An empty name is not found. -/
theorem findFileEntry_name {dir : Handle} {name : List UChar} {s s' : NameSpace} {node : Node}
    (h : findFileEntry dir name s = some (some node, s')) : name.length ≠ 0 := by
  intro hlen
  have hname : name = [] := List.length_eq_zero_iff.mp hlen
  have ⟨_, _, hget, h₁⟩ := bind_eq_some.mp h
  cases hget
  split at h₁
  · have ⟨(es, all), s₁, _, h₂⟩ := bind_eq_some.mp h₁
    have hfind : (es.find? fun e => e.name ≠ [] ∧ e.name = name) = none := by
      rw [List.find?_eq_none, hname]
      simp
    dsimp only at h₂
    rw [hfind] at h₂
    cases all <;> cases h₂
  · cases h₁

/-! ## Paths that fit stay inside -/

section Bodies

variable {openFile : Opener}
variable (ho : ∀ path mode, PathFits path → Plain mode → Keeps StaysFine (openFile path mode))

include ho

theorem fine_readSymlink {link : Handle} (hp : Plain link.mode) :
    Keeps StaysFine (readSymlink openFile link) := by
  apply fine_nested
  apply Keeps.get_bind
  intro s
  have herr : ∀ e, Keeps StaysFine (do
      setErrno e
      pure none : Op (Option Handle)) :=
    fun e => (fine_of_quiet (quiet_setErrno e)).bind fun _ => Keeps.pure _
  split
  · apply Holds.bind
    apply Holds.modify
    split
    · rename_i hsym
      split
      · rename_i hlen
        -- what the link says is known to fit where the name space is fine
        intro dest s' hrun hs
        have ⟨buf, s₁, hread, hrest⟩ := bind_eq_some.mp hrun
        have hs₁ := fine_of_quiet (quiet_readLink link) _ buf s₁ hread ⟨hs.links, hs.copies⟩
        cases buf with
        | none =>
          cases hrest
          exact hs₁
        | some buf =>
          have ⟨hne, t, htext⟩ := readLink_some hread
          have hfits : PathFits buf := by
            rw [htext]
            exact hs.links link.node hsym hne hlen t
          exact ho buf link.mode hfits hp s₁ dest s' hrest hs₁
      · exact fun dest s' hrun hs => herr _ _ dest s' hrun ⟨hs.links, hs.copies⟩
    · exact fun dest s' hrun hs => herr _ _ dest s' hrun ⟨hs.links, hs.copies⟩
  · apply Holds.bind
    apply Holds.modify
    exact fun dest s' hrun hs => herr _ _ dest s' hrun ⟨hs.links, hs.copies⟩

/-- What `startDir` leaves of a path that fits has components that fit. -/
theorem fine_startDir {path : List UChar} (hpath : PathFits path) (s : NameSpace) :
    Holds (startDir openFile path) (fun r s' => StaysFine s s' ∧ FitsFrom 0 r.2) s := by
  have hquiet : ∀ {m : Op (Option Handle)} {rest : List UChar}, Sure Quiet m → FitsFrom 0 rest →
      ∀ s, Holds (m >>= fun dir => Pure.pure (dir, rest))
        (fun r s' => StaysFine s s' ∧ FitsFrom 0 r.2) s := by
    intro m rest hm hrest s
    apply Holds.bind
    intro dir s₁ hrun
    exact Holds.pure ⟨fine_of_quiet hm s dir s₁ hrun, hrest⟩
  have herr : ∀ {e : ℤ} {rest : List UChar}, FitsFrom 0 rest → ∀ s, Holds (do
      setErrno e
      Pure.pure ((none, rest) : Option Handle × List UChar))
        (fun r s' => StaysFine s s' ∧ FitsFrom 0 r.2) s := by
    intro e rest hrest s
    apply Holds.bind
    intro _ s₁ hrun
    exact Holds.pure ⟨fine_of_quiet (quiet_setErrno e) s _ s₁ hrun, hrest⟩
  unfold PathFits at hpath
  apply Holds.bind
  apply Holds.get
  split
  · rename_i hslash
    rw [if_pos hslash] at hpath
    apply Holds.bind
    intro dir s₁ hrun
    apply Holds.pure
    exact ⟨ho _ _ (pathFits_of_length s.rootDir.fits) (by decide) s dir s₁ hrun, hpath⟩
  · rename_i hslash
    rw [if_neg hslash] at hpath
    split
    · rename_i rest hsplit
      rw [hsplit] at hpath
      split
      · exact hquiet (quiet_makeFile _) hpath.2 s
      · exact herr hpath.2 s
    · rename_i buf rest _ hsplit
      rw [hsplit] at hpath
      apply Holds.bind
      intro _ s₁ hcopy
      have h₁ := fine_copyToBuf hpath.1 s _ s₁ hcopy
      have hmono : ∀ m : Op (Option Handle × List UChar),
          Holds m (fun r s' => StaysFine s₁ s' ∧ FitsFrom 0 r.2) s₁ →
          Holds m (fun r s' => StaysFine s s' ∧ FitsFrom 0 r.2) s₁ := fun m hm =>
        hm.mono fun _ s' h => ⟨IsTrans.trans s s₁ s' h₁ h.1, h.2⟩
      apply hmono
      split
      · exact herr hpath.2 s₁
      · split
        · exact hquiet (quiet_makeFile _) hpath.2 s₁
        · exact herr hpath.2 s₁
    · rename_i hsplit
      rw [hsplit] at hpath
      exact hquiet (quiet_dupFile _) hpath s

theorem fine_enterChild (child : Node) : Keeps StaysFine (enterChild openFile child) := by
  apply Keeps.get_bind
  intro s
  split
  · apply Holds.bind
    intro link s₁ hlink
    have h₁ := fine_of_quiet (quiet_makeFile child) s link s₁ hlink
    apply Holds.bind
    intro _ s₂ hclose
    have h₂ := IsTrans.trans _ _ _ h₁ (fine_of_quiet (quiet_closeInode child) s₁ _ s₂ hclose)
    cases link with
    | none => exact Holds.pure h₂
    | some link =>
      have hmode : Plain (link.mode ||| F_ALLOW_DIR) := by
        rw [(makeFile_mode hlink).1]
        decide
      have hrest : Keeps StaysFine (do
          let dir ← readSymlink openFile { link with mode := link.mode ||| F_ALLOW_DIR }
          closeFile link
          pure dir) :=
        (fine_readSymlink ho hmode).bind fun _ =>
          (fine_of_quiet (quiet_closeFile link)).bind fun _ => Keeps.pure _
      exact (hrest s₂).mono fun _ s' h => IsTrans.trans _ _ s' h₂ h
  · exact ((fine_of_quiet (quiet_makeFile child)).bind fun _ =>
      (fine_of_quiet (quiet_closeInode child)).bind fun _ => Keeps.pure _) s

theorem fine_walk (fuel : ℕ) :
    ∀ dir name, FitsFrom 0 name → Keeps StaysFine (walk openFile fuel dir name) := by
  induction fuel with
  | zero => exact fun _ _ _ => Keeps.failure
  | succ fuel ih =>
    intro dir name hname
    apply Keeps.get_bind
    intro s
    split
    · split
      · exact Holds.pure (Std.Refl.refl s)
      · rename_i buf rest hsplit
        obtain ⟨hbuf, hrest⟩ := (fitsFrom_iff_of_some hsplit 0).mp hname
        rw [Nat.zero_add] at hbuf hrest
        refine (fine_copyToBuf hbuf).bind (fun _ => ?_) s
        intro s₁
        apply Holds.bind
        intro child s₂ hfind
        have h₂ := fine_of_quiet (quiet_findFileEntry dir buf) s₁ child s₂ hfind
        have hmono : ∀ m : Op (Option Handle × List UChar), Keeps StaysFine m →
            Holds m (fun _ s' => StaysFine s₁ s') s₂ := fun m hm =>
          (hm s₂).mono fun _ s' h => IsTrans.trans _ _ s' h₂ h
        apply hmono
        apply (fine_of_quiet (quiet_closeFile dir)).bind
        intro _
        cases child with
        | none => exact Keeps.pure _
        | some child =>
          apply (fine_enterChild ho child).bind
          intro dir
          cases dir with
          | none => exact Keeps.pure _
          | some dir => exact ih dir rest (hrest (findFileEntry_name hfind))
    · exact Holds.pure (Std.Refl.refl s)

theorem fine_findParent {path : List UChar} (hpath : PathFits path) :
    Keeps StaysFine (findParent openFile path) := by
  intro s
  apply Holds.bind
  intro (dir, name) s₁ hstart
  have ⟨h₁, hname⟩ := fine_startDir ho hpath s _ s₁ hstart
  cases dir with
  | none => exact Holds.pure h₁
  | some dir =>
    exact (fine_walk ho _ dir name hname s₁).mono fun _ s' h => IsTrans.trans _ _ s' h₁ h

theorem fine_openInode (inode : Node) {mode : ULong} (hp : Plain mode) :
    Keeps StaysFine (openInode openFile inode mode) := by
  have herr : ∀ e, Keeps StaysFine (do
      setErrno e
      pure none : Op (Option Handle)) :=
    fun e => (fine_of_quiet (quiet_setErrno e)).bind fun _ => Keeps.pure _
  apply Keeps.get_bind
  intro s
  split
  · refine (fine_of_quiet (quiet_makeFile inode)).bind (fun link => ?_) s
    cases link with
    | none => exact Keeps.pure _
    | some link =>
      refine (fine_readSymlink ho ?_).bind fun _ =>
        (fine_of_quiet (quiet_closeFile link)).bind fun _ => Keeps.pure _
      exact hp.link
  · split
    · exact herr _ s
    · split
      · exact herr _ s
      · exact fine_of_quiet (quiet_makeFile inode) s

theorem fine_openBody {path : List UChar} {mode : ULong} (hpath : PathFits path)
    (hp : Plain mode) : Keeps StaysFine (openBody openFile path mode) := by
  apply (fine_findParent ho hpath).bind
  intro (dir, name)
  cases dir with
  | none => exact Keeps.pure _
  | some dir =>
    cases name with
    | nil => exact Keeps.pure _
    | cons c name =>
      have hopen : Keeps StaysFine (openIn openFile dir (c :: name) mode) := by
        apply (fine_of_quiet (quiet_findFileEntry dir _)).bind
        intro inode
        cases inode with
        | none =>
          dsimp only
          rw [if_neg (not_not.mpr hp.1)]
          exact Keeps.pure _
        | some inode =>
          exact (fine_openInode ho inode hp).bind fun _ =>
            (fine_of_quiet (quiet_closeInode inode)).bind fun _ => Keeps.pure _
      apply hopen.bind
      intro file
      cases file with
      | none => exact (fine_of_quiet (quiet_closeFile dir)).bind fun _ => Keeps.pure _
      | some file =>
        exact (fine_of_quiet (quiet_setMode file hp)).bind fun _ =>
          (fine_of_quiet (quiet_closeFile dir)).bind fun _ => Keeps.pure _

end Bodies

theorem fine_openFile (fuel : ℕ) : ∀ path mode, PathFits path → Plain mode →
    Keeps StaysFine (openFile fuel path mode) := by
  induction fuel with
  | zero => exact fun _ _ _ _ => Keeps.failure
  | succ fuel ih => exact fun path mode hpath hp => fine_openBody ih hpath hp

/-! ## Paths that do not -/

/-- The copies so far stay in the list. -/
def Grows (s s' : NameSpace) : Prop := ∀ len ∈ s.copies, len ∈ s'.copies

instance : Std.Refl Grows where
  refl _ _ := id

instance : IsTrans NameSpace Grows where
  trans _ _ _ h h' len hl := h' len (h len hl)

theorem allows_grows : Allows Grows where
  quiet _ _ h _ hl := h.copies ▸ hl
  copy _ := Keeps.modify fun _ _ => List.mem_cons_of_mem _
  activate _ _ _ := id
  refuse _ _ := id
  nested := by
    intro m hm s dest s' hrun
    have ⟨s₁, h₁, heq⟩ := nested_eq_some.mp hrun
    have hG := hm _ dest s₁ h₁
    rw [heq]
    exact hG

/-- A name space in which nothing fails, and in which every one of `names` leads from the root
directory of every device to itself. -/
structure Looped (names : List (List UChar)) (s : NameSpace) : Prop where
  faultless : ∀ t, s.faults t = none
  isDir : ∀ dev, s.attr ⟨dev, ROOT_INUM⟩ = FileTables.ATTR_DIRECTORY
  links : ∀ dev, s.nlinks ⟨dev, ROOT_INUM⟩ ≠ 0
  entries : ∀ dev, s.entries ⟨dev, ROOT_INUM⟩ = names.map fun name => ⟨name, ROOT_INUM⟩

variable {names : List (List UChar)} {s s' : NameSpace}

theorem Looped.of_quiet (h : Looped names s) (hq : Quiet s s') : Looped names s' where
  faultless t := by
    rw [hq.faults]
    exact h.faultless t
  isDir dev := by
    rw [hq.attr]
    exact h.isDir dev
  links dev := by
    rw [hq.nlinks]
    exact h.links dev
  entries dev := by
    rw [((hq.data _).of_links (h.links dev)).2.1]
    exact h.entries dev

theorem makeFile_faultless {node : Node} {file : Option Handle} (hf : ∀ t, s.faults t = none)
    (hrun : makeFile node s = some (file, s')) :
    ∃ h, file = some h ∧ h.node = node ∧ h.mode = F_READ ||| F_WRITE := by
  have ⟨b, s₁, hfails, hrun₁⟩ := bind_eq_some.mp hrun
  have ⟨hb, _⟩ := fails_faultless hf hfails
  rw [hb, if_neg Bool.false_ne_true] at hrun₁
  cases hrun₁
  exact ⟨_, rfl, rfl, rfl⟩

theorem fault_faultless {f : Option Fault} (hf : ∀ t, s.faults t = none)
    (hrun : fault s = some (f, s')) : f = none ∧ s' = { s with clock := s.clock + 1 } := by
  unfold fault at hrun
  rw [hf s.clock] at hrun
  cases hrun
  exact ⟨rfl, rfl⟩

theorem readEntries_faultless {dir : Handle} {r : List DirEntry × Bool}
    (hf : ∀ t, s.faults t = none) (hmode : dir.mode &&& F_READ ≠ 0)
    (hrun : readEntries dir s = some (r, s')) : r = (s.entries dir.node, true) := by
  have ⟨_, _, hget, hrun₁⟩ := bind_eq_some.mp hrun
  cases hget
  split at hrun₁
  · rename_i hnil
    cases hrun₁
    rw [hnil]
  · have ⟨f, s₁, hfault, hrun₂⟩ := bind_eq_some.mp hrun₁
    have ⟨hnone, _⟩ := fault_faultless hf hfault
    rw [hnone] at hrun₂
    cases hrun₂
    rfl

theorem Looped.find {name : List UChar} {dev : ℕ} {dir : Handle} {child : Option Node}
    (h : Looped names s) (hdir : dir.node = ⟨dev, ROOT_INUM⟩) (hmode : dir.mode &&& F_READ ≠ 0)
    (hname : name ∈ names) (hne : name ≠ [])
    (hrun : findFileEntry dir name s = some (child, s')) : child = some ⟨dev, ROOT_INUM⟩ := by
  have ⟨_, _, hget, hrun₁⟩ := bind_eq_some.mp hrun
  cases hget
  have hisDir : s.isDir dir.node = true := by
    unfold NameSpace.isDir
    rw [hdir, h.isDir dev]
    rfl
  rw [if_pos hisDir] at hrun₁
  have ⟨r, s₁, hread, hrun₂⟩ := bind_eq_some.mp hrun₁
  have hr := readEntries_faultless h.faultless hmode hread
  have h₁ := h.of_quiet ((quiet_readEntries dir).keeps s r s₁ hread)
  rw [hr, hdir, h.entries dev] at hrun₂
  dsimp only at hrun₂
  cases hfind : (names.map fun name => (⟨name, ROOT_INUM⟩ : DirEntry)).find?
      fun e => e.name ≠ [] ∧ e.name = name with
  | none =>
    have hall := List.find?_eq_none.mp hfind ⟨name, ROOT_INUM⟩ (List.mem_map_of_mem hname)
    exact absurd (by simp [hne]) hall
  | some e =>
    obtain ⟨n, _, he⟩ := List.mem_map.mp (List.mem_of_find?_eq_some hfind)
    rw [hfind, ← he] at hrun₂
    have ⟨b, s₂, hmake, hrun₃⟩ := bind_eq_some.mp hrun₂
    have ⟨b', s₃, hfails, hmake₁⟩ := bind_eq_some.mp hmake
    have ⟨hb, _⟩ := fails_faultless h₁.faultless hfails
    rw [hb, if_neg Bool.false_ne_true] at hmake₁
    cases hmake₁
    cases hrun₃
    rfl

theorem Looped.enter {openFile : Opener} {dev : ℕ} {dir : Option Handle} (h : Looped names s)
    (hrun : enterChild openFile ⟨dev, ROOT_INUM⟩ s = some (dir, s')) :
    Quiet s s' ∧
      ∃ d, dir = some d ∧ d.node = ⟨dev, ROOT_INUM⟩ ∧ d.mode = F_READ ||| F_WRITE := by
  have ⟨_, _, hget, hrun₁⟩ := bind_eq_some.mp hrun
  cases hget
  have hsym : ¬s.isSymlink ⟨dev, ROOT_INUM⟩ = true := by
    unfold NameSpace.isSymlink
    rw [h.isDir dev]
    decide
  rw [if_neg hsym] at hrun₁
  have ⟨file, s₁, hmake, hrun₂⟩ := bind_eq_some.mp hrun₁
  have ⟨_, s₂, hclose, hrun₃⟩ := bind_eq_some.mp hrun₂
  cases hrun₃
  have h₁ := (quiet_makeFile _).keeps s _ s₁ hmake
  have h₂ := (quiet_closeInode _).keeps s₁ _ s' hclose
  exact ⟨h₁.trans h₂, makeFile_faultless h.faultless hmake⟩

/-- Where every component is found, the loop gets to one that does not fit. -/
theorem Looped.walk_long {openFile : Opener} {dev : ℕ}
    (ho : ∀ path mode, Plain mode → Keeps Grows (openFile path mode)) (fuel : ℕ) :
    ∀ dir name s r s', Looped names s → dir.node = ⟨dev, ROOT_INUM⟩ → dir.mode &&& F_READ ≠ 0 →
      (∀ c, c ≠ [] → c <:+: name → c ∈ names) → ¬FitsFrom 0 name →
      walk openFile fuel dir name s = some (r, s') → ∃ len ∈ s'.copies, BUF_LEN ≤ len := by
  induction fuel with
  | zero =>
    intro dir name s r s' _ _ _ _ _ hrun
    cases hrun
  | succ fuel ih =>
    intro dir name s r s' hs hdir hmode hnames hlong hrun
    obtain ⟨_, _, hget, hrun₁⟩ := bind_eq_some.mp hrun
    cases hget
    have hisDir : s.isDir dir.node = true := by
      unfold NameSpace.isDir
      rw [hdir, hs.isDir dev]
      rfl
    rw [if_pos hisDir] at hrun₁
    cases hsplit : strchr name slash with
    | none => exact absurd (fitsFrom_of_none hsplit 0) hlong
    | some split =>
      obtain ⟨buf, rest⟩ := split
      have hname := strchr_eq_some hsplit
      rw [hsplit] at hrun₁
      obtain ⟨_, s₁, hcopy, hrun₂⟩ := bind_eq_some.mp hrun₁
      obtain ⟨child, s₂, hfind, hrun₃⟩ := bind_eq_some.mp hrun₂
      obtain ⟨_, s₃, hclose, hrun₄⟩ := bind_eq_some.mp hrun₃
      have hmem : buf.length ∈ s₁.copies := by
        cases hcopy
        exact List.mem_cons_self
      have hs₁ : Looped names s₁ := by
        cases hcopy
        exact ⟨hs.faultless, hs.isDir, hs.links, hs.entries⟩
      have hq₂ := (quiet_findFileEntry dir buf).keeps s₁ child s₂ hfind
      have hq₃ := (quiet_closeFile dir).keeps s₂ _ s₃ hclose
      have hmem₃ : buf.length ∈ s₃.copies := by
        rw [hq₃.copies, hq₂.copies]
        exact hmem
      rw [fitsFrom_iff_of_some hsplit 0, Nat.zero_add] at hlong
      by_cases hbuf : buf.length < BUF_LEN
      · -- the component fits, so it is one of the names, and the loop goes on
        have hcont : ¬(buf.length ≠ 0 → FitsFrom 0 rest) := fun h => hlong ⟨hbuf, h⟩
        obtain ⟨hne, hrest⟩ := Classical.not_imp.mp hcont
        have hbufne : buf ≠ [] := fun h => hne (List.length_eq_zero_iff.mpr h)
        have hinfix : buf <:+: name := ⟨[], slash :: rest, by rw [hname]; rfl⟩
        have hchild := hs₁.find hdir hmode (hnames buf hbufne hinfix) hbufne hfind
        rw [hchild] at hrun₄
        have hs₃ := (hs₁.of_quiet hq₂).of_quiet hq₃
        obtain ⟨next, s₄, henter, hrun₅⟩ := bind_eq_some.mp hrun₄
        obtain ⟨hq₄, d, hd, hnode, hdmode⟩ := hs₃.enter henter
        have hs₄ := hs₃.of_quiet hq₄
        rw [hd] at hrun₅
        refine ih d rest s₄ r s' hs₄ hnode ?_ ?_ hrest hrun₅
        · rw [hdmode]
          decide
        · intro c hc hcr
          apply hnames c hc
          have hsuffix : rest <:+: name := ⟨buf ++ [slash], [], by rw [hname]; simp⟩
          exact hcr.trans hsuffix
      · -- it has been copied, and the list only grows
        have hgrown : ∀ m : Op (Option Handle × List UChar), Keeps Grows m →
            m s₃ = some (r, s') → ∃ len ∈ s'.copies, BUF_LEN ≤ len := fun m hm hrun =>
          ⟨buf.length, hm s₃ r s' hrun _ hmem₃, Nat.le_of_not_lt hbuf⟩
        refine hgrown _ ?_ hrun₄
        cases child with
        | none => exact Keeps.pure _
        | some child =>
          apply (keeps_enterChild allows_grows child ho).bind
          intro next
          cases next with
          | none => exact Keeps.pure _
          | some next => exact keeps_walk allows_grows ho fuel next rest

/-- What can stand between two `/`. -/
def infixes (path : List UChar) : List (List UChar) := path.tails.flatMap List.inits

theorem mem_infixes {path c : List UChar} : c ∈ infixes path ↔ c <:+: path := by
  unfold infixes
  rw [List.mem_flatMap]
  constructor
  · intro ⟨t, ht, hc⟩
    exact ((List.mem_inits _ _).mp hc).isInfix.trans ((List.mem_tails _ _).mp ht).isInfix
  · intro ⟨a, b, hab⟩
    refine ⟨c ++ b, (List.mem_tails _ _).mpr ⟨a, ?_⟩, (List.mem_inits _ _).mpr ⟨b, rfl⟩⟩
    rw [← hab, List.append_assoc]

/-- One device, with the name that the path asks for, whose root directory has each component of
the path as an entry for itself. -/
def loopedSpace (path : List UChar) : NameSpace where
  attr _ := FileTables.ATTR_DIRECTORY
  nlinks _ := 1
  content _ := []
  entries _ := (infixes path).map fun name => ⟨name, ROOT_INUM⟩
  inUse _ := true
  numInodes _ := 1
  devices :=
    match strchr path colon with
    | some (dev, _) => [⟨dev, 0⟩]
    | none => []
  mounted _ := true
  rootDir := ⟨[colon], by decide, by decide⟩
  currentDir := some ⟨0, ⟨0, ROOT_INUM⟩, F_READ ||| F_WRITE⟩
  symlinkNesting := 0
  errno := 0
  useCount _ := 1
  files := [0]
  nextFile := 1
  faults _ := none
  junk _ := []
  clock := 0
  copies := []
  activations := []
  refused := 0

theorem loopedSpace_looped (path : List UChar) :
    Looped (infixes path) (loopedSpace path) where
  faultless _ := rfl
  isDir _ := rfl
  links _ := by
    change (1 : ULong) ≠ 0
    decide
  entries _ := rfl

theorem loopedSpace_linksFit (path : List UChar) : LinksFit (loopedSpace path) := by
  intro node hsym
  exact absurd hsym (by
    change ¬(FileTables.ATTR_DIRECTORY &&& ATTR_SYMLINK != 0) = true
    decide)

/-- `root_dir` of that name space leads to the root directory. -/
theorem openFile_loopedSpace {path : List UChar} {fuel : ℕ} {mode : ULong} {dir : Option Handle}
    (hrun : openFile fuel [colon] mode (loopedSpace path) = some (dir, s')) :
    Quiet (loopedSpace path) s' ∧
      ∃ d, dir = some d ∧ d.node = ⟨0, ROOT_INUM⟩ ∧ d.mode = F_READ ||| F_WRITE := by
  cases fuel with
  | zero => cases hrun
  | succ fuel =>
    have ⟨r, s₁, hparent, hrun₁⟩ := bind_eq_some.mp hrun
    have ⟨r₀, s₀, hstart, hwalk⟩ := bind_eq_some.mp hparent
    have hroot : startDir (openFile fuel) [colon] (loopedSpace path) =
        (makeFile ⟨0, ROOT_INUM⟩ >>= fun dir => pure (dir, [])) (loopedSpace path) := rfl
    rw [hroot] at hstart
    have ⟨file, s₂, hmake, hstart₁⟩ := bind_eq_some.mp hstart
    obtain ⟨d, hd, hnode, hdmode⟩ := makeFile_faultless (fun _ => rfl) hmake
    cases hstart₁
    rw [hd] at hwalk
    have ⟨_, _, hget, hwalk₁⟩ := bind_eq_some.mp hwalk
    cases hget
    have hr : r = (some d, []) := by
      split at hwalk₁ <;> cases hwalk₁ <;> rfl
    have hs : s₁ = s₀ := by
      split at hwalk₁ <;> cases hwalk₁ <;> rfl
    rw [hr, hs] at hrun₁
    cases hrun₁
    exact ⟨(quiet_makeFile _).keeps _ _ _ hmake, d, rfl, hnode, hdmode⟩

/-- A path that does not fit is copied beyond the end of the buffer there. -/
theorem findParent_long {path : List UChar} {fuel : ℕ} {r : Option Handle × List UChar}
    (hlong : ¬PathFits path)
    (hrun : findParent (openFile fuel) path (loopedSpace path) = some (r, s')) :
    ∃ len ∈ s'.copies, BUF_LEN ≤ len := by
  have hlooped := loopedSpace_looped path
  have ho := keeps_openFile allows_grows fuel
  have hread : (F_READ ||| F_WRITE) &&& F_READ ≠ 0 := by
    decide
  -- the loop begins in a root directory with a part of the path
  have hwalk : ∀ {d : Handle} {rest : List UChar} {s : NameSpace}, Looped (infixes path) s →
      d.node = ⟨0, ROOT_INUM⟩ → d.mode = F_READ ||| F_WRITE → rest <:+: path →
      ¬FitsFrom 0 rest → walk (openFile fuel) (rest.length + 1) d rest s = some (r, s') →
      ∃ len ∈ s'.copies, BUF_LEN ≤ len := by
    intro d rest s hs hnode hmode hinfix hrest
    apply Looped.walk_long ho _ d rest s r s' hs hnode (hmode ▸ hread) _ hrest
    exact fun c _ hc => mem_infixes.mpr (hc.trans hinfix)
  have ⟨(dir, rest), s₁, hstart, hrun₁⟩ := bind_eq_some.mp hrun
  have ⟨_, _, hget, hstart₁⟩ := bind_eq_some.mp hstart
  cases hget
  unfold PathFits at hlong
  by_cases hslash : path.head? = some slash
  · rw [if_pos hslash] at hlong hstart₁
    have ⟨file, s₂, hopen, hstart₂⟩ := bind_eq_some.mp hstart₁
    obtain ⟨hq, d, hd, hnode, hmode⟩ := openFile_loopedSpace hopen
    cases hstart₂
    rw [hd] at hrun₁
    exact hwalk (hlooped.of_quiet hq) hnode hmode (List.tail_suffix path).isInfix hlong hrun₁
  · rw [if_neg hslash] at hlong hstart₁
    cases hsplit : strchr path colon with
    | none =>
      rw [hsplit] at hlong hstart₁
      have ⟨file, s₂, hdup, hstart₂⟩ := bind_eq_some.mp hstart₁
      have hq := (quiet_dupFile _).keeps _ file s₂ hdup
      have ⟨new, s₃, hmake, hdup₁⟩ := bind_eq_some.mp hdup
      obtain ⟨d, hd, hnode, hmode⟩ := makeFile_faultless hlooped.faultless hmake
      rw [hd] at hdup₁
      cases hdup₁
      cases hstart₂
      exact hwalk (d := { d with mode := F_READ ||| F_WRITE }) (hlooped.of_quiet hq) hnode rfl
        (List.infix_refl path) hlong hrun₁
    | some split =>
      obtain ⟨dev, after⟩ := split
      have hpath := strchr_eq_some hsplit
      have hinfix : after <:+: path := ⟨dev ++ [colon], [], by rw [hpath]; simp⟩
      rw [hsplit] at hlong hstart₁
      cases dev with
      | nil =>
        have hrest : ¬FitsFrom 0 after := fun h => hlong ⟨by decide, h⟩
        have ⟨file, s₂, hmake, hstart₂⟩ := bind_eq_some.mp hstart₁
        have hq := (quiet_makeFile _).keeps _ file s₂ hmake
        obtain ⟨d, hd, hnode, hmode⟩ := makeFile_faultless hlooped.faultless hmake
        cases hstart₂
        rw [hd] at hrun₁
        exact hwalk (hlooped.of_quiet hq) hnode hmode hinfix hrest hrun₁
      | cons c dev =>
        have ⟨_, s₂, hcopy, hstart₂⟩ := bind_eq_some.mp hstart₁
        have hmem : (c :: dev).length ∈ s₂.copies := by
          cases hcopy
          exact List.mem_cons_self
        have hs₂ : Looped (infixes path) s₂ := by
          cases hcopy
          exact ⟨hlooped.faultless, hlooped.isDir, hlooped.links, hlooped.entries⟩
        have hdev : getDevice (c :: dev) (loopedSpace path).devices = some ⟨c :: dev, 0⟩ := by
          unfold getDevice loopedSpace
          rw [hsplit]
          simp
        rw [hdev] at hstart₂
        have ⟨file, s₃, hmake, hstart₃⟩ := bind_eq_some.mp hstart₂
        have hq := (quiet_makeFile _).keeps _ file s₃ hmake
        obtain ⟨d, hd, hnode, hmode⟩ := makeFile_faultless hs₂.faultless hmake
        cases hstart₃
        rw [hd] at hrun₁
        by_cases hbuf : (c :: dev).length < BUF_LEN
        · have hrest : ¬FitsFrom 0 rest := fun h => hlong ⟨hbuf, h⟩
          exact hwalk (hs₂.of_quiet hq) hnode hmode hinfix hrest hrun₁
        · have hgrows := keeps_walk allows_grows ho _ d _ s₁ r s' hrun₁
          exact ⟨_, hgrows _ (hq.copies ▸ hmem), Nat.le_of_not_lt hbuf⟩

/-! ## The bound -/

/-- All that `find_parent` copies for a path is inside its buffer, with the zero. -/
def StaysInBuffer (path : List UChar) (s : NameSpace) : Prop :=
  ∀ fuel r s', findParent (openFile fuel) path { s with copies := [] } = some (r, s') →
    ∀ len ∈ s'.copies, len < BUF_LEN

/-- `find_parent` stays in its buffer for a path, in every name space whose symbolic links fit, if
and only if the path fits. -/
theorem findParent_buffer_iff (path : List UChar) :
    (∀ s, LinksFit s → StaysInBuffer path s) ↔ PathFits path := by
  constructor
  · intro h
    by_contra hlong
    have hinside := h _ (loopedSpace_linksFit path)
    obtain ⟨fuel, r, s', hrun, -⟩ := (resolution_ends (loopedSpace path)).2.1 path
    have hend := hrun fuel (le_refl _)
    obtain ⟨len, hmem, hlen⟩ := findParent_long hlong hend
    exact absurd (hinside fuel r s' hend len hmem) (Nat.not_lt_of_le hlen)
  · intro hpath s hlinks fuel r s' hrun
    have hfine := fine_findParent (fine_openFile fuel) hpath _ r s' hrun
    exact (hfine ⟨hlinks, by simp⟩).copies

/-- A component of 40 characters before a `/`. -/
theorem findParent_forty : ¬∀ s, LinksFit s →
    StaysInBuffer (List.replicate 40 0x61 ++ [slash]) s := by
  intro h
  have hlinks := loopedSpace_linksFit (List.replicate 40 0x61 ++ [slash])
  have hrun : ((findParent (openFile 1) (List.replicate 40 0x61 ++ [slash])
      { loopedSpace (List.replicate 40 0x61 ++ [slash]) with copies := [] }).map
        fun r => r.2.copies) = some [40] := by
    decide +kernel
  obtain ⟨⟨r, s'⟩, hend, hcopies⟩ := Option.map_eq_some_iff.mp hrun
  have hlt := h _ hlinks 1 r s' hend 40 (hcopies ▸ List.mem_singleton.mpr rfl)
  exact absurd hlt (by decide)

end Vmm386.Fs.Paths
