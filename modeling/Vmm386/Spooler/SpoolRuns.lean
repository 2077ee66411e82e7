import Vmm386.Spooler.SpoolTheorems

/-!
# The spool files of the queue and of the handles
-/

namespace Vmm386.SpoolerModule

open Runs

/-! ## Spool files -/

namespace Spooler

variable (s : Spooler)

/-- The spool file of an open handle. -/
def handleInode (h : Fin MAX_SPOOL_HANDLES) : Option ℕ :=
  (s.handles h).fp.map fun f => (s.fs.file f).inode

/-- Each queued job's spool file contains what its source contained. -/
def JobsIntact : Prop :=
  ∀ e ∈ s.spoolList, ∃ i, s.fs.inode e.spoolName = some i ∧ s.fs.data i = e.source

/-- No two queued jobs or open handles share a spool file. -/
structure Unshared : Prop where
  jobs : s.spoolList.Pairwise fun e e' => s.fs.inode e.spoolName ≠ s.fs.inode e'.spoolName
  job_handle : ∀ e ∈ s.spoolList, ∀ h, (s.handles h).used = true →
    s.fs.inode e.spoolName ≠ s.handleInode h
  handles : ∀ h h', (s.handles h).used = true → (s.handles h').used = true →
    s.handleInode h = s.handleInode h' → h = h'

/-- Each file that has been opened has been closed once, or it is the file of an open handle
and has not been closed. -/
def ClosedOnce : Prop :=
  ∀ f < s.fs.nextFile, (s.fs.file f).closes =
    if ∃ h, (s.handles h).used = true ∧ (s.handles h).fp = some f then 0 else 1

/-- A file is used by a queued job or by an open handle. -/
def InUse (i : ℕ) : Prop :=
  (∃ e ∈ s.spoolList, s.fs.inode e.spoolName = some i) ∨
    ∃ h, (s.handles h).used = true ∧ s.handleInode h = some i

/-- A name that has just been made is not the name of a spool file in use. -/
def FreshName (name : CString) : Prop := ∀ i, s.fs.inode name = some i → ¬s.InUse i

/-- If a call of `add_spool_file` comes to empty its spool file, that is neither in use nor the
source of the call. -/
def AddSafe (fname : CString) (a : AddAnswers) : Prop :=
  Reaches s.fs fname a →
    s.FreshName a.spoolName ∧ s.fs.inode fname ≠ s.fs.inode a.spoolName

/-- A handle that is closed is open, or it has no file structure and its name is of no file. -/
def CloseSafe (h : Fin MAX_SPOOL_HANDLES) : Prop :=
  (s.handles h).used = true ∨
    ((s.handles h).fp = none ∧ s.fs.inode (s.handles h).fname = none)

instance (i : ℕ) : Decidable (s.InUse i) := inferInstanceAs (Decidable (_ ∨ _))

instance (name : CString) : Decidable (s.FreshName name) :=
  match h : s.fs.inode name with
  | none => isTrue fun i hi => by rw [h] at hi; cases hi
  | some i => decidable_of_iff (¬s.InUse i) (by simp [FreshName, h])

instance (fname : CString) (a : AddAnswers) : Decidable (s.AddSafe fname a) :=
  inferInstanceAs (Decidable (_ → _))

instance (h : Fin MAX_SPOOL_HANDLES) : Decidable (s.CloseSafe h) :=
  inferInstanceAs (Decidable (_ ∨ _))

end Spooler

/-- The names that a call makes are of no spool file in use, and it closes no handle that has
been closed already. -/
def Safe (s : Spooler) : SpoolCall → Prop
  | .openSpoolFile now ticks ans =>
    ans = .opens → s.freeHandle ≠ none → s.FreshName (newSpoolFile now ticks)
  | .writeSpoolFile _ _ _ => True
  | .closeSpoolFile handle a => ∀ h, handleIndex handle = some h →
    s.CloseSafe h ∧
      ((s.handles h).size ≠ 0 → (s.closeHandle h).AddSafe (s.handles h).fname a)
  | .discardSpoolFile handle => ∀ h, handleIndex handle = some h → s.CloseSafe h
  | .addSpoolFile fname a => s.AddSafe fname a
  | .removeSpoolFile _ => True

/-- Nothing is queued: a call of `add_spool_file` has no source, or something that it calls
fails. -/
def QueuesNothing (s : Spooler) : SpoolCall → Prop
  | .closeSpoolFile handle a => ∀ h, handleIndex handle = some h → (s.handles h).size ≠ 0 →
    AddFails (s.closeHandle h).fs (s.handles h).fname a
  | .addSpoolFile fname a => AddFails s.fs fname a
  | _ => True

instance decidableSafe : ∀ (s : Spooler) (c : SpoolCall), Decidable (Safe s c)
  | _, .openSpoolFile _ _ _ => inferInstanceAs (Decidable (_ → _ → _))
  | _, .writeSpoolFile _ _ _ => isTrue trivial
  | _, .closeSpoolFile _ _ => inferInstanceAs (Decidable (∀ _, _ → _ ∧ _))
  | _, .discardSpoolFile _ => inferInstanceAs (Decidable (∀ _, _ → _))
  | s, .addSpoolFile fname a => inferInstanceAs (Decidable (s.AddSafe fname a))
  | _, .removeSpoolFile _ => isTrue trivial

instance decidableQueuesNothing : ∀ (s : Spooler) (c : SpoolCall), Decidable (QueuesNothing s c)
  | _, .openSpoolFile _ _ _ => isTrue trivial
  | _, .writeSpoolFile _ _ _ => isTrue trivial
  | _, .closeSpoolFile _ _ => inferInstanceAs (Decidable (∀ _, _ → _ → _))
  | _, .discardSpoolFile _ => isTrue trivial
  | s, .addSpoolFile fname a => inferInstanceAs (Decidable (AddFails s.fs fname a))
  | _, .removeSpoolFile _ => isTrue trivial

/-- A file structure that nobody has any more, and that has not been closed. -/
def Leaked (s : Spooler) (f : ℕ) : Prop :=
  f < s.fs.nextFile ∧ (s.fs.file f).closes = 0 ∧ ∀ h, (s.handles h).fp ≠ some f

instance (s : Spooler) : Decidable s.ClosedOnce := inferInstanceAs (Decidable (∀ _ < _, _))

/-- What the handles and the queue say about the file system. -/
structure SpoolInv (s : Spooler) : Prop where
  wellFormed : s.fs.WellFormed
  handle : ∀ h, (s.handles h).used = true → ∃ f i, (s.handles h).fp = some f ∧
    f < s.fs.nextFile ∧ (s.fs.file f).inode = i ∧ (s.fs.file f).closes = 0 ∧
    s.fs.inode (s.handles h).fname = some i
  stale : ∀ h f, (s.handles h).fp = some f → f < s.fs.nextFile ∧
    ((s.handles h).used = false → (s.fs.file f).closes = 1)
  closed : ∀ f < s.fs.nextFile, (s.fs.file f).closes = 0 ∨ (s.fs.file f).closes = 1
  intact : s.JobsIntact
  unshared : s.Unshared

variable {s s' : Spooler}

namespace SpoolInv

theorem init {fs : Files} (hwf : fs.WellFormed) (hnone : fs.nextFile = 0) :
    SpoolInv (.init fs) where
  wellFormed := hwf
  handle _ h := nomatch h
  stale _ _ h := nomatch h
  closed f hf := by
    have : f < fs.nextFile := hf
    omega
  intact _ h := nomatch h
  unshared := ⟨.nil, fun _ h => (nomatch h), fun _ _ h => nomatch h⟩

theorem handleInode_eq (hinv : SpoolInv s) {h : Fin MAX_SPOOL_HANDLES}
    (hused : (s.handles h).used = true) :
    s.handleInode h = s.fs.inode (s.handles h).fname := by
  obtain ⟨f, i, hfp, -, hi, -, hname⟩ := hinv.handle h hused
  rw [hname, Spooler.handleInode, hfp, Option.map_some, hi]

/-- Two open handles have two file structures. -/
theorem fp_inj (hinv : SpoolInv s) {h h' : Fin MAX_SPOOL_HANDLES}
    (hused : (s.handles h).used = true) (hused' : (s.handles h').used = true)
    (heq : (s.handles h).fp = (s.handles h').fp) : h = h' := by
  refine hinv.unshared.handles h h' hused hused' ?_
  rw [Spooler.handleInode, Spooler.handleInode, heq]

/-- Every file has been closed once, unless one is lost. -/
theorem closedOnce_iff (hinv : SpoolInv s) : s.ClosedOnce ↔ ¬∃ f, Leaked s f := by
  constructor
  · rintro honce ⟨f, hf, hopen, hnobody⟩
    have hcount := honce f hf
    have hno : ¬∃ h, (s.handles h).used = true ∧ (s.handles h).fp = some f :=
      fun ⟨h, _, hfp⟩ => hnobody h hfp
    rw [if_neg hno, hopen] at hcount
    cases hcount
  · intro hnone f hf
    split
    next hused =>
      obtain ⟨h, hused, hfp⟩ := hused
      obtain ⟨g, i, hg, -, -, hclosed, -⟩ := hinv.handle h hused
      cases hfp.symm.trans hg
      exact hclosed
    next hunused =>
      refine (hinv.closed f hf).resolve_left fun hopen => hnone ⟨f, hf, hopen, ?_⟩
      intro h hfp
      cases hu : (s.handles h).used with
      | true => exact hunused ⟨h, hu, hfp⟩
      | false =>
        have := (hinv.stale h f hfp).2 hu
        omega

/-! ## Closing -/

theorem closePtr_eq {f : ℕ} {h : Fin MAX_SPOOL_HANDLES} (hfp : (s.handles h).fp = some f) :
    (s.closeHandle h).fs = s.fs.close f := by
  unfold Spooler.closeHandle
  rw [hfp]
  rfl

theorem closeHandle_self (h : Fin MAX_SPOOL_HANDLES) :
    (s.closeHandle h).handles h = { s.handles h with used := false } :=
  Function.update_self h _ _

theorem closeHandle_of_ne {h k : Fin MAX_SPOOL_HANDLES} (hk : k ≠ h) :
    (s.closeHandle h).handles k = s.handles k :=
  Function.update_of_ne hk _ _

theorem closeHandle_fp (h k : Fin MAX_SPOOL_HANDLES) :
    ((s.closeHandle h).handles k).fp = (s.handles k).fp := by
  by_cases hk : k = h
  · rw [hk, closeHandle_self]
  · rw [closeHandle_of_ne hk]

theorem closeHandle_fname (h k : Fin MAX_SPOOL_HANDLES) :
    ((s.closeHandle h).handles k).fname = (s.handles k).fname := by
  by_cases hk : k = h
  · rw [hk, closeHandle_self]
  · rw [closeHandle_of_ne hk]

theorem closeHandle_used (h k : Fin MAX_SPOOL_HANDLES) :
    ((s.closeHandle h).handles k).used = true ↔ k ≠ h ∧ (s.handles k).used = true := by
  by_cases hk : k = h
  · rw [hk, closeHandle_self]
    simp
  · rw [closeHandle_of_ne hk]
    exact (and_iff_right hk).symm

/-- The first half of `close_spool_file`, for an open handle. -/
theorem closeHandle (hinv : SpoolInv s) {h : Fin MAX_SPOOL_HANDLES}
    (hused : (s.handles h).used = true) :
    SpoolInv (s.closeHandle h) ∧ ((∃ f, Leaked (s.closeHandle h) f) ↔ ∃ f, Leaked s f) := by
  obtain ⟨g, j, hg, hglt, -, hopen, -⟩ := hinv.handle h hused
  have hfs := closePtr_eq hg
  have hself : ((s.closeHandle h).fs.file g).closes = 1 := by rw [hfs, close_closes, hopen]
  have hother : ∀ f ≠ g, (s.closeHandle h).fs.file f = s.fs.file f := by
    intro f hf
    rw [hfs, close_of_ne hf]
  have hinode : (s.closeHandle h).fs.inode = s.fs.inode := by rw [hfs, close_inode]
  have hdata : (s.closeHandle h).fs.data = s.fs.data := by rw [hfs, close_data]
  have hnext : (s.closeHandle h).fs.nextFile = s.fs.nextFile := by
    rw [hfs]
    rfl
  have hfile : ∀ k, (s.closeHandle h).handleInode k = s.handleInode k := by
    intro k
    unfold Spooler.handleInode
    rw [closeHandle_fp]
    cases hk : (s.handles k).fp with
    | none => rfl
    | some f =>
      by_cases hf : f = g
      · rw [hf, Option.map_some, Option.map_some, hfs, Files.close, Files.setFile_self]
      · rw [Option.map_some, Option.map_some, hother f hf]
  refine ⟨⟨?_, ?_, ?_, ?_, ?_, ?_, ?_, ?_⟩, ?_⟩
  · rw [hfs]
    exact hinv.wellFormed
  · intro k hk
    obtain ⟨hkh, hk⟩ := (closeHandle_used h k).mp hk
    obtain ⟨f, i, hf, hflt, hi, hfopen, hname⟩ := hinv.handle k hk
    have hfg : f ≠ g := by
      intro hfg
      exact hkh (hinv.fp_inj hk hused (by rw [hf, hg, hfg]))
    refine ⟨f, i, by rw [closeHandle_fp, hf], by rwa [hnext], ?_, ?_, ?_⟩
    · rw [hother f hfg, hi]
    · rw [hother f hfg, hfopen]
    · rw [closeHandle_fname, hinode, hname]
  · intro k f hf
    rw [closeHandle_fp] at hf
    obtain ⟨hflt, hclosed⟩ := hinv.stale k f hf
    refine ⟨by rwa [hnext], ?_⟩
    intro hk
    by_cases hfg : f = g
    · rw [hfg, hself]
    · rw [hother f hfg]
      refine hclosed (Bool.eq_false_iff.mpr fun hk' => ?_)
      have hkh : k = h := by
        by_contra hkh
        rw [(closeHandle_used h k).mpr ⟨hkh, hk'⟩] at hk
        cases hk
      rw [hkh, hg] at hf
      exact hfg (Option.some.inj hf).symm
  · intro f hf
    rw [hnext] at hf
    by_cases hfg : f = g
    · rw [hfg, hself]
      exact .inr rfl
    · rw [hother f hfg]
      exact hinv.closed f hf
  · intro e he
    rw [hinode, hdata]
    exact hinv.intact e he
  · rw [hinode]
    exact hinv.unshared.jobs
  · intro e he k hk
    rw [hinode, hfile]
    exact hinv.unshared.job_handle e he k ((closeHandle_used h k).mp hk).2
  · intro k k' hk hk' heq
    rw [hfile, hfile] at heq
    exact hinv.unshared.handles k k' ((closeHandle_used h k).mp hk).2
      ((closeHandle_used h k').mp hk').2 heq
  · refine exists_congr fun f => ?_
    unfold Leaked
    rw [hnext]
    refine and_congr_right fun _ => ?_
    by_cases hfg : f = g
    · constructor
      · rintro ⟨-, hnobody⟩
        exact absurd (by rw [closeHandle_fp, hg, hfg]) (hnobody h)
      · rintro ⟨-, hnobody⟩
        exact absurd (by rw [hg, hfg]) (hnobody h)
    · rw [hother f hfg]
      refine and_congr_right fun _ => forall_congr' fun k => ?_
      rw [closeHandle_fp]

/-- Closing a handle that has no file structure and is not open does nothing. -/
theorem closeHandle_none {h : Fin MAX_SPOOL_HANDLES} (hused : (s.handles h).used = false)
    (hfp : (s.handles h).fp = none) : s.closeHandle h = s := by
  have hhandle : { s.handles h with used := false } = s.handles h := by
    rw [← hused]
  unfold Spooler.closeHandle Spooler.setHandle
  rw [hfp, hhandle]
  simp only [Files.closePtr, Option.elim_none, Function.update_eq_self]

/-- A name that nobody uses can be removed. -/
theorem removeLink (hinv : SpoolInv s) {name : CString}
    (hjobs : ∀ e ∈ s.spoolList, e.spoolName ≠ name)
    (hhandles : ∀ h, (s.handles h).used = true → (s.handles h).fname ≠ name) :
    SpoolInv { s with fs := s.fs.removeLink name } := by
  have hother : ∀ n ≠ name, (s.fs.removeLink name).inode n = s.fs.inode n :=
    fun n hn => Function.update_of_ne hn _ _
  refine ⟨?_, ?_, hinv.stale, hinv.closed, ?_, ?_, ?_, hinv.unshared.handles⟩
  · intro n i hi
    have hn : n ≠ name := by
      intro hn
      have hself : (s.fs.removeLink name).inode name = none := Function.update_self name _ _
      rw [hn] at hi
      cases hself.symm.trans hi
    exact hinv.wellFormed n i ((hother n hn).symm.trans hi)
  · intro h hused
    obtain ⟨f, i, hfp, hlt, hi, hopen, hname⟩ := hinv.handle h hused
    exact ⟨f, i, hfp, hlt, hi, hopen, (hother _ (hhandles h hused)).trans hname⟩
  · intro e he
    obtain ⟨i, hi, hdata⟩ := hinv.intact e he
    exact ⟨i, (hother _ (hjobs e he)).trans hi, hdata⟩
  · refine hinv.unshared.jobs.imp_of_mem fun {e e'} he he' hne => ?_
    show (s.fs.removeLink name).inode e.spoolName ≠ (s.fs.removeLink name).inode e'.spoolName
    rwa [hother _ (hjobs e he), hother _ (hjobs e' he')]
  · intro e he h hused
    show (s.fs.removeLink name).inode e.spoolName ≠ s.handleInode h
    rw [hother _ (hjobs e he)]
    exact hinv.unshared.job_handle e he h hused

/-! ## Adding and removing jobs -/

/-- A file of a name in use has been made. -/
theorem lt_of_inUse (hinv : SpoolInv s) {i : ℕ} (huse : s.InUse i) : i < s.fs.nextInode := by
  rcases huse with ⟨e, -, he⟩ | ⟨h, hused, hi⟩
  · exact hinv.wellFormed _ i he
  · rw [hinv.handleInode_eq hused] at hi
    exact hinv.wellFormed _ i hi

theorem added (hinv : SpoolInv s) {fname : CString} {a : AddAnswers} {ok : Bool}
    (hadd : Added s fname a ok s') (hsafe : s.AddSafe fname a) :
    SpoolInv s' ∧ ((∃ f, Leaked s' f) ↔ (∃ f, Leaked s f) ∨ ¬AddFails s.fs fname a) := by
  have hdata : ∀ i, s.InUse i → s'.fs.data i = s.fs.data i := by
    intro i huse
    refine hadd.data i (hinv.lt_of_inUse huse) fun hreach hname => ?_
    exact (hsafe hreach).1 i hname huse
  have hfile : ∀ h, (s.handles h).used = true → s'.handleInode h = s.handleInode h := by
    intro h hused
    obtain ⟨f, i, hfp, hlt, -⟩ := hinv.handle h hused
    unfold Spooler.handleInode
    rw [hadd.handles, hfp, Option.map_some, Option.map_some, hadd.file f hlt]
  have hjob : ∀ e ∈ s.spoolList, s'.fs.inode e.spoolName = s.fs.inode e.spoolName := by
    intro e he
    obtain ⟨i, hi, -⟩ := hinv.intact e he
    rw [hi, hadd.bound _ i hi]
  have holdJobs : ∀ e ∈ s.spoolList, ∃ i, s'.fs.inode e.spoolName = some i ∧
      s'.fs.data i = e.source := by
    intro e he
    obtain ⟨i, hi, hsource⟩ := hinv.intact e he
    exact ⟨i, hadd.bound _ i hi, (hdata i (.inl ⟨e, he, hi⟩)).trans hsource⟩
  have hwf := hadd.wellFormed
  have hhandle : ∀ h, (s'.handles h).used = true → ∃ f i, (s'.handles h).fp = some f ∧
      f < s'.fs.nextFile ∧ (s'.fs.file f).inode = i ∧ (s'.fs.file f).closes = 0 ∧
      s'.fs.inode (s'.handles h).fname = some i := by
    intro h hused
    rw [hadd.handles] at hused ⊢
    obtain ⟨f, i, hfp, hlt, hi, hopen, hname⟩ := hinv.handle h hused
    have hle := hadd.nextFile
    refine ⟨f, i, hfp, by omega, ?_, ?_, hadd.bound _ i hname⟩
    · rw [hadd.file f hlt, hi]
    · rw [hadd.file f hlt, hopen]
  have hstale : ∀ h f, (s'.handles h).fp = some f → f < s'.fs.nextFile ∧
      ((s'.handles h).used = false → (s'.fs.file f).closes = 1) := by
    intro h f hfp
    rw [hadd.handles] at hfp ⊢
    obtain ⟨hlt, hclosed⟩ := hinv.stale h f hfp
    have hle := hadd.nextFile
    refine ⟨by omega, fun hused => ?_⟩
    rw [hadd.file f hlt, hclosed hused]
  have hhandles : ∀ h h', (s'.handles h).used = true → (s'.handles h').used = true →
      s'.handleInode h = s'.handleInode h' → h = h' := by
    intro h h' hused hused' heq
    rw [hadd.handles] at hused hused'
    rw [hfile h hused, hfile h' hused'] at heq
    exact hinv.unshared.handles h h' hused hused' heq
  have hleakedOld : ∀ f < s.fs.nextFile, Leaked s' f ↔ Leaked s f := by
    intro f hf
    have hle := hadd.nextFile
    unfold Leaked
    rw [hadd.handles, hadd.file f hf]
    exact and_congr_left fun _ => ⟨fun _ => hf, fun _ => by omega⟩
  cases ok with
  | false =>
    obtain ⟨hlist, hnew⟩ := hadd.failed rfl
    have hfails : AddFails s.fs fname a := by
      by_contra hnot
      cases hadd.ok_iff.mpr hnot
    refine ⟨⟨hwf, hhandle, hstale, ?_, ?_, ?_, ?_, hhandles⟩, ?_⟩
    · intro f hf
      by_cases hlt : f < s.fs.nextFile
      · rw [hadd.file f hlt]
        exact hinv.closed f hlt
      · exact .inr (hnew f (by omega) hf)
    · intro e he
      rw [hlist] at he
      exact holdJobs e he
    · rw [hlist]
      refine hinv.unshared.jobs.imp_of_mem fun {e e'} he he' hne => ?_
      rwa [hjob e he, hjob e' he']
    · intro e he h hused
      rw [hlist] at he
      rw [hadd.handles] at hused
      rw [hjob e he, hfile h hused]
      exact hinv.unshared.job_handle e he h hused
    · constructor
      · rintro ⟨f, hleak⟩
        by_cases hlt : f < s.fs.nextFile
        · exact .inl ⟨f, (hleakedOld f hlt).mp hleak⟩
        · have := hnew f (by omega) hleak.1
          have := hleak.2.1
          omega
      · rintro (⟨f, hleak⟩ | hnot)
        · exact ⟨f, (hleakedOld f hleak.1).mpr hleak⟩
        · exact absurd hfails hnot
  | true =>
    obtain ⟨hreach, ⟨i, hi, horigin, hsource⟩, ⟨jobNo, hlist⟩, hnext, hsrc, hdst⟩ :=
      hadd.queued rfl
    obtain ⟨hfresh, hnames⟩ := hsafe hreach
    -- the new spool file is not one that was in use
    have hunused : ¬s.InUse i := by
      intro huse
      rcases horigin with hname | hle
      · exact hfresh i hname huse
      · have := hinv.lt_of_inUse huse
        omega
    refine ⟨⟨hwf, hhandle, hstale, ?_, ?_, ?_, ?_, hhandles⟩, ?_⟩
    · intro f hf
      by_cases hlt : f < s.fs.nextFile
      · rw [hadd.file f hlt]
        exact hinv.closed f hlt
      · have hf' : f = s.fs.nextFile ∨ f = s.fs.nextFile + 1 := by omega
        rcases hf' with hf' | hf'
        · rw [hf', hsrc]
          exact .inl rfl
        · rw [hf', hdst]
          exact .inr rfl
    · intro e he
      rw [hlist] at he
      rcases List.mem_append.mp he with he | he
      · exact holdJobs e he
      · rw [List.mem_singleton.mp he]
        exact ⟨i, hi, hsource hnames⟩
    · rw [hlist]
      refine List.pairwise_append.mpr ⟨?_, List.pairwise_singleton _ _, ?_⟩
      · refine hinv.unshared.jobs.imp_of_mem fun {e e'} he he' hne => ?_
        rwa [hjob e he, hjob e' he']
      · intro e he e' he' heq
        rw [List.mem_singleton.mp he', hi, hjob e he] at heq
        exact hunused (.inl ⟨e, he, heq⟩)
    · intro e he h hused heq
      rw [hadd.handles] at hused
      rw [hlist] at he
      rw [hfile h hused] at heq
      rcases List.mem_append.mp he with he | he
      · rw [hjob e he] at heq
        exact hinv.unshared.job_handle e he h hused heq
      · rw [List.mem_singleton.mp he, hi] at heq
        exact hunused (.inr ⟨h, hused, heq.symm⟩)
    · refine ⟨fun _ => .inr (hadd.ok_iff.mp rfl), fun _ => ⟨s.fs.nextFile, by omega, hsrc, ?_⟩⟩
      -- no handle has the structure of the source
      intro h hfp
      rw [hadd.handles] at hfp
      have := (hinv.stale h _ hfp).1
      omega

/-- The source of a call is not used after it, if it was not used before it. -/
theorem source_unused (hinv : SpoolInv s) {fname : CString} {a : AddAnswers} {ok : Bool}
    (hadd : Added s fname a ok s') (hsafe : s.AddSafe fname a)
    (hunused : ∀ i, s.fs.inode fname = some i → ¬s.InUse i) (i : ℕ)
    (hname : s'.fs.inode fname = some i) : ¬s'.InUse i := by
  cases hold : s.fs.inode fname with
  | none =>
    rw [hadd.sourceless hold, hold] at hname
    cases hname
  | some j =>
    cases hname.symm.trans (hadd.bound _ j hold)
    have hi := hunused i hold
    rintro (⟨e, he, hei⟩ | ⟨h, hused, hhi⟩)
    · have hnot : ∀ e ∈ s.spoolList, s'.fs.inode e.spoolName ≠ some i := by
        intro e he hei
        obtain ⟨k, hk, -⟩ := hinv.intact e he
        rw [hadd.bound _ k hk] at hei
        exact hi (.inl ⟨e, he, hk.trans hei⟩)
      cases ok with
      | false =>
        rw [(hadd.failed rfl).1] at he
        exact hnot e he hei
      | true =>
        obtain ⟨hreach, ⟨k, hk, horigin, -⟩, ⟨jobNo, hlist⟩, -⟩ := hadd.queued rfl
        rw [hlist] at he
        rcases List.mem_append.mp he with he | he
        · exact hnot e he hei
        · rw [List.mem_singleton.mp he, hk] at hei
          cases hei
          rcases horigin with hspool | hle
          · exact (hsafe hreach).2 (by rw [hold, hspool])
          · have := hinv.wellFormed _ _ hold
            omega
    · rw [hadd.handles] at hused
      obtain ⟨f, k, hfp, hlt, -⟩ := hinv.handle h hused
      refine hi (.inr ⟨h, hused, ?_⟩)
      unfold Spooler.handleInode at hhi ⊢
      rw [hadd.handles, hfp, Option.map_some, hadd.file f hlt] at hhi
      rw [hfp, Option.map_some, hhi]

theorem removeSpoolFile (hinv : SpoolInv s) (job : ℤ) : SpoolInv (s.removeSpoolFile job).2 := by
  unfold Spooler.removeSpoolFile
  split
  · exact hinv
  · split
    · exact hinv
    next entry hfind =>
      obtain ⟨hentry, before, after, hlist, hbefore⟩ := List.find?_eq_some_iff_append.mp hfind
      have herase : (s.spoolList.eraseP fun entry => BitVec.ofInt 32 job == entry.jobNo) =
          before ++ after := by
        have hcons : (entry :: after).eraseP (fun entry => BitVec.ofInt 32 job == entry.jobNo) =
            after := List.eraseP_cons_of_pos hentry
        rw [hlist, List.eraseP_append_right _ (fun x hx => by simpa using hbefore x hx), hcons]
      rw [herase]
      have hsub : ∀ e ∈ before ++ after, e ∈ s.spoolList := by
        intro e he
        rw [hlist]
        rcases List.mem_append.mp he with he | he
        · exact List.mem_append_left _ he
        · exact List.mem_append_right _ (List.mem_cons_of_mem _ he)
      have hsublist : (before ++ after).Sublist s.spoolList := by
        rw [hlist]
        exact (List.Sublist.refl _).append (List.sublist_cons_self _ _)
      have hmem : entry ∈ s.spoolList := by
        rw [hlist]
        exact List.mem_append_right _ List.mem_cons_self
      have hrest : SpoolInv { s with spoolList := before ++ after } :=
        ⟨hinv.wellFormed, hinv.handle, hinv.stale, hinv.closed,
          fun e he => hinv.intact e (hsub e he),
          ⟨hinv.unshared.jobs.sublist hsublist,
            fun e he => hinv.unshared.job_handle e (hsub e he), hinv.unshared.handles⟩⟩
      refine hrest.removeLink ?_ ?_
      · -- the other jobs have other spool files
        intro e he heq
        have hpair := hinv.unshared.jobs
        rw [hlist, List.pairwise_append, List.pairwise_cons] at hpair
        obtain ⟨-, ⟨hafter, -⟩, hcross⟩ := hpair
        rcases List.mem_append.mp he with he | he
        · exact hcross e he entry List.mem_cons_self (by rw [heq])
        · exact hafter e he (by rw [heq])
      · intro h hused heq
        refine hinv.unshared.job_handle entry hmem h hused ?_
        have hfile : s.handleInode h = s.fs.inode (s.handles h).fname :=
          hinv.handleInode_eq hused
        rw [hfile]
        exact congrArg s.fs.inode heq.symm

/-! ## Opening and writing -/

/-- Any change of an unused handle keeps the invariant, if it has no structure that is open. -/
theorem setHandle (hinv : SpoolInv s) {h : Fin MAX_SPOOL_HANDLES} {f : SpoolFile}
    (hused : (s.handles h).used = false) (hf : f.used = false) (hfp : f.fp = none) :
    SpoolInv (s.setHandle h f) ∧ ((∃ g, Leaked (s.setHandle h f) g) ↔ ∃ g, Leaked s g) := by
  have hself : (s.setHandle h f).handles h = f := Function.update_self h _ _
  have hother : ∀ k ≠ h, (s.setHandle h f).handles k = s.handles k :=
    fun k hk => Function.update_of_ne hk _ _
  have hne : ∀ k, ((s.setHandle h f).handles k).used = true → k ≠ h := by
    intro k hk heq
    rw [heq, hself, hf] at hk
    cases hk
  have hold : ∀ k, ((s.setHandle h f).handles k).used = true → (s.handles k).used = true := by
    intro k hk
    rwa [hother k (hne k hk)] at hk
  have hfile : ∀ k, ((s.setHandle h f).handles k).used = true →
      (s.setHandle h f).handleInode k = s.handleInode k := by
    intro k hk
    unfold Spooler.handleInode
    rw [hother k (hne k hk)]
    rfl
  refine ⟨⟨hinv.wellFormed, ?_, ?_, hinv.closed, hinv.intact, hinv.unshared.jobs, ?_, ?_⟩, ?_⟩
  · intro k hk
    have hk' := hold k hk
    rw [hother k (hne k hk)]
    exact hinv.handle k hk'
  · intro k g hg
    by_cases hk : k = h
    · rw [hk, hself, hfp] at hg
      cases hg
    · rw [hother k hk] at hg ⊢
      exact hinv.stale k g hg
  · intro e he k hk
    rw [hfile k hk]
    exact hinv.unshared.job_handle e he k (hold k hk)
  · intro k k' hk hk' heq
    rw [hfile k hk, hfile k' hk'] at heq
    exact hinv.unshared.handles k k' (hold k hk) (hold k' hk') heq
  · refine exists_congr fun g => and_congr_right fun _ => and_congr_right fun hopen => ?_
    constructor
    · intro hnobody k hk
      by_cases hkh : k = h
      · rw [hkh] at hk
        have hclosed := (hinv.stale h g hk).2 hused
        have hzero : (s.fs.file g).closes = 0 := hopen
        omega
      · exact hnobody k (by rw [hother k hkh, hk])
    · intro hnobody k hk
      by_cases hkh : k = h
      · rw [hkh, hself, hfp] at hk
        cases hk
      · rw [hother k hkh] at hk
        exact hnobody k hk

/-- A change of the file system that empties or makes a file which is not in use. -/
theorem emptied (hinv : SpoolInv s) {fs : Files} {name : CString} {i : ℕ}
    (hfs : Files.Emptied s.fs fs name i) (hunused : ¬s.InUse i) :
    SpoolInv { s with fs := fs } := by
  have hdata : ∀ j, s.InUse j → fs.data j = s.fs.data j := by
    intro j huse
    refine hfs.data j fun hj => ?_
    rw [hj] at huse
    exact hunused huse
  have hjob : ∀ e ∈ s.spoolList, fs.inode e.spoolName = s.fs.inode e.spoolName := by
    intro e he
    obtain ⟨j, hj, -⟩ := hinv.intact e he
    rw [hj, hfs.bound _ j hj]
  have hfile : ∀ h, Spooler.handleInode { s with fs := fs } h = s.handleInode h := by
    intro h
    unfold Spooler.handleInode
    rw [hfs.file]
  refine ⟨hfs.wellFormed, ?_, ?_, ?_, ?_, ?_, ?_, ?_⟩
  · intro h hused
    obtain ⟨f, j, hfp, hlt, hj, hopen, hname⟩ := hinv.handle h hused
    refine ⟨f, j, hfp, ?_, ?_, ?_, hfs.bound _ j hname⟩
    · show f < fs.nextFile
      rwa [hfs.nextFile]
    · show (fs.file f).inode = j
      rw [hfs.file, hj]
    · show (fs.file f).closes = 0
      rw [hfs.file, hopen]
  · intro h f hfp
    show f < fs.nextFile ∧ _
    rw [hfs.nextFile, hfs.file]
    exact hinv.stale h f hfp
  · show ∀ f < fs.nextFile, (fs.file f).closes = 0 ∨ (fs.file f).closes = 1
    rw [hfs.nextFile, hfs.file]
    exact hinv.closed
  · intro e he
    obtain ⟨j, hj, hsource⟩ := hinv.intact e he
    exact ⟨j, hfs.bound _ j hj, (hdata j (.inl ⟨e, he, hj⟩)).trans hsource⟩
  · refine hinv.unshared.jobs.imp_of_mem fun {e e'} he he' hne => ?_
    show fs.inode e.spoolName ≠ fs.inode e'.spoolName
    rwa [hjob e he, hjob e' he']
  · intro e he h hused
    show fs.inode e.spoolName ≠ Spooler.handleInode { s with fs := fs } h
    rw [hjob e he, hfile]
    exact hinv.unshared.job_handle e he h hused
  · intro h h' hused hused' heq
    rw [hfile, hfile] at heq
    exact hinv.unshared.handles h h' hused hused' heq

/-- A handle gets the new structure of a file that is not in use. -/
theorem opened (hinv : SpoolInv s) {h : Fin MAX_SPOOL_HANDLES} {name : CString} {i : ℕ}
    (hfree : (s.handles h).used = false) (hname : s.fs.inode name = some i)
    (hunused : ¬s.InUse i) :
    let s' := { s with fs := (s.fs.makeFile i).2 }.setHandle h ⟨name, true, some s.fs.nextFile, 0⟩
    SpoolInv s' ∧ ((∃ g, Leaked s' g) ↔ ∃ g, Leaked s g) := by
  intro s'
  have hself : s'.handles h = ⟨name, true, some s.fs.nextFile, 0⟩ := Function.update_self h _ _
  have hother : ∀ k ≠ h, s'.handles k = s.handles k := fun k hk => Function.update_of_ne hk _ _
  have hnew : s'.fs.file s.fs.nextFile = ⟨i, 0, 0⟩ := Files.setFile_self _
  have hold : ∀ f < s.fs.nextFile, s'.fs.file f = s.fs.file f :=
    fun f hf => Files.setFile_of_ne _ (Nat.ne_of_lt hf)
  have hnext : s'.fs.nextFile = s.fs.nextFile + 1 := rfl
  have hinode : s'.fs.inode = s.fs.inode := rfl
  have hdata : s'.fs.data = s.fs.data := rfl
  have hlist : s'.spoolList = s.spoolList := rfl
  have hfileSelf : s'.handleInode h = some i := by
    unfold Spooler.handleInode
    rw [hself, Option.map_some, hnew]
  have hfile : ∀ k ≠ h, (s.handles k).used = true → s'.handleInode k = s.handleInode k := by
    intro k hk hused
    obtain ⟨f, j, hfp, hlt, -⟩ := hinv.handle k hused
    unfold Spooler.handleInode
    rw [hother k hk, hfp, Option.map_some, Option.map_some, hold f hlt]
  refine ⟨⟨hinv.wellFormed, ?_, ?_, ?_, hinv.intact, hinv.unshared.jobs, ?_, ?_⟩, ?_⟩
  · intro k hk
    by_cases hkh : k = h
    · rw [hkh, hself]
      exact ⟨_, i, rfl, by rw [hnext]; omega, by rw [hnew], by rw [hnew], hname⟩
    · rw [hother k hkh] at hk ⊢
      obtain ⟨f, j, hfp, hlt, hj, hopen, hfname⟩ := hinv.handle k hk
      exact ⟨f, j, hfp, by rw [hnext]; omega, by rw [hold f hlt, hj], by rw [hold f hlt, hopen],
        hfname⟩
  · intro k f hfp
    by_cases hkh : k = h
    · rw [hkh, hself] at hfp ⊢
      cases hfp
      exact ⟨by rw [hnext]; omega, nofun⟩
    · rw [hother k hkh] at hfp ⊢
      obtain ⟨hlt, hclosed⟩ := hinv.stale k f hfp
      refine ⟨by rw [hnext]; omega, fun hused => ?_⟩
      rw [hold f hlt, hclosed hused]
  · intro f hf
    by_cases hlt : f < s.fs.nextFile
    · rw [hold f hlt]
      exact hinv.closed f hlt
    · have hf' : f = s.fs.nextFile := by omega
      rw [hf', hnew]
      exact .inl rfl
  · intro e he k hk heq
    by_cases hkh : k = h
    · rw [hkh, hfileSelf] at heq
      exact hunused (.inl ⟨e, he, heq⟩)
    · rw [hother k hkh] at hk
      rw [hfile k hkh hk] at heq
      exact hinv.unshared.job_handle e he k hk heq
  · intro k k' hk hk' heq
    by_cases hkh : k = h
    · by_cases hkh' : k' = h
      · rw [hkh, hkh']
      · rw [hother k' hkh'] at hk'
        rw [hkh, hfileSelf, hfile k' hkh' hk'] at heq
        exact absurd (.inr ⟨k', hk', heq.symm⟩) hunused
    · rw [hother k hkh] at hk
      by_cases hkh' : k' = h
      · rw [hkh', hfileSelf, hfile k hkh hk] at heq
        exact absurd (.inr ⟨k, hk, heq⟩) hunused
      · rw [hother k' hkh'] at hk'
        rw [hfile k hkh hk, hfile k' hkh' hk'] at heq
        exact hinv.unshared.handles k k' hk hk' heq
  · refine exists_congr fun g => ?_
    constructor
    · rintro ⟨hlt, hopen, hnobody⟩
      have hne : g ≠ s.fs.nextFile := by
        intro hg
        exact hnobody h (by rw [hself, hg])
      have hlt' : g < s.fs.nextFile := by omega
      rw [hold g hlt'] at hopen
      refine ⟨hlt', hopen, fun k hk => ?_⟩
      by_cases hkh : k = h
      · rw [hkh] at hk
        have := (hinv.stale h g hk).2 hfree
        omega
      · exact hnobody k (by rw [hother k hkh, hk])
    · rintro ⟨hlt, hopen, hnobody⟩
      refine ⟨by omega, by rw [hold g hlt, hopen], fun k hk => ?_⟩
      by_cases hkh : k = h
      · rw [hkh, hself] at hk
        cases hk
        omega
      · rw [hother k hkh] at hk
        exact hnobody k hk

theorem openSpoolFile (hinv : SpoolInv s) {now ticks : ULong} {ans : OpenAnswer}
    (hsafe : Safe s (.openSpoolFile now ticks ans)) :
    SpoolInv (s.openSpoolFile now ticks ans).2 ∧
      ((∃ f, Leaked (s.openSpoolFile now ticks ans).2 f) ↔ ∃ f, Leaked s f) := by
  unfold Spooler.openSpoolFile
  cases hfree : s.freeHandle with
  | none => exact ⟨hinv, Iff.rfl⟩
  | some h =>
    have hused : (s.handles h).used = false := by simpa using List.find?_some hfree
    dsimp only
    rcases Files.openWrite_spec hinv.wellFormed (newSpoolFile now ticks) ans with
      ⟨hans, fs, i, hfs, hopen⟩ | ⟨hans, hnone, hfs⟩
    · have hunused : ¬s.InUse i := by
        intro huse
        rcases hfs.origin with hname | ⟨-, hi⟩
        · exact hsafe hans (by rw [hfree]; nofun) i hname huse
        · have := hinv.lt_of_inUse huse
          omega
      have hmade := hinv.emptied hfs hunused
      have hunused' : ¬Spooler.InUse { s with fs := fs } i := by
        rintro (⟨e, he, hname⟩ | ⟨k, hk, hname⟩)
        · obtain ⟨j, hj, -⟩ := hinv.intact e he
          have hname' : fs.inode e.spoolName = some i := hname
          rw [hfs.bound _ j hj] at hname'
          cases hname'
          exact hunused (.inl ⟨e, he, hj⟩)
        · unfold Spooler.handleInode at hname
          rw [hfs.file] at hname
          exact hunused (.inr ⟨k, hk, hname⟩)
      obtain ⟨hinv', hleaked⟩ := hmade.opened (h := h) hused hfs.named hunused'
      have hsame : (∃ f, Leaked { s with fs := fs } f) ↔ ∃ f, Leaked s f := by
        unfold Leaked
        rw [hfs.nextFile, hfs.file]
      rw [hopen]
      exact ⟨hinv', hleaked.trans hsame⟩
    · have hmade : SpoolInv { s with fs := (s.fs.openWrite (newSpoolFile now ticks) ans).2 } ∧
          ((∃ f, Leaked { s with fs := (s.fs.openWrite (newSpoolFile now ticks) ans).2 } f) ↔
            ∃ f, Leaked s f) := by
        rcases hfs with heq | ⟨hnew, i, hfs⟩
        · rw [heq]
          exact ⟨hinv, Iff.rfl⟩
        · have hunused : ¬s.InUse i := by
            intro huse
            have hlt := hinv.lt_of_inUse huse
            rcases hfs.origin with hname | ⟨-, hi⟩
            · rw [hnew] at hname
              cases hname
            · omega
          refine ⟨hinv.emptied hfs hunused, ?_⟩
          unfold Leaked
          rw [hfs.nextFile, hfs.file]
      have hopen : s.fs.openWrite (newSpoolFile now ticks) ans =
          (none, (s.fs.openWrite (newSpoolFile now ticks) ans).2) := Prod.ext hnone rfl
      rw [hopen]
      obtain ⟨hinv', hleaked⟩ := hmade.1.setHandle (h := h)
        (f := { s.handles h with fname := newSpoolFile now ticks, fp := none }) hused hused rfl
      exact ⟨hinv', hleaked.trans hmade.2⟩

theorem writeSpoolFile (hinv : SpoolInv s) (handle : ℤ) (data : List UChar) (wrote : ℕ) :
    SpoolInv (s.writeSpoolFile handle data wrote) ∧
      ((∃ f, Leaked (s.writeSpoolFile handle data wrote) f) ↔ ∃ f, Leaked s f) := by
  unfold Spooler.writeSpoolFile
  cases handleIndex handle with
  | none => exact ⟨hinv, Iff.rfl⟩
  | some h =>
    dsimp only
    cases hused : (s.handles h).used with
    | false => exact ⟨hinv, Iff.rfl⟩
    | true =>
      obtain ⟨f, i, hfp, hlt, hi, hopen, hname⟩ := hinv.handle h hused
      rw [hfp]
      dsimp only
      generalize BitVec.ofNat 32 data.length = len
      generalize data.take wrote = buf
      let s' := { s with fs := s.fs.write f buf }.setHandle h
        ⟨(s.handles h).fname, true, some f, (s.handles h).size + len⟩
      show SpoolInv s' ∧ ((∃ f, Leaked s' f) ↔ ∃ f, Leaked s f)
      have hself : s'.handles h = ⟨(s.handles h).fname, true, some f, (s.handles h).size + len⟩ :=
        Function.update_self h _ _
      have hother : ∀ k ≠ h, s'.handles k = s.handles k := fun k hk => Function.update_of_ne hk _ _
      have hfps : ∀ k, (s'.handles k).fp = (s.handles k).fp := by
        intro k
        by_cases hk : k = h
        · rw [hk, hself, hfp]
        · rw [hother k hk]
      have hnames : ∀ k, (s'.handles k).fname = (s.handles k).fname := by
        intro k
        by_cases hk : k = h
        · rw [hk, hself]
        · rw [hother k hk]
      have huseds : ∀ k, (s'.handles k).used = (s.handles k).used := by
        intro k
        by_cases hk : k = h
        · rw [hk, hself, hused]
        · rw [hother k hk]
      have hinodes : ∀ g, (s'.fs.file g).inode = (s.fs.file g).inode := fun g => seek_inode f g _
      have hcloses : ∀ g, (s'.fs.file g).closes = (s.fs.file g).closes := fun g => seek_closes f g _
      have hfile : ∀ k, s'.handleInode k = s.handleInode k := by
        intro k
        unfold Spooler.handleInode
        rw [hfps]
        exact congrFun (congrArg Option.map (funext hinodes)) _
      refine ⟨⟨hinv.wellFormed, ?_, ?_, ?_, ?_, hinv.unshared.jobs, ?_, ?_⟩, ?_⟩
      · intro k hk
        rw [huseds] at hk
        obtain ⟨g, j, hg, hglt, hj, hgopen, hgname⟩ := hinv.handle k hk
        exact ⟨g, j, (hfps k).trans hg, hglt, (hinodes g).trans hj, (hcloses g).trans hgopen,
          (congrArg s.fs.inode (hnames k)).trans hgname⟩
      · intro k g hg
        rw [hfps] at hg
        rw [huseds, hcloses]
        exact hinv.stale k g hg
      · intro g hg
        rw [hcloses]
        exact hinv.closed g hg
      · intro e he
        obtain ⟨j, hj, hsource⟩ := hinv.intact e he
        refine ⟨j, hj, (write_data_of_ne buf ?_).trans hsource⟩
        -- the file of a handle is not the file of a job
        intro hji
        refine hinv.unshared.job_handle e he h hused ?_
        rw [hj, hji, Spooler.handleInode, hfp, Option.map_some]
      · intro e he k hk
        rw [huseds] at hk
        rw [hfile]
        exact hinv.unshared.job_handle e he k hk
      · intro k k' hk hk' heq
        rw [huseds] at hk hk'
        rw [hfile, hfile] at heq
        exact hinv.unshared.handles k k' hk hk' heq
      · refine exists_congr fun g => ?_
        unfold Leaked
        rw [hcloses]
        refine and_congr_right fun _ => and_congr_right fun _ => forall_congr' fun k => ?_
        rw [hfps]

/-! ## Closing and discarding -/

/-- The name of a handle that was open names its file, which nobody else uses. -/
theorem unlinkHandle (hinv : SpoolInv s) {h : Fin MAX_SPOOL_HANDLES}
    (hunused : ∀ i, s.fs.inode (s.handles h).fname = some i → ¬s.InUse i) :
    SpoolInv (s.unlinkHandle h) := by
  refine hinv.removeLink ?_ ?_
  · intro e he heq
    obtain ⟨i, hi, -⟩ := hinv.intact e he
    exact hunused i (by rw [← heq, hi]) (.inl ⟨e, he, hi⟩)
  · intro k hk heq
    obtain ⟨f, i, -, -, -, -, hi⟩ := hinv.handle k hk
    refine hunused i (by rw [← heq, hi]) (.inr ⟨k, hk, ?_⟩)
    rw [hinv.handleInode_eq hk, hi]

/-- The two kinds of handles that `close_spool_file` and `discard_spool_file` are to be called
with. The file of one that was open is not in use any more. -/
theorem closeSafe (hinv : SpoolInv s) {h : Fin MAX_SPOOL_HANDLES} (hsafe : s.CloseSafe h) :
    SpoolInv (s.closeHandle h) ∧
      ((∃ f, Leaked (s.closeHandle h) f) ↔ ∃ f, Leaked s f) ∧
      ∀ i, (s.closeHandle h).fs.inode (s.handles h).fname = some i →
        ¬(s.closeHandle h).InUse i := by
  cases hused : (s.handles h).used with
  | false =>
    rcases hsafe with htrue | ⟨hfp, hname⟩
    · rw [hused] at htrue
      cases htrue
    · rw [closeHandle_none hused hfp]
      refine ⟨hinv, Iff.rfl, fun i hi => ?_⟩
      rw [hname] at hi
      cases hi
  | true =>
    obtain ⟨hinv', hleaked⟩ := hinv.closeHandle hused
    refine ⟨hinv', hleaked, ?_⟩
    obtain ⟨f, j, hfp, -, -, -, hname⟩ := hinv.handle h hused
    have hinode : (s.closeHandle h).fs.inode = s.fs.inode := by
      rw [closePtr_eq hfp, close_inode]
    intro i hi huse
    rw [hinode, ← hinv.handleInode_eq hused] at hi
    rcases huse with ⟨e, he, hei⟩ | ⟨k, hk, hki⟩
    · rw [hinode] at hei
      exact hinv.unshared.job_handle e he h hused (by rw [hei, hi])
    · obtain ⟨hkh, hk'⟩ := (closeHandle_used h k).mp hk
      rw [hinv'.handleInode_eq hk, closeHandle_fname, hinode, ← hinv.handleInode_eq hk'] at hki
      exact hkh (hinv.unshared.handles k h hk' hused (by rw [hki, hi]))

theorem discardSpoolFile (hinv : SpoolInv s) {handle : ℤ}
    (hsafe : Safe s (.discardSpoolFile handle)) :
    SpoolInv (s.discardSpoolFile handle) ∧
      ((∃ f, Leaked (s.discardSpoolFile handle) f) ↔ ∃ f, Leaked s f) := by
  unfold Spooler.discardSpoolFile
  cases hindex : handleIndex handle with
  | none => exact ⟨hinv, Iff.rfl⟩
  | some h =>
    obtain ⟨hinv', hleaked, hunused⟩ := hinv.closeSafe (hsafe h hindex)
    exact ⟨hinv'.unlinkHandle (by rwa [closeHandle_fname]), hleaked⟩

theorem closeSpoolFile (hinv : SpoolInv s) {handle : ℤ} {a : AddAnswers}
    (hsafe : Safe s (.closeSpoolFile handle a)) (h : s.closeSpoolFile handle a = some s') :
    SpoolInv s' ∧ ((∃ f, Leaked s' f) ↔
      (∃ f, Leaked s f) ∨ ¬QueuesNothing s (.closeSpoolFile handle a)) := by
  unfold Spooler.closeSpoolFile at h
  cases hindex : handleIndex handle with
  | none =>
    rw [hindex] at h
    cases h
    refine ⟨hinv, ?_⟩
    have hnothing : QueuesNothing s (.closeSpoolFile handle a) := by
      intro k hk
      rw [hindex] at hk
      cases hk
    exact (or_iff_left (not_not.mpr hnothing)).symm
  | some k =>
    rw [hindex] at h
    obtain ⟨hclose, hadd⟩ := hsafe k hindex
    obtain ⟨hinv', hleaked, hunused⟩ := hinv.closeSafe hclose
    have hsize : ((s.closeHandle k).handles k).size = (s.handles k).size := by
      rw [closeHandle_self]
    have hnothing : QueuesNothing s (.closeSpoolFile handle a) ↔
        ((s.handles k).size ≠ 0 → AddFails (s.closeHandle k).fs (s.handles k).fname a) := by
      simp only [QueuesNothing, hindex, Option.some.injEq, forall_eq']
    rw [hnothing]
    dsimp only at h
    rw [hsize, closeHandle_fname] at h
    split at h
    next hne =>
      obtain ⟨⟨ok, t⟩, hcall, ht⟩ := Option.map_eq_some_iff.mp h
      cases ht
      have hspec := addSpoolFile_spec hinv'.wellFormed hcall
      obtain ⟨hinvT, hleakedT⟩ := hinv'.added hspec (hadd hne)
      have hnameT : (t.handles k).fname = (s.handles k).fname := by
        rw [hspec.handles, closeHandle_fname]
      refine ⟨hinvT.unlinkHandle ?_, ?_⟩
      · rw [hnameT]
        exact hinv'.source_unused hspec (hadd hne) hunused
      · refine Iff.trans (Iff.trans Iff.rfl hleakedT) (or_congr hleaked ?_)
        rw [Classical.not_imp, and_iff_right hne]
    next heq =>
      cases h
      refine ⟨hinv'.unlinkHandle (by rwa [closeHandle_fname]), ?_⟩
      refine Iff.trans hleaked (or_iff_left ?_).symm
      exact not_not.mpr fun hne => absurd hne heq

/-! ## Runs -/

/-- A safe call keeps the invariant, and leaves a file open if it queues one. -/
theorem step (hinv : SpoolInv s) {c : SpoolCall} (hsafe : Safe s c)
    (h : SpoolerModule.step s c = some s') :
    SpoolInv s' ∧ ((∃ f, Leaked s' f) ↔ (∃ f, Leaked s f) ∨ ¬QueuesNothing s c) := by
  have hnothing {p : Prop} : p ∨ ¬True ↔ p := by rw [not_true_eq_false, or_false]
  cases c with
  | openSpoolFile now ticks ans =>
    cases h
    obtain ⟨hinv', hleaked⟩ := hinv.openSpoolFile hsafe
    exact ⟨hinv', hleaked.trans hnothing.symm⟩
  | writeSpoolFile handle data wrote =>
    cases h
    obtain ⟨hinv', hleaked⟩ := hinv.writeSpoolFile handle data wrote
    exact ⟨hinv', hleaked.trans hnothing.symm⟩
  | closeSpoolFile handle a => exact hinv.closeSpoolFile hsafe h
  | discardSpoolFile handle =>
    cases h
    obtain ⟨hinv', hleaked⟩ := hinv.discardSpoolFile hsafe
    exact ⟨hinv', hleaked.trans hnothing.symm⟩
  | addSpoolFile fname a =>
    obtain ⟨⟨ok, t⟩, hcall, ht⟩ := Option.map_eq_some_iff.mp h
    cases ht
    exact hinv.added (addSpoolFile_spec hinv.wellFormed hcall) hsafe
  | removeSpoolFile job =>
    cases h
    refine ⟨hinv.removeSpoolFile job, Iff.trans ?_ hnothing.symm⟩
    have hfiles : (s.removeSpoolFile job).2.fs.file = s.fs.file ∧
        (s.removeSpoolFile job).2.fs.nextFile = s.fs.nextFile ∧
        (s.removeSpoolFile job).2.handles = s.handles := by
      unfold Spooler.removeSpoolFile
      split
      · exact ⟨rfl, rfl, rfl⟩
      · split <;> exact ⟨rfl, rfl, rfl⟩
    obtain ⟨hfile, hnext, hhandles⟩ := hfiles
    unfold Leaked
    rw [hfile, hnext, hhandles]

/-- A safe run leaves a file open exactly if one of its calls queues something. -/
theorem run {cs : List SpoolCall} : ∀ {s : Spooler}, SpoolInv s → Along SpoolerModule.step Safe s cs →
    Runs.run SpoolerModule.step s cs = some s' →
    SpoolInv s' ∧ ((∃ f, Leaked s' f) ↔
      (∃ f, Leaked s f) ∨ ¬Along SpoolerModule.step QueuesNothing s cs) := by
  induction cs with
  | nil =>
    intro s hinv _ hrun
    cases hrun
    exact ⟨hinv, (or_iff_left (not_not.mpr trivial)).symm⟩
  | cons c cs ih =>
    intro s hinv hsafe hrun
    obtain ⟨t, hstep, hrest⟩ := run_cons_eq_some.mp hrun
    obtain ⟨hinvT, hleakedT⟩ := hinv.step hsafe.1 hstep
    obtain ⟨hinv', hleaked'⟩ := ih hinvT (hsafe.2 t hstep) hrest
    refine ⟨hinv', hleaked'.trans ?_⟩
    have hsplit : Along SpoolerModule.step QueuesNothing s (c :: cs) ↔
        QueuesNothing s c ∧ Along SpoolerModule.step QueuesNothing t cs := by
      refine and_congr_right fun _ => ⟨fun h => h t hstep, fun h t' ht' => ?_⟩
      cases hstep.symm.trans ht'
      exact h
    rw [hleakedT, hsplit, not_and_or, or_assoc]

end SpoolInv

/-- **The spooler.** As long as the names that it makes are of no spool file in use, and no
handle is closed a second time, every queued job keeps the bytes of its source, and no two jobs
or handles share a file. But every file it opens is closed once only as long as it queues
nothing: what has been copied is never closed. -/
theorem spool_runs {fs : Files} (hwf : fs.WellFormed) (hnone : fs.nextFile = 0)
    {cs : List SpoolCall} {s : Spooler} (hsafe : Along step Safe (.init fs) cs)
    (hrun : Runs.run step (.init fs) cs = some s) :
    s.JobsIntact ∧ s.Unshared ∧ (s.ClosedOnce ↔ Along step QueuesNothing (.init fs) cs) := by
  obtain ⟨hinv, hleaked⟩ := (SpoolInv.init hwf hnone).run hsafe hrun
  refine ⟨hinv.intact, hinv.unshared, ?_⟩
  have hstart : ¬∃ f, Leaked (.init fs) f := by
    rintro ⟨f, hf, -⟩
    have hlt : f < fs.nextFile := hf
    omega
  rw [hinv.closedOnce_iff, hleaked, or_iff_right hstart, not_not]

/-- Two files `a` and `b`, of a byte each. -/
def twoFiles : Files where
  inode n := if n = ['a'] then some 0 else if n = ['b'] then some 1 else none
  data i := if i = 0 then [1] else [2]
  nextInode := 2
  file _ := ⟨0, 0, 0⟩
  nextFile := 0

theorem twoFiles_wellFormed : twoFiles.WellFormed := by
  intro n i h
  simp only [twoFiles] at h ⊢
  split at h
  · cases h
    decide
  · split at h
    · cases h
      decide
    · cases h

/-- A handle is opened, written to and discarded, and a file that does not exist is spooled. -/
def discardCalls : List SpoolCall :=
  [.openSpoolFile 0 0 .opens, .writeSpoolFile 0 [7] 1, .discardSpoolFile 0,
    .addSpoolFile ['c'] ⟨true, true, 0, 0, true, .opens, []⟩]

theorem spool_runs_discard : ∃ s, Runs.run step (.init twoFiles) discardCalls = some s ∧
    s.JobsIntact ∧ s.Unshared ∧ s.ClosedOnce := by
  have hsafe : Along step Safe (.init twoFiles) discardCalls := by decide +kernel
  obtain ⟨hintact, hunshared, honce⟩ := spool_runs twoFiles_wellFormed rfl hsafe rfl
  exact ⟨_, rfl, hintact, hunshared, honce.mpr (by decide +kernel)⟩

/-- Two files are spooled between two ticks. -/
theorem spool_file_shared : ∃ s, Runs.run step (.init twoFiles)
      [.addSpoolFile ['a'] ⟨true, true, 0, 0, true, .opens, [.copied 1 1, .copied 0 0]⟩,
        .addSpoolFile ['b'] ⟨true, true, 0, 0, true, .opens, [.copied 1 1, .copied 0 0]⟩] = some s ∧
    ¬s.JobsIntact ∧ ¬s.Unshared ∧ ¬s.ClosedOnce := by
  have hrun : ∀ {cs}, (Runs.run step (.init twoFiles) cs).map (fun s =>
        (s.spoolList.map fun e => (s.fs.inode e.spoolName, s.fs.contents e.spoolName, e.source),
          decide s.ClosedOnce)) =
      some ([(some 2, [2], [1]), (some 2, [2], [2])], false) →
      ∃ s, Runs.run step (.init twoFiles) cs = some s ∧
        ¬s.JobsIntact ∧ ¬s.Unshared ∧ ¬s.ClosedOnce := by
    intro cs h
    obtain ⟨s, hs, heq⟩ := Option.map_eq_some_iff.mp h
    obtain ⟨hlist, honce⟩ := Prod.mk.inj heq
    have hlen : s.spoolList.length = 2 := by simpa using congrArg List.length hlist
    obtain ⟨e, e', hjobs⟩ := List.length_eq_two.mp hlen
    rw [hjobs] at hlist
    simp only [List.map_cons, List.map_nil, List.cons.injEq, Prod.mk.injEq] at hlist
    obtain ⟨⟨hi, hdata, hsource⟩, ⟨hi', -, -⟩, -⟩ := hlist
    refine ⟨s, hs, ?_, ?_, of_decide_eq_false honce⟩
    · intro hintact
      obtain ⟨i, hname, hsame⟩ := hintact e (by rw [hjobs]; exact List.mem_cons_self)
      rw [Files.contents, hname, Option.map_some, Option.getD_some, hsame, hsource] at hdata
      exact absurd hdata (by decide)
    · intro hunshared
      have hpair := hunshared.jobs
      rw [hjobs, List.pairwise_pair, hi, hi'] at hpair
      exact hpair rfl
  exact hrun (by decide +kernel)

end Vmm386.SpoolerModule
