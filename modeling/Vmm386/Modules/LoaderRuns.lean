import Vmm386.Lib.Runs
import Vmm386.Modules.LoaderChain

/-!
# Runs of the module loader

Each step keeps the invariants of the semaphore and of the chain, so callers can rely on
`open_module` in every run (`loader_runs`). The loader never compares the name in a file with
the name of the file, so this is about runs in which they agree.
-/

namespace Vmm386.Modules

open History Runs

variable {N T : Type*} {s s' : Loader N T} {t u : T} {k : ℕ}

/-! ## The steps -/

/-- A module that is in the chain has not been freed. -/
theorem moduleAt_ne_none {m : Module N} (hm : m ∈ s.modChain) : s.moduleAt m.addr ≠ none := by
  unfold Loader.moduleAt
  rw [Ne, List.find?_eq_none]
  intro hall
  exact hall m hm (by simp)

theorem loads_of_loading {n : N} {v : UShort} {r : Bool} (h : (s.task u).pc = .loading n v r) :
    (s.task u).loads ≠ [] := by
  unfold TaskState.loads
  rw [h]
  exact List.cons_ne_nil _ _

theorem ne_of_findModule_eq_none [DecidableEq N] {name : N} (h : s.findModule name = none) :
    ∀ m ∈ s.modChain, m.name ≠ name := by
  intro m hm heq
  exact List.find?_eq_none.mp h m hm (by simpa using heq)

theorem answer_lock {mod : Option ℕ} {version : UShort} {ans : OpenAnswer} :
    (s.answer t mod version ans).ownerTask = s.ownerTask ∧
      (s.answer t mod version ans).loadSem = s.loadSem ∧
      (s.answer t mod version ans).task = s.task := by
  unfold Loader.answer
  dsimp only
  split
  · exact ⟨rfl, rfl, rfl⟩
  · split
    · split <;> exact ⟨rfl, rfl, rfl⟩
    · split
      · exact ⟨rfl, rfl, rfl⟩
      · split
        · split <;> exact ⟨rfl, rfl, rfl⟩
        · exact ⟨rfl, rfl, rfl⟩

/-- What a task has obtained is initialised. -/
theorem ready_of_obtained (h : ChainInv k s) {a : ℕ} (hmem : .obtained u a ∈ s.history) :
    Ready k s.history a := by
  obtain ⟨later, earlier, hsplit⟩ := List.append_of_mem hmem
  have hready := always_iff.mp h.obtained later (.obtained u a) earlier hsplit u a rfl
  rw [hsplit]
  exact hready.imp id fun hr => List.mem_append_right _ (List.mem_cons_of_mem _ hr)

section Steps

variable [DecidableEq T]

/-- Both parts of the invariant. -/
structure LoaderInv (k : ℕ) (s : Loader N T) : Prop where
  lock : LockInv s
  chain : ChainInv k s

theorem LockInv.endOpen {mod : Option ℕ} {version : UShort} {ans : OpenAnswer}
    (h : LockInv (s.setPc t .code)) : LockInv (s.endOpen t mod version ans) := by
  obtain ⟨howner, hsem, htask⟩ : (s.endOpen t mod version ans).ownerTask = s.ownerTask ∧
      (s.endOpen t mod version ans).loadSem = s.loadSem ∧
      (s.endOpen t mod version ans).task = (s.setPc t .code).task := answer_lock
  exact h.congr howner (congrArg Tasks.Semaphore.blocked hsem) htask

/-- The task returns from `load_module` to `open_module`, and from there to its code. -/
theorem LoaderInv.loadReturned (h : LoaderInv k s) {mod : Option ℕ} {version : UShort}
    {release : Bool} {ans : OpenAnswer} (hloads : (s.task t).pc.loads = [release])
    (hleft : ∀ n v r, (s.task t).pc = .loading n v r →
      ¬Pending (Event.Loads n) (Event.Gone n) s.history)
    (hmod : ∀ a ∈ mod, Ready k s.history a) :
    LoaderInv k (s.loadReturned t mod version release ans) := by
  have hall : (s.task t).loads = release :: (s.task t).stack.flatMap Frame.loads := by
    unfold TaskState.loads
    rw [hloads]
    rfl
  unfold Loader.loadReturned
  cases release with
  | false =>
    constructor
    · have hlock : LockInv (s.setPc t .code) := h.lock.leave hall nofun
      exact hlock.endOpen
    · exact h.chain.endOpen hleft fun a ha _ => hmod a ha
  | true =>
    constructor
    · have hlock : LockInv (s.unlock.setPc t .code) :=
        (h.lock.alone_of_release hall rfl).unlock rfl nofun
      exact hlock.endOpen
    · have hhistory : s.unlock.history = s.history := Loader.unlock_history
      apply h.chain.unlock.endOpen
      · intro n v r hload
        rcases Loader.unlock_task t with heq | ⟨_, _, _, heq, -⟩
        · rw [hhistory]
          exact hleft n v r (heq ▸ hload)
        · rw [heq] at hload
          cases hload
      · intro a ha _
        rw [hhistory]
        exact hmod a ha

/-- `init` has returned. -/
theorem LoaderInv.initReturned (h : LoaderInv k s) {a : ℕ} {name : N} {version : UShort}
    {release : Bool} {rest : List (Frame N)} {ok : Bool}
    (hst : s.task t = ⟨.code, .initing a name version release :: rest⟩) :
    LoaderInv k (s.initReturned t a name version release rest ok) := by
  have hall : ∀ mod : Option ℕ,
      (⟨.closing mod version release, rest⟩ : TaskState N).loads = (s.task t).loads := by
    intro mod
    rw [hst]
    rfl
  have hpc : (s.task t).pc = .code := by rw [hst]
  have hrest : ∀ f ∈ rest, f ∈ (s.task t).stack := by
    intro f hf
    rw [hst]
    exact List.mem_cons_of_mem _ hf
  unfold Loader.initReturned
  cases ok with
  | true =>
    constructor
    · have hs : LockInv (s.setTask t ⟨.closing (some a) version release, rest⟩) :=
        h.lock.setTask (hall _) nofun
      exact hs.congr rfl rfl rfl
    · exact h.chain.closeFile hpc hrest
  | false =>
    constructor
    · have hs : LockInv (s.setTask t ⟨.closing none version release, rest⟩) :=
        h.lock.setTask (hall _) nofun
      exact hs.congr rfl rfl rfl
    · have hremove : ChainInv k ((s.record (.failed name)).removeModule a) := by
        apply (h.chain.record_failed name).removeModule
        intro m hm
        have hmem : m ∈ s.modChain := List.mem_of_find?_eq_some hm
        have haddr : m.addr = a := by simpa using List.find?_some hm
        have hname : m.name = name := by
          refine h.chain.frame_name t a name version release ?_ m hmem haddr
          rw [hst]
          exact List.mem_cons_self
        rw [hname]
        exact ⟨ChainInv.not_pending_of_gone (Or.inl rfl) nofun,
          ChainInv.not_pending_of_gone (Or.inl rfl) nofun⟩
      refine hremove.setTask nofun ?_ nofun fun f hf => Or.inl (hrest f hf)
      intro n v r heq
      cases hpc.symm.trans heq

/-- The file system has answered, with a module of the name that was asked for. -/
theorem LoaderInv.fileRead (h : LoaderInv k s) {name : N} {version : UShort} {release : Bool}
    {ans : OpenAnswer} {r : FileResult N} (hpc : (s.task t).pc = .loading name version release)
    (hnamed : ∀ i, r = .module i → i.name = name) :
    LoaderInv k (s.fileRead t name version release ans r) := by
  have hall : (s.task t).loads = release :: (s.task t).stack.flatMap Frame.loads := by
    unfold TaskState.loads
    rw [hpc]
    rfl
  have hfailed : ∀ n v r', (s.task t).pc = .loading n v r' →
      ¬Pending (Event.Loads n) (Event.Gone n) (.failed name :: s.history) := by
    intro n v r' heq
    cases hpc.symm.trans heq
    exact ChainInv.not_pending_of_gone (Or.inl rfl) nofun
  cases r with
  | noFile =>
    have hs : LoaderInv k (s.record (.failed name)) :=
      ⟨h.lock.congr rfl rfl rfl, h.chain.record_failed name⟩
    refine hs.loadReturned ?_ hfailed nofun
    have hpc' : ((s.record (.failed name)).task t).pc = .loading name version release := hpc
    rw [hpc']
    rfl
  | noModule =>
    constructor
    · have hs : LockInv (s.record (.failed name)) := h.lock.congr rfl rfl rfl
      exact hs.setTask hall.symm nofun
    · exact (h.chain.record_failed name).setTask nofun hfailed nofun fun _ hf => Or.inl hf
  | module i =>
    have hname := hnamed i rfl
    have hnew : ∀ m ∈ s.modChain, m.name ≠ i.name := by
      rw [hname]
      exact h.chain.fresh t name version release hpc
    have hothers : ∀ u, u ≠ t → ∀ n v r, (s.task u).pc ≠ .loading n v r := by
      intro u hu n v r heq
      exact hu (h.lock.owner_unique (loads_of_loading hpc) (loads_of_loading heq))
    have hadd : ∀ st : TaskState N, st.pc = .code →
        (∀ f ∈ st.stack, f ∈ (s.task t).stack ∨
          ∃ v r, f = .initing (i.toModule s.next).addr (i.toModule s.next).name v r) →
        ChainInv k (({ s with
          kernelCount := s.kernelCount + 1, next := s.next + 1 }.addModule
            (i.toModule s.next)).setTask t st) := by
      intro st hcode hstack
      have hpc' : (s.task t).pc = .loading (i.toModule s.next).name version release :=
        hpc.trans (by rw [← hname]; rfl)
      exact h.chain.addModule hpc' rfl rfl hothers hcode hstack rfl rfl rfl rfl
    unfold Loader.fileRead
    dsimp only
    split
    · constructor
      · have hs : LockInv (s.setTask t
            ⟨.code, .initing s.next name version release :: (s.task t).stack⟩) :=
          h.lock.setTask hall.symm nofun
        exact hs.congr rfl rfl rfl
      · apply ChainInv.record_init
        · apply hadd _ rfl
          intro f hf
          rcases List.mem_cons.mp hf with rfl | hf
          · exact Or.inr ⟨version, release, by rw [← hname]; rfl⟩
          · exact Or.inl hf
        · exact ⟨_, List.mem_cons_self, rfl⟩
        · exact h.chain.not_pendingInit hnew
    · constructor
      · have hs : LockInv (s.setPc t (.closing (some s.next) version release)) :=
          h.lock.setTask hall.symm nofun
        exact hs.congr rfl rfl rfl
      · -- the module is linked while the task is in its code, then the task goes on to close
        have hcode := hadd ⟨.code, (s.task t).stack⟩ rfl fun _ hf => Or.inl hf
        have hself := Loader.setTask_task_self (s := ({ s with
          kernelCount := s.kernelCount + 1, next := s.next + 1 }.addModule
            (i.toModule s.next))) (t := t) ⟨.code, (s.task t).stack⟩
        have hclosing := hcode.closeFile (a := s.next) (f := fun m => m.openCount + 1) (v := version)
          (r := release) (congrArg TaskState.pc hself) fun _ hf => hself.symm ▸ hf
        exact hclosing.congr rfl rfl rfl (Function.update_idem _ _ _).symm

theorem LoaderInv.expungeReturned (h : LoaderInv k s) {a : ℕ} {rest : List (Frame N)} {ok : Bool}
    (hst : s.task t = ⟨.code, .expunging a :: rest⟩) :
    LoaderInv k (s.expungeReturned t a rest ok) := by
  have hlock : LockInv (s.setTask t ⟨.code, rest⟩) := by
    apply h.lock.setTask
    · rw [hst]
      rfl
    · exact nofun
  have hchain : ChainInv k (s.setTask t ⟨.code, rest⟩) := by
    refine h.chain.setTask nofun ?_ nofun ?_
    · intro n v r heq
      rw [hst] at heq
      cases heq
    · intro f hf
      rw [hst]
      exact Or.inl (List.mem_cons_of_mem _ hf)
  unfold Loader.expungeReturned
  dsimp only
  split
  · split
    · exact ⟨hlock.congr rfl rfl rfl, hchain.congr rfl rfl rfl rfl⟩
    · rename_i m hm
      have hs : ChainInv k { s.setTask t ⟨.code, rest⟩ with kernelCount := s.kernelCount - 1 } :=
        hchain.congr rfl rfl rfl rfl
      constructor
      · exact hlock.congr rfl rfl rfl
      · apply (hs.record_expunged m.name).removeModule
        intro m' hm'
        cases Option.some.inj (hm.symm.trans hm')
        exact ⟨ChainInv.not_pending_of_gone (Or.inr rfl) nofun,
          ChainInv.not_pending_of_gone (Or.inr rfl) nofun⟩
  · exact ⟨hlock, hchain⟩

variable [DecidableEq N]

/-- The task has `load_sem`. -/
theorem LoaderInv.locked (halone : Alone s t) (h : ChainInv k s)
    (hpc : ∀ n v r, (s.task t).pc ≠ .loading n v r) {name : N} {version : UShort}
    {ans : OpenAnswer} : LoaderInv k (s.locked t name version ans) := by
  unfold Loader.locked
  dsimp only
  split
  · rename_i m hm
    have hunlock : ({ s with ownerTask := some t } : Loader N T).unlock = s.unlock := rfl
    rw [hunlock]
    have hmem : m ∈ s.modChain := List.mem_of_find?_eq_some hm
    have hchain : s.unlock.modChain = s.modChain := Loader.unlock_modChain
    constructor
    · have hlock : LockInv (s.unlock.setPc t .code) := halone.unlock rfl nofun
      exact hlock.endOpen
    · apply h.unlock.endOpen
      · intro n v r hload
        rcases Loader.unlock_task t with heq | ⟨_, _, _, heq, -⟩
        · exact absurd (heq ▸ hload) (hpc n v r)
        · rw [heq] at hload
          cases hload
      · intro a ha hnone
        cases ha
        exact absurd hnone (moduleAt_ne_none (hchain ▸ hmem))
  · rename_i hnone
    constructor
    · have hlock : LockInv ({ s with ownerTask := some t }.setPc t (.loading name version true)) :=
        halone.start rfl nofun
      exact hlock.congr rfl rfl rfl
    · have hs : ChainInv k ({ s with ownerTask := some t } : Loader N T) :=
        h.congr rfl rfl rfl rfl
      apply hs.startLoad (ne_of_findModule_eq_none hnone)
      intro u n v r hload
      by_cases hu : u = t
      · exact hpc n v r (hu ▸ hload)
      · exact loads_of_loading hload (halone.others u hu).2

theorem LoaderInv.openModule (h : LoaderInv k s) (hpc : (s.task t).pc = .code) {name : N}
    {version : UShort} {ans : OpenAnswer} : LoaderInv k (s.openModule t name version ans) := by
  have hload : ∀ n v r, (s.task t).pc ≠ .loading n v r := by
    intro n v r heq
    cases hpc.symm.trans heq
  unfold Loader.openModule
  split
  · rename_i m hm
    constructor
    · apply LockInv.endOpen
      apply h.lock.setTask
      · unfold TaskState.loads
        rw [hpc]
      · exact nofun
    · apply h.chain.endOpen
      · exact fun n v r heq => absurd heq (hload n v r)
      · intro a ha hnone
        cases ha
        exact absurd hnone (moduleAt_ne_none (List.mem_of_find?_eq_some hm))
  · rename_i hnone
    split
    · rename_i howner
      have hloads := (h.lock.owner t).mp howner
      constructor
      · have hlock : LockInv (s.setPc t (.loading name version false)) := by
          refine h.lock.enter howner ?_ nofun
          unfold TaskState.loads
          rw [hpc]
          rfl
        exact hlock.congr rfl rfl rfl
      · apply h.chain.startLoad (ne_of_findModule_eq_none hnone)
        intro u n v r heq
        have hu := h.lock.owner_unique hloads (loads_of_loading heq)
        exact hload n v r (hu ▸ heq)
    · split
      · constructor
        · have hs : LockInv { s with loadSem := s.loadSem.addTaskList t } :=
            h.lock.congr rfl rfl rfl
          apply hs.setTask
          · unfold TaskState.loads
            dsimp only
            rw [hpc]
            rfl
          · exact nofun
        · have hs : ChainInv k { s with loadSem := s.loadSem.addTaskList t } :=
            h.chain.congr rfl rfl rfl rfl
          exact hs.setTask nofun (fun n v r heq => absurd heq (hload n v r)) nofun
            fun _ hf => Or.inl hf
      · rename_i hfree
        rw [Bool.not_eq_true] at hfree
        exact LoaderInv.locked (h.lock.alone_of_free hfree) (h.chain.congr rfl rfl rfl rfl) hload

theorem LoaderInv.expungeModule (h : LoaderInv k s) (hpc : (s.task t).pc = .code) {name : N} :
    LoaderInv k (s.expungeModule t name) := by
  unfold Loader.expungeModule
  split
  · exact h
  · rename_i m _
    split
    · exact h
    · constructor
      · apply h.lock.setTask
        · unfold TaskState.loads
          rw [hpc]
          rfl
        · exact nofun
      · refine h.chain.setTask nofun ?_ nofun ?_
        · intro n v r heq
          cases hpc.symm.trans heq
        · intro f hf
          rcases List.mem_cons.mp hf with rfl | hf
          · exact Or.inr ⟨m.addr, rfl⟩
          · exact Or.inl hf

/-- The module in the file has the name of the file. -/
def Named (s : Loader N T) : LoaderOp N T → Prop
  | .fileRead t (.module i) _ => ∀ n v r, (s.task t).pc = .loading n v r → i.name = n
  | _ => True

theorem loaderStep_inv {op : LoaderOp N T} (h : LoaderInv k s) (hnamed : Named s op)
    (hstep : loaderStep s op = some s') : LoaderInv k s' := by
  cases op with
  | openModule t name version ans =>
    simp only [loaderStep] at hstep
    split at hstep
    · rename_i hpc
      cases hstep
      exact h.openModule hpc
    · cases hstep
  | resume t ans =>
    simp only [loaderStep] at hstep
    split at hstep
    · rename_i name version hpc
      cases hstep
      have hwoken : (s.task t).pc.isWoken := by
        rw [hpc]
        trivial
      apply LoaderInv.locked (h.lock.alone_of_woken hwoken) h.chain
      intro n v r heq
      cases hpc.symm.trans heq
    · cases hstep
  | fileRead t r ans =>
    simp only [loaderStep] at hstep
    split at hstep
    · rename_i name version release hpc
      cases hstep
      apply h.fileRead hpc
      rintro i rfl
      exact hnamed name version release hpc
    · cases hstep
  | initReturned t ok =>
    simp only [loaderStep] at hstep
    split at hstep
    · rename_i a name version release rest hst
      cases hstep
      exact h.initReturned hst
    · cases hstep
  | fileClosed t ans =>
    simp only [loaderStep] at hstep
    split at hstep
    · rename_i mod version release hpc
      cases hstep
      apply h.loadReturned
      · rw [hpc]
        rfl
      · intro n v r heq
        cases hpc.symm.trans heq
      · rintro a rfl
        exact h.chain.closing t a version release hpc
    · cases hstep
  | closeModule t a count =>
    simp only [loaderStep] at hstep
    split at hstep
    · split at hstep
      · rename_i hobtained
        cases hstep
        obtain ⟨e, hmem, he⟩ := List.any_eq_true.mp hobtained
        split at he
        · rename_i u b
          rw [decide_eq_true_eq] at he
          rw [he] at hmem
          exact ⟨h.lock.congr rfl rfl rfl, h.chain.setOpenCount (ready_of_obtained h.chain hmem)⟩
        · cases he
      · cases hstep
    · cases hstep
  | expungeModule t name =>
    simp only [loaderStep] at hstep
    split at hstep
    · rename_i hpc
      cases hstep
      exact h.expungeModule hpc
    · cases hstep
  | expungeReturned t ok =>
    simp only [loaderStep] at hstep
    split at hstep
    · rename_i a rest hst
      cases hstep
      exact h.expungeReturned hst
    · cases hstep

omit [DecidableEq T] [DecidableEq N] in
theorem boot_inv (statics : StaticModules N) :
    LoaderInv statics.next (Loader.boot statics : Loader N T) := by
  constructor
  · constructor
    · exact fun t => ⟨nofun, fun hne => absurd rfl hne⟩
    · exact fun t => trivial
    · exact fun t hw => hw.elim
    · exact fun _ => ⟨rfl, fun t hw => hw⟩
  · constructor
    · constructor
      · exact statics.names_nodup
      · exact fun _ => trivial
      · exact fun _ => trivial
      · trivial
    · exact statics.addr_lt
    · exact fun t a n v r hf => nomatch hf
    · exact fun t a n v r hf => nomatch hf
    · exact fun t n v r hpc => nomatch hpc
    · exact fun m hm => Or.inr (Or.inl (statics.addr_lt m hm))
    · exact fun t a v r hpc => nomatch hpc
    · exact fun n hp => hp.elim
    · exact fun n hp => hp.elim

end Steps

/-- **Module loading.** Whatever the tasks do and whenever they sleep: if each file that is
loaded holds a module of its name, then no name is twice in `mod_chain`, between two loads of a
file and between two calls of an `init` the module was expunged or its loading had failed, and
`open_module` returns no module before its initialisation is over. -/
theorem loader_runs [DecidableEq N] [DecidableEq T] (statics : StaticModules N)
    (ops : List (LoaderOp N T)) (s : Loader N T)
    (hrun : run loaderStep (.boot statics) ops = some s)
    (hnamed : Along loaderStep Named (.boot statics) ops) : Reliable statics.next s := by
  have hkept : Preserves loaderStep Named (LoaderInv (N := N) (T := T) statics.next) :=
    fun _ _ _ h hok hstep => loaderStep_inv h hok hstep
  exact (hkept.run (boot_inv statics) hnamed hrun).chain.toReliable

/-- No modules are linked into the kernel. -/
def noStatics (N : Type*) : StaticModules N :=
  ⟨[], 0, List.nodup_nil, List.nodup_nil, fun _ hm => nomatch hm⟩

def openOk : OpenAnswer := ⟨true, 0⟩

/-- A module with a function `init` and no others. -/
def plainImage {N : Type*} (name : N) : Image N := ⟨name, 1, true, false, false, false⟩

/-- Two tasks open the same module at the same time. -/
def competingOps : List (LoaderOp Unit Bool) :=
  [.openModule false () 1 openOk, .openModule true () 1 openOk,
    .fileRead false (.module (plainImage ())) openOk, .initReturned false true,
    .fileClosed false openOk, .resume true openOk]

theorem loader_runs_competing :
    ∃ s : Loader Unit Bool, run loaderStep (.boot (noStatics Unit)) competingOps = some s ∧
      s.modChain.length = 1 ∧ Reliable 0 s := by
  refine ⟨_, rfl, rfl, loader_runs (noStatics Unit) competingOps _ rfl ?_⟩
  have hnamed : ∀ ⦃s : Loader Unit Bool⦄ ⦃op⦄, True → True → Named s op := by
    intro s op _ _
    cases op with
    | fileRead t r ans => cases r <;> first | trivial | exact fun _ _ _ _ => rfl
    | _ => trivial
  have hkept : Preserves loaderStep (fun (_ : Loader Unit Bool) _ => True) fun _ => True :=
    fun _ _ _ _ _ _ => trivial
  exact hkept.along hnamed trivial (along_true _ _)

/-- A module is opened under its name and, by another path to its file, once more. -/
def aliasOps : List (LoaderOp Bool Unit) :=
  [false, true].flatMap fun name =>
    [.openModule () name 1 openOk, .fileRead () (.module (plainImage false)) openOk,
      .initReturned () true, .fileClosed () openOk]

/-- The `init` of a module fails, and the module is opened again. -/
def retryOps : List (LoaderOp Unit Unit) :=
  [.openModule () () 1 openOk, .fileRead () (.module (plainImage ())) openOk,
    .initReturned () false, .fileClosed () openOk, .openModule () () 1 openOk]

/-- The name of the module is twice in the chain; and the file of a module that was never
expunged is loaded twice. -/
theorem loaded_twice :
    (∃ s : Loader Bool Unit, run loaderStep (.boot (noStatics Bool)) aliasOps = some s ∧
      s.modChain.map (·.name) = [false, false]) ∧
    ∃ s : Loader Unit Unit, run loaderStep (.boot (noStatics Unit)) retryOps = some s ∧
      s.history = [.load (), .failed (), .init (), .load ()] :=
  ⟨⟨_, rfl, rfl⟩, ⟨_, rfl, rfl⟩⟩

end Vmm386.Modules
