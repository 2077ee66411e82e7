import Vmm386.Lib.History
import Vmm386.Modules.LoaderLock

/-!
# What callers of `open_module` can rely on

No name is twice in `mod_chain`, a file is not loaded and a module is not initialised a second
time before it is gone, and `open_module` returns no module whose `init` has not finished.
This, and what it rests on, is an invariant of the chain, the calls of `load_module` and the
history.
-/

namespace Vmm386.Modules

open History

variable {N T : Type*} {s s' : Loader N T} {t : T} {k : ℕ}

/-! ## The invariant -/

/-- The module that was loaded under the name is not there any more. -/
def Event.Gone (name : N) (e : Event N T) : Prop := e = .failed name ∨ e = .expunged name

def Event.Loads (name : N) (e : Event N T) : Prop := e = .load name

def Event.Inits (name : N) (e : Event N T) : Prop := e = .init name

/-- The module at the address is initialised: it is one of the first, below `k`, or its
initialisation is over. -/
def Ready (k : ℕ) (history : List (Event N T)) (a : ℕ) : Prop := a < k ∨ .ready a ∈ history

theorem Ready.cons {history : List (Event N T)} {a : ℕ} (h : Ready k history a) (e : Event N T) :
    Ready k (e :: history) a :=
  h.imp id (List.mem_cons_of_mem e)

/-- What callers can rely on. -/
structure Reliable (k : ℕ) (s : Loader N T) : Prop where
  names : (s.modChain.map (·.name)).Nodup
  loads : ∀ name, Alternates (Event.Loads name) (Event.Gone name) s.history
  inits : ∀ name, Alternates (Event.Inits name) (Event.Gone name) s.history
  obtained : Always (fun e earlier => ∀ t a, e = .obtained t a → Ready k earlier a) s.history

/-- The chain, the calls of `load_module` and the history agree. -/
structure ChainInv (k : ℕ) (s : Loader N T) : Prop extends Reliable k s where
  addr_lt : ∀ m ∈ s.modChain, m.addr < s.next
  frame_lt : ∀ t a n v r, .initing a n v r ∈ (s.task t).stack → a < s.next
  frame_name : ∀ t a n v r, .initing a n v r ∈ (s.task t).stack →
    ∀ m ∈ s.modChain, m.addr = a → m.name = n
  fresh : ∀ t n v r, (s.task t).pc = .loading n v r → ∀ m ∈ s.modChain, m.name ≠ n
  ready : ∀ m ∈ s.modChain, m.openCount = -1 ∨ Ready k s.history m.addr
  closing : ∀ t a v r, (s.task t).pc = .closing (some a) v r → Ready k s.history a
  pendingLoad : ∀ n, Pending (Event.Loads n) (Event.Gone n) s.history →
    (∃ m ∈ s.modChain, m.name = n) ∨ ∃ t v r, (s.task t).pc = .loading n v r
  pendingInit : ∀ n, Pending (Event.Inits n) (Event.Gone n) s.history →
    ∃ m ∈ s.modChain, m.name = n

namespace ChainInv

/-! ## What is recorded -/

/-- An event that starts nothing. -/
theorem record (h : ChainInv k s) {e : Event N T} (hload : ∀ n, e ≠ .load n)
    (hinit : ∀ n, e ≠ .init n) (hobtained : ∀ t a, e = .obtained t a → Ready k s.history a) :
    ChainInv k (s.record e) where
  names := h.names
  loads n := ⟨fun he => absurd he (hload n), h.loads n⟩
  inits n := ⟨fun he => absurd he (hinit n), h.inits n⟩
  obtained := ⟨hobtained, h.obtained⟩
  addr_lt := h.addr_lt
  frame_lt := h.frame_lt
  frame_name := h.frame_name
  fresh := h.fresh
  ready m hm := (h.ready m hm).imp id fun hr => hr.cons e
  closing t a v r hpc := (h.closing t a v r hpc).cons e
  pendingLoad n hp := by
    rcases hp with he | ⟨-, hp⟩
    · exact absurd he (hload n)
    · exact h.pendingLoad n hp
  pendingInit n hp := by
    rcases hp with he | ⟨-, hp⟩
    · exact absurd he (hinit n)
    · exact h.pendingInit n hp

theorem record_failed (h : ChainInv k s) (name : N) : ChainInv k (s.record (.failed name)) :=
  h.record nofun nofun nofun

theorem record_expunged (h : ChainInv k s) (name : N) : ChainInv k (s.record (.expunged name)) :=
  h.record nofun nofun nofun

theorem record_ready (h : ChainInv k s) (a : ℕ) : ChainInv k (s.record (.ready a)) :=
  h.record nofun nofun nofun

theorem record_obtained (h : ChainInv k s) {a : ℕ} (ha : Ready k s.history a) :
    ChainInv k (s.record (.obtained t a)) := by
  refine h.record (e := .obtained t a) nofun nofun ?_
  intro u b heq
  cases heq
  exact ha

/-- Once it is gone, nothing is pending. -/
theorem not_pending_of_gone {start : Event N T → Prop} {name : N} {e : Event N T}
    {history : List (Event N T)} (hgone : e.Gone name) (hstart : ¬start e) :
    ¬Pending start (Event.Gone name) (e :: history) := by
  rintro (he | ⟨hne, -⟩)
  · exact hstart he
  · exact hne hgone

/-! ## The chain -/

theorem setOpenCount (h : ChainInv k s) {a : ℕ} {f : Module N → Short}
    (ha : Ready k s.history a) : ChainInv k (s.setOpenCount a f) := by
  have hmem : ∀ m ∈ (s.setOpenCount a f).modChain, ∃ m' ∈ s.modChain, m.name = m'.name ∧
      m.addr = m'.addr ∧ (m.openCount = m'.openCount ∨ m'.addr = a) := by
    intro m hm
    obtain ⟨m', hm', rfl⟩ := List.mem_map.mp hm
    refine ⟨m', hm', ?_⟩
    split
    · rename_i haddr
      exact ⟨rfl, rfl, Or.inr haddr⟩
    · exact ⟨rfl, rfl, Or.inl rfl⟩
  have hback : ∀ m' ∈ s.modChain, ∃ m ∈ (s.setOpenCount a f).modChain, m.name = m'.name := by
    intro m' hm'
    refine ⟨_, List.mem_map_of_mem hm', ?_⟩
    split <;> rfl
  have hnames : (s.setOpenCount a f).modChain.map (·.name) = s.modChain.map (·.name) := by
    unfold Loader.setOpenCount
    rw [List.map_map]
    apply List.map_congr_left
    intro m _
    dsimp only [Function.comp]
    split <;> rfl
  constructor
  · constructor
    · rw [hnames]
      exact h.names
    · exact h.loads
    · exact h.inits
    · exact h.obtained
  · intro m hm
    obtain ⟨m', hm', -, haddr, -⟩ := hmem m hm
    rw [haddr]
    exact h.addr_lt m' hm'
  · exact h.frame_lt
  · intro t b n v r hf m hm hb
    obtain ⟨m', hm', hname, haddr, -⟩ := hmem m hm
    rw [hname]
    exact h.frame_name t b n v r hf m' hm' (haddr ▸ hb)
  · intro t n v r hpc m hm
    obtain ⟨m', hm', hname, -⟩ := hmem m hm
    rw [hname]
    exact h.fresh t n v r hpc m' hm'
  · intro m hm
    obtain ⟨m', hm', -, haddr, hcount | rfl⟩ := hmem m hm
    · rw [hcount, haddr]
      exact h.ready m' hm'
    · rw [haddr]
      exact Or.inr ha
  · exact h.closing
  · intro n hp
    refine (h.pendingLoad n hp).imp ?_ id
    intro ⟨m', hm', hname⟩
    obtain ⟨m, hm, heq⟩ := hback m' hm'
    exact ⟨m, hm, heq.trans hname⟩
  · intro n hp
    obtain ⟨m', hm', hname⟩ := h.pendingInit n hp
    obtain ⟨m, hm, heq⟩ := hback m' hm'
    exact ⟨m, hm, heq.trans hname⟩

/-- `remove_module` removes the module at the address and no other. -/
theorem mem_removeModule {a : ℕ} {m : Module N} (hm : m ∈ s.modChain) :
    m ∈ (s.removeModule a).modChain ∨ s.moduleAt a = some m := by
  unfold Loader.removeModule Loader.moduleAt
  by_cases ha : ∃ m' ∈ s.modChain, m'.addr = a
  · obtain ⟨m', hm', haddr⟩ := ha
    obtain ⟨first, l₁, l₂, hbefore, hfirst, hsplit, herase⟩ :=
      List.exists_of_eraseP (p := fun m : Module N => decide (m.addr = a)) hm' (by simpa using haddr)
    dsimp only
    rw [herase]
    rw [hsplit] at hm ⊢
    rcases List.mem_append.mp hm with hm | hm
    · exact Or.inl (List.mem_append_left _ hm)
    · rcases List.mem_cons.mp hm with rfl | hm
      · right
        rw [List.find?_append, List.find?_eq_none.mpr hbefore, Option.none_or]
        exact List.find?_cons_of_pos hfirst
      · exact Or.inl (List.mem_append_right _ hm)
  · left
    dsimp only
    rw [List.eraseP_of_forall_not]
    · exact hm
    · intro m' hm' haddr
      exact ha ⟨m', hm', by simpa using haddr⟩

/-- A module that is gone may be taken out of the chain. -/
theorem removeModule (h : ChainInv k s) {a : ℕ}
    (hgone : ∀ m, s.moduleAt a = some m →
      ¬Pending (Event.Loads m.name) (Event.Gone m.name) s.history ∧
        ¬Pending (Event.Inits m.name) (Event.Gone m.name) s.history) :
    ChainInv k (s.removeModule a) := by
  have hsub : (s.removeModule a).modChain.Sublist s.modChain := List.eraseP_sublist
  have hmem : ∀ m ∈ (s.removeModule a).modChain, m ∈ s.modChain := fun m hm => hsub.subset hm
  constructor
  · constructor
    · exact h.names.sublist (hsub.map _)
    · exact h.loads
    · exact h.inits
    · exact h.obtained
  · exact fun m hm => h.addr_lt m (hmem m hm)
  · exact h.frame_lt
  · exact fun t b n v r hf m hm => h.frame_name t b n v r hf m (hmem m hm)
  · exact fun t n v r hpc m hm => h.fresh t n v r hpc m (hmem m hm)
  · exact fun m hm => h.ready m (hmem m hm)
  · exact h.closing
  · intro n hp
    refine (h.pendingLoad n hp).imp ?_ id
    rintro ⟨m, hm, rfl⟩
    rcases mem_removeModule hm with hkept | hremoved
    · exact ⟨m, hkept, rfl⟩
    · exact absurd hp (hgone m hremoved).1
  · intro n hp
    obtain ⟨m, hm, rfl⟩ := h.pendingInit n hp
    rcases mem_removeModule hm with hkept | hremoved
    · exact ⟨m, hkept, rfl⟩
    · exact absurd hp (hgone m hremoved).2

/-- `init` of a module in the chain is called, the first time since it was gone. -/
theorem record_init (h : ChainInv k s) {name : N} (hmem : ∃ m ∈ s.modChain, m.name = name)
    (hnone : ¬Pending (Event.Inits name) (Event.Gone name) s.history) :
    ChainInv k (s.record (.init name)) where
  names := h.names
  loads n := ⟨nofun, h.loads n⟩
  inits n := by
    refine ⟨?_, h.inits n⟩
    intro he
    cases he
    exact hnone
  obtained := ⟨nofun, h.obtained⟩
  addr_lt := h.addr_lt
  frame_lt := h.frame_lt
  frame_name := h.frame_name
  fresh := h.fresh
  ready m hm := (h.ready m hm).imp id fun hr => hr.cons _
  closing t a v r hpc := (h.closing t a v r hpc).cons _
  pendingLoad n hp := by
    rcases hp with he | ⟨-, hp⟩
    · cases he
    · exact h.pendingLoad n hp
  pendingInit n hp := by
    rcases hp with he | ⟨-, hp⟩
    · cases he
      exact hmem
    · exact h.pendingInit n hp

/-- `open_module` returns only what is initialised. -/
theorem answer (h : ChainInv k s) {mod : Option ℕ} {version : UShort} {ans : OpenAnswer}
    (hmod : ∀ a ∈ mod, s.moduleAt a = none → Ready k s.history a) :
    ChainInv k (s.answer t mod version ans) := by
  unfold Loader.answer
  split
  · exact h
  · rename_i a
    split
    · rename_i hnone
      split
      · exact h.record_obtained (hmod a rfl hnone)
      · exact h
    · rename_i m hm
      split
      · exact h
      · rename_i hnot
        -- the count is not -1, so the module is initialised
        have haddr : m.addr = a := by simpa using List.find?_some hm
        have hready : Ready k s.history a := by
          rcases h.ready m (List.mem_of_find?_eq_some hm) with hcount | hready
          · exact absurd (Or.inl hcount) hnot
          · exact haddr ▸ hready
        split
        · dsimp only
          split
          · exact (h.setOpenCount hready).record_obtained hready
          · exact h.setOpenCount hready
        · exact (h.setOpenCount hready).record_obtained hready

/-! ## The tasks -/

/-- The fields besides the chain, the history, the tasks and the next address do not matter. -/
theorem congr (h : ChainInv k s) (hchain : s'.modChain = s.modChain) (hnext : s'.next = s.next)
    (hhistory : s'.history = s.history) (htask : s'.task = s.task) : ChainInv k s' := by
  obtain ⟨chain, sem, owner, count, task, next, history⟩ := s'
  cases hchain
  cases hnext
  cases hhistory
  cases htask
  exact { h with }

/-- `init` is pending for no name that is not in the chain. -/
theorem not_pendingInit (h : ChainInv k s) {name : N}
    (hname : ∀ m ∈ s.modChain, m.name ≠ name) :
    ¬Pending (Event.Inits name) (Event.Gone name) s.history := by
  intro hp
  obtain ⟨m, hm, heq⟩ := h.pendingInit name hp
  exact hname m hm heq

variable [DecidableEq T]

/-- A task goes on, and does not enter `load_module`. -/
theorem setTask (h : ChainInv k s) {st : TaskState N} (hload : ∀ n v r, st.pc ≠ .loading n v r)
    (hleft : ∀ n v r, (s.task t).pc = .loading n v r →
      ¬Pending (Event.Loads n) (Event.Gone n) s.history)
    (hclosing : ∀ a v r, st.pc = .closing (some a) v r → Ready k s.history a)
    (hstack : ∀ f ∈ st.stack, f ∈ (s.task t).stack ∨ ∃ a, f = .expunging a) :
    ChainInv k (s.setTask t st) := by
  have hframe : ∀ u a n v r, .initing a n v r ∈ ((s.setTask t st).task u).stack →
      .initing a n v r ∈ (s.task u).stack := by
    intro u a n v r hf
    by_cases hu : u = t
    · rw [hu, Loader.setTask_task_self] at hf
      rcases hstack _ hf with hold | ⟨b, heq⟩
      · rw [hu]
        exact hold
      · cases heq
    · rwa [Loader.setTask_task_of_ne st hu] at hf
  constructor
  · exact { h.toReliable with }
  · exact h.addr_lt
  · exact fun u a n v r hf => h.frame_lt u a n v r (hframe u a n v r hf)
  · exact fun u a n v r hf => h.frame_name u a n v r (hframe u a n v r hf)
  · intro u n v r hpc
    by_cases hu : u = t
    · rw [hu, Loader.setTask_task_self] at hpc
      exact absurd hpc (hload n v r)
    · rw [Loader.setTask_task_of_ne st hu] at hpc
      exact h.fresh u n v r hpc
  · exact h.ready
  · intro u a v r hpc
    by_cases hu : u = t
    · rw [hu, Loader.setTask_task_self] at hpc
      exact hclosing a v r hpc
    · rw [Loader.setTask_task_of_ne st hu] at hpc
      exact h.closing u a v r hpc
  · intro n hp
    refine (h.pendingLoad n hp).imp id ?_
    intro ⟨u, v, r, hpc⟩
    refine ⟨u, v, r, ?_⟩
    by_cases hu : u = t
    · rw [hu] at hpc
      exact absurd hp (hleft n v r hpc)
    · rwa [Loader.setTask_task_of_ne st hu]
  · exact h.pendingInit

/-- A task goes on in its own code. -/
theorem setPc_code (h : ChainInv k s)
    (hleft : ∀ n v r, (s.task t).pc = .loading n v r →
      ¬Pending (Event.Loads n) (Event.Gone n) s.history) : ChainInv k (s.setPc t .code) :=
  h.setTask nofun hleft nofun fun _ hf => Or.inl hf

/-- A task starts to load a module that is neither in the chain nor being loaded. -/
theorem startLoad (h : ChainInv k s) {name : N} {version : UShort} {release : Bool}
    (hchain : ∀ m ∈ s.modChain, m.name ≠ name)
    (hloading : ∀ u n v r, (s.task u).pc ≠ .loading n v r) :
    ChainInv k (s.startLoad t name version release) := by
  have hnone : ¬Pending (Event.Loads name) (Event.Gone name) s.history := by
    intro hp
    rcases h.pendingLoad name hp with ⟨m, hm, heq⟩ | ⟨u, v, r, hpc⟩
    · exact hchain m hm heq
    · exact hloading u name v r hpc
  have htask : ((s.startLoad t name version release).task t).pc = .loading name version release :=
    Loader.setPc_pc_self _
  have hstack : ∀ u, ((s.startLoad t name version release).task u).stack = (s.task u).stack :=
    fun u => Loader.setPc_stack _ u
  have hother : ∀ u, u ≠ t →
      ((s.startLoad t name version release).task u).pc = (s.task u).pc :=
    fun u hu => Loader.setPc_pc_of_ne _ hu
  constructor
  · constructor
    · exact h.names
    · intro n
      refine ⟨?_, h.loads n⟩
      intro he
      cases he
      exact hnone
    · exact fun n => ⟨nofun, h.inits n⟩
    · exact ⟨nofun, h.obtained⟩
  · exact h.addr_lt
  · intro u a n v r hf
    rw [hstack u] at hf
    exact h.frame_lt u a n v r hf
  · intro u a n v r hf
    rw [hstack u] at hf
    exact h.frame_name u a n v r hf
  · intro u n v r hpc
    by_cases hu : u = t
    · rw [hu, htask] at hpc
      cases hpc
      exact hchain
    · rw [hother u hu] at hpc
      exact absurd hpc (hloading u n v r)
  · exact fun m hm => (h.ready m hm).imp id fun hr => hr.cons _
  · intro u a v r hpc
    by_cases hu : u = t
    · rw [hu, htask] at hpc
      cases hpc
    · rw [hother u hu] at hpc
      exact (h.closing u a v r hpc).cons _
  · intro n hp
    rcases hp with he | ⟨-, hp⟩
    · cases he
      exact Or.inr ⟨t, version, release, htask⟩
    · rcases h.pendingLoad n hp with hm | ⟨u, v, r, hpc⟩
      · exact Or.inl hm
      · exact absurd hpc (hloading u n v r)
  · intro n hp
    rcases hp with he | ⟨-, hp⟩
    · cases he
    · exact h.pendingInit n hp

/-- The module that the task was loading is linked into the chain. -/
theorem addModule (h : ChainInv k s) {m : Module N} {st : TaskState N} {v : UShort} {r : Bool}
    (hpc : (s.task t).pc = .loading m.name v r) (haddr : m.addr = s.next) (hcount : m.openCount = -1)
    (hloading : ∀ u, u ≠ t → ∀ n v r, (s.task u).pc ≠ .loading n v r) (hcode : st.pc = .code)
    (hstack : ∀ f ∈ st.stack, f ∈ (s.task t).stack ∨ ∃ v r, f = .initing m.addr m.name v r)
    (hnext : s'.next = s.next + 1) (hchain : s'.modChain = m :: s.modChain)
    (hhistory : s'.history = s.history) (htask : s'.task = Function.update s.task t st) :
    ChainInv k s' := by
  have hself : s'.task t = st := by
    rw [htask]
    exact Function.update_self ..
  have hother : ∀ u, u ≠ t → s'.task u = s.task u := by
    intro u hu
    rw [htask]
    exact Function.update_of_ne hu ..
  have hnew : ∀ m' ∈ s.modChain, m'.name ≠ m.name := h.fresh t m.name v r hpc
  have hframe : ∀ u a n v r, .initing a n v r ∈ (s'.task u).stack →
      .initing a n v r ∈ (s.task u).stack ∨ (a = m.addr ∧ n = m.name) := by
    intro u a n v r hf
    by_cases hu : u = t
    · rw [hu, hself] at hf
      rcases hstack _ hf with hold | ⟨v', r', heq⟩
      · rw [hu]
        exact Or.inl hold
      · cases heq
        exact Or.inr ⟨rfl, rfl⟩
    · rw [hother u hu] at hf
      exact Or.inl hf
  have hnoload : ∀ u n v r, (s'.task u).pc ≠ .loading n v r := by
    intro u n v r hload
    by_cases hu : u = t
    · rw [hu, hself, hcode] at hload
      cases hload
    · rw [hother u hu] at hload
      exact hloading u hu n v r hload
  constructor
  · constructor
    · rw [hchain, List.map_cons, List.nodup_cons]
      refine ⟨?_, h.names⟩
      intro hmem
      obtain ⟨m', hm', hname⟩ := List.mem_map.mp hmem
      exact hnew m' hm' hname
    · rw [hhistory]
      exact h.loads
    · rw [hhistory]
      exact h.inits
    · rw [hhistory]
      exact h.obtained
  · intro m' hm'
    rw [hchain] at hm'
    rw [hnext]
    rcases List.mem_cons.mp hm' with rfl | hm'
    · omega
    · have hlt := h.addr_lt m' hm'
      omega
  · intro u a n v r hf
    rw [hnext]
    rcases hframe u a n v r hf with hold | ⟨ha, -⟩
    · have hlt := h.frame_lt u a n v r hold
      omega
    · omega
  · intro u a n v r hf m' hm' ha
    rw [hchain] at hm'
    rcases hframe u a n v r hf with hold | ⟨hold, hname⟩
    · rcases List.mem_cons.mp hm' with rfl | hm'
      · have hlt := h.frame_lt u a n v r hold
        omega
      · exact h.frame_name u a n v r hold m' hm' ha
    · rcases List.mem_cons.mp hm' with rfl | hm'
      · exact hname.symm
      · have hlt := h.addr_lt m' hm'
        omega
  · exact fun u n v r hload => absurd hload (hnoload u n v r)
  · intro m' hm'
    rw [hchain] at hm'
    rw [hhistory]
    rcases List.mem_cons.mp hm' with rfl | hm'
    · exact Or.inl hcount
    · exact h.ready m' hm'
  · intro u a v r hclosing
    rw [hhistory]
    by_cases hu : u = t
    · rw [hu, hself, hcode] at hclosing
      cases hclosing
    · rw [hother u hu] at hclosing
      exact h.closing u a v r hclosing
  · intro n hp
    rw [hhistory] at hp
    left
    rw [hchain]
    rcases h.pendingLoad n hp with ⟨m', hm', hname⟩ | ⟨u, v', r', hload⟩
    · exact ⟨m', List.mem_cons_of_mem _ hm', hname⟩
    · refine ⟨m, List.mem_cons_self, ?_⟩
      by_cases hu : u = t
      · rw [hu, hpc] at hload
        cases hload
        rfl
      · exact absurd hload (hloading u hu n v' r')
  · intro n hp
    rw [hhistory] at hp
    obtain ⟨m', hm', hname⟩ := h.pendingInit n hp
    rw [hchain]
    exact ⟨m', List.mem_cons_of_mem _ hm', hname⟩

theorem unlock (h : ChainInv k s) : ChainInv k s.unlock := by
  unfold Loader.unlock
  dsimp only
  split
  · exact h.congr rfl rfl rfl rfl
  · rename_i u rest _
    have hs : ChainInv k { s with
        ownerTask := none, loadSem := { s.loadSem with waiting := rest } } :=
      h.congr rfl rfl rfl rfl
    split
    · rename_i name version hpc
      refine hs.setTask nofun ?_ nofun fun _ hf => Or.inl hf
      intro n v r hload
      exact absurd (hpc.symm.trans hload) nofun
    · exact hs

/-- A module is initialised, and its file is closed. -/
theorem closeFile (h : ChainInv k s) {a : ℕ} {f : Module N → Short} {v : UShort} {r : Bool}
    {rest : List (Frame N)} (hpc : (s.task t).pc = .code) (hrest : ∀ f ∈ rest, f ∈ (s.task t).stack) :
    ChainInv k (((s.record (.ready a)).setOpenCount a f).setTask t ⟨.closing (some a) v r, rest⟩) := by
  have hready : Ready k (.ready a :: s.history) a := Or.inr List.mem_cons_self
  have hcount : ChainInv k ((s.record (.ready a)).setOpenCount a f) :=
    (h.record_ready a).setOpenCount hready
  refine hcount.setTask nofun ?_ ?_ fun f hf => Or.inl (hrest f hf)
  · intro n v r heq
    cases hpc.symm.trans heq
  · intro b v r heq
    cases heq
    exact hready

theorem endOpen (h : ChainInv k s) {mod : Option ℕ} {version : UShort} {ans : OpenAnswer}
    (hleft : ∀ n v r, (s.task t).pc = .loading n v r →
      ¬Pending (Event.Loads n) (Event.Gone n) s.history)
    (hmod : ∀ a ∈ mod, s.moduleAt a = none → Ready k s.history a) :
    ChainInv k (s.endOpen t mod version ans) :=
  (h.setPc_code hleft).answer hmod

end ChainInv

end Vmm386.Modules
