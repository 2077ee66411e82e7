import Vmm386.Shell.Command

/-!
# The table of commands is a map of stacks

Every structure of the allocator is in one hash chain or in the free list. The definitions of a name
are the structures of its chain that have the name, in the order of the chain.
-/

namespace Vmm386.Shell

variable {φ δ : Type*} {s s' : Commands φ δ} {A : Stacks φ δ} {chains : ℕ → List ℕ}
  {free l l₁ l₂ : List ℕ} {p q i : ℕ} {name : Name} {func : φ} {doc : δ}

/-- The structures of the chain that have the name. -/
def named (s : Commands φ δ) (name : Name) (l : List ℕ) : List ℕ :=
  l.filter fun p => (s.cells p).name = name

/-- What a structure defines. -/
def definition (s : Commands φ δ) (p : ℕ) : φ × δ := ((s.cells p).func, (s.cells p).doc)

/-- The chains and the free list, and the stacks that they are. -/
structure Rep (s : Commands φ δ) (A : Stacks φ δ) (chains : ℕ → List ℕ) (free : List ℕ) : Prop where
  chain : ∀ i, Linked s.next NULL (s.table i) (chains i)
  freeChain : Linked s.next NULL s.freeList free
  apart : ∀ i j p, p ∈ chains i → p ∈ chains j → i = j
  notFree : ∀ i p, p ∈ chains i → p ∉ free
  allocated : ∀ i, ∀ p ∈ chains i, p ≤ CMD_BLK_SIZE * s.blocks
  freeAllocated : ∀ p ∈ free, p ≤ CMD_BLK_SIZE * s.blocks
  hash : ∀ i, ∀ p ∈ chains i, (s.cells p).hashValue = hashString (s.cells p).name
  defines : ∀ name, A name = (named s name (chains (slot name))).map (definition s)

/-! ## Allocation -/

@[simp] theorem setNext_next_self (v : ℕ) : (s.setNext p v).next p = v := by
  simp [Commands.setNext, Commands.next]

theorem setNext_cells_of_ne (h : q ≠ p) (v : ℕ) : (s.setNext p v).cells q = s.cells q :=
  Function.update_of_ne h ..

theorem linkCells_succ (new k : ℕ) :
    s.linkCells new (k + 1) = (s.linkCells new k).setNext (new + k) (new + (k + 1)) := by
  simp [Commands.linkCells, List.range_succ]

/-- All but the cells of the loop stay. -/
theorem linkCells_cells (new k : ℕ) (hp : p < new ∨ new + k ≤ p) :
    (s.linkCells new k).cells p = s.cells p := by
  induction k with
  | zero => rfl
  | succ k ih =>
    rw [linkCells_succ, setNext_cells_of_ne (by omega)]
    exact ih (by omega)

theorem linkCells_next (new k : ℕ) (h : new ≤ p) (h' : p < new + k) :
    (s.linkCells new k).next p = p + 1 := by
  induction k with
  | zero => omega
  | succ k ih =>
    rw [linkCells_succ]
    by_cases hp : p = new + k
    · rw [hp, setNext_next_self]
      rfl
    · rw [Commands.next, setNext_cells_of_ne hp]
      exact ih (by omega)

theorem linkCells_blocks (new k : ℕ) : (s.linkCells new k).blocks = s.blocks := by
  induction k with
  | zero => rfl
  | succ k ih =>
    rw [linkCells_succ]
    exact ih

theorem linkCells_table (new k : ℕ) : (s.linkCells new k).table = s.table := by
  induction k with
  | zero => rfl
  | succ k ih =>
    rw [linkCells_succ]
    exact ih

/-- Cells that are linked one to the next. -/
theorem linked_range {next : ℕ → ℕ} {k : ℕ} (hpos : p ≠ NULL)
    (hnext : ∀ q, p ≤ q → q < p + k → next q = q + 1) (hlast : next (p + k) = NULL) :
    Linked next NULL p (List.range' p (k + 1)) := by
  induction k generalizing p with
  | zero => exact ⟨rfl, hpos, hlast⟩
  | succ k ih =>
    rw [List.range'_succ]
    refine ⟨rfl, hpos, ?_⟩
    rw [hnext p le_rfl (by omega)]
    refine ih (Nat.succ_ne_zero p) (fun q hq hq' => hnext q (by omega) (by omega)) ?_
    rw [← hlast]
    congr 1
    omega

/-- The structures of a new block. -/
def newCells (s : Commands φ δ) : List ℕ := List.range' (CMD_BLK_SIZE * s.blocks + 1) CMD_BLK_SIZE

theorem newBlock_cells (h : p ≤ CMD_BLK_SIZE * s.blocks) : s.newBlock.cells p = s.cells p := by
  unfold Commands.newBlock
  dsimp only
  rw [setNext_cells_of_ne (by omega), linkCells_cells _ _ (by omega)]

theorem newBlock_next (h : p ≤ CMD_BLK_SIZE * s.blocks) : s.newBlock.next p = s.next p :=
  congrArg Command.next (newBlock_cells h)

theorem newBlock_blocks : s.newBlock.blocks = s.blocks + 1 := by
  unfold Commands.newBlock Commands.setNext
  dsimp only
  rw [linkCells_blocks]

theorem newBlock_table : s.newBlock.table = s.table := by
  unfold Commands.newBlock Commands.setNext
  dsimp only
  rw [linkCells_table]

theorem newBlock_linked : Linked s.newBlock.next NULL s.newBlock.freeList (newCells s) := by
  unfold Commands.newBlock newCells
  dsimp only
  refine linked_range (k := CMD_BLK_SIZE - 1) (Nat.succ_ne_zero _) (fun q hq hq' => ?_) ?_
  · have hne : q ≠ CMD_BLK_SIZE * s.blocks + 1 + (CMD_BLK_SIZE - 1) := by omega
    simp only [Commands.next, Commands.setNext, Function.update_of_ne hne]
    exact linkCells_next _ _ hq hq'
  · simp only [Commands.next, Commands.setNext, Function.update_self]

/-- The names and definitions of structures that stay. -/
theorem Rep.defines_congr (h : Rep s A chains free)
    (hcells : ∀ i, ∀ p ∈ chains i, s'.cells p = s.cells p) (name : Name) :
    A name = (named s' name (chains (slot name))).map (definition s') := by
  rw [h.defines name]
  have hnamed : named s' name (chains (slot name)) = named s name (chains (slot name)) := by
    refine List.filter_congr fun p hp => ?_
    rw [hcells _ p hp]
  rw [hnamed]
  refine List.map_congr_left fun p hp => ?_
  rw [definition, definition, hcells _ p (List.mem_of_mem_filter hp)]

theorem Rep.newBlock (h : Rep s A chains []) : Rep s.newBlock A chains (newCells s) := by
  have hcells : ∀ i, ∀ p ∈ chains i, s.newBlock.cells p = s.cells p :=
    fun i p hp => newBlock_cells (h.allocated i p hp)
  have hmem : ∀ p, p ∈ newCells s ↔
      CMD_BLK_SIZE * s.blocks + 1 ≤ p ∧ p < CMD_BLK_SIZE * s.blocks + 1 + CMD_BLK_SIZE :=
    fun p => by rw [newCells, List.mem_range'_1]
  refine ⟨fun i => ?_, newBlock_linked, h.apart, fun i p hp hp' => ?_, fun i p hp => ?_,
    fun p hp => ?_, fun i p hp => ?_, h.defines_congr hcells⟩
  · rw [newBlock_table]
    exact (h.chain i).congr fun p hp => newBlock_next (h.allocated i p hp)
  · have hle := h.allocated i p hp
    have hge := ((hmem p).mp hp').1
    omega
  · have hle := h.allocated i p hp
    rw [newBlock_blocks, Nat.mul_succ]
    omega
  · have hlt := ((hmem p).mp hp).2
    rw [newBlock_blocks, Nat.mul_succ]
    omega
  · rw [hcells i p hp]
    exact h.hash i p hp

/-- `alloc_command` gives a structure that is nowhere else. -/
theorem Rep.allocCommand (h : Rep s A chains free) :
    ∃ p free', s.allocCommand.1 = p ∧ Rep s.allocCommand.2 A chains free' ∧ p ≠ NULL ∧
      p ∉ free' ∧ (∀ i, p ∉ chains i) ∧ p ≤ CMD_BLK_SIZE * s.allocCommand.2.blocks := by
  have hsome : ∃ p free', Rep (if s.freeList = NULL then s.newBlock else s) A chains
      (p :: free') := by
    by_cases hnull : s.freeList = NULL
    · rw [if_pos hnull]
      have hnil : free = [] := by
        have hfree := h.freeChain
        rw [hnull] at hfree
        exact hfree.eq_nil
      subst hnil
      exact ⟨_, _, h.newBlock⟩
    · rw [if_neg hnull]
      obtain ⟨free', rfl, -⟩ := h.freeChain.exists_cons hnull
      exact ⟨_, _, h⟩
  obtain ⟨p, free', hrep⟩ := hsome
  have hp := hrep.freeChain.1
  have hnodup := List.nodup_cons.mp hrep.freeChain.nodup
  refine ⟨p, free', hp, ⟨hrep.chain, ?_, hrep.apart, ?_, hrep.allocated, ?_, hrep.hash,
    hrep.defines⟩, hrep.freeChain.2.1, hnodup.1, ?_, ?_⟩
  · show Linked _ NULL (Commands.next _ _) free'
    rw [hp]
    exact hrep.freeChain.2.2
  · exact fun i q hq hq' => hrep.notFree i q hq (List.mem_cons_of_mem p hq')
  · exact fun q hq => hrep.freeAllocated q (List.mem_cons_of_mem p hq)
  · exact fun i hi => hrep.notFree i p hi List.mem_cons_self
  · exact hrep.freeAllocated p List.mem_cons_self

/-! ## Adding -/

theorem named_cons_of_eq (h : (s.cells p).name = name) :
    named s name (p :: l) = p :: named s name l :=
  List.filter_cons_of_pos (by simpa using h)

theorem named_cons_of_ne (h : (s.cells p).name ≠ name) : named s name (p :: l) = named s name l :=
  List.filter_cons_of_neg (by simpa using h)

/-- A structure that is nowhere goes in front of its chain. -/
theorem Rep.push (h : Rep s A chains free) (hp : p ≠ NULL) (hfree : p ∉ free)
    (hchains : ∀ i, p ∉ chains i) (hle : p ≤ CMD_BLK_SIZE * s.blocks)
    (hcell : s'.cells p = ⟨s.table (slot name), name, hashString name, func, doc⟩)
    (hother : ∀ q, q ≠ p → s'.cells q = s.cells q)
    (htable : s'.table = Function.update s.table (slot name) p)
    (hlist : s'.freeList = s.freeList) (hblocks : s'.blocks = s.blocks) :
    Rep s' (A.push name (func, doc))
      (Function.update chains (slot name) (p :: chains (slot name))) free := by
  have hcells : ∀ i, ∀ q ∈ chains i, s'.cells q = s.cells q :=
    fun i q hq => hother q fun heq => hchains i (heq ▸ hq)
  have hnext : ∀ i, ∀ q ∈ chains i, s'.next q = s.next q :=
    fun i q hq => congrArg Command.next (hcells i q hq)
  have hname : (s'.cells p).name = name := by rw [hcell]
  -- the members of the new chains
  have hmem : ∀ i q, q ∈ Function.update chains (slot name) (p :: chains (slot name)) i →
      q = p ∧ i = slot name ∨ q ∈ chains i := by
    intro i q hq
    by_cases hi : i = slot name
    · rw [hi, Function.update_self] at hq
      rw [hi]
      exact (List.mem_cons.mp hq).imp (fun heq => ⟨heq, rfl⟩) id
    · rw [Function.update_of_ne hi] at hq
      exact .inr hq
  refine ⟨fun i => ?_, ?_, fun i j q hq hq' => ?_, fun i q hq => ?_, fun i q hq => ?_,
    fun q hq => ?_, fun i q hq => ?_, fun name' => ?_⟩
  · rw [htable]
    by_cases hi : i = slot name
    · rw [hi, Function.update_self, Function.update_self]
      refine ⟨rfl, hp, ?_⟩
      rw [Commands.next, hcell]
      exact (h.chain (slot name)).congr (hnext (slot name))
    · rw [Function.update_of_ne hi, Function.update_of_ne hi]
      exact (h.chain i).congr (hnext i)
  · rw [hlist]
    refine h.freeChain.congr fun q hq => congrArg Command.next (hother q ?_)
    rintro rfl
    exact hfree hq
  · rcases hmem i q hq with ⟨rfl, hi⟩ | hqi
    · rcases hmem j q hq' with ⟨-, hj⟩ | hqj
      · rw [hi, hj]
      · exact absurd hqj (hchains j)
    · rcases hmem j q hq' with ⟨rfl, -⟩ | hqj
      · exact absurd hqi (hchains i)
      · exact h.apart i j q hqi hqj
  · rcases hmem i q hq with ⟨rfl, -⟩ | hqi
    · exact hfree
    · exact h.notFree i q hqi
  · rw [hblocks]
    rcases hmem i q hq with ⟨rfl, -⟩ | hqi
    · exact hle
    · exact h.allocated i q hqi
  · rw [hblocks]
    exact h.freeAllocated q hq
  · rcases hmem i q hq with ⟨rfl, -⟩ | hqi
    · rw [hcell]
    · rw [hcells i q hqi]
      exact h.hash i q hqi
  · have hold := h.defines_congr hcells name'
    by_cases hn : name' = name
    · subst hn
      rw [Stacks.push, Function.update_self, Function.update_self, named_cons_of_eq hname, hold,
        List.map_cons, definition, hcell]
    · rw [Stacks.push, Function.update_of_ne hn, hold]
      by_cases hslot : slot name' = slot name
      · rw [hslot, Function.update_self, named_cons_of_ne (hname ▸ Ne.symm hn)]
      · rw [Function.update_of_ne hslot]

/-- `add_command`. -/
theorem Rep.addCommand (h : Rep s A chains free) (name : Name) (func : φ) (doc : δ) :
    ∃ chains' free', Rep (s.addCommand name func doc) (A.push name (func, doc)) chains' free' := by
  obtain ⟨p, free', hp, hrep, hne, hfree, hchains, hle⟩ := h.allocCommand
  refine ⟨_, free', hrep.push hne hfree hchains hle ?_ ?_ ?_ rfl rfl⟩
  · unfold Commands.addCommand Commands.setNext
    dsimp only
    rw [hp, Function.update_self, Function.update_self]
  · intro q hq
    unfold Commands.addCommand Commands.setNext
    dsimp only
    rw [hp, Function.update_of_ne hq, Function.update_of_ne hq]
  · unfold Commands.addCommand
    dsimp only
    rw [hp]
    rfl

/-! ## Removing -/

/-- The places of the pointers of a chain. -/
def links (s : Commands φ δ) (i : ℕ) : Links ℕ := ⟨s.table i, s.next⟩

theorem getPlace_eq (c : Option ℕ) : s.getPlace i c = (links s i).get c := by
  cases c <;> rfl

theorem setNext_next (v : ℕ) : (s.setNext p v).next = Function.update s.next p v := by
  refine funext fun q => ?_
  by_cases hq : q = p
  · rw [hq, setNext_next_self, Function.update_self]
  · rw [Function.update_of_ne hq, Commands.next, setNext_cells_of_ne hq]
    rfl

theorem links_setPlace (c : Option ℕ) (v : ℕ) :
    links (s.setPlace i c v) i = (links s i).set c v := by
  cases c with
  | none => exact congrArg (Links.mk · s.next) (Function.update_self ..)
  | some q => exact congrArg (Links.mk (s.table i)) (setNext_next v)

theorem setPlace_table_of_ne {j : ℕ} (h : j ≠ i) (c : Option ℕ) (v : ℕ) :
    (s.setPlace i c v).table j = s.table j := by
  cases c with
  | none => exact Function.update_of_ne h ..
  | some q => rfl

/-- Nothing but links has changed. -/
structure SameButNext (s s' : Commands φ δ) : Prop where
  name : ∀ p, (s'.cells p).name = (s.cells p).name
  hashValue : ∀ p, (s'.cells p).hashValue = (s.cells p).hashValue
  definition : ∀ p, definition s' p = definition s p
  blocks : s'.blocks = s.blocks

theorem sameButNext_setNext (p v : ℕ) : SameButNext s (s.setNext p v) := by
  have hcell : ∀ q, ∃ v', (s.setNext p v).cells q = { s.cells q with next := v' } := by
    intro q
    by_cases hq : q = p
    · exact ⟨v, by rw [hq]; exact Function.update_self ..⟩
    · exact ⟨s.next q, setNext_cells_of_ne hq v⟩
  refine ⟨fun q => ?_, fun q => ?_, fun q => ?_, rfl⟩
  · obtain ⟨v', hv⟩ := hcell q
    rw [hv]
  · obtain ⟨v', hv⟩ := hcell q
    rw [hv]
  · obtain ⟨v', hv⟩ := hcell q
    rw [Shell.definition, hv]
    rfl

theorem sameButNext_setPlace (c : Option ℕ) (v : ℕ) : SameButNext s (s.setPlace i c v) := by
  cases c with
  | none => exact ⟨fun _ => rfl, fun _ => rfl, fun _ => rfl, rfl⟩
  | some q => exact sameButNext_setNext q v

theorem SameButNext.trans {s'' : Commands φ δ} (h : SameButNext s s') (h' : SameButNext s' s'') :
    SameButNext s s'' where
  name p := (h'.name p).trans (h.name p)
  hashValue p := (h'.hashValue p).trans (h.hashValue p)
  definition p := (h'.definition p).trans (h.definition p)
  blocks := h'.blocks.trans h.blocks

theorem SameButNext.named (h : SameButNext s s') (name : Name) (l : List ℕ) :
    named s' name l = named s name l :=
  List.filter_congr fun p _ => by rw [h.name]

/-- The structure unlinked and put into the free list. -/
def unlink (s : Commands φ δ) (i : ℕ) (l₁ : List ℕ) (a : ℕ) : Commands φ δ :=
  (s.setPlace i (Links.behind none l₁) (s.next a)).freeCommand a

theorem sameButNext_unlink (a : ℕ) : SameButNext s (unlink s i l₁ a) := by
  have hset := sameButNext_setPlace (s := s) (i := i) (Links.behind none l₁) (s.next a)
  have hfree := hset.trans (sameButNext_setNext a
    (s.setPlace i (Links.behind none l₁) (s.next a)).freeList)
  exact ⟨hfree.name, hfree.hashValue, hfree.definition, hfree.blocks⟩

/-- The first structure with a name leaves its chain for the free list. -/
theorem Rep.unlink {a : ℕ} (h : Rep s A chains free)
    (hchain : chains (slot name) = l₁ ++ a :: l₂) (hname : (s.cells a).name = name)
    (hbefore : ∀ b ∈ l₁, (s.cells b).name ≠ name) :
    Rep (unlink s (slot name) l₁ a) (A.pop name)
      (Function.update chains (slot name) (l₁ ++ l₂)) (a :: free) := by
  have hsame : SameButNext s (Shell.unlink s (slot name) l₁ a) := sameButNext_unlink a
  have ha : a ∈ chains (slot name) := by
    rw [hchain]
    exact List.mem_append_right l₁ List.mem_cons_self
  have hl₁ : ∀ b ∈ l₁, b ∈ chains (slot name) := by
    intro b hb
    rw [hchain]
    exact List.mem_append_left _ hb
  have hsub : ∀ b ∈ l₁ ++ l₂, b ∈ chains (slot name) := by
    intro b hb
    rw [hchain]
    exact (List.sublist_cons_self a l₂).append_left l₁ |>.subset hb
  have hnotMem : a ∉ l₁ ++ l₂ := by
    have hnodup := (h.chain (slot name)).nodup
    rw [hchain] at hnodup
    exact (List.nodup_cons.mp (List.nodup_middle.mp hnodup)).1
  -- the links after the first store
  have hnext : ∀ b, b ∉ l₁ → (s.setPlace (slot name) (Links.behind none l₁) (s.next a)).next b =
      s.next b := by
    intro b hb
    have hne : some b ≠ Links.behind none l₁ := (Links.behind_ne (Option.some_ne_none b).symm hb).symm
    exact (congrArg (·.get (some b)) (links_setPlace _ _)).trans (Links.get_set_of_ne hne)
  have hremove : (links (s.setPlace (slot name) (Links.behind none l₁) (s.next a))
      (slot name)).ListAt NULL none (l₁ ++ l₂) := by
    rw [links_setPlace]
    refine Links.ListAt.remove ⟨?_, fun _ _ => nofun⟩
    rw [← hchain]
    exact h.chain (slot name)
  have hmem : ∀ i q, q ∈ Function.update chains (slot name) (l₁ ++ l₂) i → q ∈ chains i := by
    intro i q hq
    by_cases hi : i = slot name
    · rw [hi, Function.update_self] at hq
      rw [hi]
      exact hsub q hq
    · rw [Function.update_of_ne hi] at hq
      exact hq
  have hne : ∀ i q, q ∈ Function.update chains (slot name) (l₁ ++ l₂) i → q ≠ a := by
    rintro i q hq rfl
    have hi : i = slot name := h.apart _ _ _ (hmem i _ hq) ha
    rw [hi, Function.update_self] at hq
    exact hnotMem hq
  refine ⟨fun i => ?_, ?_, fun i j q hq hq' => h.apart i j q (hmem i q hq) (hmem j q hq'),
    fun i q hq hq' => ?_, fun i q hq => ?_, fun q hq => ?_, fun i q hq => ?_, fun name' => ?_⟩
  · show Linked (Commands.setNext _ _ _).next NULL _ _
    rw [setNext_next]
    by_cases hi : i = slot name
    · rw [hi, Function.update_self]
      exact hremove.1.update hnotMem _
    · rw [Function.update_of_ne hi]
      have hdisj : ∀ q ∈ chains i, q ∉ chains (slot name) :=
        fun q hq hq' => hi (h.apart i _ q hq hq')
      refine Linked.update ?_ (fun hai => hdisj a hai ha) _
      show Linked _ NULL ((s.setPlace (slot name) _ _).table i) _
      rw [setPlace_table_of_ne hi]
      exact (h.chain i).congr fun q hq => hnext q fun hq₁ => hdisj q hq (hl₁ q hq₁)
  · show Linked (Commands.setNext _ _ _).next NULL a _
    rw [setNext_next]
    refine Linked.push ?_ ((h.chain _).ne_null ha) (h.notFree _ a ha)
    have hlist : (s.setPlace (slot name) (Links.behind none l₁) (s.next a)).freeList =
        s.freeList := by
      cases Links.behind none l₁ <;> rfl
    rw [hlist]
    exact h.freeChain.congr fun q hq => hnext q fun hq₁ => h.notFree _ q (hl₁ q hq₁) hq
  · rcases List.mem_cons.mp hq' with heq | hfree
    · exact hne i q hq heq
    · exact h.notFree i q (hmem i q hq) hfree
  · rw [hsame.blocks]
    exact h.allocated i q (hmem i q hq)
  · rw [hsame.blocks]
    rcases List.mem_cons.mp hq with rfl | hfree
    · exact h.allocated _ q ha
    · exact h.freeAllocated q hfree
  · rw [hsame.hashValue, hsame.name]
    exact h.hash i q (hmem i q hq)
  · have hdef : definition (Shell.unlink s (slot name) l₁ a) = definition s :=
      funext hsame.definition
    rw [hsame.named, hdef, Stacks.pop]
    have hold := h.defines name'
    by_cases hn : name' = name
    · subst hn
      have hnone : named s name' l₁ = [] :=
        List.filter_eq_nil_iff.mpr fun b hb => by simpa using hbefore b hb
      rw [Function.update_self, Function.update_self, hold, hchain, Shell.named, Shell.named,
        List.filter_append, List.filter_append]
      have hfirst := named_cons_of_eq (l := l₂) hname
      unfold Shell.named at hnone hfirst
      rw [hnone, hfirst]
      rfl
    · rw [Function.update_of_ne hn, hold]
      by_cases hslot : slot name' = slot name
      · rw [hslot, Function.update_self, hchain, Shell.named, Shell.named, List.filter_append,
          List.filter_append]
        have hfirst := named_cons_of_ne (l := l₂) (hname ▸ Ne.symm hn)
        unfold Shell.named at hfirst
        rw [hfirst]
      · rw [Function.update_of_ne hslot]

/-! ## The loops -/

/-- A chain has no more structures than there are. -/
theorem Rep.length_lt_fuel (h : Rep s A chains free) (i : ℕ) : (chains i).length < s.fuel := by
  have hsub : chains i ⊆ List.range' 1 (CMD_BLK_SIZE * s.blocks) := by
    intro p hp
    have hne : p ≠ 0 := (h.chain i).ne_null hp
    have hle := h.allocated i p hp
    rw [List.mem_range'_1]
    omega
  have hle := ((h.chain i).nodup.subperm hsub).length_le
  rw [List.length_range'] at hle
  exact Nat.lt_succ_of_le hle

theorem findLoop_eq {k : ℕ} (h : Linked s.next NULL p l)
    (hhash : ∀ q ∈ l, (s.cells q).hashValue = hashString (s.cells q).name) (hk : l.length < k) :
    s.findLoop name k p = some ((named s name l).headD NULL) := by
  induction l generalizing p k with
  | nil =>
    obtain ⟨k, rfl⟩ := Nat.exists_eq_succ_of_ne_zero (Nat.ne_zero_of_lt hk)
    rw [Linked.nil_iff] at h
    rw [Commands.findLoop, if_pos h]
    exact congrArg some h
  | cons a l ih =>
    obtain ⟨k, rfl⟩ := Nat.exists_eq_succ_of_ne_zero (Nat.ne_zero_of_lt hk)
    obtain ⟨rfl, hne, hl⟩ := h
    rw [Commands.findLoop, if_neg hne]
    by_cases hname : (s.cells p).name = name
    · have hhit := hhash p List.mem_cons_self
      rw [hname] at hhit
      rw [if_pos ⟨hhit, hname⟩, named_cons_of_eq hname, List.headD_cons]
    · rw [if_neg fun hhit => hname hhit.2, named_cons_of_ne hname]
      exact ih hl (fun q hq => hhash q (List.mem_cons_of_mem p hq)) (Nat.lt_of_succ_lt_succ hk)

/-- `find_command` finds the first structure with the name. -/
theorem Rep.findCommand (h : Rep s A chains free) (name : Name) :
    s.findCommand name = some ((named s name (chains (slot name))).headD NULL) :=
  findLoop_eq (h.chain _) (h.hash _) (h.length_lt_fuel _)

/-- Without the name the loop comes to the end of the chain. -/
theorem removeLoop_of_none {k : ℕ} {c : Option ℕ} (h : (links s (slot name)).ListAt NULL c l)
    (hno : ∀ b ∈ l, (s.cells b).name ≠ name) (hk : l.length < k) :
    s.removeLoop name k c = some (false, s) := by
  induction l generalizing c k with
  | nil =>
    obtain ⟨k, rfl⟩ := Nat.exists_eq_succ_of_ne_zero (Nat.ne_zero_of_lt hk)
    rw [Commands.removeLoop]
    exact if_pos ((getPlace_eq c).trans h.1)
  | cons b l ih =>
    obtain ⟨k, rfl⟩ := Nat.exists_eq_succ_of_ne_zero (Nat.ne_zero_of_lt hk)
    have hget : s.getPlace (slot name) c = b := (getPlace_eq c).trans h.1.1
    rw [Commands.removeLoop, hget, if_neg h.1.2.1, if_neg fun hhit => hno b List.mem_cons_self hhit.2]
    exact ih h.tail (fun q hq => hno q (List.mem_cons_of_mem b hq)) (Nat.lt_of_succ_lt_succ hk)

/-- The first structure with the name is unlinked at its place. -/
theorem removeLoop_of_first {k a : ℕ} {c : Option ℕ}
    (h : (links s (slot name)).ListAt NULL c (l₁ ++ a :: l₂)) (hname : (s.cells a).name = name)
    (hhash : (s.cells a).hashValue = hashString name)
    (hbefore : ∀ b ∈ l₁, (s.cells b).name ≠ name) (hk : l₁.length < k) :
    s.removeLoop name k c =
      some (true, (s.setPlace (slot name) (Links.behind c l₁) (s.next a)).freeCommand a) := by
  induction l₁ generalizing c k with
  | nil =>
    obtain ⟨k, rfl⟩ := Nat.exists_eq_succ_of_ne_zero (Nat.ne_zero_of_lt hk)
    have hget : s.getPlace (slot name) c = a := (getPlace_eq c).trans h.1.1
    rw [Commands.removeLoop, hget, if_neg h.1.2.1, if_pos ⟨hhash, hname⟩]
    rfl
  | cons b l₁ ih =>
    obtain ⟨k, rfl⟩ := Nat.exists_eq_succ_of_ne_zero (Nat.ne_zero_of_lt hk)
    have hget : s.getPlace (slot name) c = b := (getPlace_eq c).trans h.1.1
    rw [Commands.removeLoop, hget, if_neg h.1.2.1, if_neg fun hhit => hbefore b List.mem_cons_self hhit.2]
    exact ih h.tail (fun q hq => hbefore q (List.mem_cons_of_mem b hq))
      (Nat.lt_of_succ_lt_succ hk)

/-- A list with a member of some kind, taken apart at the first. -/
theorem exists_first (l : List ℕ) (name : Name) :
    (∀ b ∈ l, (s.cells b).name ≠ name) ∨ ∃ l₁ a l₂, l = l₁ ++ a :: l₂ ∧
      (s.cells a).name = name ∧ ∀ b ∈ l₁, (s.cells b).name ≠ name := by
  induction l with
  | nil => exact .inl fun _ => nofun
  | cons a l ih =>
    by_cases ha : (s.cells a).name = name
    · exact .inr ⟨[], a, l, rfl, ha, fun _ => nofun⟩
    · rcases ih with hnone | ⟨l₁, b, l₂, rfl, hb, hbefore⟩
      · exact .inl (List.forall_mem_cons.mpr ⟨ha, hnone⟩)
      · exact .inr ⟨a :: l₁, b, l₂, rfl, hb, List.forall_mem_cons.mpr ⟨ha, hbefore⟩⟩

/-- `remove_command` returns whether there has been such a command, and takes off the last. -/
theorem Rep.removeCommand (h : Rep s A chains free) (name : Name) :
    ∃ s' chains' free', s.removeCommand name = some (!(A name).isEmpty, s') ∧
      Rep s' (A.pop name) chains' free' := by
  have hlist : (links s (slot name)).ListAt NULL none (chains (slot name)) :=
    ⟨h.chain _, fun _ _ => nofun⟩
  have hfuel := h.length_lt_fuel (slot name)
  rcases exists_first (s := s) (chains (slot name)) name with hnone | ⟨l₁, a, l₂, hsplit, ha, hbefore⟩
  · have hnil : A name = [] := by
      rw [h.defines name, Shell.named, List.filter_eq_nil_iff.mpr fun b hb => by simpa using hnone b hb]
      rfl
    refine ⟨s, chains, free, ?_, ?_⟩
    · rw [hnil]
      exact removeLoop_of_none hlist hnone hfuel
    · rw [Stacks.pop, hnil, List.tail_nil, ← hnil, Function.update_eq_self]
      exact h
  · have hcons : A name ≠ [] := by
      rw [h.defines name, hsplit, Shell.named, List.filter_append, ne_eq, List.map_eq_nil_iff,
        List.append_eq_nil_iff, not_and]
      intro _
      rw [List.filter_cons_of_pos (by simpa using ha)]
      exact List.cons_ne_nil a _
    refine ⟨_, _, _, ?_, h.unlink hsplit ha hbefore⟩
    have hhash := h.hash (slot name) a (by rw [hsplit]; simp)
    rw [ha] at hhash
    rw [hsplit] at hlist hfuel
    rw [List.length_append] at hfuel
    have htrue : (!(A name).isEmpty) = true := by simpa using hcons
    rw [htrue]
    exact removeLoop_of_first hlist ha hhash hbefore (by omega)

/-! ## Runs -/

/-- The table represents the stacks. -/
def Represents (s : Commands φ δ) (A : Stacks φ δ) : Prop := ∃ chains free, Rep s A chains free

theorem Represents.addCmdList (h : Represents s A) (cmds : List (Name × φ × δ)) :
    Represents (s.addCmdList cmds) (stackStep A (.addCmdList cmds)) := by
  induction cmds generalizing s A with
  | nil => exact h
  | cons cmd cmds ih =>
    obtain ⟨chains, free, hrep⟩ := h
    exact ih (hrep.addCommand cmd.1 cmd.2.1 cmd.2.2)

theorem Represents.removeCmdList (h : Represents s A) (cmds : List (Name × φ × δ)) :
    ∃ s', s.removeCmdList cmds = some s' ∧ Represents s' (stackStep A (.removeCmdList cmds)) := by
  induction cmds generalizing s A with
  | nil => exact ⟨s, rfl, h⟩
  | cons cmd cmds ih =>
    obtain ⟨chains, free, hrep⟩ := h
    obtain ⟨s₁, chains', free', hremove, hrep'⟩ := hrep.removeCommand cmd.1
    obtain ⟨s₂, hrest, h₂⟩ := ih ⟨chains', free', hrep'⟩
    refine ⟨s₂, ?_, h₂⟩
    rw [Commands.removeCmdList, hremove]
    exact hrest

theorem Represents.step (h : Represents s A) (op : Op φ δ) :
    ∃ s', step s op = some s' ∧ Represents s' (stackStep A op) := by
  cases op with
  | addCommand name func doc =>
    obtain ⟨chains, free, hrep⟩ := h
    exact ⟨_, rfl, hrep.addCommand name func doc⟩
  | removeCommand name =>
    obtain ⟨chains, free, hrep⟩ := h
    obtain ⟨s', chains', free', hremove, hrep'⟩ := hrep.removeCommand name
    exact ⟨s', by rw [Shell.step, hremove]; rfl, chains', free', hrep'⟩
  | addCmdList cmds => exact ⟨_, rfl, h.addCmdList cmds⟩
  | removeCmdList cmds => exact h.removeCmdList cmds

theorem Represents.run (h : Represents s A) (ops : List (Op φ δ)) :
    ∃ s', Runs.run Shell.step s ops = some s' ∧ Represents s' (ops.foldl stackStep A) := by
  induction ops generalizing s A with
  | nil => exact ⟨s, rfl, h⟩
  | cons op ops ih =>
    obtain ⟨s₁, hstep, h₁⟩ := h.step op
    obtain ⟨s₂, hrun, h₂⟩ := ih h₁
    exact ⟨s₂, Runs.run_cons_eq_some.mpr ⟨s₁, hstep, hrun⟩, h₂⟩

theorem represents_init (cells : ℕ → Command φ δ) :
    Represents (Commands.init cells) fun _ => [] :=
  ⟨fun _ => [], [], fun _ => rfl, rfl, fun _ _ _ => nofun, fun _ _ => nofun, fun _ _ => nofun,
    fun _ => nofun, fun _ _ => nofun, fun _ => rfl⟩

/-- `find_command` gives the first of the definitions, and the null pointer if there is none. -/
def Finds (s : Commands φ δ) (name : Name) (defs : List (φ × δ)) : Prop :=
  ∃ p, s.findCommand name = some p ∧ (p = NULL ↔ defs = []) ∧
    ∀ d ds, defs = d :: ds → (s.cells p).name = name ∧ definition s p = d

/-- No structure is in the table and in the free list. -/
def Separate (s : Commands φ δ) : Prop :=
  ∃ (chains : ℕ → List ℕ) (free : List ℕ), (∀ i, Linked s.next NULL (s.table i) (chains i)) ∧
    Linked s.next NULL s.freeList free ∧ ∀ i, ∀ p ∈ chains i, p ∉ free

theorem Rep.finds (h : Rep s A chains free) (name : Name) : Finds s name (A name) := by
  have hdefs := h.defines name
  refine ⟨_, h.findCommand name, ?_⟩
  cases hnamed : named s name (chains (slot name)) with
  | nil =>
    rw [hdefs, hnamed]
    exact ⟨iff_of_true rfl rfl, fun d ds => nofun⟩
  | cons p l =>
    have hp : p ∈ named s name (chains (slot name)) := hnamed ▸ List.mem_cons_self
    have hmem := List.mem_filter.mp hp
    rw [hdefs, hnamed]
    refine ⟨iff_of_false ((h.chain _).ne_null hmem.1) (List.cons_ne_nil (definition s p) _), fun d ds heq => ?_⟩
    exact ⟨of_decide_eq_true hmem.2, (List.cons.inj heq).1⟩

/-- **The table of commands.** After every sequence of calls each name has the definition that was
added last and has not been removed, and no structure is both in the table and free. -/
theorem commands_are_stacks (cells : ℕ → Command φ δ) (ops : List (Op φ δ)) :
    ∃ s, Runs.run step (Commands.init cells) ops = some s ∧
      (∀ name, Finds s name (ops.foldl stackStep (fun _ => []) name)) ∧ Separate s := by
  obtain ⟨s, hrun, chains, free, hrep⟩ := (represents_init cells).run ops
  exact ⟨s, hrun, hrep.finds, chains, free, hrep.chain, hrep.freeChain, hrep.notFree⟩

end Vmm386.Shell
