import Vmm386.Tasks.Lists

/-!
# The linked lists represent sequences

The lists that have not been initialised yet may hold anything. To them the `shadow` of the memory gives
the links of empty lists, so that it is a memory of nodes that represents a family of lists, and every
operation of `vmm/lists.h` is one on those nodes.
-/

namespace Vmm386.Lists

open Nodes (path lastNode firstNode mem_path)

variable {ι α : Type*} {m m' : ListMem ι α} {ready : ι → Bool}
  {l list : ι} {a node : α} {n u v : ListNode ι α} {p : Option (ListNode ι α)} {xs ys : List α}
  {L : Sequences ι α}

/-! ## The shadow -/

/-- The links of the nodes, with empty lists where no list is ready. -/
def shadow (m : ListMem ι α) (ready : ι → Bool) : Nodes (ListNode ι α) where
  succ
    | .head l => if ready l then m.head l else some (.tail l)
    | .tail l => if ready l then m.tail l else none
    | .elem a => m.nodeSucc a
  pred
    | .head l => if ready l then m.tail l else none
    | .tail l => if ready l then m.tailpred l else some (.head l)
    | .elem a => m.nodePred a

/-- A node with a node behind it: an element, or the head of a list that is ready. -/
def Before (ready : ι → Bool) : ListNode ι α → Prop
  | .head l => ready l
  | .tail _ => False
  | .elem _ => True

/-- A node with a node before it. -/
def Behind (ready : ι → Bool) : ListNode ι α → Prop
  | .head _ => False
  | .tail l => ready l
  | .elem _ => True

theorem shadow_succ (h : Before ready n) : (shadow m ready).succ n = m.succ n := by
  cases n with
  | head l => exact if_pos h
  | tail l => exact h.elim
  | elem a => rfl

theorem shadow_pred (h : Behind ready n) : (shadow m ready).pred n = m.pred n := by
  cases n with
  | head l => exact h.elim
  | tail l => exact if_pos h
  | elem a => rfl

theorem before_lastNode (h : ready l) (xs : List α) : Before ready (lastNode l xs) := by
  rcases List.eq_nil_or_concat' xs with rfl | ⟨xs, a, rfl⟩
  · exact h
  · rw [Nodes.lastNode_concat]
    trivial

theorem behind_firstNode (h : ready l) (xs : List α) : Behind ready (firstNode l xs) := by
  cases xs with
  | nil => exact h
  | cons a xs => trivial

/-! ## The lists that are ready -/

/-- The lists that have been initialised. -/
def isReady (L : Sequences ι α) (l : ι) : Bool := (L l).isSome

/-- The memory represents the sequences. -/
structure Refines (m : ListMem ι α) (L : Sequences ι α) : Prop where
  rep : Nodes.Rep (shadow m (isReady L)) fun l => (L l).getD []

theorem Unused.notMem (h : Unused L a) (k : ι) : a ∉ (L k).getD [] := by
  intro hmem
  cases hk : L k with
  | none =>
    rw [hk] at hmem
    cases hmem
  | some xs =>
    rw [hk] at hmem
    exact h k xs hk hmem

namespace Refines

/-- Two neighbours of a list, in the memory itself. -/
theorem adj (h : Refines m L) (hl : L l = some (xs ++ ys)) :
    m.succ (lastNode l xs) = some (firstNode l ys) ∧
      m.pred (firstNode l ys) = some (lastNode l xs) := by
  have hready : isReady L l = true := by
    rw [isReady, hl]
    rfl
  have hget : (L l).getD [] = xs ++ ys := by
    rw [hl]
    rfl
  have hadj := h.rep.adj hget
  exact ⟨(shadow_succ (before_lastNode hready xs)).symm.trans hadj.1,
    (shadow_pred (behind_firstNode hready ys)).symm.trans hadj.2⟩

/-- Nothing is behind the tail, or before the head. -/
theorem tail (h : Refines m L) (hl : L l = some xs) : m.tail l = none := by
  have hready : isReady L l = true := by
    rw [isReady, hl]
    rfl
  exact (if_pos hready).symm.trans (h.rep.last l)

end Refines

/-! ## The operations on the shadow -/

variable [DecidableEq ι]

theorem isReady_update {zs : List α} (hl : L l = some xs) :
    isReady (Function.update L l (some zs)) = isReady L := by
  refine funext fun k => ?_
  unfold isReady
  by_cases hk : k = l
  · rw [hk, Function.update_self, hl]
    rfl
  · rw [Function.update_of_ne hk]

theorem getD_update {zs : List α} :
    (fun k => (Function.update L l (some zs) k).getD []) =
      Function.update (fun k => (L k).getD []) l zs := by
  refine funext fun k => ?_
  by_cases hk : k = l
  · rw [hk, Function.update_self, Function.update_self]
    rfl
  · rw [Function.update_of_ne hk, Function.update_of_ne hk]

variable [DecidableEq α]

theorem shadow_setSucc (h : Before ready n) :
    shadow (m.setSucc n p) ready = (shadow m ready).setSucc n p := by
  refine congrArg₂ Nodes.mk (funext fun k => ?_) ?_
  · cases n with
    | head l =>
      by_cases hk : k = .head l
      · subst hk
        rw [Function.update_self]
        exact (if_pos h).trans (Function.update_self ..)
      · rw [Function.update_of_ne hk]
        cases k with
        | head l' =>
          have hne : l' ≠ l := fun heq => hk (congrArg _ heq)
          show (if ready l' then Function.update m.head l p l' else _) = _
          rw [Function.update_of_ne hne]
          rfl
        | tail l' => rfl
        | elem a => rfl
    | tail l => exact h.elim
    | elem a =>
      by_cases hk : k = .elem a
      · subst hk
        rw [Function.update_self]
        exact Function.update_self ..
      · rw [Function.update_of_ne hk]
        cases k with
        | head l => rfl
        | tail l => rfl
        | elem b =>
          have hne : b ≠ a := fun heq => hk (congrArg _ heq)
          exact Function.update_of_ne hne ..
  · cases n with
    | head l => rfl
    | tail l => exact h.elim
    | elem a => rfl

theorem shadow_setPred (h : Behind ready n) :
    shadow (m.setPred n p) ready = (shadow m ready).setPred n p := by
  refine congrArg₂ Nodes.mk ?_ (funext fun k => ?_)
  · cases n with
    | head l => exact h.elim
    | tail l => rfl
    | elem a => rfl
  · cases n with
    | head l => exact h.elim
    | tail l =>
      by_cases hk : k = .tail l
      · subst hk
        rw [Function.update_self]
        exact (if_pos h).trans (Function.update_self ..)
      · rw [Function.update_of_ne hk]
        cases k with
        | head l' => rfl
        | tail l' =>
          have hne : l' ≠ l := fun heq => hk (congrArg _ heq)
          show (if ready l' then Function.update m.tailpred l p l' else _) = _
          rw [Function.update_of_ne hne]
          rfl
        | elem a => rfl
    | elem a =>
      by_cases hk : k = .elem a
      · subst hk
        rw [Function.update_self]
        exact Function.update_self ..
      · rw [Function.update_of_ne hk]
        cases k with
        | head l => rfl
        | tail l => rfl
        | elem b =>
          have hne : b ≠ a := fun heq => hk (congrArg _ heq)
          exact Function.update_of_ne hne ..

/-- The four stores that wedge a node in between two others. -/
def wedge (m : ListMem ι α) (u : ListNode ι α) (a : α) (v : ListNode ι α) : ListMem ι α :=
  (((m.setSucc (.elem a) (some v)).setPred (.elem a) (some u)).setPred v (some (.elem a))).setSucc u
    (some (.elem a))

theorem shadow_wedge (hu : Before ready u) (hv : Behind ready v) :
    shadow (wedge m u a v) ready = (shadow m ready).link u (.elem a) v := by
  rw [wedge, shadow_setSucc hu, shadow_setPred hv, shadow_setPred (n := .elem a) trivial,
    shadow_setSucc (n := .elem a) trivial]
  rfl

theorem appendNode_eq (hu : m.pred (.tail l) = some u) :
    m.appendNode l a = some (wedge m u a (.tail l)) := by
  unfold ListMem.appendNode
  dsimp only
  rw [hu]
  rfl

theorem prependNode_eq (hv : m.head l = some v) :
    m.prependNode l a = some (wedge m (.head l) a v) := by
  unfold ListMem.prependNode
  dsimp only
  rw [hv]
  cases v <;> rfl

theorem insertNode_eq (hv : m.succ u = some v) : m.insertNode a u = some (wedge m u a v) := by
  unfold ListMem.insertNode
  rw [hv]
  rfl

/-- Behind the tail there is nothing, and the node goes before it. -/
theorem insertNode_tail_eq (hv : m.tail l = none) (hu : m.pred (.tail l) = some u) :
    m.insertNode a (.tail l) = some (wedge m u a (.tail l)) := by
  have hpred : (m.setSucc (.elem a) (some (.tail l))).pred (.tail l) = some u := hu
  have hsucc : m.succ (.tail l) = none := hv
  unfold ListMem.insertNode
  rw [hsucc]
  dsimp only
  rw [hpred]
  rfl

theorem removeNode_eq (hu : m.nodePred a = some u) (hv : m.nodeSucc a = some v) :
    m.removeNode a = some ((m.setSucc u (some v)).setPred v (some u)) := by
  unfold ListMem.removeNode
  rw [hu, hv]
  rfl

namespace Refines

/-- A node is wedged in at a gap. -/
theorem wedge (h : Refines m L) (ha : Unused L a) (hl : L l = some (xs ++ ys)) :
    Refines (wedge m (lastNode l xs) a (firstNode l ys))
      (Function.update L l (some (xs ++ a :: ys))) := by
  have hready : isReady L l = true := by
    rw [isReady, hl]
    rfl
  refine ⟨?_⟩
  rw [isReady_update hl, getD_update,
    shadow_wedge (before_lastNode hready xs) (behind_firstNode hready ys)]
  exact h.rep.link ha.notMem (by rw [hl]; rfl)

/-- `init_list`, of a new list or of one that has been in use. -/
theorem initList (h : Refines m L) (l : ι) :
    Refines (m.initList l) (Function.update L l (some [])) := by
  have hjoin : shadow (m.initList l) (isReady (Function.update L l (some []))) =
      (shadow m (isReady L)).join (.head l) (.tail l) := by
    have hready : isReady (Function.update L l (some [])) l = true := by
      simp [isReady]
    have hother : ∀ k, k ≠ l → isReady (Function.update L l (some [])) k = isReady L k := by
      intro k hk
      rw [isReady, Function.update_of_ne hk, isReady]
    refine congrArg₂ Nodes.mk (funext fun n => ?_) (funext fun n => ?_)
    · have hlast : (if isReady L l then m.tail l else none) = none := h.rep.last l
      rcases n with k | k | b
      · by_cases hk : k = l
        · subst hk
          simp [ListMem.initList, hready]
        · simp [ListMem.initList, hother k hk, hk, shadow]
      · by_cases hk : k = l
        · subst hk
          simp [ListMem.initList, hready, shadow, hlast]
        · simp [ListMem.initList, hother k hk, hk, shadow]
      · simp [ListMem.initList, shadow]
    · have hfirst : (if isReady L l then m.tail l else none) = none := h.rep.first l
      rcases n with k | k | b
      · by_cases hk : k = l
        · subst hk
          simp [ListMem.initList, hready, shadow, hfirst]
        · simp [ListMem.initList, hother k hk, hk, shadow]
      · by_cases hk : k = l
        · subst hk
          simp [ListMem.initList, hready]
        · simp [ListMem.initList, hother k hk, hk, shadow]
      · simp [ListMem.initList, shadow]
  refine ⟨?_⟩
  rw [hjoin, getD_update]
  exact h.rep.clear l

/-- `append_node`. -/
theorem appendNode (h : Refines m L) (ha : Unused L a) (hl : L l = some xs) :
    ∃ m', m.appendNode l a = some m' ∧
      Refines m' (Function.update L l (some (xs ++ [a]))) := by
  have hl' : L l = some (xs ++ []) := by rw [hl, List.append_nil]
  exact ⟨_, appendNode_eq (h.adj hl').2, h.wedge ha hl'⟩

/-- `prepend_node`. -/
theorem prependNode (h : Refines m L) (ha : Unused L a) (hl : L l = some xs) :
    ∃ m', m.prependNode l a = some m' ∧ Refines m' (Function.update L l (some (a :: xs))) := by
  have hl' : L l = some ([] ++ xs) := hl
  exact ⟨_, prependNode_eq (h.adj hl').1, h.wedge ha hl'⟩

/-- `insert_node` behind an element. -/
theorem insertNode (h : Refines m L) (ha : Unused L a) {prev : α}
    (hl : L l = some ((xs ++ [prev]) ++ ys)) :
    ∃ m', m.insertNode a (.elem prev) = some m' ∧
      Refines m' (Function.update L l (some ((xs ++ [prev]) ++ a :: ys))) := by
  have hsucc := (h.adj hl).1
  have hwedge := h.wedge ha hl
  rw [Nodes.lastNode_concat] at hsucc hwedge
  exact ⟨_, insertNode_eq hsucc, hwedge⟩

/-- `remove_node`. -/
theorem removeNode (h : Refines m L) (hl : L l = some (xs ++ a :: ys)) :
    ∃ m', m.removeNode a = some m' ∧ Refines m' (Function.update L l (some (xs ++ ys))) := by
  have hl' : L l = some ((xs ++ [a]) ++ ys) := by
    rw [hl, List.append_assoc]
    rfl
  have hready : isReady L l = true := by
    rw [isReady, hl]
    rfl
  have hpred := (h.adj hl).2
  have hsucc := (h.adj hl').1
  rw [Nodes.firstNode_cons] at hpred
  rw [Nodes.lastNode_concat] at hsucc
  refine ⟨_, removeNode_eq hpred hsucc, ⟨?_⟩⟩
  have hget : (L l).getD [] = xs ++ a :: ys := by
    rw [hl]
    rfl
  have hrep := h.rep.removeNode hget
  have hpred' : (shadow m (isReady L)).pred (.elem a) = some (lastNode l xs) := hpred
  have hsucc' : (shadow m (isReady L)).succ (.elem a) = some (firstNode l ys) := hsucc
  rw [Nodes.removeNode, hpred', hsucc'] at hrep
  rw [isReady_update hl, getD_update, shadow_setPred (behind_firstNode hready ys),
    shadow_setSucc (before_lastNode hready xs)]
  exact hrep

end Refines

/-! ## Runs -/

theorem insertAfter_append (h : a ∉ xs) (node : α) (ys : List α) :
    insertAfter node a (xs ++ a :: ys) = (xs ++ [a]) ++ node :: ys := by
  induction xs with
  | nil => simp [insertAfter]
  | cons b xs ih =>
    rw [List.mem_cons, not_or] at h
    simp [insertAfter, Ne.symm h.1, ih h.2]

/-- One call. -/
theorem step_refines (h : Refines m L) {op : Op ι α} (hop : Legal L op) :
    ∃ m', step m op = some m' ∧ Refines m' (seqStep L op) := by
  cases op with
  | initList list => exact ⟨_, rfl, h.initList list⟩
  | appendNode list node =>
    obtain ⟨ha, xs, hl⟩ := hop
    rw [seqStep, hl]
    exact h.appendNode ha hl
  | prependNode list node =>
    obtain ⟨ha, xs, hl⟩ := hop
    rw [seqStep, hl]
    exact h.prependNode ha hl
  | insertNode list node prev =>
    obtain ⟨ha, xs, hl, hprev⟩ := hop
    have hl' : L list = some (xs ++ []) := by rw [hl, List.append_nil]
    rcases mem_path.mp hprev with rfl | rfl | ⟨b, hb, rfl⟩
    · -- behind the head
      have hl₀ : L list = some ([] ++ xs) := hl
      rw [seqStep, hl]
      exact ⟨_, insertNode_eq (h.adj hl₀).1, h.wedge ha hl₀⟩
    · rw [seqStep, hl]
      exact ⟨_, insertNode_tail_eq (h.tail hl) (h.adj hl').2, h.wedge ha hl'⟩
    · obtain ⟨ys, zs, rfl, hnot⟩ := List.eq_append_cons_of_mem hb
      have hl₁ : L list = some ((ys ++ [b]) ++ zs) := by
        rw [hl, List.append_assoc]
        rfl
      rw [seqStep, hl, Option.map_some, insertAfter_append hnot]
      exact h.insertNode ha hl₁
  | removeNode node =>
    obtain ⟨l, xs, hl, hmem⟩ := hop
    obtain ⟨ys, zs, rfl, hnot⟩ := List.eq_append_cons_of_mem hmem
    have hseq : seqStep L (.removeNode node) = Function.update L l (some (ys ++ zs)) := by
      refine funext fun k => ?_
      show (L k).map (·.erase node) = _
      by_cases hk : k = l
      · rw [hk, Function.update_self, hl, Option.map_some, List.erase_append_right _ hnot,
          List.erase_cons_head]
      · rw [Function.update_of_ne hk]
        -- the node is in no other list
        cases hLk : L k with
        | none => rfl
        | some xs =>
          have hnode : node ∉ xs := fun hmem' =>
            hk (h.rep.apart k l node (by rw [hLk]; exact hmem') (by rw [hl]; exact hmem))
          rw [Option.map_some, List.erase_of_not_mem hnode]
    rw [hseq]
    exact h.removeNode hl

omit [DecidableEq ι] [DecidableEq α] in
/-- Before the first call every memory will do. -/
theorem refines_none (m : ListMem ι α) : Refines m fun _ => none := by
  refine ⟨?_, fun _ => List.nodup_nil, fun _ _ _ => nofun, fun _ => rfl, fun _ => rfl⟩
  intro l
  show List.IsChain _ (path l [])
  rw [path, List.map_nil, List.nil_append, List.isChain_pair]
  exact ⟨rfl, rfl⟩

theorem run_refines (ops : List (Op ι α)) (h : Refines m L) (hops : LegalRun L ops) :
    ∃ m', Runs.run step m ops = some m' ∧ Refines m' (ops.foldl seqStep L) := by
  induction ops generalizing m L with
  | nil => exact ⟨m, rfl, h⟩
  | cons op ops ih =>
    obtain ⟨m₁, hstep, h₁⟩ := step_refines h hops.1
    obtain ⟨m₂, hrun, h₂⟩ := ih h₁ hops.2
    exact ⟨m₂, Runs.run_cons_eq_some.mpr ⟨m₁, hstep, hrun⟩, h₂⟩

/-! ## What a list looks like in memory -/

/-- The list at `l` has the elements `xs`: the links in both directions agree along all its nodes,
and the only `NULL` is at both ends. -/
structure Represents (m : ListMem ι α) (l : ι) (xs : List α) : Prop where
  links : List.IsChain (fun u v => m.succ u = some v ∧ m.pred v = some u) (path l xs)
  head : m.head l = some (firstNode l xs)
  tailpred : m.tailpred l = some (lastNode l xs)
  ends : m.tail l = none
  nodup : xs.Nodup

omit [DecidableEq ι] [DecidableEq α] in
theorem Refines.represents (h : Refines m L) (hl : L l = some xs) : Represents m l xs where
  links := by
    have hready : isReady L l = true := by
      rw [isReady, hl]
      rfl
    have hchain := h.rep.chain l
    rw [hl] at hchain
    refine hchain.imp_of_mem_imp fun u v hu hv hadj => ?_
    have hbefore : Before (isReady L) u := by
      rcases mem_path.mp hu with rfl | rfl | ⟨b, -, rfl⟩
      · exact hready
      · exact absurd ((h.rep.last l).symm.trans hadj.1) (Option.some_ne_none v).symm
      · trivial
    have hbehind : Behind (isReady L) v := by
      rcases mem_path.mp hv with rfl | rfl | ⟨b, -, rfl⟩
      · exact absurd ((h.rep.first l).symm.trans hadj.2) (Option.some_ne_none u).symm
      · exact hready
      · trivial
    exact ⟨(shadow_succ hbefore).symm.trans hadj.1, (shadow_pred hbehind).symm.trans hadj.2⟩
  head := by
    have hfirst : L l = some ([] ++ xs) := hl
    exact (h.adj hfirst).1
  tailpred := by
    have hlast : L l = some (xs ++ []) := by rw [hl, List.append_nil]
    exact (h.adj hlast).2
  ends := h.tail hl
  nodup := by
    have hnodup := h.rep.nodup l
    rw [hl] at hnodup
    exact hnodup

theorem Represents.listEmptyP_iff (h : Represents m l xs) : m.listEmptyP l = true ↔ xs = [] := by
  rw [ListMem.listEmptyP, decide_eq_true_iff, h.tailpred]
  rcases List.eq_nil_or_concat' xs with rfl | ⟨xs, a, rfl⟩
  · simp
  · simp

/-- **Linked lists.** After every run of calls that may be made, from any contents of the memory,
each list that has been initialised is well formed, and has the elements that the same operations
on sequences give. -/
theorem lists_refine_sequences (m : ListMem ι α) (ops : List (Op ι α))
    (h : LegalRun (fun _ => none) ops) :
    ∃ m', Runs.run step m ops = some m' ∧ ∀ l xs, ops.foldl seqStep (fun _ => none) l = some xs →
      Represents m' l xs ∧ (m'.listEmptyP l = true ↔ xs = []) := by
  obtain ⟨m', hrun, href⟩ := run_refines ops (refines_none m) h
  exact ⟨m', hrun, fun l xs hl =>
    ⟨href.represents hl, (href.represents hl).listEmptyP_iff⟩⟩

/-- A run with a node behind the tail of a list, and one that is removed. -/
theorem lists_refine_short_run :
    ∃ m', Runs.run step (⟨fun _ => none, fun _ => some (.elem 1), fun _ => none, fun _ => none,
        fun _ => none⟩ : ListMem ℕ ℕ)
        [.initList 0, .appendNode 0 1, .insertNode 0 2 (.tail 0), .removeNode 1] = some m' ∧
      Represents m' 0 [2] := by
  have hunused : Unused (Function.update (Function.update (fun _ => none) 0 (some [])) 0
      (some [1])) 2 := by
    intro l xs hl
    rw [Function.update_idem, Function.update_apply] at hl
    split_ifs at hl
    cases hl
    decide
  obtain ⟨m', hrun, h⟩ := lists_refine_sequences _
    [.initList 0, .appendNode 0 1, .insertNode 0 2 (.tail 0), .removeNode 1]
    ⟨trivial, ⟨by simp [Unused, seqStep, Function.update_apply], [], by simp [seqStep]⟩,
      ⟨hunused, [1], by simp [seqStep], by simp [path]⟩, ⟨0, [1, 2], by simp [seqStep], by simp⟩,
      trivial⟩
  exact ⟨m', hrun, (h 0 [2] rfl).1⟩

end Vmm386.Lists
