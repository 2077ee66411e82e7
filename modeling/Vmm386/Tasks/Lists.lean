import Vmm386.Lib.NodeList
import Vmm386.Lib.Runs

/-!
# Linked lists (`vmm/lists.h`)

The structure of a list is three pointers, and its head and tail nodes are the first and the last two of
them: the `pred` of the one is the `succ` of the other. What a pointer points to is a node of
`ListNode`; `none` is `NULL`. An operation that stores through `NULL` has no result.
-/

namespace Vmm386.Lists

/-- The structures of the lists `ι`, and the `succ` and `pred` of the nodes `α` that may be in them. -/
structure ListMem (ι α : Type*) where
  head : ι → Option (ListNode ι α)
  tail : ι → Option (ListNode ι α)
  tailpred : ι → Option (ListNode ι α)
  nodeSucc : α → Option (ListNode ι α)
  nodePred : α → Option (ListNode ι α)

namespace ListMem

variable {ι α : Type*}

/-- `p->succ`. -/
def succ (m : ListMem ι α) : ListNode ι α → Option (ListNode ι α)
  | .head l => m.head l
  | .tail l => m.tail l
  | .elem a => m.nodeSucc a

/-- `p->pred`. -/
def pred (m : ListMem ι α) : ListNode ι α → Option (ListNode ι α)
  | .head l => m.tail l
  | .tail l => m.tailpred l
  | .elem a => m.nodePred a

variable [DecidableEq ι] [DecidableEq α]

/-- `p->succ = v`. -/
def setSucc (m : ListMem ι α) (p : ListNode ι α) (v : Option (ListNode ι α)) : ListMem ι α :=
  match p with
  | .head l => { m with head := Function.update m.head l v }
  | .tail l => { m with tail := Function.update m.tail l v }
  | .elem a => { m with nodeSucc := Function.update m.nodeSucc a v }

/-- `p->pred = v`. -/
def setPred (m : ListMem ι α) (p : ListNode ι α) (v : Option (ListNode ι α)) : ListMem ι α :=
  match p with
  | .head l => { m with tail := Function.update m.tail l v }
  | .tail l => { m with tailpred := Function.update m.tailpred l v }
  | .elem a => { m with nodePred := Function.update m.nodePred a v }

/-- `init_list`. -/
def initList (m : ListMem ι α) (list : ι) : ListMem ι α :=
  { m with
    tailpred := Function.update m.tailpred list (some (.head list))
    tail := Function.update m.tail list none
    head := Function.update m.head list (some (.tail list)) }

/-- `append_node`. -/
def appendNode (m : ListMem ι α) (list : ι) (node : α) : Option (ListMem ι α) :=
  let tmp : ListNode ι α := .tail list
  let tmp2 := m.pred tmp
  let m := m.setPred tmp (some (.elem node))
  let m := m.setSucc (.elem node) (some tmp)
  let m := m.setPred (.elem node) tmp2
  tmp2.map fun p => m.setSucc p (some (.elem node))

/-- `prepend_node`. -/
def prependNode (m : ListMem ι α) (list : ι) (node : α) : Option (ListMem ι α) :=
  let tmp := m.head list
  let m := { m with head := Function.update m.head list (some (.elem node)) }
  let m := m.setSucc (.elem node) tmp
  let m := m.setPred (.elem node) (some (.head list))
  tmp.map fun p => m.setPred p (some (.elem node))

/-- `insert_node`, which does not use the list. -/
def insertNode (m : ListMem ι α) (node : α) (prev : ListNode ι α) : Option (ListMem ι α) :=
  match m.succ prev with
  | some tmp =>
    let m := m.setSucc (.elem node) (some tmp)
    let m := m.setPred (.elem node) (some prev)
    let m := m.setPred tmp (some (.elem node))
    some (m.setSucc prev (some (.elem node)))
  | none =>
    let m := m.setSucc (.elem node) (some prev)
    let tmp := m.pred prev
    let m := m.setPred (.elem node) tmp
    let m := m.setPred prev (some (.elem node))
    tmp.map fun p => m.setSucc p (some (.elem node))

/-- `remove_node`. -/
def removeNode (m : ListMem ι α) (node : α) : Option (ListMem ι α) :=
  let tmp := m.nodeSucc node
  (m.nodePred node).bind fun node =>
    let m := m.setSucc node tmp
    tmp.map fun p => m.setPred p (some node)

/-- `list_empty_p`. -/
def listEmptyP (m : ListMem ι α) (list : ι) : Bool := m.tailpred list = some (.head list)

end ListMem

/-! ## Runs -/

/-- A call of one of the operations. -/
inductive Op (ι α : Type*) where
  | initList (list : ι)
  | appendNode (list : ι) (node : α)
  | prependNode (list : ι) (node : α)
  | insertNode (list : ι) (node : α) (prev : ListNode ι α)
  | removeNode (node : α)

section

variable {ι α : Type*} [DecidableEq ι] [DecidableEq α]

/-- What the call does to the memory. -/
def step (m : ListMem ι α) : Op ι α → Option (ListMem ι α)
  | .initList list => some (m.initList list)
  | .appendNode list node => m.appendNode list node
  | .prependNode list node => m.prependNode list node
  | .insertNode _ node prev => m.insertNode node prev
  | .removeNode node => m.removeNode node

/-! ## Sequences -/

/-- The sequence of each list that has been initialised. -/
abbrev Sequences (ι α : Type*) := ι → Option (List α)

/-- No list has the node. -/
def Unused (L : Sequences ι α) (node : α) : Prop := ∀ l xs, L l = some xs → node ∉ xs

/-- `node` behind the first `prev`. -/
def insertAfter (node prev : α) : List α → List α
  | [] => []
  | a :: xs => if a = prev then a :: node :: xs else a :: insertAfter node prev xs

/-- What a call does to the sequences. Behind the tail of a list is the same as before it. -/
def seqStep (L : Sequences ι α) : Op ι α → Sequences ι α
  | .initList list => Function.update L list (some [])
  | .appendNode list node => Function.update L list ((L list).map (· ++ [node]))
  | .prependNode list node => Function.update L list ((L list).map (node :: ·))
  | .insertNode list node (.head _) => Function.update L list ((L list).map (node :: ·))
  | .insertNode list node (.tail _) => Function.update L list ((L list).map (· ++ [node]))
  | .insertNode list node (.elem prev) =>
    Function.update L list ((L list).map (insertAfter node prev))
  | .removeNode node => fun l => (L l).map (·.erase node)

/-- The calls that a user of the lists may make: a node that goes into a list is in none, and one that
is removed is in one; what it goes behind is a node of the list. -/
def Legal (L : Sequences ι α) : Op ι α → Prop
  | .initList _ => True
  | .appendNode list node => Unused L node ∧ ∃ xs, L list = some xs
  | .prependNode list node => Unused L node ∧ ∃ xs, L list = some xs
  | .insertNode list node prev => Unused L node ∧ ∃ xs, L list = some xs ∧
      prev ∈ Nodes.path list xs
  | .removeNode node => ∃ l xs, L l = some xs ∧ node ∈ xs

/-- Every call of the run is one that may be made. -/
def LegalRun (L : Sequences ι α) : List (Op ι α) → Prop
  | [] => True
  | op :: ops => Legal L op ∧ LegalRun (seqStep L op) ops

end

end Vmm386.Lists
