import Mathlib.Data.List.Chain
import Mathlib.Data.List.Nodup
import Mathlib.Logic.Function.Basic
import Mathlib.Tactic.Basic

/-!
# Doubly linked lists with head and tail nodes

A list has a node in front of its first element and one behind its last one, so that an
element always has two neighbours. The links of a memory of such nodes represent a family of
lists; inserting and removing a node are operations on the lists they represent.
-/

/-- The nodes of the lists `ι` with elements `α`. -/
inductive ListNode (ι α : Type*) where
  | head (l : ι)
  | tail (l : ι)
  | elem (a : α)
deriving DecidableEq

/-- The links of the nodes; `none` is the null pointer. -/
structure Nodes (N : Type*) where
  succ : N → Option N
  pred : N → Option N

namespace Nodes

section Ops

variable {N : Type*} {m : Nodes N} {n k a b u v : N} {p : Option N}

/-- The two nodes are neighbours. -/
def Adj (m : Nodes N) (a b : N) : Prop := m.succ a = some b ∧ m.pred b = some a

/-- A chain keeps its links where no link between two neighbours is written to. -/
theorem chain_congr {m' : Nodes N} {l : List N}
    (hsame : ∀ x ∈ l, ∀ y ∈ l, m.Adj x y → m'.succ x = m.succ x ∧ m'.pred y = m.pred y)
    (h : List.IsChain m.Adj l) : List.IsChain m'.Adj l := by
  refine h.imp_of_mem_imp ?_
  intro x y hx hy hadj
  obtain ⟨hs, hp⟩ := hsame x hx y hy hadj
  exact ⟨hs.trans hadj.1, hp.trans hadj.2⟩

variable [DecidableEq N]

def setSucc (m : Nodes N) (n : N) (p : Option N) : Nodes N :=
  { m with succ := Function.update m.succ n p }

def setPred (m : Nodes N) (n : N) (p : Option N) : Nodes N :=
  { m with pred := Function.update m.pred n p }

@[simp] theorem setSucc_succ : (m.setSucc n p).succ k = if k = n then p else m.succ k := by
  by_cases h : k = n
  · rw [if_pos h, h]
    exact Function.update_self n p m.succ
  · rw [if_neg h]
    exact Function.update_of_ne h p m.succ

@[simp] theorem setSucc_pred : (m.setSucc n p).pred = m.pred := rfl

@[simp] theorem setPred_pred : (m.setPred n p).pred k = if k = n then p else m.pred k := by
  by_cases h : k = n
  · rw [if_pos h, h]
    exact Function.update_self n p m.pred
  · rw [if_neg h]
    exact Function.update_of_ne h p m.pred

@[simp] theorem setPred_succ : (m.setPred n p).succ = m.succ := rfl

/-- `a` is wedged in between `u` and `v`. -/
def link (m : Nodes N) (u a v : N) : Nodes N :=
  (((m.setSucc a (some v)).setPred a (some u)).setPred v (some a)).setSucc u (some a)

/-- `u` and `v` become neighbours. -/
def join (m : Nodes N) (u v : N) : Nodes N := (m.setSucc u (some v)).setPred v (some u)

/-- A node is wedged in between two neighbours of a chain. -/
theorem chain_link {l₁ l₂ : List N} (h : List.IsChain m.Adj (l₁ ++ u :: v :: l₂))
    (hnodup : (l₁ ++ u :: v :: l₂).Nodup) (ha : a ∉ l₁ ++ u :: v :: l₂) :
    List.IsChain (m.link u a v).Adj (l₁ ++ u :: a :: v :: l₂) := by
  rw [List.isChain_append_cons_cons] at h
  obtain ⟨hleft, hadj, hright⟩ := h
  have hsplit : l₁ ++ u :: v :: l₂ = (l₁ ++ [u]) ++ v :: l₂ := by simp
  rw [hsplit] at hnodup ha
  obtain ⟨-, -, hdisj⟩ := List.nodup_append.mp hnodup
  rw [List.mem_append, not_or] at ha
  have hau : a ≠ u := by
    rintro rfl
    exact ha.1 (List.mem_append_right _ (List.mem_singleton_self a))
  have hav : a ≠ v := by
    rintro rfl
    exact ha.2 (List.mem_cons_self ..)
  have huv : u ≠ v :=
    hdisj u (List.mem_append_right _ (List.mem_singleton_self u)) v (List.mem_cons_self ..)
  rw [List.isChain_append_cons_cons, List.isChain_cons_cons]
  refine ⟨chain_congr ?_ hleft, ⟨?_, ?_⟩, ⟨?_, ?_⟩, chain_congr ?_ hright⟩
  · -- before `u`
    intro x hx y hy hxy
    have hxa : x ≠ a := fun heq => ha.1 (heq ▸ hx)
    have hya : y ≠ a := fun heq => ha.1 (heq ▸ hy)
    have hyv : y ≠ v := hdisj y hy v (List.mem_cons_self ..)
    have hxu : x ≠ u := by
      rintro rfl
      exact hyv (Option.some.inj (hxy.1.symm.trans hadj.1))
    simp [link, hxa, hya, hyv, hxu]
  · simp [link]
  · simp [link, hav]
  · simp [link, hau]
  · simp [link]
  · -- behind `v`
    intro x hx y hy hxy
    have hxa : x ≠ a := fun heq => ha.2 (heq ▸ hx)
    have hya : y ≠ a := fun heq => ha.2 (heq ▸ hy)
    have hxu : x ≠ u :=
      (hdisj u (List.mem_append_right _ (List.mem_singleton_self u)) x hx).symm
    have hyv : y ≠ v := by
      rintro rfl
      exact hxu (Option.some.inj (hxy.2.symm.trans hadj.2))
    simp [link, hxa, hya, hyv, hxu]

/-- A node is taken out of a chain. -/
theorem chain_join {l₁ l₂ : List N} (h : List.IsChain m.Adj (l₁ ++ u :: a :: v :: l₂))
    (hnodup : (l₁ ++ u :: a :: v :: l₂).Nodup) :
    List.IsChain (m.join u v).Adj (l₁ ++ u :: v :: l₂) := by
  rw [List.isChain_append_cons_cons, List.isChain_cons_cons] at h
  obtain ⟨hleft, hua, hav, hright⟩ := h
  have hsplit : l₁ ++ u :: a :: v :: l₂ = (l₁ ++ [u]) ++ a :: v :: l₂ := by simp
  rw [hsplit] at hnodup
  obtain ⟨-, hnodup', hdisj⟩ := List.nodup_append.mp hnodup
  have hav' : a ∉ v :: l₂ := (List.nodup_cons.mp hnodup').1
  rw [List.isChain_append_cons_cons]
  refine ⟨chain_congr ?_ hleft, ⟨?_, ?_⟩, chain_congr ?_ hright⟩
  · intro x hx y hy hxy
    have hyv : y ≠ v := hdisj y hy v (List.mem_cons_of_mem a (List.mem_cons_self ..))
    have hxu : x ≠ u := by
      rintro rfl
      exact hdisj y hy a (List.mem_cons_self ..) (Option.some.inj (hxy.1.symm.trans hua.1))
    simp [join, hyv, hxu]
  · simp [join]
  · simp [join]
  · intro x hx y hy hxy
    have hxu : x ≠ u :=
      (hdisj u (List.mem_append_right _ (List.mem_singleton_self u)) x
        (List.mem_cons_of_mem a hx)).symm
    have hyv : y ≠ v := by
      rintro rfl
      exact hav' (Option.some.inj (hxy.2.symm.trans hav.2) ▸ hx)
    simp [join, hyv, hxu]

/-- `insert_node`: the node `a` goes behind `prev`, or before it if nothing is behind. -/
def insertNode (m : Nodes N) (a prev : N) : Nodes N :=
  match m.succ prev with
  | some tmp => m.link prev a tmp
  | none =>
    match m.pred prev with
    | some tmp => m.link tmp a prev
    | none => m

/-- `append_node`: the node `a` goes before the tail node. -/
def appendNode (m : Nodes N) (tail a : N) : Nodes N :=
  match m.pred tail with
  | some tmp => m.link tmp a tail
  | none => m

/-- `remove_node`. -/
def removeNode (m : Nodes N) (a : N) : Nodes N :=
  match m.pred a, m.succ a with
  | some u, some v => m.join u v
  | _, _ => m

end Ops

/-! ## Lists -/

section Lists

variable {ι α : Type*} {m : Nodes (ListNode ι α)} {L : ι → List α} {l l' : ι} {a : α}
  {xs ys : List α} {n : ListNode ι α}

/-- All nodes of the list `l` with the elements `xs`. -/
def path (l : ι) (xs : List α) : List (ListNode ι α) :=
  .head l :: (xs.map .elem ++ [.tail l])

/-- The node before the gap behind the elements `xs`. -/
def lastNode (l : ι) (xs : List α) : ListNode ι α := (xs.getLast?.map .elem).getD (.head l)

/-- The node behind the gap before the elements `ys`. -/
def firstNode (l : ι) (ys : List α) : ListNode ι α := (ys.head?.map .elem).getD (.tail l)

@[simp] theorem firstNode_nil (l : ι) : firstNode l ([] : List α) = .tail l := rfl

@[simp] theorem firstNode_cons (l : ι) (a : α) (ys : List α) :
    firstNode l (a :: ys) = .elem a := rfl

@[simp] theorem lastNode_nil (l : ι) : lastNode l ([] : List α) = .head l := rfl

@[simp] theorem lastNode_concat (l : ι) (xs : List α) (a : α) :
    lastNode l (xs ++ [a]) = .elem a := by
  rw [lastNode, List.getLast?_concat]
  rfl

theorem mem_path : n ∈ path l xs ↔ n = .head l ∨ n = .tail l ∨ ∃ a ∈ xs, n = .elem a := by
  simp only [path, List.mem_cons, List.mem_append, List.mem_map, List.not_mem_nil, or_false]
  constructor
  · rintro (rfl | ⟨a, ha, rfl⟩ | rfl)
    · exact .inl rfl
    · exact .inr (.inr ⟨a, ha, rfl⟩)
    · exact .inr (.inl rfl)
  · rintro (rfl | rfl | ⟨a, ha, rfl⟩)
    · exact .inl rfl
    · exact .inr (.inr rfl)
    · exact .inr (.inl ⟨a, ha, rfl⟩)

theorem nodup_path (h : xs.Nodup) (l : ι) : (path l xs).Nodup := by
  have hmap : (xs.map (ListNode.elem (ι := ι))).Nodup :=
    h.map fun a b heq => ListNode.elem.inj heq
  simp [path, List.nodup_append, hmap]

/-- A list taken apart at a gap. -/
theorem path_append (l : ι) (xs ys : List α) :
    ∃ l₁ l₂, path l (xs ++ ys) = l₁ ++ lastNode l xs :: firstNode l ys :: l₂ ∧
      ∀ a, path l (xs ++ a :: ys) = l₁ ++ lastNode l xs :: .elem a :: firstNode l ys :: l₂ := by
  have hbefore : ∃ l₁, ListNode.head l :: xs.map .elem = l₁ ++ [lastNode l xs] := by
    rcases List.eq_nil_or_concat xs with rfl | ⟨xs, a, rfl⟩
    · exact ⟨[], rfl⟩
    · exact ⟨.head l :: xs.map .elem, by simp⟩
  have hafter : ∃ l₂, ys.map .elem ++ [ListNode.tail l] = firstNode l ys :: l₂ := by
    cases ys with
    | nil => exact ⟨[], rfl⟩
    | cons b ys => exact ⟨ys.map .elem ++ [.tail l], rfl⟩
  obtain ⟨l₁, hl₁⟩ := hbefore
  obtain ⟨l₂, hl₂⟩ := hafter
  refine ⟨l₁, l₂, ?_, ?_⟩
  · rw [path, List.map_append, List.append_assoc, hl₂, ← List.cons_append, hl₁]
    simp
  · intro a
    rw [path, List.map_append, List.map_cons, List.append_assoc, List.cons_append, hl₂,
      ← List.cons_append, hl₁]
    simp

/-- The links represent the lists `L`, no two of which have an element in common. -/
structure Rep (m : Nodes (ListNode ι α)) (L : ι → List α) : Prop where
  chain : ∀ l, List.IsChain m.Adj (path l (L l))
  nodup : ∀ l, (L l).Nodup
  apart : ∀ l l' a, a ∈ L l → a ∈ L l' → l = l'
  first : ∀ l, m.pred (.head l) = none
  last : ∀ l, m.succ (.tail l) = none

namespace Rep

theorem adj (h : Rep m L) (hl : L l = xs ++ ys) : m.Adj (lastNode l xs) (firstNode l ys) := by
  have hchain := h.chain l
  obtain ⟨l₁, l₂, hpath, -⟩ := path_append l xs ys
  rw [hl, hpath, List.isChain_append_cons_cons] at hchain
  exact hchain.2.1

/-- No node is in two lists. -/
theorem eq_of_mem (h : Rep m L) (hn : n ∈ path l (L l)) (hn' : n ∈ path l' (L l')) : l = l' := by
  rw [mem_path] at hn hn'
  rcases hn with rfl | rfl | ⟨a, ha, rfl⟩ <;> rcases hn' with heq | heq | ⟨b, hb, heq⟩ <;> cases heq
  · rfl
  · rfl
  · exact h.apart l l' a ha hb

variable [DecidableEq ι]

/-- One list changes, and the stores leave the nodes of the others alone. -/
theorem of_one {m' : Nodes (ListNode ι α)} {zs : List α} (h : Rep m L)
    (hchain : List.IsChain m'.Adj (path l zs)) (hnodup : zs.Nodup)
    (hapart : ∀ a ∈ zs, ∀ l', a ∈ L l' → l' = l)
    (hother : ∀ l', l' ≠ l → ∀ n ∈ path l' (L l'), m'.succ n = m.succ n ∧ m'.pred n = m.pred n)
    (hfirst : m'.pred (.head l) = none) (hlast : m'.succ (.tail l) = none) :
    Rep m' (Function.update L l zs) := by
  refine ⟨?_, ?_, ?_, ?_, ?_⟩
  · intro l'
    by_cases heq : l' = l
    · rw [heq, Function.update_self]
      exact hchain
    · rw [Function.update_of_ne heq]
      refine chain_congr ?_ (h.chain l')
      exact fun x hx y hy _ => ⟨(hother l' heq x hx).1, (hother l' heq y hy).2⟩
  · intro l'
    by_cases heq : l' = l
    · rw [heq, Function.update_self]
      exact hnodup
    · rw [Function.update_of_ne heq]
      exact h.nodup l'
  · intro l₁ l₂ a h₁ h₂
    by_cases heq₁ : l₁ = l <;> by_cases heq₂ : l₂ = l
    · rw [heq₁, heq₂]
    · rw [heq₁, Function.update_self] at h₁
      rw [Function.update_of_ne heq₂] at h₂
      exact absurd (hapart a h₁ l₂ h₂) heq₂
    · rw [heq₂, Function.update_self] at h₂
      rw [Function.update_of_ne heq₁] at h₁
      exact absurd (hapart a h₂ l₁ h₁) heq₁
    · rw [Function.update_of_ne heq₁] at h₁
      rw [Function.update_of_ne heq₂] at h₂
      exact h.apart l₁ l₂ a h₁ h₂
  · intro l'
    by_cases heq : l' = l
    · rw [heq]
      exact hfirst
    · rw [(hother l' heq _ (mem_path.mpr (.inl rfl))).2]
      exact h.first l'
  · intro l'
    by_cases heq : l' = l
    · rw [heq]
      exact hlast
    · rw [(hother l' heq _ (mem_path.mpr (.inr (.inl rfl)))).1]
      exact h.last l'

variable [DecidableEq α]

/-- A new element is wedged in at a gap. -/
theorem link (h : Rep m L) (ha : ∀ l', a ∉ L l') (hl : L l = xs ++ ys) :
    Rep (m.link (lastNode l xs) (.elem a) (firstNode l ys))
      (Function.update L l (xs ++ a :: ys)) := by
  obtain ⟨l₁, l₂, hpath, hpath'⟩ := path_append l xs ys
  have hnotMem : ListNode.elem a ∉ path l (L l) := by
    rw [mem_path]
    rintro (heq | heq | ⟨b, hb, heq⟩) <;> cases heq
    exact ha l hb
  have hu : lastNode l xs ∈ path l (L l) := by
    rw [hl, hpath]
    simp
  have hv : firstNode l ys ∈ path l (L l) := by
    rw [hl, hpath]
    simp
  have hnodup : (xs ++ a :: ys).Nodup := by
    have hold := h.nodup l
    have hmem := ha l
    rw [hl] at hold hmem
    rw [List.nodup_middle, List.nodup_cons]
    exact ⟨hmem, hold⟩
  have hadj := h.adj hl
  refine h.of_one ?_ hnodup ?_ ?_ ?_ ?_
  · rw [hpath']
    have hchain := h.chain l
    have hnodupPath := nodup_path (h.nodup l) l
    rw [hl, hpath] at hchain hnodupPath hnotMem
    exact chain_link hchain hnodupPath hnotMem
  · intro b hb l' hb'
    rcases List.mem_append.mp hb with hb | hb
    · exact h.apart l' l b hb' (hl ▸ List.mem_append_left _ hb)
    · rcases List.mem_cons.mp hb with rfl | hb
      · exact absurd hb' (ha l')
      · exact h.apart l' l b hb' (hl ▸ List.mem_append_right _ hb)
  · intro l' hne n hn
    have hna : n ≠ .elem a := by
      rintro rfl
      rw [mem_path] at hn
      rcases hn with heq | heq | ⟨b, hb, heq⟩ <;> cases heq
      exact ha l' hb
    have hnu : n ≠ lastNode l xs := fun heq => hne (h.eq_of_mem (heq ▸ hn) hu)
    have hnv : n ≠ firstNode l ys := fun heq => hne (h.eq_of_mem (heq ▸ hn) hv)
    simp [Nodes.link, hna, hnu, hnv]
  · have hne : ListNode.head l ≠ firstNode l ys := by
      intro heq
      have hpred := hadj.2
      rw [← heq, h.first] at hpred
      cases hpred
    simp [Nodes.link, hne, h.first]
  · have hne : ListNode.tail l ≠ lastNode l xs := by
      intro heq
      have hsucc := hadj.1
      rw [← heq, h.last] at hsucc
      cases hsucc
    simp [Nodes.link, hne, h.last]

/-- `insert_node` behind the node before a gap. -/
theorem insertNode (h : Rep m L) (ha : ∀ l', a ∉ L l') (hl : L l = xs ++ ys) :
    Rep (m.insertNode (.elem a) (lastNode l xs)) (Function.update L l (xs ++ a :: ys)) := by
  rw [Nodes.insertNode, (h.adj hl).1]
  exact h.link ha hl

/-- `append_node`. -/
theorem appendNode (h : Rep m L) (ha : ∀ l', a ∉ L l') (l : ι) :
    Rep (m.appendNode (.tail l) (.elem a)) (Function.update L l (L l ++ [a])) := by
  have hl : L l = L l ++ [] := (List.append_nil _).symm
  have hpred := (h.adj hl).2
  rw [firstNode_nil] at hpred
  rw [Nodes.appendNode, hpred]
  exact h.link ha hl

/-- `remove_node`. -/
theorem removeNode (h : Rep m L) (hl : L l = xs ++ a :: ys) :
    Rep (m.removeNode (.elem a)) (Function.update L l (xs ++ ys)) := by
  have hl' : L l = (xs ++ [a]) ++ ys := by rw [hl, List.append_assoc]; rfl
  have hpred := (h.adj hl).2
  have hsucc := (h.adj hl').1
  rw [firstNode_cons] at hpred
  rw [lastNode_concat] at hsucc
  rw [Nodes.removeNode, hpred, hsucc]
  show Rep (m.join (lastNode l xs) (firstNode l ys)) _
  obtain ⟨l₁, l₂, hpath, hpath'⟩ := path_append l xs ys
  have hu : lastNode l xs ∈ path l (L l) := by
    rw [hl, hpath']
    simp
  have hv : firstNode l ys ∈ path l (L l) := by
    rw [hl, hpath']
    simp
  refine h.of_one ?_ ?_ ?_ ?_ ?_ ?_
  · rw [hpath]
    have hchain := h.chain l
    have hnodupPath := nodup_path (h.nodup l) l
    rw [hl, hpath'] at hchain hnodupPath
    exact chain_join hchain hnodupPath
  · have hold := h.nodup l
    rw [hl] at hold
    exact (List.nodup_cons.mp (List.nodup_middle.mp hold)).2
  · intro b hb l' hb'
    apply h.apart l' l b hb'
    rw [hl]
    rcases List.mem_append.mp hb with hb | hb
    · exact List.mem_append_left _ hb
    · exact List.mem_append_right _ (List.mem_cons_of_mem a hb)
  · intro l' hne n hn
    have hnu : n ≠ lastNode l xs := fun heq => hne (h.eq_of_mem (heq ▸ hn) hu)
    have hnv : n ≠ firstNode l ys := fun heq => hne (h.eq_of_mem (heq ▸ hn) hv)
    simp [Nodes.join, hnu, hnv]
  · have hne : ListNode.head l ≠ firstNode l ys := by
      cases ys <;> simp
    simp [Nodes.join, hne, h.first]
  · have hne : ListNode.tail l ≠ lastNode l xs := by
      rcases List.eq_nil_or_concat xs with rfl | ⟨xs, b, rfl⟩ <;> simp
    simp [Nodes.join, hne, h.last]

/-- `init_list` of a list: it is empty. -/
theorem clear (h : Rep m L) (l : ι) :
    Rep (m.join (.head l) (.tail l)) (Function.update L l []) := by
  refine h.of_one ?_ List.nodup_nil ?_ ?_ ?_ ?_
  · rw [path, List.map_nil, List.nil_append, List.isChain_pair]
    exact ⟨by simp [Nodes.join], by simp [Nodes.join]⟩
  · intro a ha
    cases ha
  · intro l' hne n hn
    have hhead : n ≠ .head l := fun heq =>
      hne (h.eq_of_mem hn (mem_path.mpr (.inl heq)))
    have htail : n ≠ .tail l := fun heq =>
      hne (h.eq_of_mem hn (mem_path.mpr (.inr (.inl heq))))
    simp [Nodes.join, hhead, htail]
  · simp [Nodes.join, h.first]
  · simp [Nodes.join, h.last]

end Rep

/-- The links after `init_list` of every list. -/
def initLists : Nodes (ListNode ι α) where
  succ
    | .head l => some (.tail l)
    | _ => none
  pred
    | .tail l => some (.head l)
    | _ => none

theorem Rep.init : Rep (initLists : Nodes (ListNode ι α)) fun _ => [] where
  chain l := by
    rw [path, List.map_nil, List.nil_append, List.isChain_pair]
    exact ⟨rfl, rfl⟩
  nodup _ := List.nodup_nil
  apart _ _ _ := nofun
  first _ := rfl
  last _ := rfl

end Lists

end Nodes
