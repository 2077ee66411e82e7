import Mathlib.Data.List.Chain

/-!
# Lists that are linked both ways

The nodes of a list link to the next one, and the next one links back. `back` says which nodes do: not
the null pointer at the end of a list, and every node of a ring, which comes back to its first node.
-/

namespace TwoWay

variable {α : Type*}

/-- Each node links to the next one, and back. -/
def Linked (next prev : α → α) (back : α → Prop) (l : List α) : Prop :=
  l.IsChain fun x y => next x = y ∧ (back y → prev y = x)

variable {next prev next' prev' : α → α} {back : α → Prop} {a e h u v : α} {l r g g' : List α}

theorem linked_split : Linked next prev back (l ++ a :: r) ↔
    Linked next prev back (l ++ [a]) ∧ Linked next prev back (a :: r) :=
  List.isChain_split

theorem linked_cons_cons : Linked next prev back (u :: v :: r) ↔
    (next u = v ∧ (back v → prev v = u)) ∧ Linked next prev back (v :: r) :=
  List.isChain_cons_cons

theorem linked_singleton (a : α) : Linked next prev back [a] := .singleton a

/-- Links that nothing reads do not matter: the one behind the last node, and the one before the first. -/
theorem Linked.congr (hl : Linked next prev back l) (hnext : ∀ x ∈ l.dropLast, next' x = next x)
    (hprev : ∀ y ∈ l.tail, back y → prev' y = prev y) : Linked next' prev' back l := by
  induction l with
  | nil => exact .nil
  | cons u l ih =>
    cases l with
    | nil => exact .singleton u
    | cons v l =>
      obtain ⟨⟨hu, hv⟩, hrest⟩ := linked_cons_cons.mp hl
      refine linked_cons_cons.mpr ⟨⟨?_, fun hb => ?_⟩, ih hrest (fun x hx => ?_) fun y hy => ?_⟩
      · rw [hnext u (List.mem_cons_self), hu]
      · rw [hprev v (List.mem_cons_self) hb, hv hb]
      · exact hnext x (List.mem_cons_of_mem u hx)
      · exact hprev y (List.mem_cons_of_mem v hy)

/-! ## Nodes between a head and an end -/

theorem Linked.next_last (hl : Linked next prev back (h :: (l ++ (r ++ [e])))) :
    next (l.getLastD h) = r.headD e := by
  induction l generalizing h with
  | nil =>
    cases r with
    | nil => exact (linked_cons_cons.mp hl).1.1
    | cons v r => exact (linked_cons_cons.mp hl).1.1
  | cons u l ih =>
    rw [List.getLastD_cons]
    exact ih (linked_cons_cons.mp hl).2

theorem Linked.prev_head (hl : Linked next prev back (h :: (l ++ (r ++ [e]))))
    (hb : back (r.headD e)) : prev (r.headD e) = l.getLastD h := by
  induction l generalizing h with
  | nil =>
    cases r with
    | nil => exact (linked_cons_cons.mp hl).1.2 hb
    | cons v r => exact (linked_cons_cons.mp hl).1.2 hb
  | cons u l ih =>
    rw [List.getLastD_cons]
    exact ih (linked_cons_cons.mp hl).2

theorem Linked.prev_eq (hl : Linked next prev back (h :: (l ++ a :: (r ++ [e])))) (hb : back a) :
    prev a = l.getLastD h :=
  hl.prev_head (r := a :: r) hb

theorem Linked.next_eq (hl : Linked next prev back (h :: (l ++ a :: (r ++ [e])))) :
    next a = r.headD e := by
  have hassoc : h :: ((l ++ [a]) ++ (r ++ [e])) = h :: (l ++ a :: (r ++ [e])) := by
    rw [List.append_assoc, List.singleton_append]
  have hlast := Linked.next_last (l := l ++ [a]) (hassoc ▸ hl)
  rwa [List.getLastD_concat] at hlast

/-- From a node to a later one. -/
theorem Linked.iterate (hl : Linked next prev back (u :: (l ++ v :: r))) :
    next^[l.length + 1] u = v := by
  induction l generalizing u with
  | nil => exact (linked_cons_cons.mp hl).1.1
  | cons w l ih =>
    rw [List.length_cons, Function.iterate_succ_apply, (linked_cons_cons.mp hl).1.1]
    exact ih (linked_cons_cons.mp hl).2

theorem getLastD_mem (l : List α) (h : α) : l.getLastD h ∈ h :: l :=
  List.getLastD_mem_cons

theorem headD_mem (l : List α) (e : α) : l.headD e ∈ l ++ [e] := by
  cases l with
  | nil => exact List.mem_cons_self
  | cons u l => exact List.mem_cons_self

theorem dropLast_append_getLastD (h : α) (l : List α) :
    (h :: l).dropLast ++ [l.getLastD h] = h :: l := by
  induction l generalizing h with
  | nil => rfl
  | cons u l ih =>
    rw [List.getLastD_cons, List.dropLast_cons_of_ne_nil (List.cons_ne_nil u l), List.cons_append,
      ih]

theorem headD_cons_tail (r : List α) (e : α) : r.headD e :: (r ++ [e]).tail = r ++ [e] := by
  cases r with
  | nil => rfl
  | cons v r => rfl

/-- **Splicing.** The nodes between two places are other ones. Only the links at the two places may
change. -/
theorem Linked.splice (hl : Linked next prev back (h :: (l ++ (g ++ (r ++ [e])))))
    (hmid : Linked next' prev' back (l.getLastD h :: (g' ++ [r.headD e])))
    (hnodup : (h :: (l ++ r)).Nodup) (he : e ∉ l ++ r)
    (hnext : ∀ x ∈ h :: (l ++ r), x ≠ l.getLastD h → next' x = next x)
    (hprev : ∀ y ∈ l ++ r ++ [e], y ≠ r.headD e → back y → prev' y = prev y) :
    Linked next' prev' back (h :: (l ++ (g' ++ (r ++ [e])))) := by
  have hleft := dropLast_append_getLastD h l
  have hright := headD_cons_tail r e
  -- the list, around the two places
  have hparts : ∀ k, h :: (l ++ (k ++ (r ++ [e]))) =
      (h :: l).dropLast ++ l.getLastD h :: (k ++ r.headD e :: (r ++ [e]).tail) := by
    intro k
    rw [hright, List.append_cons _ (l.getLastD h), hleft, List.cons_append]
  rw [hparts] at hl ⊢
  obtain ⟨hfirst, hrest⟩ := linked_split.mp hl
  obtain ⟨-, hlast⟩ := (linked_split (l := l.getLastD h :: g)).mp hrest
  refine linked_split.mpr ⟨hfirst.congr (fun x hx => ?_) fun y hy hb => ?_,
    (linked_split (l := l.getLastD h :: g')).mpr ⟨hmid, hlast.congr (fun x hx => ?_) fun y hy hb => ?_⟩⟩
  · rw [List.dropLast_concat] at hx
    have hne : x ≠ l.getLastD h := by
      intro heq
      have hnd : (h :: l).Nodup := (List.nodup_append.mp (List.cons_append ▸ hnodup)).1
      rw [← hleft] at hnd
      exact (List.nodup_append.mp hnd).2.2 x hx _ (List.mem_singleton_self _) heq
    refine hnext x ?_ hne
    rw [← List.cons_append]
    exact List.mem_append_left r (List.dropLast_subset _ hx)
  · rw [hleft] at hy
    have hmem : y ∈ l := hy
    refine hprev y (List.mem_append_left _ (List.mem_append_left r hmem)) (fun heq => ?_) hb
    rcases List.mem_append.mp (headD_mem r e) with hr | hr
    · exact (List.nodup_append.mp (List.nodup_cons.mp hnodup).2).2.2 y hmem _ hr heq
    · rw [List.mem_singleton] at hr
      exact he (List.mem_append_left r (hr ▸ heq ▸ hmem))
  · rw [hright, List.dropLast_concat] at hx
    refine hnext x (List.mem_cons_of_mem h (List.mem_append_right l hx)) fun heq => ?_
    have hlast := getLastD_mem l h
    rw [← heq] at hlast
    exact (List.nodup_append.mp (List.cons_append ▸ hnodup)).2.2 x hlast x hx rfl
  · have hmem : y ∈ (r ++ [e]).tail := hy
    have hnd : (r ++ [e]).Nodup := by
      refine List.nodup_append.mpr ⟨(List.nodup_append.mp (List.nodup_cons.mp hnodup).2).2.1,
        List.pairwise_singleton _ e, fun x hx y hy heq => ?_⟩
      rw [List.mem_singleton] at hy
      exact he (List.mem_append_right l (hy ▸ heq ▸ hx))
    rw [← hright] at hnd
    refine hprev y ?_ (fun heq => (List.nodup_cons.mp hnd).1 (heq ▸ hmem)) hb
    rw [List.append_assoc]
    exact List.mem_append_right l (List.mem_of_mem_tail hmem)

end TwoWay
