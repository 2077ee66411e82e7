import Mathlib.Data.List.Nodup
import Mathlib.Logic.Function.Basic
import Mathlib.Tactic.Basic

/-!
# Singly linked lists in memory

`next` is the link field of every cell of a memory. A linked list is a pointer to its first
cell; its last cell links to `null`. A place that holds such a pointer is either the head
variable (`none`) or the link field of a cell (`some a`), so that a walk with a pointer to a
pointer goes from place to place.
-/

/-- From `p` on, the cells are those of `l`, and then comes `null`. -/
def Linked {α : Type*} (next : α → α) (null : α) : α → List α → Prop
  | p, [] => p = null
  | p, a :: l => p = a ∧ a ≠ null ∧ Linked next null (next a) l

namespace Linked

variable {α : Type*} {next next' : α → α} {null p q a : α} {l l' : List α}

@[simp] theorem nil_iff : Linked next null p [] ↔ p = null := Iff.rfl

@[simp] theorem cons_iff :
    Linked next null p (a :: l) ↔ p = a ∧ a ≠ null ∧ Linked next null (next a) l := Iff.rfl

/-- A list that starts at a cell has that cell first. -/
theorem exists_cons (h : Linked next null p l) (hp : p ≠ null) :
    ∃ l', l = p :: l' ∧ Linked next null (next p) l' := by
  cases l with
  | nil => exact absurd h hp
  | cons a l =>
    obtain ⟨rfl, -, hl⟩ := h
    exact ⟨l, rfl, hl⟩

theorem eq_nil (h : Linked next null null l) : l = [] := by
  cases l with
  | nil => rfl
  | cons a l => exact absurd h.1.symm h.2.1

/-- The cells follow from the pointer. -/
theorem unique (h : Linked next null p l) (h' : Linked next null p l') : l = l' := by
  induction l generalizing p l' with
  | nil =>
    rw [nil_iff] at h
    rw [h] at h'
    exact h'.eq_nil.symm
  | cons a l ih =>
    obtain ⟨rfl, hne, hl⟩ := h
    obtain ⟨l'', rfl, hl''⟩ := h'.exists_cons hne
    rw [ih hl hl'']

theorem ne_null (h : Linked next null p l) (ha : a ∈ l) : a ≠ null := by
  induction l generalizing p with
  | nil => cases ha
  | cons b l ih =>
    rcases List.mem_cons.mp ha with rfl | ha
    · exact h.2.1
    · exact ih h.2.2 ha

/-- The end of a list is a list. -/
theorem of_append (h : Linked next null p (l ++ a :: l')) : Linked next null a (a :: l') := by
  induction l generalizing p with
  | nil => exact ⟨rfl, h.2⟩
  | cons b l ih => exact ih h.2.2

/-- No cell comes twice: the list would go round for ever. -/
theorem nodup (h : Linked next null p l) : l.Nodup := by
  induction l generalizing p with
  | nil => exact List.nodup_nil
  | cons a l ih =>
    refine List.nodup_cons.mpr ⟨?_, ih h.2.2⟩
    intro ha
    obtain ⟨l₁, l₂, rfl⟩ := List.append_of_mem ha
    -- from `a` there would be two lists of different lengths
    have hfirst : Linked next null a (a :: (l₁ ++ a :: l₂)) := ⟨rfl, h.2⟩
    have hlater : Linked next null a (a :: l₂) := h.2.2.of_append
    have hlen := congrArg List.length (hfirst.unique hlater)
    simp only [List.length_cons, List.length_append] at hlen
    omega

/-- A list does not depend on the link fields of other cells. -/
theorem congr (h : Linked next null p l) (hnext : ∀ a ∈ l, next' a = next a) :
    Linked next' null p l := by
  induction l generalizing p with
  | nil => exact h
  | cons a l ih =>
    refine ⟨h.1, h.2.1, ?_⟩
    rw [hnext a (List.mem_cons_self ..)]
    exact ih h.2.2 fun b hb => hnext b (List.mem_cons_of_mem a hb)

section Update

variable [DecidableEq α]

/-- The link field of another cell changes. -/
theorem update (h : Linked next null p l) (ha : a ∉ l) (q : α) :
    Linked (Function.update next a q) null p l :=
  h.congr fun b hb => Function.update_of_ne (fun heq : b = a => ha (heq ▸ hb)) q next

/-- A cell is put in front. -/
theorem push (h : Linked next null p l) (hne : a ≠ null) (ha : a ∉ l) :
    Linked (Function.update next a p) null a (a :: l) := by
  refine ⟨rfl, hne, ?_⟩
  rw [Function.update_self]
  exact h.update ha p

end Update

end Linked

/-! ## Places of pointers -/

/-- A memory of linked cells with one head variable. -/
structure Links (α : Type*) where
  head : α
  next : α → α

namespace Links

variable {α : Type*} {m : Links α} {c d : Option α} {null p a : α} {l : List α}

/-- The pointer at a place. -/
def get (m : Links α) : Option α → α
  | none => m.head
  | some a => m.next a

@[simp] theorem get_none : m.get none = m.head := rfl

@[simp] theorem get_some : m.get (some a) = m.next a := rfl

/-- The cells from the place `c` on; the place itself is not in one of them. -/
def ListAt (m : Links α) (null : α) (c : Option α) (l : List α) : Prop :=
  Linked m.next null (m.get c) l ∧ ∀ a ∈ l, c ≠ some a

/-- The place after the first cell. -/
theorem ListAt.tail (h : m.ListAt null c (a :: l)) : m.ListAt null (some a) l := by
  refine ⟨h.1.2.2, ?_⟩
  intro b hb heq
  cases heq
  exact (List.nodup_cons.mp h.1.nodup).1 hb

/-- The place behind the cells of a list that starts at `c`. -/
def behind (c : Option α) : List α → Option α
  | [] => c
  | a :: l => behind (some a) l

theorem behind_ne (hc : c ≠ some a) (ha : a ∉ l) : behind c l ≠ some a := by
  induction l generalizing c with
  | nil => exact hc
  | cons b l ih =>
    rw [List.mem_cons, not_or] at ha
    exact ih (fun heq => ha.1 (Option.some.inj heq).symm) ha.2

theorem behind_ne_none (hc : c ≠ none) : behind c l ≠ none := by
  induction l generalizing c with
  | nil => exact hc
  | cons b l ih => exact ih nofun

theorem ListAt.rest (h : m.ListAt null c (l ++ l')) : m.ListAt null (behind c l) l' := by
  induction l generalizing c with
  | nil => exact h
  | cons b l ih => exact ih h.tail

/-- The part of a list behind the cells `l` is replaced; the pointers before it stay. -/
theorem ListAt.splice {m' : Links α} {k : List α} (h : m.ListAt null c (l ++ l'))
    (h' : m'.ListAt null (behind c l) k)
    (hget : ∀ d, (d = c ∨ ∃ b ∈ l, d = some b) → d ≠ behind c l → m'.get d = m.get d)
    (hk : ∀ b ∈ k, c ≠ some b ∧ b ∉ l) : m'.ListAt null c (l ++ k) := by
  induction l generalizing c with
  | nil => exact h'
  | cons a l ih =>
    have hnodup := List.nodup_cons.mp h.1.nodup
    have htail : m'.ListAt null (some a) (l ++ k) := by
      apply ih h.tail h'
      · intro d hd
        refine hget d (Or.inr ?_)
        rcases hd with rfl | ⟨b, hb, rfl⟩
        · exact ⟨a, List.mem_cons_self .., rfl⟩
        · exact ⟨b, List.mem_cons_of_mem a hb, rfl⟩
      · intro b hb
        have hbl := (hk b hb).2
        rw [List.mem_cons, not_or] at hbl
        exact ⟨fun heq => hbl.1 (Option.some.inj heq).symm, hbl.2⟩
    -- the place itself is in no cell of the list, so its pointer stays
    have hplace : c ≠ behind c (a :: l) := by
      intro heq
      cases c with
      | none => exact behind_ne_none (l := l) (c := some a) nofun heq.symm
      | some d =>
        have hd : d ∉ a :: l := fun hmem =>
          h.2 d (List.mem_append_left l' hmem) rfl
        rw [List.mem_cons, not_or] at hd
        exact behind_ne (fun hda => hd.1 (Option.some.inj hda).symm) hd.2 heq.symm
    refine ⟨⟨(hget c (Or.inl rfl) hplace).trans h.1.1, h.1.2.1, htail.1⟩, ?_⟩
    intro b hb
    rcases List.mem_cons.mp hb with rfl | hb
    · exact h.2 _ (List.mem_cons_self ..)
    · rcases List.mem_append.mp hb with hb | hb
      · exact h.2 b (List.mem_cons_of_mem a (List.mem_append_left l' hb))
      · exact (hk b hb).1

section Set

variable [DecidableEq α]

/-- A pointer is stored at a place. -/
def set (m : Links α) : Option α → α → Links α
  | none, p => { m with head := p }
  | some a, p => { m with next := Function.update m.next a p }

@[simp] theorem get_set_self : (m.set c p).get c = p := by
  cases c with
  | none => rfl
  | some a => exact Function.update_self a p m.next

theorem get_set_of_ne (h : d ≠ c) : (m.set c p).get d = m.get d := by
  cases c with
  | none =>
    cases d with
    | none => exact absurd rfl h
    | some b => rfl
  | some a =>
    cases d with
    | none => rfl
    | some b => exact Function.update_of_ne (fun heq => h (congrArg some heq)) p m.next

/-- The first cell is unlinked at its place. -/
theorem ListAt.unlink (h : m.ListAt null c (a :: l)) : (m.set c (m.next a)).ListAt null c l := by
  refine ⟨?_, fun b hb => h.2 b (List.mem_cons_of_mem a hb)⟩
  rw [get_set_self]
  apply h.1.2.2.congr
  intro b hb
  exact get_set_of_ne (d := some b) (h.2 b (List.mem_cons_of_mem a hb)).symm

/-- The place of the pointer that ends the list, `k` cells away at most. -/
def lastPlace (m : Links α) (null : α) : ℕ → Option α → Option α
  | 0, c => c
  | k + 1, c => if m.get c = null then c else lastPlace m null k (some (m.get c))

theorem lastPlace_of_null {k : ℕ} (h : m.get c = null) : m.lastPlace null k c = c := by
  cases k with
  | zero => rfl
  | succ k => rw [lastPlace, if_pos h]

theorem lastPlace_of_ne {k : ℕ} (h : m.get c ≠ null) :
    m.lastPlace null (k + 1) c = m.lastPlace null k (some (m.get c)) := by
  rw [lastPlace, if_neg h]

theorem ListAt.lastPlace_eq {k : ℕ} (h : m.ListAt null c l) (hk : l.length ≤ k) :
    m.lastPlace null k c = behind c l := by
  induction l generalizing c k with
  | nil => exact lastPlace_of_null h.1
  | cons a l ih =>
    cases k with
    | zero => exact absurd hk (Nat.not_succ_le_zero _)
    | succ k =>
      have hget : m.get c = a := h.1.1
      rw [lastPlace_of_ne (hget ▸ h.1.2.1), hget]
      exact ih h.tail (Nat.le_of_succ_le_succ hk)

/-- A cell is linked between two parts of a list: its pointer is stored behind the first. -/
theorem ListAt.insert (h : m.ListAt null c (l ++ l')) (hne : a ≠ null) (ha : a ∉ l ++ l')
    (hc : c ≠ some a) :
    ((m.set (some a) (m.get (behind c l))).set (behind c l) a).ListAt null c (l ++ a :: l') := by
  rw [List.mem_append, not_or] at ha
  have hrest := h.rest
  have hplace : behind c l ≠ some a := behind_ne hc ha.1
  apply h.splice
  · refine ⟨⟨get_set_self, hne, ?_⟩, ?_⟩
    · have hnext : ((m.set (some a) (m.get (behind c l))).set (behind c l) a).get (some a) =
          m.get (behind c l) := by
        rw [get_set_of_ne hplace.symm, get_set_self]
      change Linked _ null (Links.get _ (some a)) l'
      rw [hnext]
      apply hrest.1.congr
      intro b hb
      have hba : some b ≠ some a := fun heq => ha.2 (Option.some.inj heq ▸ hb)
      change Links.get _ (some b) = m.get (some b)
      rw [get_set_of_ne (hrest.2 b hb).symm, get_set_of_ne hba]
    · intro b hb
      rcases List.mem_cons.mp hb with rfl | hb
      · exact hplace
      · exact hrest.2 b hb
  · intro d hd hdp
    have hda : d ≠ some a := by
      rcases hd with rfl | ⟨b, hb, rfl⟩
      · exact hc
      · exact fun heq => ha.1 (Option.some.inj heq ▸ hb)
    rw [get_set_of_ne hdp, get_set_of_ne hda]
  · intro b hb
    rcases List.mem_cons.mp hb with rfl | hb
    · exact ⟨hc, ha.1⟩
    · exact ⟨h.2 b (List.mem_append_right l hb), fun hl =>
        List.disjoint_of_nodup_append h.1.nodup hl hb⟩

/-- The first cell behind a part of a list is unlinked. -/
theorem ListAt.remove (h : m.ListAt null c (l ++ a :: l')) :
    (m.set (behind c l) (m.next a)).ListAt null c (l ++ l') := by
  apply h.splice h.rest.unlink
  · intro d _ hd
    exact get_set_of_ne hd
  · intro b hb
    have hb' : b ∈ a :: l' := List.mem_cons_of_mem a hb
    exact ⟨h.2 b (List.mem_append_right l hb'), fun hl =>
        List.disjoint_of_nodup_append h.1.nodup hl hb'⟩

/-- A cell is linked behind a list: its pointer is stored where the list ends. -/
theorem ListAt.append {k : ℕ} (h : m.ListAt null c l) (hk : l.length ≤ k) (hne : a ≠ null)
    (ha : a ∉ l) (hc : c ≠ some a) :
    let last := m.lastPlace null k c
    let m' := (m.set (some a) (m.get last)).set last a
    m'.ListAt null c (l ++ [a]) ∧ (∀ b, b ≠ a → b ∉ l → c ≠ some b → m'.next b = m.next b) ∧
      (c ≠ none → m'.head = m.head) := by
  rw [h.lastPlace_eq hk]
  have hnil : m.ListAt null c (l ++ []) := (List.append_nil l).symm ▸ h
  refine ⟨hnil.insert hne ((List.append_nil l).symm ▸ ha) hc, ?_, ?_⟩
  · intro b hba hbl hcb
    have hb : some b ≠ some a := fun heq => hba (Option.some.inj heq)
    change Links.get _ (some b) = m.get (some b)
    rw [get_set_of_ne (behind_ne hcb hbl).symm, get_set_of_ne hb]
  · intro hcn
    change Links.get _ none = m.get none
    rw [get_set_of_ne (behind_ne_none hcn).symm]
    rfl

/-- A cell is linked in front of a list. -/
theorem ListAt.push (h : m.ListAt null none l) (hne : a ≠ null) (ha : a ∉ l) :
    ((m.set (some a) m.head).set none a).ListAt null none (a :: l) :=
  ⟨h.1.push hne ha, fun _ _ => nofun⟩

end Set

end Links
