import Vmm386.Tty.ReadlineTheorems

/-!
# The history of a tty

The nodes of the list, and the node that is being edited, which is behind the head: the head is the
line that was saved when the walk through the history began.
-/

namespace Vmm386.TtyModule

variable (mi : TextMode) (mem : Memory) {rl : RlInfo} {h : History} {i id : ℕ}
  {text : List UChar} {cursorPos : ℤ}

/-! ## The list -/

namespace History

/-- The nodes of the list. -/
def ids (h : History) : List ℕ := h.items.map HistoryItem.id

/-- The length of the line of a node. -/
def lenOf (h : History) (i : ℕ) : Option ℕ := (h.find i).map HistoryItem.lineLen

/-- A history that is not too long. Where it is as long as it may be there is a node to free. -/
structure Right (h : History) : Prop where
  nodup : h.ids.Nodup
  fresh : ∀ i ∈ h.ids, i < h.nextId
  fits : ∀ item ∈ h.items, 0 ≤ item.cursorPos ∧ item.cursorPos ≤ item.lineLen ∧
    item.lineLen < 2 ^ 31
  size_le : h.size ≤ RL_HISTORY_MAX
  nonempty : h.size = RL_HISTORY_MAX → h.items ≠ []

/-- The size is that of the list. -/
def Counted (h : History) : Prop := h.size = h.items.length

/-- The current item, if there is one, is in the list and not its head. -/
def Behind (h : History) (current : Option ℕ) : Prop := ∀ i, current = some i → i ∈ h.ids.tail

theorem exists_find (hi : i ∈ h.ids) : ∃ item, h.find i = some item ∧ item.id = i ∧
    item ∈ h.items := by
  obtain ⟨item, hmem, hid⟩ := List.mem_map.mp hi
  cases hfind : h.find i with
  | none => exact absurd hid (by simpa using List.find?_eq_none.mp hfind item hmem)
  | some found =>
    have hfound : found.id = i := by simpa using List.find?_some hfind
    exact ⟨found, rfl, hfound, List.mem_of_find?_eq_some hfind⟩

theorem mem_of_lenOf {n : ℕ} (hi : h.lenOf i = some n) : i ∈ h.ids := by
  obtain ⟨item, hfind, -⟩ := Option.map_eq_some_iff.mp hi
  have hid : item.id = i := by simpa using List.find?_some hfind
  exact List.mem_map.mpr ⟨item, List.mem_of_find?_eq_some hfind, hid⟩

theorem Behind.mem_ids {current : Option ℕ} (hb : h.Behind current) (hi : current = some i) :
    i ∈ h.ids := List.mem_of_mem_tail (hb i hi)

/-- The last node is freed. -/
theorem Right.freeLast {init : List HistoryItem} {last : HistoryItem} (r : h.Right)
    (hitems : h.items = init ++ [last]) :
    Right { h.freeLast with size := h.size - 1 } := by
  have hsize := r.size_le
  have hinit : h.items.dropLast = init := by rw [hitems, List.dropLast_concat]
  have hsub : init.Sublist h.items := by
    rw [hitems]
    exact List.sublist_append_left _ _
  refine ⟨?_, ?_, ?_, ?_, ?_⟩
  · rw [ids, History.freeLast, hinit]
    exact r.nodup.sublist (hsub.map _)
  · intro i hi
    rw [ids, History.freeLast, hinit] at hi
    exact r.fresh i ((hsub.map _).subset hi)
  · intro item hitem
    rw [History.freeLast, hinit] at hitem
    exact r.fits item (hsub.subset hitem)
  · change h.size - 1 ≤ 50
    change h.size ≤ 50 at hsize
    omega
  · intro heq
    change h.size - 1 = 50 at heq
    change h.size ≤ 50 at hsize
    omega

/-- The head is freed. -/
theorem Right.tail {size : ℤ} (r : h.Right) (hsize : size ≤ RL_HISTORY_MAX)
    (hne : size = RL_HISTORY_MAX → h.items.tail ≠ []) :
    Right { h.freeHead with size := size } := by
  have hsub : h.items.tail.Sublist h.items := List.tail_sublist _
  exact ⟨r.nodup.sublist (hsub.map _), fun i hi => r.fresh i ((hsub.map _).subset hi),
    fun item hitem => r.fits item (hsub.subset hitem), hsize, hne⟩

theorem Right.prepend (r : h.Right) (hsize : h.size < RL_HISTORY_MAX) (hlo : 0 ≤ cursorPos)
    (hhi : cursorPos ≤ text.length) (hlen : text.length < 2 ^ 31) :
    Right (h.prepend text cursorPos) := by
  refine ⟨?_, ?_, ?_, ?_, fun _ => List.cons_ne_nil _ _⟩
  · refine List.nodup_cons.mpr ⟨fun hmem => ?_, r.nodup⟩
    exact Nat.lt_irrefl _ (r.fresh _ hmem)
  · intro i hi
    cases List.mem_cons.mp hi with
    | inl heq =>
      rw [heq]
      exact Nat.lt_succ_self _
    | inr hmem => exact Nat.lt_succ_of_lt (r.fresh i hmem)
  · intro item hitem
    cases List.mem_cons.mp hitem with
    | inl heq =>
      rw [heq]
      exact ⟨hlo, hhi, hlen⟩
    | inr hmem => exact r.fits item hmem
  · change h.size + 1 ≤ 50
    change h.size < 50 at hsize
    omega

theorem lenOf_prepend (r : h.Right) (hi : i ∈ h.ids) :
    (h.prepend text cursorPos).lenOf i = h.lenOf i := by
  have hne : h.nextId ≠ i := Nat.ne_of_gt (r.fresh i hi)
  rw [lenOf, lenOf, find, find, History.prepend, List.find?_cons_of_neg (by simpa using hne)]

/-- Another node, with a fresh identity. -/
theorem ids_replace : (h.replace id text cursorPos).ids =
    h.ids.map fun i => if i = id then h.nextId else i := by
  rw [ids, ids, History.replace, List.map_map, List.map_map]
  apply List.map_congr_left
  intro item _
  dsimp only [Function.comp]
  split <;> rfl

theorem Right.replace (r : h.Right) (hlo : 0 ≤ cursorPos) (hhi : cursorPos ≤ text.length)
    (hlen : text.length < 2 ^ 31) : Right (h.replace id text cursorPos) := by
  refine ⟨?_, ?_, ?_, r.size_le, ?_⟩
  · rw [ids_replace]
    refine r.nodup.map_on fun i hi j hj heq => ?_
    have hi' := r.fresh i hi
    have hj' := r.fresh j hj
    split at heq <;> split at heq <;> omega
  · intro i hi
    rw [ids_replace] at hi
    obtain ⟨j, hj, rfl⟩ := List.mem_map.mp hi
    have hj' := r.fresh j hj
    change (if j = id then h.nextId else j) < h.nextId + 1
    split <;> omega
  · intro item hitem
    obtain ⟨old, hold, rfl⟩ := List.mem_map.mp hitem
    split
    · exact ⟨hlo, hhi, hlen⟩
    · exact r.fits old hold
  · intro hsize hnil
    exact r.nonempty hsize (List.map_eq_nil_iff.mp hnil)

theorem lenOf_replace (r : h.Right) (hi : i ∈ h.ids) (hne : i ≠ id) :
    (h.replace id text cursorPos).lenOf i = h.lenOf i := by
  have hfresh : h.nextId ≠ i := Nat.ne_of_gt (r.fresh i hi)
  obtain ⟨item, hfind, hid, -⟩ := exists_find hi
  rw [lenOf, lenOf, find, History.replace, List.find?_map]
  have hpred : ((fun x : HistoryItem => decide (x.id = i)) ∘
      fun item => if item.id = id then ⟨h.nextId, text, cursorPos⟩ else item) =
      fun x : HistoryItem => decide (x.id = i) := by
    funext x
    dsimp only [Function.comp]
    split
    · rename_i heq
      rw [decide_eq_false hfresh, decide_eq_false (heq ▸ hne.symm)]
    · rfl
  rw [hpred]
  change Option.map _ (Option.map _ (h.find i)) = Option.map _ (h.find i)
  rw [hfind, Option.map_some, Option.map_some, Option.map_some, if_neg (hid ▸ hne)]

theorem ids_update : (h.update id text cursorPos).ids = h.ids := by
  rw [ids, ids, History.update, List.map_map]
  apply List.map_congr_left
  intro item _
  dsimp only [Function.comp]
  split
  · rename_i heq
    exact heq.symm
  · rfl

theorem Right.update (r : h.Right) (hlo : 0 ≤ cursorPos) (hhi : cursorPos ≤ text.length)
    (hlen : text.length < 2 ^ 31) : Right (h.update id text cursorPos) := by
  refine ⟨?_, ?_, ?_, r.size_le, ?_⟩
  · rw [ids_update]
    exact r.nodup
  · intro i hi
    rw [ids_update] at hi
    exact r.fresh i hi
  · intro item hitem
    obtain ⟨old, hold, rfl⟩ := List.mem_map.mp hitem
    split
    · exact ⟨hlo, hhi, hlen⟩
    · exact r.fits old hold
  · intro hsize hnil
    exact r.nonempty hsize (List.map_eq_nil_iff.mp hnil)

/-- The text may be another one, its length not. -/
theorem lenOf_update (hlen : h.lenOf id = some text.length) :
    (h.update id text cursorPos).lenOf i = h.lenOf i := by
  rw [lenOf, find, History.update, List.find?_map]
  have hpred : ((fun x : HistoryItem => decide (x.id = i)) ∘
      fun item => if item.id = id then ⟨id, text, cursorPos⟩ else item) =
      fun x : HistoryItem => decide (x.id = i) := by
    funext x
    dsimp only [Function.comp]
    split
    · rename_i heq
      rw [heq]
    · rfl
  rw [hpred]
  change Option.map _ (Option.map _ (h.find i)) = Option.map _ (h.find i)
  cases hfind : h.find i with
  | none => rfl
  | some item =>
    have hid : item.id = i := by simpa using List.find?_some hfind
    rw [Option.map_some, Option.map_some, Option.map_some]
    split
    · rename_i heq
      rw [lenOf, ← heq, hid, hfind] at hlen
      exact hlen.symm
    · rfl

theorem lenOf_freeLast {init : List HistoryItem} {last : HistoryItem}
    (hitems : h.items = init ++ [last]) (hne : last.id ≠ i) :
    History.lenOf { h.freeLast with size := h.size - 1 } i = h.lenOf i := by
  have hlast : [last].find? (·.id = i) = none := by simpa using hne
  rw [lenOf, lenOf, find, find, History.freeLast, hitems, List.dropLast_concat,
    List.find?_append, hlast, Option.or_none]

end History

/-! ## Adding a line -/

namespace RlInfo

/-- Only the history is another one. -/
def SameLine (rl rl' : RlInfo) : Prop :=
  ∃ history currentItem, rl' = { rl with history := history, currentItem := currentItem }

theorem Sound.sameLine {rl' : RlInfo} (hs : rl.Sound) (hsame : rl.SameLine rl') : rl'.Sound := by
  obtain ⟨history, currentItem, rfl⟩ := hsame
  exact ⟨⟨hs.cursor_nonneg, hs.cursor_le, hs.mark_nonneg, hs.mark_le, hs.room⟩, hs.buf, hs.bound⟩

/-- The node is freed because the history is as long as it may be. -/
def Trims (h : History) (i : ℕ) : Prop := h.size ≥ RL_HISTORY_MAX ∧ h.ids.getLast? = some i

instance (h : History) (i : ℕ) : Decidable (Trims h i) := inferInstanceAs (Decidable (_ ∧ _))

/-- What the first loop of `rl_add_history` does. -/
structure Trimmed (rl : RlInfo) (item : Option ℕ) (rl' : RlInfo) (item' : Option ℕ) : Prop where
  same : rl.SameLine rl'
  right : rl'.history.Right
  size_lt : rl'.history.size < RL_HISTORY_MAX
  lenOf : ∀ i, ¬Trims rl.history i → rl'.history.lenOf i = rl.history.lenOf i
  item : item' = item ∨ item' = none
  current : rl'.currentItem = rl.currentItem ∨ rl'.currentItem = none
  item_mem : ∀ i, item' = some i → i ∈ rl.history.ids → i ∈ rl'.history.ids
  behind : rl.history.Behind rl.currentItem → rl'.history.Behind rl'.currentItem
  counted : rl.history.Counted → rl'.history.Counted

theorem ite_eq_or_none {p : Prop} [Decidable p] (a : Option ℕ) :
    (if p then none else a) = a ∨ (if p then none else a) = none := by
  split
  · exact .inr rfl
  · exact .inl rfl

theorem trimHistory_ok (r : rl.history.Right) (item : Option ℕ) :
    ∃ rl' item', trimHistory (rl.history.size - RL_HISTORY_MAX + 1).toNat rl item =
      .ok (rl', item') ∧ rl.Trimmed item rl' item' := by
  by_cases hsize : rl.history.size = RL_HISTORY_MAX
  · -- one node is too many
    have hrounds : (rl.history.size - RL_HISTORY_MAX + 1).toNat = 1 := by
      rw [hsize]
      rfl
    obtain hnil | ⟨init, last, hitems⟩ := List.eq_nil_or_concat rl.history.items
    · exact absurd hnil (r.nonempty hsize)
    rw [List.concat_eq_append] at hitems
    have hlast : rl.history.items.getLast? = some last := by rw [hitems, List.getLast?_concat]
    have hids : rl.history.ids = init.map HistoryItem.id ++ [last.id] := by
      rw [History.ids, hitems, List.map_append]
      rfl
    have hfree : History.ids { rl.history.freeLast with size := rl.history.size - 1 } =
        init.map HistoryItem.id := by
      rw [History.ids, History.freeLast, hitems, List.dropLast_concat]
    rw [hrounds, trimHistory, if_pos (ge_of_eq hsize), hlast]
    refine ⟨_, _, rfl, ⟨_, _, rfl⟩, r.freeLast hitems, ?_, ?_, ite_eq_or_none _,
      ite_eq_or_none _, ?_, ?_, ?_⟩
    · change rl.history.size - 1 < 50
      change rl.history.size = 50 at hsize
      omega
    · intro i hi
      refine History.lenOf_freeLast hitems fun heq => hi ⟨ge_of_eq hsize, ?_⟩
      rw [hids, List.getLast?_concat, heq]
    · intro i hi hmem
      split at hi
      · cases hi
      · rename_i hne
        rw [hids, List.mem_append, List.mem_singleton] at hmem
        rw [hfree]
        exact hmem.resolve_right fun heq => hne (hi.trans (congrArg some heq))
    · intro hb i hi
      dsimp only at hi
      split at hi
      · cases hi
      · rename_i hne
        have hmem := hb i hi
        rw [hfree]
        rw [hids] at hmem
        cases hinit : init.map HistoryItem.id with
        | nil =>
          rw [hinit] at hmem
          cases hmem
        | cons j js =>
          rw [hinit, List.cons_append, List.tail_cons, List.mem_append, List.mem_singleton] at hmem
          exact hmem.resolve_right fun heq => hne (hi.trans (congrArg some heq))
    · intro hcounted
      rw [History.Counted, hitems, List.length_append, List.length_singleton] at hcounted
      change rl.history.size - 1 = (rl.history.items.dropLast.length : ℤ)
      rw [hitems, List.dropLast_concat]
      omega
  · have hlt : rl.history.size < RL_HISTORY_MAX := lt_of_le_of_ne r.size_le hsize
    have hrounds : (rl.history.size - RL_HISTORY_MAX + 1).toNat = 0 := by
      change rl.history.size < 50 at hlt
      change (rl.history.size - 50 + 1).toNat = 0
      omega
    rw [hrounds]
    exact ⟨rl, item, rfl, ⟨_, _, rfl⟩, r, hlt, fun _ _ => rfl, .inl rfl, .inl rfl,
      fun _ _ hmem => hmem, id, id⟩

/-- What `rl_add_history` does behind its loop. -/
structure Added (rl : RlInfo) (item : Option ℕ) (ok : Bool) (rl' : RlInfo) : Prop where
  same : rl.SameLine rl'
  right : rl'.history.Right
  lenOf : ∀ i ∈ rl.history.ids, (item = some i → rl.history.lenOf i = some rl.lineLen) →
    rl'.history.lenOf i = rl.history.lenOf i
  behind : rl.history.Behind rl.currentItem →
    ok = false ∨ (∀ i, item = some i → rl.currentItem ≠ some i) →
    rl'.history.Behind rl'.currentItem
  counted : rl.history.Counted → rl'.history.Counted

/-- There is no room for a node. -/
theorem Added.none (r : rl.history.Right) (item : Option ℕ) : rl.Added item false rl :=
  ⟨⟨_, _, rfl⟩, r, fun _ _ _ => rfl, fun hb _ => hb, id⟩

theorem Sound.newHistory (hs : rl.Sound) (item : Option ℕ) (r : rl.history.Right)
    (hitem : ∀ id, item = some id → rl.history.lenOf id ≠ some rl.lineLen)
    (hsize : rl.history.size < RL_HISTORY_MAX) :
    ∃ ok rl', rl.newHistory mem item = .ok (ok, rl') ∧ rl.Added item ok rl' := by
  have hbound := hs.bound
  have hroom := hs.room
  obtain ⟨text, htext, hlen⟩ := hs.text 0 rl.lineLen (by omega)
  have hcursor : rl.cursorPos ≤ text.length := by
    rw [hlen]
    exact hs.cursor_le
  rw [RlInfo.newHistory]
  by_cases hmalloc : mem.malloc = true
  · rw [if_pos hmalloc, htext, ok_bind]
    cases item with
    | none =>
      refine ⟨true, _, rfl, ⟨_, _, rfl⟩, r.prepend hsize hs.cursor_nonneg hcursor (by omega),
        fun i hi _ => History.lenOf_prepend r hi, fun hb _ i hi => List.mem_of_mem_tail (hb i hi),
        fun hcounted => ?_⟩
      change rl.history.size + 1 = ((_ :: rl.history.items).length : ℤ)
      rw [List.length_cons, show rl.history.size = _ from hcounted]
      rfl
    | some id =>
      refine ⟨true, _, rfl, ⟨_, _, rfl⟩, r.replace hs.cursor_nonneg hcursor (by omega),
        fun i hi hlenOf => History.lenOf_replace r hi fun heq => ?_, fun hb hne i hi => ?_,
        fun hcounted => ?_⟩
      · exact hitem id rfl (heq ▸ hlenOf (congrArg some heq.symm))
      · have hne' : i ≠ id := fun heq => by
          have hcurrent := hne.resolve_left nofun id rfl
          exact hcurrent (heq ▸ hi)
        rw [History.ids_replace, ← List.map_tail]
        exact List.mem_map.mpr ⟨i, hb i hi, if_neg hne'⟩
      · change rl.history.size = ((rl.history.items.map _).length : ℤ)
        rw [List.length_map]
        exact hcounted
  · rw [if_neg hmalloc]
    exact ⟨false, rl, rfl, Added.none r item⟩

theorem Sound.addLine (hs : rl.Sound) (item : Option ℕ) (r : rl.history.Right)
    (hitem : ∀ id, item = some id → id ∈ rl.history.ids)
    (hsize : rl.history.size < RL_HISTORY_MAX) :
    ∃ ok rl', rl.addLine mem item = .ok (ok, rl') ∧ rl.Added item ok rl' := by
  cases item with
  | none => exact hs.newHistory mem none r nofun hsize
  | some id =>
    obtain ⟨old, hfind, -, -⟩ := History.exists_find (hitem id rfl)
    have hold : rl.history.lenOf id = some old.lineLen := by
      rw [History.lenOf, hfind]
      rfl
    rw [RlInfo.addLine, hfind]
    dsimp only
    by_cases hlen : rl.lineLen = old.lineLen
    · have hbound := hs.bound
      have hroom := hs.room
      obtain ⟨text, htext, htextLen⟩ := hs.text 0 rl.lineLen (by omega)
      have hcursor : rl.cursorPos ≤ text.length := by
        rw [htextLen]
        exact hs.cursor_le
      have hsame : rl.history.lenOf id = some text.length := by rw [hold, htextLen, hlen]
      rw [if_pos hlen, htext]
      refine ⟨true, _, rfl, ⟨_, _, rfl⟩, r.update hs.cursor_nonneg hcursor (by omega),
        fun i _ _ => History.lenOf_update hsame, fun hb _ i hi => ?_, fun hcounted => ?_⟩
      · rw [History.ids_update]
        exact hb i hi
      · change rl.history.size = ((rl.history.items.map _).length : ℤ)
        rw [List.length_map]
        exact hcounted
    · rw [if_neg hlen]
      refine hs.newHistory mem _ r (fun id' hid => ?_) hsize
      obtain rfl := Option.some.inj hid
      rw [hold]
      exact fun heq => hlen (Option.some.inj heq).symm

/-- **Adding a line.** A node that is neither freed nor replaced stays in the list. -/
theorem Sound.addHistory (hs : rl.Sound) (item : Option ℕ) (r : rl.history.Right)
    (hitem : ∀ id, item = some id → id ∈ rl.history.ids) :
    ∃ ok rl', rl.addHistory mem item = .ok (ok, rl') ∧ rl.SameLine rl' ∧ rl'.history.Right ∧
      (∀ i ∈ rl.history.ids, ¬Trims rl.history i →
        (item = some i → rl.history.lenOf i = some rl.lineLen) →
        rl'.history.lenOf i = rl.history.lenOf i) ∧
      (rl.history.Behind rl.currentItem →
        ok = false ∨ (∀ i, item = some i → rl.currentItem ≠ some i) →
        rl'.history.Behind rl'.currentItem) ∧
      (rl.history.Counted → rl'.history.Counted) := by
  obtain ⟨rl₁, item₁, htrim, t⟩ := trimHistory_ok r item
  have hitem₁ : ∀ id, item₁ = some id → item = some id := fun id hid => by
    cases t.item with
    | inl heq => exact heq ▸ hid
    | inr heq => rw [heq] at hid; cases hid
  obtain ⟨ok, rl₂, hadd, a⟩ := (hs.sameLine t.same).addLine mem item₁ t.right
    (fun id hid => t.item_mem id hid (hitem id (hitem₁ id hid))) t.size_lt
  rw [RlInfo.addHistory, htrim]
  refine ⟨ok, rl₂, hadd, ?_, a.right, ?_, ?_, fun hcounted => a.counted (t.counted hcounted)⟩
  · obtain ⟨_, _, rfl⟩ := t.same
    obtain ⟨_, _, rfl⟩ := a.same
    exact ⟨_, _, rfl⟩
  · intro i hi htrims hlen
    have hsame : rl₁.lineLen = rl.lineLen := by
      obtain ⟨_, _, rfl⟩ := t.same
      rfl
    have hkept := t.lenOf i htrims
    obtain ⟨x, hfind, -, -⟩ := History.exists_find hi
    have hmem : i ∈ rl₁.history.ids := by
      refine History.mem_of_lenOf (n := x.lineLen) ?_
      rw [hkept, History.lenOf, hfind]
      rfl
    rw [a.lenOf i hmem fun heq => ?_, hkept]
    rw [hkept, hsame]
    exact hlen (hitem₁ i heq)
  · intro hb hor
    refine a.behind (t.behind hb) (hor.imp_right fun hne i hi => ?_)
    cases t.current with
    | inl heq =>
      rw [heq]
      exact hne i (hitem₁ i hi)
    | inr heq =>
      rw [heq]
      exact (Option.some_ne_none i).symm

/-! ## Loading a line -/

/-- A line that is edited, and its history. -/
structure Good (rl : RlInfo) : Prop extends Sound rl where
  right : rl.history.Right
  behind : rl.history.Behind rl.currentItem

/-- A result is good, and its history is counted if it was before. -/
def KeepsAll (rl : RlInfo) (r : Except Fault RlInfo) : Prop :=
  ∃ rl', r = .ok rl' ∧ rl'.Good ∧ (rl.history.Counted → rl'.history.Counted)

theorem Good.keeps (hg : rl.Good) {r : Except Fault RlInfo} (hk : rl.Keeps r) : rl.KeepsAll r := by
  obtain ⟨rl', heq, hs, hhistory, hcurrent⟩ := hk
  refine ⟨rl', heq, ⟨hs, ?_, ?_⟩, ?_⟩
  · rw [hhistory]
    exact hg.right
  · rw [hhistory, hcurrent]
    exact hg.behind
  · rw [hhistory]
    exact id

theorem Sound.loadItem (hs : rl.Sound) (r : rl.history.Right) {rlh : HistoryItem}
    (hrlh : rlh ∈ rl.history.items) (hroom : rlh.lineLen < rl.bufLen) :
    rl.KeepsAll (rl.loadItem mi rlh) := by
  obtain ⟨hlo, hhi, -⟩ := r.fits rlh hrlh
  obtain ⟨buf, hcopy⟩ := (hs.view ((rl.view.moveTo rl.view.promptEndX
    rl.view.promptEndY).clearChars mi rl.lineLen)).memcpy 0 rlh.text le_rfl
    (by change 0 + (rlh.lineLen : ℤ) ≤ rl.bufLen; omega)
  have hsize := r.size_le
  have hline : ∀ history currentItem, Sound { rl with
      history := history, currentItem := currentItem, lineBuf := some buf,
      lineLen := rlh.lineLen, cursorPos := rlh.cursorPos, markPos := 0 } :=
    fun _ _ => ⟨⟨hlo, hhi, le_rfl, Int.natCast_nonneg _, hroom⟩, ⟨buf, rfl⟩, hs.bound⟩
  rw [RlInfo.loadItem]
  dsimp only
  rw [hcopy, ok_bind]
  dsimp only
  cases hitems : rl.history.items with
  | nil => exact absurd (hitems ▸ hrlh) List.not_mem_nil
  | cons head rest =>
    rw [List.head?_cons, Option.map_some]
    by_cases hhead : some head.id = some rlh.id
    · rw [if_pos hhead]
      have hright : History.Right { rl.history.freeHead with size := rl.history.size - 1 } := by
        refine r.tail ?_ fun heq => ?_
        · change rl.history.size - 1 ≤ 50
          change rl.history.size ≤ 50 at hsize
          omega
        · change rl.history.size - 1 = 50 at heq
          change rl.history.size ≤ 50 at hsize
          omega
      obtain ⟨rl', heq, hs', hhistory, hcurrent⟩ :=
        ((hline _ none).view _).redisplay mi
      refine ⟨rl', heq, ⟨hs', hhistory ▸ hright, ?_⟩, fun hcounted => ?_⟩
      · rw [hcurrent]
        exact nofun
      · rw [hhistory]
        rw [History.Counted, hitems, List.length_cons] at hcounted
        change rl.history.size - 1 = (rl.history.items.tail.length : ℤ)
        rw [hitems, List.tail_cons]
        omega
    · rw [if_neg hhead]
      obtain ⟨rl', heq, hs', hhistory, hcurrent⟩ :=
        ((hline rl.history (some rlh.id)).view _).redisplay mi
      refine ⟨rl', heq, ⟨hs', hhistory ▸ r, ?_⟩, fun hcounted => ?_⟩
      · rw [hcurrent, hhistory]
        rintro i ⟨⟩
        rw [hitems, List.mem_cons] at hrlh
        have hmem : rlh ∈ rest := hrlh.resolve_left fun h => hhead (h ▸ rfl)
        rw [History.ids, hitems]
        exact List.mem_map_of_mem hmem
      · rw [hhistory]
        exact hcounted

/-- A node in the list is loaded, if the buffer can grow where it has to. -/
theorem Sound.loadHistory (hs : rl.Sound) (r : rl.history.Right) {n : ℕ}
    (hid : rl.history.lenOf id = some n)
    (hmem : n < rl.bufLen ∨ (rl.reallocBuf mem (n + 1)).1 = true) :
    rl.KeepsAll (rl.loadHistory mi mem id) := by
  obtain ⟨rlh, hfind, hitem, hrlh⟩ := History.exists_find (History.mem_of_lenOf hid)
  rw [History.lenOf, hfind, Option.map_some, Option.some_inj] at hid
  obtain ⟨-, -, hlt⟩ := r.fits rlh hrlh
  have hlen : ulong (rlh.lineLen + 1) = rlh.lineLen + 1 :=
    ulong_ofNat (n := rlh.lineLen + 1) (by omega)
  rw [RlInfo.loadHistory, hfind]
  dsimp only
  by_cases hroom : rlh.lineLen ≥ rl.bufLen
  · have hok : (rl.reallocBuf mem (rlh.lineLen + 1)).1 = true := by
      rw [hid]
      exact hmem.resolve_left (by omega)
    obtain ⟨bufLen, buf, hgrown, hle, hbound⟩ := reallocBuf_ok (by omega) hok
    rw [if_pos hroom, hlen, hok, hgrown, if_pos rfl]
    have hsound : Sound { rl with bufLen := bufLen, lineBuf := some buf } :=
      ⟨⟨hs.cursor_nonneg, hs.cursor_le, hs.mark_nonneg, hs.mark_le,
        hs.room.trans (by dsimp only; omega)⟩, ⟨buf, rfl⟩, hbound⟩
    exact hsound.loadItem mi r hrlh (by dsimp only; omega)
  · rw [if_neg hroom]
    exact hs.loadItem mi r hrlh (by omega)

/-- The node that is to be loaded is neither freed nor replaced when the line is saved, and the buffer
can grow to its length. -/
def LoadFits (rl : RlInfo) (mem : Memory) (id : ℕ) : Prop :=
  ¬Trims rl.history id ∧ (rl.currentItem = some id → rl.history.lenOf id = some rl.lineLen) ∧
    ∀ n ∈ rl.history.lenOf id, n < rl.bufLen ∨ (rl.reallocBuf mem (n + 1)).1 = true

instance (rl : RlInfo) (mem : Memory) (id : ℕ) : Decidable (rl.LoadFits mem id) :=
  inferInstanceAs (Decidable (_ ∧ _ ∧ _))

/-- **A walk through the history.** -/
theorem Good.useHistory (hg : rl.Good) (hid : id ∈ rl.history.ids) (hfits : rl.LoadFits mem id) :
    rl.KeepsAll (rl.useHistory mi mem id) := by
  obtain ⟨ok, rl', hadd, hsame, hright, hlen, hbehind, hcounted⟩ :=
    hg.toSound.addHistory mem rl.currentItem hg.right
      fun _ hi => hg.behind.mem_ids hi
  have hs' := hg.toSound.sameLine hsame
  rw [RlInfo.useHistory, hadd, ok_bind]
  dsimp only
  cases ok with
  | false => exact ⟨rl', rfl, ⟨hs', hright, hbehind hg.behind (.inl rfl)⟩, hcounted⟩
  | true =>
    obtain ⟨item, hfind, -, -⟩ := History.exists_find hid
    have hold : rl.history.lenOf id = some item.lineLen := by
      rw [History.lenOf, hfind]
      rfl
    have hnew : rl'.history.lenOf id = some item.lineLen :=
      (hlen id hid hfits.1 hfits.2.1).trans hold
    have hmem : item.lineLen < rl'.bufLen ∨ (rl'.reallocBuf mem (item.lineLen + 1)).1 = true := by
      obtain ⟨_, _, rfl⟩ := hsame
      exact hfits.2.2 _ hold
    obtain ⟨rl₂, heq, hgood, hcounted'⟩ := hs'.loadHistory mi mem hright hnew hmem
    exact ⟨rl₂, heq, hgood, fun hc => hcounted' (hcounted hc)⟩

/-! ## Entering a line -/

/-- The line is that of the last node that was entered, and another node is being edited: the head of
the list is freed, and the size is not set. -/
def Duplicate (rl : RlInfo) : Prop :=
  rl.lineLen ≠ 0 ∧ rl.currentItem ≠ none ∧
    ∃ last ∈ rl.history.items.tail.head?, rl.sameText last = .ok true

theorem Sound.sameText (hs : rl.Sound) (item : HistoryItem) :
    ∃ same, rl.sameText item = .ok same := by
  rw [RlInfo.sameText]
  by_cases hlen : item.lineLen = rl.lineLen
  · have hroom := hs.room
    obtain ⟨text, htext, -⟩ := hs.text 0 item.lineLen (by omega)
    rw [if_neg (not_not.mpr hlen), htext]
    exact ⟨_, rfl⟩
  · rw [if_pos hlen]
    exact ⟨false, rfl⟩

/-- What `rl_enter_history` does: the current item stays in the list. -/
theorem Good.enterHistory (hg : rl.Good) :
    ∃ rl', rl.enterHistory mem = .ok rl' ∧ rl.SameLine rl' ∧ rl'.history.Right ∧
      (∀ i, rl'.currentItem = some i → i ∈ rl'.history.ids) ∧
      (rl.history.Counted → ¬rl.Duplicate → rl'.history.Counted) := by
  have hs := hg.toSound
  have hself : rl.SameLine rl := ⟨_, _, rfl⟩
  -- the line is added
  have hadd : ∀ item, (∀ id, item = some id → id ∈ rl.history.ids) →
      (∀ i, item = some i → rl.currentItem ≠ some i) →
      ∃ rl', (rl.addHistory mem item).map Prod.snd = .ok rl' ∧ rl.SameLine rl' ∧
        rl'.history.Right ∧ (∀ i, rl'.currentItem = some i → i ∈ rl'.history.ids) ∧
        (rl.history.Counted → ¬rl.Duplicate → rl'.history.Counted) := by
    intro item hitem hne
    obtain ⟨ok, rl', heq, hsame, hright, -, hbehind, hcounted⟩ :=
      hs.addHistory mem item hg.right hitem
    refine ⟨rl', by rw [heq]; rfl, hsame, hright, fun i hi => ?_, fun hc _ => hcounted hc⟩
    exact (hbehind hg.behind (.inr hne)).mem_ids hi
  rw [RlInfo.enterHistory]
  by_cases hlen : rl.lineLen = 0
  · rw [if_pos hlen]
    exact ⟨rl, rfl, hself, hg.right, fun i hi => hg.behind.mem_ids hi, fun hc _ => hc⟩
  rw [if_neg hlen]
  cases hitems : rl.history.items with
  | nil =>
    cases hcurrent : rl.currentItem with
    | none => exact hadd none nofun nofun
    | some i =>
      have hmem := hg.behind i hcurrent
      rw [History.ids, hitems] at hmem
      cases hmem
  | cons head rest =>
    have hids : rl.history.ids = head.id :: rest.map HistoryItem.id := by
      rw [History.ids, hitems, List.map_cons]
    cases hcurrent : rl.currentItem with
    | none =>
      obtain ⟨same, hsame⟩ := hs.sameText head
      dsimp only
      rw [Option.isSome_none, if_neg Bool.false_ne_true, if_neg Bool.false_ne_true]
      dsimp only
      rw [hsame, ok_bind]
      cases same with
      | true => exact ⟨rl, rfl, hself, hg.right, fun i hi => hg.behind.mem_ids hi, fun hc _ => hc⟩
      | false => exact hadd none nofun nofun
    | some i =>
      have hmem : i ∈ rest.map HistoryItem.id := by
        have hmem := hg.behind i hcurrent
        rwa [hids] at hmem
      cases rest with
      | nil => cases hmem
      | cons last rest =>
        obtain ⟨same, hsame⟩ := hs.sameText last
        dsimp only
        rw [Option.isSome_some, if_pos rfl, if_pos rfl, List.head?_cons]
        dsimp only
        rw [hsame, ok_bind]
        cases same with
        | true =>
          refine ⟨_, rfl, ⟨_, _, rfl⟩, hg.right.tail hg.right.size_le fun _ => ?_, ?_, ?_⟩
          · rw [hitems]
            exact List.cons_ne_nil _ _
          · intro j hj
            change j ∈ List.map HistoryItem.id rl.history.items.tail
            have hj' : some i = some j := hj
            rw [hitems, ← Option.some.inj hj']
            exact hmem
          · intro _ hdup
            refine absurd ⟨hlen, ?_, last, ?_, hsame⟩ hdup
            · rw [hcurrent]
              exact Option.some_ne_none i
            · rw [hitems]
              rfl
        | false =>
          refine hadd (some head.id) ?_ ?_
          · rintro _ ⟨⟩
            rw [hids]
            exact List.mem_cons_self
          · rintro _ ⟨⟩ heq
            obtain rfl := Option.some.inj (hcurrent.symm.trans heq)
            have hnodup := hg.right.nodup
            rw [hids, List.nodup_cons] at hnodup
            exact hnodup.1 hmem

end RlInfo

end Vmm386.TtyModule
