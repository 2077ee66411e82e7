import Vmm386.Tty.HistoryTheorems

/-!
# Sessions of line editing

Every command keeps the line in its buffer and the history in order, from the states in which it can.
-/

namespace Vmm386.TtyModule

open Runs

variable (mi : TextMode) (mem : Memory) {rl : RlInfo} {c : Console} {e : Event}

/-! ## Commands -/

namespace RlInfo

/-- The part of the line that `rl_backward_delete_char` deletes is in it. -/
def BackwardFits (rl : RlInfo) : Prop :=
  let start := long (rl.cursorPos - rl.prefixArg)
  if start < 0 then rl.DeleteFits 0 (long (rl.prefixArg + start))
  else rl.DeleteFits (ulong start) rl.prefixArg

/-- A node that may be loaded. -/
def TargetFits (rl : RlInfo) (mem : Memory) : Option ℕ → Prop
  | none => True
  | some id => rl.LoadFits mem id

/-- A command that the code gets right, apart from the end of the line. -/
def Fits (rl : RlInfo) (mem : Memory) : Command → Prop
  | .deleteChar => rl.cursorPos = rl.lineLen ∨ rl.DeleteFits (ulong rl.cursorPos) rl.prefixArg
  | .backwardDeleteChar => rl.BackwardFits
  | .selfInsert _ =>
    rl.lineLen + 1 < rl.bufLen ∨ (rl.reallocBuf mem (rl.lineLen + 1 + 2)).1 = true
  | .nextHistory count => ∀ target ∈ (rl.historyTarget count).toOption, rl.TargetFits mem target
  | .beginningOfHistory => rl.TargetFits mem (rl.history.items.getLast?.map HistoryItem.id)
  | .endOfHistory => rl.currentItem = none ∨
    rl.TargetFits mem (rl.history.items.head?.map HistoryItem.id)
  | _ => True

theorem Good.view (hg : rl.Good) (v : View) : Good { rl with view := v } :=
  ⟨hg.toSound.view v, hg.right, hg.behind⟩

theorem Good.moved (hg : rl.Good) : (rl.moved mi).Good := (hg.view _).view _

/-- The cursor and the mark are set to positions in the line. -/
theorem Good.setPos (hg : rl.Good) {cursorPos markPos : ℤ} (hcursor : 0 ≤ cursorPos)
    (hcursor' : cursorPos ≤ rl.lineLen) (hmark : 0 ≤ markPos) (hmark' : markPos ≤ rl.lineLen) :
    Good { rl with cursorPos := cursorPos, markPos := markPos } :=
  ⟨⟨⟨hcursor, hcursor', hmark, hmark', hg.room⟩, hg.buf, hg.bound⟩, hg.right, hg.behind⟩

theorem Good.forwardChar (hg : rl.Good) (count : ℤ) : (rl.forwardChar count).Good := by
  have hbound := hg.bound
  have hroom := hg.room
  have hlen : long rl.lineLen = rl.lineLen := long_eq (by omega) (by omega)
  have hrange : -2 ^ 31 ≤ long (rl.cursorPos + count) ∧ long (rl.cursorPos + count) < 2 ^ 31 := by
    constructor
    · exact Int.le_bmod (by decide)
    · exact Int.bmod_lt (by decide)
  rw [RlInfo.forwardChar, hlen]
  by_cases hneg : long (rl.cursorPos + count) < 0
  · rw [if_pos hneg]
    exact hg.setPos le_rfl (by omega) hg.mark_nonneg hg.mark_le
  · have hulong : ((ulong (long (rl.cursorPos + count)) : ℕ) : ℤ) = long (rl.cursorPos + count) :=
      ulong_eq (by omega) (by omega)
    rw [if_neg hneg]
    split
    · exact hg.setPos (by omega) le_rfl hg.mark_nonneg hg.mark_le
    · exact hg.setPos (by omega) (by omega) hg.mark_nonneg hg.mark_le

theorem Good.backwardDeleteChar (hg : rl.Good) (hfits : rl.BackwardFits) :
    rl.KeepsAll (rl.backwardDeleteChar mi) := by
  rw [RlInfo.backwardDeleteChar]
  rw [BackwardFits] at hfits
  split at hfits
  · rename_i hneg
    rw [if_pos hneg]
    exact hg.keeps (hg.toSound.delete mi hfits)
  · rename_i hneg
    rw [if_neg hneg]
    exact hg.keeps (hg.toSound.delete mi hfits)

/-- The walk from the current item begins in the list. -/
theorem Good.historyTarget (hg : rl.Good) (count : ℤ) :
    ∃ target, rl.historyTarget count = .ok target ∧ ∀ id, target = some id → id ∈ rl.history.ids := by
  have hmem : ∀ (o : Option ℕ) id,
      (o.bind fun i => rl.history.items[i]?.map HistoryItem.id) = some id →
        id ∈ rl.history.ids := by
    intro o id ho
    obtain ⟨i, -, hi⟩ := Option.bind_eq_some_iff.mp ho
    obtain ⟨item, hitem, rfl⟩ := Option.map_eq_some_iff.mp hi
    exact List.mem_map_of_mem (List.mem_of_getElem? hitem)
  rw [RlInfo.historyTarget, historyStart]
  cases hcurrent : rl.currentItem with
  | none =>
    dsimp only
    by_cases hnil : rl.history.items = []
    · rw [if_pos hnil]
      exact ⟨none, rfl, nofun⟩
    · rw [if_neg hnil]
      exact ⟨_, rfl, hmem _⟩
  | some id =>
    have hid : id ∈ rl.history.ids := hg.behind.mem_ids hcurrent
    dsimp only
    cases hfind : rl.history.items.findIdx? (·.id = id) with
    | none =>
      obtain ⟨item, hitem, heq⟩ := List.mem_map.mp hid
      have hnone := List.findIdx?_eq_none_iff.mp hfind item hitem
      rw [heq] at hnone
      exact absurd hnone (by simp)
    | some i => exact ⟨_, rfl, hmem _⟩

theorem Good.nextHistory (hg : rl.Good) {count : ℤ} (hfits : rl.Fits mem (.nextHistory count)) :
    rl.KeepsAll (rl.nextHistory mi mem count) := by
  obtain ⟨target, htarget, hmem⟩ := hg.historyTarget count
  have htargetFits : rl.TargetFits mem target := by
    refine hfits target ?_
    rw [htarget]
    rfl
  rw [RlInfo.nextHistory, htarget, ok_bind]
  cases target with
  | none => exact ⟨rl, rfl, hg, id⟩
  | some id => exact hg.useHistory mi mem (hmem id rfl) htargetFits

theorem Good.beginningOfHistory (hg : rl.Good) (hfits : rl.Fits mem .beginningOfHistory) :
    rl.KeepsAll (rl.beginningOfHistory mi mem) := by
  rw [RlInfo.beginningOfHistory]
  change rl.TargetFits mem (rl.history.items.getLast?.map HistoryItem.id) at hfits
  cases hlast : rl.history.items.getLast? with
  | none => exact ⟨rl, rfl, hg, id⟩
  | some rlh =>
    rw [hlast] at hfits
    exact hg.useHistory mi mem (List.mem_map_of_mem (List.mem_of_getLast? hlast)) hfits

theorem Good.endOfHistory (hg : rl.Good) (hfits : rl.Fits mem .endOfHistory) :
    rl.KeepsAll (rl.endOfHistory mi mem) := by
  rw [RlInfo.endOfHistory]
  by_cases hcurrent : rl.currentItem = none
  · rw [if_pos hcurrent]
    exact ⟨rl, rfl, hg, id⟩
  · have htarget : rl.TargetFits mem (rl.history.items.head?.map HistoryItem.id) :=
      Or.resolve_left hfits hcurrent
    rw [if_neg hcurrent]
    cases hhead : rl.history.items.head? with
    | none => exact ⟨rl, rfl, hg, id⟩
    | some rlh =>
      rw [hhead] at htarget
      exact hg.useHistory mi mem (List.mem_map_of_mem (List.mem_of_head? hhead)) htarget

/-- The line when it is entered. -/
structure Entered (rl rl' : RlInfo) : Prop where
  right : rl'.history.Right
  current : ∀ i, rl'.currentItem = some i → i ∈ rl'.history.ids
  counted : rl.history.Counted → ¬rl.Duplicate → rl'.history.Counted
  line : rl.lineLen + 1 < rl.bufLen → rl'.LineRight

theorem Sound.putNewline (hs : rl.Sound) : ∃ buf, rl.putNewline =
    .ok { rl with lineBuf := some buf, lineLen := rl.lineLen + 1 } := by
  have hbound := hs.bound
  have hroom := hs.room
  have hlen : ulong (rl.lineLen + 1) = rl.lineLen + 1 :=
    ulong_ofNat (n := rl.lineLen + 1) (by omega)
  obtain ⟨buf, hcopy⟩ := hs.memcpy rl.lineLen [0x0a]
    (Int.natCast_nonneg _) (by rw [List.length_singleton]; omega)
  refine ⟨buf, ?_⟩
  rw [RlInfo.putNewline, hcopy, ok_bind]
  dsimp only
  rw [hlen]

theorem Good.enterLine (hg : rl.Good) :
    ∃ rl', rl.enterLine mi mem = .ok rl' ∧ rl.Entered rl' := by
  have hbound := hg.bound
  have hroom := hg.room
  have hmark := hg.mark_le
  have hlen : long rl.lineLen = rl.lineLen := long_eq (by omega) (by omega)
  obtain ⟨rl₁, henter, ⟨history, currentItem, rfl⟩, hright, hcurrent, hcounted⟩ :=
    hg.enterHistory mem
  have hsound : ∀ v, Sound { rl with
      history := history, currentItem := currentItem, cursorPos := rl.lineLen, view := v } :=
    fun v => ⟨⟨Int.natCast_nonneg _, le_rfl, hg.mark_nonneg, hg.mark_le, hg.room⟩, hg.buf, hg.bound⟩
  rw [RlInfo.enterLine, henter, ok_bind]
  dsimp only
  rw [hlen]
  obtain ⟨buf, hnewline⟩ := (hsound _).putNewline
  refine ⟨_, hnewline, hright, hcurrent, hcounted, fun hlt => ⟨?_, ?_, ?_, ?_, hlt⟩⟩
  · exact Int.natCast_nonneg _
  · change (rl.lineLen : ℤ) ≤ (rl.lineLen + 1 : ℕ)
    omega
  · exact hg.mark_nonneg
  · change rl.markPos ≤ (rl.lineLen + 1 : ℕ)
    omega

theorem Good.entered (hg : rl.Good) : rl.Entered rl :=
  ⟨hg.right, fun _ hi => hg.behind.mem_ids hi, fun hc _ => hc, fun _ => hg.toLineRight⟩

/-- **Commands.** None has a fault. A line that is not finished is good again. -/
theorem Good.perform (hg : rl.Good) {command : Command} (hfits : rl.Fits mem command) :
    ∃ done rl', rl.perform mi mem command = .ok (done, rl') ∧
      (done = false → rl'.Good ∧ (rl.history.Counted → rl'.history.Counted)) ∧
      (done = true → rl.Entered rl' ∧
        (command ≠ .enter → rl'.LineRight ∧ rl'.history = rl.history)) := by
  have hbound := hg.bound
  have hroom := hg.room
  have hlen : long rl.lineLen = rl.lineLen := long_eq (by omega) (by omega)
  -- a result that is good
  have hgood : ∀ rl' : RlInfo, rl'.Good → (rl.history.Counted → rl'.history.Counted) →
      ∃ done rl'', Except.ok (false, rl') = (Except.ok (done, rl'') : Except Fault _) ∧
        (done = false → rl''.Good ∧ (rl.history.Counted → rl''.history.Counted)) ∧
        (done = true → rl.Entered rl'' ∧
          (command ≠ .enter → rl''.LineRight ∧ rl''.history = rl.history)) :=
    fun rl' h hc => ⟨false, rl', rfl, fun _ => ⟨h, hc⟩, nofun⟩
  cases command with
  | nothing => exact hgood rl hg id
  | forwardChar count => exact hgood _ ((hg.forwardChar count).moved mi) id
  | beginningOfLine =>
    exact hgood _ ((hg.setPos le_rfl (by omega) hg.mark_nonneg hg.mark_le).moved mi) id
  | endOfLine =>
    rw [RlInfo.perform, hlen]
    exact hgood _ ((hg.setPos (by omega) le_rfl hg.mark_nonneg hg.mark_le).moved mi) id
  | deleteChar =>
    have hcursor : ((ulong rl.cursorPos : ℕ) : ℤ) = rl.cursorPos := by
      have hlo := hg.cursor_nonneg
      have hhi := hg.cursor_le
      exact ulong_eq hlo (by omega)
    rw [RlInfo.perform]
    by_cases hend : ulong rl.cursorPos = rl.lineLen
    · rw [if_pos hend]
      exact ⟨true, rl, rfl, nofun, fun _ => ⟨hg.entered, fun _ => ⟨hg.toLineRight, rfl⟩⟩⟩
    · have hdelete : rl.DeleteFits (ulong rl.cursorPos) rl.prefixArg :=
        Or.resolve_left hfits fun heq => hend (by omega)
      obtain ⟨rl', hrl', hgood', hcounted⟩ := hg.keeps (hg.toSound.delete mi hdelete)
      rw [if_neg hend, hrl', ok_bind]
      exact hgood rl' hgood' hcounted
  | backwardDeleteChar =>
    obtain ⟨rl', hrl', hgood', hcounted⟩ := hg.backwardDeleteChar mi hfits
    rw [RlInfo.perform, hrl', ok_bind]
    exact hgood _ (hgood'.moved mi) hcounted
  | enter =>
    obtain ⟨rl', hrl', hentered⟩ := hg.enterLine mi mem
    rw [RlInfo.perform, hrl', ok_bind]
    exact ⟨true, rl', rfl, nofun, fun _ => ⟨hentered, fun hne => absurd rfl hne⟩⟩
  | redisplay =>
    obtain ⟨rl', hrl', hgood', hcounted⟩ := hg.keeps (hg.toSound.redisplay mi)
    rw [RlInfo.perform, hrl', ok_bind]
    exact hgood rl' hgood' hcounted
  | setMark =>
    have hmark := hg.setPos hg.cursor_nonneg hg.cursor_le hg.cursor_nonneg hg.cursor_le
    rw [RlInfo.perform]
    split
    · exact hgood _ (hmark.moved mi) id
    · exact hgood _ hmark id
  | exchangePointAndMark =>
    exact hgood _ ((hg.setPos hg.mark_nonneg hg.mark_le hg.cursor_nonneg hg.cursor_le).moved mi) id
  | nextHistory count =>
    obtain ⟨rl', hrl', hgood', hcounted⟩ := hg.nextHistory mi mem hfits
    rw [RlInfo.perform, hrl', ok_bind]
    exact hgood rl' hgood' hcounted
  | beginningOfHistory =>
    obtain ⟨rl', hrl', hgood', hcounted⟩ := hg.beginningOfHistory mi mem hfits
    rw [RlInfo.perform, hrl', ok_bind]
    exact hgood rl' hgood' hcounted
  | endOfHistory =>
    obtain ⟨rl', hrl', hgood', hcounted⟩ := hg.endOfHistory mi mem hfits
    rw [RlInfo.perform, hrl', ok_bind]
    exact hgood rl' hgood' hcounted
  | selfInsert c =>
    obtain ⟨rl', hrl', hgood', hcounted⟩ := hg.keeps
      (hg.toSound.insert mi mem [c]
        (by rw [List.length_singleton]; decide) hfits)
    rw [RlInfo.perform, hrl', ok_bind]
    exact hgood _ (hgood'.moved mi) hcounted

/-! ## Keys -/

/-- Only the prefix arguments and the flags of the keys are other ones. -/
def SameText (rl rl' : RlInfo) : Prop := ∃ current next validCurrent validNext esc ctrlX cursor,
  rl' = { rl with
    currentPrefixArg := current, nextPrefixArg := next, validCurrentArg := validCurrent,
    validNextArg := validNext, hadEsc := esc, hadCtrlX := ctrlX, inCursor := cursor }

theorem SameText.trans {rl₁ rl₂ : RlInfo} (h : rl.SameText rl₁) (h' : rl₁.SameText rl₂) :
    rl.SameText rl₂ := by
  obtain ⟨_, _, _, _, _, _, _, rfl⟩ := h
  obtain ⟨_, _, _, _, _, _, _, rfl⟩ := h'
  exact ⟨_, _, _, _, _, _, _, rfl⟩

theorem sameText_ite {p : Prop} [Decidable p] {a b : RlInfo × Command} (ha : rl.SameText a.1)
    (hb : rl.SameText b.1) : rl.SameText (if p then a else b).1 := by
  split
  · exact ha
  · exact hb

theorem sameText_plainKey (c : UChar) : rl.SameText (rl.plainKey c).1 := by
  have hself : rl.SameText rl := ⟨_, _, _, _, _, _, _, rfl⟩
  unfold plainKey
  repeat' apply sameText_ite
  all_goals first | exact hself | exact ⟨_, _, _, _, _, _, _, rfl⟩

theorem sameText_ctrlXKey (c : UChar) : rl.SameText (rl.ctrlXKey c).1 := by
  unfold ctrlXKey
  repeat' apply sameText_ite
  all_goals exact ⟨_, _, _, _, _, _, _, rfl⟩

theorem sameText_escKey (c : UChar) : rl.SameText (rl.escKey c).1 := by
  unfold escKey
  repeat' apply sameText_ite
  all_goals exact ⟨_, _, _, _, _, _, _, rfl⟩

theorem sameText_cursorKey (c : UChar) : rl.SameText (rl.cursorKey c).1 := by
  unfold cursorKey
  repeat' apply sameText_ite
  all_goals exact ⟨_, _, _, _, _, _, _, rfl⟩

theorem sameText_readKey (c : UChar) : rl.SameText (rl.readKey c).1 := by
  have hfirst : rl.SameText { rl with
      currentPrefixArg := rl.nextPrefixArg, validCurrentArg := rl.validNextArg,
      validNextArg := false } := ⟨_, _, _, _, _, _, _, rfl⟩
  unfold readKey
  dsimp only
  apply sameText_ite
  · exact hfirst.trans (sameText_plainKey c)
  apply sameText_ite
  · exact hfirst.trans (sameText_ctrlXKey c)
  apply sameText_ite
  · apply sameText_ite
    · exact hfirst.trans (sameText_escKey c)
    · exact hfirst.trans (sameText_cursorKey c)
  · exact ⟨_, _, _, _, _, _, _, rfl⟩

theorem Good.sameText {rl' : RlInfo} (hg : rl.Good) (h : rl.SameText rl') : rl'.Good := by
  obtain ⟨_, _, _, _, _, _, _, rfl⟩ := h
  exact ⟨⟨⟨hg.cursor_nonneg, hg.cursor_le, hg.mark_nonneg, hg.mark_le, hg.room⟩, hg.buf,
    hg.bound⟩, hg.right, hg.behind⟩

instance : Decidable rl.Duplicate :=
  inferInstanceAs (Decidable (_ ∧ _ ∧ _))

/-- The decision of `Fits`, command by command. -/
instance (target : Option ℕ) : Decidable (rl.TargetFits mem target) :=
  match target with
  | none => .isTrue trivial
  | some id => inferInstanceAs (Decidable (rl.LoadFits mem id))

instance (command : Command) : Decidable (rl.Fits mem command) :=
  match command with
  | .deleteChar => inferInstanceAs (Decidable (_ ∨ _))
  | .backwardDeleteChar => inferInstanceAs (Decidable (ite _ _ _))
  | .selfInsert _ => inferInstanceAs (Decidable (_ ∨ _))
  | .nextHistory count =>
    inferInstanceAs (Decidable (∀ target ∈ (rl.historyTarget count).toOption, _))
  | .beginningOfHistory => inferInstanceAs (Decidable (rl.TargetFits mem _))
  | .endOfHistory => inferInstanceAs (Decidable (_ ∨ _))
  | .nothing => .isTrue trivial
  | .forwardChar _ => .isTrue trivial
  | .beginningOfLine => .isTrue trivial
  | .endOfLine => .isTrue trivial
  | .enter => .isTrue trivial
  | .redisplay => .isTrue trivial
  | .setMark => .isTrue trivial
  | .exchangePointAndMark => .isTrue trivial

end RlInfo

/-! ## Sessions -/

namespace Console

/-- A tty between two events. -/
def Good : Console → Prop
  | .idle _ history => history.Right
  | .editing rl => rl.Good
  | .finished rl => rl.history.Right ∧ ∀ i, rl.currentItem = some i → i ∈ rl.history.ids

/-- An event that the code gets right, apart from the end of a line. -/
def EventFits : Console → Event → Prop
  | .idle _ _, .readline _ markPos _ => markPos = 0
  | .editing rl, .key mem (some c) => (rl.readKey c).1.Fits mem (rl.readKey c).2
  | _, _ => True

/-- There is room for the newline behind a line that is entered, and not only just. -/
def NewlineFits : Console → Event → Prop
  | .editing rl, .key _ (some c) => (rl.readKey c).2 = .enter → rl.lineLen + 1 < rl.bufLen
  | _, _ => True

/-- A line that is entered while another one is edited is not the last one again. -/
def EntersNew : Console → Event → Prop
  | .editing rl, .key _ (some c) => (rl.readKey c).2 = .enter → ¬(rl.readKey c).1.Duplicate
  | _, _ => True

/-- The line of a tty, if there is one, is in its buffer. -/
def LineRight : Console → Prop
  | .idle _ _ => True
  | .editing rl => rl.LineRight
  | .finished rl => rl.LineRight

def history : Console → History
  | .idle _ history => history
  | .editing rl => rl.history
  | .finished rl => rl.history

def currentItem : Console → Option ℕ
  | .idle _ _ => none
  | .editing rl => rl.currentItem
  | .finished rl => rl.currentItem

/-- The size of the history is that of the list. -/
def Counted (c : Console) : Prop := c.history.Counted

/-- The history is not too long, its size is that of the list, and the current item is in it. -/
structure HistoryRight (c : Console) : Prop where
  counted : c.Counted
  size_le : c.history.size ≤ RL_HISTORY_MAX
  current : ∀ i, c.currentItem = some i → i ∈ c.history.ids

theorem openLine_good {screen : Screen} {history : History} (r : history.Right)
    (nextPrefixArg : ℤ) : (openLine mi screen history mem 0 nextPrefixArg).Good ∧
      (openLine mi screen history mem 0 nextPrefixArg).LineRight ∧
      (history.Counted → (openLine mi screen history mem 0 nextPrefixArg).Counted) := by
  let start : RlInfo := {
    view := ⟨screen, 0, 0, screen.x, screen.y⟩, history := history, cursorPos := 0,
    markPos := 0, lineLen := 0, bufLen := 0, lineBuf := none, currentPrefixArg := 0,
    nextPrefixArg := nextPrefixArg, validCurrentArg := false, validNextArg := false,
    hadEsc := false, hadCtrlX := false, inCursor := false, currentItem := none }
  have hlen : ulong (RlInfo.roundTo (0 + 8) 256 - 8) = 248 := by decide
  have hopen : openLine mi screen history mem 0 nextPrefixArg =
      if (start.grown mem 248).isSome then
        .editing (RlInfo.moved mi { start with bufLen := 248, lineBuf := start.grown mem 248 })
      else .idle screen history := by
    rw [← hlen]
    rfl
  rw [hopen]
  cases hgrown : start.grown mem 248 with
  | none => exact ⟨r, trivial, id⟩
  | some buf =>
    have hbound : 248 < 2 ^ 31 := by decide
    have hgood : RlInfo.Good { start with bufLen := 248, lineBuf := some buf } :=
      ⟨⟨⟨le_rfl, le_rfl, le_rfl, le_rfl, Nat.succ_pos 247⟩, ⟨buf, rfl⟩, hbound⟩, r, nofun⟩
    exact ⟨hgood.moved mi, (hgood.moved mi).toLineRight, id⟩

/-- **A step.** There is no fault, the tty is good again, and what else is right stays right. -/
theorem Good.next {c : Console} (hg : c.Good) {e : Event} (hfits : c.EventFits e) :
    ∃ c', c.next mi e = .ok c' ∧ c'.Good ∧
      (c.NewlineFits e → c.LineRight → c'.LineRight) ∧
      (c.EntersNew e → c.Counted → c'.Counted) := by
  cases c with
  | idle screen history =>
    cases e with
    | print text => exact ⟨_, rfl, hg, fun _ h => h, fun _ h => h⟩
    | readline mem markPos nextPrefixArg =>
      obtain rfl : markPos = 0 := hfits
      obtain ⟨hgood, hline, hcounted⟩ := openLine_good mi mem hg nextPrefixArg
      exact ⟨_, rfl, hgood, fun _ _ => hline, fun _ => hcounted⟩
    | key mem c => exact ⟨_, rfl, hg, fun _ h => h, fun _ h => h⟩
    | leave => exact ⟨_, rfl, hg, fun _ h => h, fun _ h => h⟩
  | editing rl =>
    cases e with
    | print text =>
      exact ⟨_, rfl, RlInfo.Good.view hg _, fun _ h => ⟨h.1, h.2, h.3, h.4, h.5⟩, fun _ h => h⟩
    | readline mem markPos nextPrefixArg => exact ⟨_, rfl, hg, fun _ h => h, fun _ h => h⟩
    | leave => exact ⟨_, rfl, hg, fun _ h => h, fun _ h => h⟩
    | key mem c =>
      cases c with
      | none =>
        exact ⟨_, rfl, ⟨RlInfo.Good.right hg, fun _ hi => (RlInfo.Good.behind hg).mem_ids hi⟩,
          fun _ h => h, fun _ h => h⟩
      | some c =>
        have hsame : rl.SameText (rl.readKey c).1 := RlInfo.sameText_readKey c
        have hread : (rl.readKey c).1.Good := RlInfo.Good.sameText hg hsame
        obtain ⟨done, rl', hperform, hgood, hentered⟩ := hread.perform mi mem hfits
        have hhistory : (rl.readKey c).1.history = rl.history := by
          obtain ⟨_, _, _, _, _, _, _, heq⟩ := hsame
          rw [heq]
        have hroom : rl.lineLen + 1 < rl.bufLen →
            (rl.readKey c).1.lineLen + 1 < (rl.readKey c).1.bufLen := by
          obtain ⟨_, _, _, _, _, _, _, heq⟩ := hsame
          rw [heq]
          exact id
        refine ⟨if done then .finished rl' else .editing rl', ?_, ?_⟩
        · rw [Console.next]
          dsimp only
          rw [hperform]
          rfl
        · cases done with
          | false =>
            obtain ⟨hgood', hcounted⟩ := hgood rfl
            refine ⟨hgood', fun _ _ => hgood'.toLineRight, fun _ hc => hcounted ?_⟩
            rw [hhistory]
            exact hc
          | true =>
            obtain ⟨hent, hline⟩ := hentered rfl
            refine ⟨⟨hent.right, hent.current⟩, fun hnewline _ => ?_, fun hnew hc => ?_⟩
            · by_cases henter : (rl.readKey c).2 = .enter
              · exact hent.line (hroom (hnewline henter))
              · exact (hline henter).1
            · by_cases henter : (rl.readKey c).2 = .enter
              · refine hent.counted ?_ (hnew henter)
                rw [hhistory]
                exact hc
              · change rl'.history.Counted
                rw [(hline henter).2, hhistory]
                exact hc
  | finished rl =>
    cases e with
    | print text => exact ⟨_, rfl, hg, fun _ h => h, fun _ h => h⟩
    | readline mem markPos nextPrefixArg => exact ⟨_, rfl, hg, fun _ h => h, fun _ h => h⟩
    | key mem c => exact ⟨_, rfl, hg, fun _ h => h, fun _ h => h⟩
    | leave => exact ⟨_, rfl, hg.1, fun _ _ => trivial, fun _ h => h⟩

theorem Good.historyRight {c : Console} (hg : c.Good) (hc : c.Counted) : c.HistoryRight := by
  cases c with
  | idle screen history => exact ⟨hc, History.Right.size_le hg, nofun⟩
  | editing rl =>
    exact ⟨hc, (RlInfo.Good.right hg).size_le, fun _ hi => (RlInfo.Good.behind hg).mem_ids hi⟩
  | finished rl => exact ⟨hc, hg.1.size_le, hg.2⟩

instance (c : Console) (e : Event) : Decidable (c.EventFits e) :=
  match c, e with
  | .idle _ _, .readline _ markPos _ => inferInstanceAs (Decidable (markPos = 0))
  | .editing rl, .key mem (some c) =>
    inferInstanceAs (Decidable ((rl.readKey c).1.Fits mem (rl.readKey c).2))
  | .idle _ _, .print _ => .isTrue trivial
  | .idle _ _, .key _ _ => .isTrue trivial
  | .idle _ _, .leave => .isTrue trivial
  | .editing _, .print _ => .isTrue trivial
  | .editing _, .readline _ _ _ => .isTrue trivial
  | .editing _, .key _ none => .isTrue trivial
  | .editing _, .leave => .isTrue trivial
  | .finished _, _ => .isTrue trivial

instance (c : Console) (e : Event) : Decidable (c.NewlineFits e) :=
  match c, e with
  | .editing rl, .key _ (some c) =>
    inferInstanceAs (Decidable ((rl.readKey c).2 = .enter → rl.lineLen + 1 < rl.bufLen))
  | .editing _, .key _ none => .isTrue trivial
  | .editing _, .print _ => .isTrue trivial
  | .editing _, .readline _ _ _ => .isTrue trivial
  | .editing _, .leave => .isTrue trivial
  | .idle _ _, _ => .isTrue trivial
  | .finished _, _ => .isTrue trivial

instance (c : Console) (e : Event) : Decidable (c.EntersNew e) :=
  match c, e with
  | .editing rl, .key _ (some c) =>
    inferInstanceAs (Decidable ((rl.readKey c).2 = .enter → ¬(rl.readKey c).1.Duplicate))
  | .editing _, .key _ none => .isTrue trivial
  | .editing _, .print _ => .isTrue trivial
  | .editing _, .readline _ _ _ => .isTrue trivial
  | .editing _, .leave => .isTrue trivial
  | .idle _ _, _ => .isTrue trivial
  | .finished _, _ => .isTrue trivial

theorem new_good : new.Good :=
  ⟨List.nodup_nil, nofun, nofun, by decide, by decide⟩

theorem step_eq_some {c c' : Console} {e : Event} :
    c.step mi e = some c' ↔ c.next mi e = .ok c' := by
  rw [step]
  cases c.next mi e with
  | error f => exact ⟨nofun, nofun⟩
  | ok c => exact ⟨fun h => congrArg _ (Option.some.inj h), fun h => congrArg _ (Except.ok.inj h)⟩

/-- There is room for everything. -/
def roomy : Memory := ⟨some fun _ => 0, true, false⟩

/-- Keys that find room. -/
def keys (cs : List UChar) : List Event := cs.map fun c => .key roomy (some c)

/-- Two lines. The first character of the first one is deleted, and the second one is a line of the
history with another character behind it. -/
def session : List Event :=
  [.readline roomy 0 0] ++ keys [0x61, 0x62, 0x01, 0x04, 0x0d] ++
    [.leave, .print [0x24], .readline roomy 0 0] ++ keys [0x10, 0x63, 0x0d] ++ [.leave]

end Console

end Vmm386.TtyModule
