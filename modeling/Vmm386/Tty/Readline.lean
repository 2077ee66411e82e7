import Vmm386.Lib.Runs
import Vmm386.Tty.Display

/-!
# Line editing

`drivers/physical/tty/readline.c`. An access outside the line buffer, and one to a node of the history
that is not in the list any more, are faults. What the allocator gives is part of an event.
-/

namespace Vmm386.TtyModule

/-! ## State -/

/-- `struct rl_history`. The identity of a node is that of its allocation. -/
structure HistoryItem where
  id : ℕ
  text : List UChar
  cursorPos : ℤ

/-- `line_len` of a node. -/
def HistoryItem.lineLen (h : HistoryItem) : ℕ := h.text.length

/-- The history of a tty, the head first. -/
structure History where
  items : List HistoryItem
  size : ℤ
  nextId : ℕ

abbrev RL_HISTORY_MAX : ℤ := 50

/-- What a function must not do. -/
inductive Fault where
  /-- An access to the line buffer is not inside it. -/
  | line
  /-- A node is used that is not in the list, or one that is not there. -/
  | history
deriving DecidableEq

/-- What a key finds: what is behind the old bytes of a buffer that grows, whether there is room for a
node, and what the caller of `rl_set_mark` takes for its result, which is not set. -/
structure Memory where
  realloc : Option (ℕ → UChar)
  malloc : Bool
  junk : Bool

/-- The fields of `struct rl_info` for the display, and the screen of the tty. -/
structure View where
  screen : Screen
  cursorX : ℤ
  cursorY : ℤ
  promptEndX : ℤ
  promptEndY : ℤ

/-- `struct rl_info`. -/
structure RlInfo where
  view : View
  history : History
  cursorPos : ℤ
  markPos : ℤ
  lineLen : ℕ
  bufLen : ℕ
  lineBuf : Option (ℕ → UChar)
  currentPrefixArg : ℤ
  nextPrefixArg : ℤ
  validCurrentArg : Bool
  validNextArg : Bool
  hadEsc : Bool
  hadCtrlX : Bool
  inCursor : Bool
  currentItem : Option ℕ

variable (mi : TextMode)

/-! ## The display -/

namespace View

variable (v : View)

/-- `rl_find_pos`. -/
def findPos (pos : ℕ) : ℤ × ℤ :=
  let p := ulong (pos + v.promptEndX)
  (long (p % mi.cols), long (v.promptEndY + p / mi.cols))

/-- The loop of `rl_find_cursor`. -/
def scrollLoop : ℕ → View → View
  | 0, v => v
  | n + 1, v =>
    if v.cursorY ≥ mi.rows then
      scrollLoop n { v with
        promptEndY := long (v.promptEndY - 1)
        cursorY := long (v.cursorY - 1)
        screen := v.screen.scrollUp mi }
    else v

/-- `rl_find_cursor`. The loop goes round once for each row below the screen. -/
def findCursor (cursorPos : ℤ) : View :=
  let pos := v.findPos mi (ulong cursorPos)
  scrollLoop mi (pos.2 - mi.rows + 1).toNat { v with cursorX := pos.1, cursorY := pos.2 }

/-- `rl_set_cursor`. -/
def setCursor : View := { v with screen := v.screen.setCursor mi v.cursorX v.cursorY }

/-- The cursor of the tty is set without the hardware. -/
def moveTo (x y : ℤ) : View := { v with screen := { v.screen with x := short x, y := short y } }

def printn (text : List UChar) : View := { v with screen := v.screen.printn mi text }

def clearChars (length : ℕ) : View := { v with screen := v.screen.clearChars mi length }

/-- A part of the line is printed, from a position on. -/
def putText (pos : ℤ × ℤ) (text : List UChar) : View :=
  ((v.moveTo pos.1 pos.2).printn mi text).setCursor mi

end View

/-! ## The line -/

namespace RlInfo

variable (rl : RlInfo) (mem : Memory)

/-- `PREFIX_ARG`. -/
def prefixArg : ℤ := if rl.validCurrentArg then rl.currentPrefixArg else 1

/-- The line buffer from `start` on for `len` bytes. -/
def text (start len : ℕ) : Except Fault (List UChar) :=
  match rl.lineBuf with
  | none => .error .line
  | some buf =>
    if start + len ≤ rl.bufLen then .ok ((List.range len).map fun i => buf (start + i))
    else .error .line

/-- Some bytes of the buffer are set, from `dst` on. -/
def setBytes (dst : ℤ) (len : ℕ) (byte : (ℕ → UChar) → ℕ → UChar) : Except Fault RlInfo :=
  match rl.lineBuf with
  | none => .error .line
  | some buf =>
    if 0 ≤ dst ∧ dst + len ≤ rl.bufLen then
      .ok { rl with lineBuf := some fun i =>
        if dst ≤ i ∧ i < dst + len then byte buf (i - dst.toNat) else buf i }
    else .error .line

/-- `memmove` in the line buffer. -/
def memmove (dst src : ℤ) (len : ℕ) : Except Fault RlInfo :=
  if 0 ≤ src ∧ src + len ≤ rl.bufLen then
    rl.setBytes dst len fun buf i => buf (src.toNat + i)
  else .error .line

/-- `memcpy` to the line buffer. -/
def memcpy (dst : ℤ) (str : List UChar) : Except Fault RlInfo :=
  rl.setBytes dst str.length fun _ i => str.getD i 0

/-- `round_to`, for a power of two. -/
def roundTo (val mod : ℕ) : ℕ := ulong (val + (mod - 1)) / mod * mod

/-- The buffer after `malloc` or `realloc`. There is no room for half of all addresses. -/
def grown (bufLen : ℕ) : Option (ℕ → UChar) :=
  if bufLen < 2 ^ 31 then
    mem.realloc.map fun new i =>
      match rl.lineBuf with
      | none => new i
      | some buf => if i < rl.bufLen then buf i else new i
  else none

/-- `rl_realloc_buf`. -/
def reallocBuf (minLen : ℕ) : Bool × RlInfo :=
  let bufLen := ulong (roundTo (minLen + 8) 256 - 8)
  let lineBuf := rl.grown mem bufLen
  (lineBuf.isSome, { rl with bufLen := bufLen, lineBuf := lineBuf })

/-- `rl_redisplay_from`. -/
def redisplayFrom (start : ℕ) : Except Fault RlInfo :=
  if start ≥ rl.lineLen then .ok rl
  else
    let pos := rl.view.findPos mi start
    if pos.2 ≥ mi.rows then .ok rl
    else do
      let text ← rl.text start (rl.lineLen - start)
      .ok { rl with view := rl.view.putText mi pos text }

/-- `rl_redisplay`. -/
def redisplay : Except Fault RlInfo := do
  let text ← rl.text 0 rl.lineLen
  .ok { rl with view := rl.view.putText mi (rl.view.promptEndX, rl.view.promptEndY) text }

/-- `rl_find_cursor`. -/
def findCursor : RlInfo := { rl with view := rl.view.findCursor mi rl.cursorPos }

/-- `rl_set_cursor`. -/
def setCursor : RlInfo := { rl with view := rl.view.setCursor mi }

/-- `rl_insert`, from the `memmove` on. -/
def insertHere (str : List UChar) : Except Fault RlInfo := do
  let len := str.length
  let rl ← rl.memmove (rl.cursorPos + len) rl.cursorPos (ulong (rl.lineLen - rl.cursorPos))
  let rl ← rl.memcpy rl.cursorPos str
  let markPos := if rl.markPos ≥ rl.cursorPos then long (rl.markPos + len) else rl.markPos
  let rl := { rl with
    lineLen := ulong (rl.lineLen + len)
    markPos := markPos
    cursorPos := long (rl.cursorPos + len) }
  let rl := rl.findCursor mi
  rl.redisplayFrom mi (ulong (rl.cursorPos - len))

/-- `rl_insert`. -/
def insert (str : List UChar) : Except Fault RlInfo :=
  if ulong (rl.lineLen + str.length) ≥ rl.bufLen then
    let (ok, rl) := rl.reallocBuf mem (ulong (rl.lineLen + str.length + 2))
    if ok then rl.insertHere mi str else .ok rl
  else rl.insertHere mi str

/-- A position after a part of the line is deleted. -/
def shiftPos (startPos : ℕ) (extent pos : ℤ) : ℤ :=
  if ulong pos ≥ startPos then
    if ulong pos < ulong (startPos + extent) then long startPos else long (pos - extent)
  else pos

/-- `rl_delete`, from the `memmove` on. -/
def deleteFrom (startPos : ℕ) (extent : ℤ) : Except Fault RlInfo := do
  let rl ← rl.memmove startPos (startPos + extent) (ulong (rl.lineLen - (startPos + extent)))
  let rl := { rl with
    cursorPos := shiftPos startPos extent rl.cursorPos
    markPos := shiftPos startPos extent rl.markPos
    lineLen := ulong (rl.lineLen - extent) }
  let pos := rl.view.findPos mi rl.lineLen
  let rl := { rl with view := (rl.view.moveTo pos.1 pos.2).clearChars mi (ulong extent) }
  let rl := rl.findCursor mi
  rl.redisplayFrom mi (ulong rl.cursorPos)

/-- `rl_delete`. -/
def delete (startPos : ℕ) (extent : ℤ) : Except Fault RlInfo :=
  if startPos > rl.lineLen then
    let extent := long (extent - (rl.lineLen - startPos))
    if extent ≤ 0 then .ok rl else rl.deleteFrom mi rl.lineLen extent
  else rl.deleteFrom mi startPos extent

end RlInfo

/-! ## The history -/

namespace History

variable (h : History)

/-- The item with an identity. -/
def find (id : ℕ) : Option HistoryItem := h.items.find? (·.id = id)

/-- `rl_free_history`, for the last node. -/
def freeLast : History := { h with items := h.items.dropLast }

/-- `rl_free_history`, for the head. -/
def freeHead : History := { h with items := h.items.tail }

/-- A new node at the head. -/
def prepend (text : List UChar) (cursorPos : ℤ) : History :=
  { items := ⟨h.nextId, text, cursorPos⟩ :: h.items, size := h.size + 1, nextId := h.nextId + 1 }

/-- A new node in the place of another one, which is freed. -/
def replace (id : ℕ) (text : List UChar) (cursorPos : ℤ) : History :=
  { h with
    items := h.items.map fun item => if item.id = id then ⟨h.nextId, text, cursorPos⟩ else item
    nextId := h.nextId + 1 }

/-- The text and the cursor of a node are set. -/
def update (id : ℕ) (text : List UChar) (cursorPos : ℤ) : History :=
  { h with
    items := h.items.map fun item => if item.id = id then ⟨id, text, cursorPos⟩ else item }

end History

namespace RlInfo

variable (rl : RlInfo) (mem : Memory)

/-- The first loop of `rl_add_history`. It goes round once for each node that is too many. A list
without nodes has none to free. -/
def trimHistory : ℕ → RlInfo → Option ℕ → Except Fault (RlInfo × Option ℕ)
  | 0, rl, item => .ok (rl, item)
  | n + 1, rl, item =>
    if rl.history.size ≥ RL_HISTORY_MAX then
      match rl.history.items.getLast? with
      | none => .error .history
      | some rlh =>
        let history := { rl.history.freeLast with size := rl.history.size - 1 }
        let currentItem := if rl.currentItem = some rlh.id then none else rl.currentItem
        let item := if item = some rlh.id then none else item
        trimHistory n { rl with history := history, currentItem := currentItem } item
    else .ok (rl, item)

/-- A new node is put into the list, in the place of `item` if there is one. -/
def newHistory (item : Option ℕ) : Except Fault (Bool × RlInfo) :=
  if mem.malloc then do
    let text ← rl.text 0 rl.lineLen
    match item with
    | none => .ok (true, { rl with history := rl.history.prepend text rl.cursorPos })
    | some id => .ok (true, { rl with history := rl.history.replace id text rl.cursorPos })
  else .ok (false, rl)

/-- `rl_add_history`, behind its loop. -/
def addLine (item : Option ℕ) : Except Fault (Bool × RlInfo) :=
  match item with
  | none => rl.newHistory mem none
  | some id =>
    match rl.history.find id with
    | none => .error .history
    | some old =>
      if rl.lineLen = old.lineLen then do
        -- the text is copied if it is another one
        let text ← rl.text 0 rl.lineLen
        .ok (true, { rl with history := rl.history.update id text rl.cursorPos })
      else rl.newHistory mem (some id)

/-- `rl_add_history`. -/
def addHistory (item : Option ℕ) : Except Fault (Bool × RlInfo) := do
  let (rl, item) ← trimHistory (rl.history.size - RL_HISTORY_MAX + 1).toNat rl item
  rl.addLine mem item

/-- `rl_load_history`, once the buffer is long enough. -/
def loadItem (rlh : HistoryItem) : Except Fault RlInfo := do
  let rl := { rl with
    view := (rl.view.moveTo rl.view.promptEndX rl.view.promptEndY).clearChars mi rl.lineLen }
  let rl ← rl.memcpy 0 rlh.text
  let rl := { rl with lineLen := rlh.lineLen, cursorPos := rlh.cursorPos, markPos := 0 }
  let rl := if rl.history.items.head?.map HistoryItem.id = some rlh.id
    then { rl with
      history := { rl.history.freeHead with size := rl.history.size - 1 }, currentItem := none }
    else { rl with currentItem := some rlh.id }
  let rl := rl.findCursor mi
  rl.redisplay mi

/-- `rl_load_history`. -/
def loadHistory (id : ℕ) : Except Fault RlInfo :=
  match rl.history.find id with
  | none => .error .history
  | some rlh =>
    if rlh.lineLen ≥ rl.bufLen then
      let (ok, rl) := rl.reallocBuf mem (ulong (rlh.lineLen + 1))
      if ok then rl.loadItem mi rlh else .ok rl
    else rl.loadItem mi rlh

/-- `rl_use_history`. -/
def useHistory (id : ℕ) : Except Fault RlInfo := do
  let (ok, rl) ← rl.addHistory mem rl.currentItem
  if ok then rl.loadHistory mi mem id else .ok rl

/-- The comparison of a node with the line. -/
def sameText (item : HistoryItem) : Except Fault Bool :=
  if item.lineLen ≠ rl.lineLen then .ok false
  else do
    let text ← rl.text 0 item.lineLen
    .ok (item.text = text)

/-- `rl_enter_history`. -/
def enterHistory : Except Fault RlInfo :=
  if rl.lineLen = 0 then .ok rl
  else
    match rl.history.items, rl.currentItem with
    | [], none => (rl.addHistory mem none).map Prod.snd
    | [], some _ => .error .history
    | head :: rest, currentItem => do
      let item := if currentItem.isSome then some head.id else none
      -- the entry to compare with is behind the line that was saved
      let last := if currentItem.isSome then rest.head? else some head
      match last with
      | none => .error .history
      | some last =>
        if ← rl.sameText last then
          .ok (if item.isSome then { rl with history := rl.history.freeHead } else rl)
        else (rl.addHistory mem item).map Prod.snd

/-! ## Commands -/

/-- `rl_forward_char`, without the bell. -/
def forwardChar (count : ℤ) : RlInfo :=
  let cursorPos := long (rl.cursorPos + count)
  { rl with
    cursorPos :=
      if cursorPos < 0 then 0 else if ulong cursorPos > rl.lineLen then long rl.lineLen
      else cursorPos }

/-- `rl_backward_delete_char`. -/
def backwardDeleteChar : Except Fault RlInfo :=
  let length := rl.prefixArg
  let start := long (rl.cursorPos - length)
  if start < 0 then rl.delete mi 0 (long (length + start)) else rl.delete mi (ulong start) length

/-- `rl_exchange_point_and_mark`. -/
def exchangePointAndMark : RlInfo := { rl with cursorPos := rl.markPos, markPos := rl.cursorPos }

/-- The walk to an older node: `count` nodes behind the one at `i`. -/
def older : ℕ → ℕ → Option ℕ
  | 0, i => some i
  | count + 1, i => if i + 1 < rl.history.items.length then older count (i + 1) else none

/-- The walk to a newer node. -/
def newer : ℕ → ℕ → Option ℕ
  | 0, i => some i
  | _ + 1, 0 => none
  | count + 1, i + 1 => newer count i

/-- Where `rl_next_history` starts and how far it goes. The fault is a current item that is not in the
list. -/
def historyStart (count : ℤ) : Except Fault (Option (ℕ × ℤ)) :=
  match rl.currentItem with
  | some id =>
    match rl.history.items.findIdx? (·.id = id) with
    | none => .error .history
    | some i => .ok (some (i, count))
  | none => .ok (if rl.history.items = [] then none else some (0, long (count + 1)))

/-- The node that `rl_next_history` comes to, if there is one. -/
def historyTarget (count : ℤ) : Except Fault (Option ℕ) := do
  match ← rl.historyStart count with
  | none => .ok none
  | some (i, count) =>
    let i := if count < 0 then rl.older count.natAbs i else newer count.natAbs i
    .ok (i.bind fun i => rl.history.items[i]?.map HistoryItem.id)

/-- `rl_next_history`, without the bell. -/
def nextHistory (count : ℤ) : Except Fault RlInfo := do
  match ← rl.historyTarget count with
  | none => .ok rl
  | some id => rl.useHistory mi mem id

/-- `rl_beginning_of_history`, without the bell. -/
def beginningOfHistory : Except Fault RlInfo :=
  match rl.history.items.getLast? with
  | none => .ok rl
  | some rlh => rl.useHistory mi mem rlh.id

/-- `rl_end_of_history`, without the bell. -/
def endOfHistory : Except Fault RlInfo :=
  if rl.currentItem = none then .ok rl
  else
    match rl.history.items.head? with
    | none => .ok rl
    | some rlh => rl.useHistory mi mem rlh.id

/-- The newline behind the text. -/
def putNewline : Except Fault RlInfo := do
  let rl ← rl.memcpy rl.lineLen [0x0a]
  .ok { rl with lineLen := ulong (rl.lineLen + 1) }

/-- The line is entered. -/
def enterLine : Except Fault RlInfo := do
  let rl ← rl.enterHistory mem
  let rl := { rl with cursorPos := long rl.lineLen }
  let rl := (rl.findCursor mi).setCursor mi
  let rl := { rl with view := rl.view.printn mi [0x0a] }
  rl.putNewline

/-! ## Keys -/

/-- What a key is for. -/
inductive Command where
  | nothing
  | forwardChar (count : ℤ)
  | beginningOfLine
  | endOfLine
  | deleteChar
  | backwardDeleteChar
  | enter
  | redisplay
  | setMark
  | exchangePointAndMark
  | nextHistory (count : ℤ)
  | beginningOfHistory
  | endOfHistory
  | selfInsert (c : UChar)
  deriving DecidableEq

/-- A key alone. -/
def plainKey (c : UChar) : RlInfo × Command :=
  if c = 0x1b then ({ rl with hadEsc := true }, .nothing)
  else if c = 0x18 then ({ rl with hadCtrlX := true }, .nothing)
  else if c = 0x06 then (rl, .forwardChar rl.prefixArg)
  else if c = 0x02 then (rl, .forwardChar (long (-rl.prefixArg)))
  else if c = 0x01 then (rl, .beginningOfLine)
  else if c = 0x05 then (rl, .endOfLine)
  else if c = 0x04 then (rl, .deleteChar)
  else if c = 0x7f then (rl, .backwardDeleteChar)
  else if c = 0x0d ∨ c = 0x0a then (rl, .enter)
  else if c = 0x0c then (rl, .redisplay)
  else if c = 0x00 then (rl, .setMark)
  else if c = 0x0e then (rl, .nextHistory rl.prefixArg)
  else if c = 0x10 then (rl, .nextHistory (long (-rl.prefixArg)))
  else (rl, .selfInsert c)

/-- A key after `C-x`. -/
def ctrlXKey (c : UChar) : RlInfo × Command :=
  let rl := { rl with hadCtrlX := false }
  if c = 0x1b then ({ rl with hadEsc := true }, .nothing)
  else if c = 0x18 then (rl, .exchangePointAndMark)
  else (rl, .nothing)

/-- A key after `ESC`. -/
def escKey (c : UChar) : RlInfo × Command :=
  let rl := { rl with hadEsc := false }
  if 0x30 ≤ c ∧ c ≤ 0x39 then
    let digit : ℤ := c.toNat - 0x30
    let arg :=
      if rl.validCurrentArg then
        if rl.currentPrefixArg ≥ 0 then long (rl.currentPrefixArg * 10 + digit)
        else long (rl.currentPrefixArg * 10 - digit)
      else digit
    ({ rl with nextPrefixArg := arg, validNextArg := true }, .nothing)
  else if c = 0x2d then
    let arg := if rl.validCurrentArg then long (-rl.currentPrefixArg) else -1
    ({ rl with nextPrefixArg := arg, validNextArg := true }, .nothing)
  else if c = 0x5b then ({ rl with inCursor := true, hadEsc := true }, .nothing)
  else if c = 0x3c then (rl, .beginningOfHistory)
  else if c = 0x3e then (rl, .endOfHistory)
  else (rl, .nothing)

/-- A key after `ESC [`. -/
def cursorKey (c : UChar) : RlInfo × Command :=
  let rl := { rl with hadEsc := false, inCursor := false }
  if c = 0x41 then (rl, .nextHistory (long (-rl.prefixArg)))
  else if c = 0x42 then (rl, .nextHistory rl.prefixArg)
  else if c = 0x43 then (rl, .forwardChar rl.prefixArg)
  else if c = 0x44 then (rl, .forwardChar (long (-rl.prefixArg)))
  else (rl, .nothing)

/-- The start of the loop of `readline`, and its `switch`. -/
def readKey (c : UChar) : RlInfo × Command :=
  let rl := { rl with
    currentPrefixArg := rl.nextPrefixArg, validCurrentArg := rl.validNextArg, validNextArg := false }
  if !rl.hadEsc && !rl.hadCtrlX then rl.plainKey c
  else if !rl.hadEsc && rl.hadCtrlX then rl.ctrlXKey c
  else if rl.hadEsc && !rl.hadCtrlX then
    if !rl.inCursor then rl.escKey c else rl.cursorKey c
  else ({ rl with hadEsc := false, hadCtrlX := false }, .nothing)

/-- The end of the loop, where the cursor was moved. -/
def moved : RlInfo := (rl.findCursor mi).setCursor mi

/-- What a command does, and whether the line is finished. -/
def perform : Command → Except Fault (Bool × RlInfo)
  | .nothing => .ok (false, rl)
  | .forwardChar count => .ok (false, (rl.forwardChar count).moved mi)
  | .beginningOfLine => .ok (false, { rl with cursorPos := 0 }.moved mi)
  | .endOfLine => .ok (false, { rl with cursorPos := long rl.lineLen }.moved mi)
  | .deleteChar =>
    if ulong rl.cursorPos = rl.lineLen then .ok (true, rl)
    else do .ok (false, ← rl.delete mi (ulong rl.cursorPos) rl.prefixArg)
  | .backwardDeleteChar => do .ok (false, (← rl.backwardDeleteChar mi).moved mi)
  | .enter => do .ok (true, ← rl.enterLine mi mem)
  | .redisplay => do .ok (false, ← rl.redisplay mi)
  | .setMark =>
    let rl := { rl with markPos := rl.cursorPos }
    .ok (false, if mem.junk then rl.moved mi else rl)
  | .exchangePointAndMark => .ok (false, rl.exchangePointAndMark.moved mi)
  | .nextHistory count => do .ok (false, ← rl.nextHistory mi mem count)
  | .beginningOfHistory => do .ok (false, ← rl.beginningOfHistory mi mem)
  | .endOfHistory => do .ok (false, ← rl.endOfHistory mi mem)
  | .selfInsert c => do .ok (false, (← rl.insert mi mem [c]).moved mi)

end RlInfo

/-! ## Sessions -/

/-- A tty between two calls of `readline`, in one, and at the end of one. -/
inductive Console where
  | idle (screen : Screen) (history : History)
  | editing (rl : RlInfo)
  | finished (rl : RlInfo)

/-- What happens to a tty. `key none` stands for an error of `get_char`. A call of `readline` finds
something in the variables that it does not set. -/
inductive Event where
  | print (text : List UChar)
  | readline (mem : Memory) (markPos nextPrefixArg : ℤ)
  | key (mem : Memory) (c : Option UChar)
  | leave

/-- The first part of `readline`. -/
def openLine (screen : Screen) (history : History) (mem : Memory) (markPos nextPrefixArg : ℤ) :
    Console :=
  let rl : RlInfo := {
    view := ⟨screen, 0, 0, screen.x, screen.y⟩, history := history, cursorPos := 0,
    markPos := markPos, lineLen := 0, bufLen := 0, lineBuf := none, currentPrefixArg := 0,
    nextPrefixArg := nextPrefixArg, validCurrentArg := false, validNextArg := false,
    hadEsc := false, hadCtrlX := false, inCursor := false, currentItem := none }
  let (ok, rl) := rl.reallocBuf mem 0
  if ok then .editing (rl.moved mi) else .idle screen history

namespace Console

/-- The tty after an event. What cannot happen in a state changes nothing. -/
def next (c : Console) (e : Event) : Except Fault Console :=
  match c, e with
  | .idle screen history, .print text => .ok (.idle (screen.printn mi text) history)
  | .editing rl, .print text => .ok (.editing { rl with view := rl.view.printn mi text })
  | .idle screen history, .readline mem markPos nextPrefixArg =>
    .ok (openLine mi screen history mem markPos nextPrefixArg)
  | .editing rl, .key _ none => .ok (.finished rl)
  | .editing rl, .key mem (some c) => do
    let (rl, command) := rl.readKey c
    let (done, rl) ← rl.perform mi mem command
    .ok (if done then .finished rl else .editing rl)
  | .finished rl, .leave => .ok (.idle rl.view.screen rl.history)
  | c, _ => .ok c

/-- A step of a run. -/
def step (c : Console) (e : Event) : Option Console := (c.next mi e).toOption

/-- A tty after `open_tty`. -/
def new : Console := .idle ⟨0, 0, []⟩ ⟨[], 0, 0⟩

end Console

end Vmm386.TtyModule
