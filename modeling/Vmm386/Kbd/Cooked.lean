import Vmm386.Lib.Ring
import Vmm386.Tasks.TaskFlags

/-!
# The cooked keyboard

`drivers/physical/kbd/cooked.c`: the keyboard dispatcher puts the characters that a key stands
for into a ring buffer, and the task that owns the keyboard reads them from there.
-/

namespace Vmm386.Kbd

open Tasks Runs

abbrev COOKED_BUFSIZ : ℕ := 16

abbrev S_SHIFT : ULong := 0x03
abbrev S_CTRL : ULong := 0x0c
abbrev S_ALT : ULong := 0x30

abbrev L_SCROLL_LOCK : ULong := 0x01
abbrev L_NUM_LOCK : ULong := 0x02
abbrev L_CAPS_LOCK : ULong := 0x04

abbrev KM_SHIFT : ULong := 1
abbrev KM_ALT : ULong := 2
abbrev KM_CTRL : ULong := 4
abbrev KM_NUM_LOCK : ULong := 8

abbrev K_CAPS_LOCK : UChar := 0x3a
abbrev K_NUM_LOCK : UChar := 0x45
abbrev K_SCROLL_LOCK : UChar := 0x46

/-- A C string, without the byte that ends it. -/
abbrev Str := List UChar

/-- The table `keymap` of `keymaps/gb.h`: for some sets of modifier keys, the strings that the
keys stand for. -/
abbrev Keymap := ULong → Option (UChar → Option Str)

/-- `enum cooked_type`. -/
inductive CookedType where
  | none
  | func
  | task
deriving DecidableEq

/-- Where the reader is in `cooked_read_char`. -/
inductive ReaderPc where
  /-- Before the call. -/
  | call
  /-- Before the test for an empty buffer. -/
  | test
  /-- The buffer was empty: before the reader leaves its address in `receiver.task.task`. -/
  | register
  /-- In `suspend_current_task`, before preemption is forbidden. -/
  | forbid
  /-- Before `suspend_task`. -/
  | suspendTask
  /-- Before `schedule` returns. -/
  | schedule
  /-- Before preemption is permitted again. -/
  | permit
  /-- Before a character is fetched. -/
  | fetch
  /-- Before `out` is advanced. -/
  | advance (c : UChar)
deriving DecidableEq

/-- `struct cooked_kbd` and its reader. `accepted`, `returned` and `fed` record the characters
that have been put into the buffer, that `cooked_read_char` has returned, and that the function
of a keyboard of type `ct_Func` has been called with. -/
structure CookedKbd where
  lockState : ULong
  type : CookedType
  buf : ℕ → UChar
  bufIn : ℕ
  bufOut : ℕ
  /-- `receiver.task.task` is the reader, not null. -/
  registered : Bool
  flags : Flags
  forbidCount : ℕ
  pc : ReaderPc
  accepted : List UChar
  returned : List UChar
  fed : List UChar

namespace CookedKbd

variable (ck : CookedKbd)

/-- `find_keymap`. -/
def findKeymap (keymap : Keymap) (shiftState lockState : ULong) : Option (UChar → Option Str) :=
  let kmIndex : ULong := if lockState &&& L_CAPS_LOCK ≠ 0 then KM_SHIFT else 0
  let kmIndex := if lockState &&& L_NUM_LOCK ≠ 0 then kmIndex ||| KM_NUM_LOCK else kmIndex
  let kmIndex := if shiftState &&& S_SHIFT ≠ 0 then kmIndex ^^^ KM_SHIFT else kmIndex
  let kmIndex := if shiftState &&& S_ALT ≠ 0 then kmIndex ||| KM_ALT else kmIndex
  let kmIndex := if shiftState &&& S_CTRL ≠ 0 then kmIndex ||| KM_CTRL else kmIndex
  keymap kmIndex

/-- `cook_keycode`. -/
def cookKeycode (keymap : Keymap) (keyCode : UChar) (shiftState lockState : ULong) :
    Option Str :=
  (findKeymap keymap shiftState lockState).bind fun map => map keyCode

/-- `cooked_use_key`: the switch that toggles the lock state. -/
def toggleLockState (keyCode : UChar) (lockState : ULong) : ULong :=
  if keyCode = K_CAPS_LOCK then lockState ^^^ L_CAPS_LOCK
  else if keyCode = K_NUM_LOCK then lockState ^^^ L_NUM_LOCK
  else if keyCode = K_SCROLL_LOCK then lockState ^^^ L_SCROLL_LOCK
  else lockState

/-- `cooked_use_key`: the loop that puts a string into the buffer, as far as there is room. -/
def putString : Str → CookedKbd → CookedKbd
  | [], ck => ck
  | c :: str, ck =>
    let newIn := (ck.bufIn + 1) % COOKED_BUFSIZ
    if newIn = ck.bufOut then ck
    else
      putString str { ck with
        buf := Function.update ck.buf ck.bufIn c
        bufIn := newIn
        accepted := ck.accepted ++ [c] }

/-- `cooked_use_key`: the reader that waits for characters is woken. -/
def wakeReader : CookedKbd :=
  if ck.registered then { ck with flags := ck.flags.wake, registered := false } else ck

/-- The string that a key stands for when it goes down. -/
def keyString (keymap : Keymap) (shiftState : ULong) (keyCode upCode : UChar) : Option Str :=
  if upCode = 0 then
    cookKeycode keymap keyCode shiftState (toggleLockState keyCode ck.lockState)
  else none

/-- `cooked_use_key`. -/
def useKey (keymap : Keymap) (shiftState : ULong) (keyCode upCode : UChar) : CookedKbd :=
  if upCode = 0 then
    let str := ck.keyString keymap shiftState keyCode upCode
    let ck := { ck with lockState := toggleLockState keyCode ck.lockState }
    match str with
    | none => ck
    | some str =>
      match ck.type with
      | .func => { ck with fed := ck.fed ++ str }
      | .task => (ck.putString str).wakeReader
      | .none => ck
  else ck

/-- `cooked_read_char`: one step of the reader, if it is not suspended. -/
def readChar : Option CookedKbd :=
  if ck.flags.running then
    match ck.pc with
    | .call => if ck.type ≠ .task then some ck else some { ck with pc := .test }
    | .test =>
      if ck.bufIn = ck.bufOut then some { ck with pc := .register }
      else some { ck with pc := .fetch }
    | .register => some { ck with registered := true, pc := .forbid }
    | .forbid => some { ck with forbidCount := ck.forbidCount + 1, pc := .suspendTask }
    | .suspendTask => some { ck with flags := ck.flags.suspend, pc := .schedule }
    | .schedule => some { ck with pc := .permit }
    | .permit => some { ck with forbidCount := ck.forbidCount - 1, pc := .test }
    | .fetch => some { ck with pc := .advance (ck.buf ck.bufOut) }
    | .advance c =>
      some { ck with
        bufOut := (ck.bufOut + 1) % COOKED_BUFSIZ
        returned := ck.returned ++ [c]
        pc := .call }
  else none

/-- `schedule` does not let the dispatcher run, though it has the higher priority. -/
def Forbidden : Prop := 0 < ck.forbidCount ∧ ck.flags.running

instance : Decidable ck.Forbidden := inferInstanceAs (Decidable (_ ∧ _))

/-- The characters in the buffer, the oldest first. -/
def contents : List UChar := Ring.contents COOKED_BUFSIZ ck.buf ck.bufIn ck.bufOut

end CookedKbd

/-- What happens next: a key goes down or up, or the reader makes a step. -/
inductive KbdOp where
  | key (shiftState : ULong) (keyCode upCode : UChar)
  | reader

/-- The dispatcher handles a key without being interrupted by the reader. -/
def kbdStep (keymap : Keymap) (ck : CookedKbd) : KbdOp → Option CookedKbd
  | .key shiftState keyCode upCode =>
    if ¬ck.Forbidden then some (ck.useKey keymap shiftState keyCode upCode) else none
  | .reader => ck.readChar

/-- A keyboard after `init_cooked_kbd` and `cooked_set_task` or `cooked_set_function`. -/
def CookedKbd.init (type : CookedType) : CookedKbd where
  lockState := 0
  type
  buf _ := 0
  bufIn := 0
  bufOut := 0
  registered := false
  flags := Flags.runnable
  forbidCount := 0
  pc := .call
  accepted := []
  returned := []
  fed := []

end Vmm386.Kbd
