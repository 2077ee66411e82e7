import Vmm386.Kbd.Cooked
import Vmm386.Kbd.Handler

/-!
# The virtual keyboard

`drivers/virtual/vkbd/vkbd.c`. What it does to other devices (interrupts, LEDs, the speaker, the
A20 gate) is not part of the state. `log` records what happens to the ring, the last event first.
-/

namespace Vmm386.VkbdModule

open Kbd

abbrev KB_STAT_OUTPUT_FULL : UChar := 0x01
abbrev KB_STAT_SYS_FLAG : UChar := 0x04
abbrev KB_STAT_COMMAND : UChar := 0x08

abbrev KB_CMD_INTERRUPT : UChar := 0x01
abbrev KB_CMD_SYS_FLAG : UChar := 0x04
abbrev KB_CMD_KBD_DISABLED : UChar := 0x10
abbrev KB_CMD_PC_COMPAT : UChar := 0x40

abbrev KB_INP_2ND_256K : UChar := 0x10
abbrev KB_INP_DISP_MDA : UChar := 0x40

abbrev KB_OUTP_OUTPUT_FULL : UChar := 0x10
abbrev KB_OUTP_INPUT_EMPTY : UChar := 0x20

abbrev KB_8255_KBD_ENABLE : UChar := 0x40

abbrev KB_8042_READ_CMD_BYTE : ULong := 0x20
abbrev KB_8042_WRITE_CMD_BYTE : ULong := 0x60
abbrev KB_8042_SELF_TEST : ULong := 0xaa
abbrev KB_8042_INTERFACE_TEST : ULong := 0xab
abbrev KB_8042_DISABLE_KBD : ULong := 0xad
abbrev KB_8042_ENABLE_KBD : ULong := 0xae
abbrev KB_8042_READ_INPUT_PORT : ULong := 0xc0
abbrev KB_8042_READ_OUTPUT_PORT : ULong := 0xd0
abbrev KB_8042_WRITE_OUTPUT_PORT : ULong := 0xd1

abbrev KB_KBD_SET_LEDS : ULong := 0xed
abbrev KB_KBD_ECHO : ULong := 0xee
abbrev KB_KBD_SEND_ID : ULong := 0xf2
abbrev KB_KBD_SET_TYPEMATIC : ULong := 0xf3
abbrev KB_KBD_ENABLE : ULong := 0xf4
abbrev KB_KBD_RESET_STOP : ULong := 0xf5
abbrev KB_KBD_SET_DEFAULT : ULong := 0xf6
abbrev KB_KBD_RESEND : ULong := 0xfe
abbrev KB_KBD_RESET : ULong := 0xff

abbrev KB_REP_OVERRUN : ULong := 0x00
abbrev KB_REP_BAT_OK : ULong := 0xaa
abbrev KB_REP_ECHO : ULong := 0xee
abbrev KB_REP_ACK : ULong := 0xfa

abbrev VK_BUF_UP_KEY : ULong := 0x00010000
abbrev VK_BUF_SHIFT : ULong := 0x00020000

/-- What happens to the ring. -/
inductive RingEvent where
  /-- `kept` is false when the ring was full. -/
  | entered (val : ULong) (kept : Bool)
  | read (val : ULong)
  | emptied
  | resent
deriving DecidableEq

/-- `struct vkbd`. -/
structure Vkbd where
  inFocus : Bool
  statusByte : UChar
  commandByte : UChar
  inputPort : UChar
  outputPort : UChar
  this8042Command : UChar
  buf : ℤ → ULong
  inPos : ℤ
  outPos : ℤ
  thisKbdCommand : UChar
  lockState : UChar
  ledState : UChar
  output8255 : UChar
  shiftState : ULong
  log : List RingEvent

/-- `init_vkbd`. What is in the buffer and in the shift state is not set. -/
def initVkbd (displayIsMda : Bool) (buf : ℤ → ULong) (shiftState : ULong) : Vkbd where
  inFocus := false
  statusByte := KB_STAT_SYS_FLAG
  commandByte := KB_CMD_INTERRUPT ||| KB_CMD_SYS_FLAG ||| KB_CMD_PC_COMPAT
  inputPort := KB_INP_2ND_256K ||| if displayIsMda then KB_INP_DISP_MDA else 0
  outputPort := KB_OUTP_INPUT_EMPTY
  this8042Command := 0
  buf := buf
  inPos := 0
  outPos := 0
  thisKbdCommand := 0
  lockState := 0
  ledState := 0
  output8255 := KB_8255_KBD_ENABLE
  shiftState := shiftState
  log := []

namespace Vkbd

variable (vk : Vkbd)

/-! ## The ring -/

/-- `vkbd_is_empty`. -/
def IsEmpty : Prop := vk.inPos = vk.outPos

instance : Decidable vk.IsEmpty := inferInstanceAs (Decidable (_ = _))

/-- `vkbd_in`. The remainder is that of C. -/
def vkbdIn (val : ULong) : Vkbd :=
  let newPos := (vk.inPos + 1).tmod 16
  if newPos = vk.outPos then { vk with log := .entered val false :: vk.log }
  else { vk with
    buf := Function.update vk.buf vk.inPos val
    inPos := newPos
    statusByte := vk.statusByte ||| KB_STAT_OUTPUT_FULL
    outputPort := vk.outputPort ||| KB_OUTP_OUTPUT_FULL
    log := .entered val true :: vk.log }

/-- The flags of an empty ring. -/
def clearFull : Vkbd :=
  { vk with
    statusByte := vk.statusByte &&& ~~~KB_STAT_OUTPUT_FULL
    outputPort := vk.outputPort &&& ~~~KB_OUTP_OUTPUT_FULL }

/-- `vkbd_out`. -/
def vkbdOut : ULong × Vkbd :=
  let c := vk.buf vk.outPos
  let vk := { vk with outPos := (vk.outPos + 1).tmod 16, log := .read c :: vk.log }
  (c, if vk.IsEmpty then vk.clearFull else vk)

/-- `vkbd_empty`. -/
def vkbdEmpty : Vkbd := { vk with outPos := vk.inPos, log := .emptied :: vk.log }.clearFull

/-- `vkbd_unout`. -/
def vkbdUnout : Vkbd :=
  let newPos := (vk.outPos - 1).tmod 16
  if newPos = vk.inPos then vk.vkbdIn KB_REP_OVERRUN
  else { vk with outPos := newPos, log := .resent :: vk.log }

/-! ## Ports -/

/-- `vkbd_read_port`, on a virtual keyboard. -/
def readPort (port : UShort) (size : ℕ) : ULong × Vkbd :=
  if size ≠ 1 then (-1, vk)
  else if port = 0x60 then
    if vk.IsEmpty then (0, vk) else (vk.vkbdOut.1 &&& 0xff, vk.vkbdOut.2)
  else if port = 0x61 then
    let vk := { vk with output8255 := vk.output8255 ^^^ 0x10 }
    (vk.output8255.zeroExtend 32, vk)
  else if port = 0x64 then (vk.statusByte.zeroExtend 32, vk)
  else (-1, vk)

/-- `enable_vkbd`. -/
def enableVkbd : Vkbd :=
  { vk with
    commandByte := vk.commandByte &&& ~~~KB_CMD_KBD_DISABLED
    output8255 := vk.output8255 ||| KB_8255_KBD_ENABLE }

/-- `disable_vkbd`. -/
def disableVkbd : Vkbd :=
  { vk with
    commandByte := vk.commandByte ||| KB_CMD_KBD_DISABLED
    output8255 := vk.output8255 &&& ~~~KB_8255_KBD_ENABLE }

/-- A write to port `0x61`. When the speaker is turned on, the tty is sent to the foreground next,
which is a switch of its own. -/
def write8255 (val : ULong) : Vkbd :=
  let old := vk.output8255
  let vk := { vk with output8255 := val.truncate 8 }
  if val.truncate 8 &&& KB_8255_KBD_ENABLE ≠ old &&& KB_8255_KBD_ENABLE then
    if val.truncate 8 &&& KB_8255_KBD_ENABLE ≠ 0 then vk.enableVkbd else vk.disableVkbd
  else vk

/-- A write to port `0x64`. -/
def write8042 (val : ULong) : Vkbd :=
  let vk := { vk with statusByte := vk.statusByte ||| KB_STAT_COMMAND, this8042Command := 0 }
  if val = KB_8042_READ_CMD_BYTE then vk.vkbdIn (vk.commandByte.zeroExtend 32)
  else if val = KB_8042_WRITE_CMD_BYTE then { vk with this8042Command := val.truncate 8 }
  else if val = KB_8042_SELF_TEST then vk.vkbdIn 0x55
  else if val = KB_8042_INTERFACE_TEST then vk.vkbdIn 0x00
  else if val = KB_8042_DISABLE_KBD then vk.disableVkbd
  else if val = KB_8042_ENABLE_KBD then vk.enableVkbd
  else if val = KB_8042_READ_INPUT_PORT then vk.vkbdIn (vk.inputPort.zeroExtend 32)
  else if val = KB_8042_READ_OUTPUT_PORT then vk.vkbdIn (vk.outputPort.zeroExtend 32)
  else if val = KB_8042_WRITE_OUTPUT_PORT then { vk with this8042Command := val.truncate 8 }
  else vk

/-- From the label `do_kbd_cmd` on. -/
def doKbdCmd (val : ULong) : Vkbd :=
  let vk := { vk with thisKbdCommand := 0 }
  if val = KB_KBD_SET_LEDS ∨ val = KB_KBD_SET_TYPEMATIC then
    { vk.vkbdIn KB_REP_ACK with thisKbdCommand := val.truncate 8 }
  else if val = KB_KBD_ECHO then vk.vkbdIn KB_REP_ECHO
  else if val = KB_KBD_SEND_ID then (vk.vkbdIn 0x83).vkbdIn 0xab
  else if val = KB_KBD_ENABLE ∨ val = KB_KBD_RESET_STOP ∨ val = KB_KBD_SET_DEFAULT then
    vk.vkbdEmpty.vkbdIn KB_REP_ACK
  else if val = KB_KBD_RESEND then vk.vkbdUnout
  else if val = KB_KBD_RESET then (vk.vkbdEmpty.vkbdIn KB_REP_ACK).vkbdIn KB_REP_BAT_OK
  else vk

/-- A write to port `0x60`. -/
def writeData (val : ULong) : Vkbd :=
  let vk := { vk with statusByte := vk.statusByte &&& ~~~KB_STAT_COMMAND }
  if vk.this8042Command ≠ 0 then
    let command := vk.this8042Command.zeroExtend 32
    let vk := { vk with this8042Command := 0 }
    if command = KB_8042_WRITE_CMD_BYTE then { vk with commandByte := val.truncate 8 }
    else if command = KB_8042_WRITE_OUTPUT_PORT then { vk with outputPort := val.truncate 8 }
    else vk
  else if vk.thisKbdCommand ≠ 0 then
    if vk.thisKbdCommand.zeroExtend 32 = KB_KBD_SET_LEDS then
      if val &&& 0x80 ≠ 0 then vk.doKbdCmd val
      else
        { { vk with ledState := val.truncate 8 }.vkbdIn KB_REP_ACK with thisKbdCommand := 0 }
    else if vk.thisKbdCommand.zeroExtend 32 = KB_KBD_SET_TYPEMATIC then
      { vk.vkbdIn KB_REP_ACK with thisKbdCommand := 0 }
    else { vk with thisKbdCommand := 0 }
  else vk.doKbdCmd val

/-- `vkbd_write_port`, on a virtual keyboard. -/
def writePort (port : UShort) (size : ℕ) (val : ULong) : Vkbd :=
  if size ≠ 1 then vk
  else if port = 0x61 then vk.write8255 val
  else if port = 0x64 then vk.write8042 val
  else if port = 0x60 then vk.writeData val
  else vk

end Vkbd

/-! ## Keys -/

def plainE0DownRemap : List (Option Str) :=
  [
    some [0xe0, 0x1c], some [0xe0, 0x1d], some [0xe0, 0x35], some [0xe0, 0x2a, 0xe0, 0x37],
    some [0xe0, 0x38], some [0xe0, 0x46, 0xe0, 0xc6], some [0xe0, 0x47], some [0xe0, 0x48],
    some [0xe0, 0x49], some [0xe0, 0x4b], some [0xe0, 0x4d], some [0xe0, 0x4f],
    some [0xe0, 0x50], some [0xe0, 0x51], some [0xe0, 0x52], some [0xe0, 0x53],
    none, none, none, none,
    none, none, none, none,
    none, none, none, some [0xe1, 0x1d, 0x45, 0xe1, 0x9d, 0xc5],
    none, none, none, none
  ]

def plainE0UpRemap : List (Option Str) :=
  [
    some [0xe0, 0x9c], some [0xe0, 0x9d], some [0xe0, 0xb5], some [0xe0, 0xaa, 0xe0, 0xb7],
    some [0xe0, 0xb8], none, some [0xe0, 0xc7], some [0xe0, 0xc8],
    some [0xe0, 0xc9], some [0xe0, 0xcb], some [0xe0, 0xcd], some [0xe0, 0xcf],
    some [0xe0, 0xd0], some [0xe0, 0xd1], some [0xe0, 0xd2], some [0xe0, 0xd3],
    none, none, none, none,
    none, none, none, none,
    none, none, none, none,
    none, none, none, none
  ]

def numLockE0DownRemap : List (Option Str) :=
  [
    some [0xe0, 0x1c], some [0xe0, 0x1d], some [0xe0, 0x35], some [0xe0, 0x2a, 0xe0, 0x37],
    some [0xe0, 0x38], some [0xe0, 0x46, 0xe0, 0xc6],
    some [0xe0, 0x2a, 0xe0, 0x47], some [0x2a, 0x48, 0xe0, 0x48],
    some [0xe0, 0x2a, 0xe0, 0x49], some [0xe0, 0x2a, 0xe0, 0x4b],
    some [0xe0, 0x2a, 0xe0, 0x4d], some [0xe0, 0x2a, 0xe0, 0x4f],
    some [0xe0, 0x2a, 0xe0, 0x50], some [0xe0, 0x2a, 0xe0, 0x51],
    some [0xe0, 0x2a, 0xe0, 0x52], some [0xe0, 0x2a, 0xe0, 0x53],
    none, none, none, none,
    none, none, none, none,
    none, none, none, some [0xe1, 0x1d, 0x45, 0xe1, 0x9d, 0xc5],
    none, none, none, none
  ]

def numLockE0UpRemap : List (Option Str) :=
  [
    some [0xe0, 0x9c], some [0xe0, 0x9d], some [0xe0, 0xb5], some [0xe0, 0xaa, 0xe0, 0xb7],
    some [0xe0, 0xb8], none, some [0xe0, 0xc7, 0xe0, 0xaa], some [0xe0, 0xc8, 0xe0, 0xaa],
    some [0xe0, 0xc9, 0xe0, 0xaa], some [0xe0, 0xcb, 0xe0, 0xaa],
    some [0xe0, 0xcd, 0xe0, 0xaa], some [0xe0, 0xcf, 0xe0, 0xaa],
    some [0xe0, 0xd0, 0xe0, 0xaa], some [0xe0, 0xd1, 0xe0, 0xaa],
    some [0xe0, 0xd2, 0xe0, 0xaa], some [0xe0, 0xd3, 0xe0, 0xaa],
    none, none, none, none,
    none, none, none, none,
    none, none, none, none,
    none, none, none, none
  ]

def leftShiftE0DownRemap : List (Option Str) :=
  [
    some [0xe0, 0x1c], some [0xe0, 0x1d],
    some [0xe0, 0xaa, 0xe0, 0x35], some [0xe0, 0x2a, 0xe0, 0x37],
    some [0xe0, 0x38], some [0xe0, 0x46, 0xe0, 0xc6],
    some [0xe0, 0xaa, 0xe0, 0x47], some [0xaa, 0x48, 0xe0, 0x48],
    some [0xe0, 0xaa, 0xe0, 0x49], some [0xe0, 0xaa, 0xe0, 0x4b],
    some [0xe0, 0xaa, 0xe0, 0x4d], some [0xe0, 0xaa, 0xe0, 0x4f],
    some [0xe0, 0xaa, 0xe0, 0x50], some [0xe0, 0xaa, 0xe0, 0x51],
    some [0xe0, 0xaa, 0xe0, 0x52], some [0xe0, 0xaa, 0xe0, 0x53],
    none, none, none, none,
    none, none, none, none,
    none, none, none, some [0xe1, 0x1d, 0x45, 0xe1, 0x9d, 0xc5],
    none, none, none, none
  ]

def leftShiftE0UpRemap : List (Option Str) :=
  [
    some [0xe0, 0x9c], some [0xe0, 0x9d],
    some [0xe0, 0xb5, 0xe0, 0x2a], some [0xe0, 0xaa, 0xe0, 0xb7],
    some [0xe0, 0xb8], none, some [0xe0, 0xc7, 0xe0, 0x2a], some [0xe0, 0xc8, 0xe0, 0x2a],
    some [0xe0, 0xc9, 0xe0, 0x2a], some [0xe0, 0xcb, 0xe0, 0x2a],
    some [0xe0, 0xcd, 0xe0, 0x2a], some [0xe0, 0xcf, 0xe0, 0x2a],
    some [0xe0, 0xd0, 0xe0, 0x2a], some [0xe0, 0xd1, 0xe0, 0x2a],
    some [0xe0, 0xd2, 0xe0, 0x2a], some [0xe0, 0xd3, 0xe0, 0x2a],
    none, none, none, none,
    none, none, none, none,
    none, none, none, none,
    none, none, none, none
  ]

def rightShiftE0DownRemap : List (Option Str) :=
  [
    some [0xe0, 0x1c], some [0xe0, 0x1d],
    some [0xe0, 0xb6, 0xe0, 0x35], some [0xe0, 0x2a, 0xe0, 0x37],
    some [0xe0, 0x38], some [0xe0, 0x46, 0xe0, 0xc6],
    some [0xe0, 0xb6, 0xe0, 0x47], some [0xb6, 0x48, 0xe0, 0x48],
    some [0xe0, 0xb6, 0xe0, 0x49], some [0xe0, 0xb6, 0xe0, 0x4b],
    some [0xe0, 0xb6, 0xe0, 0x4d], some [0xe0, 0xb6, 0xe0, 0x4f],
    some [0xe0, 0xb6, 0xe0, 0x50], some [0xe0, 0xb6, 0xe0, 0x51],
    some [0xe0, 0xb6, 0xe0, 0x52], some [0xe0, 0xb6, 0xe0, 0x53],
    none, none, none, none,
    none, none, none, none,
    none, none, none, some [0xe1, 0x1d, 0x45, 0xe1, 0x9d, 0xc5],
    none, none, none, none
  ]

def rightShiftE0UpRemap : List (Option Str) :=
  [
    some [0xe0, 0x9c], some [0xe0, 0x9d],
    some [0xe0, 0xb5, 0xe0, 0x36], some [0xe0, 0xaa, 0xe0, 0xb7],
    some [0xe0, 0xb8], none, some [0xe0, 0xc7, 0xe0, 0x36], some [0xe0, 0xc8, 0xe0, 0x36],
    some [0xe0, 0xc9, 0xe0, 0x36], some [0xe0, 0xcb, 0xe0, 0x36],
    some [0xe0, 0xcd, 0xe0, 0x36], some [0xe0, 0xcf, 0xe0, 0x36],
    some [0xe0, 0xd0, 0xe0, 0x36], some [0xe0, 0xd1, 0xe0, 0x36],
    some [0xe0, 0xd2, 0xe0, 0x36], some [0xe0, 0xd3, 0xe0, 0x36],
    none, none, none, none,
    none, none, none, none,
    none, none, none, none,
    none, none, none, none
  ]

namespace Vkbd

variable (vk : Vkbd)

/-- The table that is used for a key. -/
def remapTable (shiftState : ULong) (lockState upCode : UChar) : List (Option Str) :=
  let numLock : Prop := lockState.zeroExtend 32 &&& L_NUM_LOCK ≠ 0
  if shiftState &&& (S_RIGHT_SHIFT ||| S_LEFT_SHIFT) ≠ 0 ∧ numLock then
    if upCode ≠ 0 then plainE0UpRemap else plainE0DownRemap
  else if numLock then if upCode ≠ 0 then numLockE0UpRemap else numLockE0DownRemap
  else if shiftState &&& S_LEFT_SHIFT ≠ 0 then
    if upCode ≠ 0 then leftShiftE0UpRemap else leftShiftE0DownRemap
  else if shiftState &&& S_RIGHT_SHIFT ≠ 0 then
    if upCode ≠ 0 then rightShiftE0UpRemap else rightShiftE0DownRemap
  else if upCode ≠ 0 then plainE0UpRemap else plainE0DownRemap

/-- `*cooked << 8`: a `char` is signed. -/
def cookedBits (cooked : Option Str) : ULong :=
  match cooked with
  | some str => (str.headD 0).signExtend 32 <<< 8
  | none => 0

/-- The loop over the scan codes of a key: only the first one comes with the character. -/
def enterCodes (vkFlags : ULong) : Option Str → Str → Vkbd → Vkbd
  | _, [], vk => vk
  | cooked, c :: codes, vk =>
    enterCodes vkFlags none codes
      (vk.vkbdIn (vkFlags ||| cookedBits cooked ||| c.signExtend 32))

/-- The keys that `vkbd_use_key` knows as locks or shifts. -/
def IsShift (keyCode : UChar) : Prop :=
  keyCode ∈ [K_CAPS_LOCK, K_NUM_LOCK, K_SCROLL_LOCK, K_LEFT_CTRL, K_LEFT_SHIFT, K_RIGHT_SHIFT,
    K_LEFT_ALT, K_E0_RIGHT_CTRL, K_E0_RIGHT_ALT]

instance (keyCode : UChar) : Decidable (IsShift keyCode) := inferInstanceAs (Decidable (_ ∈ _))

/-- `vkbd_use_key`. -/
def useKey (keymap : Keymap) (shiftState : ULong) (keyCode upCode : UChar) : Vkbd :=
  let vk := { vk with shiftState := shiftState }
  let vk :=
    if upCode = 0 then
      { vk with
        lockState := (CookedKbd.toggleLockState keyCode (vk.lockState.zeroExtend 32)).truncate 8 }
    else vk
  let vkFlags :=
    if upCode = 0 then if IsShift keyCode then VK_BUF_SHIFT else 0 else VK_BUF_UP_KEY
  let cooked :=
    if upCode = 0 then
      CookedKbd.cookKeycode keymap keyCode shiftState (vk.lockState.zeroExtend 32)
    else none
  if keyCode < 0x60 then
    vk.vkbdIn (vkFlags ||| cookedBits cooked ||| keyCode.zeroExtend 32 ||| upCode.zeroExtend 32)
  else
    match (remapTable shiftState vk.lockState upCode).getD (keyCode - 0x60).toNat none with
    | some codes => enterCodes vkFlags cooked codes vk
    | none => vk

/-- `vkbd_switch_from`. -/
def switchFrom (shiftState : ULong) : Vkbd :=
  let vk := if shiftState &&& S_LEFT_SHIFT ≠ 0 then vk.vkbdIn 0xaa else vk
  let vk := if shiftState &&& S_RIGHT_SHIFT ≠ 0 then vk.vkbdIn 0xb6 else vk
  let vk := if shiftState &&& S_LEFT_ALT ≠ 0 then vk.vkbdIn 0xb8 else vk
  let vk := if shiftState &&& S_RIGHT_ALT ≠ 0 then (vk.vkbdIn 0xe0).vkbdIn 0xb8 else vk
  let vk := if shiftState &&& S_LEFT_CTRL ≠ 0 then vk.vkbdIn 0x9d else vk
  if shiftState &&& S_RIGHT_CTRL ≠ 0 then (vk.vkbdIn 0xe0).vkbdIn 0x9d else vk

/-- `vkbd_switch_to`. -/
def switchTo (shiftState : ULong) : Vkbd :=
  let vk := if shiftState &&& S_LEFT_SHIFT ≠ 0 then vk.vkbdIn 0x2a else vk
  let vk := if shiftState &&& S_RIGHT_SHIFT ≠ 0 then vk.vkbdIn 0x36 else vk
  let vk := if shiftState &&& S_LEFT_ALT ≠ 0 then vk.vkbdIn 0x38 else vk
  let vk := if shiftState &&& S_RIGHT_ALT ≠ 0 then (vk.vkbdIn 0xe0).vkbdIn 0x18 else vk
  let vk := if shiftState &&& S_LEFT_CTRL ≠ 0 then vk.vkbdIn 0x1d else vk
  if shiftState &&& S_RIGHT_CTRL ≠ 0 then (vk.vkbdIn 0xe0).vkbdIn 0x1d else vk

end Vkbd

end Vmm386.VkbdModule
