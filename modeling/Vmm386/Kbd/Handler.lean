import Vmm386.Types

/-!
# The keyboard handler

`kbd_handler` of `drivers/physical/kbd/kbd.c` up to the key that a scan code completes, and the
shift state.
-/

namespace Vmm386.Kbd

abbrev S_LEFT_SHIFT : ULong := 0x01
abbrev S_RIGHT_SHIFT : ULong := 0x02
abbrev S_LEFT_CTRL : ULong := 0x04
abbrev S_RIGHT_CTRL : ULong := 0x08
abbrev S_LEFT_ALT : ULong := 0x10
abbrev S_RIGHT_ALT : ULong := 0x20

abbrev K_ESC : UChar := 0x01
abbrev K_LEFT_CTRL : UChar := 0x1d
abbrev K_LEFT_SHIFT : UChar := 0x2a
abbrev K_RIGHT_SHIFT : UChar := 0x36
abbrev K_LEFT_ALT : UChar := 0x38
abbrev K_KP_MINUS : UChar := 0x4a
abbrev K_KP_PLUS : UChar := 0x4e
abbrev K_SYS_REQ : UChar := 0x54
abbrev K_E0_RIGHT_CTRL : UChar := 0x61
abbrev K_E0_RIGHT_ALT : UChar := 0x64
abbrev K_E0_UP : UChar := 0x67
abbrev K_E0_DELETE : UChar := 0x6f
abbrev K_E1_PAUSE : UChar := 0x77

/-- `e0_key_codes`. -/
def e0KeyCodes : List UChar :=
  [
    0, 0, 0, 0, 0, 0, 0, 0,
    0, 0, 0, 0, 0, 0, 0, 0,
    0, 0, 0, 0, 0, 0, 0, 0,
    0, 0, 0, 0, 0x60, 0x61, 0, 0,
    0, 0, 0, 0, 0, 0, 0, 0,
    0, 0, 0, 0, 0, 0, 0, 0,
    0, 0, 0, 0, 0, 0x62, 0, 0x63,
    0x64, 0, 0, 0, 0, 0, 0, 0,
    0, 0, 0, 0, 0, 0, 0x65, 0x66,
    0x67, 0x68, 0, 0x69, 0, 0x6a, 0, 0x6b,
    0x6c, 0x6d, 0x6e, 0x6f, 0, 0, 0, 0,
    0, 0, 0, 0, 0, 0, 0, 0,
    0, 0, 0, 0, 0, 0, 0, 0,
    0, 0, 0, 0, 0, 0, 0, 0,
    0, 0, 0, 0, 0, 0, 0, 0,
    0, 0, 0, 0, 0, 0, 0, 0
  ]

/-- A scan code: `prev_scancode` behind it, and the key code, 0 if there is none. -/
def scanKey (prevScancode : ℕ) (scanCode : UChar) : ℕ × UChar :=
  if scanCode = 0xe0 ∨ scanCode = 0xe1 then (scanCode.toNat, 0)
  else
    let keyCode := scanCode &&& 0x7f
    if prevScancode = 0xe0 then
      -- the fake shifts are ignored
      (0, if keyCode ≠ 0x2a ∧ keyCode ≠ 0x36 then e0KeyCodes.getD keyCode.toNat 0 else 0)
    else if prevScancode = 0xe1 ∧ keyCode = 0x1d then (0x100, 0)
    else if prevScancode = 0x100 ∧ keyCode = 0x45 then (0, K_E1_PAUSE)
    else (prevScancode, keyCode)

/-- `set_shift_state`. -/
def setShiftState (shiftState shiftMask : ULong) (upCode : UChar) : ULong :=
  if upCode ≠ 0 then shiftState &&& ~~~shiftMask else shiftState ||| shiftMask

/-- The mask of a shift key. -/
def shiftMask (keyCode : UChar) : Option ULong :=
  if keyCode = K_LEFT_ALT then some S_LEFT_ALT
  else if keyCode = K_E0_RIGHT_ALT then some S_RIGHT_ALT
  else if keyCode = K_LEFT_SHIFT then some S_LEFT_SHIFT
  else if keyCode = K_RIGHT_SHIFT then some S_RIGHT_SHIFT
  else if keyCode = K_LEFT_CTRL then some S_LEFT_CTRL
  else if keyCode = K_E0_RIGHT_CTRL then some S_RIGHT_CTRL
  else none

/-- The `switch` over the shift keys. -/
def shiftAfter (shiftState : ULong) (keyCode upCode : UChar) : ULong :=
  match shiftMask keyCode with
  | some mask => setShiftState shiftState mask upCode
  | none => shiftState

end Vmm386.Kbd
