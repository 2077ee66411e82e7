import Vmm386.Vkbd.Vkbd

/-!
# The shift state and the focus

The keyboard handler with its virtual keyboards: `kbd_handler` and `kbd_switch` of
`drivers/physical/kbd/kbd.c`. A virtual keyboard is told of the shift keys by scan codes, which
its guest decodes as the handler does.
-/

namespace Vmm386.VkbdModule

open Kbd

/-- The handler, and the virtual keyboards. `focus` is `none` when the focus is on no virtual
keyboard. -/
structure Host (ι : Type) where
  prevScancode : ℕ
  shiftState : ULong
  focus : Option ι
  vkbds : ι → Vkbd

/-- The machine is reset. -/
def IsReset (shiftState : ULong) (keyCode : UChar) : Prop :=
  keyCode = K_E0_DELETE ∧ shiftState &&& S_ALT ≠ 0 ∧ shiftState &&& S_CTRL ≠ 0

instance (shiftState : ULong) (keyCode : UChar) : Decidable (IsReset shiftState keyCode) :=
  inferInstanceAs (Decidable (_ ∧ _))

/-- A key for the host itself. What it does, like a switch of the focus, comes next. -/
def IsHotKey (shiftState : ULong) (keyCode : UChar) : Prop :=
  (keyCode = K_KP_PLUS ∨ keyCode = K_KP_MINUS ∨ keyCode = K_ESC) ∧ shiftState &&& S_ALT ≠ 0 ∨
    keyCode = K_SYS_REQ

instance (shiftState : ULong) (keyCode : UChar) : Decidable (IsHotKey shiftState keyCode) :=
  inferInstanceAs (Decidable (_ ∨ _))

/-- What happens. -/
inductive HostOp (ι : Type) where
  /-- `kbd_handler` reads a scan code. -/
  | scan (scanCode : UChar)
  /-- `kbd_switch`. -/
  | switchFocus (new : Option ι)
  /-- The guest of a virtual keyboard reads its data port. -/
  | read (i : ι)

namespace Host

variable {ι : Type} [DecidableEq ι] (h : Host ι)

def setVkbd (i : ι) (vk : Vkbd) : Host ι := { h with vkbds := Function.update h.vkbds i vk }

/-- `kbd_handler`: a scan code. `do_hard_reset` does not return. -/
def scan (keymap : Keymap) (scanCode : UChar) : Option (Host ι) :=
  let r := scanKey h.prevScancode scanCode
  let upCode := scanCode &&& 0x80
  let h := { h with prevScancode := r.1 }
  if r.2 = 0 then some h
  else if IsReset h.shiftState r.2 then none
  else if IsHotKey h.shiftState r.2 then some h
  else
    let h := { h with shiftState := shiftAfter h.shiftState r.2 upCode }
    match h.focus with
    | some i => some (h.setVkbd i ((h.vkbds i).useKey keymap h.shiftState r.2 upCode))
    | none => some h

/-- `kbd_switch`: the focus is taken from the keyboard that has it. -/
def leave : Host ι :=
  match h.focus with
  | some i => h.setVkbd i { (h.vkbds i).switchFrom h.shiftState with inFocus := false }
  | none => h

/-- `kbd_switch`: the focus is given to a keyboard. -/
def enter (new : Option ι) : Host ι :=
  let h := { h with focus := new }
  match new with
  | some i => h.setVkbd i ({ h.vkbds i with inFocus := true }.switchTo h.shiftState)
  | none => h

/-- `kbd_switch`. -/
def switchFocus (new : Option ι) : Host ι := if new ≠ h.focus then h.leave.enter new else h

def step (keymap : Keymap) (h : Host ι) : HostOp ι → Option (Host ι)
  | .scan scanCode => h.scan keymap scanCode
  | .switchFocus new => some (h.switchFocus new)
  | .read i => some (h.setVkbd i ((h.vkbds i).readPort 0x60 1).2)

end Host

/-- Nothing is pressed, and no virtual keyboard has the focus. -/
def Host.init {ι : Type} (displayIsMda : ι → Bool) (buf : ι → ℤ → ULong) (shiftState : ι → ULong) :
    Host ι where
  prevScancode := 0
  shiftState := 0
  focus := none
  vkbds i := initVkbd (displayIsMda i) (buf i) (shiftState i)

/-! ## Decoding -/

/-- A scan code, as the handler decodes it: `prev_scancode` and the shift state behind it. -/
def decodeCode (s : ℕ × ULong) (scanCode : UChar) : ℕ × ULong :=
  let r := scanKey s.1 scanCode
  (r.1, if r.2 = 0 then s.2 else shiftAfter s.2 r.2 (scanCode &&& 0x80))

/-- The scan codes that were entered. -/
def codes : List RingEvent → List UChar
  | [] => []
  | .entered val true :: earlier => codes earlier ++ [val.truncate 8]
  | _ :: earlier => codes earlier

/-- No scan code was lost. -/
def Vkbd.NoOverflow (vk : Vkbd) : Prop := ∀ val, .entered val false ∉ vk.log

/-- What the guest knows of the shift keys. -/
def Vkbd.decoded (vk : Vkbd) : ℕ × ULong := (codes vk.log).foldl decodeCode (0, 0)

/-- The keyboard in focus knows which shift keys are held, the others know of none. -/
def Host.ShiftFollows {ι : Type} [DecidableEq ι] (h : Host ι) : Prop :=
  ∀ i, (h.vkbds i).NoOverflow →
    (h.vkbds i).decoded.2 = if h.focus = some i then h.shiftState else 0

/-- The right alt key is not held when a virtual keyboard gets the focus, and the up arrow does
not go down while either num lock or a shift key, and not both, is on. -/
def Host.StepOk {ι : Type} (h : Host ι) : HostOp ι → Prop
  | .scan scanCode =>
    (scanKey h.prevScancode scanCode).2 = K_E0_UP → scanCode &&& 0x80 = 0 →
      ∀ i, h.focus = some i →
        ((h.vkbds i).lockState.zeroExtend 32 &&& L_NUM_LOCK ≠ 0 ↔ h.shiftState &&& S_SHIFT ≠ 0)
  | .switchFocus new => new ≠ none → new ≠ h.focus → h.shiftState &&& S_RIGHT_ALT = 0
  | .read _ => True

end Vmm386.VkbdModule
