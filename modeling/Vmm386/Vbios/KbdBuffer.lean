import Vmm386.Lib.Runs
import Vmm386.Vbios.Handlers
import Vmm386.Vkbd.RingTheorems

/-!
# The keyboard buffer of the BIOS

The buffer in the BIOS data area is set up by service `0x0f` (`drivers/virtual/vbios/vbios.c`), filled by
`vkbd_arpl_handler` (`drivers/virtual/vkbd/vkbd.c`) and by the code of `INT 16h`, and emptied by the
latter (`drivers/virtual/vbios/kbd.S16`). The keys that are stored in it and returned from it are
recorded. The stack of the machine is not in the BIOS data area.
-/

namespace Vmm386.Vbios.KbdBuffer

open TextPage (Mem)
open Handlers Kbd VkbdModule

/-! ## The BIOS data area -/

abbrev KBD_FLAGS : UShort := 0x17
abbrev KBD_BUF_HEAD : UShort := 0x1a
abbrev KBD_BUF_TAIL : UShort := 0x1c
abbrev KBD_BUF : UShort := 0x1e
abbrev KBD_BUF_START : UShort := 0x80
abbrev KBD_BUF_END : UShort := 0x82

abbrev BIOS_DATA : ULong := 0x400

/-- The address of a field. -/
def field (offset : UShort) : ULong := offset.zeroExtend 32 + BIOS_DATA

/-- The two bytes of a field. -/
def getField (m : Mem) (offset : UShort) : UShort := getUserShort m (field offset)

def putField (m : Mem) (offset v : UShort) : Mem := (Store.putUserShort v (field offset)).apply m

/-- `memcpy_to_user`. -/
def memcpyToUser (m : Mem) (a : ℕ) (bytes : List UChar) : Mem := putBytes m a bytes

/-- `vm->hardware`, as far as the set-up looks at it. -/
structure Hardware where
  baseMem : UShort
  hdisks : List (List UChar)
  lprports : UShort × UShort × UShort × UShort

/-- Where the table of a hard disk is. -/
def tableAddr (m : Mem) (vector : ULong) : ℕ :=
  (getUserShort m (vector * 4)).toNat + (getUserShort m (vector * 4 + 2)).toNat * 16

/-- `init_hdinfo`. -/
def initHdinfo (m : Mem) (vector : ULong) (info : List UChar) : Mem :=
  memcpyToUser m (tableAddr m vector) info

/-- The fields of the BIOS data area that are not zero. -/
def fields (hw : Hardware) (t : Tty) : List Store :=
  [.putUserShort 0x0030 0x410,
    .putUserShort hw.baseMem 0x413,
    .putUserShort KBD_BUF (field KBD_BUF_HEAD),
    .putUserShort KBD_BUF (field KBD_BUF_TAIL),
    .putUserByte t.mode 0x449,
    .putUserShort (t.cols.truncate 16) 0x44a,
    .putUserShort ((t.pageSize * t.pages).truncate 16) 0x44c,
    .putUserShort ((t.pageSize * t.currentPage.zeroExtend 32).truncate 16) 0x44e,
    .putUserByte t.currentPage 0x462,
    .putUserShort t.crtI 0x463,
    .putUserShort KBD_BUF (field KBD_BUF_START),
    .putUserShort (KBD_BUF + 32) (field KBD_BUF_END),
    .putUserByte ((t.rows - 1).truncate 8) 0x484] ++
  if t.isMda then [.putUserByte 0x02 0x487] else []

/-- The bytes of a word. -/
def bytes (v : UShort) : List UChar := [v.truncate 8, (v >>> 8).truncate 8]

/-- Service `0x0f` of `vbios_arpl_handler`. -/
def setupBiosData (hw : Hardware) (t : Tty) (m : Mem) : Mem :=
  let m := (Store.memset BIOS_DATA 0 0x100).apply m
  let m := (fields hw t).foldl Store.apply m
  let m := match hw.hdisks with
    | [] => m
    | [hd0] => initHdinfo m 0x41 hd0
    | hd0 :: hd1 :: _ => initHdinfo (initHdinfo m 0x41 hd0) 0x46 hd1
  let (lpt1, lpt2, lpt3, lpt4) := hw.lprports
  memcpyToUser m 0x408 (bytes lpt1 ++ bytes lpt2 ++ bytes lpt3 ++ bytes lpt4)

/-! ## The interrupt -/

/-- The memory, and the keys that were stored in the buffer and returned from it. -/
structure State where
  mem : Mem
  stored : List UShort
  returned : List UShort

/-- `c`, its bytes exchanged. -/
def flip (c : ULong) : UShort := (((c &&& 0x00ff) <<< 8) ||| ((c &&& 0xff00) >>> 8)).truncate 16

/-- A make code. -/
def IsMake (c : ULong) : Prop := c &&& (VK_BUF_UP_KEY ||| VK_BUF_SHIFT) = 0

instance (c : ULong) : Decidable (IsMake c) := inferInstanceAs (Decidable (_ = _))

/-- Where the tail goes, without the test for a full buffer. -/
def newTail (m : Mem) : UShort :=
  let newTail := getField m KBD_BUF_TAIL + 2
  if newTail = getField m KBD_BUF_END then getField m KBD_BUF_START else newTail

/-- A word goes to the tail of the buffer. -/
def State.store (s : State) (v newTail : UShort) : State :=
  { s with
    mem := putField (putField s.mem (getField s.mem KBD_BUF_TAIL) v) KBD_BUF_TAIL newTail
    stored := s.stored ++ [v] }

/-- The loop of `vkbd_arpl_handler`. `none` stands for a loop that needs more rounds. -/
def takeKeys : ℕ → Vkbd → State → Option (Vkbd × State)
  | 0, _, _ => none
  | rounds + 1, vk, s =>
    if vk.IsEmpty then some (vk, s)
    else
      let (c, vk) := vk.vkbdOut
      if IsMake c then
        if newTail s.mem = getField s.mem KBD_BUF_HEAD then
          -- the bell, and the end of the loop: the key is lost
          some (vk, s)
        else takeKeys rounds vk (s.store (flip c) (newTail s.mem))
      else takeKeys rounds vk s

/-- A bit of the flags. -/
def flag (set : Prop) [Decidable set] (bit : UChar) : UChar := if set then bit else 0

/-- `kbd_flags`. -/
def kbdFlags (vk : Vkbd) : UChar × UChar :=
  let lock := flag (vk.lockState.zeroExtend 32 &&& L_SCROLL_LOCK ≠ 0) 16 |||
    flag (vk.lockState.zeroExtend 32 &&& L_NUM_LOCK ≠ 0) 32 |||
    flag (vk.lockState.zeroExtend 32 &&& L_CAPS_LOCK ≠ 0) 64
  (flag (vk.shiftState &&& S_RIGHT_SHIFT ≠ 0) 1 ||| flag (vk.shiftState &&& S_LEFT_SHIFT ≠ 0) 2 |||
      flag (vk.shiftState &&& S_CTRL ≠ 0) 4 ||| flag (vk.shiftState &&& S_ALT ≠ 0) 8 ||| lock,
    flag (vk.shiftState &&& S_LEFT_CTRL ≠ 0) 1 ||| flag (vk.shiftState &&& S_LEFT_ALT ≠ 0) 2 ||| lock)

/-- The ring of a virtual keyboard has 16 places, so that 16 rounds are enough. -/
def vkbdArplHandler (vk : Vkbd) (s : State) : Option (Vkbd × State) :=
  (takeKeys 16 vk s).map fun (vk, s) =>
    let mem := (Store.putUserByte (kbdFlags vk).1 (field KBD_FLAGS)).apply s.mem
    let mem := (Store.putUserByte (kbdFlags vk).2 (field KBD_FLAGS + 1)).apply mem
    ({ vk with ledState := vk.lockState }, { s with mem := mem })

/-! ## `INT 16h` -/

/-- The labels of `kbd.S16`. The other two are behind its two kinds of return, and `halted` is before
the jump back to `read_kbd`. -/
inductive Label where
  | int16
  | int16Ret
  | readKbd
  | halted
  | gotKey
  | readStat
  | readShift
  | writeKbd
  | wkNoend
  | wkEnd
  | iret
  | retf
deriving DecidableEq

/-- The registers of a caller. -/
structure Regs where
  ax : UShort
  bx : UShort
  di : UShort
  ds : UShort

/-- `AH`. -/
def Regs.ah (r : Regs) : UChar := (r.ax >>> 8).truncate 8

/-- `AL`. -/
def Regs.al (r : Regs) : UChar := r.ax.truncate 8

/-- The processor at a label. `pushed` is what is on the stack, the last word first. -/
structure Cpu where
  label : Label
  regs : Regs
  zf : Bool
  pushed : List UShort
  guest : State

/-- The first jumps. `AH` counts down. -/
def dispatch (ah : UChar) : Label × UChar :=
  if ah = 0 then (.readKbd, 0)
  else if ah - 1 = 0 then (.readStat, 0)
  else if ah - 2 = 0 then (.readShift, 0)
  else if ah - 3 = 0 then (.int16Ret, 0)
  else if ah - 4 = 0 then (.int16Ret, 0)
  else if ah - 5 = 0 then (.writeKbd, 0)
  else if ah - 5 - 11 = 0 then (.readKbd, 0)
  else if ah - 5 - 12 = 0 then (.readStat, 0)
  else if ah - 5 - 13 = 0 then (.readShift, 0)
  else (.int16Ret, ah - 5 - 13)

namespace Cpu

variable (c : Cpu)

/-- A word at the segment of the BIOS data area. -/
def data (offset : UShort) : UShort := getField c.guest.mem offset

/-- From one label to the next. -/
def step : Cpu :=
  match c.label with
  | .int16 =>
    let (label, ah) := dispatch c.regs.ah
    { c with
      label := label
      regs := { c.regs with ax := ah ++ c.regs.al, bx := 0x40, ds := 0x40 }
      pushed := c.regs.bx :: c.regs.ds :: c.pushed }
  | .int16Ret =>
    match c.pushed with
    | bx :: ds :: rest => { c with
        label := .iret, regs := { c.regs with bx := bx, ds := ds }, pushed := rest }
    | _ => c
  | .readKbd =>
    let bx := c.data KBD_BUF_HEAD
    let label := if bx = c.data KBD_BUF_TAIL then .halted else .gotKey
    { c with label := label, regs := { c.regs with bx := bx } }
  | .halted => { c with label := .readKbd }
  | .gotKey =>
    let ax := c.data c.regs.bx
    let bx := c.regs.bx + 2
    let guest := { c.guest with
      mem := putField c.guest.mem KBD_BUF_HEAD bx
      returned := c.guest.returned ++ [ax] }
    if bx = getField guest.mem KBD_BUF_END then
      let bx := getField guest.mem KBD_BUF_START
      { c with
        label := .int16Ret
        regs := { c.regs with ax := ax, bx := bx }
        guest := { guest with mem := putField guest.mem KBD_BUF_HEAD bx } }
    else { c with label := .int16Ret, regs := { c.regs with ax := ax, bx := bx }, guest := guest }
  | .readStat =>
    let bx := c.data KBD_BUF_HEAD
    let zf := decide (bx = c.data KBD_BUF_TAIL)
    match c.pushed with
    | oldBx :: ds :: rest => { c with
        label := .retf
        regs := { c.regs with ax := c.data bx, bx := oldBx, ds := ds }
        zf := zf
        pushed := rest }
    | _ => c
  | .readShift => { c with
      label := .int16Ret, regs := { c.regs with ax := c.data KBD_FLAGS } }
  | .writeKbd => { c with
      label := .wkNoend
      regs := { c.regs with bx := newTail c.guest.mem, di := c.data KBD_BUF_TAIL }
      pushed := c.regs.di :: c.pushed }
  | .wkNoend =>
    if c.regs.bx = c.data KBD_BUF_HEAD then c
    else { c with
      label := .wkEnd
      guest := { c.guest with
        mem := putField (putField c.guest.mem c.regs.di c.regs.ax) KBD_BUF_TAIL c.regs.bx
        stored := c.guest.stored ++ [c.regs.ax] } }
  | .wkEnd =>
    match c.pushed with
    | di :: rest => { c with label := .int16Ret, regs := { c.regs with di := di }, pushed := rest }
    | _ => c
  | .iret => c
  | .retf => c

/-- A call comes to its end, or it halts until there is an interrupt. -/
def Stops : Prop := c.label = .iret ∨ c.label = .retf ∨ c.label = .halted

instance : Decidable c.Stops := inferInstanceAs (Decidable (_ ∨ _))

/-- Where a call stops. `none` stands for a call that does not stop soon. -/
def finish : ℕ → Cpu → Option Cpu
  | 0, c => if c.Stops then some c else none
  | n + 1, c => if c.Stops then some c else finish n c.step

end Cpu

/-- A call of `INT 16h`. -/
def State.call (s : State) (r : Regs) : Cpu where
  label := .int16
  regs := r
  zf := false
  pushed := []
  guest := s

/-- A call that takes more than five steps does not stop at all. -/
def State.int16 (s : State) (r : Regs) : Option Cpu := (s.call r).finish 5

/-! ## Runs -/

/-- A virtual keyboard whose positions are in its ring. -/
structure Keyboard where
  vk : Vkbd
  hin : 0 ≤ vk.inPos ∧ vk.inPos < 16
  hout : 0 ≤ vk.outPos ∧ vk.outPos < 16

/-- What happens to the buffer. A read that waits for a key starts over when it is woken up, as a new
call does. -/
inductive Event where
  | interrupt (kbd : Keyboard)
  | int16 (r : Regs)

/-- The state after an event, if it comes to an end. -/
def State.after (s : State) : Event → Option State
  | .interrupt kbd => (vkbdArplHandler kbd.vk s).map Prod.snd
  | .int16 r => (s.int16 r).map Cpu.guest

/-- What a set-up finds. The tables of the hard disks are not below the end of the BIOS data area. -/
structure Start where
  hw : Hardware
  tty : Tty
  mem : Mem
  htables : 0x500 ≤ tableAddr mem 0x41 ∧ 0x500 ≤ tableAddr mem 0x46

def Start.state (b : Start) : State where
  mem := setupBiosData b.hw b.tty b.mem
  stored := []
  returned := []

end Vmm386.Vbios.KbdBuffer
