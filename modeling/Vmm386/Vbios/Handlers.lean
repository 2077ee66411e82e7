import Vmm386.Lib.TextPage
import Vmm386.Vbios.Disk
import Vmm386.Vcmos.Rtc

/-!
# The calls of the BIOS

What `vbios_disk_handler` (`drivers/virtual/vbios/disk.c`) and the handlers of
`drivers/virtual/vbios/misc.c` do to the registers of a virtual machine. What they read elsewhere, in
the memory of the machine and from other modules, is the `World` of a call; what they do elsewhere is
listed as effects. What is printed is left out.
-/

namespace Vmm386.Vbios.Handlers

open TextPage (Mem)
open Vcmos (Cmos get8 get8h set8 set8h)

/-- `struct vm86_regs`, without what the processor has pushed twice. -/
structure Vm86Regs where
  eax : ULong
  ebx : ULong
  ecx : ULong
  edx : ULong
  edi : ULong
  esi : ULong
  ebp : ULong
  eip : ULong
  cs : UShort
  eflags : ULong
  esp : ULong
  ss : UShort
  es : UShort
  ds : UShort
  fs : UShort
  gs : UShort

/-- `GET16`. -/
def get16 (x : ULong) : UShort := (x &&& 0xffff).truncate 16

/-- `SET16`. -/
def set16 (x v : ULong) : ULong := (x &&& 0xffff0000) ||| (v &&& 0xffff)

/-- `STC`. -/
def Vm86Regs.stc (r : Vm86Regs) : Vm86Regs := { r with eflags := r.eflags ||| FLAGS_CF }

/-- `CLC`. -/
def Vm86Regs.clc (r : Vm86Regs) : Vm86Regs := { r with eflags := r.eflags &&& ~~~FLAGS_CF }

/-! ## The world -/

/-- `get_user_short`. -/
def getUserShort (m : Mem) (a : ULong) : UShort := TextPage.word m a.toNat

/-- `get_user_long`. -/
def getUserLong (m : Mem) (a : ULong) : ULong :=
  TextPage.word m (a.toNat + 2) ++ TextPage.word m a.toNat

/-- `struct mode_info`, and the other fields of a tty that the handlers look at. Its sizes are
integers of 32 bits where they are used. -/
structure Tty where
  cols : ULong
  rows : ULong
  buffer : ULong
  pageSize : ULong
  pages : ULong
  mode : UChar
  currentPage : UChar
  x : ULong
  y : ULong
  crtI : UShort
  crtD : UShort
  /-- The name of the display type is `mda`. -/
  isMda : Bool

/-- `heads`, `cyls` and `sects`. -/
structure Geom where
  heads : ULong
  cyls : ULong
  sects : ULong

/-- What a call finds. -/
structure World where
  mem : Mem
  tty : Tty
  /-- The tty after `set_mode` or `set_page`. -/
  ttyAfter : Tty
  /-- `vide->get_status`, after the transfer if there is one. -/
  hdStatus : Option (UChar × UChar)
  fdStatus : Option (UChar × UChar)
  /-- `vide->get_geom`, and what the variables hold if it fails. -/
  geom : Option Geom
  junk : Geom
  /-- The memory of the virtual clock, if there is one. -/
  vcmos : Option Cmos
  /-- What the reads of the real clock give, one after the other. -/
  cmosRead : ℕ → UChar
  extendedMem : UShort

/-- A store to the memory of the machine. -/
inductive Store where
  | putUserByte (v : UChar) (a : ULong)
  | putUserShort (v : UShort) (a : ULong)
  | putUserLong (v : ULong) (a : ULong)
  | memset (a : ULong) (c : UChar) (count : ULong)
  | memsetw (a : ULong) (w : UShort) (count : ULong)
  | memsetl (a : ULong) (l : ULong) (count : ULong)

/-- What a call does elsewhere. -/
inductive Effect where
  | store (s : Store)
  | setMode (mode : UChar)
  | outb (byte : UChar) (port : UShort)
  | setCursor (x y : UChar)
  | setPage (page : UChar)
  | scrollUp (numLines : UChar) (attr leftCol leftRow rightCol rightRow : UChar)
  | scrollDown (numLines : UChar) (attr leftCol leftRow rightCol rightRow : UChar)
  | printChar (c : UChar) (x y : ULong) (page : UChar)
  | printString (str : ULong) (length : UShort) (type attr col row page : UChar)
  | readFloppy (head cyl sect count buf : ULong)
  | readDisk (head cyl sect count buf : ULong)
  | writeDisk (head cyl sect count buf : ULong)
  | wait (ticks : ULong)
  | moveBlock (gdt : ULong) (len : ULong)
  | setBcdTime (ecx edx : ULong)
  | setBcdDate (ecx edx : ULong)
  | setAlarm (ecx edx : ULong)
  | resetAlarm

/-- The bytes of a word from `a` on. -/
def putBytes (m : Mem) (a : ℕ) : List UChar → Mem
  | [] => m
  | v :: vs => putBytes (Function.update m a v) (a + 1) vs

/-- The memory after a store. -/
def Store.apply (m : Mem) : Store → Mem
  | .putUserByte v a => putBytes m a.toNat [v]
  | .putUserShort v a => putBytes m a.toNat [v.truncate 8, (v >>> 8).truncate 8]
  | .putUserLong v a => putBytes m a.toNat
      [v.truncate 8, (v >>> 8).truncate 8, (v >>> 16).truncate 8, (v >>> 24).truncate 8]
  | .memset a c count => fun b => if a.toNat ≤ b ∧ b < a.toNat + count.toNat then c else m b
  | .memsetw a w count => TextPage.fill w a.toNat count.toNat m
  | .memsetl a l count => (List.range count.toNat).foldl (fun m i => putBytes m (a.toNat + 4 * i)
      [l.truncate 8, (l >>> 8).truncate 8, (l >>> 16).truncate 8, (l >>> 24).truncate 8]) m

/-- The memory after the stores that a call makes itself. -/
def stores (m : Mem) (effects : List Effect) : Mem :=
  effects.foldl (fun m e => match e with
    | .store s => s.apply m
    | _ => m) m

/-- The result of a call. -/
abbrev Result := Vm86Regs × List Effect

/-! ## The BIOS data area -/

abbrev EQUIPMENT_DATA : ULong := 0x410
abbrev LOW_MEMORY : ULong := 0x413
abbrev DRIVE_STATUS : ULong := 0x441
abbrev TIMER_COUNTER : ULong := 0x46c
abbrev TIMER_OVERFLOW : ULong := 0x470
abbrev FIXED_DISK_STATUS : ULong := 0x474

/-- Where the count of days is kept. -/
abbrev DAY_COUNTER : ULong := 0x467

/-! ## `INT 13h` -/

/-- `get_hd_stat` and `get_fd_stat`, with the answer of `get_status`. -/
def getStat (status : Option (UChar × UChar)) (r : Vm86Regs) : Vm86Regs :=
  let bstat := (biosStatus status).truncate 8
  let r := { r with eax := set8h r.eax bstat }
  if bstat = 0 then r.clc else r.stc

/-- `head`, `cyl`, `sect`, `count` and `buf` of a transfer. -/
def transferArgs (r : Vm86Regs) (f : (head cyl sect count buf : ULong) → Effect) : Effect :=
  f ((get8h r.edx).zeroExtend 32)
    ((get8h r.ecx).zeroExtend 32 ||| (((get8 r.ecx).zeroExtend 32 &&& 0xc0) <<< 2))
    ((get8 r.ecx).zeroExtend 32 &&& 0x3f) ((get8 r.eax).zeroExtend 32)
    ((r.es.zeroExtend 32 <<< 4) + (get16 r.ebx).zeroExtend 32)

/-- The diskette functions. -/
def disketteHandler (w : World) (r : Vm86Regs) : Result :=
  let func := get8h r.eax
  if func = 1 then (getStat w.fdStatus r, [])
  else if func = 2 then (getStat w.fdStatus r, [transferArgs r .readFloppy])
  else if func = 3 ∨ func = 4 then ({ r with eax := set16 r.eax 0x0300 }.stc, [])
  else if func = 5 then ({ r with eax := set8h r.eax 0x03 }.stc, [])
  else if func = 8 then
    if r.edx &&& 0x7f = 0 then
      ({ r with
          eax := set16 r.eax 0x0000
          ebx := set16 r.ebx 0x0004
          ecx := set16 r.ecx 0x5012
          edx := set16 r.edx 0x0201
          edi := set16 r.edi ((getUserShort w.mem (0x1e * 4)).zeroExtend 32)
          es := getUserShort w.mem (0x1e * 4 + 4) }.clc, [])
    else
      ({ r with
          eax := set16 r.eax 0x0000
          ebx := set16 r.ebx 0x0000
          ecx := set16 r.ecx 0x0000
          edx := set16 r.edx 0x0000 }.clc, [])
  else ({ r with eax := set8h r.eax 0x01 }.stc, [])

/-- The hard disk functions. -/
def hardDiskHandler (w : World) (r : Vm86Regs) : Result :=
  let func := get8h r.eax
  if func = 1 ∨ func = 20 then (getStat w.hdStatus r, [])
  else if func = 2 then (getStat w.hdStatus r, [transferArgs r .readDisk])
  else if func = 3 then (getStat w.hdStatus r, [transferArgs r .writeDisk])
  else if func = 5 then
    let buf := (r.es.zeroExtend 32 <<< 4) + (get16 r.ebx).zeroExtend 32
    ({ r with eax := set8h r.eax 0 }.clc,
      match w.geom with
      | some g => (List.range g.sects.toNat).map fun i =>
          .store (.putUserShort (BitVec.ofNat 16 i) (buf + 2 * BitVec.ofNat 32 i))
      | none => [])
  else if func ∈ [0, 4, 6, 7, 12, 13, 16, 17, 25] then
    ({ r with eax := set8h r.eax 0 }.clc, [])
  else if func = 8 then
    match w.geom with
    | some g =>
      let heads := g.heads - 1
      let cyls := g.cyls - 1
      ({ r with
          edx := set16 r.edx (1 ||| (heads <<< 8))
          ecx := set16 r.ecx
            (((cyls &&& 0xff) <<< 8) ||| (g.sects &&& 0x3f) ||| ((cyls &&& 0x0300) >>> 2)) }, [])
    | none => ({ r with edx := set16 r.edx 0 }, [])
  else if func = 9 then (r, [])
  else if func = 21 then
    if r.edx &&& 0x1 ≠ 0 then ({ r with eax := set8h r.eax 0 }, [])
    else
      let g := w.geom.getD w.junk
      ({ r with
          eax := set8h r.eax 3
          ecx := set16 r.ecx ((g.heads * g.cyls * g.sects) >>> 16)
          edx := set16 r.edx (g.heads * g.cyls * g.sects) }, [])
  else ({ r with eax := set8h r.eax 1 }.stc, [])

/-- `vbios_disk_handler`. -/
def vbiosDiskHandler (w : World) (r : Vm86Regs) : Result :=
  let func := get8h r.eax
  if func = 0 then ({ r with eax := set8h r.eax 0x00 }.clc, [])
  else if r.edx &&& 0x80 = 0 then
    let res := if r.edx &&& 0x7f ≠ 0 ∧ func ≠ 8 then ({ r with eax := set8h r.eax 0xff }.stc, [])
      else disketteHandler w r
    (res.1, res.2 ++ [.store (.putUserByte (get8h res.1.eax) DRIVE_STATUS)])
  else if r.edx &&& 0x7f ≠ 0 ∧ func ≠ 21 then ({ r with eax := set8h r.eax 0xff }.stc, [])
  else
    let res := hardDiskHandler w r
    (res.1, res.2 ++ [.store (.putUserByte (get8h res.1.eax) FIXED_DISK_STATUS)])

/-! ## `INT 14h` -/

/-- `vbios_ser_handler`. -/
def vbiosSerHandler (r : Vm86Regs) : Result :=
  let func := get8h r.eax
  if func = 0 ∨ func = 3 then ({ r with eax := set16 r.eax 0x8000 }, [])
  else if func = 1 ∨ func = 2 then ({ r with eax := set8h r.eax 0x80 }, [])
  else (r, [])

/-! ## `INT 1Ah` -/

/-- The registers that the virtual clock has to do with. -/
def Vm86Regs.clock (r : Vm86Regs) : Vcmos.Vm86Regs where
  ecx := r.ecx
  edx := r.edx
  eflags := r.eflags

/-- They come back from the virtual clock. -/
def Vm86Regs.ofClock (r : Vm86Regs) (c : Vcmos.Vm86Regs) : Vm86Regs :=
  { r with ecx := c.ecx, edx := c.edx, eflags := c.eflags }

/-- The time of the real clock. -/
def realTime (w : World) (r : Vm86Regs) : Vm86Regs :=
  let bcd := fun val =>
    if w.cmosRead 3 &&& Vcmos.RTC_DM_BINARY ≠ 0 then Vcmos.binToBcd val else val
  { r with
    ecx := set8 (set8h r.ecx (bcd (w.cmosRead 0))) (bcd (w.cmosRead 1))
    edx := set8 (set8h r.edx (bcd (w.cmosRead 2)))
      (if w.cmosRead 4 &&& Vcmos.RTC_DST_EN ≠ 0 then 0 else 1) }.clc

/-- The date of the real clock. -/
def realDate (w : World) (r : Vm86Regs) : Vm86Regs :=
  let bcd := fun val =>
    if w.cmosRead 3 &&& Vcmos.RTC_DM_BINARY ≠ 0 then Vcmos.binToBcd val else val
  { r with
    ecx := set8 (set8h r.ecx (w.cmosRead 4)) (bcd (w.cmosRead 0))
    edx := set8 (set8h r.edx (bcd (w.cmosRead 1))) (bcd (w.cmosRead 2)) }.clc

/-- `vbios_timer_handler`. -/
def vbiosTimerHandler (w : World) (r : Vm86Regs) : Result :=
  let func := get8h r.eax
  if func = 0 then
    let ticks := getUserLong w.mem TIMER_COUNTER
    -- the first argument is `ecx`, and then `edx`
    let r := { r with edx := set16 r.ecx ticks }
    let r := { r with ecx := set16 r.edx (ticks >>> 16) }
    ({ r with eax := set8 r.eax (w.mem TIMER_OVERFLOW.toNat) }, [])
  else if func = 1 then
    (r, [.store (.putUserLong ((get16 r.edx).zeroExtend 32 ||| ((get16 r.ecx).zeroExtend 32 <<< 16))
      TIMER_COUNTER)])
  else if func = 2 then
    match w.vcmos with
    | some p => (r.ofClock (Vcmos.getBcdTime p r.clock), [])
    | none => (realTime w r, [])
  else if func = 3 then
    (r, if w.vcmos.isSome then [.setBcdTime r.ecx r.edx] else [])
  else if func = 4 then
    match w.vcmos with
    | some p => (r.ofClock (Vcmos.getBcdDate p r.clock), [])
    | none => (realDate w r, [])
  else if func = 5 then
    (r, if w.vcmos.isSome then [.setBcdDate r.ecx r.edx] else [])
  else if func = 6 then
    match w.vcmos with
    | some p =>
      -- `set_alarm`
      if p Vcmos.RTC_CONTROL &&& (Vcmos.RTC_SET ||| Vcmos.RTC_AIE) ≠ 0 then (r.stc, [])
      else (r.clc, [.setAlarm r.ecx r.edx])
    | none => (r, [])
  else if func = 7 then
    (r, if w.vcmos.isSome then [.resetAlarm] else [])
  else if func = 0xA then
    ({ r with ecx := set16 r.ecx ((getUserShort w.mem DAY_COUNTER).zeroExtend 32) }.clc, [])
  else if func = 0xB then (r, [.store (.putUserShort (get16 r.ecx) DAY_COUNTER)])
  else (r, [])

/-! ## `INT 15h` -/

abbrev FLAGS_ZF : ULong := 0x40

/-- `vbios_sys_handler`. -/
def vbiosSysHandler (w : World) (r : Vm86Regs) : Result :=
  let func := get8h r.eax
  if func = 134 then
    (r.clc, [.wait ((get16 r.ecx).zeroExtend 32 + ((get16 r.edx).zeroExtend 32 <<< 16))])
  else if func = 135 then
    ({ r with
        eax := set8h r.eax 0
        eflags := (r.eflags &&& ~~~FLAGS_CF) ||| FLAGS_ZF },
      [.moveBlock ((r.es.zeroExtend 32 <<< 4) + (get16 r.esi).zeroExtend 32)
        ((get16 r.ecx).zeroExtend 32 * 2)])
  else if func = 136 then
    ({ r with eax := set16 r.eax (w.extendedMem.zeroExtend 32) }.clc, [])
  else if func = 192 then
    ({ r with
        es := 0xfffe
        ebx := set16 r.ebx 0
        eax := set8h r.eax 0 }.clc, [])
  else (r.stc, [])

end Vmm386.Vbios.Handlers
