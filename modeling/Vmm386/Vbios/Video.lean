import Vmm386.Vbios.Handlers

/-!
# Video calls

`vbios_video_handler` (`drivers/virtual/vbios/video.c`), and `vbios_arpl_handler`
(`drivers/virtual/vbios/vbios.c`), which calls the handlers. What scrolling and printing do to the
screen is in modules of their own.
-/

namespace Vmm386.Vbios.Handlers

open Vcmos (get8 get8h set8 set8h)

abbrev DISPLAY_MODE : ULong := 0x449
abbrev DISPLAY_COLS : ULong := 0x44a
abbrev DISPLAY_BUF_SIZE : ULong := 0x44c
abbrev DISPLAY_BUF_START : ULong := 0x44e
abbrev CURSOR_POS : ULong := 0x450
abbrev CURSOR_TYPE : ULong := 0x460
abbrev ACTIVE_PAGE : ULong := 0x462
abbrev CRT_BASE : ULong := 0x463
abbrev DISPLAY_ROWS : ULong := 0x484

/-- `&BIOS_DATA->cursor_pos[page]`. -/
def cursorPos (page : UChar) : ULong := CURSOR_POS + page.zeroExtend 32 * 2

/-- `bios_find_page`. -/
def biosFindPage (t : Tty) (pageno : UChar) : ULong := t.buffer + t.pageSize * pageno.zeroExtend 32

/-- The cell at the cursor of a page, as functions 8, 9 and 10 compute it. -/
def cursorCell (w : World) (page : UChar) : ULong :=
  let cursor := getUserShort w.mem (cursorPos page)
  biosFindPage w.tty page +
    ((cursor >>> 8).zeroExtend 32 * w.tty.cols + (cursor &&& 255).zeroExtend 32) * 2

/-- The loop of function 10. -/
def putChars (c : UChar) (buf : ULong) (count : ℕ) : List Effect :=
  (List.range count).map fun i => .store (.putUserByte c (buf + 2 * BitVec.ofNat 32 i))

/-- Function 0. -/
def videoMode (w : World) (r : Vm86Regs) : List Effect :=
  let mode := get8 r.eax
  let v := w.ttyAfter
  [.setMode (mode &&& 0x7f)] ++
    (if mode &&& 0x80 = 0 then [.store (.memsetl v.buffer 0 (v.pageSize * v.pages / 4))] else []) ++
    [.store (.putUserByte v.mode DISPLAY_MODE),
      .store (.putUserShort (v.cols.truncate 16) DISPLAY_COLS),
      .store (.putUserByte ((v.rows - 1).truncate 8) DISPLAY_ROWS),
      .store (.putUserShort (v.pageSize.truncate 16) DISPLAY_BUF_SIZE),
      .store (.putUserShort 0 DISPLAY_BUF_START),
      .store (.memsetw CURSOR_POS 0 8),
      .store (.putUserByte 0 ACTIVE_PAGE),
      .store (.putUserShort v.crtI CRT_BASE)]

/-- Function 5. -/
def videoPage (w : World) (r : Vm86Regs) : List Effect :=
  let v := w.ttyAfter
  let offset := getUserShort w.mem (cursorPos v.currentPage)
  [.setPage (get8 r.eax),
    .store (.putUserShort ((v.pageSize * v.currentPage.zeroExtend 32).truncate 16)
      DISPLAY_BUF_START),
    .store (.putUserByte v.currentPage ACTIVE_PAGE)] ++
    if v.currentPage < 8 then [.setCursor (offset.truncate 8) ((offset >>> 8).truncate 8)] else []

/-- `vbios_video_handler`. -/
def vbiosVideoHandler (w : World) (r : Vm86Regs) : Result :=
  let func := get8h r.eax
  if func = 0 then (r, videoMode w r)
  else if func = 1 then
    let top := get8h r.ecx
    let bottom := get8 r.ecx
    (r, [.outb 10 w.tty.crtI, .outb top w.tty.crtD, .outb 11 w.tty.crtI, .outb bottom w.tty.crtD,
      .store (.putUserShort ((top.zeroExtend 16 <<< 8) ||| bottom.zeroExtend 16) CURSOR_TYPE)])
  else if func = 2 then
    let thisPage := get8h r.ebx
    (r, [.store (.putUserShort (get16 r.edx) (cursorPos thisPage))] ++
      if thisPage = w.tty.currentPage then [.setCursor (get8 r.edx) (get8h r.edx)] else [])
  else if func = 3 then
    ({ r with
        ecx := set16 r.ecx ((getUserShort w.mem CURSOR_TYPE).zeroExtend 32)
        edx := set16 r.edx
          ((getUserShort w.mem (cursorPos (w.mem ACTIVE_PAGE.toNat))).zeroExtend 32) }, [])
  else if func = 4 then ({ r with eax := set8h r.eax 0 }, [])
  else if func = 5 then (r, videoPage w r)
  else if func = 6 then
    (r, [.scrollUp (get8 r.eax) (get8h r.ebx) (get8 r.ecx) (get8h r.ecx) (get8 r.edx)
      (get8h r.edx)])
  else if func = 7 then
    (r, [.scrollDown (get8 r.eax) (get8h r.ebx) (get8 r.ecx) (get8h r.ecx) (get8 r.edx)
      (get8h r.edx)])
  else if func = 8 then
    ({ r with
        eax := set16 r.eax
          ((getUserShort w.mem (cursorCell w (get8h r.ebx))).zeroExtend 32) }, [])
  else if func = 9 then
    -- the filler is a word, but `memset_user` takes a byte
    let filler := (get8 r.eax).zeroExtend 16 ||| ((get8 r.ebx).zeroExtend 16 <<< 8)
    (r, [.store (.memset (cursorCell w (get8h r.ebx)) (filler.truncate 8)
      ((get16 r.ecx).zeroExtend 32))])
  else if func = 10 then
    (r, putChars (get8 r.eax) (cursorCell w (get8h r.ebx)) (get16 r.ecx).toNat)
  else if func = 14 then (r, [.printChar (get8 r.eax) w.tty.x w.tty.y (get8h r.ebx)])
  else if func = 15 then
    ({ r with
        eax := set16 r.eax ((w.mem DISPLAY_MODE.toNat).zeroExtend 32 ||| (w.tty.cols <<< 8))
        ebx := set8h r.ebx 0 }, [])
  else if func = 19 then
    (r, [.printString ((r.es.zeroExtend 32 <<< 4) + (get16 r.ebp).zeroExtend 32) (get16 r.ecx)
      (get8 r.eax) (get8 r.ebx) (get8 r.edx) (get8h r.edx) (get8h r.ebx)])
  else if func = 26 then
    if get8 r.eax = 0 then
      ({ r with
          eax := set8 r.eax 26
          ebx := set16 r.ebx (if w.tty.isMda then 1 else 2) }, [])
    else (r, [])
  else (r, [])

/-! ## The services -/

/-- The interrupts whose services return in registers. -/
inductive Interrupt where
  | int10
  | int11
  | int12
  | int13
  | int14
  | int15
  | int1A
deriving DecidableEq

/-- `vbios_arpl_handler`, without the set-up of the BIOS data area and without the printer. -/
def vbiosArplHandler (w : World) (num : Interrupt) (r : Vm86Regs) : Result :=
  match num with
  | .int10 => vbiosVideoHandler w r
  | .int11 =>
    ({ r with eax := set16 r.eax ((getUserShort w.mem EQUIPMENT_DATA).zeroExtend 32) }, [])
  | .int12 => ({ r with eax := set16 r.eax ((getUserShort w.mem LOW_MEMORY).zeroExtend 32) }, [])
  | .int13 => vbiosDiskHandler w r
  | .int14 => vbiosSerHandler r
  | .int15 => vbiosSysHandler w r
  | .int1A => vbiosTimerHandler w r

end Vmm386.Vbios.Handlers
