import Vmm386.Lib.Runs
import Vmm386.Types

/-!
# The printer spooler (`spooler/spooler.c`)

The spooler uses the file system by its names. Every file and every file structure gets a
number when it is made, and no number is given twice, so that a second `fs->close` of a
structure is seen. What the file system and `malloc` answer is part of a call.
-/

namespace Vmm386.SpoolerModule

/-- A string without its closing zero. -/
abbrev CString := List Char

/-! ## The file system -/

/-- A `struct file`, with the number of times it has been closed. -/
structure OpenFile where
  inode : ℕ
  pos : ℕ
  closes : ℕ

structure Files where
  inode : CString → Option ℕ
  data : ℕ → List UChar
  nextInode : ℕ
  file : ℕ → OpenFile
  nextFile : ℕ

/-- The answer to an `fs->open` that may create the file. One that fails may have made it. -/
inductive OpenAnswer where
  | opens
  | fails (made : Bool)
  deriving DecidableEq

/-- `buf` in place of what `old` has at `pos`. A gap before it is filled with zeros. -/
def overwrite (old : List UChar) (pos : ℕ) (buf : List UChar) : List UChar :=
  (old ++ List.replicate (pos - old.length) 0).take pos ++ buf ++ old.drop (pos + buf.length)

namespace Files

variable (fs : Files)

/-- What the file with this name contains. -/
def contents (name : CString) : List UChar := ((fs.inode name).map fs.data).getD []

def setFile (f : ℕ) (x : OpenFile) : Files := { fs with file := Function.update fs.file f x }

def setData (i : ℕ) (d : List UChar) : Files := { fs with data := Function.update fs.data i d }

/-- A new file. -/
def make (name : CString) : Files :=
  { fs with
    inode := Function.update fs.inode name (some fs.nextInode)
    nextInode := fs.nextInode + 1 }.setData fs.nextInode []

/-- A new file structure. -/
def makeFile (i : ℕ) : Option ℕ × Files :=
  (some fs.nextFile, { fs with nextFile := fs.nextFile + 1 }.setFile fs.nextFile ⟨i, 0, 0⟩)

/-- `fs->open(name, F_READ)`. -/
def openRead (name : CString) (opens : Bool) : Option ℕ × Files :=
  match fs.inode name, opens with
  | some i, true => fs.makeFile i
  | _, _ => (none, fs)

/-- `fs->open(name, F_WRITE | F_TRUNCATE | F_CREATE)`. -/
def openWrite (name : CString) (ans : OpenAnswer) : Option ℕ × Files :=
  match fs.inode name, ans with
  | some i, .opens => (fs.setData i []).makeFile i
  | none, .opens => (fs.make name).makeFile fs.nextInode
  | none, .fails true => (none, fs.make name)
  | _, .fails _ => (none, fs)

/-- `fs->close`. -/
def close (f : ℕ) : Files := fs.setFile f { fs.file f with closes := (fs.file f).closes + 1 }

/-- `fs->close` of a pointer that may be `NULL`. -/
def closePtr (fp : Option ℕ) : Files := fp.elim fs fs.close

/-- What the `fs->read` of `actual` bytes reads. -/
def piece (f actual : ℕ) : List UChar :=
  ((fs.data (fs.file f).inode).drop (fs.file f).pos).take actual

/-- The position after `n` more bytes. -/
def seek (f n : ℕ) : Files := fs.setFile f { fs.file f with pos := (fs.file f).pos + n }

/-- An `fs->write` that writes all of `buf`. -/
def write (f : ℕ) (buf : List UChar) : Files :=
  (fs.setData (fs.file f).inode
    (overwrite (fs.data (fs.file f).inode) (fs.file f).pos buf)).seek f buf.length

/-- `fs->remove_link`. -/
def removeLink (name : CString) : Files :=
  { fs with inode := Function.update fs.inode name none }

end Files

/-! ## Copying -/

abbrev FS_BLKSIZ : ℕ := 1024

/-- The answers in one pass of the copy loop: `fs->read` fails, or it reads `actual` bytes and
`fs->write` writes the first `wrote` of them. -/
inductive CopyAnswer where
  | readFails
  | copied (actual wrote : ℕ)

/-- A read stays within the file, and reads nothing only at its end. -/
def ReadAnswer (fs : Files) (src actual : ℕ) : Prop :=
  actual ≤ FS_BLKSIZ ∧ (fs.file src).pos + actual ≤ (fs.data (fs.file src).inode).length ∧
    (actual = 0 → (fs.data (fs.file src).inode).length ≤ (fs.file src).pos)

instance (fs : Files) (src actual : ℕ) : Decidable (ReadAnswer fs src actual) :=
  inferInstanceAs (Decidable (_ ∧ _ ∧ _))

/-- The copy loop of `add_spool_file`, for the answers to all its calls. It ends with `false` at
its label `error`. -/
def copyFile (src dst : ℕ) : List CopyAnswer → Files → Option (Bool × Files)
  | [], _ => none
  | .readFails :: rest, fs => if rest.isEmpty then some (false, fs) else none
  | .copied actual wrote :: rest, fs =>
    if ReadAnswer fs src actual ∧ wrote ≤ actual then
      let buf := fs.piece src actual
      let fs := (fs.seek src actual).write dst (buf.take wrote)
      if wrote ≠ actual then
        if rest.isEmpty then some (false, fs) else none
      else if actual > 0 then copyFile src dst rest fs
      else if rest.isEmpty then some (true, fs) else none
    else none

/-! ## The names of spool files -/

/-- `struct time_bits`, as far as a name uses it. -/
structure TimeBits where
  year : ℕ
  month : ℕ
  day : ℕ
  hour : ℕ
  minute : ℕ
  second : ℕ

/-- `leap_year`. -/
def leapYear (yr : ℕ) : Bool :=
  decide (yr % 4 = 0) && (decide (yr % 100 ≠ 0) || decide (yr % 400 = 0))

/-- `days_per_month`. -/
def daysPerMonth (leap : Bool) : List ℕ :=
  [31, if leap then 29 else 28, 31, 31, 30, 30, 31, 31, 30, 31, 30, 31]

/-- The year in which the day `cal` since the start of `year` lies, and its day of that year.
Each pass takes a year off, so `cal` passes are enough. -/
def expandYear : ℕ → ℕ → ℕ → ℕ × ℕ
  | 0, year, cal => (year, cal)
  | n + 1, year, cal =>
    let nxt := if leapYear year then 366 else 365
    if cal < nxt then (year, cal) else expandYear n (year + 1) (cal - nxt)

/-- The month in which the day `cal` of a year lies, and its day of that month. -/
def expandMonth : List ℕ → ℕ → ℕ → ℕ × ℕ
  | [], month, cal => (month, cal)
  | nxt :: rest, month, cal =>
    if cal < nxt then (month, cal) else expandMonth rest (month + 1) (cal - nxt)

/-- `expand_time`. -/
def expandTime (cal : ULong) : TimeBits :=
  let days := cal.toNat / 60 / 60 / 24
  let (year, day) := expandYear days 1970 days
  let (month, day) := expandMonth (daysPerMonth (leapYear year)) 0 day
  { year := year, month := month + 1, day := day + 1
    hour := cal.toNat / 60 / 60 % 24, minute := cal.toNat / 60 % 60, second := cal.toNat % 60 }

/-- The conversion `%d` of `sprintf` with a width, filled up with `pad`. -/
def decimal (width : ℕ) (pad : Char) (n : ℕ) : CString :=
  let digits := Nat.toDigits 10 n
  List.replicate (width - digits.length) pad ++ digits

/-- `SPOOL_DIR`. -/
def SPOOL_DIR : CString := ['/', 's', 'p', 'o', 'o', 'l', '/']

/-- The name that `new_spool_file` makes at the time `now` and the tick `ticks`. -/
def newSpoolFile (now ticks : ULong) : CString :=
  let tm := expandTime now
  SPOOL_DIR ++ decimal 4 ' ' tm.year ++ decimal 2 '0' tm.month ++ decimal 2 '0' tm.day ++
    decimal 2 '0' tm.hour ++ decimal 2 '0' tm.minute ++ decimal 2 '0' tm.second ++ ['.'] ++
    decimal 2 '0' (ticks &&& 15).toNat

/-! ## The spooler -/

abbrev MAX_SPOOL_HANDLES : ℕ := 64

/-- `struct spool_file`. -/
structure SpoolFile where
  fname : CString
  used : Bool
  fp : Option ℕ
  size : ULong

/-- `struct spool_entry`, with what its source contained when it was queued. -/
structure SpoolEntry where
  jobNo : ULong
  spoolName : CString
  source : List UChar

/-- The file system, `handles`, `spool_list` and `job_number`. -/
structure Spooler where
  fs : Files
  handles : Fin MAX_SPOOL_HANDLES → SpoolFile
  spoolList : List SpoolEntry
  jobNumber : ULong

/-- The answers to the calls of `add_spool_file`, in their order. -/
structure AddAnswers where
  newEntry : Bool
  realName : Bool
  now : ULong
  ticks : ULong
  src : Bool
  dst : OpenAnswer
  copy : List CopyAnswer

/-- The file that the answers give a name for. -/
def AddAnswers.spoolName (a : AddAnswers) : CString := newSpoolFile a.now a.ticks

/-- The index of a handle, if it is one. -/
def handleIndex (handle : ℤ) : Option (Fin MAX_SPOOL_HANDLES) :=
  if h : handle ≥ 0 ∧ handle < MAX_SPOOL_HANDLES then some ⟨handle.toNat, by omega⟩ else none

namespace Spooler

/-- The spooler after `spooler_init`. -/
def init (fs : Files) : Spooler where
  fs := fs
  handles _ := ⟨[], false, none, 0⟩
  spoolList := []
  jobNumber := 1

variable (s : Spooler)

def setHandle (i : Fin MAX_SPOOL_HANDLES) (f : SpoolFile) : Spooler :=
  { s with handles := Function.update s.handles i f }

/-- `add_spool_file`. Its source is closed only where the copy fails. -/
def addSpoolFile (fname : CString) (a : AddAnswers) : Option (Bool × Spooler) :=
  if a.newEntry = false then some (false, s)
  else
    let jobNo := s.jobNumber
    let s := { s with jobNumber := jobNo + 1 }
    if a.realName = false then some (false, s)
    else
      match s.fs.openRead fname a.src with
      | (none, _) => some (false, s)
      | (some src, fs) =>
        match fs.openWrite a.spoolName a.dst with
        | (none, fs) => some (false, { s with fs := fs.close src })
        | (some dst, fs) =>
          match copyFile src dst a.copy fs with
          | none => none
          | some (false, fs) => some (false, { s with fs := (fs.close dst).close src })
          | some (true, fs) => some (true, { s with
              fs := fs.close dst
              spoolList := s.spoolList ++ [⟨jobNo, a.spoolName, s.fs.contents fname⟩] })

/-- `remove_spool_file`. -/
def removeSpoolFile (job : ℤ) : Bool × Spooler :=
  if job < 1 then (false, s)
  else
    match s.spoolList.find? fun entry => BitVec.ofInt 32 job == entry.jobNo with
    | none => (false, s)
    | some entry => (true, { s with
        spoolList := s.spoolList.eraseP fun entry => BitVec.ofInt 32 job == entry.jobNo
        fs := s.fs.removeLink entry.spoolName })

/-- The handle that `open_spool_file` finds. -/
def freeHandle : Option (Fin MAX_SPOOL_HANDLES) :=
  (List.finRange MAX_SPOOL_HANDLES).find? fun i => !(s.handles i).used

/-- `open_spool_file`. -/
def openSpoolFile (now ticks : ULong) (ans : OpenAnswer) : ℤ × Spooler :=
  match s.freeHandle with
  | none => (-1, s)
  | some i =>
    let fname := newSpoolFile now ticks
    match s.fs.openWrite fname ans with
    | (none, fs) =>
      (-1, { s with fs := fs }.setHandle i { s.handles i with fname := fname, fp := none })
    | (some f, fs) => (i, { s with fs := fs }.setHandle i ⟨fname, true, some f, 0⟩)

/-- What `close_spool_file` and `discard_spool_file` do first. -/
def closeHandle (i : Fin MAX_SPOOL_HANDLES) : Spooler :=
  { s with fs := s.fs.closePtr (s.handles i).fp }.setHandle i { s.handles i with used := false }

/-- `fs->remove_link(handles[handle].fname)`. -/
def unlinkHandle (i : Fin MAX_SPOOL_HANDLES) : Spooler :=
  { s with fs := s.fs.removeLink (s.handles i).fname }

/-- `close_spool_file`. -/
def closeSpoolFile (handle : ℤ) (a : AddAnswers) : Option Spooler :=
  match handleIndex handle with
  | none => some s
  | some i =>
    let s := s.closeHandle i
    if (s.handles i).size ≠ 0 then
      (s.addSpoolFile (s.handles i).fname a).map fun r => r.2.unlinkHandle i
    else some (s.unlinkHandle i)

/-- `discard_spool_file`. -/
def discardSpoolFile (handle : ℤ) : Spooler :=
  match handleIndex handle with
  | none => s
  | some i => (s.closeHandle i).unlinkHandle i

/-- `write_spool_file`, when `fs->write` writes the first `wrote` bytes of `data`. -/
def writeSpoolFile (handle : ℤ) (data : List UChar) (wrote : ℕ) : Spooler :=
  match handleIndex handle with
  | none => s
  | some i =>
    match (s.handles i).used, (s.handles i).fp with
    | true, some f =>
      { s with fs := s.fs.write f (data.take wrote) }.setHandle i
        { s.handles i with size := (s.handles i).size + BitVec.ofNat 32 data.length }
    | true, none =>
      s.setHandle i { s.handles i with size := (s.handles i).size + BitVec.ofNat 32 data.length }
    | false, _ => s

end Spooler

/-- The calls of the spooler. -/
inductive SpoolCall where
  | openSpoolFile (now ticks : ULong) (ans : OpenAnswer)
  | writeSpoolFile (handle : ℤ) (data : List UChar) (wrote : ℕ)
  | closeSpoolFile (handle : ℤ) (a : AddAnswers)
  | discardSpoolFile (handle : ℤ)
  | addSpoolFile (fname : CString) (a : AddAnswers)
  | removeSpoolFile (job : ℤ)

def step (s : Spooler) : SpoolCall → Option Spooler
  | .openSpoolFile now ticks ans => some (s.openSpoolFile now ticks ans).2
  | .writeSpoolFile handle data wrote => some (s.writeSpoolFile handle data wrote)
  | .closeSpoolFile handle a => s.closeSpoolFile handle a
  | .discardSpoolFile handle => some (s.discardSpoolFile handle)
  | .addSpoolFile fname a => (s.addSpoolFile fname a).map (·.2)
  | .removeSpoolFile job => some (s.removeSpoolFile job).2

end Vmm386.SpoolerModule
