import Vmm386.Misc.PrintfNumbers

/-!
# The fields of a format

What the comment on the syntax of formats promises: formats as literal characters and conversions,
and the field that each conversion stands for.
-/

namespace Vmm386.Misc.Printf

inductive Flag
  | minus
  | plus
  | space
  | hash
  | zero
  | star
  deriving DecidableEq

def Flag.char : Flag → UChar
  | .minus => ch '-'
  | .plus => ch '+'
  | .space => ch ' '
  | .hash => ch '#'
  | .zero => ch '0'
  | .star => ch '*'

/-- A precision, if there is one: a number, or the next argument. -/
inductive Precision
  | absent
  | number (digits : List (Fin 10))
  | star

inductive Size
  | plain
  | short
  | long
  deriving DecidableEq

inductive Conv
  | d
  | i
  | u
  | Z
  | b
  | o
  | x
  | X
  | p
  | c
  | s
  deriving DecidableEq

def Conv.char : Conv → UChar
  | .d => ch 'd'
  | .i => ch 'i'
  | .u => ch 'u'
  | .Z => ch 'Z'
  | .b => ch 'b'
  | .o => ch 'o'
  | .x => ch 'x'
  | .X => ch 'X'
  | .p => ch 'p'
  | .c => ch 'c'
  | .s => ch 's'

/-- `%[flags][width][.precision][h|l]conv`. The width is a decimal number, which does not begin
with a zero, or the argument that the flag `*` stands for. -/
structure Conversion where
  flags : List Flag
  width : Option (Fin 9 × List (Fin 10))
  precision : Precision
  size : Size
  conv : Conv
  star_once : flags.count .star + (if width.isSome then 1 else 0) ≤ 1

/-- The character of a digit. -/
def digitChar (d : ℕ) : UChar := ch '0' + BitVec.ofNat 8 d

/-- The number that decimal digits spell. -/
def decimal (ds : List (Fin 10)) : ℕ := ds.foldl (fun n d => n * 10 + d.val) 0

def Precision.chars : Precision → List UChar
  | .absent => []
  | .number ds => ch '.' :: ds.map (digitChar ·.val)
  | .star => [ch '.', ch '*']

def Size.chars : Size → List UChar
  | .plain => []
  | .short => [ch 'h']
  | .long => [ch 'l']

namespace Conversion

variable (cv : Conversion)

/-- The digits of the width. -/
def widthDigits : List (Fin 10) :=
  match cv.width with
  | none => []
  | some (d, ds) => d.succ :: ds

/-- The characters of a conversion, behind the `%`. -/
def bytes : List UChar :=
  cv.flags.map Flag.char ++ cv.widthDigits.map (digitChar ·.val) ++ cv.precision.chars ++
    cv.size.chars ++ [cv.conv.char]

/-- The flags as `kvsprintf` keeps them. -/
def flagSet : Flags :=
  { minus := .minus ∈ cv.flags
    plus := .plus ∈ cv.flags
    spc := .space ∈ cv.flags
    hash := .hash ∈ cv.flags
    zero := .zero ∈ cv.flags
    short := cv.size = .short
    long := cv.size = .long }

/-- The width, and the arguments behind it. -/
def widthOf (args : Args) : ℤ × Args :=
  if .star ∈ cv.flags then ((args 0).toInt, args.rest) else (decimal cv.widthDigits, args)

/-- The precision that is asked for, and the arguments behind it. -/
def limitOf (args : Args) : Option ℤ × Args :=
  match cv.precision with
  | .absent => (none, args)
  | .number ds => (some (decimal ds), args)
  | .star => (some (args 0).toInt, args.rest)

/-- The argument that is converted, and the ones behind it. -/
def argsOf (args : Args) : Args := (cv.limitOf (cv.widthOf args).2).2

/-- What `kvsprintf` keeps of a conversion. -/
def specOf (args : Args) : Spec :=
  { flags := cv.flagSet
    width := (cv.widthOf args).1
    precision := (cv.limitOf (cv.widthOf args).2).1.getD 0 }

/-- The precision, if there is one that is not negative. -/
def limit (args : Args) : Option ℕ :=
  (cv.limitOf (cv.widthOf args).2).1.bind fun n => if 0 ≤ n then some n.toNat else none

end Conversion

/-! ## Fields -/

/-- The value of an argument: a `short int`, or a whole word. -/
def argValue (short signed : Bool) (arg : ULong) : ℤ :=
  if short then
    if signed then (arg.setWidth 16 : UShort).toInt else ((arg.setWidth 16 : UShort).toNat : ℤ)
  else if signed then arg.toInt
  else arg.toNat

/-- The sign of a number of a signed conversion. -/
def signField (flags : Flags) (v : ℤ) : List UChar :=
  if v < 0 then [ch '-'] else if flags.plus then [ch '+'] else if flags.spc then [ch ' '] else []

/-- The digits of a number, the first one first. -/
def digitsField (digits : List UChar) (radix n : ℕ) : List UChar :=
  ((digitList radix n).map fun d => digits.getD d 0).reverse

/-- A number: the sign, the prefix and at least `least` digits, in a field of the given width.
The flag `0` puts zeros behind the sign and the prefix. -/
def numberField (flags : Flags) (width : ℤ) (least : ℕ) (sign pre digits : List UChar) :
    List UChar :=
  let body := List.replicate (least - digits.length) (ch '0') ++ digits
  let pad := width.toNat - (sign.length + pre.length + body.length)
  if flags.minus then sign ++ pre ++ body ++ List.replicate pad (ch ' ')
  else if flags.zero then sign ++ pre ++ List.replicate pad (ch '0') ++ body
  else List.replicate pad (ch ' ') ++ sign ++ pre ++ body

/-- A string or a character in a field of the given width. -/
def textField (flags : Flags) (width : ℤ) (text : List UChar) : List UChar :=
  let pad := width.toNat - text.length
  if flags.minus then text ++ List.replicate pad (ch ' ')
  else List.replicate pad (ch ' ') ++ text

/-- At most `limit` characters. -/
def cut (limit : Option ℕ) (text : List UChar) : List UChar :=
  match limit with
  | none => text
  | some n => text.take n

/-- How a conversion writes numbers: signed or not, the prefix of the flag `#`, the digits and
the radix. -/
structure NumberStyle where
  signed : Bool
  pre : List UChar
  digits : List UChar
  radix : ULong

/-- The styles of the conversions of numbers. -/
def Conv.style : Conv → Option NumberStyle
  | .d | .i => some ⟨true, [], lowerDigits, 10⟩
  | .u | .Z => some ⟨false, [], lowerDigits, 10⟩
  | .b => some ⟨false, [ch '0', ch 'b'], lowerDigits, 2⟩
  | .o => some ⟨true, [ch '0'], lowerDigits, 8⟩
  | .x => some ⟨false, [ch '0', ch 'x'], lowerDigits, 16⟩
  | .X => some ⟨false, [ch '0', ch 'X'], upperDigits, 16⟩
  | .p | .c | .s => none

/-- The field of a number. -/
def NumberStyle.field (st : NumberStyle) (sp : Spec) (limit : Option ℕ) (arg : ULong) :
    List UChar :=
  let v := argValue sp.flags.short st.signed arg
  numberField sp.flags sp.width (limit.getD 0)
    (if st.signed then signField sp.flags v else [])
    (if sp.flags.hash then st.pre else [])
    (digitsField st.digits st.radix.toNat v.natAbs)

/-- `%p`, where the pointer is not null: as `%#x`. -/
def pointerField (sp : Spec) (limit : Option ℕ) (arg : ULong) : List UChar :=
  NumberStyle.field ⟨false, [ch '0', ch 'x'], lowerDigits, 16⟩
    { sp with flags := { sp.flags with hash := true } } limit arg

/-- The field of a conversion. -/
def Conv.field (conv : Conv) (strAt : ULong → List UChar) (sp : Spec) (limit : Option ℕ)
    (arg : ULong) : List UChar :=
  let ptr := fetch sp arg
  let string := textField sp.flags sp.width (cut limit (if ptr = 0 then nil else strAt ptr))
  match conv, conv.style with
  | _, some st => st.field sp limit arg
  | .p, none => if ptr = 0 then string else pointerField sp limit arg
  | .c, none => textField sp.flags sp.width [arg.setWidth 8]
  | _, none => string

/-! ## Formats -/

/-- A piece of a format. -/
inductive Piece
  | literal (c : UChar) (h : c ≠ 0 ∧ c ≠ ch '%')
  | percent
  | conversion (cv : Conversion)

/-- The characters of a piece. -/
def Piece.bytes : Piece → List UChar
  | .literal c _ => [c]
  | .percent => [ch '%', ch '%']
  | .conversion cv => ch '%' :: cv.bytes

/-- The text that a piece stands for. -/
def Piece.text (strAt : ULong → List UChar) (args : Args) : Piece → List UChar
  | .literal c _ => [c]
  | .percent => [ch '%']
  | .conversion cv =>
    cv.conv.field strAt (cv.specOf args) (cv.limit args) (cv.argsOf args 0)

/-- The arguments behind the ones of a piece. -/
def Piece.rest (args : Args) : Piece → Args
  | .conversion cv => (cv.argsOf args).rest
  | _ => args

/-- The characters of a format. -/
def formatBytes (ps : List Piece) : List UChar := ps.flatMap Piece.bytes

/-- The text that a format stands for. -/
def formatText (strAt : ULong → List UChar) : Args → List Piece → List UChar
  | _, [] => []
  | args, p :: ps => p.text strAt args ++ formatText strAt (p.rest args) ps

/-! ## The lengths of fields -/

/-- A number fills its width. -/
theorem length_numberField (flags : Flags) (width : ℤ) (least : ℕ) (sign pre digits : List UChar) :
    (numberField flags width least sign pre digits).length =
      max width.toNat (sign.length + pre.length + max least digits.length) := by
  unfold numberField
  split_ifs <;> simp only [List.length_append, List.length_replicate] <;> omega

theorem length_textField (flags : Flags) (width : ℤ) (text : List UChar) :
    (textField flags width text).length = max width.toNat text.length := by
  unfold textField
  split_ifs <;> simp only [List.length_append, List.length_replicate] <;> omega

end Vmm386.Misc.Printf
