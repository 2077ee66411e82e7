import Vmm386.Types

/-!
# Formatted output

`kvsprintf` of `kernel/misc/printf.c`. The arguments are the words on the stack; the memory that
strings lie in is a function of their address. `none` stands for a byte read beyond the end of
the format, or written outside of `buf` or `tmpbuf`.
-/

namespace Vmm386.Misc.Printf

/-- A character. -/
abbrev ch (c : Char) : UChar := BitVec.ofNat 8 c.toNat

/-- The words of a `va_list`, from the next argument on. -/
abbrev Args := ℕ → ULong

/-- What is left after an argument has been taken. -/
def Args.rest (args : Args) : Args := fun n => args (n + 1)

/-- The `PF_` flags. -/
structure Flags where
  minus : Bool := false
  plus : Bool := false
  spc : Bool := false
  hash : Bool := false
  zero : Bool := false
  short : Bool := false
  long : Bool := false
  deriving DecidableEq

/-- `flags`, `width` and `precision`. -/
structure Spec where
  flags : Flags := {}
  width : ℤ := 0
  precision : ℤ := 0
  deriving DecidableEq

/-- `IS_DIGIT`. -/
def IsDigit (c : UChar) : Prop := ch '0' ≤ c ∧ c ≤ ch '9'

instance (c : UChar) : Decidable (IsDigit c) := inferInstanceAs (Decidable (_ ∧ _))

/-- Another digit of a width or a precision. -/
def push (n : ℤ) (c : UChar) : ℤ := n * 10 + (c.toNat - (ch '0').toNat)

/-- What is being read after the `%`: at `again`, in the loop of the width, right behind the
point, or in the loop of the precision. -/
inductive Reading
  | again
  | width
  | point
  | precision
  deriving DecidableEq

/-- The part of `kvsprintf` that reads the specification of a conversion, up to `conv`. A loop
that meets another character puts it back, and goes to `again`. -/
def readSpec : Reading → Spec → Args → List UChar → Option (UChar × Spec × Args × List UChar)
  | _, _, _, [] => none
  | r, sp, args, c :: fmt =>
    if r = .width ∧ IsDigit c then
      readSpec .width { sp with width := push sp.width c } args fmt
    else if r = .point ∧ c = ch '*' then
      readSpec .again { sp with precision := (args 0).toInt } args.rest fmt
    else if (r = .point ∨ r = .precision) ∧ IsDigit c then
      readSpec .precision { sp with precision := push sp.precision c } args fmt
    else if c = ch '-' then
      readSpec .again { sp with flags := { sp.flags with minus := true } } args fmt
    else if c = ch '*' then
      readSpec .again { sp with width := (args 0).toInt } args.rest fmt
    else if c = ch '+' then
      readSpec .again { sp with flags := { sp.flags with plus := true } } args fmt
    else if c = ch ' ' then
      readSpec .again { sp with flags := { sp.flags with spc := true } } args fmt
    else if c = ch '#' then
      readSpec .again { sp with flags := { sp.flags with hash := true } } args fmt
    else if c = ch '0' then
      readSpec .again { sp with flags := { sp.flags with zero := true } } args fmt
    else if IsDigit c then
      readSpec .width { sp with width := push sp.width c } args fmt
    else if c = ch 'h' then
      readSpec .again { sp with flags := { sp.flags with short := true } } args fmt
    else if c = ch 'l' then
      readSpec .again { sp with flags := { sp.flags with long := true } } args fmt
    else if c = ch '.' then readSpec .point sp args fmt
    else some (c, sp, args, fmt)

/-- `arg`, which is zero-extended from a short. -/
def fetch (sp : Spec) (arg : ULong) : ULong :=
  if sp.flags.long then arg
  else if sp.flags.short then (arg.setWidth 16).setWidth 32
  else arg

/-! ## Numbers -/

def lowerDigits : List UChar :=
  ['0', '1', '2', '3', '4', '5', '6', '7', '8', '9', 'a', 'b', 'c', 'd', 'e', 'f'].map ch

def upperDigits : List UChar :=
  ['0', '1', '2', '3', '4', '5', '6', '7', '8', '9', 'A', 'B', 'C', 'D', 'E', 'F'].map ch

/-- The loop that takes the digits of `arg`, the last one first. -/
def digitLoop (digits : List UChar) (radix : ULong) : ℕ → ULong → List UChar
  | 0, _ => []
  | fuel + 1, arg =>
    if 0 < arg then
      digits.getD (arg % radix).toNat 0 :: digitLoop digits radix fuel (arg / radix)
    else []

/-- The digits of `arg`, before the precision is looked at. A word has at most 32 of them. -/
def numberDigits (digits : List UChar) (radix arg : ULong) : List UChar :=
  if arg = 0 then [digits.getD 0 0] else digitLoop digits radix 32 arg

/-- What is collected in `tmpbuf`. The precision loop pushes `num_len` zeros. -/
def tmpbuf (digits : List UChar) (radix arg : ULong) (precision : ℤ) : List UChar :=
  let tmp := numberDigits digits radix arg
  if precision ≠ 0 ∧ (tmp.length : ℤ) < precision then
    tmp ++ List.replicate tmp.length (digits.getD 0 0)
  else tmp

/-- The sign that is put out, and what is left of `arg`. -/
def signOf (flags : Flags) (signed : Bool) (arg : ULong) : List UChar × ULong :=
  if signed then
    if arg.toInt < 0 then ([ch '-'], 0 - arg)
    else if flags.plus then ([ch '+'], arg)
    else if flags.spc then ([ch ' '], arg)
    else ([], arg)
  else ([], arg)

/-- `do_number`, behind the `pre` that has been put out. -/
def doNumber (sp : Spec) (pre : List UChar) (signed : Bool) (digits : List UChar)
    (radix arg : ULong) : Option (List UChar) :=
  let (sign, arg) := signOf sp.flags signed arg
  let tmp := tmpbuf digits radix arg sp.precision
  let len := pre.length + sign.length + tmp.length
  if 40 < tmp.length then none
  else if sp.width > len then
    let pad := (sp.width - len).toNat
    if sp.flags.minus then some (pre ++ sign ++ tmp.reverse ++ List.replicate pad (ch ' '))
    else
      some (pre ++ sign ++ List.replicate pad (if sp.flags.zero then ch '0' else ch ' ') ++
        tmp.reverse)
  else some (pre ++ sign ++ tmp.reverse)

/-! ## Strings and characters -/

def nil : List UChar := ['(', 'n', 'i', 'l', ')'].map ch

/-- `do_string`. Only a string without a width is cut at the precision. -/
def doString (sp : Spec) (str : List UChar) : List UChar :=
  let len := if 0 < sp.precision ∧ sp.precision < str.length then sp.precision else str.length
  if 0 < sp.width then
    if sp.width ≤ len then str
    else
      let pad := (sp.width - len).toNat
      if sp.flags.minus then str ++ List.replicate pad (ch ' ')
      else List.replicate pad (if sp.flags.zero then ch '0' else ch ' ') ++ str
  else str.take len.toNat

/-- What has been put into `buf`, and what `%n` has stored. -/
structure Out where
  text : List UChar := []
  stored : List (ULong × ℕ) := []
  deriving DecidableEq

def Out.put (b : Out) (s : List UChar) : Out := { b with text := b.text ++ s }

/-- `case 'c'`. Right-justified, it writes `c`, the conversion, over the byte before `buf`, and
leaves `buf` where it was, so that the padding is written over. -/
def doChar (sp : Spec) (c : UChar) (arg : ULong) (b : Out) : Option Out :=
  if 1 < sp.width then
    if sp.flags.minus then
      some (b.put (c :: List.replicate (sp.width - 1).toNat (ch ' ')))
    else if b.text = [] then none
    else some { b with text := b.text.dropLast ++ [c] }
  else some (b.put [arg.setWidth 8])

/-! ## The conversions -/

/-- The `switch` on the conversion. -/
def convert (strAt : ULong → List UChar) (c : UChar) (sp : Spec) (arg : ULong) (b : Out) :
    Option Out :=
  let string (arg : ULong) := some (b.put (doString sp (if arg = 0 then nil else strAt arg)))
  let hash (pre : List UChar) := if sp.flags.hash then pre else []
  if c = ch 'n' then some { b with stored := b.stored ++ [(arg, b.text.length)] }
  else if c = ch 'i' ∨ c = ch 'd' then (doNumber sp [] true lowerDigits 10 arg).map b.put
  else if c = ch 'u' ∨ c = ch 'Z' then (doNumber sp [] false lowerDigits 10 arg).map b.put
  else if c = ch 'o' then (doNumber sp (hash [ch '0']) true lowerDigits 8 arg).map b.put
  else if c = ch 'b' then
    (doNumber sp (hash [ch '0', ch 'b']) false lowerDigits 2 arg).map b.put
  else if c = ch 'p' then
    if arg = 0 then string arg
    else (doNumber sp [ch '0', ch 'x'] false lowerDigits 16 arg).map b.put
  else if c = ch 'x' then
    (doNumber sp (hash [ch '0', ch 'x']) false lowerDigits 16 arg).map b.put
  else if c = ch 'X' then
    (doNumber sp (hash [ch '0', ch 'X']) false upperDigits 16 arg).map b.put
  else if c = ch 'c' then doChar sp c arg b
  else if c = ch 's' then string arg
  else some b

/-- The body of the loop over the format, which has read `c`. -/
def body (strAt : ULong → List UChar) (c : UChar) (args : Args) (fmt : List UChar) (b : Out) :
    Option (Args × List UChar × Out) :=
  if c ≠ ch '%' then some (args, fmt, b.put [c])
  else if fmt.head? = some (ch '%') then some (args, fmt.tail, b.put [ch '%'])
  else
    (readSpec .again {} args fmt).bind fun (c, sp, args, fmt) =>
      (convert strAt c sp (fetch sp (args 0)) b).bind fun b => some (args.rest, fmt, b)

/-- The loop over the format. -/
def loop (strAt : ULong → List UChar) : ℕ → Args → List UChar → Out → Option Out
  | 0, _, _, _ => none
  | _ + 1, _, [], _ => none
  | fuel + 1, args, c :: fmt, b =>
    if c = 0 then some b
    else (body strAt c args fmt b).bind fun (args, fmt, b) => loop strAt fuel args fmt b

/-- `kvsprintf`. Every round of the loop reads at least one byte of the format. -/
def kvsprintf (strAt : ULong → List UChar) (fmt : List UChar) (args : Args) : Option Out :=
  loop strAt fmt.length args fmt {}

end Vmm386.Misc.Printf
