import Mathlib.Data.Nat.Digits.Defs
import Vmm386.Types

/-!
# Numbers in strings

`strtoul` of `kernel/misc/lib.c`. A pointer into a string is what it points to: the rest of
the string and its terminator. One past the terminator, nothing is left.
-/

namespace Vmm386.Misc

/-- A string, without its terminator. -/
def CString := { s : List UChar // 0 ∉ s }

/-- The first byte of a string: the terminator. -/
def CString.ptr (s : CString) : List UChar := s.1 ++ [0]

/-- `*str == ' ' || *str == '\t'`. -/
def isBlank (c : UChar) : Bool := c == 0x20 || c == 0x09

/-- The `digit` of a character, in the loop of `strtoul`. -/
def digit (c : UChar) : Option ℕ :=
  if 0x30 ≤ c ∧ c ≤ 0x39 then some (c.toNat - 0x30)
  else if 0x61 ≤ c ∧ c ≤ 0x66 then some (10 + (c.toNat - 0x61))
  else if 0x41 ≤ c ∧ c ≤ 0x46 then some (10 + (c.toNat - 0x41))
  else none

/-- The base that `strtoul` goes on with, and where. -/
def selectBase (base : ULong) : List UChar → ULong × List UChar
  | [] => (base, [])
  | c :: str =>
    if c = 0x30 then
      match str with
      | [] => (8, [])
      | x :: rest =>
        if x = 0x78 ∨ x = 0x58 then (16, rest)
        else if x = 0x62 then (2, rest)
        else (8, x :: rest)
    else (if base = 0 then 10 else base, c :: str)

/-- The loop of `strtoul`. The terminator ends it as well, and has been passed by then. -/
def scan (base : ULong) : ULong → List UChar → ULong × List UChar
  | res, [] => (res, [])
  | res, c :: str =>
    if c = 0 then (res, str)
    else
      match digit c with
      | some d => scan base (res * base + BitVec.ofNat 32 d) str
      | none => (res, c :: str)

/-- `strtoul`, with `*ptr`, which an empty string leaves as it is. -/
def strtoul (str : List UChar) (base : ULong) : ULong × Option (List UChar) :=
  if str.head? = some 0 then (0, none)
  else
    let (base, str) := selectBase base (str.dropWhile isBlank)
    let (res, str) := scan base 0 str
    (res, some str)

/-! ## The number at the beginning of a string -/

/-- A digit of a base. -/
def IsDigit (base : ℕ) (c : UChar) : Prop := ∃ d, digit c = some d ∧ d < base

instance (base : ℕ) (c : UChar) : Decidable (IsDigit base c) :=
  decidable_of_iff (∃ d ∈ digit c, d < base) Iff.rfl

/-- The base that is asked for, and the length of the prefix that stands for it. -/
def askedBase (base : ℕ) (s : List UChar) : ℕ × ℕ :=
  if base ≠ 0 then (base, 0)
  else if [0x30, 0x78].isPrefixOf s ∨ [0x30, 0x58].isPrefixOf s then (16, 2)
  else if [0x30, 0x62].isPrefixOf s then (2, 2)
  else if [0x30].isPrefixOf s then (8, 1)
  else (10, 0)

/-- The value of a sequence of digits. -/
def value (base : ℕ) (ds : List UChar) : ℕ :=
  Nat.ofDigits base (ds.reverse.map fun c => (digit c).getD 0)

/-- The longest sequence of digits of `base` at the beginning of a string. -/
def digitsOf (base : ℕ) (s : List UChar) : List UChar := s.takeWhile fun c => IsDigit base c

/-- The number at the beginning of a string, and the position behind it. -/
def number (base : ℕ) (s : List UChar) : ℕ × ℕ :=
  let t := s.dropWhile isBlank
  let (asked, len) := askedBase base t
  let ds := digitsOf asked (t.drop len)
  (value asked ds, s.length - t.length + len + ds.length)

end Vmm386.Misc
