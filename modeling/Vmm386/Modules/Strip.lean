import Vmm386.Types

/-!
# Stripping symbols

`fix_relocs`, `fix_sym_relocs` and `do_strip` of `kernel/modules/mstrip.c`, on an object as
`read_obj` leaves it, with the symbols marked that are to be kept. Sections, relocations, symbols
and strings are lists; what `malloc` has given is as long as what has been read.
-/

namespace Vmm386.Modules.Strip

/-- `struct relocation_info`. -/
structure RelocationInfo where
  address : ULong
  symbolnum : BitVec 24
  isExtern : Bool
  deriving DecidableEq

/-- `struct nlist`. A symbol is marked by 1 in `other`. -/
structure Nlist where
  strx : ULong
  type : UChar
  other : UChar
  value : ULong
  deriving DecidableEq

/-- `struct obj`. `strings_size` is a `size_t`. -/
structure Obj where
  text : List UChar
  data : List UChar
  bss : ULong
  trel : List RelocationInfo
  drel : List RelocationInfo
  syms : List Nlist
  strings : List UChar
  strings_lt : strings.length < 2 ^ 32
  deriving DecidableEq

/-- `N_EXT`, which alone is the type of an undefined or a common symbol. -/
def nExt : UChar := 1

/-- `N_BSS`. -/
def nBss : UChar := 8

/-- How the program can end early: by `exit(10)`, or with an access outside of what `malloc` has
given. -/
inductive Stop
  | exit
  | outside
  deriving DecidableEq

/-! ## Memory -/

/-- The bytes of a `u_long`. -/
def wordBytes (v : ULong) : List UChar :=
  [v.setWidth 8, (v >>> 8).setWidth 8, (v >>> 16).setWidth 8, (v >>> 24).setWidth 8]

/-- The `u_long` at `n`. -/
def wordAt (l : List UChar) (n : ℕ) : ULong :=
  l.getD (n + 3) 0 ++ l.getD (n + 2) 0 ++ l.getD (n + 1) 0 ++ l.getD n 0

/-- Puts a `u_long` at `n`. -/
def setWord (l : List UChar) (n : ℕ) (v : ULong) : List UChar :=
  l.take n ++ wordBytes v ++ l.drop (n + 4)

/-- `*(u_long *)(section + address) += v`. -/
def addWord (sect : List UChar) (address v : ULong) : Except Stop (List UChar) :=
  if address.toNat + 4 ≤ sect.length then
    .ok (setWord sect address.toNat (wordAt sect address.toNat + v))
  else .error .outside

/-- The string at `STRPTR(obj, x)`, if it has an end. -/
def nameAt (strings : List UChar) (x : ULong) : Option (List UChar) :=
  let rest := strings.drop x.toNat
  if 0 ∈ rest then some (rest.takeWhile (· ≠ 0)) else none

/-! ## Relocations -/

/-- `alloc_bss_object`. -/
def allocBssObject (obj : Obj) (siz : ULong) : ULong × Obj :=
  let old := obj.bss
  (BitVec.ofNat 32 obj.text.length + BitVec.ofNat 32 obj.data.length + old,
    { obj with bss := (old + siz + 3) &&& ~~~3 })

/-- Changes a symbol. -/
def Obj.setSym (obj : Obj) (n : ℕ) (sym : Nlist) : Obj := { obj with syms := obj.syms.set n sym }

/-- The body of the loop of `fix_relocs`, and whether it found an error. -/
def fixReloc (obj : Obj) (sect : List UChar) (r : RelocationInfo) :
    Except Stop (Obj × List UChar × RelocationInfo × Bool) :=
  if r.isExtern then
    match obj.syms[r.symbolnum.toNat]? with
    | none => .error .outside
    | some sym =>
      if sym.type = nExt then
        if sym.value = 0 then .ok (obj, sect, r, true)
        else if sym.other = 1 then .ok (obj, sect, r, false)
        else
          let (value, obj) := allocBssObject obj sym.value
          let obj := obj.setSym r.symbolnum.toNat { sym with value := value, type := nBss }
          (addWord sect r.address value).map fun sect =>
            (obj, sect, { r with symbolnum := nBss.setWidth 24, isExtern := false }, false)
      else
        let type := sym.type &&& ~~~nExt
        let obj := obj.setSym r.symbolnum.toNat { sym with type := type }
        (addWord sect r.address sym.value).map fun sect =>
          (obj, sect, { r with symbolnum := type.setWidth 24, isExtern := false }, false)
  else .ok (obj, sect, r, false)

/-- The loop of `fix_relocs`. -/
def fixLoop (obj : Obj) (sect : List UChar) :
    List RelocationInfo → Except Stop (Obj × List UChar × List RelocationInfo × Bool)
  | [] => .ok (obj, sect, [], false)
  | r :: rs =>
    (fixReloc obj sect r).bind fun (obj, sect, r, e) =>
      (fixLoop obj sect rs).map fun (obj, sect, rs, es) => (obj, sect, r :: rs, e || es)

/-- `fix_relocs`. -/
def fixRelocs (obj : Obj) (relocs : List RelocationInfo) (sect : List UChar) :
    Except Stop (Obj × List RelocationInfo × List UChar) :=
  (fixLoop obj sect relocs).bind fun (obj, sect, relocs, errors) =>
    if errors then .error .exit else .ok (obj, relocs, sect)

/-! ## Symbols -/

/-- A relocation whose symbol has been renumbered. -/
def renumber (oldSym newSym : ℕ) (r : RelocationInfo) : RelocationInfo :=
  if r.isExtern ∧ r.symbolnum.toNat = oldSym then { r with symbolnum := BitVec.ofNat 24 newSym }
  else r

/-- A loop of `fix_sym_relocs` over the relocations from `i` on, which goes on while `more i`. -/
def renumberLoop (more : ℕ → Bool) (oldSym newSym : ℕ) :
    ℕ → List RelocationInfo → List RelocationInfo
  | _, [] => []
  | i, r :: rs =>
    if more i then renumber oldSym newSym r :: renumberLoop more oldSym newSym (i + 1) rs
    else r :: rs

/-- What `do_strip` has made. `last_new_sym` and `last_new_string` are the lengths. -/
structure Kept where
  trel : List RelocationInfo
  drel : List RelocationInfo
  newSyms : List Nlist := []
  newStrings : List UChar := List.replicate 4 0

/-- `fix_sym_relocs`. The loop over the relocations of the data goes on while `i > 0`. -/
def fixSymRelocs (k : Kept) (oldSym newSym : ℕ) : Kept :=
  { k with
    trel := renumberLoop (fun i => i < k.trel.length) oldSym newSym 0 k.trel
    drel := renumberLoop (fun i => i > 0) oldSym newSym 0 k.drel }

/-- The body of the loop of `do_strip`, for the symbol `i`. `strcpy` may not leave `new_strings`,
which is as long as `strings`. -/
def stripSym (obj : Obj) (k : Kept) (i : ℕ) (sym : Nlist) : Except Stop Kept :=
  if sym.other = 1 then
    match nameAt obj.strings sym.strx with
    | none => .error .outside
    | some name =>
      if k.newStrings.length + (name.length + 1) ≤ obj.strings.length then
        .ok (fixSymRelocs
          { k with
            newSyms := k.newSyms ++
              [{ sym with other := 0, strx := BitVec.ofNat 32 k.newStrings.length }]
            newStrings := k.newStrings ++ (name ++ [0]) } i k.newSyms.length)
      else .error .outside
  else .ok k

/-- The loop of `do_strip`. -/
def stripLoop (obj : Obj) : Kept → ℕ → List Nlist → Except Stop Kept
  | k, _, [] => .ok k
  | k, i, sym :: syms => (stripSym obj k i sym).bind fun k => stripLoop obj k (i + 1) syms

/-- `do_strip`. The size of the strings is put into their first word. -/
def doStrip (obj : Obj) : Except Stop Obj :=
  (stripLoop obj { trel := obj.trel, drel := obj.drel } 0 obj.syms).bind fun k =>
    let strings := setWord k.newStrings 0 (BitVec.ofNat 32 k.newStrings.length)
    if h : strings.length ≤ obj.strings.length then
      .ok { obj with
        trel := k.trel
        drel := k.drel
        syms := k.newSyms
        strings := strings
        strings_lt := h.trans_lt obj.strings_lt }
    else .error .outside

/-- What `main` does between `read_obj` and `write_obj`. -/
def strip (obj : Obj) : Except Stop Obj :=
  (fixRelocs obj obj.trel obj.text).bind fun (obj, trel, text) =>
    let obj := { obj with trel := trel, text := text }
    (fixRelocs obj obj.drel obj.data).bind fun (obj, drel, data) =>
      doStrip { obj with drel := drel, data := data }

end Vmm386.Modules.Strip
