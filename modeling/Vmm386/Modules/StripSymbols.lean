import Mathlib.Data.List.TakeWhile
import Vmm386.Modules.StripRelocs

/-!
# What `do_strip` keeps
-/

namespace Vmm386.Modules.Strip

/-- The symbols that are kept. -/
def Nlist.marked (s : Nlist) : Bool := s.other = 1

/-- The name, the type and the value of a symbol. -/
def Nlist.info (strings : List UChar) (s : Nlist) : Option (List UChar) × UChar × ULong :=
  (nameAt strings s.strx, s.type, s.value)

/-- The names of the marked symbols. -/
def markedNames (strings : List UChar) (syms : List Nlist) : List (Option (List UChar)) :=
  (syms.filter Nlist.marked).map fun s => nameAt strings s.strx

/-- The size of the strings that are kept. -/
def stringsSize (strings : List UChar) (syms : List Nlist) : ℕ :=
  4 + ((markedNames strings syms).map fun name => (name.getD []).length + 1).sum

/-- The names of the marked symbols have an end, and fit into the space for the new strings. -/
def NamesFit (strings : List UChar) (syms : List Nlist) : Prop :=
  none ∉ markedNames strings syms ∧ stringsSize strings syms ≤ strings.length

/-! ## Names -/

section

variable {l : List UChar} {x : ULong} {name : List UChar}

theorem zero_notMem_of_nameAt (h : nameAt l x = some name) : 0 ∉ name := by
  unfold nameAt at h
  dsimp only at h
  split_ifs at h with hzero
  cases h
  intro hmem
  simpa using List.mem_takeWhile_imp hmem

/-- A name stays where it is if strings are put behind it. -/
theorem nameAt_append (h : nameAt l x = some name) (l' : List UChar) :
    nameAt (l ++ l') x = some name := by
  unfold nameAt at h ⊢
  dsimp only at h ⊢
  split_ifs at h with hzero
  have hlt : x.toNat ≤ l.length := by
    by_contra hge
    rw [List.drop_eq_nil_of_le (by omega)] at hzero
    exact List.not_mem_nil hzero
  rw [List.drop_append_of_le_length hlt, if_pos (List.mem_append_left _ hzero), ← h,
    List.takeWhile_append]
  refine congrArg some (if_neg fun hlen => ?_)
  have hall := List.takeWhile_eq_self_iff.mp
    ((List.takeWhile_prefix (fun c : UChar => decide (c ≠ 0))).eq_of_length hlen)
  exact absurd (hall 0 hzero) (by decide)

/-- The name that has been put behind the others. -/
theorem nameAt_end (hlen : l.length < 2 ^ 32) (h : 0 ∉ name) :
    nameAt (l ++ (name ++ [0])) (BitVec.ofNat 32 l.length) = some name := by
  have hdrop : (l ++ (name ++ [0])).drop (BitVec.ofNat 32 l.length).toNat = name ++ [0] := by
    rw [BitVec.toNat_ofNat, Nat.mod_eq_of_lt hlen, List.drop_left]
  have htake : name.takeWhile (· ≠ 0) = name := by
    rw [List.takeWhile_eq_self_iff]
    intro c hc
    exact decide_eq_true fun hz => h (hz ▸ hc)
  have hend : ([0] : List UChar).takeWhile (· ≠ 0) = [] := by decide
  unfold nameAt
  dsimp only
  rw [hdrop, if_pos (List.mem_append_right _ (List.mem_singleton_self 0)), List.takeWhile_append,
    htake, if_pos rfl, hend, List.append_nil]

/-- The size in the first word leaves the names alone. -/
theorem nameAt_setWord (hx : 4 ≤ x.toNat) (v : ULong) :
    nameAt (setWord l 0 v) x = nameAt l x := by
  have hdrop : (setWord l 0 v).drop x.toNat = l.drop x.toNat := by
    have hword : setWord l 0 v = wordBytes v ++ l.drop 4 := rfl
    have hlen : (wordBytes v).length = 4 := rfl
    rw [hword, List.drop_append, hlen, List.drop_eq_nil_of_le (by omega), List.nil_append,
      List.drop_drop]
    congr 1
    omega
  unfold nameAt
  rw [hdrop]

end

/-! ## Renumbered relocations -/

/-- A relocation, when the symbols `syms` have been looked at. -/
def renumbered (syms : List Nlist) (r : RelocationInfo) : RelocationInfo :=
  if r.isExtern ∧ ∃ s ∈ syms[r.symbolnum.toNat]?, s.marked then
    { r with
      symbolnum := BitVec.ofNat 24 ((syms.take r.symbolnum.toNat).countP Nlist.marked) }
  else r

theorem renumberLoop_text {oldSym newSym max : ℕ} (rs : List RelocationInfo) :
    ∀ i, i + rs.length ≤ max →
      renumberLoop (fun i => i < max) oldSym newSym i rs = rs.map (renumber oldSym newSym) := by
  induction rs with
  | nil => intro i _; rfl
  | cons r rs ih =>
    intro i h
    rw [List.length_cons] at h
    rw [renumberLoop, if_pos (decide_eq_true (by omega)), ih (i + 1) (by omega)]
    rfl

/-- The loop over the relocations of the data ends before its first round. -/
theorem renumberLoop_data {oldSym newSym : ℕ} (rs : List RelocationInfo) :
    renumberLoop (fun i => i > 0) oldSym newSym 0 rs = rs := by
  cases rs <;> rfl

section

variable {syms : List Nlist} {sym : Nlist} {r : RelocationInfo}

theorem renumbered_of_not_isExtern (h : ¬r.isExtern) : renumbered syms r = r :=
  if_neg fun hc => h hc.1

theorem renumbered_nil : renumbered [] r = r := by
  refine if_neg fun hc => ?_
  obtain ⟨-, s, hs, -⟩ := hc
  exact absurd (Option.mem_def.mp hs) (by simp)

theorem countP_take_lt (n : BitVec 24) (syms : List Nlist) :
    (syms.take n.toNat).countP Nlist.marked ≤ n.toNat ∧
      (BitVec.ofNat 24 ((syms.take n.toNat).countP Nlist.marked)).toNat =
        (syms.take n.toNat).countP Nlist.marked := by
  have hcount := List.countP_le_length (p := Nlist.marked) (l := syms.take n.toNat)
  have hlen := List.length_take_le n.toNat syms
  have hn := n.isLt
  refine ⟨hcount.trans hlen, ?_⟩
  rw [BitVec.toNat_ofNat, Nat.mod_eq_of_lt (by omega)]

/-- A symbol that is not the one of the relocation. -/
theorem renumbered_append_of_ne (h : r.symbolnum.toNat ≠ syms.length) :
    renumbered (syms ++ [sym]) r = renumbered syms r := by
  unfold renumbered
  by_cases hlt : r.symbolnum.toNat < syms.length
  · rw [List.getElem?_append_left hlt, List.take_append_of_le_length (Nat.le_of_lt hlt)]
  · have hnone : (syms ++ [sym])[r.symbolnum.toNat]? = none := by
      rw [List.getElem?_eq_none_iff, List.length_append, List.length_singleton]
      omega
    have hnone' : syms[r.symbolnum.toNat]? = none := List.getElem?_eq_none_iff.mpr (by omega)
    rw [hnone, hnone']
    simp

/-- The symbol of the relocation. -/
theorem renumbered_append_of_eq (h : r.symbolnum.toNat = syms.length) :
    renumbered (syms ++ [sym]) r =
      if r.isExtern ∧ sym.marked then
        { r with symbolnum := BitVec.ofNat 24 (syms.countP Nlist.marked) } else r := by
  have hsome : (syms ++ [sym])[r.symbolnum.toNat]? = some sym := by
    rw [h, List.getElem?_concat_length]
  have htake : (syms ++ [sym]).take r.symbolnum.toNat = syms := by rw [h, List.take_left]
  unfold renumbered
  rw [hsome, htake]
  refine if_congr (and_congr_right fun _ => ?_) rfl rfl
  simp

theorem renumber_renumbered (h : sym.marked) :
    renumber syms.length (syms.countP Nlist.marked) (renumbered syms r) =
      renumbered (syms ++ [sym]) r := by
  by_cases hr : r.isExtern
  · by_cases heq : r.symbolnum.toNat = syms.length
    · have hsame : renumbered syms r = r := by
        refine if_neg fun hc => ?_
        obtain ⟨-, s, hs, -⟩ := hc
        have hlt := (List.getElem?_eq_some_iff.mp hs).1
        omega
      rw [renumbered_append_of_eq heq, hsame, renumber, if_pos ⟨hr, heq⟩, if_pos ⟨hr, h⟩]
    · rw [renumbered_append_of_ne heq]
      refine if_neg fun hc => ?_
      -- a number that has been changed is smaller than the ones to come
      obtain ⟨-, hnum⟩ := hc
      unfold renumbered at hnum
      split_ifs at hnum with hm
      · obtain ⟨-, s, hs, -⟩ := hm
        have hlt := (List.getElem?_eq_some_iff.mp hs).1
        obtain ⟨hle, hval⟩ := countP_take_lt r.symbolnum syms
        dsimp only at hnum
        omega
      · exact heq hnum
  · rw [renumbered_of_not_isExtern hr, renumbered_of_not_isExtern hr]
    exact if_neg fun hc => hr hc.1

theorem renumbered_unmarked (h : ¬sym.marked) :
    renumbered (syms ++ [sym]) r = renumbered syms r := by
  by_cases heq : r.symbolnum.toNat = syms.length
  · have hsame : renumbered syms r = r := by
      refine if_neg fun hc => ?_
      obtain ⟨-, s, hs, -⟩ := hc
      have hlt := (List.getElem?_eq_some_iff.mp hs).1
      omega
    rw [renumbered_append_of_eq heq, hsame, if_neg fun hc => h hc.2]
  · exact renumbered_append_of_ne heq

end

/-! ## The loop -/

/-- What `do_strip` has made once it has looked at the symbols `syms`. -/
structure Strips (obj : Obj) (syms : List Nlist) (k : Kept) : Prop where
  trel : k.trel = obj.trel.map (renumbered syms)
  drel : k.drel = obj.drel
  infos : k.newSyms.map (Nlist.info k.newStrings) =
    (syms.filter Nlist.marked).map (Nlist.info obj.strings)
  named : ∀ s ∈ k.newSyms, 4 ≤ s.strx.toNat ∧ nameAt k.newStrings s.strx ≠ none
  size : k.newStrings.length = stringsSize obj.strings syms

variable {obj : Obj} {syms : List Nlist} {sym : Nlist} {k : Kept}

theorem Strips.start (obj : Obj) :
    Strips obj [] { trel := obj.trel, drel := obj.drel } where
  trel := by
    have hid : renumbered [] = id := funext fun r => renumbered_nil
    rw [hid, List.map_id]
  drel := rfl
  infos := rfl
  named s hs := absurd hs List.not_mem_nil
  size := rfl

theorem Strips.count (h : Strips obj syms k) : k.newSyms.length = syms.countP Nlist.marked := by
  have hlen := congrArg List.length h.infos
  rw [List.length_map, List.length_map] at hlen
  rw [hlen, List.countP_eq_length_filter]

theorem markedNames_append (strings : List UChar) (syms syms' : List Nlist) :
    markedNames strings (syms ++ syms') =
      markedNames strings syms ++ markedNames strings syms' := by
  rw [markedNames, List.filter_append, List.map_append]
  rfl

theorem markedNames_singleton (strings : List UChar) (h : sym.marked) :
    markedNames strings [sym] = [nameAt strings sym.strx] := by
  rw [markedNames, List.filter_singleton, h]
  rfl

theorem markedNames_unmarked (strings : List UChar) (h : ¬sym.marked) :
    markedNames strings [sym] = [] := by
  rw [markedNames, List.filter_singleton, Bool.eq_false_of_not_eq_true h]
  rfl

theorem stringsSize_append (strings : List UChar) (syms syms' : List Nlist) :
    stringsSize strings (syms ++ syms') + 4 =
      stringsSize strings syms + stringsSize strings syms' := by
  unfold stringsSize
  rw [markedNames_append, List.map_append, List.sum_append]
  omega

/-- A marked symbol. -/
theorem stripSym_marked (h : Strips obj syms k) (hm : sym.marked) {name : List UChar}
    (hname : nameAt obj.strings sym.strx = some name)
    (hfit : k.newStrings.length + (name.length + 1) ≤ obj.strings.length) :
    ∃ k', stripSym obj k syms.length sym = .ok k' ∧ Strips obj (syms ++ [sym]) k' := by
  have hlt := obj.strings_lt
  have hstrx : (BitVec.ofNat 32 k.newStrings.length).toNat = k.newStrings.length := by
    rw [BitVec.toNat_ofNat, Nat.mod_eq_of_lt (by omega)]
  have hend := nameAt_end (l := k.newStrings) (by omega) (zero_notMem_of_nameAt hname)
  unfold stripSym
  rw [if_pos (of_decide_eq_true hm), hname]
  dsimp only
  rw [if_pos hfit]
  refine ⟨_, rfl, ?_⟩
  unfold fixSymRelocs
  constructor
  · dsimp only
    rw [renumberLoop_text _ 0 (Nat.zero_add _).le, h.trel, List.map_map, h.count]
    exact List.map_congr_left fun r _ => renumber_renumbered hm
  · dsimp only
    rw [renumberLoop_data, h.drel]
  · dsimp only
    have hold : k.newSyms.map (Nlist.info (k.newStrings ++ (name ++ [0]))) =
        k.newSyms.map (Nlist.info k.newStrings) := by
      refine List.map_congr_left fun s hs => ?_
      obtain ⟨name', hname'⟩ := Option.ne_none_iff_exists'.mp (h.named s hs).2
      rw [Nlist.info, Nlist.info, hname', nameAt_append hname']
    rw [List.map_append, hold, h.infos, List.filter_append, List.map_append, List.filter_singleton,
      hm, List.map_singleton]
    refine congrArg _ ?_
    rw [Nlist.info, hend]
    simp [Nlist.info, hname]
  · dsimp only
    intro s hs
    rcases List.mem_append.mp hs with hs | hs
    · obtain ⟨hle, hne⟩ := h.named s hs
      obtain ⟨name', hname'⟩ := Option.ne_none_iff_exists'.mp hne
      rw [nameAt_append hname']
      exact ⟨hle, Option.some_ne_none _⟩
    · cases List.mem_singleton.mp hs
      dsimp only
      rw [hend, hstrx, h.size, stringsSize]
      exact ⟨Nat.le_add_right _ _, Option.some_ne_none _⟩
  · dsimp only
    have hsum := stringsSize_append obj.strings syms [sym]
    have hone : stringsSize obj.strings [sym] = 4 + (name.length + 1) := by
      rw [stringsSize, markedNames_singleton _ hm, hname]
      rfl
    rw [List.length_append, List.length_append, List.length_singleton, h.size]
    omega

theorem stripSym_unmarked (h : Strips obj syms k) (hm : ¬sym.marked) :
    stripSym obj k syms.length sym = .ok k ∧ Strips obj (syms ++ [sym]) k := by
  have hother : ¬sym.other = 1 := fun hc => hm (decide_eq_true hc)
  refine ⟨if_neg hother, ?_⟩
  constructor
  · rw [h.trel]
    exact List.map_congr_left fun r _ => (renumbered_unmarked hm).symm
  · exact h.drel
  · rw [h.infos, List.filter_append, List.filter_singleton, Bool.eq_false_of_not_eq_true hm]
    simp
  · exact h.named
  · have hsum := stringsSize_append obj.strings syms [sym]
    have hone : stringsSize obj.strings [sym] = 4 := by
      rw [stringsSize, markedNames_unmarked _ hm]
      rfl
    rw [h.size]
    omega

/-- **The loop of `do_strip`.** -/
theorem stripLoop_cases (obj : Obj) (rest : List Nlist) :
    ∀ {syms : List Nlist} {k : Kept}, Strips obj syms k →
      (∃ k', stripLoop obj k syms.length rest = .ok k' ∧ Strips obj (syms ++ rest) k' ∧
        none ∉ markedNames obj.strings rest) ∨
      stripLoop obj k syms.length rest = .error .outside ∧
        ¬(none ∉ markedNames obj.strings rest ∧
          stringsSize obj.strings (syms ++ rest) ≤ obj.strings.length) := by
  induction rest with
  | nil =>
    intro syms k h
    rw [List.append_nil]
    exact .inl ⟨k, rfl, h, List.not_mem_nil⟩
  | cons sym rest ih =>
    intro syms k h
    have hassoc : syms ++ sym :: rest = (syms ++ [sym]) ++ rest := by simp
    have hlen : (syms ++ [sym]).length = syms.length + 1 := by simp
    have hnames : markedNames obj.strings (sym :: rest) =
        markedNames obj.strings [sym] ++ markedNames obj.strings rest :=
      markedNames_append obj.strings [sym] rest
    rw [stripLoop, hassoc, hnames]
    by_cases hm : sym.marked
    · rw [markedNames_singleton _ hm, List.singleton_append, List.mem_cons, not_or]
      cases hname : nameAt obj.strings sym.strx with
      | none =>
        refine .inr ⟨?_, fun hc => hc.1.1 rfl⟩
        rw [stripSym, if_pos (of_decide_eq_true hm), hname]
        rfl
      | some name =>
        by_cases hfit : k.newStrings.length + (name.length + 1) ≤ obj.strings.length
        · obtain ⟨k', heq, hk'⟩ := stripSym_marked h hm hname hfit
          rw [heq, ← hlen]
          rcases ih hk' with ⟨k'', heq', hk'', hrest⟩ | ⟨heq', hnot⟩
          · exact .inl ⟨k'', heq', hk'', (Option.some_ne_none _).symm, hrest⟩
          · exact .inr ⟨heq', fun hc => hnot ⟨hc.1.2, hc.2⟩⟩
        · refine .inr ⟨?_, fun hc => ?_⟩
          · rw [stripSym, if_pos (of_decide_eq_true hm), hname]
            dsimp only
            rw [if_neg hfit]
            rfl
          · have hsum := stringsSize_append obj.strings (syms ++ [sym]) rest
            have hsum' := stringsSize_append obj.strings syms [sym]
            have hone : stringsSize obj.strings [sym] = 4 + (name.length + 1) := by
              rw [stringsSize, markedNames_singleton _ hm, hname]
              rfl
            have hrest : 4 ≤ stringsSize obj.strings rest := Nat.le_add_right _ _
            have hsize := h.size
            have hle := hc.2
            omega
    · obtain ⟨heq, hk'⟩ := stripSym_unmarked h hm
      rw [heq, markedNames_unmarked _ hm, List.nil_append, ← hlen]
      exact ih hk'

/-- **`do_strip`.** -/
theorem doStrip_cases (obj : Obj) :
    (∃ o, doStrip obj = .ok o ∧ NamesFit obj.strings obj.syms ∧
      o.syms.map (Nlist.info o.strings) =
        (obj.syms.filter Nlist.marked).map (Nlist.info obj.strings) ∧
      o.trel = obj.trel.map (renumbered obj.syms) ∧ o.drel = obj.drel) ∨
    doStrip obj = .error .outside ∧ ¬NamesFit obj.strings obj.syms := by
  have hloop := stripLoop_cases obj obj.syms (Strips.start obj)
  rw [List.nil_append, List.length_nil] at hloop
  unfold doStrip
  rcases hloop with ⟨k, heq, hk, hnames⟩ | ⟨heq, hnot⟩
  · have hpos : 0 + 4 ≤ k.newStrings.length := by
      rw [hk.size, stringsSize]
      omega
    have hlen := length_setWord hpos (BitVec.ofNat 32 k.newStrings.length)
    rw [heq]
    dsimp only [Except.bind]
    by_cases hfit : stringsSize obj.strings obj.syms ≤ obj.strings.length
    · rw [dif_pos (by rw [hlen, hk.size]; exact hfit)]
      refine .inl ⟨_, rfl, ⟨hnames, hfit⟩, ?_, hk.trel, hk.drel⟩
      rw [← hk.infos]
      refine List.map_congr_left fun s hs => ?_
      dsimp only
      rw [Nlist.info, Nlist.info, nameAt_setWord (hk.named s hs).1]
    · rw [dif_neg (by rw [hlen, hk.size]; exact hfit)]
      exact .inr ⟨rfl, fun hc => hfit hc.2⟩
  · rw [heq]
    exact .inr ⟨rfl, hnot⟩

end Vmm386.Modules.Strip
