import Vmm386.Modules.Strip

/-!
# What `fix_relocs` does to the symbols and relocations
-/

namespace Vmm386.Modules.Strip

/-- The program prints an error for an undefined symbol. -/
def Nlist.Undefined (s : Nlist) : Prop := s.type = nExt ∧ s.value = 0

/-- A common symbol that is kept. -/
def Nlist.Common (s : Nlist) : Prop := s.type = nExt ∧ s.value ≠ 0 ∧ s.other = 1

instance (s : Nlist) : Decidable s.Undefined := inferInstanceAs (Decidable (_ ∧ _))
instance (s : Nlist) : Decidable s.Common := inferInstanceAs (Decidable (_ ∧ _))

/-- The type of the segment that a symbol lies in, or will lie in. -/
def Nlist.segment (s : Nlist) : UChar := if s.type = nExt then nBss else s.type &&& ~~~nExt

/-- A relocation that is resolved by its symbol. -/
def Resolves (syms : List Nlist) (r : RelocationInfo) : Prop :=
  r.isExtern ∧ ∃ s ∈ syms[r.symbolnum.toNat]?, ¬s.Undefined ∧ ¬s.Common

/-- A relocation whose symbol there is, and whose address lies in the section if it is
resolved. -/
def Fits (syms : List Nlist) (size : ℕ) (r : RelocationInfo) : Prop :=
  r.isExtern → ∃ s ∈ syms[r.symbolnum.toNat]?,
    s.Undefined ∨ s.Common ∨ r.address.toNat + 4 ≤ size

/-- A relocation to an undefined symbol. -/
def IsError (syms : List Nlist) (r : RelocationInfo) : Prop :=
  r.isExtern ∧ ∃ s ∈ syms[r.symbolnum.toNat]?, s.Undefined

instance (syms : List Nlist) (r : RelocationInfo) : Decidable (IsError syms r) :=
  inferInstanceAs (Decidable (_ ∧ ∃ s ∈ syms[r.symbolnum.toNat]?, s.Undefined))

instance (syms : List Nlist) (r : RelocationInfo) : Decidable (Resolves syms r) :=
  inferInstanceAs (Decidable (_ ∧ ∃ s ∈ syms[r.symbolnum.toNat]?, ¬s.Undefined ∧ ¬s.Common))

/-- What becomes of a relocation, by the symbols that there have been at the start. -/
def target (syms : List Nlist) (r : RelocationInfo) : RelocationInfo :=
  match syms[r.symbolnum.toNat]? with
  | none => r
  | some s =>
    if Resolves syms r then { r with symbolnum := s.segment.setWidth 24, isExtern := false } else r

/-- What becomes of a symbol that resolves a relocation. -/
structure Nlist.Used (s t : Nlist) : Prop where
  strx : t.strx = s.strx
  other : t.other = s.other
  type : t.type = s.segment
  value : s.other = 1 → t.value = s.value

/-- One of the relocations is resolved by the symbol `i`. -/
def Referred (syms : List Nlist) (rs : List RelocationInfo) (i : ℕ) : Prop :=
  ∃ r ∈ rs, Resolves syms r ∧ r.symbolnum.toNat = i

/-- What has become of the symbols `syms` once the relocations `rs` have been fixed. -/
structure After (syms : List Nlist) (rs : List RelocationInfo) (now : List Nlist) : Prop where
  length : now.length = syms.length
  used : ∀ i s t, s ∈ syms[i]? → t ∈ now[i]? → Referred syms rs i → s.Used t
  same : ∀ i, ¬Referred syms rs i → now[i]? = syms[i]?

theorem After.start (syms : List Nlist) : After syms [] syms where
  length := rfl
  used i s t hs ht h := by
    obtain ⟨r, hr, -⟩ := h
    exact absurd hr List.not_mem_nil
  same i h := rfl

section

variable {syms now : List Nlist} {rs : List RelocationInfo} {r : RelocationInfo} {s t : Nlist}

theorem referred_append_singleton {i : ℕ} :
    Referred syms (rs ++ [r]) i ↔
      Referred syms rs i ∨ Resolves syms r ∧ r.symbolnum.toNat = i := by
  unfold Referred
  constructor
  · intro h
    obtain ⟨r', hr', h'⟩ := h
    rcases List.mem_append.mp hr' with hr' | hr'
    · exact .inl ⟨r', hr', h'⟩
    · cases List.mem_singleton.mp hr'
      exact .inr h'
  · intro h
    rcases h with ⟨r', hr', h'⟩ | h'
    · exact ⟨r', List.mem_append_left _ hr', h'⟩
    · exact ⟨r, List.mem_append_right _ (List.mem_singleton_self r), h'⟩

/-- A relocation that is not resolved changes no symbol. -/
theorem After.skip (h : After syms rs now) (hr : ¬Resolves syms r) :
    After syms (rs ++ [r]) now := by
  have hiff : ∀ i, Referred syms (rs ++ [r]) i ↔ Referred syms rs i := by
    intro i
    rw [referred_append_singleton, or_iff_left fun hc => hr hc.1]
  constructor
  · exact h.length
  · intro i s t hs ht href
    exact h.used i s t hs ht ((hiff i).mp href)
  · intro i href
    exact h.same i fun hc => href ((hiff i).mpr hc)

/-- A relocation that is resolved leaves its symbol used. -/
theorem After.set (h : After syms rs now) (hs : s ∈ syms[r.symbolnum.toNat]?)
    (hr : Resolves syms r) (ht : s.Used t) :
    After syms (rs ++ [r]) (now.set r.symbolnum.toNat t) := by
  have hlt : r.symbolnum.toNat < now.length := by
    rw [h.length]
    exact (List.getElem?_eq_some_iff.mp hs).1
  constructor
  · rw [List.length_set, h.length]
  · intro i s' t' hs' ht' href
    by_cases hi : r.symbolnum.toNat = i
    · subst hi
      rw [List.getElem?_set_self hlt] at ht'
      cases Option.mem_unique hs hs'
      cases Option.some_inj.mp ht'
      exact ht
    · rw [List.getElem?_set_ne hi] at ht'
      rw [referred_append_singleton, or_iff_left fun hc => hi hc.2] at href
      exact h.used i s' t' hs' ht' href
  · intro i href
    rw [referred_append_singleton, not_or] at href
    have hi : r.symbolnum.toNat ≠ i := fun hc => href.2 ⟨hr, hc⟩
    rw [List.getElem?_set_ne hi]
    exact h.same i href.1

/-- A symbol that has been used, or not. -/
theorem After.symbol (h : After syms rs now) {i : ℕ} (hs : s ∈ syms[i]?) :
    ∃ t ∈ now[i]?, t = s ∨ s.Used t ∧ Referred syms rs i := by
  by_cases href : Referred syms rs i
  · have hlt : i < now.length := by
      rw [h.length]
      exact (List.getElem?_eq_some_iff.mp hs).1
    have ht : now[i] ∈ now[i]? := List.getElem?_eq_getElem hlt
    exact ⟨now[i], ht, .inr ⟨h.used i s _ hs ht href, href⟩⟩
  · exact ⟨s, (h.same i href).trans hs, .inl rfl⟩

/-- Undefined symbols and common symbols that are kept stay as they are. -/
theorem After.stays (h : After syms rs now) {i : ℕ} (hs : s ∈ syms[i]?)
    (hkept : s.Undefined ∨ s.Common) : s ∈ now[i]? := by
  refine (h.same i fun href => ?_).trans hs
  obtain ⟨r', -, ⟨-, s', hs', hundef, hcommon⟩, rfl⟩ := href
  cases Option.mem_unique hs hs'
  exact hkept.elim hundef hcommon

/-- The type of a segment is not the one of an undefined or a common symbol. -/
theorem Nlist.segment_ne (s : Nlist) : s.segment ≠ nExt := by
  have hand : ∀ t : UChar, t &&& ~~~nExt ≠ nExt := by
    intro t h
    have hbit := congrArg (fun x : UChar => x.getLsbD 0) h
    simp [nExt] at hbit
  unfold Nlist.segment
  split_ifs
  · decide
  · exact hand _

theorem Nlist.segment_and (s : Nlist) : s.segment &&& ~~~nExt = s.segment := by
  unfold Nlist.segment
  split_ifs
  · decide
  · rw [BitVec.and_assoc, BitVec.and_self]

end

/-! ## The loop -/

variable {obj : Obj} {sect : List UChar} {syms : List Nlist} {rs : List RelocationInfo}
  {r : RelocationInfo} {s t : Nlist}

theorem length_setWord {l : List UChar} {n : ℕ} (h : n + 4 ≤ l.length) (v : ULong) :
    (setWord l n v).length = l.length := by
  unfold setWord
  rw [List.length_append, List.length_append, List.length_take, List.length_drop]
  have hword : (wordBytes v).length = 4 := rfl
  omega

theorem addWord_ok {address : ULong} (h : address.toNat + 4 ≤ sect.length) (v : ULong) :
    ∃ sect', addWord sect address v = .ok sect' ∧ sect'.length = sect.length := by
  unfold addWord
  rw [if_pos h]
  exact ⟨_, rfl, length_setWord h _⟩

theorem addWord_outside {address : ULong} (h : ¬address.toNat + 4 ≤ sect.length) (v : ULong) :
    addWord sect address v = .error .outside := by
  rw [addWord, if_neg h]

theorem isError_iff (hr : r.isExtern) (hs : s ∈ syms[r.symbolnum.toNat]?) :
    IsError syms r ↔ s.Undefined := by
  constructor
  · intro h
    obtain ⟨-, s', hs', hundef⟩ := h
    rwa [Option.mem_unique hs hs']
  · intro h
    exact ⟨hr, s, hs, h⟩

theorem resolves_iff (hr : r.isExtern) (hs : s ∈ syms[r.symbolnum.toNat]?) :
    Resolves syms r ↔ ¬s.Undefined ∧ ¬s.Common := by
  constructor
  · intro h
    obtain ⟨-, s', hs', hkept⟩ := h
    rwa [Option.mem_unique hs hs']
  · intro h
    exact ⟨hr, s, hs, h⟩

theorem target_of_not_resolves (h : ¬Resolves syms r) : target syms r = r := by
  unfold target
  cases syms[r.symbolnum.toNat]? with
  | none => rfl
  | some s => exact if_neg h

theorem target_of_resolves (h : Resolves syms r) (hs : s ∈ syms[r.symbolnum.toNat]?) :
    target syms r = { r with symbolnum := s.segment.setWidth 24, isExtern := false } := by
  unfold target
  rw [Option.mem_def.mp hs]
  exact if_pos h

/-- A relocation to a symbol that is neither undefined nor kept as a common one: the symbol
becomes used, and its value is added to the section. -/
theorem fixReloc_resolve (sect : List UChar) (h : After syms rs obj.syms) (hr : r.isExtern)
    (hs : s ∈ syms[r.symbolnum.toNat]?) (hundef : ¬s.Undefined) (hcommon : ¬s.Common) :
    ∃ t bss, s.Used t ∧ fixReloc obj sect r =
      (addWord sect r.address t.value).map fun sect' =>
        ({ obj with syms := obj.syms.set r.symbolnum.toNat t, bss := bss }, sect',
          { r with symbolnum := s.segment.setWidth 24, isExtern := false }, false) := by
  obtain ⟨t, ht, hcases⟩ := h.symbol hs
  unfold fixReloc
  rw [if_pos hr, Option.mem_def.mp ht]
  dsimp only
  rcases hcases with rfl | ⟨hused, -⟩
  · by_cases htype : t.type = nExt
    · -- a common symbol gets its space
      have hvalue : t.value ≠ 0 := fun hc => hundef ⟨htype, hc⟩
      have hother : t.other ≠ 1 := fun hc => hcommon ⟨htype, hvalue, hc⟩
      have hsegment : t.segment = nBss := if_pos htype
      rw [if_pos htype, if_neg hvalue, if_neg hother, hsegment]
      exact ⟨{ t with value := (allocBssObject obj t.value).1, type := nBss },
        (allocBssObject obj t.value).2.bss,
        ⟨rfl, rfl, hsegment.symm, fun hc => absurd hc hother⟩, rfl⟩
    · have hsegment : t.segment = t.type &&& ~~~nExt := if_neg htype
      rw [if_neg htype, hsegment]
      exact ⟨{ t with type := t.type &&& ~~~nExt }, obj.bss,
        ⟨rfl, rfl, hsegment.symm, fun _ => rfl⟩, rfl⟩
  · -- the symbol has been used before
    have htype : t.type ≠ nExt := by
      rw [hused.type]
      exact s.segment_ne
    have hsegment : t.type &&& ~~~nExt = s.segment := by rw [hused.type, s.segment_and]
    rw [if_neg htype, hsegment]
    exact ⟨{ t with type := s.segment }, obj.bss,
      ⟨hused.strx, hused.other, rfl, hused.value⟩, rfl⟩

/-- One round of the loop. -/
theorem fixReloc_ok (h : After syms rs obj.syms) (hfits : Fits syms sect.length r) :
    ∃ now bss sect', fixReloc obj sect r =
        .ok ({ obj with syms := now, bss := bss }, sect', target syms r,
          decide (IsError syms r)) ∧
      After syms (rs ++ [r]) now ∧ sect'.length = sect.length := by
  by_cases hr : r.isExtern
  · obtain ⟨s, hs, hcases⟩ := hfits hr
    by_cases hkept : s.Undefined ∨ s.Common
    · have hnone : ¬Resolves syms r := by
        rw [resolves_iff hr hs, ← not_or]
        exact not_not.mpr hkept
      refine ⟨obj.syms, obj.bss, sect, ?_, h.skip hnone, rfl⟩
      rw [target_of_not_resolves hnone, decide_eq_decide.mpr (isError_iff hr hs), fixReloc,
        if_pos hr, Option.mem_def.mp (h.stays hs hkept)]
      dsimp only
      rcases hkept with hundef | hcommon
      · rw [if_pos hundef.1, if_pos hundef.2, decide_eq_true hundef]
      · rw [if_pos hcommon.1, if_neg hcommon.2.1, if_pos hcommon.2.2,
          decide_eq_false fun hc => hcommon.2.1 hc.2]
    · have haddress : r.address.toNat + 4 ≤ sect.length :=
        (hcases.resolve_left fun hc => hkept (.inl hc)).resolve_left fun hc => hkept (.inr hc)
      rw [not_or] at hkept
      have hres : Resolves syms r := (resolves_iff hr hs).mpr hkept
      obtain ⟨t, bss, hused, heq⟩ := fixReloc_resolve sect h hr hs hkept.1 hkept.2
      obtain ⟨sect', hadd, hlen⟩ := addWord_ok haddress t.value
      refine ⟨obj.syms.set r.symbolnum.toNat t, bss, sect', ?_, h.set hs hres hused, hlen⟩
      rw [heq, hadd, target_of_resolves hres hs,
        decide_eq_false fun hc => hkept.1 ((isError_iff hr hs).mp hc)]
      rfl
  · have hnone : ¬Resolves syms r := fun hc => hr hc.1
    refine ⟨obj.syms, obj.bss, sect, ?_, h.skip hnone, rfl⟩
    rw [fixReloc, if_neg hr, target_of_not_resolves hnone,
      decide_eq_false fun hc : IsError syms r => hr hc.1]

theorem fixReloc_outside (h : After syms rs obj.syms) (hfits : ¬Fits syms sect.length r) :
    fixReloc obj sect r = .error .outside := by
  unfold Fits at hfits
  rw [Classical.not_imp] at hfits
  obtain ⟨hr, hnone⟩ := hfits
  cases hs : syms[r.symbolnum.toNat]? with
  | none =>
    have hlt := List.getElem?_eq_none_iff.mp hs
    rw [← h.length] at hlt
    rw [fixReloc, if_pos hr, List.getElem?_eq_none_iff.mpr hlt]
  | some s =>
    rw [hs] at hnone
    have hcases : ¬(s.Undefined ∨ s.Common ∨ r.address.toNat + 4 ≤ sect.length) :=
      fun hc => hnone ⟨s, rfl, hc⟩
    rw [not_or, not_or] at hcases
    obtain ⟨t, bss, -, heq⟩ :=
      fixReloc_resolve sect h hr hs hcases.1 hcases.2.1
    rw [heq, addWord_outside hcases.2.2]
    rfl

/-- **The loop of `fix_relocs`.** -/
theorem fixLoop_ok (relocs : List RelocationInfo) :
    ∀ {o : Obj} {sect : List UChar} {rs : List RelocationInfo}, After syms rs o.syms →
      (∀ r ∈ relocs, Fits syms sect.length r) →
      ∃ now bss sect', fixLoop o sect relocs =
          .ok ({ o with syms := now, bss := bss }, sect', relocs.map (target syms),
            relocs.any fun r => IsError syms r) ∧
        After syms (rs ++ relocs) now ∧ sect'.length = sect.length := by
  induction relocs with
  | nil =>
    intro o sect rs h _
    rw [List.append_nil]
    exact ⟨o.syms, o.bss, sect, rfl, h, rfl⟩
  | cons r relocs ih =>
    intro o sect rs h hfits
    obtain ⟨now, bss, sect', heq, hafter, hlen⟩ := fixReloc_ok h (hfits r List.mem_cons_self)
    have hfits' : ∀ r ∈ relocs, Fits syms sect'.length r := by
      intro r hr
      rw [hlen]
      exact hfits r (List.mem_cons_of_mem _ hr)
    obtain ⟨now', bss', sect'', heq', hafter', hlen'⟩ :=
      ih (o := { o with syms := now, bss := bss }) hafter hfits'
    rw [List.append_assoc, List.singleton_append] at hafter'
    refine ⟨now', bss', sect'', ?_, hafter', hlen'.trans hlen⟩
    rw [fixLoop, heq]
    dsimp only [Except.bind]
    rw [heq']
    rfl

theorem fixLoop_outside (relocs : List RelocationInfo) :
    ∀ {o : Obj} {sect : List UChar} {rs : List RelocationInfo}, After syms rs o.syms →
      ¬(∀ r ∈ relocs, Fits syms sect.length r) → fixLoop o sect relocs = .error .outside := by
  induction relocs with
  | nil =>
    intro o sect rs _ hfits
    exact absurd (fun r hr => absurd hr List.not_mem_nil) hfits
  | cons r relocs ih =>
    intro o sect rs h hfits
    rw [fixLoop]
    by_cases hr : Fits syms sect.length r
    · obtain ⟨now, bss, sect', heq, hafter, hlen⟩ := fixReloc_ok h hr
      have hfits' : ¬∀ r ∈ relocs, Fits syms sect'.length r := by
        intro hall
        refine hfits fun r' hr' => ?_
        rcases List.mem_cons.mp hr' with rfl | hr'
        · exact hr
        · rw [← hlen]
          exact hall r' hr'
      rw [heq]
      dsimp only [Except.bind]
      rw [ih (o := { o with syms := now, bss := bss }) hafter hfits']
      rfl
    · rw [fixReloc_outside h hr]
      rfl

/-- **`fix_relocs`**, where all relocations fit. -/
theorem fixRelocs_ok {o : Obj} {relocs : List RelocationInfo} (h : After syms rs o.syms)
    (hfits : ∀ r ∈ relocs, Fits syms sect.length r) :
    ∃ now bss sect', fixRelocs o relocs sect =
        (if ∃ r ∈ relocs, IsError syms r then .error .exit
          else .ok ({ o with syms := now, bss := bss }, relocs.map (target syms), sect')) ∧
      After syms (rs ++ relocs) now ∧ sect'.length = sect.length := by
  obtain ⟨now, bss, sect', heq, hafter, hlen⟩ := fixLoop_ok relocs h hfits
  refine ⟨now, bss, sect', ?_, hafter, hlen⟩
  rw [fixRelocs, heq]
  dsimp only [Except.bind]
  refine if_congr ?_ rfl rfl
  simp

theorem fixRelocs_outside {o : Obj} {relocs : List RelocationInfo} (h : After syms rs o.syms)
    (hfits : ¬∀ r ∈ relocs, Fits syms sect.length r) :
    fixRelocs o relocs sect = .error .outside := by
  rw [fixRelocs, fixLoop_outside relocs h hfits]
  rfl

end Vmm386.Modules.Strip
