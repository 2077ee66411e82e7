import Vmm386.Modules.StripSymbols

/-!
# Stripping

What an object keeps when its symbols are stripped, and when.
-/

namespace Vmm386.Modules.Strip

/-- What is to become of a relocation: if it still is external it refers to a symbol of the same
name, if it no longer is it has the segment of its symbol, and if it has not been it is the
same. -/
structure RelocKept (o o' : Obj) (r r' : RelocationInfo) : Prop where
  still : r'.isExtern → r.isExtern ∧ ∃ s ∈ o.syms[r.symbolnum.toNat]?,
    ∃ s' ∈ o'.syms[r'.symbolnum.toNat]?, nameAt o'.strings s'.strx = nameAt o.strings s.strx
  resolved : ¬r'.isExtern → r.isExtern →
    ∃ s ∈ o.syms[r.symbolnum.toNat]?, r'.symbolnum = s.segment.setWidth 24
  other : ¬r.isExtern → r' = r

/-- What is to become of an object: it has the marked symbols in their order, with their names,
types and values. -/
structure Stripped (o o' : Obj) : Prop where
  syms : o'.syms.map (Nlist.info o'.strings) =
    (o.syms.filter Nlist.marked).map (Nlist.info o.strings)
  text : List.Forall₂ (RelocKept o o') o.trel o'.trel
  data : List.Forall₂ (RelocKept o o') o.drel o'.drel

/-- The object is stripped, unless the program ends with an error message. -/
def Meets (o : Obj) : Prop :=
  match strip o with
  | .ok o' => Stripped o o'
  | .error .exit => True
  | .error .outside => False

/-- No relocation refers to a marked symbol that is external, and neither undefined nor a common
symbol. -/
def TypesStay (o : Obj) : Prop :=
  ∀ r ∈ o.trel ++ o.drel, r.isExtern → ∀ s ∈ o.syms[r.symbolnum.toNat]?, s.marked →
    s.type = nExt ∨ s.type &&& ~~~nExt = s.type

/-- The symbols that relocations of the data keep have the same number among the marked symbols,
or a marked symbol of the same name has it. -/
def DataInPlace (o : Obj) : Prop :=
  ∀ r ∈ o.drel, r.isExtern → ∀ s ∈ o.syms[r.symbolnum.toNat]?, s.Common →
    (markedNames o.strings o.syms)[r.symbolnum.toNat]? = some (nameAt o.strings s.strx)

/-- When the program does what it is to do. -/
def Strippable (o : Obj) : Prop :=
  (∀ r ∈ o.trel, Fits o.syms o.text.length r) ∧
    ((∃ r ∈ o.trel, IsError o.syms r) ∨
      (∀ r ∈ o.drel, Fits o.syms o.data.length r) ∧
        ((∃ r ∈ o.drel, IsError o.syms r) ∨
          NamesFit o.strings o.syms ∧ TypesStay o ∧ DataInPlace o))

/-! ## Marked symbols -/

/-- The images of the elements that two lists keep. -/
theorem filter_map_eq_iff {α β : Type*} {p : α → Bool} {f : α → β} (l : List α) :
    ∀ {l' : List α}, l'.length = l.length →
      (∀ (i : ℕ) a b, a ∈ l[i]? → b ∈ l'[i]? → p b = p a) →
      ((l'.filter p).map f = (l.filter p).map f ↔
        ∀ (i : ℕ) a b, a ∈ l[i]? → b ∈ l'[i]? → p a → f b = f a) := by
  induction l with
  | nil =>
    intro l' hlen _
    cases List.length_eq_zero_iff.mp hlen
    exact iff_of_true rfl fun i a b ha => absurd ha (by simp)
  | cons a l ih =>
    intro l' hlen hp
    cases l' with
    | nil => exact absurd hlen (by simp)
    | cons b l' =>
      have hhead : p b = p a := hp 0 a b rfl rfl
      have htail := ih (Nat.succ_injective hlen) fun i a' b' ha hb => hp (i + 1) a' b' ha hb
      have hsplit : (∀ (i : ℕ) a' b', a' ∈ (a :: l)[i]? → b' ∈ (b :: l')[i]? → p a' → f b' = f a') ↔
          (p a → f b = f a) ∧
            ∀ (i : ℕ) a' b', a' ∈ l[i]? → b' ∈ l'[i]? → p a' → f b' = f a' := by
        constructor
        · intro h
          exact ⟨h 0 a b rfl rfl, fun i => h (i + 1)⟩
        · intro h i a' b' ha hb
          cases i with
          | zero =>
            cases Option.some_inj.mp ha
            cases Option.some_inj.mp hb
            exact h.1
          | succ i => exact h.2 i a' b' ha hb
      rw [hsplit, ← htail]
      by_cases hpa : p a
      · rw [List.filter_cons_of_pos hpa, List.filter_cons_of_pos (hhead.trans hpa), List.map_cons,
          List.map_cons, List.cons.injEq, forall_prop_of_true hpa]
      · rw [List.filter_cons_of_neg hpa, List.filter_cons_of_neg fun hc => hpa (hhead ▸ hc),
          forall_prop_of_false hpa, true_and]

/-- The number that a marked symbol gets. -/
theorem getElem?_filter_countP {α : Type*} {p : α → Bool} {l : List α} {i : ℕ} {a : α}
    (ha : a ∈ l[i]?) (hp : p a) : (l.filter p)[(l.take i).countP p]? = some a := by
  obtain ⟨hlt, rfl⟩ := List.getElem?_eq_some_iff.mp ha
  have hsplit : l.filter p = (l.take i).filter p ++ l[i] :: (l.drop (i + 1)).filter p := by
    conv_lhs => rw [← List.take_append_drop i l, List.drop_eq_getElem_cons hlt,
      List.filter_append, List.filter_cons_of_pos hp]
  rw [hsplit, List.countP_eq_length_filter, List.getElem?_append_right le_rfl, Nat.sub_self]
  rfl

section

variable {o : Obj} {now : List Nlist} {rs : List RelocationInfo} {r : RelocationInfo}
  {s t : Nlist}

/-- The name and the mark of a symbol stay. -/
theorem After.kept (h : After o.syms rs now) {i : ℕ} (hs : s ∈ o.syms[i]?) (ht : t ∈ now[i]?) :
    t.strx = s.strx ∧ t.other = s.other := by
  by_cases href : Referred o.syms rs i
  · exact ⟨(h.used i s t hs ht href).strx, (h.used i s t hs ht href).other⟩
  · rw [h.same i href] at ht
    cases Option.mem_unique hs ht
    exact ⟨rfl, rfl⟩

theorem After.marked (h : After o.syms rs now) (i : ℕ) (s t : Nlist) (hs : s ∈ o.syms[i]?)
    (ht : t ∈ now[i]?) : t.marked = s.marked := by
  unfold Nlist.marked
  rw [(h.kept hs ht).2]

theorem After.markedNames (h : After o.syms rs now) :
    markedNames o.strings now = markedNames o.strings o.syms := by
  refine (filter_map_eq_iff o.syms h.length h.marked).mpr fun i s t hs ht _ => ?_
  rw [(h.kept hs ht).1]

theorem After.namesFit (h : After o.syms rs now) :
    NamesFit o.strings now ↔ NamesFit o.strings o.syms := by
  unfold NamesFit stringsSize
  rw [h.markedNames]

/-- A marked symbol that resolves a relocation. -/
theorem resolves_marked (hr : r.isExtern) (hs : s ∈ o.syms[r.symbolnum.toNat]?) (hm : s.marked) :
    Resolves o.syms r ↔ s.type ≠ nExt := by
  have hother : s.other = 1 := of_decide_eq_true hm
  rw [resolves_iff hr hs]
  constructor
  · intro h htype
    by_cases hvalue : s.value = 0
    · exact h.1 ⟨htype, hvalue⟩
    · exact h.2 ⟨htype, hvalue, hother⟩
  · intro h
    exact ⟨fun hc => h hc.1, fun hc => h hc.1⟩

/-- The marked symbols keep their types exactly if none of them loses `N_EXT`. -/
theorem After.infos_iff (h : After o.syms (o.trel ++ o.drel) now) :
    (now.filter Nlist.marked).map (Nlist.info o.strings) =
        (o.syms.filter Nlist.marked).map (Nlist.info o.strings) ↔ TypesStay o := by
  rw [filter_map_eq_iff o.syms h.length h.marked]
  constructor
  · intro hall r hr hext s hs hm
    by_cases htype : s.type = nExt
    · exact .inl htype
    · have href : Referred o.syms (o.trel ++ o.drel) r.symbolnum.toNat :=
        ⟨r, hr, (resolves_marked hext hs hm).mpr htype, rfl⟩
      have hlt := (List.getElem?_eq_some_iff.mp hs).1
      rw [← h.length] at hlt
      have ht : now[r.symbolnum.toNat] ∈ now[r.symbolnum.toNat]? := List.getElem?_eq_getElem hlt
      have hinfo := congrArg (fun x : Option (List UChar) × UChar × ULong => x.2.1)
        (hall _ s _ hs ht hm)
      have hsegment : s.segment = s.type &&& ~~~nExt := if_neg htype
      rw [← hsegment, ← (h.used _ s _ hs ht href).type]
      exact .inr hinfo
  · intro hstay i s t hs ht hm
    by_cases href : Referred o.syms (o.trel ++ o.drel) i
    · have hused := h.used i s t hs ht href
      obtain ⟨r, hr, hres, rfl⟩ := href
      have htype := (resolves_marked hres.1 hs hm).mp hres
      have hsegment : s.segment = s.type &&& ~~~nExt := if_neg htype
      unfold Nlist.info
      rw [hused.strx, hused.type, hused.value (of_decide_eq_true hm), hsegment,
        (hstay r hr hres.1 s hs hm).resolve_left htype]
    · rw [h.same i href] at ht
      rw [Option.mem_unique hs ht]

end

/-! ## Relocations -/

section

variable {o o' : Obj} {now : List Nlist} {rs : List RelocationInfo} {r : RelocationInfo}
  {s : Nlist}

/-- The symbol of a given name. -/
theorem symbol_iff (hnames : o'.syms.map (fun s => nameAt o'.strings s.strx) =
      markedNames o.strings o.syms) (n : ℕ) (name : Option (List UChar)) :
    (∃ s' ∈ o'.syms[n]?, nameAt o'.strings s'.strx = name) ↔
      (markedNames o.strings o.syms)[n]? = some name := by
  rw [← hnames, List.getElem?_map, Option.map_eq_some_iff]
  rfl

/-- A relocation that is resolved, or is not external. -/
theorem relocKept_target (h : ¬(target o.syms r).isExtern) (hfits : Fits o.syms n r) :
    RelocKept o o' r (target o.syms r) := by
  constructor
  · intro hext
    exact absurd hext h
  · intro _ hext
    obtain ⟨s, hs, -⟩ := hfits hext
    by_cases hres : Resolves o.syms r
    · exact ⟨s, hs, by rw [target_of_resolves hres hs]⟩
    · rw [target_of_not_resolves hres] at h
      exact absurd hext h
  · intro hext
    exact target_of_not_resolves fun hc => hext hc.1

/-- A relocation that still is external refers to a common symbol that is kept. -/
theorem common_of_isExtern (hext : (target o.syms r).isExtern) (hfits : Fits o.syms n r)
    (herr : ¬IsError o.syms r) :
    target o.syms r = r ∧ r.isExtern ∧ ∃ s ∈ o.syms[r.symbolnum.toNat]?, s.Common := by
  have hres : ¬Resolves o.syms r := by
    intro hres
    obtain ⟨-, s, hs, -⟩ := id hres
    rw [target_of_resolves hres hs] at hext
    exact absurd hext Bool.false_ne_true
  rw [target_of_not_resolves hres] at hext
  obtain ⟨s, hs, -⟩ := hfits hext
  refine ⟨target_of_not_resolves hres, hext, s, hs, ?_⟩
  by_contra hcommon
  exact hres ((resolves_iff hext hs).mpr ⟨fun hc => herr ((isError_iff hext hs).mpr hc), hcommon⟩)

theorem Nlist.Common.marked (h : s.Common) : s.marked := decide_eq_true h.2.2

/-- Relocations of the text. -/
theorem relocKept_text (hnames : o'.syms.map (fun s => nameAt o'.strings s.strx) =
      markedNames o.strings o.syms) (h : After o.syms rs now) (hfits : Fits o.syms n r)
    (herr : ¬IsError o.syms r) : RelocKept o o' r (renumbered now (target o.syms r)) := by
  by_cases hext : (target o.syms r).isExtern
  · obtain ⟨htarget, hr, s, hs, hcommon⟩ := common_of_isExtern hext hfits herr
    have hnow : s ∈ now[r.symbolnum.toNat]? := h.stays hs (.inr hcommon)
    have hnew : renumbered now r =
        { r with
          symbolnum := BitVec.ofNat 24 ((now.take r.symbolnum.toNat).countP Nlist.marked) } :=
      if_pos ⟨hr, s, hnow, hcommon.marked⟩
    rw [htarget, hnew]
    refine ⟨fun _ => ⟨hr, s, hs, ?_⟩, fun hc => absurd hr hc, fun hc => absurd hr hc⟩
    rw [symbol_iff hnames, (countP_take_lt r.symbolnum now).2, ← h.markedNames, markedNames,
      List.getElem?_map, getElem?_filter_countP hnow hcommon.marked]
    rfl
  · rw [renumbered_of_not_isExtern hext]
    exact relocKept_target hext hfits

/-- Relocations of the data. -/
theorem relocKept_data (hnames : o'.syms.map (fun s => nameAt o'.strings s.strx) =
      markedNames o.strings o.syms) (hfits : Fits o.syms n r) (herr : ¬IsError o.syms r) :
    RelocKept o o' r (target o.syms r) ↔
      (r.isExtern → ∀ s ∈ o.syms[r.symbolnum.toNat]?, s.Common →
        (markedNames o.strings o.syms)[r.symbolnum.toNat]? = some (nameAt o.strings s.strx)) := by
  by_cases hext : (target o.syms r).isExtern
  · obtain ⟨htarget, hr, s, hs, hcommon⟩ := common_of_isExtern hext hfits herr
    rw [htarget]
    constructor
    · intro h _ s' hs' _
      obtain ⟨-, s₁, hs₁, hsame⟩ := h.still hr
      cases Option.mem_unique hs' hs₁
      exact (symbol_iff hnames _ _).mp hsame
    · intro h
      exact ⟨fun _ => ⟨hr, s, hs, (symbol_iff hnames _ _).mpr (h hr s hs hcommon)⟩,
        fun hc => absurd hr hc, fun hc => absurd hr hc⟩
  · refine iff_of_true (relocKept_target hext hfits) fun hr s hs hcommon => ?_
    have hres : ¬Resolves o.syms r := fun hc => ((resolves_iff hr hs).mp hc).2 hcommon
    rw [target_of_not_resolves hres] at hext
    exact absurd hr hext

end

/-! ## Objects -/

/-- An object whose relocations all are fixed. -/
theorem stripped_iff {o o' : Obj} {now : List Nlist}
    (h : After o.syms (o.trel ++ o.drel) now)
    (hinfos : o'.syms.map (Nlist.info o'.strings) =
      (now.filter Nlist.marked).map (Nlist.info o.strings))
    (htrel : o'.trel = (o.trel.map (target o.syms)).map (renumbered now))
    (hdrel : o'.drel = o.drel.map (target o.syms))
    (hfits : ∀ r ∈ o.trel, Fits o.syms o.text.length r)
    (hfits' : ∀ r ∈ o.drel, Fits o.syms o.data.length r)
    (herr : ¬∃ r ∈ o.trel, IsError o.syms r) (herr' : ¬∃ r ∈ o.drel, IsError o.syms r) :
    Stripped o o' ↔ TypesStay o ∧ DataInPlace o := by
  have hnames : o'.syms.map (fun s => nameAt o'.strings s.strx) =
      markedNames o.strings o.syms := by
    have hfst := congrArg (List.map Prod.fst) hinfos
    rw [List.map_map, List.map_map] at hfst
    rw [← h.markedNames]
    exact hfst
  have htext : List.Forall₂ (RelocKept o o') o.trel o'.trel := by
    rw [htrel, List.map_map, List.forall₂_map_right_iff, List.forall₂_same]
    intro r hr
    exact relocKept_text hnames h (hfits r hr) fun hc => herr ⟨r, hr, hc⟩
  have hdata : List.Forall₂ (RelocKept o o') o.drel o'.drel ↔ DataInPlace o := by
    rw [hdrel, List.forall₂_map_right_iff, List.forall₂_same]
    exact forall₂_congr fun r hr =>
      relocKept_data hnames (hfits' r hr) fun hc => herr' ⟨r, hr, hc⟩
  rw [← hdata, ← h.infos_iff, ← hinfos]
  constructor
  · intro hs
    exact ⟨hs.syms, hs.data⟩
  · intro hs
    exact ⟨hs.1, htext, hs.2⟩

/-- **Stripping.** An object is stripped as is meant, or the program ends with an error message,
exactly if the object is `Strippable`. -/
theorem meets_iff (o : Obj) : Meets o ↔ Strippable o := by
  unfold Meets Strippable strip
  by_cases hfits : ∀ r ∈ o.trel, Fits o.syms o.text.length r
  · rw [and_iff_right hfits]
    obtain ⟨now, bss, text, heq, hafter, -⟩ := fixRelocs_ok (After.start o.syms) hfits
    rw [heq]
    by_cases herr : ∃ r ∈ o.trel, IsError o.syms r
    · rw [if_pos herr]
      exact iff_of_true trivial (.inl herr)
    · rw [if_neg herr, or_iff_right herr]
      dsimp only [Except.bind]
      by_cases hfits' : ∀ r ∈ o.drel, Fits o.syms o.data.length r
      · rw [and_iff_right hfits']
        obtain ⟨now', bss', data, heq', hafter', -⟩ := fixRelocs_ok
          (o := { o with
            syms := now
            bss := bss
            trel := o.trel.map (target o.syms)
            text := text }) hafter hfits'
        rw [heq']
        by_cases herr' : ∃ r ∈ o.drel, IsError o.syms r
        · rw [if_pos herr']
          exact iff_of_true trivial (.inl herr')
        · rw [if_neg herr', or_iff_right herr']
          dsimp only
          rw [List.nil_append] at hafter'
          rcases doStrip_cases
            { o with
              syms := now'
              bss := bss'
              trel := o.trel.map (target o.syms)
              drel := o.drel.map (target o.syms)
              text := text
              data := data } with
            ⟨o', hstrip, hnames, hinfos, htrel, hdrel⟩ | ⟨hstrip, hnames⟩
          · rw [hstrip, and_iff_right (hafter'.namesFit.mp hnames)]
            exact stripped_iff hafter' hinfos htrel hdrel hfits hfits' herr herr'
          · rw [hstrip]
            exact iff_of_false id fun hc => hnames (hafter'.namesFit.mpr hc.1)
      · rw [fixRelocs_outside (o := { o with
            syms := now
            bss := bss
            trel := o.trel.map (target o.syms)
            text := text }) hafter hfits']
        exact iff_of_false id fun hc => hfits' hc.1
  · rw [fixRelocs_outside (After.start o.syms) hfits]
    exact iff_of_false id fun hc => hfits hc.1

/-- `_a`, a symbol of the data, and the common symbol `_k`, which is marked and which the word of
the data refers to. -/
def pointerObject : Obj where
  text := []
  data := [0, 0, 0, 0]
  bss := 0
  trel := []
  drel := [{ address := 0, symbolnum := 1, isExtern := true }]
  syms :=
    [{ strx := 4, type := 6, other := 0, value := 0 },
      { strx := 7, type := 1, other := 1, value := 4 }]
  strings := [10, 0, 0, 0, 95, 97, 0, 95, 107, 0]
  strings_lt := by decide

/-- The relocation of the data still has the number 1, and the only symbol has the number 0. -/
theorem strip_pointerObject : ¬Meets pointerObject := by
  have heq : strip pointerObject = .ok
      { pointerObject with
        syms := [{ strx := 4, type := 1, other := 0, value := 4 }]
        strings := [7, 0, 0, 0, 95, 107, 0]
        strings_lt := by decide } := by decide +kernel
  unfold Meets
  rw [heq]
  intro h
  have hreloc := (List.forall₂_cons.mp h.data).1
  obtain ⟨-, s, -, s', hs', -⟩ := hreloc.still rfl
  exact absurd (Option.mem_def.mp hs') (by simp)

end Vmm386.Modules.Strip
