import Vmm386.Lib.Bits
import Vmm386.Lib.Runs
import Vmm386.Vkbd.ShiftFocus

/-!
# Shift keys behind the focus

Each function of the virtual keyboard delivers scan codes that decode to the change of the shift
state that it is called for, apart from the codes of the right alt key on a switch, and those of
the up arrow in three of the four tables.
-/

namespace Vmm386.VkbdModule

open Kbd Runs

/-! ## Decoding -/

/-- The keys that scan codes complete, with their up codes. -/
def decodeKeys : ℕ → List UChar → ℕ × List (UChar × UChar)
  | prev, [] => (prev, [])
  | prev, b :: bs =>
    let r := scanKey prev b
    let q := decodeKeys r.1 bs
    (q.1, if r.2 = 0 then q.2 else (r.2, b &&& 0x80) :: q.2)

/-- The shift keys among them. -/
def shiftKeys (bs : List UChar) : List (UChar × UChar) :=
  (decodeKeys 0 bs).2.filter fun k => (shiftMask k.1).isSome

theorem foldl_decodeCode (bs : List UChar) (prev : ℕ) (shiftState : ULong) :
    bs.foldl decodeCode (prev, shiftState) = ((decodeKeys prev bs).1,
      (decodeKeys prev bs).2.foldl (fun s k => shiftAfter s k.1 k.2) shiftState) := by
  induction bs generalizing prev shiftState with
  | nil => rfl
  | cons b bs ih =>
    rw [List.foldl_cons, decodeCode, ih, decodeKeys]
    dsimp only
    by_cases hkey : (scanKey prev b).2 = 0
    · rw [if_pos hkey, if_pos hkey]
    · rw [if_neg hkey, if_neg hkey, List.foldl_cons]

theorem foldl_shiftAfter (keys : List (UChar × UChar)) (shiftState : ULong) :
    keys.foldl (fun s k => shiftAfter s k.1 k.2) shiftState =
      (keys.filter fun k => (shiftMask k.1).isSome).foldl (fun s k => shiftAfter s k.1 k.2)
        shiftState := by
  induction keys generalizing shiftState with
  | nil => rfl
  | cons k keys ih =>
    rw [List.foldl_cons, ih]
    cases hmask : shiftMask k.1 with
    | none =>
      have hsame : shiftAfter shiftState k.1 k.2 = shiftState := by rw [shiftAfter, hmask]
      rw [List.filter_cons_of_neg (by rw [hmask]; decide), hsame]
    | some mask => rw [List.filter_cons_of_pos (by rw [hmask]; rfl), List.foldl_cons]

/-- The codes say what the key does to the shift state, and nothing else. -/
def Faithful (bs : List UChar) (keyCode upCode : UChar) : Prop :=
  (decodeKeys 0 bs).1 = 0 ∧
    shiftKeys bs = if (shiftMask keyCode).isSome then [(keyCode, upCode)] else []

instance (bs : List UChar) (keyCode upCode : UChar) : Decidable (Faithful bs keyCode upCode) :=
  inferInstanceAs (Decidable (_ ∧ _))

theorem Faithful.decode {bs : List UChar} {keyCode upCode : UChar}
    (h : Faithful bs keyCode upCode) (shiftState : ULong) :
    bs.foldl decodeCode (0, shiftState) = (0, shiftAfter shiftState keyCode upCode) := by
  rw [foldl_decodeCode, foldl_shiftAfter, h.1]
  have hkeys := h.2
  rw [shiftKeys] at hkeys
  rw [hkeys]
  cases hmask : shiftMask keyCode with
  | none =>
    rw [shiftAfter, hmask]
    rfl
  | some mask => rfl

/-! ## Keys -/

/-- The scan codes for a key. -/
def keyCodes (shiftState : ULong) (lockState keyCode upCode : UChar) : List UChar :=
  if keyCode < 0x60 then [keyCode ||| upCode]
  else
    ((Vkbd.remapTable shiftState lockState upCode).getD (keyCode - 0x60).toNat none).getD []

/-- The scan codes of an entry. -/
def entryCodes (table : List (Option Str)) (k : ℕ) : List UChar := (table.getD k none).getD []

/-- A key below `0x60`, a key of the tables that goes up, and one that goes down. -/
theorem codes_faithful :
    (∀ upCode ∈ ([0, 0x80] : List UChar), ∀ k < 0x60, 0 < k →
      Faithful [BitVec.ofNat 8 k ||| upCode] (BitVec.ofNat 8 k) upCode) ∧
    (∀ table ∈ [plainE0UpRemap, numLockE0UpRemap, leftShiftE0UpRemap, rightShiftE0UpRemap],
      ∀ k < 32, Faithful (entryCodes table k) (BitVec.ofNat 8 (0x60 + k)) 0x80) ∧
    (∀ k < 32, Faithful (entryCodes plainE0DownRemap k) (BitVec.ofNat 8 (0x60 + k)) 0) ∧
    ∀ table ∈ [numLockE0DownRemap, leftShiftE0DownRemap, rightShiftE0DownRemap],
      ∀ k < 32, k ≠ 7 → Faithful (entryCodes table k) (BitVec.ofNat 8 (0x60 + k)) 0 := by
  decide +kernel

/-! ## What is delivered -/

namespace Vkbd

variable {vk vk₁ vk₂ : Vkbd} {bs bs' : List UChar}

/-- If no scan code is lost, the codes were entered. -/
def Delivers (vk : Vkbd) (bs : List UChar) (vk' : Vkbd) : Prop :=
  vk'.NoOverflow → vk.NoOverflow ∧ codes vk'.log = codes vk.log ++ bs

theorem delivers_of_log_eq (hlog : vk₁.log = vk.log) : vk.Delivers [] vk₁ := by
  intro hno
  rw [NoOverflow, hlog] at hno
  rw [hlog, List.append_nil]
  exact ⟨hno, rfl⟩

theorem Delivers.trans (h : vk.Delivers bs vk₁) (h' : vk₁.Delivers bs' vk₂) :
    vk.Delivers (bs ++ bs') vk₂ := by
  intro hno
  have h₁ := h' hno
  have h₀ := h h₁.1
  refine ⟨h₀.1, ?_⟩
  rw [h₁.2, h₀.2, List.append_assoc]

theorem delivers_vkbdIn (vk : Vkbd) (val : ULong) :
    vk.Delivers [val.truncate 8] (vk.vkbdIn val) := by
  unfold vkbdIn
  dsimp only
  split
  · intro hno
    exact absurd List.mem_cons_self (hno val)
  · intro hno
    exact ⟨fun v hv => hno v (List.mem_cons_of_mem _ hv), rfl⟩

/-- The codes of a conditional step. -/
theorem Delivers.ite {p : Prop} [Decidable p] (h : vk.Delivers bs vk₁) :
    vk.Delivers (if p then bs else []) (if p then vk₁ else vk) := by
  by_cases hp : p
  · rw [if_pos hp, if_pos hp]
    exact h
  · rw [if_neg hp, if_neg hp]
    exact delivers_of_log_eq rfl

/-! ### What is entered -/

theorem truncate_cookedBits (cooked : Option Str) : (cookedBits cooked).truncate 8 = 0#8 := by
  cases cooked with
  | none => rfl
  | some str =>
    refine BitVec.eq_of_getLsbD_eq fun i hi => ?_
    simp [cookedBits, hi]

/-- The low byte of what is entered for a scan code. -/
theorem truncate_entry {vkFlags : ULong} (hflags : vkFlags.truncate 8 = 0#8)
    (cooked : Option Str) (val : ULong) :
    (vkFlags ||| cookedBits cooked ||| val).truncate 8 = val.truncate 8 := by
  have hcooked := truncate_cookedBits cooked
  rw [BitVec.truncate_eq_setWidth] at *
  rw [BitVec.setWidth_or, BitVec.setWidth_or, hflags, hcooked, BitVec.or_zero, BitVec.zero_or]

theorem truncate_signExtend (c : UChar) : (c.signExtend 32).truncate 8 = c := by
  refine BitVec.eq_of_getLsbD_eq fun i hi => ?_
  rw [BitVec.truncate_eq_setWidth, BitVec.getLsbD_setWidth, BitVec.getLsbD_signExtend, if_pos hi,
    decide_eq_true hi, decide_eq_true (Nat.lt_trans hi (by decide : 8 < 32)), Bool.true_and,
    Bool.true_and]

theorem truncate_zeroExtend (x : UChar) : (x.zeroExtend 32 : ULong).truncate 8 = x := by
  simp

theorem truncate_zeroExtend_or (a b : UChar) :
    (a.zeroExtend 32 ||| b.zeroExtend 32 : ULong).truncate 8 = a ||| b := by
  rw [BitVec.truncate_eq_setWidth, BitVec.setWidth_or]
  simp

theorem delivers_enterCodes {vkFlags : ULong} (hflags : vkFlags.truncate 8 = 0#8) (bs : Str) :
    ∀ (cooked : Option Str) (vk : Vkbd), vk.Delivers bs (enterCodes vkFlags cooked bs vk) := by
  induction bs with
  | nil => exact fun cooked vk => delivers_of_log_eq rfl
  | cons c bs ih =>
    intro cooked vk
    have hfirst := delivers_vkbdIn vk (vkFlags ||| cookedBits cooked ||| c.signExtend 32)
    rw [truncate_entry hflags, truncate_signExtend] at hfirst
    exact hfirst.trans (ih none _)

/-- The scan codes of `vkbd_switch_from`. -/
def switchFromCodes (shiftState : ULong) : List UChar :=
  (if shiftState &&& S_LEFT_SHIFT ≠ 0 then [0xaa] else []) ++
  (if shiftState &&& S_RIGHT_SHIFT ≠ 0 then [0xb6] else []) ++
  (if shiftState &&& S_LEFT_ALT ≠ 0 then [0xb8] else []) ++
  (if shiftState &&& S_RIGHT_ALT ≠ 0 then [0xe0, 0xb8] else []) ++
  (if shiftState &&& S_LEFT_CTRL ≠ 0 then [0x9d] else []) ++
  (if shiftState &&& S_RIGHT_CTRL ≠ 0 then [0xe0, 0x9d] else [])

/-- The scan codes of `vkbd_switch_to`. -/
def switchToCodes (shiftState : ULong) : List UChar :=
  (if shiftState &&& S_LEFT_SHIFT ≠ 0 then [0x2a] else []) ++
  (if shiftState &&& S_RIGHT_SHIFT ≠ 0 then [0x36] else []) ++
  (if shiftState &&& S_LEFT_ALT ≠ 0 then [0x38] else []) ++
  (if shiftState &&& S_RIGHT_ALT ≠ 0 then [0xe0, 0x18] else []) ++
  (if shiftState &&& S_LEFT_CTRL ≠ 0 then [0x1d] else []) ++
  (if shiftState &&& S_RIGHT_CTRL ≠ 0 then [0xe0, 0x1d] else [])

/-- The codes that take the focus away release every key, and those that give it press every key
except the right alt key. -/
theorem decode_switchCodes : ∀ n < 64,
    (switchFromCodes (BitVec.ofNat 32 n)).foldl decodeCode (0, BitVec.ofNat 32 n) = (0, 0) ∧
      (BitVec.ofNat 32 n &&& S_RIGHT_ALT = 0 →
        (switchToCodes (BitVec.ofNat 32 n)).foldl decodeCode (0, 0) = (0, BitVec.ofNat 32 n)) := by
  decide +kernel

theorem decode_switchFromCodes {shiftState : ULong} (hlt : shiftState.toNat < 64) :
    (switchFromCodes shiftState).foldl decodeCode (0, shiftState) = (0, 0) := by
  have hshift := (decode_switchCodes _ hlt).1
  rwa [BitVec.ofNat_toNat, BitVec.setWidth_eq] at hshift

theorem decode_switchToCodes {shiftState : ULong} (hlt : shiftState.toNat < 64)
    (halt : shiftState &&& S_RIGHT_ALT = 0) :
    (switchToCodes shiftState).foldl decodeCode (0, 0) = (0, shiftState) := by
  have hshift := (decode_switchCodes _ hlt).2
  rw [BitVec.ofNat_toNat, BitVec.setWidth_eq] at hshift
  exact hshift halt

/-! ### The functions of a virtual keyboard -/

theorem enterCodes_lockState (vkFlags : ULong) (bs : Str) :
    ∀ (cooked : Option Str) (vk : Vkbd), (enterCodes vkFlags cooked bs vk).lockState =
      vk.lockState := by
  induction bs with
  | nil => exact fun _ _ => rfl
  | cons c bs ih =>
    intro cooked vk
    rw [enterCodes, ih]
    unfold vkbdIn
    dsimp only
    split <;> rfl

/-- The lock state that the scan codes of a key are looked up with. -/
def lockAfter (vk : Vkbd) (keyCode upCode : UChar) : UChar :=
  if upCode = 0 then
    (CookedKbd.toggleLockState keyCode (vk.lockState.zeroExtend 32)).truncate 8
  else vk.lockState

/-- From the key and its flags on. -/
theorem delivers_key {vkFlags : ULong} (hflags : vkFlags.truncate 8 = 0#8) (vk : Vkbd)
    (cooked : Option Str) (shiftState : ULong) (keyCode upCode : UChar) :
    vk.Delivers (keyCodes shiftState vk.lockState keyCode upCode)
      (if keyCode < 0x60 then
        vk.vkbdIn (vkFlags ||| cookedBits cooked ||| keyCode.zeroExtend 32 |||
          upCode.zeroExtend 32)
      else
        match (remapTable shiftState vk.lockState upCode).getD (keyCode - 0x60).toNat none with
        | some codes => enterCodes vkFlags cooked codes vk
        | none => vk) := by
  unfold keyCodes
  by_cases hdirect : keyCode < 0x60
  · rw [if_pos hdirect, if_pos hdirect, BitVec.or_assoc]
    have hin := delivers_vkbdIn vk (vkFlags ||| cookedBits cooked |||
      (keyCode.zeroExtend 32 ||| upCode.zeroExtend 32))
    rwa [truncate_entry hflags, truncate_zeroExtend_or] at hin
  · rw [if_neg hdirect, if_neg hdirect]
    cases (remapTable shiftState vk.lockState upCode).getD (keyCode - 0x60).toNat none with
    | some bs => exact delivers_enterCodes hflags bs cooked vk
    | none => exact delivers_of_log_eq rfl

theorem delivers_useKey (vk : Vkbd) (keymap : Keymap) (shiftState : ULong)
    (keyCode upCode : UChar) :
    vk.Delivers (keyCodes shiftState (vk.lockAfter keyCode upCode) keyCode upCode)
      (vk.useKey keymap shiftState keyCode upCode) := by
  unfold useKey lockAfter
  dsimp only
  by_cases hup : upCode = 0
  · simp only [if_pos hup]
    have hflags : (if IsShift keyCode then VK_BUF_SHIFT else 0).truncate 8 = 0#8 := by
      split <;> rfl
    exact (delivers_of_log_eq rfl).trans (delivers_key hflags _ _ shiftState keyCode upCode)
  · simp only [if_neg hup]
    exact (delivers_of_log_eq rfl).trans
      (delivers_key (by rfl) { vk with shiftState } none shiftState keyCode upCode)

theorem delivers_switchFrom (vk : Vkbd) (shiftState : ULong) :
    vk.Delivers (switchFromCodes shiftState) (vk.switchFrom shiftState) := by
  unfold switchFrom switchFromCodes
  dsimp only
  refine Delivers.trans ?_ (Delivers.ite ((delivers_vkbdIn _ 0xe0).trans (delivers_vkbdIn _ 0x9d)))
  refine Delivers.trans ?_ (Delivers.ite (delivers_vkbdIn _ 0x9d))
  refine Delivers.trans ?_ (Delivers.ite ((delivers_vkbdIn _ 0xe0).trans (delivers_vkbdIn _ 0xb8)))
  refine Delivers.trans ?_ (Delivers.ite (delivers_vkbdIn _ 0xb8))
  refine Delivers.trans ?_ (Delivers.ite (delivers_vkbdIn _ 0xb6))
  exact Delivers.ite (delivers_vkbdIn _ 0xaa)

theorem delivers_switchTo (vk : Vkbd) (shiftState : ULong) :
    vk.Delivers (switchToCodes shiftState) (vk.switchTo shiftState) := by
  unfold switchTo switchToCodes
  dsimp only
  refine Delivers.trans ?_ (Delivers.ite ((delivers_vkbdIn _ 0xe0).trans (delivers_vkbdIn _ 0x1d)))
  refine Delivers.trans ?_ (Delivers.ite (delivers_vkbdIn _ 0x1d))
  refine Delivers.trans ?_ (Delivers.ite ((delivers_vkbdIn _ 0xe0).trans (delivers_vkbdIn _ 0x18)))
  refine Delivers.trans ?_ (Delivers.ite (delivers_vkbdIn _ 0x38))
  refine Delivers.trans ?_ (Delivers.ite (delivers_vkbdIn _ 0x36))
  exact Delivers.ite (delivers_vkbdIn _ 0x2a)

theorem delivers_readPort (vk : Vkbd) : vk.Delivers [] (vk.readPort 0x60 1).2 := by
  unfold readPort
  rw [if_neg (by decide), if_pos rfl]
  split
  · exact delivers_of_log_eq rfl
  · have hlog : vk.vkbdOut.2.log = .read (vk.buf vk.outPos) :: vk.log := by
      unfold vkbdOut
      dsimp only
      split <;> rfl
    intro hno
    refine ⟨fun v hv => hno v ?_, ?_⟩
    · rw [hlog]
      exact List.mem_cons_of_mem _ hv
    · rw [hlog, codes, List.append_nil]
      exact fun val h => RingEvent.noConfusion h

end Vkbd
theorem remapTable_up (shiftState : ULong) (lockState : UChar) :
    Vkbd.remapTable shiftState lockState 0x80 ∈ [plainE0UpRemap, numLockE0UpRemap,
      leftShiftE0UpRemap, rightShiftE0UpRemap] := by
  have hup : (0x80 : UChar) ≠ 0 := by decide
  unfold Vkbd.remapTable
  simp only [if_pos hup]
  split_ifs
  all_goals simp only [List.mem_cons, true_or, or_true]

theorem remapTable_down (shiftState : ULong) (lockState : UChar) :
    Vkbd.remapTable shiftState lockState 0 = plainE0DownRemap ∨
      Vkbd.remapTable shiftState lockState 0 ∈ [numLockE0DownRemap, leftShiftE0DownRemap,
        rightShiftE0DownRemap] ∧
      ¬(lockState.zeroExtend 32 &&& L_NUM_LOCK ≠ 0 ↔ shiftState &&& S_SHIFT ≠ 0) := by
  have hdown : ¬(0 : UChar) ≠ 0 := by decide
  have hshift : ∀ mask, S_SHIFT &&& mask = mask → shiftState &&& mask ≠ 0 →
      shiftState &&& S_SHIFT ≠ 0 := by
    intro mask hmask hne hzero
    refine hne ?_
    rw [← hmask, ← BitVec.and_assoc, hzero]
    exact BitVec.zero_and
  have hboth : S_RIGHT_SHIFT ||| S_LEFT_SHIFT = S_SHIFT := rfl
  unfold Vkbd.remapTable
  simp only [if_neg hdown, hboth]
  split_ifs with hplain hnum hleft hright
  · exact Or.inl rfl
  · refine Or.inr ⟨?_, fun hiff => hplain ⟨hiff.mp hnum, hnum⟩⟩
    simp only [List.mem_cons, true_or]
  · refine Or.inr ⟨?_, fun hiff => hnum (hiff.mpr (hshift _ rfl hleft))⟩
    simp only [List.mem_cons, true_or, or_true]
  · refine Or.inr ⟨?_, fun hiff => hnum (hiff.mpr (hshift _ rfl hright))⟩
    simp only [List.mem_cons, true_or, or_true]
  · exact Or.inl rfl

/-- The scan codes of a key. -/
theorem keyCodes_faithful {shiftState : ULong} {lockState keyCode upCode : UChar}
    (hkey : keyCode ≠ 0) (hlt : keyCode.toNat < 0x80) (hup : upCode = 0 ∨ upCode = 0x80)
    (hok : keyCode = K_E0_UP → upCode = 0 →
      (lockState.zeroExtend 32 &&& L_NUM_LOCK ≠ 0 ↔ shiftState &&& S_SHIFT ≠ 0)) :
    Faithful (keyCodes shiftState lockState keyCode upCode) keyCode upCode := by
  have hself : BitVec.ofNat 8 keyCode.toNat = keyCode := by
    rw [BitVec.ofNat_toNat, BitVec.setWidth_eq]
  unfold keyCodes
  by_cases hdirect : keyCode < 0x60
  · have hfaithful := codes_faithful.1 upCode (by simpa using hup) keyCode.toNat hdirect
      (Nat.pos_of_ne_zero fun hzero => hkey (BitVec.eq_of_toNat_eq hzero))
    rw [if_pos hdirect]
    rwa [hself] at hfaithful
  · rw [if_neg hdirect]
    obtain ⟨k, hk, hindex, hsum⟩ : ∃ k < 32, (keyCode - 0x60).toNat = k ∧
        BitVec.ofNat 8 (0x60 + k) = keyCode := by
      have hge : 0x60 ≤ keyCode.toNat := Nat.le_of_not_lt hdirect
      refine ⟨keyCode.toNat - 0x60, by omega, ?_, ?_⟩
      · rw [BitVec.toNat_sub_of_le hge]
        rfl
      · rw [Nat.add_sub_cancel' hge, hself]
    rw [hindex]
    cases hup with
    | inr hup =>
      have hfaithful := codes_faithful.2.1 _ (remapTable_up shiftState lockState) k hk
      rw [hsum] at hfaithful
      rw [hup]
      exact hfaithful
    | inl hup =>
      rw [hup]
      cases remapTable_down shiftState lockState with
      | inl hplain =>
        have hfaithful := codes_faithful.2.2.1 k hk
        rw [hsum] at hfaithful
        rw [hplain]
        exact hfaithful
      | inr hother =>
        have hne : k ≠ 7 := by
          intro hseven
          refine hother.2 (hok ?_ hup)
          rw [← hsum, hseven]
          rfl
        have hfaithful := codes_faithful.2.2.2 _ hother.1 k hk hne
        rw [hsum] at hfaithful
        exact hfaithful

/-! ## The handler -/

theorem scanKey_lt (prev : ℕ) (scanCode : UChar) : (scanKey prev scanCode).2.toNat < 0x80 := by
  have hcode : (scanCode &&& 0x7f).toNat < 0x80 := by
    rw [BitVec.toNat_and]
    exact Nat.lt_of_le_of_lt Nat.and_le_right (by decide)
  have he0 : ∀ k, (e0KeyCodes.getD k 0).toNat < 0x80 := by
    have hall : e0KeyCodes.all (fun c => c.toNat < 0x80) = true := rfl
    intro k
    rw [List.getD_eq_getElem?_getD]
    cases hget : e0KeyCodes[k]? with
    | none => exact Nat.zero_lt_succ _
    | some c => exact of_decide_eq_true (List.all_eq_true.mp hall c (List.mem_of_getElem? hget))
  unfold scanKey
  dsimp only
  split_ifs
  · exact Nat.zero_lt_succ _
  · exact he0 _
  · exact Nat.zero_lt_succ _
  · exact Nat.zero_lt_succ _
  · show K_E1_PAUSE.toNat < 0x80
    decide
  · exact hcode

theorem shiftMask_lt {keyCode : UChar} {mask : ULong} (hmask : shiftMask keyCode = some mask) :
    mask.toNat < 64 := by
  unfold shiftMask at hmask
  split_ifs at hmask
  all_goals
    cases hmask
    decide

theorem shiftAfter_lt {shiftState : ULong} (hlt : shiftState.toNat < 64)
    (keyCode upCode : UChar) : (shiftAfter shiftState keyCode upCode).toNat < 64 := by
  unfold shiftAfter
  cases hmask : shiftMask keyCode with
  | none => exact hlt
  | some mask =>
    dsimp only [setShiftState]
    split
    · rw [BitVec.toNat_and]
      exact Nat.lt_of_le_of_lt Nat.and_le_left hlt
    · rw [BitVec.toNat_or]
      exact Nat.or_lt_two_pow (n := 6) hlt (shiftMask_lt hmask)

namespace Host

variable {ι : Type} [DecidableEq ι] {h : Host ι} {keymap : Keymap}

/-- The guests know what they are told of the shift keys. -/
structure Informed (h : Host ι) (told : ι → ULong) : Prop where
  shift : h.shiftState.toNat < 64
  decoded : ∀ i, (h.vkbds i).NoOverflow → (h.vkbds i).decoded = (0, told i)

/-- What a guest is to know. -/
def told (h : Host ι) (i : ι) : ULong := if h.focus = some i then h.shiftState else 0

variable {told : ι → ULong}

/-- Scan codes for one of the keyboards. -/
theorem Informed.deliver (hinf : h.Informed told) {i : ι} {bs : List UChar} {vk' : Vkbd}
    {shiftState : ULong} (hvk : (h.vkbds i).Delivers bs vk')
    (hbs : bs.foldl decodeCode (0, told i) = (0, shiftState)) :
    (h.setVkbd i vk').Informed (Function.update told i shiftState) := by
  refine ⟨hinf.shift, fun j hno => ?_⟩
  dsimp only [setVkbd] at hno ⊢
  by_cases hj : j = i
  · rw [hj, Function.update_self] at hno ⊢
    rw [Function.update_self, Vkbd.decoded, (hvk hno).2, List.foldl_append]
    have hold := hinf.decoded i (hvk hno).1
    rw [Vkbd.decoded] at hold
    rw [hold, hbs]
  · rw [Function.update_of_ne hj] at hno ⊢
    rw [Function.update_of_ne hj]
    exact hinf.decoded j hno

theorem update_told {i : ι} (hfocus : h.focus = some i) (shiftState : ULong) :
    Function.update h.told i shiftState = fun j => if some i = some j then shiftState else 0 := by
  funext j
  by_cases hj : j = i
  · rw [hj, Function.update_self, if_pos rfl]
  · have hne : some i ≠ some j := fun h => hj (Option.some.inj h).symm
    rw [Function.update_of_ne hj, Host.told, hfocus, if_neg hne, if_neg hne]

theorem Informed.leave (hinf : h.Informed h.told) : h.leave.Informed fun _ => 0 := by
  unfold Host.leave
  cases hfocus : h.focus with
  | none =>
    refine ⟨hinf.shift, fun i hno => ?_⟩
    have hi := hinf.decoded i hno
    rw [Host.told, hfocus, if_neg (Option.some_ne_none i).symm] at hi
    exact hi
  | some i =>
    have hfrom : (h.vkbds i).Delivers (Vkbd.switchFromCodes h.shiftState)
        { (h.vkbds i).switchFrom h.shiftState with inFocus := false } :=
      Vkbd.delivers_switchFrom (h.vkbds i) h.shiftState
    have htold : h.told i = h.shiftState := if_pos hfocus
    have hreleased : (Vkbd.switchFromCodes h.shiftState).foldl decodeCode (0, h.told i) =
        (0, 0) := by
      rw [htold]
      exact Vkbd.decode_switchFromCodes hinf.shift
    have hleft := hinf.deliver hfrom hreleased
    simp only [update_told hfocus, ite_self] at hleft
    exact hleft

theorem Informed.enter {new : Option ι} (hinf : h.Informed fun _ => 0)
    (halt : new ≠ none → h.shiftState &&& S_RIGHT_ALT = 0) :
    (h.enter new).Informed (h.enter new).told := by
  unfold Host.enter
  cases new with
  | none => exact ⟨hinf.shift, hinf.decoded⟩
  | some i =>
    have hto : ({ h with focus := some i }.vkbds i).Delivers (Vkbd.switchToCodes h.shiftState)
        ({ h.vkbds i with inFocus := true }.switchTo h.shiftState) :=
      Vkbd.delivers_switchTo { h.vkbds i with inFocus := true } h.shiftState
    have hfocused : Informed { h with focus := some i } fun _ => 0 := ⟨hinf.shift, hinf.decoded⟩
    have hentered := hfocused.deliver hto
      (Vkbd.decode_switchToCodes hinf.shift (halt (Option.some_ne_none i)))
    have htold : Function.update (fun _ => 0) i h.shiftState =
        fun j => if some i = some j then h.shiftState else 0 := by
      funext j
      by_cases hj : j = i
      · rw [hj, Function.update_self, if_pos rfl]
      · rw [Function.update_of_ne hj, if_neg fun h => hj (Option.some.inj h).symm]
    rw [htold] at hentered
    exact hentered

theorem Informed.scan {scanCode : UChar} {h' : Host ι} (hinf : h.Informed h.told)
    (hok : h.StepOk (.scan scanCode)) (hstep : h.scan keymap scanCode = some h') :
    h'.Informed h'.told := by
  unfold Host.scan at hstep
  dsimp only at hstep
  set r := scanKey h.prevScancode scanCode with hr
  set upCode := scanCode &&& 0x80 with hupCode
  have hlt : r.2.toNat < 0x80 := scanKey_lt _ _
  have hup : upCode = 0 ∨ upCode = 0x80 := Bits.and_bit scanCode 7
  have hsame : Informed { h with prevScancode := r.1 } h.told := ⟨hinf.shift, hinf.decoded⟩
  split_ifs at hstep with hnone hreset hhot
  · cases hstep
    exact hsame
  · cases hstep
    exact hsame
  · set shiftState := shiftAfter h.shiftState r.2 upCode with hshift
    have hshifted : Informed { h with prevScancode := r.1, shiftState } h.told :=
      ⟨shiftAfter_lt hinf.shift _ _, hinf.decoded⟩
    cases hfocus : h.focus with
    | none =>
      rw [hfocus] at hstep
      cases hstep
      refine ⟨hshifted.shift, fun i hno => ?_⟩
      have hi := hshifted.decoded i hno
      rw [Host.told, hfocus, if_neg (Option.some_ne_none i).symm] at hi
      exact hi
    | some i =>
      rw [hfocus] at hstep
      cases hstep
      have hkey := Vkbd.delivers_useKey (h.vkbds i) keymap shiftState r.2 upCode
      have htold : h.told i = h.shiftState := if_pos hfocus
      have hfaithful : Faithful (keyCodes shiftState ((h.vkbds i).lockAfter r.2 upCode) r.2 upCode)
          r.2 upCode := by
        refine keyCodes_faithful hnone hlt hup fun hkeyUp hdown => ?_
        have hlock : (h.vkbds i).lockAfter r.2 upCode = (h.vkbds i).lockState := by
          rw [hkeyUp, hdown]
          exact Vkbd.truncate_zeroExtend (h.vkbds i).lockState
        have hunshifted : shiftState = h.shiftState := by
          rw [hshift, hkeyUp]
          rfl
        rw [hlock, hunshifted]
        exact hok hkeyUp hdown i hfocus
      have hdecode := hfaithful.decode h.shiftState
      rw [← hshift, ← htold] at hdecode
      have hdelivered := hshifted.deliver hkey hdecode
      rw [update_told hfocus] at hdelivered
      rw [hfocus] at hdelivered
      exact hdelivered

theorem Informed.switchFocus {new : Option ι} (hinf : h.Informed h.told)
    (hok : h.StepOk (.switchFocus new)) :
    (h.switchFocus new).Informed (h.switchFocus new).told := by
  unfold Host.switchFocus
  split
  next hne =>
    have hleft : h.leave.shiftState = h.shiftState := by
      unfold Host.leave
      cases h.focus with
      | none => rfl
      | some i => rfl
    exact hinf.leave.enter fun hnew => hleft ▸ hok hnew hne
  next => exact hinf

theorem Informed.read {i : ι} (hinf : h.Informed h.told) :
    (h.setVkbd i ((h.vkbds i).readPort 0x60 1).2).Informed
      (h.setVkbd i ((h.vkbds i).readPort 0x60 1).2).told := by
  have hread := hinf.deliver (Vkbd.delivers_readPort (h.vkbds i)) rfl
  rw [Function.update_eq_self] at hread
  exact hread

theorem informed_preserved (keymap : Keymap) :
    Preserves (Host.step (ι := ι) keymap) Host.StepOk fun h => h.Informed h.told := by
  intro h op h' hinf hok hstep
  cases op with
  | scan scanCode => exact hinf.scan hok hstep
  | switchFocus new =>
    cases hstep
    exact hinf.switchFocus hok
  | read i =>
    cases hstep
    exact hinf.read

/-- **Shift state follows focus.** -/
theorem shiftFollows_run (keymap : Keymap) (displayIsMda : ι → Bool) (buf : ι → ℤ → ULong)
    (shiftState : ι → ULong) (ops : List (HostOp ι)) (h' : Host ι)
    (hok : Along (Host.step keymap) Host.StepOk (Host.init displayIsMda buf shiftState) ops)
    (hrun : run (Host.step keymap) (Host.init displayIsMda buf shiftState) ops = some h') :
    h'.ShiftFollows := by
  have hinit : (Host.init displayIsMda buf shiftState).Informed
      (Host.init displayIsMda buf shiftState).told := by
    refine ⟨Nat.zero_lt_succ _, fun i _ => ?_⟩
    rw [Host.told, Host.init, if_neg (Option.some_ne_none i).symm]
    rfl
  have hend := (informed_preserved keymap).run hinit hok hrun
  intro i hno
  rw [hend.decoded i hno]
  rfl

theorem shiftFollows_leftShift : ∃ h', run (Host.step fun _ => none)
    (Host.init (ι := Unit) (fun _ => false) (fun _ _ => 0) fun _ => 0)
    [.scan 0x2a, .switchFocus (some ())] = some h' ∧ h'.ShiftFollows := by
  refine ⟨_, rfl, shiftFollows_run (fun _ => none) (fun _ => false) (fun _ _ => 0) (fun _ => 0)
    [.scan 0x2a, .switchFocus (some ())] _ (And.intro ?_ ?_) rfl⟩
  · intro hup
    exact absurd hup (by decide)
  · intro h hstep
    cases hstep
    refine ⟨fun _ _ => ?_, fun _ _ => trivial⟩
    rfl

/-- Right alt is held when the keyboard gets the focus. -/
theorem rightAlt_not_followed : ∃ h', run (Host.step fun _ => none)
    (Host.init (ι := Unit) (fun _ => false) (fun _ _ => 0) fun _ => 0)
    [.scan 0xe0, .scan 0x38, .switchFocus (some ())] = some h' ∧ ¬h'.ShiftFollows := by
  refine ⟨_, rfl, fun hfollows => ?_⟩
  have hdecoded := hfollows () fun val hlost => ?_
  · exact absurd hdecoded (by decide)
  · have hlog : RingEvent.entered val false ∈
        [RingEvent.entered 0x18 true, RingEvent.entered 0xe0 true] := hlost
    simp at hlog

end Host

end Vmm386.VkbdModule
