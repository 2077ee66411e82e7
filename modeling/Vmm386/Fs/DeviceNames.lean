import Vmm386.Fs.Path

/-!
# Device names (`fs/dev.c`)

`devcmp` and `get_device`. The names are strings in memory; a device has the address of its name,
and is itself known by its address.
-/

namespace Vmm386.Fs.DeviceNames

open Paths (toUpper)

/-- A string: the bytes before its zero. -/
structure CString where
  bytes : List UChar
  noZero : ∀ c ∈ bytes, c ≠ 0

/-- The loop of `devcmp`, with the bytes from `p1` and from `p2` on. Behind the last byte there is the
zero. -/
def devcmpLoop : List UChar → List UChar → ℤ
  | [], t => (toUpper 0).toNat - (toUpper (t.headD 0)).toNat
  | c :: s, t =>
    let ret : ℤ := (toUpper c).toNat - (toUpper (t.headD 0)).toNat
    if ret ≠ 0 then ret else if toUpper c = 0 then ret else devcmpLoop s t.tail

/-- `devcmp`. -/
def devcmp (text : ULong → CString) (p1 p2 : ULong) : ℤ :=
  if p1 = p2 then 0 else devcmpLoop (text p1).bytes (text p2).bytes

/-- `struct fs_device`, with what is used of it here. -/
structure FsDevice where
  name : ULong
  useCount : ℤ

/-- The loop of `get_device`, over the rest of `device_list`. -/
def getDeviceLoop (text : ULong → CString) (devs : ULong → FsDevice) (name : ULong) :
    List ULong → Option ULong × (ULong → FsDevice)
  | [] => (none, devs)
  | dev :: rest =>
    if devcmp text name (devs dev).name = 0 then
      (some dev, Function.update devs dev
        { devs dev with useCount := (devs dev).useCount + 1 })
    else getDeviceLoop text devs name rest

/-- `get_device`. -/
def getDevice (text : ULong → CString) (devs : ULong → FsDevice) (deviceList : List ULong)
    (name : ULong) : Option ULong × (ULong → FsDevice) :=
  getDeviceLoop text devs name deviceList

/-! ## What is equal -/

/-- A letter without its case. -/
def toLower (c : UChar) : UChar := if 0x41 ≤ c ∧ c ≤ 0x5a then c + 0x20 else c

/-- Equal but for the case of ASCII letters. -/
def EqCase (s t : CString) : Prop := s.bytes.map toLower = t.bytes.map toLower

/-- Equal once every lower-case letter is taken for the byte 0x20 above it. -/
def EqShifted (s t : CString) : Prop := s.bytes.map toUpper = t.bytes.map toUpper

instance (s t : CString) : Decidable (EqCase s t) := inferInstanceAs (Decidable (_ = _))

instance (s t : CString) : Decidable (EqShifted s t) := inferInstanceAs (Decidable (_ = _))

/-- Two strings that differ neither in case alone nor in 0x20 above a lower-case letter alone. -/
def Apart (s t : CString) : Prop := ¬ EqCase s t ∧ ¬ EqShifted s t

variable {text : ULong → CString} {devs : ULong → FsDevice} {p q name : ULong}
  {deviceList : List ULong} {s t : CString}

theorem CString.ext_bytes (h : s.bytes = t.bytes) : s = t := by
  cases s
  cases t
  congr

theorem toUpper_eq_zero {c : UChar} (h : toUpper c = 0) : c = 0 := by
  unfold toUpper at h
  split_ifs at h with hlow
  · bv_omega
  · exact h

/-- No two bytes are taken for one another both ways. -/
theorem eq_of_toLower_of_toUpper {c d : UChar} (hl : toLower c = toLower d)
    (hu : toUpper c = toUpper d) : c = d := by
  unfold toLower at hl
  unfold toUpper at hu
  split_ifs at hl hu <;> bv_omega

theorem eq_of_eqCase_of_eqShifted (hl : EqCase s t) (hu : EqShifted s t) : s = t := by
  refine CString.ext_bytes ?_
  have hlen : s.bytes.length = t.bytes.length := by
    simpa using congrArg List.length hl
  refine List.ext_getElem hlen fun i hi hi' => eq_of_toLower_of_toUpper ?_ ?_
  · simpa [hi, hi'] using congrArg (·[i]?) hl
  · simpa [hi, hi'] using congrArg (·[i]?) hu

/-! ## The loop -/

theorem devcmpLoop_eq_zero_iff {s t : List UChar} (hs : ∀ c ∈ s, c ≠ 0) (ht : ∀ c ∈ t, c ≠ 0) :
    devcmpLoop s t = 0 ↔ s.map toUpper = t.map toUpper := by
  induction s generalizing t with
  | nil =>
    cases t with
    | nil => simp [devcmpLoop]
    | cons d t =>
      -- the second string goes on where the first ends
      have hd : toUpper d ≠ 0 := fun h => ht d List.mem_cons_self (toUpper_eq_zero h)
      have hzero : toUpper 0 = 0 := by decide
      simp only [devcmpLoop, List.headD_cons, hzero, List.map_nil, List.map_cons]
      have hpos : (toUpper d).toNat ≠ 0 := fun h => hd (BitVec.eq_of_toNat_eq h)
      constructor
      · intro h
        simp at h
        omega
      · intro h
        cases h
  | cons c s ih =>
    have hc : toUpper c ≠ 0 := fun h => hs c List.mem_cons_self (toUpper_eq_zero h)
    unfold devcmpLoop
    dsimp only
    cases t with
    | nil =>
      have hzero : toUpper 0 = 0 := by decide
      have hpos : (toUpper c).toNat ≠ 0 := fun h => hc (BitVec.eq_of_toNat_eq h)
      rw [List.headD_nil, hzero, if_pos (by simpa using hpos)]
      constructor
      · intro h
        simp at h
        omega
      · intro h
        cases h
    | cons d t =>
      rw [List.headD_cons, List.tail_cons, List.map_cons, List.map_cons, List.cons.injEq]
      by_cases heq : toUpper c = toUpper d
      · rw [if_neg (by simp [heq]), if_neg hc,
          ih (fun x hx => hs x (List.mem_cons_of_mem c hx))
            fun x hx => ht x (List.mem_cons_of_mem d hx)]
        exact ⟨fun h => ⟨heq, h⟩, And.right⟩
      · have hne : ((toUpper c).toNat : ℤ) - (toUpper d).toNat ≠ 0 := by
          have hnat : (toUpper c).toNat ≠ (toUpper d).toNat := fun h => heq (BitVec.eq_of_toNat_eq h)
          omega
        rw [if_pos hne]
        exact ⟨fun h => absurd h hne, fun h => absurd h.1 heq⟩

/-- What `devcmp` finds equal. -/
theorem devcmp_eq_zero_iff : devcmp text p q = 0 ↔ EqShifted (text p) (text q) := by
  unfold devcmp
  split_ifs with heq
  · subst heq
    exact iff_of_true rfl rfl
  · exact devcmpLoop_eq_zero_iff (text p).noZero (text q).noZero

/-- `get_device` as the operations on paths have it. -/
theorem getDevice_eq_find :
    ((getDevice text devs deviceList name).1.map fun dev =>
        (⟨(text (devs dev).name).bytes, dev.toNat⟩ : Paths.Device)) =
      Paths.getDevice (text name).bytes
        (deviceList.map fun dev => ⟨(text (devs dev).name).bytes, dev.toNat⟩) := by
  unfold getDevice Paths.getDevice
  induction deviceList with
  | nil => rfl
  | cons dev rest ih =>
    unfold getDeviceLoop
    rw [List.map_cons, List.find?_cons]
    by_cases heq : EqShifted (text name) (text (devs dev).name)
    · rw [if_pos (devcmp_eq_zero_iff.mpr heq), decide_eq_true heq.symm]
      rfl
    · rw [if_neg (mt devcmp_eq_zero_iff.mp heq), decide_eq_false (fun h => heq h.symm)]
      exact ih

/-! ## What they should do -/

/-- `devcmp` is right about two strings. -/
def DevcmpRight (text : ULong → CString) (p q : ULong) : Prop :=
  devcmp text p q = 0 ↔ EqCase (text p) (text q)

/-- `get_device` finds a device whose name is the one asked for if there is one, and no other. -/
structure GetDeviceRight (text : ULong → CString) (devs : ULong → FsDevice)
    (deviceList : List ULong) (name : ULong) : Prop where
  found : (∃ dev ∈ deviceList, EqCase (text name) (text (devs dev).name)) →
    ∃ dev, (getDevice text devs deviceList name).1 = some dev
  only : ∀ dev, (getDevice text devs deviceList name).1 = some dev →
    dev ∈ deviceList ∧ EqCase (text name) (text (devs dev).name)

/-- The two strings are the same, or far enough apart. -/
def Clear (s t : CString) : Prop := s = t ∨ Apart s t

/-- No device is before the first one with this very name that only seems to have it; or all names are
apart from it. -/
def ClearList (text : ULong → CString) (devs : ULong → FsDevice) (deviceList : List ULong)
    (name : ULong) : Prop :=
  (∃ before dev after, deviceList = before ++ dev :: after ∧ text name = text (devs dev).name ∧
      ∀ d ∈ before, ¬ EqShifted (text name) (text (devs d).name)) ∨
    ∀ d ∈ deviceList, Apart (text name) (text (devs d).name)

theorem devcmpRight_iff : DevcmpRight text p q ↔ Clear (text p) (text q) := by
  unfold DevcmpRight Clear Apart
  rw [devcmp_eq_zero_iff]
  constructor
  · intro h
    by_cases hu : EqShifted (text p) (text q)
    · exact .inl (eq_of_eqCase_of_eqShifted (h.mp hu) hu)
    · exact .inr ⟨fun hl => hu (h.mpr hl), hu⟩
  · rintro (heq | ⟨hl, hu⟩)
    · rw [heq]
      exact iff_of_true rfl rfl
    · exact iff_of_false hu hl

theorem getDevice_eq_some_iff {dev : ULong} :
    (getDevice text devs deviceList name).1 = some dev ↔
      EqShifted (text name) (text (devs dev).name) ∧ ∃ before after,
        deviceList = before ++ dev :: after ∧
          ∀ d ∈ before, ¬ EqShifted (text name) (text (devs d).name) := by
  have hfind : (getDevice text devs deviceList name).1 =
      deviceList.find? fun d => EqShifted (text name) (text (devs d).name) := by
    unfold getDevice
    induction deviceList with
    | nil => rfl
    | cons d rest ih =>
      unfold getDeviceLoop
      rw [List.find?_cons]
      by_cases heq : EqShifted (text name) (text (devs d).name)
      · rw [if_pos (devcmp_eq_zero_iff.mpr heq), decide_eq_true heq]
      · rw [if_neg (mt devcmp_eq_zero_iff.mp heq), decide_eq_false heq]
        exact ih
  rw [hfind, List.find?_eq_some_iff_append]
  simp

theorem getDevice_of_eqShifted {dev : ULong} (hmem : dev ∈ deviceList)
    (h : EqShifted (text name) (text (devs dev).name)) :
    ∃ d, (getDevice text devs deviceList name).1 = some d := by
  unfold getDevice
  induction deviceList with
  | nil => cases hmem
  | cons d rest ih =>
    unfold getDeviceLoop
    split_ifs with hd
    · exact ⟨d, rfl⟩
    · rcases List.mem_cons.mp hmem with rfl | hmem
      · exact absurd (devcmp_eq_zero_iff.mpr h) hd
      · exact ih hmem

theorem getDeviceRight_iff :
    GetDeviceRight text devs deviceList name ↔ ClearList text devs deviceList name := by
  constructor
  · intro h
    by_cases hsome : ∃ dev, (getDevice text devs deviceList name).1 = some dev
    · -- the device found is right, so its name is the very name
      obtain ⟨dev, hdev⟩ := hsome
      obtain ⟨hu, before, after, hlist, hbefore⟩ := getDevice_eq_some_iff.mp hdev
      have hl := (h.only dev hdev).2
      exact .inl ⟨before, dev, after, hlist, eq_of_eqCase_of_eqShifted hl hu, hbefore⟩
    · exact .inr fun d hd => ⟨fun hl => hsome (h.found ⟨d, hd, hl⟩),
        fun hu => hsome (getDevice_of_eqShifted hd hu)⟩
  · rintro (⟨before, dev, after, hlist, heq, hbefore⟩ | hapart)
    · have hu : EqShifted (text name) (text (devs dev).name) := by
        rw [EqShifted, heq]
      have hl : EqCase (text name) (text (devs dev).name) := by
        rw [EqCase, heq]
      have hdev := getDevice_eq_some_iff.mpr ⟨hu, before, after, hlist, hbefore⟩
      refine ⟨fun _ => ⟨dev, hdev⟩, fun d hd => ?_⟩
      obtain rfl : dev = d := Option.some.inj (hdev.symm.trans hd)
      exact ⟨by rw [hlist]; simp, hl⟩
    · refine ⟨?_, fun d hd => ?_⟩
      · rintro ⟨d, hd, hl⟩
        exact absurd hl (hapart d hd).1
      · obtain ⟨hu, before, after, hlist, -⟩ := getDevice_eq_some_iff.mp hd
        have hmem : d ∈ deviceList := by
          rw [hlist]
          simp
        exact absurd hu (hapart d hmem).2

/-- **Device names.** `devcmp` and `get_device` go by the names up to case exactly where no name is
another one in case only, or in 0x20 above a lower-case letter only. -/
theorem deviceNames_right_iff (text : ULong → CString) (devs : ULong → FsDevice)
    (deviceList : List ULong) (p q name : ULong) :
    DevcmpRight text p q ∧ GetDeviceRight text devs deviceList name ↔
      Clear (text p) (text q) ∧ ClearList text devs deviceList name :=
  and_congr devcmpRight_iff getDeviceRight_iff

/-- The strings `a` at 1 and `A` anywhere else. -/
def twoCases (p : ULong) : CString :=
  if p = 1 then ⟨[0x61], by decide⟩ else ⟨[0x41], by decide⟩

theorem upper_case_not_found :
    ¬ (DevcmpRight twoCases 1 2 ∧ GetDeviceRight twoCases (fun _ => ⟨2, 1⟩) [100] 1) := by
  rintro ⟨-, hget⟩
  obtain ⟨dev, hdev⟩ := hget.found ⟨100, List.mem_singleton_self 100, by decide⟩
  exact absurd (getDevice_eq_some_iff.mp hdev).1 (show ¬ EqShifted (twoCases 1) (twoCases 2) by decide)

end Vmm386.Fs.DeviceNames
