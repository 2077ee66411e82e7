import Mathlib.Data.List.Range
import Mathlib.Data.Nat.Notation
import Mathlib.Logic.Function.Basic
import Mathlib.Tactic.Common
import Mathlib.Tactic.IntervalCases

/-!
# DMA controllers

A pair of 8237 controllers with page registers: channels 0 to 3 transfer bytes, channels 4 to 7
words. An address register holds sixteen bits, counted in bytes or in words, which the page
register completes; the page registers of the word channels have no bit 0. The registers of
sixteen bits are written in halves, and each controller has one flip-flop for all of its halves.
-/

namespace Dma8237

/-- A channel. The mode has no channel in its low bits. -/
structure Channel where
  address : BitVec 16
  count : BitVec 16
  page : BitVec 8
  mode : BitVec 8
  masked : Bool

/-- The channels, and for each controller whether a low half comes next. The second controller
is `true`. -/
structure Pair where
  low : Bool → Bool
  chan : ℕ → Channel

inductive Reg where
  | address (n : ℕ)
  | count (n : ℕ)
  | page (n : ℕ)
  | mask (c : Bool)
  | mode (c : Bool)
  | clear (c : Bool)
deriving DecidableEq

/-- The controller of a channel. -/
def wordChan (n : ℕ) : Bool := decide (4 ≤ n)

/-- The first channel of a controller. -/
def firstChan (c : Bool) : ℕ := if c then 4 else 0

/-- The register of a controller. -/
def regOf (c : Bool) (r : ℕ) : Option Reg :=
  if r < 8 then
    some (if r % 2 = 0 then .address (firstChan c + r / 2) else .count (firstChan c + r / 2))
  else if r = 0xa then some (.mask c)
  else if r = 0xb then some (.mode c)
  else if r = 0xc then some (.clear c)
  else none

/-- The ports of the page registers. -/
def pagePorts : List (ℕ × ℕ) :=
  [(0x87, 0), (0x83, 1), (0x81, 2), (0x82, 3), (0x8f, 4), (0x8b, 5), (0x89, 6), (0x8a, 7)]

/-- The registers at the ports of the pair. The second controller does not see the lowest bit of
the port. -/
def decode (port : ℕ) : Option Reg :=
  if port < 0x10 then regOf false port
  else if 0xc0 ≤ port ∧ port < 0xe0 then regOf true ((port - 0xc0) / 2)
  else (pagePorts.lookup port).map .page

/-- The register after one half of it was written. -/
def writeHalf (low : Bool) (reg : BitVec 16) (value : BitVec 8) : BitVec 16 :=
  if low then (reg &&& 0xff00) ||| value.zeroExtend 16
  else (reg &&& 0x00ff) ||| (value.zeroExtend 16 <<< 8)

namespace Pair

def setChan (p : Pair) (n : ℕ) (f : Channel → Channel) : Pair :=
  { p with chan := Function.update p.chan n (f (p.chan n)) }

def setLow (p : Pair) (c low : Bool) : Pair := { p with low := Function.update p.low c low }

/-- The channel that a value for the mask or mode register selects. -/
def selected (c : Bool) (value : BitVec 8) : ℕ := firstChan c + (value &&& 3).toNat

def write (p : Pair) (value : BitVec 8) : Reg → Pair
  | .address n =>
    let low := p.low (wordChan n)
    (p.setLow (wordChan n) !low).setChan n fun ch =>
      { ch with address := writeHalf low ch.address value }
  | .count n =>
    let low := p.low (wordChan n)
    (p.setLow (wordChan n) !low).setChan n fun ch =>
      { ch with count := writeHalf low ch.count value }
  | .page n => p.setChan n fun ch => { ch with page := value }
  | .mask c => p.setChan (selected c value) fun ch => { ch with masked := value.getLsbD 2 }
  | .mode c => p.setChan (selected c value) fun ch => { ch with mode := value &&& 0xfc }
  | .clear c => p.setLow c true

/-- A write of `w.1` to the port `w.2`. -/
def out (p : Pair) (w : BitVec 8 × BitVec 16) : Pair :=
  match decode w.2.toNat with
  | some r => p.write w.1 r
  | none => p

def outs (p : Pair) (ws : List (BitVec 8 × BitVec 16)) : Pair := ws.foldl out p

/-- Writes to registers. -/
def writes (p : Pair) (rs : List (BitVec 8 × Reg)) : Pair :=
  rs.foldl (fun p r => p.write r.1 r.2) p

end Pair

/-- The address register after `k` transfers. -/
def Channel.addressAt (ch : Channel) (k : ℕ) : BitVec 16 :=
  if ch.mode.getLsbD 5 then ch.address - BitVec.ofNat 16 k else ch.address + BitVec.ofNat 16 k

/-- The addresses of the bytes that are transferred, in order. -/
def Channel.transfer (word : Bool) (ch : Channel) : List ℕ :=
  (List.range (ch.count.toNat + 1)).flatMap fun k =>
    let a := (ch.addressAt k).toNat
    if word then
      [(ch.page &&& 0xfe).toNat * 65536 + 2 * a, (ch.page &&& 0xfe).toNat * 65536 + 2 * a + 1]
    else [ch.page.toNat * 65536 + a]

def Pair.transfer (p : Pair) (n : ℕ) : List ℕ := (p.chan n).transfer (wordChan n)

/-! ## Writes -/

section Writes

variable {p : Pair} {w : BitVec 8 × BitVec 16} {ws : List (BitVec 8 × BitVec 16)} {n m : ℕ}
  {f : Channel → Channel} {r : Reg} {value : BitVec 8}

/-- Low half first. -/
theorem writeHalf_writeHalf (reg value : BitVec 16) :
    writeHalf false (writeHalf true reg (value.truncate 8)) ((value >>> 8).truncate 8) =
      value := by
  apply BitVec.eq_of_getLsbD_eq
  intro i hi
  simp only [writeHalf, if_true, Bool.false_eq_true, if_false]
  interval_cases i <;> simp

theorem setChan_chan : (p.setChan n f).chan m = if m = n then f (p.chan n) else p.chan m := by
  simp only [Pair.setChan, Function.update_apply]

theorem write_mask_chan {c : Bool} (h : Pair.selected c value = n) :
    (p.write value (.mask c)).chan n = { p.chan n with masked := value.getLsbD 2 } := by
  rw [Pair.write, h, setChan_chan, if_pos rfl]

theorem outs_cons : p.outs (w :: ws) = (p.out w).outs ws := rfl

theorem writes_nil : p.writes [] = p := rfl

theorem writes_cons {r : BitVec 8 × Reg} {rs : List (BitVec 8 × Reg)} :
    p.writes (r :: rs) = (p.write r.1 r.2).writes rs := rfl

theorem writes_append {rs rs' : List (BitVec 8 × Reg)} :
    p.writes (rs ++ rs') = (p.writes rs).writes rs' := List.foldl_append

/-- The ports are those of the registers. -/
theorem outs_eq_writes {rs : List (BitVec 8 × Reg)}
    (h : List.Forall₂ (fun w r => w.1 = r.1 ∧ decode w.2.toNat = some r.2) ws rs) :
    p.outs ws = p.writes rs := by
  induction h generalizing p with
  | nil => rfl
  | @cons w r ws rs hw _ ih =>
    have hout : p.out w = p.write r.1 r.2 := by
      rw [Pair.out, hw.2, hw.1]
    rw [outs_cons, hout, ih, writes_cons]

/-- Only the mask registers decide what is masked. -/
theorem write_masked (hr : ∀ c, r ≠ .mask c) :
    ((p.write value r).chan m).masked = (p.chan m).masked := by
  cases r with
  | mask c => exact absurd rfl (hr c)
  | clear c => rfl
  | address n | count n | page n | mode c =>
    rw [Pair.write, setChan_chan]
    split
    · subst_vars
      rfl
    · rfl

theorem writes_masked {rs : List (BitVec 8 × Reg)} (hrs : ∀ r ∈ rs, ∀ c, r.2 ≠ .mask c) :
    ((p.writes rs).chan m).masked = (p.chan m).masked := by
  induction rs generalizing p with
  | nil => rfl
  | cons r rs ih =>
    have htail : ∀ r' ∈ rs, ∀ c, r'.2 ≠ .mask c := fun r' hr' => hrs r' (List.mem_cons_of_mem _ hr')
    exact (ih htail).trans (write_masked (hrs r (List.mem_cons_self ..)))

end Writes

/-! ## Transfers -/

section Transfers

variable {c : Channel}

theorem flatMap_pair (a n : ℕ) :
    (List.range n).flatMap (fun k => [a + 2 * k, a + 2 * k + 1]) = List.range' a (2 * n) := by
  induction n with
  | zero => rfl
  | succ n ih =>
    rw [List.range_succ, List.flatMap_append, ih, Nat.mul_succ, ← List.range'_append]
    simp [List.range'_succ]

theorem toNat_addressAt (hmode : c.mode.getLsbD 5 = false) {k : ℕ}
    (hk : c.address.toNat + k < 65536) : (c.addressAt k).toNat = c.address.toNat + k := by
  rw [Channel.addressAt, hmode, if_neg Bool.false_ne_true, BitVec.toNat_add, BitVec.toNat_ofNat]
  omega

/-- A transfer that does not leave the page. -/
theorem transfer_bytes (hmode : c.mode.getLsbD 5 = false)
    (hfit : c.address.toNat + c.count.toNat < 65536) :
    c.transfer false =
      List.range' (c.page.toNat * 65536 + c.address.toNat) (c.count.toNat + 1) := by
  rw [List.range'_eq_map_range, List.map_eq_flatMap, Channel.transfer]
  refine List.flatMap_congr fun k hk => ?_
  rw [List.mem_range] at hk
  simp only [Bool.false_eq_true, if_false, List.cons.injEq, and_true]
  rw [toNat_addressAt hmode (by omega), Nat.add_assoc]

theorem transfer_words (hmode : c.mode.getLsbD 5 = false)
    (hfit : c.address.toNat + c.count.toNat < 65536) :
    c.transfer true =
      List.range' ((c.page &&& 0xfe).toNat * 65536 + 2 * c.address.toNat)
        (2 * (c.count.toNat + 1)) := by
  rw [← flatMap_pair, Channel.transfer]
  refine List.flatMap_congr fun k hk => ?_
  rw [List.mem_range] at hk
  simp only [if_true]
  rw [toNat_addressAt hmode (by omega), Nat.mul_add, ← Nat.add_assoc]

theorem length_transfer (word : Bool) :
    (c.transfer word).length = (if word then 2 else 1) * (c.count.toNat + 1) := by
  cases word <;> simp [Channel.transfer, Nat.mul_comm]

/-- The first byte. -/
theorem head_transfer_words (hmode : c.mode.getLsbD 5 = false) :
    (c.transfer true).head? =
      some ((c.page &&& 0xfe).toNat * 65536 + 2 * c.address.toNat) := by
  have hfirst : (c.addressAt 0).toNat = c.address.toNat := toNat_addressAt hmode c.address.isLt
  rw [Channel.transfer, List.range_succ_eq_map, List.flatMap_cons]
  simp [hfirst]

end Transfers

end Dma8237
