import Vmm386.Ramdisk.Ramdisk

/-!
# Bounds of the ramdisk's copies

The one test that `do_request` makes is for the first sector. What the copy reaches after that is
left to whoever made the request.
-/

namespace Vmm386.Ramdisk

open Runs

/-! ## One request -/

/-- Every byte of the copy is a byte of a disk with so many sectors. -/
def Memcpy.Inside (c : Memcpy) (totalBlocks : ULong) : Prop :=
  ∀ i < c.n.toNat, c.offset.toNat + i < 512 * totalBlocks.toNat

theorem Memcpy.inside_iff (toRam : Bool) (buf offset n totalBlocks : ULong) :
    (Memcpy.mk toRam buf offset n).Inside totalBlocks ↔
      n.toNat = 0 ∨ offset.toNat + n.toNat ≤ 512 * totalBlocks.toNat := by
  unfold Inside
  dsimp only
  constructor
  · intro h
    by_cases hn : n.toNat = 0
    · exact .inl hn
    · have := h (n.toNat - 1) (by omega)
      exact .inr (by omega)
  · intro h i hi
    omega

namespace BlkReq

variable (req : BlkReq)

/-- Some sector of the request is not a sector of the disk. -/
def Outside : Prop := req.dev.totalBlocks.toNat < req.block.toNat + req.nblocks.toNat

/-- The commands that `do_request` knows. -/
def Known : Prop := req.command = RD_CMD_READ ∨ req.command = RD_CMD_WRITE

/-- The requests that the test of the first sector is enough for. From a gigabyte on the length
of the copy is negative, and only a disk of two more gigabytes has the bytes it reaches. -/
def Fits : Prop :=
  req.dev.totalBlocks.toNat ≤ req.block.toNat ∨ ¬req.Known ∨
    (¬req.Outside ∧
      (2 ^ 21 ≤ req.nblocks.toNat → req.nblocks.toNat < 2 ^ 22 →
        req.block.toNat % 2 ^ 22 + req.nblocks.toNat + 2 ^ 22 ≤ req.dev.totalBlocks.toNat))

instance : Decidable req.Outside := inferInstanceAs (Decidable (_ < _))

instance : Decidable req.Known := inferInstanceAs (Decidable (_ ∨ _))

instance : Decidable req.Fits := inferInstanceAs (Decidable (_ ∨ _))

theorem ramOffset_toNat : req.ramOffset.toNat = 512 * (req.block.toNat % 2 ^ 22) := by
  unfold ramOffset
  rw [BitVec.toNat_udiv, BitVec.toNat_mul]
  change req.block.toNat * 1024 % 2 ^ 32 / 2 = _
  omega

theorem sdiv_two (x : ULong) :
    (x.sdiv 2).toNat =
      if x.toNat < 2 ^ 31 then x.toNat / 2 else (2 ^ 32 - (2 ^ 32 - x.toNat) / 2) % 2 ^ 32 := by
  have hx := x.isLt
  have htwo : (2 : ULong).msb = false := by decide
  have hval : (2 : ULong).toNat = 2 := rfl
  by_cases h : x.toNat < 2 ^ 31
  · have hmsb : x.msb = false := by rw [BitVec.msb_eq_decide]; exact decide_eq_false (by omega)
    simp only [BitVec.toNat_sdiv, hmsb, htwo, if_pos h, BitVec.udiv_eq, BitVec.toNat_udiv, hval]
  · have hmsb : x.msb = true := by rw [BitVec.msb_eq_decide]; exact decide_eq_true (by omega)
    have hneg : (-x).toNat = 2 ^ 32 - x.toNat := by
      rw [BitVec.toNat_neg, Nat.mod_eq_of_lt (by omega)]
    simp only [BitVec.toNat_sdiv, hmsb, htwo, if_neg h, BitVec.udiv_eq, BitVec.toNat_neg,
      BitVec.toNat_udiv, hneg, hval]

/-- From 2^21 sectors on the product is negative, and so is its half. -/
theorem copyLength_toNat :
    req.copyLength.toNat =
      512 * (req.nblocks.toNat % 2 ^ 22) +
        if 2 ^ 21 ≤ req.nblocks.toNat % 2 ^ 22 then 2 ^ 31 else 0 := by
  have hmul : (req.nblocks * FS_BLKSIZ).toNat = 1024 * (req.nblocks.toNat % 2 ^ 22) := by
    rw [BitVec.toNat_mul]
    change req.nblocks.toNat * 1024 % 2 ^ 32 = _
    omega
  unfold copyLength
  rw [sdiv_two, hmul]
  by_cases h : 2 ^ 21 ≤ req.nblocks.toNat % 2 ^ 22
  · rw [if_pos h, if_neg (by omega)]
    omega
  · rw [if_neg h, if_pos (by omega)]
    omega

/-- Where the copy of a request goes. -/
theorem copy_inside_iff (toRam : Bool) :
    (Memcpy.mk toRam req.buf req.ramOffset req.copyLength).Inside req.dev.totalBlocks ↔
      req.nblocks.toNat % 2 ^ 22 = 0 ∨
        req.block.toNat % 2 ^ 22 + req.nblocks.toNat % 2 ^ 22 +
          (if 2 ^ 21 ≤ req.nblocks.toNat % 2 ^ 22 then 2 ^ 22 else 0) ≤
            req.dev.totalBlocks.toNat := by
  rw [Memcpy.inside_iff, ramOffset_toNat, copyLength_toNat]
  by_cases h : 2 ^ 21 ≤ req.nblocks.toNat % 2 ^ 22
  · rw [if_pos h, if_pos h]
    omega
  · rw [if_neg h, if_neg h]
    omega

end BlkReq

/-- The copy of a completed request stays inside the disk, and a request that reaches outside was
refused. -/
def Served.Bounded (e : Served) : Prop :=
  (∀ c, e.copy = some c → c.Inside e.req.dev.totalBlocks) ∧
    (e.req.Outside → e.result ≠ 0 ∧ e.copy = none)

namespace BlkReq

variable (req : BlkReq)

/-- The request as it is completed. -/
def asServed : Served := ⟨req, req.serve.1, req.serve.2⟩

theorem serve_cases :
    ((req.dev.totalBlocks ≤ req.block ∨ ¬req.Known) ∧ req.serve = (-1, none)) ∨
      (¬req.dev.totalBlocks ≤ req.block ∧ req.Known ∧ ∃ toRam,
        req.serve = (0, some ⟨toRam, req.buf, req.ramOffset, req.copyLength⟩)) := by
  unfold serve Known
  split_ifs with hblock hread hwrite
  · exact .inl ⟨.inl hblock, rfl⟩
  · exact .inr ⟨hblock, .inl hread, _, rfl⟩
  · exact .inr ⟨hblock, .inr hwrite, _, rfl⟩
  · exact .inl ⟨.inr (not_or.mpr ⟨hread, hwrite⟩), rfl⟩

theorem asServed_bounded : req.asServed.Bounded ↔ req.Fits := by
  unfold Served.Bounded asServed Fits
  obtain ⟨href, hserve⟩ | ⟨hblock, hknown, toRam, hserve⟩ := req.serve_cases
  · -- a refused request is not copied
    rw [hserve, ← BitVec.le_def]
    constructor
    · intro _
      exact href.elim .inl fun h => .inr (.inl h)
    · intro _
      exact ⟨fun c hc => absurd hc (by simp), fun _ => ⟨show (-1 : ULong) ≠ 0 by decide, rfl⟩⟩
  · rw [hserve, ← BitVec.le_def]
    have hcopy := req.copy_inside_iff toRam
    constructor
    · rintro ⟨hinside, hrefused⟩
      have hout : ¬req.Outside := fun hout => absurd (hrefused hout).2 (by simp)
      refine .inr (.inr ⟨hout, fun hle hlt => ?_⟩)
      obtain hzero | hle' := hcopy.mp (hinside _ rfl)
      · omega
      · rw [if_pos (by omega)] at hle'
        omega
    · intro hfits
      obtain ⟨hout, hlarge⟩ := (hfits.resolve_left hblock).resolve_left (not_not.mpr hknown)
      refine ⟨fun c hc => ?_, fun h => absurd h hout⟩
      obtain rfl := Option.some.inj hc
      refine hcopy.mpr (.inr ?_)
      unfold Outside at hout
      split_ifs with hle
      · by_cases hlt : req.nblocks.toNat < 2 ^ 22
        · have := hlarge (by omega) hlt
          omega
        · omega
      · omega

end BlkReq

/-- What the file system asks for, if its blocks are on the disk and make less than a gigabyte,
is doubled without a wrap and fits. -/
theorem fsBlocksReq_fits {rd : RdDev} {command block buf count : ULong}
    (hdisk : 2 * (block.toNat + count.toNat) ≤ rd.totalBlocks.toNat)
    (hcount : count.toNat < 2 ^ 20) : (fsBlocksReq rd command block buf count).Fits := by
  have hrd := rd.totalBlocks.isLt
  have hdouble : ∀ x : ULong, 2 * x.toNat < 2 ^ 32 →
      (x * (FS_BLKSIZ / 512)).toNat = 2 * x.toNat := by
    intro x hx
    rw [BitVec.toNat_mul, show (FS_BLKSIZ / 512 : ULong).toNat = 2 from rfl, Nat.mul_comm,
      Nat.mod_eq_of_lt hx]
  have hblock := hdouble block (by omega)
  have hnblocks := hdouble count (by omega)
  unfold fsBlocksReq blocksReq BlkReq.Fits BlkReq.Outside
  dsimp only
  rw [hblock, hnblocks]
  exact .inr (.inr ⟨by omega, fun hle => by omega⟩)

/-! ## Runs of the driver -/

namespace RdSys

variable {s s' : RdSys} {l : RdStep}

/-- Every request was completed as `serve` says. -/
def AllServed (s : RdSys) : Prop := ∀ e ∈ s.served, e = e.req.asServed

theorem served_step (h : rdStep s l = some s') :
    s'.served = s.served ∨ ∃ req, s'.served = s.served ++ [BlkReq.asServed req] := by
  cases l with
  | call req =>
    obtain rfl := Option.some.inj h
    unfold call
    split_ifs <;> exact .inl rfl
  | finish =>
    obtain ⟨req, -, rfl⟩ := Option.map_eq_some_iff.mp h
    exact .inr ⟨req, rfl⟩
  | again =>
    unfold rdStep again at h
    cases hn : s.atTop with
    | zero => simp [hn] at h
    | succ n =>
      rw [hn] at h
      obtain rfl := Option.some.inj h
      left
      split_ifs
      · rfl
      · split <;> rfl

theorem preserves_allServed : Preserves rdStep (fun _ _ => True) AllServed := by
  intro s l s' hs _ h e he
  obtain hsame | ⟨req, hreq⟩ := served_step h
  · exact hs e (hsame ▸ he)
  · rw [hreq, List.mem_append, List.mem_singleton] at he
    obtain he | rfl := he
    · exact hs e he
    · rfl

/-- **Bounds.** However tasks get through `do_request`, just the requests that fit are always
either refused or copied inside the disk. -/
theorem bounded_iff (req : BlkReq) :
    (∀ steps s, run rdStep init steps = some s → ∀ e ∈ s.served, e.req = req → e.Bounded) ↔
      req.Fits := by
  rw [← req.asServed_bounded]
  constructor
  · intro h
    exact h [.call req, .finish] _ rfl req.asServed (by simp [call, init, BlkReq.asServed]) rfl
  · rintro hreq steps s hrun e he rfl
    have hall : s.AllServed :=
      preserves_allServed.run (fun e he => absurd he (by simp [init])) (along_true _ _) hrun
    rw [hall e he]
    exact hreq

/-- The last sector of a disk of 1440 is read together with the one after it. -/
theorem reads_past_the_end :
    ¬∀ req steps s, run rdStep init steps = some s → ∀ e ∈ s.served, e.req = req → e.Bounded := by
  intro h
  have hbounded := h (blocksReq ⟨0, 1440⟩ RD_CMD_READ 0x100000 1439 2)
    [.call (blocksReq ⟨0, 1440⟩ RD_CMD_READ 0x100000 1439 2), .finish] _ rfl _
    (List.mem_singleton.mpr rfl) rfl
  exact absurd (hbounded.2 (by decide)).2 (by decide)

end RdSys

end Vmm386.Ramdisk
