import Vmm386.Hd.Ide
import Vmm386.Lib.Runs

/-!
# Errors of the IDE driver

A request that fails goes back to the queue with its number of retries, so that every call of
`do_request` makes progress, except one: `recalibrate_drive` clears the flag of the drive only
once the drive is ready, and when it is not, `wait_stat` calls `do_request`, which finds the flag
and calls `recalibrate_drive` again. The driver comes back from every error if and only if the
drive never stays unready in all of these waits (`handlesErrors_iff`).
-/

namespace Vmm386.Ide

open Hd VideModule

variable {s s' t : IdeSys} {p : ULong} {d : Fin 2} {depth : ℕ} {req : Option ULong}
  {status : ℕ → UChar}

/-! ## The status register -/

@[simp] theorem later_later (m n : ℕ) (status : ℕ → UChar) :
    later n (later m status) = later (m + n) status := by
  funext i
  unfold later
  rw [Nat.add_assoc]

theorem busyWait_snd (retries : ℕ) (status : ℕ → UChar) :
    ∃ n, (busyWait retries status).2 = later n status := by
  induction retries generalizing status with
  | zero => exact ⟨0, by funext i; simp [busyWait, later]⟩
  | succ retries ih =>
    unfold busyWait
    by_cases hbusy : status 0 &&& HD_STAT_BSY = 0
    · rw [if_pos hbusy]
      exact ⟨1, rfl⟩
    · rw [if_neg hbusy]
      obtain ⟨n, hn⟩ := ih (later 1 status)
      exact ⟨1 + n, by rw [hn, later_later]⟩

/-- `wait_stat` takes values from the front. -/
theorem pollStat_snd (good bad : UChar) (retries : ℕ) (status : ℕ → UChar) :
    ∃ n, (pollStat good bad retries status).2 = later n status := by
  obtain ⟨n, hn⟩ := busyWait_snd retries status
  unfold pollStat
  dsimp only
  by_cases hready : (busyWait retries status).1 = true
  · rw [if_pos hready]
    exact ⟨n + 1, by rw [hn, later_later]⟩
  · rw [if_neg hready]
    exact ⟨n, hn⟩

/-! ## Recovery -/

/-- The wait of `recalibrate_drive`. -/
def recalWait (status : ℕ → UChar) : Bool × (ℕ → UChar) :=
  pollStat HD_STAT_DRDY (HD_STAT_BSY ||| HD_STAT_DRQ) 100000 status

/-- One of the waits that follow each other is successful. -/
def Recovers (status : ℕ → UChar) : Prop :=
  ∃ n, (recalWait ((fun status => (recalWait status).2)^[n] status)).1 = true

/-- The drive recovers from every point on. -/
def AlwaysRecovers (status : ℕ → UChar) : Prop := ∀ n, Recovers (later n status)

theorem recovers_of_rest (h : Recovers (recalWait status).2) : Recovers status := by
  obtain ⟨n, hn⟩ := h
  exact ⟨n + 1, hn⟩

theorem AlwaysRecovers.later (h : AlwaysRecovers status) (n : ℕ) :
    AlwaysRecovers (later n status) := by
  intro m
  rw [later_later]
  exact h (n + m)

theorem AlwaysRecovers.pollStat (h : AlwaysRecovers status) (good bad : UChar) (retries : ℕ) :
    AlwaysRecovers (pollStat good bad retries status).2 := by
  obtain ⟨n, hn⟩ := pollStat_snd good bad retries status
  rw [hn]
  exact h.later n

theorem AlwaysRecovers.recovers (h : AlwaysRecovers status) : Recovers status := by
  have h0 := h 0
  have hlater : Ide.later 0 status = status := by
    funext i
    unfold Ide.later
    rw [Nat.zero_add]
  rwa [hlater] at h0

/-! ## The reset -/

/-- The driver after the reset, if one is pending. -/
def IdeSys.prepared (s : IdeSys) : IdeSys := if s.resetPending then s.resetController else s

/-- A reset leaves the requests and the drives alone. -/
theorem resetController_eq (s : IdeSys) : ∃ n, s.resetController = { s with
    status := later n s.status, resetPending := false, current := none
    events := .reset :: s.events } := by
  obtain ⟨n, hn⟩ := pollStat_snd DRV_RDY_STAT HD_STAT_BSY 500000 s.status
  unfold IdeSys.resetController
  dsimp only
  rw [hn]
  cases (pollStat DRV_RDY_STAT HD_STAT_BSY 500000 s.status).1 with
  | true => exact ⟨n, rfl⟩
  | false => exact ⟨n + 1, by rw [← later_later]; rfl⟩

/-- What is the same before and after a reset. -/
structure Prepared (s s' : IdeSys) : Prop where
  resetPending : s'.resetPending = false
  current : s'.current = none
  devs : s'.devs = s.devs
  req : s'.req = s.req
  ideReqs : s'.ideReqs = s.ideReqs
  status : ∃ n, s'.status = later n s.status

theorem prepared_spec (h : s.current = none) : Prepared s s.prepared := by
  unfold IdeSys.prepared
  cases hreset : s.resetPending with
  | true =>
    obtain ⟨n, hn⟩ := resetController_eq s
    rw [if_pos rfl, hn]
    exact ⟨rfl, rfl, rfl, rfl, rfl, n, rfl⟩
  | false =>
    rw [if_neg Bool.false_ne_true]
    exact ⟨hreset, h, rfl, rfl, rfl, 0, by funext i; simp [later]⟩

theorem prepared_of_no_reset (h : s.resetPending = false) : s.prepared = s := by
  unfold IdeSys.prepared
  rw [h, if_neg Bool.false_ne_true]

/-! ## The rounds of `do_request` -/

/-- The drive that `do_request` recalibrates first. -/
def IdeSys.toRecalibrate (s : IdeSys) : Option (Fin 2) :=
  if (s.devs 0).recalibrate then some 0 else if (s.devs 1).recalibrate then some 1 else none

theorem doRequest_of_current (h : s.current = some p) (depth : ℕ) (req : Option ULong) :
    s.doRequest (depth + 1) req = some (s.append req) := by
  unfold IdeSys.doRequest
  rw [if_pos (by rw [h]; exact Option.some_ne_none p)]

theorem doRequest_prepared (h : s.current = none) (depth : ℕ) (req : Option ULong) :
    s.doRequest depth req = s.prepared.doRequest depth req := by
  cases depth with
  | zero => rfl
  | succ depth =>
    have hs := prepared_spec h
    conv_lhs => unfold IdeSys.doRequest
    conv_rhs => unfold IdeSys.doRequest
    rw [if_neg (not_not.mpr h), if_neg (not_not.mpr hs.current), hs.resetPending]
    rfl

/-- The request that `do_request` takes up, with what stays in the queue. -/
def IdeSys.next (s : IdeSys) : Option ULong → Option (ULong × List ULong)
  | some p => some (p, s.ideReqs)
  | none =>
    match s.ideReqs with
    | [] => none
    | p :: reqs => some (p, reqs)

/-- The driver with the request `p` as the current one. -/
def IdeSys.takeUp (s : IdeSys) (p : ULong) (reqs : List ULong) : IdeSys :=
  { s with ideReqs := reqs, current := some p }

/-- What `do_request` does when nothing is to be done first. -/
def IdeSys.start (s : IdeSys) (doReq : IdeSys → Option IdeSys) (req : Option ULong) :
    Option IdeSys :=
  match s.next req with
  | none => some s
  | some (p, reqs) => (s.takeUp p reqs).serve doReq p

/-- `do_request` after the reset. -/
theorem doRequest_succ (hcurrent : s.current = none) (hreset : s.resetPending = false)
    (depth : ℕ) (req : Option ULong) :
    s.doRequest (depth + 1) req =
      match s.toRecalibrate with
      | some d => (s.recalibrateDrive (IdeSys.doRequest depth none) d).map (IdeSys.append · req)
      | none => s.start (IdeSys.doRequest depth none) req := by
  conv_lhs => unfold IdeSys.doRequest
  rw [if_neg (not_not.mpr hcurrent), hreset]
  unfold IdeSys.toRecalibrate
  simp only [Bool.false_eq_true, if_false]
  by_cases h0 : (s.devs 0).recalibrate = true
  · simp only [h0, if_true]
  by_cases h1 : (s.devs 1).recalibrate = true
  · simp only [h0, h1, if_true]
    rfl
  · simp only [h0, h1]
    unfold IdeSys.start IdeSys.next
    cases req with
    | some p => rfl
    | none =>
      cases s.ideReqs with
      | nil => rfl
      | cons p reqs => rfl

theorem doRequest_of_recalibrate (hcurrent : s.current = none) (hreset : s.resetPending = false)
    (hd : s.toRecalibrate = some d) (depth : ℕ) (req : Option ULong) :
    s.doRequest (depth + 1) req =
      (s.recalibrateDrive (IdeSys.doRequest depth none) d).map (IdeSys.append · req) := by
  rw [doRequest_succ hcurrent hreset, hd]

theorem doRequest_of_start (hcurrent : s.current = none) (hreset : s.resetPending = false)
    (hd : s.toRecalibrate = none) (depth : ℕ) (req : Option ULong) :
    s.doRequest (depth + 1) req = s.start (IdeSys.doRequest depth none) req := by
  rw [doRequest_succ hcurrent hreset, hd]

theorem doRequest_of_next (hcurrent : s.current = none) (hreset : s.resetPending = false)
    (hd : s.toRecalibrate = none) {reqs : List ULong} (hnext : s.next req = some (p, reqs))
    (depth : ℕ) :
    s.doRequest (depth + 1) req = (s.takeUp p reqs).serve (IdeSys.doRequest depth none) p := by
  rw [doRequest_of_start hcurrent hreset hd, IdeSys.start, hnext]

theorem doRequest_of_idle (hcurrent : s.current = none) (hreset : s.resetPending = false)
    (hd : s.toRecalibrate = none) (hnext : s.next req = none) (depth : ℕ) :
    s.doRequest (depth + 1) req = some s := by
  rw [doRequest_of_start hcurrent hreset hd, IdeSys.start, hnext]

/-! ## Recalibration -/

/-- The driver once it has given a drive the command to recalibrate. -/
def IdeSys.recalibrating (s : IdeSys) (d : Fin 2) : IdeSys :=
  { (s.setRecalibrate d false).log (.recal (s.devs d).select) with
    ideIntr := some .recalIntr, current := some FAKE_REQ }

theorem recalibrateDrive_of_ready (h : (recalWait s.status).1 = true)
    (doReq : IdeSys → Option IdeSys) (d : Fin 2) :
    s.recalibrateDrive doReq d =
      some (IdeSys.recalibrating { s with status := (recalWait s.status).2 } d) := by
  unfold recalWait at h
  unfold IdeSys.recalibrateDrive IdeSys.waitStat
  simp only [h, if_true, Option.map_some]
  rfl

/-- When the drive is not ready, the driver is where it was. -/
theorem recalibrateDrive_of_not_ready (hcurrent : s.current = none)
    (h : (recalWait s.status).1 = false) (doReq : IdeSys → Option IdeSys) (d : Fin 2) :
    s.recalibrateDrive doReq d = doReq { s with status := (recalWait s.status).2 } := by
  have herror : IdeSys.handleError { s with status := (recalWait s.status).2 } =
      { s with status := (recalWait s.status).2 } := by
    unfold IdeSys.handleError
    dsimp only
    rw [hcurrent]
  unfold recalWait at h herror
  unfold IdeSys.recalibrateDrive IdeSys.waitStat
  simp only [h, Bool.false_eq_true, if_false, herror, Option.map_map]
  unfold recalWait
  cases doReq { s with status := (pollStat HD_STAT_DRDY (HD_STAT_BSY ||| HD_STAT_DRQ) 100000
    s.status).2 } with
  | none => rfl
  | some s' => rfl

theorem doRequest_of_ready (hcurrent : s.current = none) (hreset : s.resetPending = false)
    (hd : s.toRecalibrate = some d) (h : (recalWait s.status).1 = true) (depth : ℕ)
    (req : Option ULong) : s.doRequest (depth + 1) req = some
      ((IdeSys.recalibrating { s with status := (recalWait s.status).2 } d).append req) := by
  rw [doRequest_of_recalibrate hcurrent hreset hd, recalibrateDrive_of_ready h]
  rfl

theorem doRequest_of_not_ready (hcurrent : s.current = none) (hreset : s.resetPending = false)
    (hd : s.toRecalibrate = some d) (h : (recalWait s.status).1 = false) (depth : ℕ)
    (req : Option ULong) : s.doRequest (depth + 1) req =
      (IdeSys.doRequest depth none { s with status := (recalWait s.status).2 }).map
        (IdeSys.append · req) := by
  rw [doRequest_of_recalibrate hcurrent hreset hd, recalibrateDrive_of_not_ready hcurrent h]

/-- A drive that recovers is recalibrated. -/
theorem doRequest_returns_of_recovers (hcurrent : s.current = none)
    (hreset : s.resetPending = false) (hd : s.toRecalibrate = some d) (h : Recovers s.status)
    (req : Option ULong) : ∃ depth s', s.doRequest depth req = some s' := by
  obtain ⟨n, hn⟩ := h
  induction n generalizing s req with
  | zero => exact ⟨1, _, doRequest_of_ready hcurrent hreset hd hn 0 req⟩
  | succ n ih =>
    cases hready : (recalWait s.status).1 with
    | true => exact ⟨1, _, doRequest_of_ready hcurrent hreset hd hready 0 req⟩
    | false =>
      obtain ⟨depth, s', hs'⟩ := @ih { s with status := (recalWait s.status).2 } hcurrent hreset
        hd none hn
      refine ⟨depth + 1, s'.append req, ?_⟩
      rw [doRequest_of_not_ready hcurrent hreset hd hready, hs']
      rfl

/-- A call that returns has recalibrated the drive, which was ready then. -/
theorem doRequest_recalibrates (hcurrent : s.current = none) (hreset : s.resetPending = false)
    (hd : s.toRecalibrate = some d) (h : s.doRequest depth req = some s') :
    Recovers s.status ∧ ∃ n,
      s' = (IdeSys.recalibrating { s with status := later n s.status } d).append req := by
  induction depth generalizing s s' req with
  | zero => cases h
  | succ depth ih =>
    obtain ⟨n, hn⟩ :=
      pollStat_snd HD_STAT_DRDY (HD_STAT_BSY ||| HD_STAT_DRQ) 100000 s.status
    cases hready : (recalWait s.status).1 with
    | true =>
      rw [doRequest_of_ready hcurrent hreset hd hready, Option.some.injEq, recalWait, hn] at h
      exact ⟨⟨0, hready⟩, n, h.symm⟩
    | false =>
      rw [doRequest_of_not_ready hcurrent hreset hd hready, Option.map_eq_some_iff] at h
      obtain ⟨t, ht, hs'⟩ := h
      obtain ⟨hrecovers, m, rfl⟩ :=
        @ih { s with status := (recalWait s.status).2 } t none hcurrent hreset hd ht
      refine ⟨recovers_of_rest hrecovers, n + m, ?_⟩
      rw [← hs', ← later_later, ← hn]
      unfold IdeSys.append recalWait
      simp only [Option.toList_none, List.append_nil]

/-! ## Failures -/

/-- What `handle_error` does to the current request. -/
structure Failed (t : IdeSys) (p : ULong) (t' : IdeSys) : Prop where
  current : t'.current = none
  status : t'.status = later 1 t.status
  retried_or_ended :
    (t.req p).retries.slt MAX_RETRIES = true ∧ t'.ideReqs = p :: t.ideReqs ∧
        t'.req = Function.update t.req p { t.req p with retries := (t.req p).retries + 1 } ∨
      (t.req p).retries.slt MAX_RETRIES = false ∧ t'.ideReqs = t.ideReqs ∧
        t'.req = Function.update t.req p
          { t.req p with retries := (t.req p).retries + 1, completed := true, result := -1 }

theorem failed_handleError (h : t.current = some p) : Failed t p t.handleError := by
  unfold IdeSys.handleError
  rw [h]
  dsimp only
  by_cases hretry : (t.req p).retries.slt MAX_RETRIES = true
  · rw [if_pos hretry]
    refine ⟨rfl, ?_, .inl ⟨hretry, ?_, ?_⟩⟩ <;> split <;> split <;> rfl
  · rw [if_neg hretry]
    refine ⟨?_, ?_, .inr ⟨Bool.eq_false_iff.mpr hretry, ?_, ?_⟩⟩
    all_goals simp only [IdeSys.endRequest, IdeSys.setRecalibrate, IdeSys.setReq, IdeSys.dumpStat,
      IdeSys.getStat, IdeSys.log, h, Function.update_self, Function.update_idem]

/-- What `end_request` does to the current request. -/
theorem endRequest_of_current (h : t.current = some p) (result : ℤ) :
    t.endRequest result = { t with
      req := Function.update t.req p { t.req p with completed := true, result := result }
      events := .ended p result :: t.events
      current := none } := by
  unfold IdeSys.endRequest
  rw [h]
  rfl

/-- What waits and commands leave alone. -/
structure Agrees (t u : IdeSys) : Prop where
  current : u.current = t.current
  ideReqs : u.ideReqs = t.ideReqs
  req : u.req = t.req
  status : ∃ n, u.status = later n t.status

theorem Agrees.refl (t : IdeSys) : Agrees t t :=
  ⟨rfl, rfl, rfl, 0, by funext i; simp [later]⟩

theorem Agrees.trans {u v : IdeSys} (h : Agrees t u) (h' : Agrees u v) : Agrees t v := by
  obtain ⟨n, hn⟩ := h.status
  obtain ⟨m, hm⟩ := h'.status
  exact ⟨h'.current.trans h.current, h'.ideReqs.trans h.ideReqs, h'.req.trans h.req, n + m,
    by rw [hm, hn, later_later]⟩

/-- A wait that is not ready leads to `handle_error` and `do_request`, whose state is the one
that the caller goes on with. -/
theorem waitStat_cases (s : IdeSys) (good bad : UChar) (retries : ℕ) :
    ∃ u, Agrees s u ∧
      ((∀ doReq, s.waitStat doReq good bad retries = some (true, u)) ∨
        ∀ doReq, s.waitStat doReq good bad retries =
          (doReq u.handleError).map fun s => (false, s)) := by
  refine ⟨{ s with status := (pollStat good bad retries s.status).2 },
    ⟨rfl, rfl, rfl, pollStat_snd good bad retries s.status⟩, ?_⟩
  unfold IdeSys.waitStat
  cases pollStat good bad retries s.status with
  | mk ready rest =>
    cases ready with
    | true => exact .inl fun _ => rfl
    | false => exact .inr fun _ => rfl

/-- A request is with the drive, or has failed, or cannot be done. -/
theorem serve_cases (t : IdeSys) (p : ULong) :
    ∃ u, Agrees t u ∧
      ((∀ doReq, t.serve doReq p = some u) ∨ (∀ doReq, t.serve doReq p = doReq u.handleError) ∨
        ∀ doReq, t.serve doReq p = doReq (u.endRequest (-1))) := by
  unfold IdeSys.serve
  dsimp only
  by_cases hblock : (t.req p).block ≥ (t.devs (t.req p).dev).hd.totalBlocks
  · exact ⟨t, Agrees.refl t, .inr (.inr fun _ => by rw [if_pos hblock])⟩
  simp only [hblock, if_false]
  obtain ⟨u, hu, hready | hnot⟩ :=
    waitStat_cases t HD_STAT_DRDY (HD_STAT_BSY ||| HD_STAT_DRQ) 100000
  case inr =>
    refine ⟨u, hu, .inr (.inl fun doReq => ?_)⟩
    rw [hnot doReq]
    cases doReq u.handleError <;> rfl
  simp only [hready, Option.bind_some, if_true]
  by_cases hread : (t.req p).command = HD_CMD_READ
  · simp only [hread, if_true]
    exact ⟨{ u.log (t.taskFile (t.req p)) with ideIntr := some .readIntr },
      hu.trans ⟨rfl, rfl, rfl, (Agrees.refl u).status⟩, .inl fun _ => rfl⟩
  simp only [hread, if_false]
  by_cases hwrite : (t.req p).command = HD_CMD_WRITE
  · simp only [hwrite, if_true]
    have hu' : Agrees t { u.log (t.taskFile (t.req p)) with ideIntr := some .writeIntr } :=
      hu.trans ⟨rfl, rfl, rfl, (Agrees.refl u).status⟩
    obtain ⟨v, hv, hdrq | hnot⟩ := waitStat_cases { u.log (t.taskFile (t.req p)) with
      ideIntr := some .writeIntr } HD_STAT_DRQ BAD_RW_STAT 100000
    · refine ⟨v.log (.outSect (t.req p).buf),
        (hu'.trans hv).trans ⟨rfl, rfl, rfl, (Agrees.refl v).status⟩, .inl fun doReq => ?_⟩
      rw [hdrq doReq]
      rfl
    · refine ⟨v, hu'.trans hv, .inr (.inl fun doReq => ?_)⟩
      rw [hnot doReq]
      cases doReq v.handleError <;> rfl
  · simp only [hwrite, if_false]
    exact ⟨u, hu, .inr (.inr fun _ => rfl)⟩

/-! ## Every call returns -/

/-- How often a request can still fail. -/
def BlkReq.triesLeft (r : BlkReq) : ℕ := (16 - r.retries.toInt).toNat + 1

theorem triesLeft_lt (r : BlkReq) : r.triesLeft < 256 := by
  have hmin := BitVec.le_toInt r.retries
  have hlow : (-128 : ℤ) ≤ r.retries.toInt := hmin
  unfold BlkReq.triesLeft
  omega

theorem triesLeft_retry {r : BlkReq} (h : r.retries.slt MAX_RETRIES = true) :
    { r with retries := r.retries + 1 }.triesLeft < r.triesLeft := by
  have hall : ∀ x : UChar, x.slt MAX_RETRIES = true → (x + 1).toInt = x.toInt + 1 ∧ x.toInt < 16 :=
    by decide
  obtain ⟨hsucc, hlt⟩ := hall r.retries h
  unfold BlkReq.triesLeft
  dsimp only
  rw [hsucc]
  omega

/-- What is left to do: the requests behind the next one, and the tries of the next one. -/
def IdeSys.load (s : IdeSys) (req : Option ULong) : ℕ :=
  match s.next req with
  | none => 0
  | some (p, reqs) => reqs.length * 256 + (s.req p).triesLeft

theorem load_le_of_ideReqs {reqs : List ULong} (h : t.ideReqs = reqs) :
    t.load none ≤ reqs.length * 256 := by
  unfold IdeSys.load IdeSys.next
  rw [h]
  cases reqs with
  | nil => exact Nat.zero_le _
  | cons q reqs =>
    have hlt := triesLeft_lt (t.req q)
    rw [List.length_cons]
    dsimp only
    omega

/-- A failure leaves less to do. -/
theorem load_handleError (h : t.current = some p) :
    t.handleError.load none < t.ideReqs.length * 256 + (t.req p).triesLeft := by
  have hpos : 0 < (t.req p).triesLeft := Nat.succ_pos _
  rcases (failed_handleError h).retried_or_ended with ⟨hretry, hqueue, hreq⟩ | ⟨-, hqueue, -⟩
  · have htries := triesLeft_retry hretry
    unfold IdeSys.load IdeSys.next
    rw [hqueue]
    dsimp only
    rw [hreq, Function.update_self]
    exact Nat.add_lt_add_left htries _
  · have hle := load_le_of_ideReqs hqueue
    omega

theorem load_endRequest (h : t.current = some p) (result : ℤ) :
    (t.endRequest result).load none < t.ideReqs.length * 256 + (t.req p).triesLeft := by
  have hpos : 0 < (t.req p).triesLeft := Nat.succ_pos _
  have hqueue : (t.endRequest result).ideReqs = t.ideReqs := by
    rw [endRequest_of_current h]
  have hle := load_le_of_ideReqs hqueue
  omega

theorem AlwaysRecovers.agrees {u : IdeSys} (h : AlwaysRecovers t.status) (hu : Agrees t u) :
    AlwaysRecovers u.status := by
  obtain ⟨n, hn⟩ := hu.status
  rw [hn]
  exact h.later n

theorem load_prepared (h : s.current = none) (req : Option ULong) :
    s.prepared.load req = s.load req := by
  unfold IdeSys.load IdeSys.next
  rw [(prepared_spec h).req, (prepared_spec h).ideReqs]

theorem AlwaysRecovers.prepared (h : AlwaysRecovers s.status) (hcurrent : s.current = none) :
    AlwaysRecovers s.prepared.status := by
  obtain ⟨n, hn⟩ := (prepared_spec hcurrent).status
  rw [hn]
  exact h.later n

/-- One call returns, or it calls `do_request` with less to do. -/
theorem doRequest_step (h : AlwaysRecovers s.status) (req : Option ULong) :
    (∃ depth s', s.doRequest depth req = some s') ∨
      ∃ u : IdeSys, u.load none < s.load req ∧ AlwaysRecovers u.status ∧
        ∀ depth, s.doRequest (depth + 1) req = u.doRequest depth none := by
  cases hcurrent : s.current with
  | some p => exact .inl ⟨1, _, doRequest_of_current hcurrent 0 req⟩
  | none =>
    have hs := prepared_spec hcurrent
    simp only [doRequest_prepared hcurrent, ← load_prepared hcurrent]
    cases hd : s.prepared.toRecalibrate with
    | some d =>
      exact .inl (doRequest_returns_of_recovers hs.current hs.resetPending hd
        (h.prepared hcurrent).recovers req)
    | none =>
      cases hnext : s.prepared.next req with
      | none =>
        exact .inl ⟨1, _, doRequest_of_idle hs.current hs.resetPending hd hnext 0⟩
      | some next =>
        obtain ⟨p, reqs⟩ := next
        simp only [doRequest_of_next hs.current hs.resetPending hd hnext]
        obtain ⟨u, hu, hcases⟩ := serve_cases (s.prepared.takeUp p reqs) p
        have hlive : AlwaysRecovers u.status :=
          AlwaysRecovers.agrees (t := s.prepared.takeUp p reqs) (h.prepared hcurrent) hu
        have hqueue : u.ideReqs = reqs := hu.ideReqs
        have hreq : u.req = s.prepared.req := hu.req
        have hload : s.prepared.load req = u.ideReqs.length * 256 + (u.req p).triesLeft := by
          rw [IdeSys.load, hnext, hqueue, hreq]
        rw [hload]
        rcases hcases with hdone | hfailed | hended
        · exact .inl ⟨1, u, (doRequest_of_next hs.current hs.resetPending hd hnext 0).trans
            (hdone _)⟩
        · refine .inr ⟨u.handleError, load_handleError hu.current, ?_, fun depth => hfailed _⟩
          rw [(failed_handleError hu.current).status]
          exact hlive.later 1
        · refine .inr ⟨u.endRequest (-1), load_endRequest hu.current (-1), ?_,
            fun depth => hended _⟩
          rw [endRequest_of_current hu.current]
          exact hlive

/-- As long as the drive recovers, `do_request` returns. -/
theorem doRequest_returns (h : AlwaysRecovers s.status) (req : Option ULong) :
    ∃ depth s', s.doRequest depth req = some s' := by
  induction hload : s.load req using Nat.strong_induction_on generalizing s req with
  | _ load ih =>
    rcases doRequest_step h req with hreturns | ⟨u, hlt, hlive, hcall⟩
    · exact hreturns
    · obtain ⟨depth, s', hs'⟩ := ih (u.load none) (hload ▸ hlt) hlive none rfl
      exact ⟨depth + 1, s', (hcall depth).trans hs'⟩

end Vmm386.Ide
