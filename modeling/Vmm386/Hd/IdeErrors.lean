import Vmm386.Hd.IdeTheorems

/-!
# When the IDE driver comes back from an error

`doRequest_returns` needs a drive that recovers. Here is the rest: what every call keeps, that the
interrupt handlers return too, and that a drive that does not recover keeps the driver in its
recursion.
-/

namespace Vmm386.Ide

open Hd VideModule

variable {s s' u : IdeSys} {p : ULong} {depth : ℕ} {req : Option ULong} {reqs : List ULong}
  {status : ℕ → UChar}

/-! ## What a call keeps -/

/-- A property that each step of the driver keeps. `I req s` is about the driver `s` in a call
with `req`. -/
structure Kept (I : Option ULong → IdeSys → Prop) : Prop where
  append : ∀ {s p req}, s.current = some p → I req s → I none (s.append req)
  prepared : ∀ {s req}, s.current = none → I req s → I req s.prepared
  recalibrating : ∀ {s req}, s.current = none → I req s → ∀ n d,
    I none ((IdeSys.recalibrating { s with status := later n s.status } d).append req)
  takeUp : ∀ {s p req reqs}, s.current = none → s.next req = some (p, reqs) → I req s →
    I none (s.takeUp p reqs)
  agrees : ∀ {s u}, Agrees s u → I none s → I none u
  handleError : ∀ {s p}, s.current = some p → I none s → I none s.handleError
  endRequest : ∀ {s p}, s.current = some p → I none s → ∀ result, I none (s.endRequest result)
  nextSector : ∀ {s p}, s.current = some p → I none s →
    I none (s.setReq p (s.req p).nextSector)
  release : ∀ {s}, I none s → I none { s with current := none }

theorem eq_none_of_next (h : s.next req = none) : req = none := by
  cases req with
  | none => rfl
  | some p => cases h

theorem Kept.doRequest {I : Option ULong → IdeSys → Prop} (hI : Kept I)
    (h : s.doRequest depth req = some s') (hs : I req s) : I none s' := by
  induction depth generalizing s req with
  | zero => cases h
  | succ depth ih =>
    cases hcurrent : s.current with
    | some p =>
      rw [doRequest_of_current hcurrent, Option.some.injEq] at h
      exact h ▸ hI.append hcurrent hs
    | none =>
      have hp := prepared_spec hcurrent
      have hs := hI.prepared hcurrent hs
      rw [doRequest_prepared hcurrent] at h
      cases hd : s.prepared.toRecalibrate with
      | some d =>
        obtain ⟨-, n, rfl⟩ := doRequest_recalibrates hp.current hp.resetPending hd h
        exact hI.recalibrating hp.current hs n d
      | none =>
        cases hnext : s.prepared.next req with
        | none =>
          rw [doRequest_of_idle hp.current hp.resetPending hd hnext, Option.some.injEq] at h
          rw [eq_none_of_next hnext] at hs
          exact h ▸ hs
        | some next =>
          obtain ⟨p, reqs⟩ := next
          rw [doRequest_of_next hp.current hp.resetPending hd hnext] at h
          obtain ⟨u, hu, hcases⟩ := serve_cases (s.prepared.takeUp p reqs) p
          have hIu : I none u := hI.agrees hu (hI.takeUp hp.current hnext hs)
          rcases hcases with hdone | hfailed | hended
          · rw [hdone, Option.some.injEq] at h
            exact h ▸ hIu
          · rw [hfailed] at h
            exact ih h (hI.handleError hu.current hIu)
          · rw [hended] at h
            exact ih h (hI.endRequest hu.current hIu (-1))

/-! ## Interrupts -/

theorem agrees_getStat (s : IdeSys) : Agrees s s.getStat := ⟨rfl, rfl, rfl, 1, rfl⟩

theorem agrees_log (s : IdeSys) (e : IdeEvent) : Agrees s (s.log e) :=
  ⟨rfl, rfl, rfl, (Agrees.refl s).status⟩

theorem agrees_ideIntr (s : IdeSys) (f : Option IntrFun) : Agrees s { s with ideIntr := f } :=
  ⟨rfl, rfl, rfl, (Agrees.refl s).status⟩

/-- What the handlers for a sector do: the transfer has failed, or the sector was the last one,
or there is a next one, whose start may have failed. -/
inductive SectorEnd (s : IdeSys) (p : ULong) : (ℕ → Option IdeSys) → Prop where
  | failed {u : IdeSys} (hu : Agrees s u) :
    SectorEnd s p fun depth => u.handleError.doRequest depth none
  | ended {u : IdeSys} (hu : Agrees s u) :
    SectorEnd s p fun depth => (u.endRequest 0).doRequest depth none
  | more {u : IdeSys} (hu : Agrees (s.setReq p (s.req p).nextSector) u) :
    SectorEnd s p fun _ => some u
  | notStarted {u : IdeSys} (hu : Agrees (s.setReq p (s.req p).nextSector) u) :
    SectorEnd s p fun depth => u.handleError.doRequest depth none

theorem readIntr_cases (h : s.current = some p) : SectorEnd s p s.readIntr := by
  unfold IdeSys.readIntr
  simp only [h]
  by_cases hstat : testStat (s.status 0) DATA_RDY_STAT BAD_RW_STAT = false
  · simp only [if_pos hstat]
    exact .failed (agrees_getStat s)
  simp only [if_neg hstat]
  have hu := (agrees_getStat s).trans (agrees_log _ (.inSect (s.req p).buf))
  by_cases hmore : (1 : ULong).slt (s.req p).nblocks = true
  · simp only [IdeSys.log, IdeSys.getStat, hmore, if_true]
    exact .more ⟨rfl, rfl, rfl, 1, rfl⟩
  · simp only [IdeSys.log, IdeSys.getStat, hmore]
    exact .ended hu

theorem writeIntr_cases (h : s.current = some p) : SectorEnd s p s.writeIntr := by
  unfold IdeSys.writeIntr
  simp only [h]
  by_cases hstat : testStat (s.status 0) DRV_RDY_STAT BAD_RW_STAT = false
  · simp only [if_pos hstat]
    exact .failed (agrees_getStat s)
  simp only [if_neg hstat]
  by_cases hmore : (1 : ULong).slt (s.req p).nblocks = true
  · simp only [IdeSys.getStat, hmore, if_true]
    have hs : Agrees (s.setReq p (s.req p).nextSector) (s.getStat.setReq p (s.req p).nextSector) :=
      ⟨rfl, rfl, rfl, 1, rfl⟩
    obtain ⟨u, hu, hready | hnot⟩ := waitStat_cases
      (s.getStat.setReq p (s.req p).nextSector) HD_STAT_DRQ BAD_RW_STAT 100000
    · simp only [IdeSys.getStat] at hready
      simp only [hready, Option.map_some, if_true]
      exact .more ((hs.trans hu).trans ⟨rfl, rfl, rfl, (Agrees.refl u).status⟩)
    · simp only [IdeSys.getStat] at hnot
      simp only [hnot, Option.map_map, Function.comp_def, Bool.false_eq_true, if_false,
        Option.map_id']
      exact .notStarted (hs.trans hu)
  · simp only [IdeSys.getStat, hmore]
    exact .ended (agrees_getStat s)

/-- What a handler does: nothing, or what is done at the end of a sector, or, after a
recalibration, the next request. -/
inductive Handled (s : IdeSys) : (ℕ → Option IdeSys) → Prop where
  | idle : Handled s fun _ => some s
  | sector {p : ULong} {call : ℕ → Option IdeSys} (hcurrent : s.current = some p)
    (h : SectorEnd s p call) : Handled s call
  | recal {u : IdeSys} (hu : Agrees { s with current := none } u) :
    Handled s fun depth => u.doRequest depth none

theorem handled_readIntr (s : IdeSys) : Handled s s.readIntr := by
  cases hcurrent : s.current with
  | none =>
    have hidle : s.readIntr = fun _ => some s := by
      funext depth
      rw [IdeSys.readIntr, hcurrent]
    rw [hidle]
    exact .idle
  | some p => exact .sector hcurrent (readIntr_cases hcurrent)

theorem handled_writeIntr (s : IdeSys) : Handled s s.writeIntr := by
  cases hcurrent : s.current with
  | none =>
    have hidle : s.writeIntr = fun _ => some s := by
      funext depth
      rw [IdeSys.writeIntr, hcurrent]
    rw [hidle]
    exact .idle
  | some p => exact .sector hcurrent (writeIntr_cases hcurrent)

theorem handled_ideIntHandler (s : IdeSys) : ∃ u, Agrees s u ∧ Handled u s.ideIntHandler := by
  cases hintr : s.ideIntr with
  | none =>
    have hidle : s.ideIntHandler = fun _ => some s := by
      funext depth
      rw [IdeSys.ideIntHandler, hintr]
    rw [hidle]
    exact ⟨s, Agrees.refl s, .idle⟩
  | some f =>
    refine ⟨{ s with ideIntr := none }, agrees_ideIntr s none, ?_⟩
    unfold IdeSys.ideIntHandler
    rw [hintr]
    cases f with
    | readIntr => exact handled_readIntr _
    | writeIntr => exact handled_writeIntr _
    | recalIntr => exact .recal ⟨rfl, rfl, rfl, 1 + 1, later_later 1 1 s.status⟩

theorem Kept.ideIntHandler {I : Option ULong → IdeSys → Prop} (hI : Kept I)
    (h : s.ideIntHandler depth = some s') (hs : I none s) : I none s' := by
  obtain ⟨u, hu, hhandled⟩ := handled_ideIntHandler s
  have hIu : I none u := hI.agrees hu hs
  generalize s.ideIntHandler = handler at h hhandled
  cases hhandled with
  | idle => exact Option.some.inj h ▸ hIu
  | recal hv => exact hI.doRequest h (hI.agrees hv (hI.release hIu))
  | sector hcurrent hend =>
    cases hend with
    | failed hv =>
      exact hI.doRequest h (hI.handleError (hv.current.trans hcurrent) (hI.agrees hv hIu))
    | ended hv =>
      exact hI.doRequest h (hI.endRequest (hv.current.trans hcurrent) (hI.agrees hv hIu) 0)
    | more hv => exact Option.some.inj h ▸ hI.agrees hv (hI.nextSector hcurrent hIu)
    | notStarted hv =>
      have hIv := hI.agrees hv (hI.nextSector hcurrent hIu)
      exact hI.doRequest h (hI.handleError (hv.current.trans hcurrent) hIv)

/-- As long as the drive recovers, the interrupt handlers return. -/
theorem ideIntHandler_returns (h : AlwaysRecovers s.status) :
    ∃ depth s', s.ideIntHandler depth = some s' := by
  obtain ⟨u, hu, hhandled⟩ := handled_ideIntHandler s
  have halways : AlwaysRecovers u.status := h.agrees hu
  generalize s.ideIntHandler = handler at hhandled
  have herror : ∀ v : IdeSys, ∀ p, v.current = some p → AlwaysRecovers v.status →
      ∃ depth s', v.handleError.doRequest depth none = some s' := by
    intro v p hcurrent hv
    apply doRequest_returns
    rw [(failed_handleError hcurrent).status]
    exact hv.later 1
  cases hhandled with
  | idle => exact ⟨0, u, rfl⟩
  | recal hv =>
    exact doRequest_returns (AlwaysRecovers.agrees (t := { u with current := none }) halways hv)
      none
  | sector hcurrent hend =>
    cases hend with
    | failed hv => exact herror _ _ (hv.current.trans hcurrent) (halways.agrees hv)
    | ended hv =>
      have hlive := halways.agrees hv
      apply doRequest_returns
      rw [endRequest_of_current (hv.current.trans hcurrent)]
      exact hlive
    | more hv => exact ⟨0, _, rfl⟩
    | notStarted hv =>
      exact herror _ _ (hv.current.trans hcurrent)
        (AlwaysRecovers.agrees (t := u.setReq _ _) halways hv)

/-! ## Retries -/

/-- The requests that are to be served: the current one, the queue, and the one of the call. -/
def IdeSys.pending (s : IdeSys) (req : Option ULong) : List ULong :=
  s.current.toList ++ (s.ideReqs ++ req.toList)

/-- Each request is to be served once, and was tried again `MAX_RETRIES` times at most since its
last sector. -/
structure Orderly (req : Option ULong) (s : IdeSys) : Prop where
  once : ∀ p ≠ FAKE_REQ, (s.pending req).count p ≤ 1
  retries : ∀ p ∈ s.pending req, p ≠ FAKE_REQ → (s.req p).retries.sle MAX_RETRIES = true

/-- Fewer requests are pending, and their numbers of retries are in order. -/
theorem Orderly.of_le {req' : Option ULong} (h : Orderly req s)
    (hcount : ∀ p ≠ FAKE_REQ, (s'.pending req').count p ≤ (s.pending req).count p)
    (hreq : ∀ p ∈ s'.pending req', p ≠ FAKE_REQ →
      s'.req p = s.req p ∨ (s'.req p).retries.sle MAX_RETRIES = true) : Orderly req' s' where
  once := fun p hp => (hcount p hp).trans (h.once p hp)
  retries := by
    intro p hmem hp
    rcases hreq p hmem hp with heq | hle
    · rw [heq]
      have hpos : 0 < (s.pending req).count p :=
        lt_of_lt_of_le (List.count_pos_iff.mpr hmem) (hcount p hp)
      exact h.retries p (List.count_pos_iff.mp hpos) hp
    · exact hle

theorem pending_of_current (h : s.current = some p) : s.pending none = p :: s.ideReqs := by
  rw [IdeSys.pending, h]
  simp

theorem pending_of_idle (h : s.current = none) (req : Option ULong) :
    s.pending req = s.ideReqs ++ req.toList := by
  rw [IdeSys.pending, h]
  rfl

/-- The current request is not in the queue. -/
theorem Orderly.ne_current (h : Orderly none s) (hcurrent : s.current = some p) {q : ULong}
    (hmem : q ∈ s.ideReqs) (hq : q ≠ FAKE_REQ) : q ≠ p := by
  rintro rfl
  have honce := h.once q hq
  rw [pending_of_current hcurrent, List.count_cons_self] at honce
  have hpos := List.count_pos_iff.mpr hmem
  omega

/-- The current request has left, and its own state does not matter any more. -/
theorem Orderly.drop_current (h : Orderly none s) (hcurrent : s.current = some p)
    (hcurrent' : s'.current = none) (hqueue : s'.ideReqs = s.ideReqs) {r : BlkReq}
    (hreq : s'.req = Function.update s.req p r) : Orderly none s' := by
  have hpending : s'.pending none = s.ideReqs := by
    rw [pending_of_idle hcurrent', hqueue]
    exact List.append_nil _
  refine h.of_le (fun q _ => ?_) fun q hmem hq => .inl ?_
  · rw [hpending, pending_of_current hcurrent]
    exact List.count_le_count_cons
  · rw [hpending] at hmem
    rw [hreq, Function.update_of_ne (h.ne_current hcurrent hmem hq)]

theorem sle_succ_of_slt : ∀ x : UChar, x.slt MAX_RETRIES = true →
    (x + 1).sle MAX_RETRIES = true := by
  decide

theorem kept_orderly : Kept Orderly where
  append := by
    intro s p req hcurrent h
    refine h.of_le (fun q _ => ?_) fun q _ _ => .inl rfl
    simp [IdeSys.pending, IdeSys.append]
  prepared := by
    intro s req hcurrent h
    have hs := prepared_spec hcurrent
    refine h.of_le (fun q _ => ?_) fun q _ _ => .inl (by rw [hs.req])
    rw [IdeSys.pending, IdeSys.pending, hs.current, hs.ideReqs, hcurrent]
  recalibrating := by
    intro s req hcurrent h n d
    refine h.of_le (fun q hq => ?_) fun q _ _ => .inl rfl
    simp only [IdeSys.pending, IdeSys.append, IdeSys.recalibrating, IdeSys.setRecalibrate,
      IdeSys.log, hcurrent, Option.toList_some, Option.toList_none, List.append_nil,
      List.singleton_append, List.nil_append]
    rw [List.count_cons_of_ne hq.symm]
  takeUp := by
    intro s p req reqs hcurrent hnext h
    refine h.of_le (fun q _ => ?_) fun q _ _ => .inl rfl
    have hcurrent' : (s.takeUp p reqs).current = some p := rfl
    rw [pending_of_current hcurrent', pending_of_idle hcurrent]
    change List.count q (p :: reqs) ≤ _
    unfold IdeSys.next at hnext
    cases req with
    | some r =>
      obtain ⟨rfl, rfl⟩ := Prod.mk.inj (Option.some.inj hnext)
      rw [Option.toList_some, (List.perm_append_singleton r s.ideReqs).count_eq]
    | none =>
      cases hqueue : s.ideReqs with
      | nil =>
        rw [hqueue] at hnext
        cases hnext
      | cons r rs =>
        rw [hqueue] at hnext
        obtain ⟨rfl, rfl⟩ := Prod.mk.inj (Option.some.inj hnext)
        rw [Option.toList_none, List.append_nil]
  agrees := by
    intro s u hu h
    refine h.of_le (fun q _ => ?_) fun q _ _ => .inl (by rw [hu.req])
    rw [IdeSys.pending, IdeSys.pending, hu.current, hu.ideReqs]
  handleError := by
    intro s p hcurrent h
    have hfailed := failed_handleError hcurrent
    rcases hfailed.retried_or_ended with ⟨hretry, hqueue, hreq⟩ | ⟨-, hqueue, hreq⟩
    · have hpending : s.handleError.pending none = s.pending none := by
        rw [pending_of_idle hfailed.current, pending_of_current hcurrent, hqueue]
        exact List.append_nil _
      refine h.of_le (fun q _ => by rw [hpending]) fun q _ _ => ?_
      by_cases hq : q = p
      · right
        rw [hreq, hq, Function.update_self]
        exact sle_succ_of_slt _ hretry
      · left
        rw [hreq, Function.update_of_ne hq]
    · exact h.drop_current hcurrent hfailed.current hqueue hreq
  endRequest := by
    intro s p hcurrent h result
    have hend := endRequest_of_current hcurrent result
    exact h.drop_current hcurrent (by rw [hend]) (by rw [hend]) (by rw [hend])
  nextSector := by
    intro s p hcurrent h
    refine h.of_le (fun q _ => le_rfl) fun q _ _ => ?_
    by_cases hq : q = p
    · right
      subst hq
      simp only [IdeSys.setReq, Function.update_self]
      rfl
    · left
      exact Function.update_of_ne hq _ _
  release := by
    intro s h
    refine h.of_le (fun q _ => ?_) fun q _ _ => .inl rfl
    simp [IdeSys.pending]

theorem kept_status (status : ℕ → UChar) : Kept fun _ s => ∃ n, s.status = later n status where
  append := fun _ h => h
  prepared := by
    rintro s req hcurrent ⟨n, hn⟩
    obtain ⟨m, hm⟩ := (prepared_spec hcurrent).status
    exact ⟨n + m, by rw [hm, hn, later_later]⟩
  recalibrating := by
    rintro s req hcurrent ⟨n, hn⟩ m d
    exact ⟨n + m, by rw [← later_later, ← hn]; rfl⟩
  takeUp := fun _ _ h => h
  agrees := by
    rintro s u hu ⟨n, hn⟩
    obtain ⟨m, hm⟩ := hu.status
    exact ⟨n + m, by rw [hm, hn, later_later]⟩
  handleError := by
    rintro s p hcurrent ⟨n, hn⟩
    exact ⟨n + 1, by rw [(failed_handleError hcurrent).status, hn, later_later]⟩
  endRequest := by
    rintro s p hcurrent h result
    rw [endRequest_of_current hcurrent]
    exact h
  nextSector := fun _ h => h
  release := fun h => h

/-! ## Error handling -/

/-- What error handling is to do while the drive shows these values: in every state that the
driver may be in, each call returns, and it tries no sector again more than `MAX_RETRIES`
times. -/
def HandlesErrors (status : ℕ → UChar) : Prop :=
  ∀ s : IdeSys, (∃ n, s.status = later n status) → ∀ c : IdeCall,
    ∃ depth s', s.call depth c = some s' ∧ (∃ n, s'.status = later n status) ∧
      (Orderly c.req s → Orderly none s')

theorem Kept.call {I : Option ULong → IdeSys → Prop} (hI : Kept I) {c : IdeCall}
    (h : s.call depth c = some s') (hs : I c.req s) : I none s' := by
  cases c with
  | request req => exact hI.doRequest h hs
  | interrupt => exact hI.ideIntHandler h hs

theorem call_returns (h : AlwaysRecovers s.status) (c : IdeCall) :
    ∃ depth s', s.call depth c = some s' := by
  cases c with
  | request req => exact doRequest_returns h req
  | interrupt => exact ideIntHandler_returns h

/-- A driver that is to recalibrate its first drive. -/
def recalibratingDriver (status : ℕ → UChar) : IdeSys where
  devs := fun _ =>
    { hd := ⟨0, 0, 0, 0, rfl⟩, ctl := 0, select := 0xA0, recalibrate := true }
  req := fun _ => ⟨0, 0, 0, 0, 0, 0, 0, false⟩
  ideReqs := []
  current := none
  ideIntr := none
  resetPending := false
  status := status
  events := []

/-- **IDE error handling.** The driver comes back from every error if and only if there is no
point from which on the drive is unready in every wait of `recalibrate_drive`. -/
theorem handlesErrors_iff (status : ℕ → UChar) : HandlesErrors status ↔ AlwaysRecovers status := by
  constructor
  · intro h n
    obtain ⟨depth, s', hs', -⟩ :=
      h (recalibratingDriver (later n status)) ⟨n, rfl⟩ (.request none)
    have hd : (recalibratingDriver (later n status)).toRecalibrate = some 0 := rfl
    exact (doRequest_recalibrates rfl rfl hd hs').1
  · rintro h s ⟨n, hn⟩ c
    have halways : AlwaysRecovers s.status := by
      rw [hn]
      exact h.later n
    obtain ⟨depth, s', hs'⟩ := call_returns halways c
    exact ⟨depth, s', hs', (kept_status status).call hs' ⟨n, hn⟩, kept_orderly.call hs'⟩

/-! ## A drive that is never ready -/

/-- The drive is unready in each wait of `recalibrate_drive` or of `do_request`. -/
def NeverReady (status : ℕ → UChar) : Prop := ∀ n, (recalWait (later n status)).1 = false

theorem NeverReady.later (h : NeverReady status) (n : ℕ) : NeverReady (later n status) := by
  intro m
  rw [later_later]
  exact h (n + m)

theorem NeverReady.recalWait (h : NeverReady status) : (Ide.recalWait status).1 = false := by
  have hzero : Ide.later 0 status = status := by
    funext i
    simp [Ide.later]
  rw [← hzero]
  exact h 0

/-- There is a drive to recalibrate, or a request for a block that exists. -/
def IdeSys.Busy (s : IdeSys) (req : Option ULong) : Prop :=
  s.toRecalibrate ≠ none ∨ ∃ p reqs, s.next req = some (p, reqs) ∧
    (s.req p).block < (s.devs (s.req p).dev).hd.totalBlocks

theorem toRecalibrate_ne_none {d : Fin 2} (h : (s.devs d).recalibrate = true) :
    s.toRecalibrate ≠ none := by
  unfold IdeSys.toRecalibrate
  fin_cases d
  · have h0 : (s.devs 0).recalibrate = true := h
    simp [h0]
  · have h1 : (s.devs 1).recalibrate = true := h
    cases h0 : (s.devs 0).recalibrate <;> simp [h1]

/-- After a failure there is a drive to recalibrate, or the request is the next one again. -/
theorem busy_handleError (h : s.current = some p)
    (hblock : (s.req p).block < (s.devs (s.req p).dev).hd.totalBlocks) :
    s.handleError.Busy none := by
  unfold IdeSys.handleError
  rw [h]
  dsimp only
  by_cases hretry : (s.req p).retries.slt MAX_RETRIES = true
  · rw [if_pos hretry]
    by_cases hrecal : ((s.req p).retries + 1).srem RECAL_FREQ = 0
    · left
      apply toRecalibrate_ne_none (d := (s.req p).dev)
      rw [if_pos hrecal]
      simp [IdeSys.setRecalibrate]
    · right
      refine ⟨p, s.ideReqs, ?_, ?_⟩
      · rw [if_neg hrecal]
        split <;> rfl
      · rw [if_neg hrecal]
        split <;> simpa [IdeSys.setReq, IdeSys.dumpStat, IdeSys.getStat] using hblock
  · left
    apply toRecalibrate_ne_none (d := (s.req p).dev)
    rw [if_neg hretry]
    simp [IdeSys.endRequest, IdeSys.setRecalibrate, IdeSys.setReq, IdeSys.dumpStat,
      IdeSys.getStat, IdeSys.log, h]

/-- A request fails when the drive is not ready. -/
theorem serve_of_not_ready (h : (recalWait s.status).1 = false)
    (hblock : (s.req p).block < (s.devs (s.req p).dev).hd.totalBlocks)
    (doReq : IdeSys → Option IdeSys) :
    s.serve doReq p = doReq (IdeSys.handleError { s with status := (recalWait s.status).2 }) := by
  unfold recalWait at h
  unfold IdeSys.serve IdeSys.waitStat recalWait
  simp only [ge_iff_le, BitVec.not_le.mpr hblock, if_false, h, Bool.false_eq_true]
  cases doReq (IdeSys.handleError { s with
    status := (pollStat HD_STAT_DRDY (HD_STAT_BSY ||| HD_STAT_DRQ) 100000 s.status).2 }) with
  | none => rfl
  | some s' => rfl

/-- On a drive that is never ready, `do_request` never returns once it has something to do. -/
theorem doRequest_of_neverReady (hstatus : NeverReady s.status) (hcurrent : s.current = none)
    (hbusy : s.Busy req) (depth : ℕ) : s.doRequest depth req = none := by
  induction depth generalizing s req with
  | zero => rfl
  | succ depth ih =>
    have hs := prepared_spec hcurrent
    have hnever : NeverReady s.prepared.status := by
      obtain ⟨n, hn⟩ := hs.status
      rw [hn]
      exact hstatus.later n
    obtain ⟨n, hn⟩ :=
      pollStat_snd HD_STAT_DRDY (HD_STAT_BSY ||| HD_STAT_DRQ) 100000 s.prepared.status
    have hrest : NeverReady (recalWait s.prepared.status).2 := by
      rw [recalWait, hn]
      exact hnever.later n
    rw [doRequest_prepared hcurrent]
    cases hd : s.prepared.toRecalibrate with
    | some d =>
      have hstuck := @ih { s.prepared with status := (recalWait s.prepared.status).2 } none hrest
        hs.current (.inl (by change s.prepared.toRecalibrate ≠ none; simp [hd]))
      rw [doRequest_of_not_ready hs.current hs.resetPending hd hnever.recalWait, hstuck]
      rfl
    | none =>
      rcases hbusy with hrecal | ⟨p, reqs, hnext, hblock⟩
      · exfalso
        apply hrecal
        rw [← hd]
        unfold IdeSys.toRecalibrate
        rw [hs.devs]
      rw [← hs.devs, ← hs.req] at hblock
      have hnext' : s.prepared.next req = some (p, reqs) := by
        rw [← hnext]
        unfold IdeSys.next
        rw [hs.ideReqs]
      rw [doRequest_of_next hs.current hs.resetPending hd hnext',
        serve_of_not_ready (s := s.prepared.takeUp p reqs) hnever.recalWait hblock]
      have hfailed := failed_handleError (t := { s.prepared.takeUp p reqs with
        status := (recalWait s.prepared.status).2 }) (p := p) rfl
      apply ih _ hfailed.current (busy_handleError rfl hblock)
      rw [hfailed.status]
      exact hrest.later 1

/-! ## The drive that is always busy -/

theorem busyWait_busy (retries : ℕ) :
    busyWait retries (fun _ => HD_STAT_BSY) = (false, fun _ => HD_STAT_BSY) := by
  induction retries with
  | zero => rfl
  | succ retries ih =>
    rw [busyWait, if_neg (by decide)]
    exact ih

theorem pollStat_busy (good bad : UChar) (retries : ℕ) :
    pollStat good bad retries (fun _ => HD_STAT_BSY) = (false, fun _ => HD_STAT_BSY) := by
  unfold pollStat
  rw [busyWait_busy]
  rfl

theorem neverReady_busy : NeverReady fun _ => HD_STAT_BSY := by
  intro n
  have hconst : later n (fun _ => HD_STAT_BSY) = fun _ => HD_STAT_BSY := rfl
  rw [hconst, recalWait, pollStat_busy]

/-- An idle driver, whose first drive has 1000 cylinders, 16 heads and 63 sectors. -/
def idleDriver (status : ℕ → UChar) : IdeSys where
  devs := fun _ =>
    { hd := ⟨16, 1000, 63, 1008000, by decide⟩, ctl := 8, select := 0xA0, recalibrate := false }
  req := fun _ => ⟨0, 0, 0, 0, 0, 0, 0, false⟩
  ideReqs := []
  current := none
  ideIntr := none
  resetPending := false
  status := status
  events := []

/-- The request of `ide_read_blocks` for the first block of the first drive never comes back from
`do_request` when the drive is always busy. -/
theorem alwaysBusy_not_handled :
    (∀ depth, (idleDriver fun _ => HD_STAT_BSY).syncRequest depth 0x1000
      ⟨0, 0x2000, 0, 1, HD_CMD_READ, 0, 0, false⟩ = none) ∧
      ¬HandlesErrors fun _ => HD_STAT_BSY := by
  have hnone : ∀ depth, (idleDriver fun _ => HD_STAT_BSY).syncRequest depth 0x1000
      ⟨0, 0x2000, 0, 1, HD_CMD_READ, 0, 0, false⟩ = none := by
    intro depth
    apply doRequest_of_neverReady neverReady_busy rfl
    refine .inr ⟨0x1000, [], rfl, ?_⟩
    simp only [IdeSys.setReq, Function.update_self]
    decide
  refine ⟨hnone, fun h => ?_⟩
  obtain ⟨depth, s', hs', -⟩ := h ((idleDriver fun _ => HD_STAT_BSY).setReq 0x1000
    ⟨0, 0x2000, 0, 1, HD_CMD_READ, 0, 0, false⟩) ⟨0, by rfl⟩ (.request (some 0x1000))
  have hcall : (idleDriver fun _ => HD_STAT_BSY).syncRequest depth 0x1000
      ⟨0, 0x2000, 0, 1, HD_CMD_READ, 0, 0, false⟩ = some s' := hs'
  rw [hnone depth] at hcall
  cases hcall

end Vmm386.Ide
