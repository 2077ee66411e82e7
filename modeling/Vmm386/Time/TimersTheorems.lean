import Mathlib.Data.List.Sort
import Vmm386.Mm.PageTheorems
import Vmm386.Time.Timers

/-!
# What the timers do

While no request is added twice and the times do not wrap, every timer fires when it should.
-/

namespace Vmm386.Time

open Mm Runs

variable {s s' : TimerSys} {a : Alarms ULong} {l : List ULong} {req ticks : ULong}

/-! ## The list -/

/-- The loop of `add_timer` stops where the list has the first request that is not earlier. -/
theorem findPlace_spec {k : ℕ} {x : Option ULong} (h : s.links.ListAt NULL x l)
    (hk : l.length ≤ k) :
    s.findPlace req k x =
      Links.behind x (l.takeWhile fun q => ¬s.wakeupTicks req ≤ s.wakeupTicks q) := by
  induction l generalizing x k with
  | nil =>
    have hget : s.links.get x = NULL := h.1
    cases k with
    | zero => rfl
    | succ k =>
      rw [TimerSys.findPlace, if_neg fun hc => hc.1 hget]
      rfl
  | cons q l ih =>
    cases k with
    | zero => exact absurd hk (Nat.not_succ_le_zero _)
    | succ k =>
      have hget : s.links.get x = q := h.1.1
      rw [TimerSys.findPlace, hget]
      by_cases hlt : s.wakeupTicks q < s.wakeupTicks req
      · rw [if_pos ⟨h.1.2.1, hlt⟩, ih h.tail (Nat.le_of_succ_le_succ hk)]
        rw [List.takeWhile_cons_of_pos (by simpa using hlt)]
        rfl
      · rw [if_neg fun hc => hlt hc.2]
        rw [List.takeWhile_cons_of_neg (by simpa using hlt)]
        rfl

/-- `remove_timer` of a request that it does not find. -/
theorem removeLoop_of_notMem {m : Links ULong} {k : ℕ} {x : Option ULong}
    (h : m.ListAt NULL x l) (hreq : req ∉ l) : TimerSys.removeLoop req k x m = m := by
  induction k generalizing x l with
  | zero => rfl
  | succ k ih =>
    rw [TimerSys.removeLoop]
    cases l with
    | nil =>
      have hget : m.get x = NULL := h.1
      rw [if_neg fun hc => hc hget]
    | cons q l =>
      have hget : m.get x = q := h.1.1
      rw [List.mem_cons, not_or] at hreq
      rw [hget, if_pos h.1.2.1, if_neg fun heq => hreq.1 heq.symm]
      exact ih h.tail hreq.2

theorem removeLoop_append {m : Links ULong} {l' : List ULong} {k : ℕ} {x : Option ULong}
    (h : m.ListAt NULL x (l ++ req :: l')) (hk : l.length < k) (hreq : req ∉ l) :
    TimerSys.removeLoop req k x m = m.set (Links.behind x l) (m.next req) := by
  induction l generalizing x k with
  | nil =>
    have hget : m.get x = req := h.1.1
    cases k with
    | zero => exact absurd hk (Nat.not_lt_zero _)
    | succ k =>
      rw [TimerSys.removeLoop, hget, if_pos h.1.2.1, if_pos rfl]
      rfl
  | cons q l ih =>
    have hget : m.get x = q := h.1.1
    rw [List.mem_cons, not_or] at hreq
    cases k with
    | zero => exact absurd hk (Nat.not_lt_zero _)
    | succ k =>
      rw [TimerSys.removeLoop, hget, if_pos h.1.2.1, if_neg fun heq => hreq.1 heq.symm]
      exact ih h.tail (Nat.lt_of_succ_lt_succ hk) hreq.2

/-- `remove_timer` takes the request out of the list, if it is there. -/
theorem removeTimer_spec (h : s.links.ListAt NULL none l) (req : ULong) :
    (s.removeTimer req).links.ListAt NULL none (l.erase req) := by
  change (TimerSys.removeLoop req ADDRESSES none s.links).ListAt NULL none (l.erase req)
  by_cases hreq : req ∈ l
  · obtain ⟨l₁, l₂, rfl⟩ := List.append_of_mem hreq
    have hnodup := h.1.nodup
    have hl₁ : req ∉ l₁ := fun hmem =>
      List.disjoint_of_nodup_append hnodup hmem (List.mem_cons_self ..)
    have hlen := length_le_addresses hnodup
    rw [List.length_append, List.length_cons] at hlen
    rw [removeLoop_append h (by omega) hl₁]
    rw [List.erase_append_right _ hl₁, List.erase_cons_head]
    exact h.remove
  · rw [removeLoop_of_notMem h hreq, List.erase_of_not_mem hreq]
    exact h

theorem insert_findPlace (h : s.links.ListAt NULL none l) (hne : req ≠ NULL) (hreq : req ∉ l) :
    let x := s.findPlace req ADDRESSES none
    ((s.links.set (some req) (s.links.get x)).set x req).ListAt NULL none
      (l.orderedInsert (fun r q => s.wakeupTicks r ≤ s.wakeupTicks q) req) := by
  rw [findPlace_spec h (length_le_addresses h.1.nodup), List.orderedInsert_eq_take_drop]
  refine Links.ListAt.insert ?_ hne ?_ nofun
  · rw [List.takeWhile_append_dropWhile]
    exact h
  · rw [List.takeWhile_append_dropWhile]
    exact hreq

/-- `add_timer` puts the request into the list, before those that are not earlier. -/
theorem addTimer_spec (h : s.links.ListAt NULL none l) (hne : req ≠ NULL) (hreq : req ∉ l) :
    (s.addTimer req).links.ListAt NULL none (l.orderedInsert
      (fun r q => (s.addTimer req).wakeupTicks r ≤ (s.addTimer req).wakeupTicks q) req) :=
  insert_findPlace (s := { s with
    wakeupTicks := Function.update s.wakeupTicks req (s.wakeupTicks req + s.timerTicks) })
    h hne hreq

/-! ## The invariant -/

/-- The list holds the alarms that are set, in the order of their `wakeup_ticks`. These count from
the last time at which the counter wraps before the next tick; a time in the past is as good as
the next tick. -/
structure TimerInv (s : TimerSys) (a : Alarms ULong) (l : List ULong) : Prop where
  list : s.links.ListAt NULL none l
  sorted : l.Pairwise fun r q => s.wakeupTicks r ≤ s.wakeupTicks q
  unset : ∀ r ∉ l, a.due r = none
  due : ∀ r ∈ l, a.due r =
    some (max (2 ^ 32 * (a.next / 2 ^ 32) + (s.wakeupTicks r).toNat) a.next)
  ticks : s.timerTicks.toNat = a.now % 2 ^ 32
  ringing : a.ringing = s.dispatching

namespace TimerInv

theorem record (h : TimerInv s a l) (e : TimerEvent) : TimerInv (s.record e) a l :=
  ⟨h.list, h.sorted, h.unset, h.due, h.ticks, h.ringing⟩

theorem initial (h : s.Initial) : TimerInv s (.start s.timerTicks.toNat) [] where
  list := ⟨h.1, fun _ hr => absurd hr List.not_mem_nil⟩
  sorted := List.Pairwise.nil
  unset _ _ := rfl
  due _ hr := absurd hr List.not_mem_nil
  ticks := (Nat.mod_eq_of_lt s.timerTicks.isLt).symm
  ringing := h.2.1.symm

theorem mem_iff (h : TimerInv s a l) (r : ULong) : r ∈ l ↔ a.due r ≠ none := by
  constructor
  · intro hr
    rw [h.due r hr]
    exact nofun
  · intro hr
    by_contra hnot
    exact hr (h.unset r hnot)

theorem onList_iff (h : TimerInv s a l) : s.OnList req ↔ req ∈ l := by
  constructor
  · intro ⟨l', hl', hreq⟩
    rwa [h.list.1.unique hl']
  · exact fun hreq => ⟨l, h.list.1, hreq⟩

theorem sortedDue (h : TimerInv s a l) :
    l.Pairwise fun r q => ∀ t ∈ a.due r, ∀ u ∈ a.due q, t ≤ u := by
  refine h.sorted.imp_of_mem ?_
  intro r q hr hq hle t ht u hu
  have hle' : (s.wakeupTicks r).toNat ≤ (s.wakeupTicks q).toNat := hle
  rw [h.due r hr, Option.mem_some_iff] at ht
  rw [h.due q hq, Option.mem_some_iff] at hu
  omega

theorem next_of_dispatching (h : TimerInv s a l) (hd : s.dispatching = true) :
    a.next = a.now := by
  rw [Alarms.next, h.ringing, if_pos hd]

theorem next_of_idle (h : TimerInv s a l) (hd : s.dispatching = false) :
    a.next = a.now + 1 := by
  rw [Alarms.next, h.ringing, hd]
  rfl

/-! ## One step -/

theorem tick (h : TimerInv s a l) (hd : s.dispatching = false) :
    TimerInv s.tick (a.after .tick) l := by
  have hnext : (a.after .tick).next = a.next := by
    rw [h.next_of_idle hd]
    rfl
  refine ⟨h.list, h.sorted, h.unset, ?_, ?_, rfl⟩
  · rw [hnext]
    exact h.due
  · have hticks := h.ticks
    have hadd : (s.timerTicks + 1).toNat = (s.timerTicks.toNat + 1) % 2 ^ 32 :=
      BitVec.toNat_add ..
    change (s.timerTicks + 1).toNat = (a.now + 1) % 2 ^ 32
    omega

/-- The first request of the list has expired: it fires, and not late. -/
theorem fire (h : TimerInv s a (req :: l)) (hd : s.dispatching = true)
    (hle : s.wakeupTicks req ≤ s.timerTicks) :
    a.due req = some a.now ∧
      TimerInv { s with links := s.links.set none (s.links.next req) } (a.after (.fired req)) l := by
  have hnodup := List.nodup_cons.mp h.list.1.nodup
  have hnext := h.next_of_dispatching hd
  constructor
  · have hle' : (s.wakeupTicks req).toNat ≤ s.timerTicks.toNat := hle
    have hticks := h.ticks
    rw [h.due req (List.mem_cons_self ..), hnext]
    congr 1
    omega
  · refine ⟨h.list.unlink, (List.pairwise_cons.mp h.sorted).2, ?_, ?_, h.ticks, h.ringing⟩
    · intro r hr
      by_cases heq : r = req
      · rw [heq]
        exact Function.update_self ..
      · have hnot : r ∉ req :: l := by
          rw [List.mem_cons, not_or]
          exact ⟨heq, hr⟩
        exact (Function.update_of_ne heq ..).trans (h.unset r hnot)
    · intro r hr
      have hne : r ≠ req := fun heq => hnodup.1 (heq ▸ hr)
      exact (Function.update_of_ne hne ..).trans (h.due r (List.mem_cons_of_mem req hr))

/-- The first request of the list has not expired, so none has. -/
theorem finish (h : TimerInv s a l) (hd : s.dispatching = true)
    (hlt : ∀ r ∈ l, s.timerTicks < s.wakeupTicks r) :
    (∀ r, a.due r ≠ some a.now) ∧
      TimerInv { s with dispatching := false } (a.after .finished) l := by
  have hnext := h.next_of_dispatching hd
  have hticks := h.ticks
  constructor
  · intro r hr
    have hmem : r ∈ l := (h.mem_iff r).mpr (hr ▸ nofun)
    have hlt' : s.timerTicks.toNat < (s.wakeupTicks r).toNat := hlt r hmem
    rw [h.due r hmem, hnext, Option.some.injEq] at hr
    omega
  · refine ⟨h.list, h.sorted, h.unset, ?_, hticks, rfl⟩
    intro r hr
    have hlt' : s.timerTicks.toNat < (s.wakeupTicks r).toNat := hlt r hr
    have hbound := (s.wakeupTicks r).isLt
    -- a request that expires later shows that the counter does not wrap now
    have hdue := h.due r hr
    rw [hnext] at hdue
    change a.due r = some (max (2 ^ 32 * ((a.now + 1) / 2 ^ 32) + (s.wakeupTicks r).toNat)
      (a.now + 1))
    rw [hdue]
    congr 1
    omega

/-- What `Safe` asks of the time makes the sum the time of the first tick at which the delay has
elapsed. -/
theorem due_add (h : TimerInv s a l)
    (hsafe : if s.dispatching = false ∧ s.timerTicks = 0xFFFFFFFF then ticks ≠ 0
      else s.timerTicks.toNat + ticks.toNat < 2 ^ 32) :
    max (a.now + ticks.toNat) a.next =
      max (2 ^ 32 * (a.next / 2 ^ 32) + (ticks + s.timerTicks).toNat) a.next := by
  have hticks := h.ticks
  have hlt := ticks.isLt
  have hlt' := s.timerTicks.isLt
  have hadd : (ticks + s.timerTicks).toNat = (ticks.toNat + s.timerTicks.toNat) % 2 ^ 32 :=
    BitVec.toNat_add ..
  cases hd : s.dispatching with
  | false =>
    have hnext := h.next_of_idle hd
    by_cases hmax : s.timerTicks = 0xFFFFFFFF
    · rw [if_pos ⟨hd, hmax⟩] at hsafe
      have hmax' : s.timerTicks.toNat = 2 ^ 32 - 1 := by
        rw [hmax]
        rfl
      have hpos : ticks.toNat ≠ 0 := fun heq => hsafe (BitVec.eq_of_toNat_eq heq)
      omega
    · rw [if_neg fun hc => hmax hc.2] at hsafe
      have hmax' : s.timerTicks.toNat ≠ 2 ^ 32 - 1 := fun heq =>
        hmax (BitVec.eq_of_toNat_eq heq)
      omega
  | true =>
    have hnext := h.next_of_dispatching hd
    rw [if_neg fun hc => Bool.noConfusion (hd.symm.trans hc.1)] at hsafe
    omega

theorem add (h : TimerInv s a l) {type : TimerType} (hne : req ≠ NULL)
    (hsafe : Safe s (.addTimer req ticks type)) :
    ∃ l', TimerInv ((s.setTimer req ticks type).addTimer req) (a.after (.added req ticks.toNat)) l' := by
  have hreq : req ∉ l := fun hmem => hsafe.1 (h.onList_iff.mpr hmem)
  have hwakeup : ((s.setTimer req ticks type).addTimer req).wakeupTicks =
      Function.update s.wakeupTicks req (ticks + s.timerTicks) := by
    change Function.update (Function.update s.wakeupTicks req ticks) req
      (Function.update s.wakeupTicks req ticks req + s.timerTicks) = _
    rw [Function.update_idem, Function.update_self]
  have hold : ∀ r ∈ l, ((s.setTimer req ticks type).addTimer req).wakeupTicks r =
      s.wakeupTicks r := by
    intro r hr
    rw [hwakeup]
    exact Function.update_of_ne (fun heq : r = req => hreq (heq ▸ hr)) ..
  have hspec := addTimer_spec (s := s.setTimer req ticks type) h.list hne hreq
  generalize hs' : (s.setTimer req ticks type).addTimer req = s' at hspec hwakeup hold
  have htotal : Std.Total fun r q => s'.wakeupTicks r ≤ s'.wakeupTicks q :=
    ⟨fun r q => Nat.le_total (s'.wakeupTicks r).toNat (s'.wakeupTicks q).toNat⟩
  have htrans : IsTrans ULong fun r q => s'.wakeupTicks r ≤ s'.wakeupTicks q :=
    ⟨fun r q p hrq hqp => Nat.le_trans hrq hqp⟩
  refine ⟨_, hspec, ?_, ?_, ?_, ?_, ?_⟩
  · apply List.Pairwise.orderedInsert
    refine h.sorted.imp_of_mem ?_
    intro r q hr hq hle
    rwa [hold r hr, hold q hq]
  · intro r hr
    rw [List.mem_orderedInsert, not_or] at hr
    exact (Function.update_of_ne hr.1 ..).trans (h.unset r hr.2)
  · intro r hr
    change Function.update a.due req (some (max (a.now + ticks.toNat) a.next)) r =
      some (max (2 ^ 32 * (a.next / 2 ^ 32) + (s'.wakeupTicks r).toNat) a.next)
    rcases (List.mem_orderedInsert _).mp hr with rfl | hr
    · rw [Function.update_self, hwakeup, Function.update_self, h.due_add hsafe.2]
    · have hrq : r ≠ req := fun heq => hreq (heq ▸ hr)
      rw [Function.update_of_ne hrq, hold r hr]
      exact h.due r hr
  · rw [← hs']
    exact h.ticks
  · rw [← hs']
    exact h.ringing

theorem remove (h : TimerInv s a l) (req : ULong) :
    TimerInv (s.removeTimer req) (a.after (.removed req)) (l.erase req) := by
  have hnodup := h.list.1.nodup
  refine ⟨removeTimer_spec h.list req, h.sorted.sublist List.erase_sublist, ?_, ?_, h.ticks,
    h.ringing⟩
  · intro r hr
    change Function.update a.due req none r = none
    by_cases heq : r = req
    · rw [heq, Function.update_self]
    · rw [Function.update_of_ne heq]
      exact h.unset r fun hmem => hr ((List.mem_erase_of_ne heq).mpr hmem)
  · intro r hr
    have hmem := hnodup.mem_erase_iff.mp hr
    exact (Function.update_of_ne hmem.1 ..).trans (h.due r hmem.2)

/-- What one iteration of the loop of `cmos_timer` does. -/
theorem dispatch (h : TimerInv s a l) (hd : s.dispatching = true) :
    ∃ e l', s.dispatch.events = e :: s.events ∧ a.Allowed e.alarm ∧
      TimerInv s.dispatch (a.after e.alarm) l' ∧
      (s.dispatch.dispatching = false ∨ l'.length < l.length) := by
  have hringing : a.ringing = true := h.ringing.trans hd
  have hfinish (hlt : ∀ r ∈ l, s.timerTicks < s.wakeupTicks r)
      (hs : s.dispatch = { s with dispatching := false }.record .finished) :
      ∃ e l', s.dispatch.events = e :: s.events ∧ a.Allowed e.alarm ∧
        TimerInv s.dispatch (a.after e.alarm) l' ∧
        (s.dispatch.dispatching = false ∨ l'.length < l.length) := by
    obtain ⟨hnone, hinv⟩ := h.finish hd hlt
    rw [hs]
    exact ⟨.finished, l, rfl, ⟨hringing, hnone⟩, hinv.record _, Or.inl rfl⟩
  cases l with
  | nil =>
    have hhead : s.links.head = NULL := h.list.1
    exact hfinish (fun r hr => absurd hr List.not_mem_nil) (if_neg fun hc => hc.1 hhead)
  | cons req l =>
    have hhead : s.links.head = req := h.list.1.1
    by_cases hle : s.wakeupTicks req ≤ s.timerTicks
    · obtain ⟨hdue, hinv⟩ := h.fire hd hle
      have hlen : l.length < (req :: l).length := Nat.lt_succ_self _
      have hcond : s.links.head ≠ NULL ∧ s.wakeupTicks s.links.head ≤ s.timerTicks := by
        rw [hhead]
        exact ⟨h.list.1.2.1, hle⟩
      rw [TimerSys.dispatch, if_pos hcond, hhead]
      cases htype : s.type req with
      | task =>
        simp only [htype]
        exact ⟨.signal req, l, rfl, ⟨hringing, hdue⟩, hinv.record _, Or.inr hlen⟩
      | func =>
        simp only [htype]
        exact ⟨.func req, l, rfl, ⟨hringing, hdue⟩, hinv.record _, Or.inr hlen⟩
    · -- the others are not earlier than the first
      refine hfinish ?_ (if_neg fun hc => hle (hhead ▸ hc.2))
      intro r hr
      have hlt : s.timerTicks.toNat < (s.wakeupTicks req).toNat := Nat.lt_of_not_le hle
      rcases List.mem_cons.mp hr with rfl | hr
      · exact hlt
      · exact Nat.lt_of_lt_of_le hlt ((List.pairwise_cons.mp h.sorted).1 r hr)

theorem step (h : TimerInv s a l) {op : TimerOp} (hsafe : Safe s op)
    (hs' : timerStep s op = some s') :
    ∃ e l', s'.events = e :: s.events ∧ a.Allowed e.alarm ∧ TimerInv s' (a.after e.alarm) l' := by
  cases op with
  | tick =>
    obtain ⟨hd, heq⟩ := Option.ite_none_left_eq_some.mp hs'
    rw [Bool.not_eq_true] at hd
    cases heq
    exact ⟨.tick, l, rfl, h.ringing.trans hd, (h.tick hd).record _⟩
  | dispatch =>
    obtain ⟨hd, heq⟩ := Option.ite_none_right_eq_some.mp hs'
    cases heq
    obtain ⟨e, l', hevents, hallowed, hinv, -⟩ := h.dispatch hd
    exact ⟨e, l', hevents, hallowed, hinv⟩
  | addTimer req ticks type =>
    obtain ⟨hne, heq⟩ := Option.ite_none_left_eq_some.mp hs'
    cases heq
    obtain ⟨l', hinv⟩ := h.add hne hsafe
    exact ⟨.addTimer req ticks, l', rfl, trivial, hinv.record _⟩
  | removeTimer req =>
    cases hs'
    exact ⟨.removeTimer req, l.erase req, rfl, trivial, (h.remove req).record _⟩

/-- The loop of `cmos_timer` fires what has expired and ends, if nothing is added. -/
theorem ends (h : TimerInv s a l) (hd : s.dispatching = true) :
    ∃ n s', run timerStep s (List.replicate n .dispatch) = some s' ∧ s'.dispatching = false := by
  induction hlen : l.length using Nat.strong_induction_on generalizing s a l with
  | _ n ih =>
    obtain ⟨e, l', -, -, hinv, hend⟩ := h.dispatch hd
    have hstep : timerStep s .dispatch = some s.dispatch := if_pos hd
    cases hd' : s.dispatch.dispatching with
    | false =>
      refine ⟨1, s.dispatch, ?_, hd'⟩
      exact run_cons_eq_some.mpr ⟨s.dispatch, hstep, rfl⟩
    | true =>
      have hlt : l'.length < n := by
        rw [← hlen]
        exact hend.resolve_left fun hfalse => Bool.noConfusion (hd'.symm.trans hfalse)
      obtain ⟨m, s', hrun, hidle⟩ := ih l'.length hlt hinv hd' rfl
      exact ⟨m + 1, s', run_cons_eq_some.mpr ⟨s.dispatch, hstep, hrun⟩, hidle⟩

end TimerInv

/-! ## Every run -/

/-- The events so far are allowed, and the list is as they say. -/
def SysInv (now : ℕ) (s : TimerSys) : Prop :=
  Alarms.Punctual now (s.events.map TimerEvent.alarm) ∧ ∃ l, TimerInv s (s.alarms now) l

theorem sysInv_step (now : ℕ) : Preserves timerStep Safe (SysInv now) := by
  intro s op s' ⟨hp, l, hinv⟩ hsafe hs'
  obtain ⟨e, l', hevents, hallowed, hinv'⟩ := hinv.step hsafe hs'
  unfold SysInv TimerSys.alarms
  rw [hevents, List.map_cons]
  exact ⟨⟨hallowed, hp⟩, l', hinv'⟩

theorem SysInv.onTime {now : ℕ} (h : SysInv now s) : s.OnTime now := by
  obtain ⟨hp, l, hinv⟩ := h
  exact ⟨hp, ⟨l, hinv.list.1, hinv.mem_iff, hinv.sortedDue⟩, hinv.ends⟩

/-- **Every timer fires once, when its delay has elapsed**, as long as no request is added twice
and the times do not wrap. -/
theorem timers_onTime {s₀ : TimerSys} {ops : List TimerOp} (h₀ : s₀.Initial)
    (hsafe : Along timerStep Safe s₀ ops) (hrun : run timerStep s₀ ops = some s) :
    s.OnTime s₀.timerTicks.toNat := by
  have hinv : SysInv s₀.timerTicks.toNat s₀ := by
    unfold SysInv TimerSys.alarms
    rw [h₀.2.2]
    exact ⟨trivial, [], .initial h₀⟩
  exact ((sysInv_step _).run hinv hsafe hrun).onTime

/-- The counter stands at `timerTicks`, and there are no requests. -/
def noTimers (timerTicks : ULong) : TimerSys :=
  ⟨timerTicks, 0, ⟨NULL, fun _ => NULL⟩, fun _ => 0, fun _ => .task, false, []⟩

/-- A sleep of two ticks across the wrap of the counter. -/
def sleepAcross : List TimerOp :=
  [.addTimer 4096 2 .task, .tick, .dispatch, .tick, .dispatch, .dispatch]

theorem timers_onTime_across :
    ∃ s, run timerStep (noTimers 0xFFFFFFFF) sleepAcross = some s ∧ s.OnTime 0xFFFFFFFF := by
  have hempty : ¬(noTimers 0xFFFFFFFF).OnList 4096 := by
    intro ⟨l, hl, hmem⟩
    have hnil : l = [] := hl.eq_nil
    rw [hnil] at hmem
    exact absurd hmem List.not_mem_nil
  have hsafe : Along timerStep Safe (noTimers 0xFFFFFFFF) sleepAcross :=
    ⟨⟨hempty, by decide⟩, fun _ _ => ⟨trivial, fun _ _ => ⟨trivial, fun _ _ => ⟨trivial,
      fun _ _ => ⟨trivial, fun _ _ => ⟨trivial, fun _ _ => trivial⟩⟩⟩⟩⟩⟩
  exact ⟨_, rfl, timers_onTime ⟨rfl, rfl, rfl⟩ hsafe rfl⟩

/-- A task that sleeps for 32 ticks while the counter is 16 ticks away from its wrap is woken at
the next tick. -/
theorem sleep_wraps : ¬∀ (s₀ : TimerSys) (ops : List TimerOp) (s : TimerSys), s₀.Initial →
    run timerStep s₀ ops = some s → s.OnTime s₀.timerTicks.toNat := by
  intro hall
  have h := hall (noTimers 0xFFFFFFF0) [.addTimer 4096 32 .task, .tick, .dispatch] _
    ⟨rfl, rfl, rfl⟩ rfl
  have hfired := h.punctual.1.2
  exact absurd hfired (by decide)

end Vmm386.Time
