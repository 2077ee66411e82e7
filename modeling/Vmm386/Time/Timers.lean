import Mathlib.Data.List.Sort
import Vmm386.Lib.Alarms
import Vmm386.Lib.Runs
import Vmm386.Mm.Page

/-!
# Timers

`timer_list` in `kernel/misc/time.c`, and the part of `cmos_timer` that counts the ticks and
dispatches the expired timers; the quantum of the current task, which comes next, is in
`Tasks/Sched`. The tick is only finished when `cmos_timer` has left its loop, and what a timer
function calls is a step of its own. A tick does not interrupt `add_timer`.
-/

namespace Vmm386.Time

open Mm Runs

/-- `TIMER_TASK` or `TIMER_FUNC`. -/
inductive TimerType where
  | task
  | func

/-- What has happened to the requests. -/
inductive TimerEvent where
  | tick
  /-- `cmos_timer` has left its loop. -/
  | finished
  | addTimer (req ticks : ULong)
  | removeTimer (req : ULong)
  /-- `signal(&req->action.sem)`. -/
  | signal (req : ULong)
  /-- `req->action.func.func(req->action.func.user_data)`. -/
  | func (req : ULong)

/-- `timer_list` with the `next` of every request, and the other fields of the requests. The
last event comes first. -/
structure TimerSys where
  timerTicks : ULong
  date : ULong
  links : Links ULong
  wakeupTicks : ULong → ULong
  type : ULong → TimerType
  dispatching : Bool
  events : List TimerEvent

namespace TimerSys

variable (s : TimerSys)

def record (e : TimerEvent) : TimerSys := { s with events := e :: s.events }

/-- `set_timer_sem` or `set_timer_func`. -/
def setTimer (req ticks : ULong) (type : TimerType) : TimerSys :=
  { s with
    wakeupTicks := Function.update s.wakeupTicks req ticks
    type := Function.update s.type req type }

/-- `add_timer`: the loop. -/
def findPlace (req : ULong) : ℕ → Option ULong → Option ULong
  | 0, x => x
  | k + 1, x =>
    if s.links.get x ≠ NULL ∧ s.wakeupTicks (s.links.get x) < s.wakeupTicks req then
      findPlace req k (some (s.links.get x))
    else x

/-- `add_timer`. -/
def addTimer (req : ULong) : TimerSys :=
  let s := { s with
    wakeupTicks := Function.update s.wakeupTicks req (s.wakeupTicks req + s.timerTicks) }
  let x := s.findPlace req ADDRESSES none
  { s with links := (s.links.set (some req) (s.links.get x)).set x req }

/-- `remove_timer`: the loop. -/
def removeLoop (req : ULong) : ℕ → Option ULong → Links ULong → Links ULong
  | 0, _, m => m
  | k + 1, x, m =>
    if m.get x ≠ NULL then
      if m.get x = req then m.set x (m.next (m.get x)) else removeLoop req k (some (m.get x)) m
    else m

/-- `remove_timer`. -/
def removeTimer (req : ULong) : TimerSys :=
  { s with links := removeLoop req ADDRESSES none s.links }

/-- `cmos_timer` up to the loop. -/
def tick : TimerSys :=
  { s with
    timerTicks := s.timerTicks + 1
    date := if (s.timerTicks + 1) % 1024 = 0 then s.date + 1 else s.date
    dispatching := true }

/-- `cmos_timer`: the loop, once. -/
def dispatch : TimerSys :=
  let req := s.links.head
  if req ≠ NULL ∧ s.wakeupTicks req ≤ s.timerTicks then
    let s := { s with links := s.links.set none (s.links.next req) }
    match s.type req with
    | .task => s.record (.signal req)
    | .func => s.record (.func req)
  else { s with dispatching := false }.record .finished

end TimerSys

/-- What happens next. -/
inductive TimerOp where
  | tick
  | dispatch
  /-- A request is set up and added. -/
  | addTimer (req ticks : ULong) (type : TimerType)
  | removeTimer (req : ULong)

/-- One step. -/
def timerStep (s : TimerSys) : TimerOp → Option TimerSys
  | .tick => if s.dispatching then none else some (s.tick.record .tick)
  | .dispatch => if s.dispatching then some s.dispatch else none
  | .addTimer req ticks type =>
    if req = NULL then none
    else some (((s.setTimer req ticks type).addTimer req).record (.addTimer req ticks))
  | .removeTimer req => some ((s.removeTimer req).record (.removeTimer req))

/-- No request has been added, whatever the requests hold and the time is. -/
def TimerSys.Initial (s : TimerSys) : Prop :=
  s.links.head = NULL ∧ s.dispatching = false ∧ s.events = []

/-! ## What the timers are for -/

/-- A request is an alarm; both its actions make it ring. -/
def TimerEvent.alarm : TimerEvent → AlarmEvent ULong
  | .tick => .tick
  | .finished => .finished
  | .addTimer req ticks => .added req ticks.toNat
  | .removeTimer req => .removed req
  | .signal req => .fired req
  | .func req => .fired req

namespace TimerSys

variable (s : TimerSys)

/-- The alarms that the events have set, when the first tick has the number `now + 1`. -/
def alarms (now : ℕ) : Alarms ULong := Alarms.replay now (s.events.map TimerEvent.alarm)

/-- Every request is on the list until it fires at its time or is removed, the list is sorted
by the times, and the loop of `cmos_timer` ends if nothing more is added. -/
structure OnTime (now : ℕ) : Prop where
  punctual : Alarms.Punctual now (s.events.map TimerEvent.alarm)
  sorted : ∃ l, Linked s.links.next NULL s.links.head l ∧
    (∀ r, r ∈ l ↔ (s.alarms now).due r ≠ none) ∧
    l.Pairwise fun r q => ∀ t ∈ (s.alarms now).due r, ∀ u ∈ (s.alarms now).due q, t ≤ u
  ends : s.dispatching = true →
    ∃ n s', run timerStep s (List.replicate n .dispatch) = some s' ∧ s'.dispatching = false

/-- The request is on the list. -/
def OnList (req : ULong) : Prop :=
  ∃ l, Linked s.links.next NULL s.links.head l ∧ req ∈ l

end TimerSys

/-- A request is not added twice, and the time of its expiry does not wrap. Between the last tick
before the counter wraps and the next one, it has to. -/
def Safe (s : TimerSys) : TimerOp → Prop
  | .addTimer req ticks _ =>
    ¬s.OnList req ∧
      if s.dispatching = false ∧ s.timerTicks = 0xFFFFFFFF then ticks ≠ 0
      else s.timerTicks.toNat + ticks.toNat < 2 ^ 32
  | _ => True

end Vmm386.Time
