import Mathlib.Data.Nat.Notation
import Mathlib.Logic.Function.Basic
import Vmm386.Lib.History

/-!
# Alarms

Alarms that are set to ring after a number of ticks of a clock. A tick lasts: the alarms that
are due ring one after the other, and others may be set meanwhile, until it is finished.
-/

/-- What happens to the alarms `R`. -/
inductive AlarmEvent (R : Type*) where
  | tick
  | finished
  | added (r : R) (delay : ℕ)
  | removed (r : R)
  | fired (r : R)

/-- The number of the last tick, whether it is not finished yet, and for every alarm that is set
the first tick at which its delay has elapsed. -/
structure Alarms (R : Type*) where
  now : ℕ
  ringing : Bool
  due : R → Option ℕ

namespace Alarms

variable {R : Type*} (a : Alarms R)

/-- The first tick at which an alarm can ring from now on. -/
def next : ℕ := if a.ringing then a.now else a.now + 1

/-- No alarm is set before the tick with the number `now + 1`. -/
def start (now : ℕ) : Alarms R := ⟨now, false, fun _ => none⟩

section After

variable [DecidableEq R]

/-- The alarms after an event. -/
def after : AlarmEvent R → Alarms R
  | .tick => { a with now := a.now + 1, ringing := true }
  | .finished => { a with ringing := false }
  | .added r delay =>
    { a with due := Function.update a.due r (some (max (a.now + delay) a.next)) }
  | .removed r => { a with due := Function.update a.due r none }
  | .fired r => { a with due := Function.update a.due r none }

/-- An alarm rings only at the tick at which it is due, and a tick is finished only when none is
due any more. -/
def Allowed : AlarmEvent R → Prop
  | .tick => a.ringing = false
  | .finished => a.ringing = true ∧ ∀ r, a.due r ≠ some a.now
  | .fired r => a.ringing = true ∧ a.due r = some a.now
  | _ => True

/-- The alarms after a history that begins after the tick `now`. -/
def replay (now : ℕ) : List (AlarmEvent R) → Alarms R
  | [] => start now
  | e :: earlier => (replay now earlier).after e

/-- Every alarm that is set and not removed rings exactly once, when it is due. -/
def Punctual (now : ℕ) : List (AlarmEvent R) → Prop :=
  History.Always fun e earlier => (replay now earlier).Allowed e

/-- Every alarm that is set can still ring in time. -/
def Timely : Prop := ∀ r t, a.due r = some t → a.next ≤ t

variable {a}

theorem Timely.after {e : AlarmEvent R} (h : a.Timely) (hallowed : a.Allowed e) :
    (a.after e).Timely := by
  intro r t ht
  cases e with
  | tick =>
    have hnext : (a.after .tick).next = a.next := by
      have hidle : a.ringing = false := hallowed
      simp [Alarms.after, next, hidle]
    rw [hnext]
    exact h r t ht
  | finished =>
    have hle := h r t ht
    have hne : t ≠ a.now := fun heq => hallowed.2 r (heq ▸ ht)
    rw [next, if_pos hallowed.1] at hle
    change (if false = true then a.now else a.now + 1) ≤ t
    rw [if_neg Bool.false_ne_true]
    omega
  | added q delay =>
    change Function.update a.due q (some (max (a.now + delay) a.next)) r = some t at ht
    change a.next ≤ t
    by_cases hr : r = q
    · rw [hr, Function.update_self, Option.some.injEq] at ht
      omega
    · rw [Function.update_of_ne hr] at ht
      exact h r t ht
  | removed q | fired q =>
    change Function.update a.due q none r = some t at ht
    change a.next ≤ t
    by_cases hr : r = q
    · rw [hr, Function.update_self] at ht
      exact absurd ht nofun
    · rw [Function.update_of_ne hr] at ht
      exact h r t ht

/-- **No alarm is passed over**: whatever has happened, each one that is set is still to come. -/
theorem Punctual.timely {now : ℕ} {h : List (AlarmEvent R)} (hp : Punctual now h) :
    (replay now h).Timely := by
  induction h with
  | nil => exact fun r t ht => absurd ht nofun
  | cons e h ih => exact (ih hp.2).after hp.1

end After

end Alarms
