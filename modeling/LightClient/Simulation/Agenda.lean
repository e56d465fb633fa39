/-
Module: LightClient.Simulation.Agenda
Purpose: What is ready to run, and what waits for its time.
Main exports: Task, Alarm, Agenda, Agenda.next?, Agenda.ring
-/
import LightClient.Simulation.Transport

namespace LightClient

/-- Something that runs until it has to wait. -/
inductive Task where
  /-- A call, by its number. -/
  | caller (n : Nat)
  /-- The pursuit of a flight. -/
  | pursuit (flight : Nat)
  /-- A reply that travels. -/
  | delivery (d : Delivery)

namespace Task

/-- The task is the pursuit of this flight. -/
def isPursuit (flight : Nat) : Task → Bool
  | pursuit n => n = flight
  | _ => false

/-- The task is this call. -/
def isCaller (n : Nat) : Task → Bool
  | caller m => m = n
  | _ => false

end Task

/-- A task that becomes ready at a time in milliseconds. -/
structure Alarm where
  due : Nat
  task : Task

/-- The tasks that are ready, in the order in which they became so, and those that wait for their
time, in the order in which they began to. -/
structure Agenda where
  now : Nat
  ready : List Task
  alarms : List Alarm

namespace Agenda

def empty : Agenda :=
  ⟨0, [], []⟩

def wake (a : Agenda) (t : Task) : Agenda :=
  { a with ready := a.ready ++ [t] }

/-- A task waits for a time. -/
def await (a : Agenda) (due : Nat) (t : Task) : Agenda :=
  { a with alarms := a.alarms ++ [⟨due, t⟩] }

/-- The time for which a pursuit waits. -/
def due? (a : Agenda) (flight : Nat) : Option Nat :=
  (a.alarms.find? fun x => x.task.isPursuit flight).map Alarm.due

/-- The time of a pursuit is over. -/
def isDue (a : Agenda) (flight : Nat) : Bool :=
  (a.due? flight).any fun due => due ≤ a.now

/-- A pursuit does not wait for a time any more. -/
def clear (a : Agenda) (flight : Nat) : Agenda :=
  { a with alarms := a.alarms.filter fun x => !x.task.isPursuit flight }

/-- The next time for which anything waits. -/
def next? (a : Agenda) : Option Nat :=
  (a.alarms.map Alarm.due).min?

/-- Lets time pass up to a moment; what waits for a time up to it becomes ready. The alarm of a
pursuit stays until the pursuit has run, so that it can see that its time is over. -/
def ring (a : Agenda) (time : Nat) : Agenda :=
  let due := a.alarms.filter fun x => x.due ≤ time
  let isKept (x : Alarm) : Bool :=
    match x.task with
    | .pursuit _ => true
    | _ => time < x.due
  { now := max a.now time
    ready := a.ready ++ due.map Alarm.task
    alarms := a.alarms.filter isKept }

end Agenda

end LightClient
