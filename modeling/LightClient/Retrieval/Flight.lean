/-
Module: LightClient.Retrieval.Flight
Purpose: The retrievals under way, at most one for a key, and who waits for each.
Main exports: Flight, Flight.begin, Flight.join, Flights, Flights.current?, Flights.leave
-/
import LightClient.Request.Key
import LightClient.Table

namespace LightClient

/-- A retrieval under way. -/
structure Flight where
  /-- The number of the flight, never used again. -/
  id : Nat
  /-- The callers that wait, by the number of their place. -/
  waiters : Table Nat Nat
  nextWaiter : Nat
  deriving Repr, DecidableEq

namespace Flight

/-- A flight that one caller waits for. -/
def begin (id caller : Nat) : Flight :=
  ⟨id, [(0, caller)], 1⟩

def join (f : Flight) (caller : Nat) : Flight :=
  { f with waiters := f.waiters.insert f.nextWaiter caller, nextWaiter := f.nextWaiter + 1 }

def leave (f : Flight) (waiter : Nat) : Flight :=
  { f with waiters := f.waiters.erase waiter }

end Flight

/-- The retrievals under way. -/
abbrev Flights := Table RequestKey Flight

namespace Flights

/-- The flight of a key, provided it has this number; a later one of the same key does not
count. -/
def current? (fs : Flights) (key : RequestKey) (id : Nat) : Option Flight :=
  (Table.get? fs key).filter fun f => f.id = id

/-- A caller stops waiting. The flight is taken out when nobody waits any more, and then the
second part is true. -/
def leave (fs : Flights) (key : RequestKey) (id waiter : Nat) : Flights × Bool :=
  match fs.current? key id with
  | some f =>
    let f := f.leave waiter
    if f.waiters.isEmpty then (Table.erase fs key, true) else (Table.insert fs key f, false)
  | none => (fs, false)

end Flights

end LightClient
