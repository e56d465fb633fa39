/-
Module: LightClient.Simulation.Libraries
Purpose: Stand-ins for the libraries that a client is built on, so that it can run: a cache that is
  a list of its entries, and delays that grow in single precision.
Main exports: RecencyList, RoundedDelays
-/
import LightClient.Decimal.FloatOrder
import LightClient.ItemCache
import LightClient.ServerPool.DelaySeries
import LightClient.Table

namespace LightClient

/-! ### A cache -/

/-- A cache as the list of its entries, the one used last first. -/
structure RecencyList where
  capacity : Nat
  entries : Table RequestKey Item

namespace RecencyList

/-- The largest capacity there is room for. All the room is set aside at once: eight slots for every
seven entries, their number rounded up to a power of two, and seventeen bytes for each slot. The
bytes have to have addresses below `2 ^ 63`, so that there are at most `2 ^ 58` slots. -/
def capacityLimit : Nat :=
  7 * Nat.pow 2 55

/-- The entry of a key comes to the front. -/
def get (c : RecencyList) (k : RequestKey) : Option Item × RecencyList :=
  match c.entries.get? k with
  | some item => (some item, { c with entries := (k, item) :: c.entries.erase k })
  | none => (none, c)

/-- A new entry comes to the front. It replaces the one that its key had, or else the last one if
there is no room for both. -/
def push (c : RecencyList) (k : RequestKey) (item : Item) :
    Option (RequestKey × Item) × RecencyList :=
  match c.entries.get? k with
  | some old => (some (k, old), { c with entries := (k, item) :: c.entries.erase k })
  | none =>
    if c.entries.length < c.capacity then (none, { c with entries := (k, item) :: c.entries })
    else (c.entries.getLast?, { c with entries := (k, item) :: c.entries.dropLast })

end RecencyList

instance : ItemCache where
  State := RecencyList
  hasRoom n := n ≤ RecencyList.capacityLimit
  new n := ⟨n, []⟩
  capacity := RecencyList.capacity
  len c := c.entries.length
  entries := RecencyList.entries
  get := RecencyList.get
  push := RecencyList.push

/-! ### Series of delays -/

/-- A series whose delays are rounded to single precision. -/
structure RoundedDelays where
  factor : Float32
  last : Nat
  /-- The next delay, if there is one more. -/
  delay : Nat
  /-- How many delays are left. -/
  remaining : Nat

namespace RoundedDelays

/-- The delay after the one that comes next. -/
def grow (d : RoundedDelays) : Nat :=
  if d.delay < d.last then min (Decimal.scaleNanos d.factor d.delay) d.last else d.last

def next (d : RoundedDelays) : Option Nat × RoundedDelays :=
  if 0 < d.remaining then
    (some d.delay, { d with delay := d.grow, remaining := d.remaining - 1 })
  else (none, d)

end RoundedDelays

instance : DelaySeries where
  State := RoundedDelays
  build factor first last times := ⟨factor, last, first, times.toNat⟩
  next := RoundedDelays.next

end LightClient
