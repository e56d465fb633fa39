/-
Module: LightClient.Proofs.Simulation.Libraries
Purpose: The cache that a simulated client uses does what the documentation of a cache says.
Main exports: RecencyList.lawful
-/
import LightClient.Proofs.ItemStore.Cache
import LightClient.Simulation.Libraries

namespace LightClient

namespace RecencyList

variable {c : RecencyList} {k : RequestKey}

/-- A key that is held is moved to the front when it is read. -/
theorem get_of_held {item : Item} (h : c.entries.get? k = some item) :
    c.get k = (some item, { c with entries := (k, item) :: c.entries.erase k }) := by
  rw [get, h]

/-- A key that is not held leaves the entries as they are. -/
theorem get_of_missing (h : c.entries.get? k = none) : c.get k = (none, c) := by
  rw [get, h]

/-- A key that is held gets the new item and moves to the front. -/
theorem push_of_held {old : Item} (item : Item) (h : c.entries.get? k = some old) :
    c.push k item = (some (k, old), { c with entries := (k, item) :: c.entries.erase k }) := by
  rw [push, h]

/-- A new key goes to the front while there is room. -/
theorem push_of_room (item : Item) (h : c.entries.get? k = none)
    (hroom : c.entries.length < c.capacity) :
    c.push k item = (none, { c with entries := (k, item) :: c.entries }) := by
  simp only [push, h, if_pos hroom]

/-- A new key takes the place of the last one when there is no room. -/
theorem push_of_full (item : Item) (h : c.entries.get? k = none)
    (hfull : c.capacity ≤ c.entries.length) :
    c.push k item =
      (c.entries.getLast?, { c with entries := (k, item) :: c.entries.dropLast }) := by
  simp only [push, h, if_neg (Nat.not_lt.mpr hfull)]

instance lawful : ItemCache.Lawful where
  entries_new _ := rfl
  capacity_new _ := rfl
  len_eq _ := rfl
  get_held h := congrArg Prod.fst (get_of_held h)
  entries_get_held h := congrArg (fun x => x.2.entries) (get_of_held h)
  get_missing h := congrArg Prod.fst (get_of_missing h)
  entries_get_missing h := congrArg (fun x => x.2.entries) (get_of_missing h)
  capacity_get (c : RecencyList) k := by
    cases h : c.entries.get? k with
    | some item => exact congrArg (fun x => x.2.capacity) (get_of_held h)
    | none => exact congrArg (fun x => x.2.capacity) (get_of_missing h)
  push_held item h := congrArg Prod.fst (push_of_held item h)
  entries_push_held item h := congrArg (fun x => x.2.entries) (push_of_held item h)
  push_room item h hroom := congrArg Prod.fst (push_of_room item h hroom)
  entries_push_room item h hroom := congrArg (fun x => x.2.entries) (push_of_room item h hroom)
  push_full item h hfull := congrArg Prod.fst (push_of_full item h hfull)
  entries_push_full item h hfull := congrArg (fun x => x.2.entries) (push_of_full item h hfull)
  capacity_push (c : RecencyList) k item := by
    cases h : c.entries.get? k with
    | some old => exact congrArg (fun x => x.2.capacity) (push_of_held item h)
    | none =>
      rcases Nat.lt_or_ge c.entries.length c.capacity with hroom | hfull
      · exact congrArg (fun x => x.2.capacity) (push_of_room item h hroom)
      · exact congrArg (fun x => x.2.capacity) (push_of_full item h hfull)

end RecencyList

end LightClient
