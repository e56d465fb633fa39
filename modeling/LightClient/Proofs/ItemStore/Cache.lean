/-
Module: LightClient.Proofs.ItemStore.Cache
Purpose: What the documentation of the cache says about each of its operations: it is bounded, and
  the entry used least recently has to go first.
Main exports: ItemCache.Lawful
-/
import LightClient.ItemCache
import LightClient.Table

namespace LightClient

namespace ItemCache

/-- Each operation does with the entries what the documentation of the cache says. The entries are
in the order of their last use, the one used last first. -/
class Lawful [ItemCache] : Prop where
  entries_new (n : Nat) : entries (new n) = []
  capacity_new (n : Nat) : capacity (new n) = n
  len_eq (c : State) : len c = (entries c).length
  /-- Looking up a key that is held gives its item, and its entry becomes the first one. -/
  get_held {c : State} {k : RequestKey} {item : Item}
    (held : Table.get? (entries c) k = some item) : (get c k).1 = some item
  entries_get_held {c : State} {k : RequestKey} {item : Item}
    (held : Table.get? (entries c) k = some item) :
    entries (get c k).2 = (k, item) :: Table.erase (entries c) k
  /-- Looking up any other key gives nothing and moves no entry. -/
  get_missing {c : State} {k : RequestKey} (missing : Table.get? (entries c) k = none) :
    (get c k).1 = none
  entries_get_missing {c : State} {k : RequestKey} (missing : Table.get? (entries c) k = none) :
    entries (get c k).2 = entries c
  capacity_get (c : State) (k : RequestKey) : capacity (get c k).2 = capacity c
  /-- An item for a key that is held takes the place of the old one, which is given back, and its
  entry becomes the first one. -/
  push_held {c : State} {k : RequestKey} {old : Item} (item : Item)
    (held : Table.get? (entries c) k = some old) : (push c k item).1 = some (k, old)
  entries_push_held {c : State} {k : RequestKey} {old : Item} (item : Item)
    (held : Table.get? (entries c) k = some old) :
    entries (push c k item).2 = (k, item) :: Table.erase (entries c) k
  /-- As long as there is room, a new entry is put before the others, and none has to go. -/
  push_room {c : State} {k : RequestKey} (item : Item)
    (missing : Table.get? (entries c) k = none) (room : (entries c).length < capacity c) :
    (push c k item).1 = none
  entries_push_room {c : State} {k : RequestKey} (item : Item)
    (missing : Table.get? (entries c) k = none) (room : (entries c).length < capacity c) :
    entries (push c k item).2 = (k, item) :: entries c
  /-- In a full cache the entry used least recently has to go for it, and is given back. -/
  push_full {c : State} {k : RequestKey} (item : Item)
    (missing : Table.get? (entries c) k = none) (full : capacity c ≤ (entries c).length) :
    (push c k item).1 = (entries c).getLast?
  entries_push_full {c : State} {k : RequestKey} (item : Item)
    (missing : Table.get? (entries c) k = none) (full : capacity c ≤ (entries c).length) :
    entries (push c k item).2 = (k, item) :: (entries c).dropLast
  capacity_push (c : State) (k : RequestKey) (item : Item) :
    capacity (push c k item).2 = capacity c

end ItemCache

end LightClient
