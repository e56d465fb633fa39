/-
Module: LightClient.ItemCache
Purpose: What the store of proven items asks of the cache that keeps them. The cache belongs to a
  library, so that only its operations are named here.
Main exports: ItemCache
-/
import LightClient.Item
import LightClient.Request.Key

namespace LightClient

/-- A bounded cache of proven items by the keys of their requests. -/
class ItemCache where
  /-- A cache and what it holds. -/
  State : Type
  /-- There is room for a cache of a capacity. Without room, the attempt to make one stops the
  program. -/
  hasRoom : Nat → Bool
  /-- A cache of a capacity, which holds nothing. -/
  new : Nat → State
  /-- The number of entries that a cache holds at most. -/
  capacity : State → Nat
  /-- The number of entries. -/
  len : State → Nat
  /-- The entries, from the one used last to the one used least recently. -/
  entries : State → List (RequestKey × Item)
  /-- Looks up a key, which uses its entry. -/
  get : State → RequestKey → Option Item × State
  /-- Puts an item under a key, and gives back the entry that had to go. -/
  push : State → RequestKey → Item → Option (RequestKey × Item) × State

end LightClient
