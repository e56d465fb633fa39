/-
Module: LightClient.ItemStore
Purpose: A bounded store of proven items that drops the one used least recently.
Main exports: ItemStore, ItemStore.create?, ItemStore.get, ItemStore.put, ItemStore.dropped?
-/
import LightClient.ItemCache
import LightClient.Table

namespace LightClient

/-- Proven items, which a cache keeps. -/
structure ItemStore [ItemCache] where
  cache : ItemCache.State

namespace ItemStore

variable [ItemCache]

def empty (capacity : Nat) : ItemStore :=
  ⟨ItemCache.new capacity⟩

/-- A store in which nothing is stored, if there is room for it. -/
def create? (capacity : Nat) : Option ItemStore :=
  if ItemCache.hasRoom capacity then some (empty capacity) else none

def size (s : ItemStore) : Nat :=
  ItemCache.len s.cache

/-- The stored items, the one used last first. -/
def entries (s : ItemStore) : Table RequestKey Item :=
  ItemCache.entries s.cache

/-- The stored item of a key, without using it. -/
def peek (s : ItemStore) (k : RequestKey) : Option Item :=
  s.entries.get? k

/-- Uses the item of a key. -/
def get (s : ItemStore) (k : RequestKey) : Option Item × ItemStore :=
  let (found, cache) := ItemCache.get s.cache k
  (found, ⟨cache⟩)

def put (s : ItemStore) (k : RequestKey) (item : Item) : ItemStore :=
  ⟨(ItemCache.push s.cache k item).2⟩

/-- The key that is noted as dropped when an item is stored. The cache also gives back the entry
that the new one replaces under its own key; that one is not dropped. -/
def dropped? (s : ItemStore) (k : RequestKey) (item : Item) : Option RequestKey :=
  ((ItemCache.push s.cache k item).1.map Prod.fst).filter fun a => a ≠ k

end ItemStore

end LightClient
