/-
Module: LightClient.Proofs.ItemStore
Purpose: What can be in a store after it was used.
Main exports: ItemStore.fst_get, ItemStore.mem_of_peek, ItemStore.mem_of_mem_get,
  ItemStore.mem_of_mem_put, ItemStore.peek_get, ItemStore.peek_put_self, ItemStore.peek_put
-/
import LightClient.ItemStore
import LightClient.Proofs.ItemStore.Cache
import LightClient.Proofs.Table

namespace LightClient

namespace ItemStore

variable [ItemCache] [ItemCache.Lawful] {s : ItemStore} {k : RequestKey} {item : Item}
  {entry : RequestKey × Item}

open ItemCache (Lawful)

omit [ItemCache.Lawful] in
theorem mem_of_peek (h : s.peek k = some item) : (k, item) ∈ s.entries :=
  Table.mem_of_get? h

/-! ### Each operation and the entries -/

/-- What is given back for a key is what is stored under it. -/
theorem fst_get : (s.get k).1 = s.peek k := by
  cases h : s.peek k with
  | some item => exact Lawful.get_held h
  | none => exact Lawful.get_missing h

/-- An item that is used comes to the front. -/
theorem entries_get_of_peek (h : s.peek k = some item) :
    (s.get k).2.entries = (k, item) :: s.entries.erase k :=
  Lawful.entries_get_held h

/-- Looking for what is not stored moves nothing. -/
theorem entries_get_of_missing (h : s.peek k = none) : (s.get k).2.entries = s.entries :=
  Lawful.entries_get_missing h

/-- A new item takes the place of the old one, and comes to the front. -/
theorem entries_put_of_peek {old : Item} (h : s.peek k = some old) :
    (s.put k item).entries = (k, item) :: s.entries.erase k :=
  Lawful.entries_push_held item h

/-- As long as there is room, an item is put in front of the others. -/
theorem entries_put_of_room (h : s.peek k = none)
    (hroom : s.entries.length < ItemCache.capacity s.cache) :
    (s.put k item).entries = (k, item) :: s.entries :=
  Lawful.entries_push_room item h hroom

/-- In a full store the last entry makes room for a new one. -/
theorem entries_put_of_full (h : s.peek k = none)
    (hfull : ItemCache.capacity s.cache ≤ s.entries.length) :
    (s.put k item).entries = (k, item) :: s.entries.dropLast :=
  Lawful.entries_push_full item h hfull

/-- An item that is stored comes to the front. The entries behind it were there before, and none of
them has its key. -/
theorem entries_put (s : ItemStore) (k : RequestKey) (item : Item) :
    ∃ rest, (s.put k item).entries = (k, item) :: rest ∧ rest <+: s.entries.erase k := by
  cases h : s.peek k with
  | some old => exact ⟨_, entries_put_of_peek h, List.prefix_refl _⟩
  | none =>
    have herase : s.entries.erase k = s.entries := Table.erase_of_get?_none h
    rw [herase]
    by_cases hroom : s.entries.length < ItemCache.capacity s.cache
    · exact ⟨_, entries_put_of_room h hroom, List.prefix_refl _⟩
    · exact ⟨_, entries_put_of_full h (Nat.le_of_not_lt hroom), List.dropLast_prefix _⟩

/-! ### What can be stored -/

/-- Using an item puts nothing new into the store. -/
theorem mem_of_mem_get (h : entry ∈ (s.get k).2.entries) : entry ∈ s.entries := by
  cases hpeek : s.peek k with
  | some item =>
    rw [entries_get_of_peek hpeek] at h
    rcases List.mem_cons.mp h with rfl | h
    · exact mem_of_peek hpeek
    · exact List.mem_of_mem_filter h
  | none => exact entries_get_of_missing hpeek ▸ h

/-- Storing an item puts nothing else into the store. -/
theorem mem_of_mem_put (h : entry ∈ (s.put k item).entries) :
    entry = (k, item) ∨ entry ∈ s.entries := by
  obtain ⟨rest, hentries, hrest⟩ := entries_put s k item
  rw [hentries] at h
  exact (List.mem_cons.mp h).imp_right fun h => List.mem_of_mem_filter (hrest.subset h)

/-- Using an item changes nothing but the order. -/
theorem peek_get {a : RequestKey} : (s.get k).2.peek a = s.peek a := by
  cases h : s.peek k with
  | some item =>
    rw [peek, entries_get_of_peek h, Table.get?, Table.get?_erase]
    split
    next hk => rw [← hk, h]
    next => rfl
  | none => rw [peek, entries_get_of_missing h, peek]

/-- A store holds the item that was just put into it. -/
theorem peek_put_self : (s.put k item).peek k = some item := by
  obtain ⟨rest, hentries, _⟩ := entries_put s k item
  rw [peek, hentries, Table.get?, if_pos rfl]

/-- A store that an item was put into holds this item, and others that it held before. -/
theorem peek_put {a : RequestKey} {found : Item}
    (h : (s.put k item).peek a = some found) :
    k = a ∧ found = item ∨ k ≠ a ∧ s.peek a = some found := by
  obtain ⟨rest, hentries, hrest⟩ := entries_put s k item
  rw [peek, hentries, Table.get?] at h
  split at h
  next hk => exact .inl ⟨hk, (Option.some.inj h).symm⟩
  next hk =>
    have hbefore := Table.get?_of_prefix hrest h
    rw [Table.get?_erase, if_neg hk] at hbefore
    exact .inr ⟨hk, hbefore⟩

end ItemStore

end LightClient
