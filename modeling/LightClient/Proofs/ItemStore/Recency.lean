/-
Module: LightClient.Proofs.ItemStore.Recency
Purpose: A store holds the items of the keys that were used last, as many as it has room for,
  whichever cache keeps them, if each operation of the cache does what its documentation says.
Main exports: ItemStore.Call, ItemStore.after, ItemStore.track, ItemStore.recency,
  ItemStore.lastPut?, ItemStore.putKeys, ItemStore.keys_after, ItemStore.KeepsRecent,
  ItemStore.keeps_recent
-/
import Mathlib.Data.List.Dedup
import Mathlib.Data.List.Perm.Subperm
import LightClient.Proofs.ItemStore
import LightClient.Proofs.Simulation.Libraries

namespace LightClient

namespace ItemStore

open ItemCache (Lawful)

/-! ### Calls and the keys in the order of their last use -/

/-- What can be asked of a store. -/
inductive Call where
  | get (k : RequestKey)
  | put (k : RequestKey) (item : Item)
  deriving DecidableEq

/-- The keys that are held after a call, the one that was used last first. A key that is put or
found comes to the front; a new key takes the place of the last one if there is no room for both; a
key that is not found changes nothing. -/
def track (capacity : Nat) (keys : List RequestKey) : Call → List RequestKey
  | .get k => if k ∈ keys then k :: keys.erase k else keys
  | .put k _ =>
    if k ∈ keys then k :: keys.erase k
    else if keys.length < capacity then k :: keys
    else k :: keys.dropLast

/-- The keys that are held after the given calls, the one that was used last first. -/
def recency (capacity : Nat) : List Call → List RequestKey
  | [] => []
  | call :: calls => track capacity (recency capacity calls) call

/-- The item that was put under a key last. -/
def lastPut? (k : RequestKey) : List Call → Option Item
  | [] => none
  | .get _ :: calls => lastPut? k calls
  | .put a item :: calls => if a = k then some item else lastPut? k calls

/-- The keys that something was put under, each time it was. -/
def putKeys : List Call → List RequestKey
  | [] => []
  | .get _ :: calls => putKeys calls
  | .put k _ :: calls => k :: putKeys calls

/-- What a call makes of the keys that are held. -/
inductive Tracks (capacity : Nat) (keys : List RequestKey) : Call → List RequestKey → Prop where
  /-- The keys stay the same ones, in some order. -/
  | same {call : Call} {keys' : List RequestKey} (perm : keys.Perm keys')
      (known : ∀ k ∈ putKeys [call], k ∈ keys) : Tracks capacity keys call keys'
  | added {k : RequestKey} {item : Item} (new : k ∉ keys) (room : keys.length < capacity) :
      Tracks capacity keys (.put k item) (k :: keys)
  | replaced {k : RequestKey} {item : Item} (new : k ∉ keys) (full : capacity ≤ keys.length) :
      Tracks capacity keys (.put k item) (k :: keys.dropLast)

/-- The reference order of use obeys its own rules. -/
theorem tracks (capacity : Nat) (keys : List RequestKey) (call : Call) :
    Tracks capacity keys call (track capacity keys call) := by
  cases call with
  | get k =>
    rw [track]
    split
    next hk => exact .same (List.perm_cons_erase hk) nofun
    next => exact .same (List.Perm.refl keys) nofun
  | put k item =>
    rw [track]
    split
    next hk => exact .same (List.perm_cons_erase hk) fun a ha => List.mem_singleton.mp ha ▸ hk
    next hk =>
      split
      next hroom => exact .added hk hroom
      next hfull => exact .replaced hk (Nat.le_of_not_lt hfull)

namespace Tracks

variable {capacity : Nat} {keys keys' : List RequestKey} {call : Call} {k : RequestKey}

/-- No call makes a key stand twice. -/
theorem nodup (htracks : Tracks capacity keys call keys') (h : keys.Nodup) : keys'.Nodup := by
  cases htracks with
  | same perm => exact perm.nodup_iff.mp h
  | added new => exact List.nodup_cons.mpr ⟨new, h⟩
  | replaced new =>
    have hsublist := List.dropLast_sublist keys
    exact List.nodup_cons.mpr ⟨fun hk => new (hsublist.subset hk), hsublist.nodup h⟩

/-- No call makes more keys than there is room for. -/
theorem length_le (htracks : Tracks capacity keys call keys') (hcapacity : 1 ≤ capacity)
    (h : keys.length ≤ capacity) : keys'.length ≤ capacity := by
  cases htracks with
  | same perm => exact perm.length_eq ▸ h
  | added new room => exact room
  | replaced new full =>
    rw [List.length_cons, List.length_dropLast]
    omega

/-- There are never fewer keys than before. -/
theorem le_length (htracks : Tracks capacity keys call keys') : keys.length ≤ keys'.length := by
  cases htracks with
  | same perm => exact Nat.le_of_eq perm.length_eq
  | added => exact Nat.le_succ _
  | replaced =>
    rw [List.length_cons, List.length_dropLast]
    omega

/-- No key comes in but one that is put. -/
theorem mem_or_put (htracks : Tracks capacity keys call keys') (h : k ∈ keys') :
    k ∈ keys ∨ k ∈ putKeys [call] := by
  cases htracks with
  | same perm => exact .inl (perm.mem_iff.mpr h)
  | added => exact (List.mem_cons.mp h).symm.imp_right List.mem_singleton.mpr
  | replaced =>
    exact (List.mem_cons.mp h).symm.imp (fun hk => (List.dropLast_sublist keys).subset hk)
      List.mem_singleton.mpr

/-- As long as there is room for a new key, every key stays. -/
theorem mem_of_room (htracks : Tracks capacity keys call keys') (hroom : keys'.length < capacity)
    (h : k ∈ keys ∨ k ∈ putKeys [call]) : k ∈ keys' := by
  cases htracks with
  | same perm known => exact perm.mem_iff.mp (h.elim id (known k))
  | added => exact List.mem_cons.mpr (h.symm.imp_left List.mem_singleton.mp)
  | replaced new full =>
    rw [List.length_cons, List.length_dropLast] at hroom
    omega

end Tracks

/-- Putting something under a key that is held drops no other key. -/
theorem mem_track_put_of_mem {capacity : Nat} {keys : List RequestKey} {k a : RequestKey}
    {item : Item} (h : k ∈ keys) : a ∈ track capacity keys (.put k item) ↔ a ∈ keys := by
  rw [track, if_pos h]
  exact (List.perm_cons_erase h).mem_iff.symm

/-! ### How many keys are held -/

section

variable {k : RequestKey} {capacity : Nat} {calls : List Call}

/-- No key stands twice among those in use. -/
theorem nodup_recency (capacity : Nat) (calls : List Call) : (recency capacity calls).Nodup := by
  induction calls with
  | nil => exact List.nodup_nil
  | cons call calls ih => exact (tracks capacity _ call).nodup ih

/-- There are no more keys in use than there is room for. -/
theorem length_recency_le (hcapacity : 1 ≤ capacity) (calls : List Call) :
    (recency capacity calls).length ≤ capacity := by
  induction calls with
  | nil => exact Nat.zero_le _
  | cons call calls ih => exact (tracks capacity _ call).length_le hcapacity ih

theorem mem_putKeys_cons {call : Call} :
    k ∈ putKeys (call :: calls) ↔ k ∈ putKeys calls ∨ k ∈ putKeys [call] := by
  cases call with
  | get a => simp [putKeys]
  | put a item => simp [putKeys, or_comm]

/-- Only keys that something was put under are held. -/
theorem mem_putKeys_of_mem_recency (h : k ∈ recency capacity calls) : k ∈ putKeys calls := by
  induction calls with
  | nil => cases h
  | cons call calls ih =>
    exact mem_putKeys_cons.mpr (((tracks capacity _ call).mem_or_put h).imp_left ih)

/-- As long as not all the room is taken, every key that something was put under is held. -/
theorem mem_recency_of_room (hroom : (recency capacity calls).length < capacity)
    (h : k ∈ putKeys calls) : k ∈ recency capacity calls := by
  induction calls with
  | nil => cases h
  | cons call calls ih =>
    have hbefore : (recency capacity calls).length < capacity :=
      Nat.lt_of_le_of_lt (tracks capacity _ call).le_length hroom
    exact (tracks capacity _ call).mem_of_room hroom ((mem_putKeys_cons.mp h).imp_left (ih hbefore))

/-- The keys that are held are as many as there is room for, of all that something was put under. -/
theorem length_recency (hcapacity : 1 ≤ capacity) (calls : List Call) :
    (recency capacity calls).length = min capacity (putKeys calls).dedup.length := by
  have hle := length_recency_le hcapacity calls
  have hheld : (recency capacity calls).length ≤ (putKeys calls).dedup.length :=
    (List.subperm_of_subset (nodup_recency capacity calls) fun _ hk =>
      List.mem_dedup.mpr (mem_putKeys_of_mem_recency hk)).length_le
  by_cases hroom : (recency capacity calls).length < capacity
  · have hall : (putKeys calls).dedup.length ≤ (recency capacity calls).length :=
      (List.subperm_of_subset (List.nodup_dedup _) fun _ hk =>
        mem_recency_of_room hroom (List.mem_dedup.mp hk)).length_le
    omega
  · omega

end

/-! ### The keys of the store -/

section

variable [ItemCache] {s : ItemStore} {k : RequestKey}

/-- What a call gives back, and the store after it. -/
def perform (s : ItemStore) : Call → Option Item × ItemStore
  | .get k => s.get k
  | .put k item => (none, s.put k item)

/-- The store after the given calls, the last one first. -/
def after (capacity : Nat) : List Call → ItemStore
  | [] => empty capacity
  | call :: calls => ((after capacity calls).perform call).2

/-- The keys of the stored items, the one that was used last first. -/
def keys (s : ItemStore) : List RequestKey :=
  s.entries.keys

/-- The number of items that there is room for. -/
def capacity (s : ItemStore) : Nat :=
  ItemCache.capacity s.cache

/-- The keys are those of the stored items. -/
theorem mem_keys_iff : k ∈ s.keys ↔ ∃ item, s.peek k = some item :=
  Table.mem_keys_iff

/-- The keys of a store are those that it holds an item for. -/
theorem not_mem_keys_iff : k ∉ s.keys ↔ s.peek k = none := by
  rw [mem_keys_iff, not_exists, Option.eq_none_iff_forall_ne_some]

end

section

variable [ItemCache] [ItemCache.Lawful] {s : ItemStore} {k a : RequestKey} {item : Item}
  {capacity : Nat} {calls : List Call}

theorem length_keys : s.keys.length = s.size :=
  (List.length_map _).trans (Lawful.len_eq s.cache).symm

theorem capacity_perform (s : ItemStore) (call : Call) :
    (s.perform call).2.capacity = s.capacity := by
  cases call with
  | get k => exact Lawful.capacity_get s.cache k
  | put k item => exact Lawful.capacity_push s.cache k item

/-- The keys of a store go the way of its entries. -/
theorem keys_perform (h : s.keys.Nodup) (call : Call) :
    (s.perform call).2.keys = track s.capacity s.keys call := by
  cases call with
  | get k =>
    rw [perform, keys, track]
    cases hpeek : s.peek k with
    | some item =>
      rw [entries_get_of_peek hpeek, if_pos (mem_keys_iff.mpr ⟨item, hpeek⟩)]
      exact congrArg (k :: ·) (Table.Unique.keys_erase h)
    | none =>
      rw [entries_get_of_missing hpeek, if_neg (not_mem_keys_iff.mpr hpeek)]
      rfl
  | put k item =>
    rw [perform, keys, track]
    cases hpeek : s.peek k with
    | some old =>
      rw [entries_put_of_peek hpeek, if_pos (mem_keys_iff.mpr ⟨old, hpeek⟩)]
      exact congrArg (k :: ·) (Table.Unique.keys_erase h)
    | none =>
      have hlength : s.keys.length = s.entries.length := List.length_map _
      rw [if_neg (not_mem_keys_iff.mpr hpeek), hlength]
      split
      next hroom =>
        rw [entries_put_of_room hpeek hroom]
        rfl
      next hfull =>
        rw [entries_put_of_full hpeek (Nat.le_of_not_lt hfull)]
        exact congrArg (k :: ·) List.map_dropLast

/-- No call changes the capacity. -/
theorem capacity_after (capacity : Nat) (calls : List Call) :
    (after capacity calls).capacity = capacity := by
  induction calls with
  | nil => exact Lawful.capacity_new capacity
  | cons call calls ih => exact (capacity_perform _ call).trans ih

/-- The keys of the store are those that are held by the order of their last use, in this order. -/
theorem keys_after (capacity : Nat) (calls : List Call) :
    (after capacity calls).keys = recency capacity calls := by
  induction calls with
  | nil => exact congrArg Table.keys (Lawful.entries_new capacity)
  | cons call calls ih =>
    have hnodup : (after capacity calls).keys.Nodup := ih ▸ nodup_recency capacity calls
    rw [after, keys_perform hnodup, capacity_after, ih, recency]

/-! ### Which items are stored -/

/-- What is stored under a key was put there last. -/
theorem lastPut?_of_peek (h : (after capacity calls).peek k = some item) :
    lastPut? k calls = some item := by
  induction calls with
  | nil =>
    rw [after, peek, empty, entries, Lawful.entries_new] at h
    cases h
  | cons call calls ih =>
    cases call with
    | get a => exact ih (peek_get.symm.trans h)
    | put a new =>
      rw [lastPut?]
      rcases peek_put h with ⟨ha, hitem⟩ | ⟨ha, hpeek⟩
      · rw [if_pos ha, hitem]
      · rw [if_neg ha, ih hpeek]

omit [ItemCache] [ItemCache.Lawful] in
/-- If no key is there twice, the last one is the only one that is not before the last. -/
theorem getLast?_eq_some_iff {keys : List RequestKey} (h : keys.Nodup) :
    keys.getLast? = some a ↔ a ∈ keys ∧ a ∉ keys.dropLast := by
  rcases List.eq_nil_or_concat keys with rfl | ⟨init, last, rfl⟩
  · simp
  · have hlast : last ∉ init := (List.nodup_concat init last).mp h |>.1
    rw [List.concat_eq_append, List.getLast?_concat, List.dropLast_concat, Option.some.injEq,
      List.mem_append, List.mem_singleton]
    constructor
    · rintro rfl
      exact ⟨.inr rfl, hlast⟩
    · rintro ⟨hmem, hnot⟩
      exact (hmem.resolve_left hnot).symm

/-- What is noted as dropped is the key that is held no more. -/
theorem dropped?_eq_some_iff (h : s.keys.Nodup) :
    s.dropped? k item = some a ↔
      a ∈ s.keys ∧ a ∉ track s.capacity s.keys (.put k item) := by
  rw [dropped?, track]
  cases hpeek : s.peek k with
  | some old =>
    have hheld : k ∈ s.keys := mem_keys_iff.mpr ⟨old, hpeek⟩
    rw [Lawful.push_held item hpeek, if_pos hheld, ← (List.perm_cons_erase hheld).mem_iff]
    refine iff_of_false (fun hnoted => ?_) fun ⟨hmem, hnot⟩ => hnot hmem
    obtain ⟨hk, hother⟩ := Option.filter_eq_some_iff.mp hnoted
    exact of_decide_eq_true hother (Option.some.inj hk).symm
  | none =>
    have hnew : k ∉ s.keys := not_mem_keys_iff.mpr hpeek
    have hlength : s.keys.length = s.entries.length := List.length_map _
    rw [if_neg hnew, hlength]
    split
    next hroom =>
      rw [Lawful.push_room item hpeek hroom]
      exact iff_of_false nofun fun ⟨hmem, hnot⟩ => hnot (List.mem_cons_of_mem _ hmem)
    next hfull =>
      have hlast : (s.entries.getLast?.map Prod.fst) = s.keys.getLast? := List.getLast?_map.symm
      rw [Lawful.push_full item hpeek (Nat.le_of_not_lt hfull), ← entries, hlast,
        Option.filter_eq_some_iff, getLast?_eq_some_iff h, decide_eq_true_iff, List.mem_cons,
        not_or]
      exact ⟨fun ⟨⟨hmem, hnot⟩, hk⟩ => ⟨hmem, hk, hnot⟩,
        fun ⟨hmem, hk, hnot⟩ => ⟨⟨hmem, hnot⟩, hk⟩⟩

/-- What a store holds after any calls. -/
structure KeepsRecent (capacity : Nat) (calls : List Call) : Prop where
  /-- The keys of the store are those that are held by the order of their last use. -/
  keys : (after capacity calls).keys = recency capacity calls
  distinct : (after capacity calls).keys.Nodup
  /-- They are as many as there is room for, of all that something was put under. -/
  size : (after capacity calls).size = min capacity (putKeys calls).dedup.length
  /-- A key that is held has the item that was put under it last. -/
  found {k : RequestKey} (h : k ∈ recency capacity calls) :
    ∃ item, lastPut? k calls = some item ∧ ((after capacity calls).get k).1 = some item
  /-- For any other key there is nothing, and asking for it leaves everything as it was. -/
  missing {k : RequestKey} (h : k ∉ recency capacity calls) :
    ((after capacity calls).get k).1 = none ∧
      ((after capacity calls).get k).2.entries = (after capacity calls).entries
  bounded : (after capacity calls).size ≤ capacity
  /-- A new item under a key that is held drops no other key. -/
  renews {k a : RequestKey} (item : Item) (h : k ∈ recency capacity calls) :
    a ∈ recency capacity (.put k item :: calls) ↔ a ∈ recency capacity calls
  /-- What is noted as dropped is the key that is held no more. -/
  notes {k a : RequestKey} (item : Item) :
    (after capacity calls).dropped? k item = some a ↔
      a ∈ recency capacity calls ∧ a ∉ recency capacity (.put k item :: calls)

/-- A store with room for some items keeps those that were used last. -/
theorem keeps_recent (hcapacity : 1 ≤ capacity) (calls : List Call) :
    KeepsRecent capacity calls := by
  have hkeys := keys_after capacity calls
  have hnodup : (after capacity calls).keys.Nodup := hkeys ▸ nodup_recency capacity calls
  have hsize : (after capacity calls).size = (recency capacity calls).length := by
    rw [← length_keys, hkeys]
  constructor
  case keys => exact hkeys
  case distinct => exact hnodup
  case size => exact hsize.trans (length_recency hcapacity calls)
  case found =>
    intro k hk
    obtain ⟨item, hitem⟩ := mem_keys_iff.mp (hkeys ▸ hk)
    exact ⟨item, lastPut?_of_peek hitem, fst_get.trans hitem⟩
  case missing =>
    intro k hk
    have hnone : (after capacity calls).peek k = none := not_mem_keys_iff.mp (hkeys ▸ hk)
    exact ⟨fst_get.trans hnone, entries_get_of_missing hnone⟩
  case bounded => exact hsize ▸ length_recency_le hcapacity calls
  case renews => exact fun _ hk => mem_track_put_of_mem hk
  case notes =>
    intro k a item
    rw [dropped?_eq_some_iff hnodup, hkeys, capacity_after, recency]

end

/-- In a store for two items, the first one was used again before the third one came, so that the
second one had to go. -/
theorem keeps_recent_of_use :
    let first : RequestKey := ⟨.body, Digest.zero⟩
    let second : RequestKey := ⟨.receipts, Digest.zero⟩
    let third : RequestKey := ⟨.code, Digest.zero⟩
    let calls : List Call := [.get first, .put second (.code [2]), .put first (.code [1])]
    1 ≤ 2 ∧ ItemCache.Lawful ∧ KeepsRecent 2 calls ∧
      KeepsRecent 2 (.put third (.code [3]) :: calls) ∧
      recency 2 (.put third (.code [3]) :: calls) = [third, first] ∧
      (after 2 calls).dropped? third (.code [3]) = some second ∧
      lastPut? first calls = some (.code [1]) := by
  intro first second third calls
  exact ⟨by decide, inferInstance, keeps_recent (by decide) calls, keeps_recent (by decide) _,
    by decide, by decide, by decide⟩

end ItemStore

end LightClient
