/-
Module: LightClient.Proofs.Table
Purpose: What the operations on a finite map do to its entries, to what holds of all of them, to
  the numbers that tell them apart, and to how many of them have a property.
Main exports: Table.get?_insert, Table.get?_modify, Table.get?_erase, Table.All, Table.All.insert,
  Table.All.modify, Table.Numbered, Table.count
-/
import Mathlib.Data.List.Nodup
import LightClient.Table

namespace LightClient

namespace Table

variable {κ ν : Type} [DecidableEq κ] {t : Table κ ν} {k : κ} {v : ν}

/-! ### Looking up -/

theorem get?_insert (t : Table κ ν) (k a : κ) (v : ν) :
    (t.insert k v).get? a = if k = a then some v else t.get? a := by
  induction t with
  | nil => rfl
  | cons entry rest ih =>
    obtain ⟨b, w⟩ := entry
    by_cases hb : b = k
    · subst hb
      simp only [insert, if_true, get?]
      split <;> rfl
    · simp only [insert, if_neg hb, get?, ih]
      by_cases ha : b = a
      · subst ha
        simp [Ne.symm hb]
      · simp [ha]

theorem get?_modify (t : Table κ ν) (k a : κ) (f : ν → ν) :
    (t.modify k f).get? a = if k = a then (t.get? a).map f else t.get? a := by
  induction t with
  | nil =>
    simp only [modify, get?, Option.map_none]
    split <;> rfl
  | cons entry rest ih =>
    obtain ⟨b, w⟩ := entry
    by_cases hb : b = k
    · subst hb
      simp only [modify, if_true, get?]
      split <;> rfl
    · simp only [modify, if_neg hb, get?, ih]
      by_cases ha : b = a
      · subst ha
        simp [Ne.symm hb]
      · simp [ha]

theorem erase_cons_self (k : κ) (v : ν) (rest : Table κ ν) :
    erase ((k, v) :: rest) k = erase rest k := by
  simp [erase]

theorem erase_cons_of_ne {a : κ} (ha : a ≠ k) (v : ν) (rest : Table κ ν) :
    erase ((a, v) :: rest) k = (a, v) :: erase rest k := by
  simp [erase, ha]

theorem get?_erase (t : Table κ ν) (k a : κ) :
    (t.erase k).get? a = if k = a then none else t.get? a := by
  induction t with
  | nil => simp [erase, get?]
  | cons entry rest ih =>
    obtain ⟨b, w⟩ := entry
    by_cases hb : b = k
    · subst hb
      rw [erase_cons_self, ih]
      simp only [get?]
      split <;> rfl
    · rw [erase_cons_of_ne hb]
      simp only [get?, ih]
      by_cases ha : b = a
      · subst ha
        simp [Ne.symm hb]
      · simp [ha]

theorem modify_of_get?_none {f : ν → ν} (h : t.get? k = none) : t.modify k f = t := by
  induction t with
  | nil => rfl
  | cons entry rest ih =>
    obtain ⟨b, w⟩ := entry
    simp only [get?] at h
    split at h
    · cases h
    next hb => rw [modify, if_neg hb, ih h]

/-- Where there is an entry already, a new value takes the place of the old one. -/
theorem insert_eq_modify (h : t.get? k = some v) (w : ν) :
    t.insert k w = t.modify k fun _ => w := by
  induction t with
  | nil => cases h
  | cons entry rest ih =>
    obtain ⟨b, u⟩ := entry
    simp only [get?] at h
    split at h
    next hb => rw [insert, modify, if_pos hb, if_pos hb, hb]
    next hb => rw [insert, modify, if_neg hb, if_neg hb, ih h]

/-- What is found is in the table. -/
theorem mem_of_get? (h : t.get? k = some v) : (k, v) ∈ t := by
  induction t with
  | nil => cases h
  | cons entry rest ih =>
    obtain ⟨b, w⟩ := entry
    simp only [get?] at h
    split at h
    next hb =>
      cases h
      rw [hb]
      exact List.mem_cons_self
    next => exact List.mem_cons_of_mem _ (ih h)

/-- What is found in the first entries is found in all of them. -/
theorem get?_of_prefix {first : Table κ ν} (hfirst : first <+: t) (h : first.get? k = some v) :
    t.get? k = some v := by
  obtain ⟨more, rfl⟩ := hfirst
  induction first with
  | nil => cases h
  | cons entry rest ih =>
    obtain ⟨b, w⟩ := entry
    simp only [List.cons_append, get?] at h ⊢
    split at h
    next hb => rw [if_pos hb, h]
    next hb =>
      rw [if_neg hb]
      exact ih h

/-- Taking out a key without a value changes nothing. -/
theorem erase_of_get?_none (h : t.get? k = none) : t.erase k = t := by
  refine List.filter_eq_self.mpr fun entry hentry => decide_eq_true fun hk => ?_
  induction t with
  | nil => cases hentry
  | cons first rest ih =>
    obtain ⟨b, w⟩ := first
    simp only [get?] at h
    split at h
    next => cases h
    next hb =>
      rcases List.mem_cons.mp hentry with rfl | hentry
      · exact hb hk
      · exact ih h hentry

/-! ### What holds of all entries -/

/-- Whatever is found in the table has the property. -/
def All (P : κ → ν → Prop) (t : Table κ ν) : Prop :=
  ∀ k v, t.get? k = some v → P k v

namespace All

variable {P Q : κ → ν → Prop}

theorem empty : All P ([] : Table κ ν) :=
  fun _ _ h => nomatch h

theorem imp (h : All P t) (himp : ∀ k v, t.get? k = some v → P k v → Q k v) : All Q t :=
  fun k v hv => himp k v hv (h k v hv)

theorem insert (h : All P t) (hv : P k v) : All P (t.insert k v) := by
  intro a w hw
  rw [get?_insert] at hw
  split at hw
  next hk =>
    cases hw
    exact hk ▸ hv
  next => exact h a w hw

theorem modify {f : ν → ν} (h : All P t) (hf : ∀ v, t.get? k = some v → P k (f v)) :
    All P (t.modify k f) := by
  intro a w hw
  rw [get?_modify] at hw
  split at hw
  next hk =>
    obtain ⟨u, hu, rfl⟩ := Option.map_eq_some_iff.mp hw
    subst hk
    exact hf u hu
  next => exact h a w hw

theorem erase (h : All P t) : All P (t.erase k) := by
  intro a w hw
  rw [get?_erase] at hw
  split at hw
  · cases hw
  · exact h a w hw

end All

/-! ### Keys -/

/-- No key has two entries. -/
def Unique (t : Table κ ν) : Prop :=
  t.keys.Nodup

namespace Unique

theorem mem_keys_insert {a : κ} (h : a ∈ (t.insert k v).keys) : a = k ∨ a ∈ t.keys := by
  induction t with
  | nil => exact .inl (by simpa [Table.insert, keys] using h)
  | cons entry rest ih =>
    obtain ⟨b, w⟩ := entry
    simp only [Table.insert] at h
    split at h
    next hb =>
      rcases List.mem_cons.mp h with h | h
      · exact .inl h
      · exact .inr (List.mem_cons_of_mem _ h)
    next hb =>
      rcases List.mem_cons.mp h with h | h
      · exact .inr (h ▸ List.mem_cons_self)
      · exact (ih h).imp_right (List.mem_cons_of_mem _)

theorem insert (h : t.Unique) : (t.insert k v).Unique := by
  induction t with
  | nil => exact List.nodup_singleton k
  | cons entry rest ih =>
    obtain ⟨b, w⟩ := entry
    obtain ⟨hnot, hrest⟩ := List.nodup_cons.mp h
    simp only [Table.insert]
    split
    next hb =>
      subst hb
      exact h
    next hb =>
      apply List.nodup_cons.mpr
      constructor
      · intro hmem
        exact (mem_keys_insert hmem).elim hb hnot
      · exact ih hrest

theorem modify {f : ν → ν} (h : t.Unique) : (t.modify k f).Unique := by
  have hkeys : (t.modify k f).keys = t.keys := by
    clear h
    induction t with
    | nil => rfl
    | cons entry rest ih =>
      obtain ⟨b, w⟩ := entry
      simp only [Table.modify]
      split
      · rfl
      · exact congrArg (b :: ·) ih
  unfold Unique
  rw [hkeys]
  exact h

theorem erase (h : t.Unique) : (t.erase k).Unique :=
  ((List.filter_sublist (l := t)).map Prod.fst).nodup h

theorem keys_erase (h : t.Unique) : (t.erase k).keys = t.keys.erase k := by
  have hkeys : (t.erase k).keys = t.keys.filter (· != k) := by
    rw [keys, keys, List.filter_map]
    refine congrArg (List.map Prod.fst) (List.filter_congr fun entry _ => ?_)
    by_cases hk : entry.1 = k <;> simp [hk]
  rw [hkeys, List.Nodup.erase_eq_filter h]

end Unique

/-- The keys are those under which something is found. -/
theorem mem_keys_iff : k ∈ t.keys ↔ ∃ v, t.get? k = some v := by
  constructor
  · intro h
    induction t with
    | nil => cases h
    | cons entry rest ih =>
      obtain ⟨b, w⟩ := entry
      simp only [get?]
      split
      next => exact ⟨w, rfl⟩
      next hb => exact ih ((List.mem_cons.mp h).resolve_left (Ne.symm hb))
  · rintro ⟨v, hv⟩
    exact List.mem_map_of_mem (mem_of_get? hv)

/-- In a table in which no key has two entries, every entry is found. -/
theorem get?_of_mem (hunique : t.Unique) (h : (k, v) ∈ t) : t.get? k = some v := by
  induction t with
  | nil => cases h
  | cons entry rest ih =>
    obtain ⟨b, w⟩ := entry
    obtain ⟨hnot, hrest⟩ := List.nodup_cons.mp hunique
    simp only [get?]
    rcases List.mem_cons.mp h with heq | h
    · cases heq
      rw [if_pos rfl]
    · have hkey : k ∈ keys rest := List.mem_map_of_mem h
      have hne : b ≠ k := fun heq => hnot (heq ▸ hkey)
      rw [if_neg hne]
      exact ih hrest h

/-! ### Numbered entries -/

/-- Every entry has a number of its own, and all of them are below the next one. -/
structure Numbered (number : ν → Nat) (t : Table κ ν) (next : Nat) : Prop where
  distinct {a b : κ} {v w : ν} (hv : t.get? a = some v) (hw : t.get? b = some w)
    (hnumber : number v = number w) : a = b
  below {a : κ} {v : ν} (h : t.get? a = some v) : number v < next

namespace Numbered

variable {number : ν → Nat} {next next' : Nat} {w : ν}

theorem empty : Numbered number ([] : Table κ ν) next where
  distinct hv := nomatch hv
  below h := nomatch h

/-- An entry can be put in if no other one has its number. -/
theorem insert (h : t.Numbered number next) (hnext : next ≤ next') (hbelow : number v < next')
    (hown : ∀ b w, t.get? b = some w → number w = number v → b = k) :
    (t.insert k v).Numbered number next' where
  distinct {a b u w} hu hw hnumber := by
    rw [get?_insert] at hu hw
    split at hu
    next ha =>
      cases hu
      split at hw
      next hb => exact ha.symm.trans hb
      next => exact ha.symm.trans (hown b w hw hnumber.symm).symm
    next =>
      split at hw
      next hb =>
        cases hw
        exact (hown a u hu hnumber).trans hb
      next => exact h.distinct hu hw hnumber
  below {a u} hu := by
    rw [get?_insert] at hu
    split at hu
    next =>
      cases hu
      exact hbelow
    next => exact Nat.lt_of_lt_of_le (h.below hu) hnext

/-- A new value under the number of the old one. -/
theorem renew (h : t.Numbered number next) (hw : t.get? k = some w)
    (hsame : number v = number w) : (t.insert k v).Numbered number next :=
  h.insert (Nat.le_refl _) (hsame ▸ h.below hw)
    fun _ _ hother hnumber => h.distinct hother hw (hnumber.trans hsame)

/-- A new entry under the next number. -/
theorem enroll (h : t.Numbered number next) (hv : number v = next) :
    (t.insert k v).Numbered number (next + 1) :=
  h.insert (Nat.le_succ _) (hv ▸ Nat.lt_succ_self _)
    fun _ _ hother hnumber => absurd (hnumber.trans hv) (Nat.ne_of_lt (h.below hother))

/-- A table whose entries all have the numbers of earlier ones. -/
theorem of_earlier {t' : Table κ ν} (h : t.Numbered number next)
    (hearlier : ∀ {a v}, t'.get? a = some v → ∃ u, t.get? a = some u ∧ number v = number u) :
    t'.Numbered number next where
  distinct hv hw hnumber := by
    obtain ⟨v', hv', hv⟩ := hearlier hv
    obtain ⟨w', hw', hw⟩ := hearlier hw
    exact h.distinct hv' hw' (hv.symm.trans (hnumber.trans hw))
  below hv := by
    obtain ⟨v', hv', hv⟩ := hearlier hv
    exact hv ▸ h.below hv'

theorem modify {f : ν → ν} (h : t.Numbered number next) (hf : ∀ v, number (f v) = number v) :
    (t.modify k f).Numbered number next := by
  apply h.of_earlier
  intro a w hw
  rw [get?_modify] at hw
  split at hw
  next =>
    obtain ⟨u, hu, rfl⟩ := Option.map_eq_some_iff.mp hw
    exact ⟨u, hu, hf u⟩
  next => exact ⟨w, hw, rfl⟩

theorem erase (h : t.Numbered number next) : (t.erase k).Numbered number next := by
  apply h.of_earlier
  intro a w hw
  rw [get?_erase] at hw
  split at hw
  · cases hw
  · exact ⟨w, hw, rfl⟩

/-- No two entries of a table have the same number. -/
theorem pairwise (h : t.Numbered number next) (hunique : t.Unique) :
    t.Pairwise fun x y => number x.2 ≠ number y.2 := by
  refine (List.pairwise_map.mp hunique).imp_of_mem ?_
  intro x y hx hy hne hnumber
  exact hne (h.distinct (get?_of_mem hunique hx) (get?_of_mem hunique hy) hnumber)

end Numbered

/-! ### How many entries -/

/-- The number of entries with a property. -/
def count (P : ν → Bool) (t : Table κ ν) : Nat :=
  t.values.countP P

variable {P : ν → Bool}

theorem count_eq_zero (hunique : t.Unique) (h : t.All fun _ v => P v = false) :
    t.count P = 0 := by
  apply List.countP_eq_zero.mpr
  intro v hv
  obtain ⟨⟨k, w⟩, hmem, rfl⟩ := List.mem_map.mp hv
  exact Bool.eq_false_iff.mp (h k w (get?_of_mem hunique hmem))

/-- An entry that changes counts as it did before, less what it was, and more what it is. -/
theorem count_modify {f : ν → ν} (h : t.get? k = some v) :
    (t.modify k f).count P + (if P v then 1 else 0) =
      t.count P + (if P (f v) then 1 else 0) := by
  induction t with
  | nil => cases h
  | cons entry rest ih =>
    obtain ⟨b, w⟩ := entry
    simp only [get?] at h
    split at h
    next hb =>
      cases h
      simp only [modify, if_pos hb, count, values, List.map_cons, List.countP_cons]
      omega
    next hb =>
      have ih := ih h
      simp only [modify, if_neg hb]
      simp only [count, values, List.map_cons, List.countP_cons] at ih ⊢
      omega

/-- A change that keeps the property changes no count. -/
theorem count_modify_of_same {f : ν → ν} (h : ∀ v, t.get? k = some v → P (f v) = P v) :
    (t.modify k f).count P = t.count P := by
  cases hget : t.get? k with
  | none => rw [modify_of_get?_none hget]
  | some v =>
    have hcount := count_modify (P := P) (f := f) hget
    rw [h v hget] at hcount
    exact Nat.add_right_cancel hcount

theorem count_insert_of_get? {w : ν} (h : t.get? k = some v) :
    (t.insert k w).count P + (if P v then 1 else 0) = t.count P + (if P w then 1 else 0) := by
  rw [insert_eq_modify h]
  exact count_modify h

theorem count_insert_of_none (h : t.get? k = none) :
    (t.insert k v).count P = t.count P + (if P v then 1 else 0) := by
  induction t with
  | nil => simp [insert, count, values]
  | cons entry rest ih =>
    obtain ⟨b, u⟩ := entry
    simp only [get?] at h
    split at h
    · cases h
    next hb =>
      have ih := ih h
      simp only [insert, if_neg hb]
      simp only [count, values, List.map_cons, List.countP_cons] at ih ⊢
      omega

/-- An entry that is taken out no longer counts. -/
theorem count_erase (hunique : t.Unique) (h : t.get? k = some v) :
    (t.erase k).count P + (if P v then 1 else 0) = t.count P := by
  induction t with
  | nil => cases h
  | cons entry rest ih =>
    obtain ⟨b, u⟩ := entry
    obtain ⟨hnot, hrest⟩ := List.nodup_cons.mp hunique
    simp only [get?] at h
    split at h
    next hb =>
      cases h
      subst hb
      have hkeep : erase rest b = rest := by
        apply List.filter_eq_self.mpr
        intro entry hentry
        have hmem : entry.1 ∈ rest.map Prod.fst := List.mem_map_of_mem hentry
        have hne : entry.1 ≠ b := fun heq => hnot (heq ▸ hmem)
        simpa using hne
      rw [erase_cons_self, hkeep]
      simp only [count, values, List.map_cons, List.countP_cons]
    next hb =>
      have ih := ih hrest h
      rw [erase_cons_of_ne hb]
      simp only [count, values, List.map_cons, List.countP_cons] at ih ⊢
      omega

end Table

end LightClient
