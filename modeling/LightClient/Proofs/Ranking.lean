/-
Module: LightClient.Proofs.Ranking
Purpose: Lists in the order of their ranks. Things with different ranks can be listed in one order
  only, whatever order they come in.
Main exports: Ranking, Ranking.unique, Ranking.filter, Ranking.mergeSort, mergeSort_eq_of_perm,
  isStrictTotalOrder_of_rank
-/
import Mathlib.Data.List.Nodup
import Mathlib.Order.Lattice
import Mathlib.Order.RelClasses

namespace LightClient

/-- A list of all that is wanted, in order. -/
structure Ranking {α : Type} (before : α → α → Prop) (wanted : α → Prop) (l : List α) : Prop where
  ordered : l.Pairwise before
  mem_iff : ∀ x, x ∈ l ↔ wanted x

namespace Ranking

variable {α : Type} {before : α → α → Prop} {wanted : α → Prop} {l l' : List α}

/-- Nothing is listed twice. -/
theorem nodup [Std.Irrefl before] (h : Ranking before wanted l) : l.Nodup :=
  h.ordered.imp fun {a b} (hab : before a b) (heq : a = b) => Std.Irrefl.irrefl b (heq ▸ hab)

/-- What is wanted can be listed in one order only. -/
theorem unique [IsStrictOrder α before] (h : Ranking before wanted l)
    (h' : Ranking before wanted l') : l = l' := by
  have hperm : l.Perm l' :=
    (List.perm_ext_iff_of_nodup h.nodup h'.nodup).mpr fun x =>
      (h.mem_iff x).trans (h'.mem_iff x).symm
  refine List.Perm.eq_of_pairwise ?_ h.ordered h'.ordered hperm
  intro a b _ _ hab hba
  exact absurd (IsTrans.trans a b a hab hba) (Std.Irrefl.irrefl a)

/-- Less of it is listed in the same order. -/
theorem filter (h : Ranking before wanted l) (p : α → Bool) :
    Ranking before (fun x => wanted x ∧ p x = true) (l.filter p) where
  ordered := h.ordered.filter p
  mem_iff x := by rw [List.mem_filter, h.mem_iff]

/-- What is left out of the first places ranks after all of them. -/
theorem before_of_not_mem_take {n : Nat} {x y : α} (h : Ranking before wanted l)
    (hx : x ∈ l.take n) (hy : wanted y) (hout : y ∉ l.take n) : before x y := by
  have hsplit : (l.take n ++ l.drop n).Pairwise before := by
    rw [List.take_append_drop]
    exact h.ordered
  have hmem : y ∈ l.take n ++ l.drop n := by
    rw [List.take_append_drop]
    exact (h.mem_iff y).mpr hy
  have hdrop : y ∈ l.drop n := (List.mem_append.mp hmem).resolve_left hout
  exact (List.pairwise_append.mp hsplit).2.2 x hx y hdrop

end Ranking

/-! ### Sorting by rank -/

section

variable {α β : Type} [LinearOrder β] {before : α → α → Bool} {rank : α → β} {l l' : List α}

/-- Ranks put things in a strict order. -/
theorem isStrictOrder_of_rank (hrank : ∀ a b, before a b = true ↔ rank a < rank b) :
    IsStrictOrder α fun a b => before a b = true where
  irrefl a h := lt_irrefl _ ((hrank a a).mp h)
  trans a b c hab hbc := (hrank a c).mpr (((hrank a b).mp hab).trans ((hrank b c).mp hbc))

/-- Among things with different ranks, one of any two comes before the other. -/
theorem isStrictTotalOrder_of_rank {wanted : α → Prop}
    (hrank : ∀ a b, before a b = true ↔ rank a < rank b)
    (hinj : ∀ a b, wanted a → wanted b → rank a = rank b → a = b) :
    IsStrictTotalOrder { a // wanted a } fun a b => before a.1 b.1 = true where
  toIsStrictOrder := isStrictOrder_of_rank fun a b => hrank a.1 b.1
  trichotomous a b hab hba := by
    rw [hrank, not_lt] at hab hba
    exact Subtype.ext (hinj a b a.2 b.2 (le_antisymm hba hab))

/-- Sorting brings things with different ranks into their order. -/
theorem Ranking.mergeSort (hrank : ∀ a b, before a b = true ↔ rank a < rank b)
    (hl : l.Pairwise fun a b => rank a ≠ rank b) :
    Ranking (fun a b => before a b = true) (· ∈ l) (l.mergeSort fun a b => !before b a) where
  ordered := by
    have hle : ∀ a b, (!before b a) = true ↔ rank a ≤ rank b := by
      intro a b
      rw [Bool.not_eq_true', ← Bool.not_eq_true, hrank, not_lt]
    have hsorted :
        (l.mergeSort fun a b => !before b a).Pairwise fun a b => (!before b a) = true := by
      apply List.pairwise_mergeSort
      · intro a b c hab hbc
        rw [hle] at *
        exact hab.trans hbc
      · intro a b
        rw [Bool.or_eq_true, hle, hle]
        exact le_total _ _
    have hne : (l.mergeSort fun a b => !before b a).Pairwise fun a b => rank a ≠ rank b :=
      hl.perm (List.mergeSort_perm _ _).symm Ne.symm
    refine hsorted.imp₂ ?_ hne
    intro a b hab hne
    exact (hrank a b).mpr (lt_of_le_of_ne ((hle a b).mp hab) hne)
  mem_iff _ := List.mem_mergeSort

/-- Things with different ranks are sorted alike, whatever order they come in. -/
theorem mergeSort_eq_of_perm (hrank : ∀ a b, before a b = true ↔ rank a < rank b)
    (hl : l.Pairwise fun a b => rank a ≠ rank b) (hperm : l'.Perm l) :
    (l'.mergeSort fun a b => !before b a) = l.mergeSort fun a b => !before b a := by
  have hstrict := isStrictOrder_of_rank hrank
  have hsorted := Ranking.mergeSort hrank (hl.perm hperm.symm Ne.symm)
  have hsorted' : Ranking (fun a b => before a b = true) (· ∈ l)
      (l'.mergeSort fun a b => !before b a) :=
    ⟨hsorted.ordered, fun x => (hsorted.mem_iff x).trans hperm.mem_iff⟩
  exact hsorted'.unique (.mergeSort hrank hl)

end

end LightClient
