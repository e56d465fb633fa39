/-
Module: LightClient.Proofs.Since
Purpose: What has happened in a history, last event first, without anything that undoes it since,
  and what has happened since something was last absent.
Main exports: Since, not_since_nil, since_cons, sinceAbsent
-/

namespace LightClient

/-- Some event is of the first kind, and none that came later is of the second. -/
def Since {α : Type} (begins ends : α → Prop) (past : List α) : Prop :=
  ∃ later x earlier, past = later ++ x :: earlier ∧ begins x ∧ ∀ y ∈ later, ¬ ends y

section

variable {α : Type} {begins ends : α → Prop} {past : List α} {x : α}

theorem not_since_nil : ¬ Since begins ends [] := by
  rintro ⟨later, x, earlier, heq, _⟩
  cases later <;> cases heq

/-- It has begun since the last end if it begins now, or does not end now and had begun before. -/
theorem since_cons :
    Since begins ends (x :: past) ↔ begins x ∨ ¬ ends x ∧ Since begins ends past := by
  constructor
  · rintro ⟨later, y, earlier, heq, hy, hlater⟩
    cases later with
    | nil =>
      cases heq
      exact .inl hy
    | cons z later =>
      obtain ⟨rfl, rfl⟩ := List.cons.inj heq
      obtain ⟨hx, hlater⟩ := List.forall_mem_cons.mp hlater
      exact .inr ⟨hx, later, y, earlier, rfl, hy, hlater⟩
  · rintro (hx | ⟨hx, later, y, earlier, rfl, hy, hlater⟩)
    · exact ⟨[], x, past, rfl, hx, List.forall_mem_nil _⟩
    · exact ⟨x :: later, y, earlier, rfl, hy, List.forall_mem_cons.mpr ⟨hx, hlater⟩⟩

end

/-- The events since something was last absent. The first of them found it absent. -/
def sinceAbsent {α : Type} (present : List α → Bool) : List α → List α
  | [] => []
  | x :: past => if present past then x :: sinceAbsent present past else [x]

end LightClient
