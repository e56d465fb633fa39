/-
Module: LightClient.Proofs.ServerPool.Candidacy
Purpose: What each operation of the server pool does to what is going on at an address.
Main exports: ServerPool.candidacy?, ServerPool.candidacy?_addKnown, ServerPool.suggest_cases,
  ServerPool.candidacy?_report, ServerPool.candidacy?_connected, ServerPool.candidacy?_disconnected
-/
import LightClient.Proofs.Table
import LightClient.ServerPool

namespace LightClient

namespace ServerPool

variable [DelaySeries] {p : ServerPool} {a b : PeerAddr} {now : Nat}

/-- What is going on at an address; nothing if it is not known. -/
def candidacy? (p : ServerPool) (a : PeerAddr) : Option Candidacy :=
  (p.candidates.get? a).map Candidate.state

/-- A change of one candidate sets the state of its address only. -/
theorem candidacy?_update (state : Candidacy) {f : Candidate → Candidate}
    (hf : ∀ c, (f c).state = state) :
    (p.update b f).candidacy? a =
      if b = a then (p.candidacy? a).map fun _ => state else p.candidacy? a := by
  unfold candidacy? update
  rw [Table.get?_modify]
  split
  · simp only [Option.map_map]
    exact Option.map_congr fun c _ => hf c
  · rfl

/-! ### Mentioning -/

/-- A mentioned address is known from then on, in the state it had if it had one. -/
theorem candidacy?_mention :
    (p.mention b).candidacy? a =
      if b = a then some ((p.candidacy? a).getD .known) else p.candidacy? a := by
  unfold mention
  split
  next hknown =>
    obtain ⟨c, hc⟩ := Option.isSome_iff_exists.mp hknown
    split
    next hb =>
      subst hb
      simp only [candidacy?, hc, Option.map_some, Option.getD_some]
    next => rfl
  next hnew =>
    have hnone : p.candidates.get? b = none := Option.not_isSome_iff_eq_none.mp hnew
    unfold candidacy?
    rw [Table.get?_insert]
    split
    next hb =>
      subst hb
      rw [hnone]
      rfl
    next => rfl

/-- An address that is mentioned again stays as it is. -/
theorem candidacy?_addKnown {addrs : List PeerAddr} :
    (p.addKnown addrs).candidacy? a =
      if a ∈ addrs then some ((p.candidacy? a).getD .known) else p.candidacy? a := by
  unfold addKnown
  induction addrs generalizing p with
  | nil => rfl
  | cons b addrs ih =>
    rw [List.foldl_cons, ih, candidacy?_mention]
    by_cases hb : b = a
    · subst hb
      simp
    · simp [hb, Ne.symm hb]

/-! ### Dialing -/

/-- What is suggested is known, neither connected nor being dialed, and counts as being dialed from
then on; nothing else changes. -/
theorem suggest_cases (now : Nat) (hunique : p.candidates.Unique) :
    (p.suggest now = (none, p)) ∨
      ∃ a, p.suggest now = (some a, p.update a fun c => { c with state := .dialing }) ∧
        p.candidacy? a = some .known := by
  unfold suggest
  split
  next a hhead =>
    refine .inr ⟨a, rfl, ?_⟩
    obtain ⟨⟨_, c⟩, hmem, rfl⟩ := List.mem_map.mp (List.mem_of_mem_head? hhead)
    obtain ⟨hmem, haccept⟩ := List.mem_filter.mp (List.mem_mergeSort.mp hmem)
    have hstate : c.state = .known := of_decide_eq_true (Bool.and_eq_true_iff.mp haccept).1
    simp only [candidacy?, Table.get?_of_mem hunique hmem, Option.map_some, hstate]
  next => exact .inl rfl

/-- A report about one address leaves every other one as it was. -/
theorem candidacy?_report_of_ne {success : Bool} (hb : b ≠ a) :
    (p.report now b success).candidacy? a = p.candidacy? a := by
  have hmention : (p.mention b).candidacy? a = p.candidacy? a := by
    rw [candidacy?_mention, if_neg hb]
  unfold report
  cases success with
  | true =>
    refine (candidacy?_update .connected fun _ => rfl).trans ?_
    rw [if_neg hb, hmention]
  | false =>
    have hknown : ∀ f : Candidate → Candidate, ((p.mention b).update b f).candidacy? a =
        p.candidacy? a := by
      intro f
      rw [← hmention]
      unfold candidacy? update
      rw [Table.get?_modify, if_neg hb]
    simp only [Bool.false_eq_true, if_false]
    split
    · rw [← hknown]
      unfold candidacy? forget
      rw [Table.get?_erase, if_neg hb]
    · exact hknown _

/-- A dial that succeeded ends in a connection; one that failed leaves the address known, or
forgotten. -/
theorem candidacy?_report (p : ServerPool) (now : Nat) (a : PeerAddr) (success : Bool) :
    (p.report now a success).candidacy? a = some .connected ∧ success = true ∨
      success = false ∧ ((p.report now a success).candidacy? a = some .known ∨
        (p.report now a success).candidacy? a = none) := by
  unfold report
  cases success with
  | true =>
    refine .inl ⟨?_, rfl⟩
    refine (candidacy?_update .connected fun _ => rfl).trans ?_
    rw [if_pos rfl, candidacy?_mention, if_pos rfl]
    rfl
  | false =>
    refine .inr ⟨rfl, ?_⟩
    simp only [Bool.false_eq_true, if_false]
    split
    · right
      unfold candidacy? forget
      rw [Table.get?_erase, if_pos rfl]
      rfl
    · left
      refine (candidacy?_update .known fun _ => rfl).trans ?_
      rw [if_pos rfl, candidacy?_mention, if_pos rfl]
      rfl

/-! ### Connections -/

/-- An address that has been connected to is connected, whatever it was. -/
theorem candidacy?_connected :
    (p.connected b).candidacy? a = if b = a then some .connected else p.candidacy? a := by
  refine (candidacy?_update .connected fun _ => rfl).trans ?_
  rw [candidacy?_mention]
  split <;> rfl

/-- An address that is there is known once it is disconnected, whatever it was. -/
theorem candidacy?_disconnected {evicted : Bool} :
    (p.disconnected now b evicted).candidacy? a =
      if b = a then (p.candidacy? a).map fun _ => .known else p.candidacy? a := by
  have hupdate : (p.update b fun c => { c with state := .known }).candidacy? a =
      if b = a then (p.candidacy? a).map fun _ => .known else p.candidacy? a :=
    candidacy?_update .known fun _ => rfl
  unfold disconnected
  split
  next => split <;> exact hupdate
  next hunknown =>
    have hnone : p.candidates.get? b = none := Option.not_isSome_iff_eq_none.mp hunknown
    split
    next hb =>
      subst hb
      rw [candidacy?, hnone]
      rfl
    next => rfl

/-! ### No address has two entries -/

section

variable {success evicted : Bool}

theorem unique_mention (h : p.candidates.Unique) : (p.mention a).candidates.Unique := by
  unfold mention
  split
  · exact h
  · exact h.insert

theorem unique_addKnown {addrs : List PeerAddr} (h : p.candidates.Unique) :
    (p.addKnown addrs).candidates.Unique := by
  unfold addKnown
  induction addrs generalizing p with
  | nil => exact h
  | cons b addrs ih => exact ih (unique_mention h)

theorem unique_suggest (h : p.candidates.Unique) : (p.suggest now).2.candidates.Unique := by
  unfold suggest
  split
  · exact Table.Unique.modify h
  · exact h

theorem unique_report (h : p.candidates.Unique) :
    (p.report now a success).candidates.Unique := by
  have hmention := unique_mention (a := a) h
  unfold report
  simp only
  split
  · exact Table.Unique.modify hmention
  · split
    · exact Table.Unique.erase (Table.Unique.modify hmention)
    · exact Table.Unique.modify hmention

theorem unique_connected (h : p.candidates.Unique) : (p.connected a).candidates.Unique :=
  Table.Unique.modify (unique_mention h)

theorem unique_disconnected (h : p.candidates.Unique) :
    (p.disconnected now a evicted).candidates.Unique := by
  unfold disconnected
  split
  · simp only
    split <;> exact Table.Unique.modify h
  · exact h

end

end ServerPool

end LightClient
