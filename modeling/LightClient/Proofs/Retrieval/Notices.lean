/-
Module: LightClient.Proofs.Retrieval.Notices
Purpose: What a step does to the registry, and who has yet to be told of what has changed.
Main exports: Client.Pends, Client.Stir, Client.Step.stir, Client.Stir.pends, Client.Stir.removed
-/
import LightClient.Proofs.Retrieval.Fates

namespace LightClient

open Client (Action Effect)

variable [ItemCache] [DelaySeries]

namespace Client

/-- The listener has yet to be told of the event. -/
def Pends (c : Client) (e : Registry.Event) (listener : Listener) : Prop :=
  ∃ notice ∈ c.notices, notice.event = e ∧ listener ∈ notice.untold

/-- What a step does to the registry and to those who are told of its changes. -/
inductive Stir (c c' : Client) : Prop where
  | still (registry : c'.registry = c.registry) (notices : c'.notices = c.notices)
      (generation : c'.generation = c.generation)
  /-- A place is taken, of which nobody is told. -/
  | begin {peer : PeerId}
      (begun : c.registry.tryBegin peer c.settings.maxInFlight.toNat = some c'.registry)
      (notices : c'.notices = c.notices) (generation : c'.generation = c.generation)
  | change {x : Registry × List Registry.Event} (reports : c.registry.Reports x)
      (registry : c'.registry = x.1) (notices : c'.notices = c.notices ++ x.2.map Notice.fresh)
      (generation : c'.generation = c.generation)
  | tell (now : Nat) {index : Nat} {e : Registry.Event} {listener : Listener} {rest : List Listener}
      (entry : c.notices[index]? = some ⟨e, listener :: rest⟩)
      (registry : c'.registry = c.registry) (notices : c'.notices = c.notices.set index ⟨e, rest⟩)
      (generation : c'.generation = (c.tell now e listener).generation)
      (router : c'.router = (c.tell now e listener).router)
  /-- Everybody has been told. -/
  | finish {index : Nat} {e : Registry.Event} (entry : c.notices[index]? = some ⟨e, []⟩)
      (registry : c'.registry = c.registry) (notices : c'.notices = c.notices.eraseIdx index)
      (generation : c'.generation = c.generation)

variable {c c' : Client} {n : Nat} {a : Action} {effects : List Effect} {e : Registry.Event}
  {listener : Listener} {peer : PeerId}

/-! ### Every step -/

/-- What a change of the registry reports is put before every listener. -/
theorem stir_change {x : Registry × List Registry.Event} (hreports : c.registry.Reports x) :
    c.Stir (c.change x).1 :=
  .change hreports rfl rfl rfl

theorem stir_notify {now index : Nat} (h : c.notify now index = some c') : c.Stir c' := by
  unfold notify at h
  split at h
  next => cases h
  next e hentry =>
    cases h
    exact .finish hentry rfl rfl rfl
  next e listener rest hentry =>
    cases h
    cases listener with
    | router => cases e <;> exact .tell now hentry rfl rfl rfl rfl
    | generation => exact .tell now hentry rfl rfl rfl rfl
    | pool => exact .tell now hentry rfl rfl rfl rfl

/-- A step of a caller leaves the registry alone, and all that is to be told of it. -/
theorem CallerStep.stir {x : Caller} (hstep : c.CallerStep n x a c' effects) : c.Stir c' := by
  cases hstep with
  | drop | quit =>
    rw [depart_eq]
    exact .still rfl rfl rfl
  | _ => exact .still rfl rfl rfl

theorem PursuitStep.stir {p : Pursuit} (hfiled : c.registry.Filed)
    (hstep : c.PursuitStep n p a c' effects) : c.Stir c' := by
  cases hstep with
  | assign _ begun => exact .begin begun rfl rfl
  | @release held outcome next =>
    have hreports := hfiled.record_reports held.peer outcome
    cases next <;> exact .change hreports rfl rfl rfl
  | @land result =>
    have hlanding := c.landing_rule n p.key result
    generalize c.land n p.key result = d at hlanding ⊢
    cases hlanding <;> exact .still rfl rfl rfl
  | hand =>
    rw [hand_eq]
    exact .still rfl rfl rfl
  | _ => exact .still rfl rfl rfl

/-- Every step does one of these things to the registry and its listeners. -/
theorem Step.stir (hstep : c.Step a c' effects) (hfiled : c.registry.Filed) : c.Stir c' := by
  cases hstep with
  | register info => exact stir_change (c.registry.register_reports info)
  | unregister peer => exact stir_change (hfiled.unregister_reports peer)
  | announce peer head => exact stir_change (c.registry.announce_reports peer head)
  | notify told => exact stir_notify told
  | caller _ hstep => exact hstep.stir
  | pursuit _ hstep => exact hstep.stir hfiled
  | _ => exact .still rfl rfl rfl

/-! ### Who has yet to be told -/

/-- A listener that has yet to be told of an event is told of it, or has still to be told. -/
theorem Stir.pends (h : c.Stir c') (hpends : c.Pends e listener) :
    c'.Pends e listener ∨
      ∃ now, c'.generation = (c.tell now e listener).generation ∧
        c'.router = (c.tell now e listener).router := by
  obtain ⟨notice, hmem, rfl, huntold⟩ := hpends
  obtain ⟨place, hplace⟩ := List.mem_iff_getElem?.mp hmem
  cases h with
  | still _ notices => exact .inl ⟨notice, notices ▸ hmem, rfl, huntold⟩
  | begin _ notices => exact .inl ⟨notice, notices ▸ hmem, rfl, huntold⟩
  | change _ _ notices =>
    rw [Pends, notices]
    exact .inl ⟨notice, List.mem_append_left _ hmem, rfl, huntold⟩
  | @tell now index e first rest entry _ notices generation router =>
    rw [Pends, notices]
    by_cases hindex : index = place
    · -- it is this notice of which the first listener is told
      subst hindex
      rw [entry] at hplace
      cases hplace
      rcases List.mem_cons.mp huntold with rfl | hrest
      · exact .inr ⟨now, generation, router⟩
      · refine .inl ⟨⟨e, rest⟩, ?_, rfl, hrest⟩
        exact List.mem_set (List.getElem?_eq_some_iff.mp entry).1 ⟨e, rest⟩
    · refine .inl ⟨notice, List.mem_iff_getElem?.mpr ⟨place, ?_⟩, rfl, huntold⟩
      rw [List.getElem?_set_ne hindex, hplace]
  | @finish index e entry _ notices =>
    rw [Pends, notices]
    refine .inl ⟨notice, List.mem_eraseIdx_iff_getElem?.mpr ⟨place, ?_, hplace⟩, rfl, huntold⟩
    rintro rfl
    rw [entry] at hplace
    cases hplace
    cases huntold

/-- Of a peer that leaves, everybody has yet to be told. -/
theorem Stir.removed (h : c.Stir c') (hpresent : c.registry.find? peer ≠ none)
    (habsent : c'.registry.find? peer = none) :
    ∃ info reason, info.id = peer ∧ ∀ listener, c'.Pends (.removed info reason) listener := by
  cases h with
  | still registry => exact absurd (registry ▸ habsent) hpresent
  | begin begun =>
    rw [Registry.find?_tryBegin begun, Option.map_eq_none_iff] at habsent
    exact absurd habsent hpresent
  | change reports registry notices =>
    rw [registry] at habsent
    obtain ⟨info, reason, hmem, hid⟩ := reports.removed peer hpresent habsent
    refine ⟨info, reason, hid, fun listener => ?_⟩
    rw [Pends, notices]
    refine ⟨_, List.mem_append_right _ (List.mem_map_of_mem hmem), rfl, ?_⟩
    cases listener <;> simp [Notice.fresh]
  | tell _ _ registry => exact absurd (registry ▸ habsent) hpresent
  | finish _ registry => exact absurd (registry ▸ habsent) hpresent

end Client

end LightClient
