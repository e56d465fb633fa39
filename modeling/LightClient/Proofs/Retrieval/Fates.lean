/-
Module: LightClient.Proofs.Retrieval.Fates
Purpose: What one step does to the pursuit with a given number, whether it is there before and after
  or not, and to the registry and the router.
Main exports: Pursuit.proceed, Client.Fate, Client.Step.fate, Client.Step.registry,
  Client.Step.slots
-/
import LightClient.Proofs.Registry
import LightClient.Proofs.Router
import LightClient.Proofs.Retrieval.Progress

namespace LightClient

open Client (Action Effect)

variable [ItemCache] [DelaySeries]

/-- What becomes of a pursuit that has given its place back. -/
def Pursuit.proceed (p : Pursuit) : Pursuit.Next → Option Pursuit
  | .retry => some { p with stage := .choosing }
  | .finish result => some { p with stage := .landing result }
  | .stop => none

namespace Client

/-- What one step makes of the pursuit with a number. -/
inductive Fate (c : Client) (n : Nat) (c' : Client) :
    Option Pursuit → Action → List Effect → Option Pursuit → Prop where
  | rest {o : Option Pursuit} {a : Action} {effects : List Effect} (other : a.flight? ≠ some n) :
      Fate c n c' o a effects o
  | begin {o : Option Pursuit} {m : Nat} {r : Request} (new : n = c.nextFlight)
      (next : c'.nextFlight = c.nextFlight + 1) :
      Fate c n c' o (.enter m) [] (some (Pursuit.fresh r))
  /-- The last caller has left the flight. -/
  | abort {p : Pursuit} {a : Action} {m : Nat} (departs : a = .drop m ∨ a = .quit m) :
      Fate c n c' (some p) a [] (some { p with aborted := true })
  | shift {p : Pursuit} {a : Action} {stage : Pursuit.Stage} {effects : List Effect}
      (shift : p.Shift c n a stage effects) :
      Fate c n c' (some p) a effects (some { p with stage := stage })
  | assign {p : Pursuit} {seen : Nat} {rest : List PeerId} {held : Assignment}
      {record : PeerRecord} (stage : p.stage = .offering seen (held.peer :: rest))
      (found : c.registry.find? held.peer = some record)
      (registration : held.registration = record.seq) :
      Fate c n c' (some p) (.pursue n) [] (some (p.assign held))
  | register {p : Pursuit} {held : Assignment} (stage : p.stage = .assigned held)
      (router : c'.router = (c.router.register held.peer p.request.kind).2) :
      Fate c n c' (some p) (.pursue n) []
        (some { p with stage := .registered held (c.router.register held.peer p.request.kind).1 })
  | conclude {p : Pursuit} {a : Action} {held : Assignment} {t : Ticket} {outcome : Outcome}
      {next : Pursuit.Next} (conclusion : p.Conclusion c n a held t outcome next)
      (router : c'.router = (c.router.forget t.id).discard t) :
      Fate c n c' (some p) a [] (some { p with stage := .releasing held outcome next })
  | release {p : Pursuit} {o : Option Pursuit} {held : Assignment} {outcome : Outcome}
      {next : Pursuit.Next} (stage : p.stage = .releasing held outcome next)
      (proceeds : p.proceed next = o) :
      Fate c n c' (some p) (.pursue n) (c.report held.peer outcome).2 o
  | land {p : Pursuit} {result : Retrieved} {f : Flight} (stage : p.stage = .landing result)
      (flight : c.flights.current? p.key n = some f) :
      Fate c n c' (some p) (.pursue n) [] (some { p with stage := .handing result f.waiters })
  | hand {p : Pursuit} {result : Retrieved} {waiters : Table Nat Nat} {waiter : Nat}
      (stage : p.stage = .handing result waiters) :
      Fate c n c' (some p) (.serve n waiter) []
        (some { p with stage := .handing result (waiters.erase waiter) })
  /-- A pursuit that holds no place ends. -/
  | gone {p : Pursuit} {a : Action} (flight : a.flight? = some n) (free : p.assignment? = none) :
      Fate c n c' (some p) a [] none

variable {c c' : Client} {n m : Nat} {p : Pursuit} {a : Action} {effects : List Effect}

/-! ### Every step -/

/-- A change to one pursuit is seen by that pursuit only. -/
theorem get?_modify_pursuits {f : Pursuit → Pursuit} (hpursuit : c.pursuits.get? m = some p)
    (n : Nat) :
    (c.pursuits.modify m f).get? n = if m = n then some (f p) else c.pursuits.get? n := by
  rw [Table.get?_modify]
  split
  next heq =>
    subst heq
    rw [hpursuit]
    rfl
  next => rfl

/-- A step of one pursuit decides its fate, and leaves the other pursuits alone. -/
theorem PursuitStep.fate (hpursuit : c.pursuits.get? m = some p)
    (hstep : c.PursuitStep m p a c' effects) :
    ∃ o, c.Fate m c' (some p) a effects o ∧
      ∀ n, c'.pursuits.get? n = if m = n then o else c.pursuits.get? n := by
  have hmodify : ∀ f : Pursuit → Pursuit, ∀ n, (c.pursuits.modify m f).get? n =
      if m = n then some (f p) else c.pursuits.get? n := fun _ => get?_modify_pursuits hpursuit
  have herase : ∀ n, (c.pursuits.erase m).get? n = if m = n then none else c.pursuits.get? n :=
    Table.get?_erase c.pursuits m
  cases hstep with
  | shift shift => exact ⟨_, .shift shift, hmodify _⟩
  | assign stage begun =>
    obtain ⟨record, hfind, _, _⟩ := Registry.tryBegin_eq_some begun
    exact ⟨_, .assign stage hfind (Registry.seq_tryBegin begun hfind),
      fun n => Table.get?_insert c.pursuits m n _⟩
  | register stage => exact ⟨_, .register stage rfl, hmodify _⟩
  | conclude conclusion => exact ⟨_, .conclude conclusion rfl, hmodify _⟩
  | @release held outcome next stage =>
    refine ⟨_, .release stage rfl, ?_⟩
    cases next with
    | retry => exact hmodify _
    | finish result => exact hmodify _
    | stop => exact herase
  | @land result stage =>
    have hfree : p.assignment? = none := by rw [Pursuit.assignment?, stage]
    have hlanding := c.landing_rule m p.key result
    generalize c.land m p.key result = d at hlanding ⊢
    cases hlanding with
    | late => exact ⟨_, .gone rfl hfree, herase⟩
    | timely flight => exact ⟨_, .land stage flight, hmodify _⟩
  | hand stage =>
    rw [hand_eq]
    exact ⟨_, .hand stage, hmodify _⟩
  | retire stage =>
    have hfree : p.assignment? = none := by rw [Pursuit.assignment?, stage]
    exact ⟨_, .gone rfl hfree, herase⟩
  | stop idle => exact ⟨_, .gone rfl idle.assignment?, herase⟩

/-- Every step decides the fate of every pursuit. -/
theorem Step.fate (hstep : c.Step a c' effects) (n : Nat) :
    c.Fate n c' (c.pursuits.get? n) a effects (c'.pursuits.get? n) := by
  cases hstep with
  | @caller m x _ _ _ _ hstep =>
    have hother : a.flight? ≠ some n := ne_some_of_eq_none (flight?_of_caller? hstep.caller?)
    -- a caller that departs aborts the pursuit of its flight if it was the last one there
    have hdepart : ∀ stage, a = .drop m ∨ a = .quit m →
        c.Fate n (c.depart m x stage) (c.pursuits.get? n) a []
          ((c.depart m x stage).pursuits.get? n) := by
      intro stage hdeparts
      unfold Client.depart
      split
      next seat _ =>
        have hleave := c.leave_rule seat
        generalize c.leave seat = d at hleave ⊢
        cases hleave with
        | late => exact .rest hother
        | other => exact .rest hother
        | last =>
          simp only [Client.place, Table.get?_modify]
          split
          next =>
            cases c.pursuits.get? n with
            | none => exact .rest hother
            | some p => exact .abort hdeparts
          next => exact .rest hother
      next => exact .rest hother
    cases hstep with
    | drop => exact hdepart _ (.inl rfl)
    | quit => exact hdepart _ (.inr rfl)
    | @begin r =>
      simp only [Client.place, Table.get?_insert]
      split
      next hn => exact .begin hn.symm rfl
      next => exact .rest hother
    | _ => exact .rest hother
  | @pursuit m p _ _ _ hpursuit hstep =>
    obtain ⟨o, hfate, hget⟩ := hstep.fate hpursuit
    rw [hget]
    split
    next hm =>
      subst hm
      rw [hpursuit]
      exact hfate
    next hm =>
      refine .rest ?_
      rw [hstep.flight?]
      exact fun heq => hm (Option.some.inj heq)
  | notify hnotified =>
    rw [notify_eq hnotified]
    exact .rest (ne_some_of_eq_none rfl)
  | _ => exact .rest (ne_some_of_eq_none rfl)

/-! ### Registry and router -/

/-- Callers touch neither the registry nor the router. -/
theorem CallerStep.apart {x : Caller} (hstep : c.CallerStep n x a c' effects) :
    c'.registry = c.registry ∧ c'.router = c.router := by
  cases hstep with
  | drop | quit =>
    rw [depart_eq]
    exact ⟨rfl, rfl⟩
  | _ => exact ⟨rfl, rfl⟩

/-- A landing concerns flights, store and callers, not the registry or the router. -/
theorem land_apart (c : Client) (n : Nat) (key : RequestKey) (result : Retrieved) :
    (c.land n key result).registry = c.registry ∧ (c.land n key result).router = c.router := by
  have hlanding := c.landing_rule n key result
  generalize c.land n key result = d at hlanding ⊢
  cases hlanding <;> exact ⟨rfl, rfl⟩

/-- A step changes the records of the registry by at most one operation. -/
theorem Step.registry (hstep : c.Step a c' effects) : c.registry.Update c'.registry := by
  cases hstep with
  | register info => exact c.registry.register_update info
  | unregister peer => exact c.registry.unregister_update peer
  | announce peer head => exact c.registry.announce_update peer head
  | notify hnotified =>
    rw [notify_eq hnotified]
    exact .none
  | caller _ hstep =>
    rw [hstep.apart.1]
    exact .none
  | pursuit _ hstep =>
    cases hstep with
    | assign _ begun => exact Registry.tryBegin_update begun
    | @release held outcome next =>
      have hrecord := c.registry.record_update held.peer outcome
      cases next <;> exact hrecord
    | land =>
      rw [(land_apart ..).1]
      exact .none
    | hand =>
      rw [hand_eq]
      exact .none
    | _ => exact .none
  | _ => exact .none

/-- Telling a listener of a change does nothing to the router, or tells it of a peer that has left. -/
theorem router_notify {now index : Nat} (h : c.notify now index = some c') :
    c'.router = c.router ∨ ∃ gone, c'.router = c.router.peerRemoved gone := by
  unfold notify at h
  split at h
  · cases h
  · cases h
    exact .inl rfl
  next e listener rest _ =>
    cases h
    cases listener with
    | router =>
      cases e with
      | removed info reason => exact .inr ⟨info.id, rfl⟩
      | _ => exact .inl rfl
    | _ => exact .inl rfl

/-- A step adds a slot only for a pursuit that holds a place and registers its request. -/
theorem Step.slots (hstep : c.Step a c' effects) :
    c.router.Shrinks c'.router ∨
      ∃ n p held, a = .pursue n ∧ c.pursuits.get? n = some p ∧ p.stage = .assigned held ∧
        c'.router = (c.router.register held.peer p.request.kind).2 ∧
        c'.pursuits.get? n = some { p with
          stage := .registered held (c.router.register held.peer p.request.kind).1 } := by
  cases hstep with
  | receive => exact .inl Router.shrinks_receive
  | notify hnotified =>
    rcases router_notify hnotified with heq | ⟨gone, heq⟩
    · rw [heq]
      exact .inl .refl
    · rw [heq]
      exact .inl Router.shrinks_peerRemoved
  | caller _ hstep =>
    rw [hstep.apart.2]
    exact .inl .refl
  | @pursuit n p _ _ _ hpursuit hstep =>
    cases hstep with
    | register stage =>
      refine .inr ⟨n, p, _, rfl, hpursuit, stage, rfl, ?_⟩
      exact (get?_modify_pursuits hpursuit n).trans (if_pos rfl)
    | @conclude _ _ t =>
      have hforgot : c.router.Shrinks (c.router.forget t.id) := Router.Shrinks.refl.settle
      exact .inl ⟨hforgot.slots, hforgot.registrations⟩
    | @release held outcome next => cases next <;> exact .inl .refl
    | land =>
      rw [(land_apart ..).2]
      exact .inl .refl
    | hand =>
      rw [hand_eq]
      exact .inl .refl
    | _ => exact .inl .refl
  | _ => exact .inl .refl

end Client

end LightClient
