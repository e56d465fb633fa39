/-
Module: LightClient.Proofs.Retrieval.Departures
Purpose: A pursuit that waits for a reply waits for a peer that is registered, or of which the router
  has yet to be told that it has left.
Main exports: Router.Live, Client.Leaving, Client.Watched, Pursuit.asked?, Client.NoneStranded,
  Run.orderly, Run.watched, Run.none_stranded
-/
import LightClient.Proofs.Retrieval.Failover
import LightClient.Proofs.Retrieval.Notices
import LightClient.Proofs.Router.Delivery
import LightClient.Simulation.Libraries

namespace LightClient

open Client (Action Effect)

/-- The slot of the ticket is still there. -/
def Router.Live (r : Router) (t : Ticket) : Prop :=
  ∃ slot, r.slots.get? t.id = some slot ∧ slot.channel = t.channel

/-- The place and the ticket of a pursuit that has found its peer registered after the router had
begun to wait for a reply. -/
def Pursuit.asked? (p : Pursuit) : Option (Assignment × Ticket) :=
  match p.stage with
  | .dispatching held t => some (held, t)
  | .sending held t => some (held, t)
  | .awaiting held t => some (held, t)
  | _ => none

/-- A pursuit that has asked holds the place and the ticket that it asked with. -/
theorem Pursuit.held_of_asked {p : Pursuit} {held : Assignment} {t : Ticket}
    (h : p.asked? = some (held, t)) :
    p.assignment? = some held ∧ p.ticket? = some t := by
  unfold Pursuit.asked? at h
  unfold Pursuit.assignment? Pursuit.ticket?
  cases hstage : p.stage with
  | dispatching | sending | awaiting =>
    rw [hstage] at h
    cases h
    exact ⟨rfl, rfl⟩
  | _ =>
    rw [hstage] at h
    cases h

/-- A ticket to whose request nothing has come yet has its slot. -/
theorem Router.Orderly.live_of_pending {t : Ticket} {peer : PeerId} {kind : RequestKind}
    {Got : Bytes → Prop} {r : Router} (h : r.Orderly) (hexpects : r.Expects t peer kind Got)
    (hpending : r.receipt t = .pending) : r.Live t := by
  have hawaited : r.receipts.get? t.channel = some .pending := by
    unfold Router.receipt at hpending
    cases hreceipt : r.receipts.get? t.channel with
    | none =>
      rw [hreceipt] at hpending
      cases hpending
    | some result =>
      rw [hreceipt] at hpending
      exact congrArg some hpending
  obtain ⟨slot, hslot, hchannel⟩ := h.awaited t.channel hawaited
  obtain ⟨hid, _⟩ := hexpects.slot _ slot hslot hchannel
  exact ⟨slot, hid ▸ hslot, hchannel⟩

section

variable [ItemCache] [DelaySeries]

/-- The router has yet to be told that the peer has left. -/
def Client.Leaving (c : Client) (peer : PeerId) : Prop :=
  ∃ info reason, info.id = peer ∧ c.Pends (.removed info reason) .router

/-- The peer is registered, or the router will be told that it has left. -/
def Client.Watched (c : Client) (peer : PeerId) : Prop :=
  c.registry.find? peer ≠ none ∨ c.Leaving peer

section

variable {c c' : Client} {n : Nat} {p p' : Pursuit} {o : Option Pursuit} {a : Action}
  {effects : List Effect} {held : Assignment} {t : Ticket} {peer : PeerId}

/-! ### The router -/

namespace Client

/-- Every step leaves the router orderly. -/
theorem Step.orderly (hstep : c.Step a c' effects) (h : c.router.Orderly) :
    c'.router.Orderly := by
  cases hstep with
  | receive => exact h.receive
  | notify told =>
    rcases router_notify told with heq | ⟨gone, heq⟩
    · rw [heq]
      exact h
    · rw [heq]
      exact h.peerRemoved
  | caller _ hstep =>
    rw [hstep.apart.2]
    exact h
  | pursuit _ hstep =>
    cases hstep with
    | register => exact h.register
    | @conclude _ _ t =>
      have hforgot : (c.router.forget t.id).Orderly := h.settle (by simp)
      exact hforgot.discard
    | @release held outcome next => cases next <;> exact h
    | land =>
      rw [(land_apart ..).2]
      exact h
    | hand =>
      rw [hand_eq]
      exact h
    | _ => exact h
  | _ => exact h

/-- A step makes no slot for a ticket that has been given. -/
theorem Step.live (hstep : c.Step a c' effects) (hissued : t.channel < c.router.registrations)
    (h : c'.router.Live t) : c.router.Live t := by
  obtain ⟨slot, hslot, hchannel⟩ := h
  rcases hstep.slots with hshrinks | ⟨_, _, _, _, _, _, hrouter, _⟩
  · exact ⟨slot, hshrinks.slots _ _ hslot, hchannel⟩
  · rw [hrouter] at hslot
    rcases Router.slot_of_register hslot with ⟨_, rfl⟩ | hold
    · exact absurd hchannel (Nat.ne_of_gt hissued)
    · exact ⟨slot, hold, hchannel⟩

/-! ### One step -/

/-- A peer that is watched stays so, or nothing waits for it any more. -/
theorem Step.watched (hstep : c.Step a c' effects) (hfiled : c.registry.Filed)
    (horderly : c.router.Orderly) (h : c.Watched peer) :
    c'.Watched peer ∨ ∀ id slot, c'.router.slots.get? id = some slot → slot.peer ≠ peer := by
  have hstir : c.Stir c' := hstep.stir hfiled
  rcases h with hpresent | ⟨info, reason, hid, hpends⟩
  · left
    by_cases habsent : c'.registry.find? peer = none
    · obtain ⟨info, reason, hid, hpends⟩ := hstir.removed hpresent habsent
      exact .inr ⟨info, reason, hid, hpends .router⟩
    · exact .inl habsent
  · rcases hstir.pends hpends with hpends | ⟨now, _, hrouter⟩
    · exact .inl (.inr ⟨info, reason, hid, hpends⟩)
    · right
      intro id slot hslot
      rw [hrouter] at hslot
      exact hid ▸ horderly.peer_ne_of_peerRemoved hslot

/-- A pursuit has asked its peer before, or has just found it registered. -/
theorem Fate.asked (h : c.Fate n c' o a effects (some p')) (hasked : p'.asked? = some (held, t)) :
    ∃ p, o = some p ∧ p.assignment? = some held ∧ p.ticket? = some t ∧
      (p.asked? = some (held, t) ∨ c.registry.find? held.peer ≠ none) := by
  have hkeep : ∀ {p : Pursuit}, o = some p → p.asked? = some (held, t) →
      ∃ p, o = some p ∧ p.assignment? = some held ∧ p.ticket? = some t ∧
        (p.asked? = some (held, t) ∨ c.registry.find? held.peer ≠ none) := by
    intro p hp hasked
    obtain ⟨hheld, hticket⟩ := Pursuit.held_of_asked hasked
    exact ⟨p, hp, hheld, hticket, .inl hasked⟩
  cases h with
  | rest => exact hkeep rfl hasked
  | abort => exact hkeep rfl hasked
  | @shift p _ _ _ shift =>
    have hasks : ∀ {stage : Pursuit.Stage}, p.stage = stage →
        ({ p with stage := stage } : Pursuit).asked? = some (held, t) →
        p.asked? = some (held, t) := by
      rintro stage rfl hasked
      exact hasked
    cases shift with
    -- the check that a registered peer was found is what makes a request an asked one
    | present stage present =>
      obtain ⟨hheld, hticket⟩ := Pursuit.held_of_asked hasked
      cases hasked
      refine ⟨p, rfl, ?_, ?_, .inr ?_⟩
      · rw [Pursuit.assignment?, stage]
      · rw [Pursuit.ticket?, stage]
      · rw [present]
        exact Option.some_ne_none _
    | dispatch stage => exact hkeep rfl (hasks stage hasked)
    | accepted stage => exact hkeep rfl (hasks stage hasked)
    | _ => cases hasked
  | @release _ _ _ _ next _ proceeds =>
    cases next with
    | stop => cases proceeds
    | _ =>
      cases proceeds
      cases hasked
  | _ => cases hasked

/-- What has become of a request can be taken up once it is known. -/
theorem exists_collect {latency : Latency} (hpursuit : c.pursuits.get? n = some p)
    (hstage : p.stage = .awaiting held t) (hknown : c.router.receipt t ≠ .pending) :
    ∃ c', c.step? (.collect n latency) = some (c', []) := by
  have htake : ∃ c', c.collect? n p held t latency = some c' := by
    unfold collect?
    cases hreceipt : c.router.receipt t with
    | pending => exact absurd hreceipt hknown
    | reply reply =>
      cases reply with
      | cannotServe => exact ⟨_, rfl⟩
      | data payload =>
        simp only
        split
        · exact ⟨_, rfl⟩
        · split <;> exact ⟨_, rfl⟩
    | peerGone gone => exact ⟨_, rfl⟩
    | closed => exact ⟨_, rfl⟩
  obtain ⟨c', hc'⟩ := htake
  refine ⟨c', ?_⟩
  rw [step?_of_flight hpursuit rfl, pursuitStep?, hstage]
  simp only [hc', Option.map_some]

end Client

end

/-! ### Whole runs -/

/-- No request waits for a peer that is gone for good. -/
structure Client.NoneStranded (c : Client) : Prop where
  /-- A pursuit that has found its peer registered and has a slot waits for a peer that is registered,
  or of which the router has yet to be told that it has left. -/
  watched : ∀ n p held t, c.pursuits.get? n = some p → p.asked? = some (held, t) →
    c.router.Live t → c.registry.find? held.peer ≠ none ∨ c.Leaving held.peer
  /-- Something has come for a pursuit that waits for a peer which is not registered and of which the
  router has been told; it can be taken up at once. -/
  released : ∀ n p held t, c.pursuits.get? n = some p → p.stage = .awaiting held t →
    c.registry.find? held.peer = none → ¬ c.Leaving held.peer →
      c.router.receipt t ≠ .pending ∧
        ∀ latency, ∃ c', c.step? (.collect n latency) = some (c', [])

namespace Run

variable {s : ClientSettings} {past : List Moment} {c : Client}

/-- In every run the router is orderly. -/
theorem orderly (run : Run s past c) : c.router.Orderly :=
  run.keeps (P := fun _ c => c.router.Orderly) .empty fun h hstep => hstep.orderly h

/-- The peer of a pursuit that waits on a slot is watched. -/
theorem watched {n : Nat} {p : Pursuit} {held : Assignment} {t : Ticket} (run : Run s past c)
    (hpursuit : c.pursuits.get? n = some p) (hasked : p.asked? = some (held, t))
    (hlive : c.router.Live t) : c.Watched held.peer := by
  induction run generalizing p with
  | start => cases hpursuit
  | @step past c c' a effects run hstep ih =>
    have hrule := Client.step_of_step? hstep
    have hfate := hrule.fate n
    rw [hpursuit] at hfate
    obtain ⟨q, hq, hheld, hticket, hsource⟩ := hfate.asked hasked
    have hissued : t.channel < c.router.registrations :=
      ((run.traced.pursuits n q hq).ticket held t hheld hticket).issued
    have hbefore : c.Watched held.peer := by
      rcases hsource with hold | hpresent
      · exact ih hq hold (hrule.live hissued hlive)
      · exact .inl hpresent
    rcases hrule.watched run.tallied.filed run.orderly hbefore with hwatched | hnone
    · exact hwatched
    · -- the slot is that of the ticket, and so of the peer
      obtain ⟨hheld', hticket'⟩ := Pursuit.held_of_asked hasked
      have hexpects := ((run.step hstep).traced.pursuits n p hpursuit).ticket held t hheld' hticket'
      obtain ⟨slot, hslot, hchannel⟩ := hlive
      obtain ⟨_, hslot'⟩ := hexpects.slot _ slot hslot hchannel
      exact absurd (congrArg Slot.peer hslot') (hnone _ slot hslot)

/-- In every run, no request waits for a peer that has left, once the router has been told of it. -/
theorem none_stranded (run : Run s past c) : c.NoneStranded where
  watched _ _ _ _ hpursuit hasked hlive := run.watched hpursuit hasked hlive
  released n p held t hpursuit hstage habsent htold := by
    have hasked : p.asked? = some (held, t) := by rw [Pursuit.asked?, hstage]
    obtain ⟨hheld, hticket⟩ := Pursuit.held_of_asked hasked
    have hexpects := (run.traced.pursuits n p hpursuit).ticket held t hheld hticket
    have hknown : c.router.receipt t ≠ .pending := by
      intro hpending
      rcases run.watched hpursuit hasked (run.orderly.live_of_pending hexpects hpending) with
        hpresent | hleaving
      · exact hpresent habsent
      · exact htold hleaving
    exact ⟨hknown, fun _ => Client.exists_collect hpursuit hstage hknown⟩

end Run

end

namespace Run

/-- The same where two flights wait for peers that have left, of which the router has been told of
the first one only. -/
theorem none_stranded_of_departures :
    ∃ past c,
      Run ⟨.default, .default, .default, .default⟩ past c ∧ c.registry.size = 0 ∧
        (c.pursuits.get? 1).bind Pursuit.asked? = some (⟨⟨[7]⟩, 0⟩, ⟨⟨0⟩, 0⟩) ∧
        c.router.receipt ⟨⟨0⟩, 0⟩ = .peerGone ⟨[7]⟩ ∧
        (c.pursuits.get? 2).bind Pursuit.asked? = some (⟨⟨[8]⟩, 1⟩, ⟨⟨1⟩, 1⟩) ∧
        c.router.receipt ⟨⟨1⟩, 1⟩ = .pending ∧ c.NoneStranded := by
  let settings : ClientSettings := ⟨.default, .default, .default, .default⟩
  let header : Header := ⟨.zero, 0, .zero, .zero, .zero, .zero, []⟩
  let ask (n : Nat) : List Action :=
    [.pursue n, .pursue n, .pursue n, .pursue n, .pursue n, .pursue n, .accept n]
  let begins : List Action :=
    [.register ⟨⟨[7]⟩, none, 2, [.body], ⟨0, .zero⟩⟩, .call (.body header), .bind 0, .enter 0]
  let follows : List Action :=
    [.register ⟨⟨[8]⟩, none, 2, [.receipts], ⟨0, .zero⟩⟩, .call (.receipts header), .bind 1,
      .enter 1]
  let leaves : List Action := [.unregister ⟨[7]⟩, .unregister ⟨[8]⟩, .notify 0 2]
  let actions := begins ++ ask 1 ++ follows ++ ask 2 ++ leaves
  have hruns : (Moment.replay actions [] (Client.empty settings)).any (fun x =>
      x.2.registry.size = 0 ∧
        (x.2.pursuits.get? 1).bind Pursuit.asked? = some (⟨⟨[7]⟩, 0⟩, ⟨⟨0⟩, 0⟩) ∧
        x.2.router.receipt ⟨⟨0⟩, 0⟩ = .peerGone ⟨[7]⟩ ∧
        (x.2.pursuits.get? 2).bind Pursuit.asked? = some (⟨⟨[8]⟩, 1⟩, ⟨⟨1⟩, 1⟩) ∧
        x.2.router.receipt ⟨⟨1⟩, 1⟩ = .pending) = true := by
    decide +kernel
  obtain ⟨⟨past, c⟩, hreplay, hends⟩ := (Option.any_eq_true _ _).mp hruns
  obtain ⟨hsize, hfirst, hgone, hsecond, hpending⟩ := of_decide_eq_true hends
  have hrun : Run settings past c := Run.start.replay hreplay
  exact ⟨past, c, hrun, hsize, hfirst, hgone, hsecond, hpending, none_stranded hrun⟩

end Run

end LightClient
