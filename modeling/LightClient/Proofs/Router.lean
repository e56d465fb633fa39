/-
Module: LightClient.Proofs.Router
Purpose: A reply reaches a ticket only through the slot that was registered for it.
Main exports: Router.Numbered, Router.Expects, Router.Expects.receive, Router.expects_register,
  Router.Shrinks, Router.slot_of_register
-/
import LightClient.Proofs.Table
import LightClient.Router

namespace LightClient

namespace Router

variable {r : Router}

/-- Every slot was registered before the next one. -/
def Numbered (r : Router) : Prop :=
  r.slots.All fun _ slot => slot.channel < r.registrations

/-- What the router keeps for a ticket: a slot on its channel has its number and waits for this peer
and this kind, and a payload that has come through the channel is one of those described. -/
structure Expects (r : Router) (t : Ticket) (peer : PeerId) (kind : RequestKind)
    (Got : Bytes → Prop) : Prop where
  issued : t.channel < r.registrations
  slot : r.slots.All fun id slot =>
    slot.channel = t.channel → id = t.id ∧ slot = ⟨peer, kind, t.channel⟩
  receipt : ∀ payload, r.receipt t = .reply (.data payload) → Got payload

/-- A delivered payload was there before, or is what the slot was settled with. -/
theorem receipt_settle_pending {result : Receipt} {old : Option Receipt} {payload : Bytes}
    (h : (old.map result.settle).getD .closed = .reply (.data payload)) :
    old.getD .closed = .reply (.data payload) ∨ result = .reply (.data payload) := by
  cases old with
  | none => cases h
  | some receipt =>
    cases receipt with
    | pending => exact .inr h
    | reply reply => exact .inl h
    | peerGone peer => exact .inl h
    | closed => exact .inl h

/-! ### Settling -/

section

variable {id : RequestId} {result : Receipt}

theorem registrations_settle : (r.settle id result).registrations = r.registrations := by
  unfold settle
  split <;> rfl

theorem Numbered.settle (h : r.Numbered) : (r.settle id result).Numbered := by
  unfold Router.settle
  split
  · exact Table.All.erase h
  · exact h

/-- A payload that comes through a channel came to the slot on it. -/
theorem receipt_settle {t : Ticket} {payload : Bytes}
    (h : (r.settle id result).receipt t = .reply (.data payload)) :
    r.receipt t = .reply (.data payload) ∨
      result = .reply (.data payload) ∧
        ∃ slot, r.slots.get? id = some slot ∧ slot.channel = t.channel := by
  unfold settle at h
  split at h
  next slot hslot =>
    rw [receipt, Table.get?_modify] at h
    split at h
    next hchannel =>
      rcases receipt_settle_pending h with h | h
      · exact .inl h
      · exact .inr ⟨h, slot, hslot, hchannel⟩
    next => exact .inl h
  next => exact .inl h

/-- What is kept when any one number is settled is kept when a peer is gone, whose numbers are
settled one by one. -/
theorem peerRemoved_keeps (P : Router → Prop) {gone : PeerId} (h : P r)
    (hsettle : ∀ (r : Router) (id : RequestId), P r → P (r.settle id (.peerGone gone))) :
    P (r.peerRemoved gone) := by
  unfold peerRemoved
  generalize r.waitingFor gone = ids
  induction ids generalizing r with
  | nil => exact h
  | cons id ids ih => exact ih (hsettle r id h)

end

namespace Expects

variable {t : Ticket} {peer : PeerId} {kind : RequestKind} {Got : Bytes → Prop}

theorem imp {Got' : Bytes → Prop} (h : r.Expects t peer kind Got)
    (himp : ∀ payload, Got payload → Got' payload) : r.Expects t peer kind Got' :=
  ⟨h.issued, h.slot, fun payload hreceipt => himp payload (h.receipt payload hreceipt)⟩

/-- Settling a number keeps what a ticket can expect, if what it brings to the slot of the ticket is
as described. -/
theorem settle {id : RequestId} {result : Receipt} (h : r.Expects t peer kind Got)
    (hresult : ∀ payload, result = .reply (.data payload) →
      r.slots.get? t.id = some ⟨peer, kind, t.channel⟩ → id = t.id → Got payload) :
    (r.settle id result).Expects t peer kind Got := by
  refine ⟨?_, ?_, fun payload hreceipt => ?_⟩
  · rw [registrations_settle]
    exact h.issued
  · unfold Router.settle
    split
    · exact Table.All.erase h.slot
    · exact h.slot
  · rcases receipt_settle hreceipt with hreceipt | ⟨hpayload, slot, hslot, hchannel⟩
    · exact h.receipt payload hreceipt
    · obtain ⟨rfl, rfl⟩ := h.slot id slot hslot hchannel
      exact hresult payload hpayload hslot rfl

/-- A slot that is forgotten delivers no payload. -/
theorem forget {id : RequestId} (h : r.Expects t peer kind Got) :
    (r.forget id).Expects t peer kind Got :=
  h.settle fun _ hclosed => nomatch hclosed

theorem discard {other : Ticket} (h : r.Expects t peer kind Got) :
    (r.discard other).Expects t peer kind Got := by
  refine ⟨h.issued, h.slot, fun payload hreceipt => h.receipt payload ?_⟩
  rw [Router.receipt, Router.discard, Table.get?_erase] at hreceipt
  split at hreceipt
  · cases hreceipt
  · exact hreceipt

/-- The removal of a peer delivers no payload. -/
theorem peerRemoved {gone : PeerId} (h : r.Expects t peer kind Got) :
    (r.peerRemoved gone).Expects t peer kind Got := by
  apply peerRemoved_keeps (fun r => r.Expects t peer kind Got) h
  intro r id h
  exact h.settle fun _ hgone => nomatch hgone

/-- A reply that comes in reaches a ticket only if it bears its number, comes from the peer that was
asked and is of the kind that was asked for. -/
theorem receive {sender : PeerId} {id : RequestId} {what : RequestKind} {reply : Reply}
    (h : r.Expects t peer kind Got)
    (hreply : ∀ payload, sender = peer → id = t.id → what = kind → reply = .data payload →
      r.slots.get? t.id = some ⟨peer, kind, t.channel⟩ → Got payload) :
    (r.receive sender id what reply).Expects t peer kind Got := by
  unfold Router.receive
  split
  next slot hslot =>
    split
    next hmatch =>
      apply h.settle
      intro payload hpayload hticket hid
      subst hid
      rw [hslot] at hticket
      obtain ⟨rfl, rfl⟩ := hmatch
      cases hticket
      exact hreply payload rfl rfl rfl (Receipt.reply.inj hpayload) hslot
    next => exact h
  next => exact h

/-- A new slot has a channel of its own. -/
theorem register {other : PeerId} {what : RequestKind} (h : r.Expects t peer kind Got) :
    (r.register other what).2.Expects t peer kind Got := by
  have hforgot : (r.forget ⟨UInt64.ofNat r.registrations⟩).Expects t peer kind Got := h.forget
  have hissued : t.channel < r.registrations := h.issued
  have hne : r.registrations ≠ t.channel := Nat.ne_of_gt hissued
  refine ⟨Nat.lt_succ_of_lt hissued, ?_, fun payload hreceipt => ?_⟩
  · exact Table.All.insert hforgot.slot fun hchannel => absurd hchannel hne
  · rw [Router.receipt, Router.register, Table.get?_insert, if_neg hne] at hreceipt
    exact hforgot.receipt payload hreceipt

end Expects

/-! ### Other steps of the router -/

theorem Numbered.register {peer : PeerId} {kind : RequestKind} (h : r.Numbered) :
    (r.register peer kind).2.Numbered := by
  have hforgot : (r.forget ⟨UInt64.ofNat r.registrations⟩).Numbered := Numbered.settle h
  refine Table.All.insert ?_ (Nat.lt_succ_self _)
  refine Table.All.imp hforgot fun id slot _ hslot => ?_
  rw [forget, registrations_settle] at hslot
  exact Nat.lt_succ_of_lt hslot

theorem Numbered.receive {peer : PeerId} {id : RequestId} {kind : RequestKind} {reply : Reply}
    (h : r.Numbered) : (r.receive peer id kind reply).Numbered := by
  unfold Router.receive
  split
  · split
    · exact Numbered.settle h
    · exact h
  · exact h

theorem Numbered.peerRemoved {peer : PeerId} (h : r.Numbered) : (r.peerRemoved peer).Numbered := by
  apply peerRemoved_keeps Numbered h
  intro r id h
  exact h.settle

/-- A request that has just been registered has brought nothing. -/
theorem expects_register {peer : PeerId} {kind : RequestKind} {Got : Bytes → Prop}
    (h : r.Numbered) :
    (r.register peer kind).2.Expects (r.register peer kind).1 peer kind Got := by
  have hforgot : (r.forget ⟨UInt64.ofNat r.registrations⟩).Numbered := Numbered.settle h
  refine ⟨Nat.lt_succ_self _, ?_, fun payload hreceipt => ?_⟩
  · refine Table.All.insert ?_ fun _ => ⟨rfl, rfl⟩
    refine Table.All.imp hforgot fun id slot _ hslot hchannel => ?_
    rw [forget, registrations_settle] at hslot
    exact absurd hchannel (Nat.ne_of_lt hslot)
  · rw [receipt, register, Table.get?_insert, if_pos rfl] at hreceipt
    cases hreceipt

/-! ### The slots -/

/-- The second router has no slot that the first one does not have, and none was registered. -/
structure Shrinks (r r' : Router) : Prop where
  slots : ∀ id slot, r'.slots.get? id = some slot → r.slots.get? id = some slot
  registrations : r'.registrations = r.registrations

theorem Shrinks.refl : r.Shrinks r :=
  ⟨fun _ _ hslot => hslot, rfl⟩

theorem get?_slots_settle {id other : RequestId} {result : Receipt} :
    (r.settle id result).slots.get? other = if id = other then none else r.slots.get? other := by
  unfold settle
  split
  next => exact Table.get?_erase r.slots id other
  next hnone =>
    split
    next heq => rw [← heq, hnone]
    next => rfl

theorem Shrinks.settle {r' : Router} {id : RequestId} {result : Receipt} (h : r.Shrinks r') :
    r.Shrinks (r'.settle id result) where
  slots other slot hslot := by
    rw [get?_slots_settle] at hslot
    split at hslot
    · cases hslot
    · exact h.slots other slot hslot
  registrations := registrations_settle.trans h.registrations

/-- A reply opens no slot. -/
theorem shrinks_receive {peer : PeerId} {id : RequestId} {kind : RequestKind} {reply : Reply} :
    r.Shrinks (r.receive peer id kind reply) := by
  unfold receive
  split
  · split
    · exact Shrinks.refl.settle
    · exact .refl
  · exact .refl

/-- The removal of a peer opens no slot. -/
theorem shrinks_peerRemoved {gone : PeerId} : r.Shrinks (r.peerRemoved gone) :=
  peerRemoved_keeps (r.Shrinks ·) .refl fun _ _ h => h.settle

/-- A slot that is there after a registration is the new one, or was there before. -/
theorem slot_of_register {peer : PeerId} {kind : RequestKind} {id : RequestId} {slot : Slot}
    (h : (r.register peer kind).2.slots.get? id = some slot) :
    id = (r.register peer kind).1.id ∧ slot = ⟨peer, kind, r.registrations⟩ ∨
      r.slots.get? id = some slot := by
  simp only [register, Table.get?_insert] at h
  split at h
  next heq =>
    cases h
    exact .inl ⟨heq.symm, rfl⟩
  next => exact .inr (Shrinks.refl.settle.slots id slot h)

end Router

end LightClient
