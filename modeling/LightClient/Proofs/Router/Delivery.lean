/-
Module: LightClient.Proofs.Router.Delivery
Purpose: What becomes of every request that waits for a reply: the first operation that concerns it
  decides, and no other one touches it.
Main exports: Router.Operation, Router.perform, Router.Orderly, Router.Stands, Router.after,
  Router.issued, Router.Registered, Router.decided?, Router.Delivers, Router.delivers_of_issued
-/
import LightClient.Proofs.Router

namespace LightClient

namespace Router

inductive Operation where
  | register (peer : PeerId) (kind : RequestKind)
  | receive (peer : PeerId) (id : RequestId) (kind : RequestKind) (reply : Reply)
  | forget (id : RequestId)
  | peerRemoved (peer : PeerId)

def perform (r : Router) : Operation → Router
  | .register peer kind => (r.register peer kind).2
  | .receive peer id kind reply => r.receive peer id kind reply
  | .forget id => r.forget id
  | .peerRemoved peer => r.peerRemoved peer

/-- What an operation decides about a request that waits for this peer and this kind. -/
def Operation.verdict? (id : RequestId) (peer : PeerId) (kind : RequestKind) :
    Operation → Option Receipt
  | .register .. => none
  | .receive sender other what reply =>
    if sender = peer ∧ other = id ∧ what = kind then some (.reply reply) else none
  | .forget other => if other = id then some .closed else none
  | .peerRemoved gone => if gone = peer then some (.peerGone gone) else none

/-! ### Slots, numbers and channels -/

/-- No number has two slots, the number of a slot is that of its channel, and a channel through
which something can still come has a slot. -/
structure Orderly (r : Router) : Prop where
  unique : r.slots.Unique
  numbered : r.Numbered
  tagged : r.slots.All fun id slot => id = ⟨UInt64.ofNat slot.channel⟩
  awaited : ∀ channel, r.receipts.get? channel = some .pending →
    ∃ slot, r.slots.get? ⟨UInt64.ofNat channel⟩ = some slot ∧ slot.channel = channel

variable {r : Router} {id : RequestId} {result : Receipt} {peer : PeerId} {kind : RequestKind}
  {reply : Reply} {t : Ticket} {decided : Option Receipt}

theorem settle_of_slot {slot : Slot} (h : r.slots.get? id = some slot) :
    r.settle id result =
      { r with
        slots := r.slots.erase id
        receipts := r.receipts.modify slot.channel result.settle } := by
  rw [settle, h]

/-- Where no slot waits, there is nothing to settle. -/
theorem settle_of_none (h : r.slots.get? id = none) : r.settle id result = r := by
  rw [settle, h]

/-- Slots that are settled are gone, and the others stay. -/
theorem get?_slots_settleAll {ids : List RequestId} :
    (ids.foldl (fun r id => r.settle id result) r).slots.get? id =
      if id ∈ ids then none else r.slots.get? id := by
  induction ids generalizing r with
  | nil => simp
  | cons first ids ih =>
    rw [List.foldl_cons, ih, get?_slots_settle]
    by_cases hid : first = id
    · simp [hid]
    · simp [hid, Ne.symm hid]

namespace Orderly

theorem empty : Router.empty.Orderly where
  unique := List.nodup_nil
  numbered := Table.All.empty
  tagged := Table.All.empty
  awaited _ h := nomatch h

/-- A slot that is settled with a decision leaves the router orderly. -/
theorem settle (h : r.Orderly) (hresult : result ≠ .pending) : (r.settle id result).Orderly := by
  cases hslot : r.slots.get? id with
  | none =>
    rw [settle_of_none hslot]
    exact h
  | some slot =>
    have hnumbered : (r.settle id result).Numbered := h.numbered.settle
    rw [settle_of_slot hslot] at hnumbered ⊢
    refine ⟨h.unique.erase, hnumbered, h.tagged.erase, ?_⟩
    intro channel hpending
    rw [Table.get?_modify] at hpending
    split at hpending
    next =>
      -- what was settled is pending no more
      obtain ⟨old, _, hsettled⟩ := Option.map_eq_some_iff.mp hpending
      cases old with
      | pending => exact absurd hsettled hresult
      | _ => cases hsettled
    next hother =>
      obtain ⟨awaited, hawaited, hchannel⟩ := h.awaited channel hpending
      refine ⟨awaited, ?_, hchannel⟩
      rw [Table.get?_erase, if_neg, hawaited]
      intro heq
      rw [heq, hawaited] at hslot
      cases hslot
      exact hother hchannel

theorem register (h : r.Orderly) : (r.register peer kind).2.Orderly := by
  have hforgot : (r.forget ⟨UInt64.ofNat r.registrations⟩).Orderly := h.settle (by simp)
  refine ⟨hforgot.unique.insert, h.numbered.register, hforgot.tagged.insert rfl, ?_⟩
  intro channel hpending
  simp only [Router.register, Table.get?_insert] at hpending ⊢
  by_cases hnew : r.registrations = channel
  · subst hnew
    exact ⟨_, if_pos rfl, rfl⟩
  · rw [if_neg hnew] at hpending
    obtain ⟨slot, hslot, hchannel⟩ := hforgot.awaited channel hpending
    refine ⟨slot, ?_, hchannel⟩
    rw [if_neg, hslot]
    -- the slot that the number had before has been forgotten
    intro heq
    rw [← heq, forget, get?_slots_settle, if_pos rfl] at hslot
    cases hslot

theorem receive {sender : PeerId} (h : r.Orderly) : (r.receive sender id kind reply).Orderly := by
  unfold Router.receive
  split
  · split
    · exact h.settle (by simp)
    · exact h
  · exact h

theorem peerRemoved (h : r.Orderly) : (r.peerRemoved peer).Orderly :=
  peerRemoved_keeps Orderly h fun _ _ h => h.settle (by simp)

/-- The router stays orderly, whichever operation it is asked for. -/
theorem perform (h : r.Orderly) (op : Operation) : (r.perform op).Orderly := by
  cases op with
  | register => exact h.register
  | receive => exact h.receive
  | forget => exact h.settle (by simp)
  | peerRemoved => exact h.peerRemoved

theorem discard (h : r.Orderly) : (r.discard t).Orderly where
  unique := h.unique
  numbered := h.numbered
  tagged := h.tagged
  awaited channel hpending := by
    rw [Router.discard, Table.get?_erase] at hpending
    split at hpending
    · cases hpending
    · exact h.awaited channel hpending

/-- The slots of a peer are those that wait for it. -/
theorem mem_waitingFor (h : r.Orderly) {slot : Slot} (hslot : r.slots.get? id = some slot) :
    id ∈ r.waitingFor peer ↔ slot.peer = peer := by
  simp only [waitingFor, List.mem_map, List.mem_filter, decide_eq_true_eq]
  constructor
  · rintro ⟨⟨other, found⟩, ⟨hmem, hpeer⟩, rfl⟩
    rw [Table.get?_of_mem h.unique hmem] at hslot
    cases hslot
    exact hpeer
  · exact fun hpeer => ⟨(id, slot), ⟨Table.mem_of_get? hslot, hpeer⟩, rfl⟩

/-- When a peer is gone, nothing waits for it. -/
theorem peer_ne_of_peerRemoved (h : r.Orderly) {gone : PeerId} {slot : Slot}
    (hslot : (r.peerRemoved gone).slots.get? id = some slot) : slot.peer ≠ gone := by
  intro hpeer
  have hbefore : r.slots.get? id = some slot := shrinks_peerRemoved.slots id slot hslot
  have hwaits : id ∈ r.waitingFor gone := (h.mem_waitingFor hbefore).mpr hpeer
  rw [Router.peerRemoved, get?_slots_settleAll, if_pos hwaits] at hslot
  cases hslot

end Orderly

/-! ### What an operation does to one request -/

/-- Where a request stands: as long as nothing is decided its slot is there and nothing has come, and
once something is decided the slot is gone and the receiver has what was decided. -/
structure Stands (r : Router) (t : Ticket) (peer : PeerId) (kind : RequestKind)
    (decided : Option Receipt) : Prop where
  receipt : r.receipts.get? t.channel = some (decided.getD .pending)
  slot : r.slots.get? t.id = if decided.isNone then some ⟨peer, kind, t.channel⟩ else none

namespace Stands

theorem settle (h : r.Stands t peer kind decided) (horderly : r.Orderly)
    (ht : t.id = ⟨UInt64.ofNat t.channel⟩) (id : RequestId) (result : Receipt) :
    (r.settle id result).Stands t peer kind
      (decided.or (if id = t.id then some result else none)) := by
  by_cases hid : id = t.id
  · subst hid
    rw [if_pos rfl]
    cases decided with
    | none =>
      rw [settle_of_slot h.slot]
      constructor
      · simp only [Table.get?_modify, if_true, h.receipt]
        rfl
      · simp only [Table.get?_erase, if_true]
        rfl
    | some old =>
      rw [settle_of_none h.slot]
      exact h
  · rw [if_neg hid, Option.or_none]
    refine ⟨?_, ?_⟩
    · cases hslot : r.slots.get? id with
      | none =>
        rw [settle_of_none hslot]
        exact h.receipt
      | some slot =>
        have hchannel : slot.channel ≠ t.channel := by
          intro heq
          apply hid
          rw [horderly.tagged id slot hslot, heq, ht]
        rw [settle_of_slot hslot, Table.get?_modify, if_neg hchannel]
        exact h.receipt
    · rw [get?_slots_settle, if_neg hid]
      exact h.slot

theorem register {other : PeerId} {what : RequestKind} (h : r.Stands t peer kind decided)
    (horderly : r.Orderly) (ht : t.id = ⟨UInt64.ofNat t.channel⟩)
    (hissued : t.channel < r.registrations) (hroom : r.registrations < UInt64.size) :
    (r.register other what).2.Stands t peer kind decided := by
  -- the numbers have not come round yet, so the new one is another than that of the ticket
  have hid : (⟨UInt64.ofNat r.registrations⟩ : RequestId) ≠ t.id := by
    rw [ht]
    intro heq
    have hnumber := congrArg UInt64.toNat (RequestId.mk.inj heq)
    rw [UInt64.toNat_ofNat_of_lt' hroom,
      UInt64.toNat_ofNat_of_lt' (Nat.lt_trans hissued hroom)] at hnumber
    omega
  have hforgot : (r.forget ⟨UInt64.ofNat r.registrations⟩).Stands t peer kind decided := by
    have hsettled := h.settle horderly ht ⟨UInt64.ofNat r.registrations⟩ .closed
    rwa [if_neg hid, Option.or_none] at hsettled
  constructor
  · rw [Router.register, Table.get?_insert, if_neg (Nat.ne_of_gt hissued)]
    exact hforgot.receipt
  · rw [Router.register, Table.get?_insert, if_neg hid]
    exact hforgot.slot

theorem receive {sender : PeerId} {what : RequestKind} (h : r.Stands t peer kind decided)
    (horderly : r.Orderly) (ht : t.id = ⟨UInt64.ofNat t.channel⟩) :
    (r.receive sender id what reply).Stands t peer kind
      (decided.or ((Operation.receive sender id what reply).verdict? t.id peer kind)) := by
  have hsettled := h.settle horderly ht id (.reply reply)
  simp only [Operation.verdict?]
  by_cases hid : id = t.id
  · subst hid
    rw [if_pos rfl] at hsettled
    cases decided with
    | none =>
      have hslot : r.slots.get? t.id = some ⟨peer, kind, t.channel⟩ := h.slot
      rw [Router.receive, hslot]
      by_cases hmatch : sender = peer ∧ what = kind
      · obtain ⟨rfl, rfl⟩ := hmatch
        simpa using hsettled
      · have hother : ¬(peer = sender ∧ kind = what) := fun ⟨hpeer, hkind⟩ =>
          hmatch ⟨hpeer.symm, hkind.symm⟩
        simpa [hmatch, hother] using h
    | some old =>
      have hslot : r.slots.get? t.id = none := h.slot
      rw [Router.receive, hslot]
      exact h
  · have hverdict : ¬(sender = peer ∧ id = t.id ∧ what = kind) := fun hall => hid hall.2.1
    rw [if_neg hid, Option.or_none] at hsettled
    rw [if_neg hverdict, Option.or_none]
    unfold Router.receive
    split
    · split
      · exact hsettled
      · exact h
    · exact h

/-- Of several numbers that are settled one after the other, only that of the ticket matters. -/
theorem settleAll {gone : PeerId} {ids : List RequestId} (h : r.Stands t peer kind decided)
    (horderly : r.Orderly) (ht : t.id = ⟨UInt64.ofNat t.channel⟩) :
    (ids.foldl (fun r id => r.settle id (.peerGone gone)) r).Stands t peer kind
      (decided.or (if t.id ∈ ids then some (.peerGone gone) else none)) := by
  induction ids generalizing r decided with
  | nil => simpa using h
  | cons id ids ih =>
    have hrest := ih (h.settle horderly ht id (.peerGone gone))
      (horderly.settle (by simp))
    rw [List.foldl_cons]
    by_cases hid : id = t.id
    · subst hid
      simpa [Option.or_assoc] using hrest
    · simpa [hid, Ne.symm hid] using hrest

theorem peerRemoved {gone : PeerId} (h : r.Stands t peer kind decided) (horderly : r.Orderly)
    (ht : t.id = ⟨UInt64.ofNat t.channel⟩) :
    (r.peerRemoved gone).Stands t peer kind
      (decided.or ((Operation.peerRemoved gone).verdict? t.id peer kind)) := by
  have hgone : (r.peerRemoved gone).Stands t peer kind
      (decided.or (if t.id ∈ r.waitingFor gone then some (.peerGone gone) else none)) :=
    h.settleAll horderly ht
  cases decided with
  | none =>
    have hwaits : t.id ∈ r.waitingFor gone ↔ gone = peer :=
      (horderly.mem_waitingFor h.slot).trans eq_comm
    simpa only [Operation.verdict?, hwaits] using hgone
  | some old => exact hgone

/-- An operation decides about a request that nothing was decided about, if it concerns it; another
one leaves its slot and its receiver as they were. -/
theorem perform (h : r.Stands t peer kind decided) (horderly : r.Orderly)
    (ht : t.id = ⟨UInt64.ofNat t.channel⟩) (hissued : t.channel < r.registrations)
    (op : Operation) (hroom : (r.perform op).registrations ≤ UInt64.size) :
    (r.perform op).Stands t peer kind (decided.or (op.verdict? t.id peer kind)) := by
  cases op with
  | register other what =>
    rw [Operation.verdict?, Option.or_none]
    exact h.register horderly ht hissued hroom
  | receive sender id what reply => exact h.receive horderly ht
  | forget id => exact h.settle horderly ht id .closed
  | peerRemoved gone => exact h.peerRemoved horderly ht

end Stands

theorem stands_register (r : Router) (peer : PeerId) (kind : RequestKind) :
    (r.register peer kind).2.Stands (r.register peer kind).1 peer kind none where
  receipt := (Table.get?_insert ..).trans (if_pos rfl)
  slot := (Table.get?_insert ..).trans (if_pos rfl)

/-! ### Whole histories -/

/-- The router after a history of operations, the last one first. -/
def after : List Operation → Router
  | [] => empty
  | op :: past => (after past).perform op

/-- The numbers that were given in a history, the last one first. -/
def issued : List Operation → List RequestId
  | [] => []
  | .register peer kind :: past => ((after past).register peer kind).1.id :: issued past
  | .receive .. :: past | .forget _ :: past | .peerRemoved _ :: past => issued past

/-- The request of the ticket was registered for this peer and this kind, and the later operations
have come since. -/
def Registered (past later : List Operation) (t : Ticket) (peer : PeerId) (kind : RequestKind) :
    Prop :=
  ∃ earlier, past = later ++ .register peer kind :: earlier ∧
    t = ((after earlier).register peer kind).1

/-- What the first operation that concerns a request has decided about it. -/
def decided? (id : RequestId) (peer : PeerId) (kind : RequestKind) (later : List Operation) :
    Option Receipt :=
  later.reverse.findSome? (Operation.verdict? id peer kind)

section

variable {past later : List Operation} {op : Operation}

/-- An earlier verdict goes before a later one. -/
theorem decided?_cons :
    decided? id peer kind (op :: later) =
      (decided? id peer kind later).or (op.verdict? id peer kind) := by
  simp [decided?, List.findSome?_append]

/-- The router is orderly after any operations. -/
theorem orderly_after (past : List Operation) : (after past).Orderly := by
  induction past with
  | nil => exact .empty
  | cons op past ih => exact ih.perform op

/-- Numbers are given in their order. -/
theorem issued_eq (past : List Operation) :
    issued past =
      (List.range (after past).registrations).reverse.map fun n => ⟨UInt64.ofNat n⟩ := by
  induction past with
  | nil => rfl
  | cons op past ih =>
    cases op with
    | register peer kind =>
      have hcount : (after (.register peer kind :: past)).registrations =
          (after past).registrations + 1 := rfl
      rw [issued, ih, hcount, List.range_succ, List.reverse_append]
      rfl
    | receive sender id kind reply =>
      rwa [issued, after, perform, shrinks_receive.registrations]
    | forget id => rwa [issued, after, perform, forget, registrations_settle]
    | peerRemoved gone => rwa [issued, after, perform, shrinks_peerRemoved.registrations]

theorem length_issued (past : List Operation) :
    (issued past).length = (after past).registrations := by
  simp [issued_eq]

/-- No number is given twice while there are no more registrations than words. -/
theorem nodup_issued (h : (issued past).length ≤ UInt64.size) : (issued past).Nodup := by
  rw [length_issued] at h
  rw [issued_eq]
  refine List.Nodup.map_on ?_ (List.nodup_reverse.mpr List.nodup_range)
  intro m hm n hn heq
  have hlt : ∀ k, k ∈ (List.range (after past).registrations).reverse → k < UInt64.size := by
    intro k hk
    have hk : k < (after past).registrations := List.mem_range.mp (List.mem_reverse.mp hk)
    omega
  have hnumber := congrArg UInt64.toNat (RequestId.mk.inj heq)
  rwa [UInt64.toNat_ofNat_of_lt' (hlt m hm), UInt64.toNat_ofNat_of_lt' (hlt n hn)] at hnumber

theorem registrations_le (r : Router) (op : Operation) :
    r.registrations ≤ (r.perform op).registrations := by
  cases op with
  | register => exact Nat.le_succ _
  | receive => exact Nat.le_of_eq shrinks_receive.registrations.symm
  | forget => exact Nat.le_of_eq registrations_settle.symm
  | peerRemoved => exact Nat.le_of_eq shrinks_peerRemoved.registrations.symm

/-- A request stands where the first operation that concerns it has put it. -/
theorem stands_of_registered (h : Registered past later t peer kind)
    (hroom : (after past).registrations ≤ UInt64.size) :
    (after past).Stands t peer kind (decided? t.id peer kind later) := by
  obtain ⟨earlier, rfl, rfl⟩ := h
  generalize ht : ((after earlier).register peer kind).1 = t
  have hid : t.id = ⟨UInt64.ofNat t.channel⟩ := by
    subst ht
    rfl
  suffices hall : (after (later ++ .register peer kind :: earlier)).Stands t peer kind
        (decided? t.id peer kind later) ∧
      t.channel < (after (later ++ .register peer kind :: earlier)).registrations from hall.1
  induction later with
  | nil =>
    subst ht
    exact ⟨stands_register _ peer kind, Nat.lt_succ_self _⟩
  | cons op later ih =>
    have hmore := registrations_le (after (later ++ .register peer kind :: earlier)) op
    obtain ⟨hstands, hissued⟩ := ih (Nat.le_trans hmore hroom)
    rw [decided?_cons]
    exact ⟨hstands.perform (orderly_after _) hid hissued op hroom, Nat.lt_of_lt_of_le hissued hmore⟩

end

/-- Every request gets what the first operation that concerns it decides, and nothing else. -/
structure Delivers (past : List Operation) : Prop where
  /-- No number is given twice. -/
  distinct : (issued past).Nodup
  /-- A reply from the right peer of the right kind under the right number is delivered, a peer that
  leaves fails the request, and a request that is forgotten gets nothing: whichever comes first. The
  slot is there until then. -/
  decided : ∀ later t peer kind, Registered past later t peer kind →
    (after past).receipt t = (decided? t.id peer kind later).getD .pending ∧
      (after past).slots.get? t.id =
        if (decided? t.id peer kind later).isNone then some ⟨peer, kind, t.channel⟩ else none
  /-- An operation that does not concern a request, or comes after one that did, leaves its slot and
  its receiver as they were. -/
  untouched : ∀ op earlier later t peer kind, past = op :: earlier →
    Registered earlier later t peer kind →
    (op.verdict? t.id peer kind = none ∨ (after earlier).receipt t ≠ .pending) →
      (after past).receipt t = (after earlier).receipt t ∧
        (after past).slots.get? t.id = (after earlier).slots.get? t.id

/-- What a ticket receives is the verdict that came first, and it waits until there is one. -/
theorem Stands.receipt_eq (h : r.Stands t peer kind decided) :
    r.receipt t = decided.getD .pending := by
  rw [Router.receipt, h.receipt, Option.getD_some]

/-- In every history in which no number had to be given twice, every request gets what the first
operation that concerns it decides. -/
theorem delivers_of_issued {past : List Operation} (h : (issued past).length ≤ UInt64.size) :
    Delivers past where
  distinct := nodup_issued h
  decided later t peer kind hregistered := by
    rw [length_issued] at h
    have hstands := stands_of_registered hregistered h
    exact ⟨hstands.receipt_eq, hstands.slot⟩
  untouched op earlier later t peer kind hpast hregistered hother := by
    subst hpast
    rw [length_issued] at h
    have hless : (after earlier).registrations ≤ UInt64.size :=
      Nat.le_trans (registrations_le _ op) h
    have hbefore := stands_of_registered hregistered hless
    have hlater : Registered (op :: earlier) (op :: later) t peer kind := by
      obtain ⟨first, rfl, hticket⟩ := hregistered
      exact ⟨first, rfl, hticket⟩
    have hafter := stands_of_registered hlater h
    have hsame : decided? t.id peer kind (op :: later) = decided? t.id peer kind later := by
      rw [decided?_cons]
      rcases hother with hnone | hsettled
      · rw [hnone, Option.or_none]
      · rw [hbefore.receipt_eq] at hsettled
        cases hdecided : decided? t.id peer kind later with
        | none =>
          rw [hdecided] at hsettled
          exact absurd rfl hsettled
        | some result => rfl
    rw [hsame] at hafter
    exact ⟨hafter.receipt_eq.trans hbefore.receipt_eq.symm, hafter.slot.trans hbefore.slot.symm⟩

/-- The same for a request that peers answer wrongly, rightly and once more, and that is then
forgotten. -/
theorem delivers_of_issued_of_forgery :
    ∃ past t, Registered past (past.take 6) t ⟨[7]⟩ .body ∧ (issued past).length = 2 ∧
      (issued past).length ≤ UInt64.size ∧
      (after past).receipt t = .reply (.data [1]) ∧ Delivers past := by
  let past : List Operation :=
    [.peerRemoved ⟨[7]⟩, .forget ⟨1⟩, .receive ⟨[7]⟩ ⟨1⟩ .body (.data [2]),
      .receive ⟨[7]⟩ ⟨1⟩ .body (.data [1]), .receive ⟨[7]⟩ ⟨1⟩ .code (.data [3]),
      .receive ⟨[8]⟩ ⟨1⟩ .body (.data [4]), .register ⟨[7]⟩ .body, .register ⟨[8]⟩ .code]
  refine ⟨past, ⟨⟨1⟩, 1⟩, ⟨_, rfl, rfl⟩, rfl, by decide, ?_, delivers_of_issued (by decide)⟩
  decide

end Router

end LightClient
