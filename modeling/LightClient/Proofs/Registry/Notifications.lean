/-
Module: LightClient.Proofs.Registry.Notifications
Purpose: What others are told about a peer is the story of the peer: it comes, it is talked about
  while it is there, it leaves, and may come again. Whoever listens from the start knows from this
  story alone whether the peer is registered.
Main exports: Registry.Change, Registry.perform_change, Registry.after, Registry.told,
  Registry.lastAnnounced, Registry.stay, Registry.visit, Registry.word, Registry.word_told,
  Registry.Mirrored, Registry.mirrored
-/
import Mathlib.Computability.Language
import LightClient.Proofs.Registry

namespace LightClient

namespace Registry

open scoped Computability

/-! ### What one operation changes and tells -/

def Operation.peer : Operation → PeerId
  | register info => info.id
  | unregister peer => peer
  | announce peer _ => peer
  | tryBegin peer _ => peer
  | record peer _ => peer

/-- The two registries differ in the record of the given peer at most. -/
def AgreesBeside (r r' : Registry) (peer : PeerId) : Prop :=
  ∀ other, other ≠ peer → r'.find? other = r.find? other

/-- What an operation makes of the registry and what others are told of it, at a time when they
already find the registry changed. -/
inductive Change (r r' : Registry) : Operation → List Event → Prop where
  | registered {info : PeerInfo} {record : PeerRecord} (now : r'.find? info.id = some record)
      (announced : record.info = info) (others : r.AgreesBeside r' info.id) :
      Change r r' (.register info) [.registered info]
  | disconnected {peer : PeerId} {old : PeerRecord} (before : r.find? peer = some old)
      (now : r'.find? peer = none) (others : r.AgreesBeside r' peer) :
      Change r r' (.unregister peer) [.removed old.info .disconnected]
  | announced {peer : PeerId} {head : Head} {old : PeerRecord} (before : r.find? peer = some old)
      (now : r'.find? peer = some { old with info := { old.info with head := head } })
      (others : r.AgreesBeside r' peer) : Change r r' (.announce peer head) [.updated peer]
  | begun {peer : PeerId} {limit : Nat} {old new : PeerRecord} (before : r.find? peer = some old)
      (now : r'.find? peer = some new) (same : new.info = old.info)
      (others : r.AgreesBeside r' peer) : Change r r' (.tryBegin peer limit) []
  | recorded {peer : PeerId} {o : Outcome} {old : PeerRecord} (before : r.find? peer = some old)
      (now : r'.find? peer = some (old.after r.settings o)) (others : r.AgreesBeside r' peer) :
      Change r r' (.record peer o) [.updated peer]
  | evicted {peer : PeerId} {o : Outcome} {old : PeerRecord} (before : r.find? peer = some old)
      (now : r'.find? peer = none) (others : r.AgreesBeside r' peer) :
      Change r r' (.record peer o) [.removed old.info .evicted]
  | unknown {op : Operation} (stranger : ∀ info, op ≠ .register info)
      (absent : r.find? op.peer = none) (same : r' = r) : Change r r' op []

section

variable {r : Registry} {peer : PeerId}

theorem find?_insert_self {record : PeerRecord} {seq : Nat} :
    find? { r with peers := r.peers.insert peer record, nextSeq := seq } peer = some record :=
  (Table.get?_insert ..).trans (if_pos rfl)

/-- A new record of one peer leaves those of the others as they were. -/
theorem agreesBeside_insert {record : PeerRecord} {seq : Nat} :
    r.AgreesBeside { r with peers := r.peers.insert peer record, nextSeq := seq } peer :=
  fun _ hne => (Table.get?_insert ..).trans (if_neg hne.symm)

theorem find?_erase_self : find? { r with peers := r.peers.erase peer } peer = none :=
  (Table.get?_erase ..).trans (if_pos rfl)

/-- Without one peer the records of the others are as they were. -/
theorem agreesBeside_erase : r.AgreesBeside { r with peers := r.peers.erase peer } peer :=
  fun _ hne => (Table.get?_erase ..).trans (if_neg hne.symm)

end

/-- Nobody is told of a place that is reserved. -/
theorem tryBegin_change (r : Registry) (peer : PeerId) (limit : Nat) :
    Change r ((r.tryBegin peer limit).getD r) (.tryBegin peer limit) [] := by
  cases hfind : r.find? peer with
  | none =>
    have hrefused : r.tryBegin peer limit = none := by rw [tryBegin, hfind]
    rw [hrefused]
    exact .unknown (fun _ h => nomatch h) hfind rfl
  | some old =>
    cases hbegin : r.tryBegin peer limit with
    | none => exact .begun hfind hfind rfl fun _ _ => rfl
    | some r' =>
      obtain ⟨old', hfind', _, rfl⟩ := tryBegin_eq_some hbegin
      exact .begun hfind' find?_insert_self rfl agreesBeside_insert

/-- Every operation is one of these changes. -/
theorem perform_change (r : Registry) (op : Operation) :
    Change r (r.perform op).1 op (r.perform op).2 := by
  cases op with
  | register info =>
    simp only [perform]
    rcases register_cases r info with ⟨old, _, heq⟩ | ⟨_, heq⟩
    · rw [heq]
      exact .registered find?_insert_self rfl agreesBeside_insert
    · rw [heq]
      exact .registered find?_insert_self rfl agreesBeside_insert
  | unregister peer =>
    simp only [perform]
    rcases unregister_cases r peer with ⟨old, hfind, heq⟩ | ⟨hnone, heq⟩
    · rw [heq]
      exact .disconnected hfind find?_erase_self agreesBeside_erase
    · rw [heq]
      exact .unknown (fun _ h => nomatch h) hnone rfl
  | announce peer head =>
    simp only [perform]
    rcases announce_cases r peer head with ⟨old, hfind, heq⟩ | ⟨hnone, heq⟩
    · rw [heq]
      exact .announced hfind find?_insert_self agreesBeside_insert
    · rw [heq]
      exact .unknown (fun _ h => nomatch h) hnone rfl
  | tryBegin peer limit => exact tryBegin_change r peer limit
  | record peer o =>
    simp only [perform]
    rcases record_cases r peer o with ⟨hnone, heq⟩ | ⟨old, hfind, ⟨_, heq⟩ | ⟨_, heq⟩⟩
    · rw [heq]
      exact .unknown (fun _ h => nomatch h) hnone rfl
    · rw [heq, PeerRecord.info_after]
      exact .evicted hfind find?_erase_self agreesBeside_erase
    · rw [heq]
      exact .recorded hfind find?_insert_self agreesBeside_insert

namespace Change

variable {r r' : Registry} {op : Operation} {events : List Event}

/-- An operation changes nothing about the peers that it does not name. -/
theorem agreesBeside (h : Change r r' op events) : r.AgreesBeside r' op.peer := by
  cases h with
  | registered _ _ others | disconnected _ _ others | announced _ _ others
  | begun _ _ _ others | recorded _ _ others | evicted _ _ others => exact others
  | unknown _ _ same => exact fun _ _ => by rw [same]

/-- Others are told about the peer that the operation names only, if the registry knows the peers by
their own names. -/
theorem peer_of_mem (h : Change r r' op events)
    (hids : ∀ old, r.find? op.peer = some old → old.info.id = op.peer) {e : Event}
    (he : e ∈ events) : e.peer = op.peer := by
  cases h with
  | registered =>
    rw [List.mem_singleton.mp he]
    rfl
  | disconnected before | evicted before =>
    rw [List.mem_singleton.mp he]
    exact hids _ before
  | announced | recorded =>
    rw [List.mem_singleton.mp he]
    rfl
  | begun | unknown => cases he

/-- A departure is told of a peer that was registered and no longer is. -/
theorem of_removed_mem (h : Change r r' op events) {info : PeerInfo} {reason : Removal}
    (he : .removed info reason ∈ events) :
    ∃ old, r.find? op.peer = some old ∧ old.info = info ∧ r'.find? op.peer = none ∧
      (reason = .disconnected ∧ op = .unregister op.peer ∨
        reason = .evicted ∧ ∃ o, op = .record op.peer o) := by
  cases h with
  | @disconnected peer old before now =>
    cases List.mem_singleton.mp he
    exact ⟨old, before, rfl, now, .inl ⟨rfl, rfl⟩⟩
  | @evicted peer o old before now =>
    cases List.mem_singleton.mp he
    exact ⟨old, before, rfl, now, .inr ⟨rfl, o, rfl⟩⟩
  | registered | announced | recorded => cases List.mem_singleton.mp he
  | begun | unknown => cases he

end Change

/-! ### Runs -/

/-- The registry after the given operations, the last one first. -/
def after (s : RegistrySettings) : List Operation → Registry
  | [] => empty s
  | op :: past => ((after s past).perform op).1

/-- What others are told of the given operations, in order. -/
def told (s : RegistrySettings) : List Operation → List Event
  | [] => []
  | op :: past => told s past ++ ((after s past).perform op).2

/-- What a peer has said of itself: what it was registered with last, and the head that it has
announced since. -/
def lastAnnounced (peer : PeerId) : List Operation → Option PeerInfo
  | [] => none
  | .register info :: past => if info.id = peer then some info else lastAnnounced peer past
  | .announce other head :: past =>
    if other = peer then (lastAnnounced peer past).map fun info => { info with head := head }
    else lastAnnounced peer past
  | _ :: past => lastAnnounced peer past

section

variable {s : RegistrySettings} {past : List Operation} {peer : PeerId}

/-- What was announced last for a peer is left alone by operations on other peers. -/
theorem lastAnnounced_cons_of_ne {op : Operation} (h : op.peer ≠ peer) :
    lastAnnounced peer (op :: past) = lastAnnounced peer past := by
  cases op with
  | register | announce => exact if_neg h
  | unregister | tryBegin | record => rfl

/-- What a peer has announced last bears its name. -/
theorem id_of_lastAnnounced {info : PeerInfo} (h : lastAnnounced peer past = some info) :
    info.id = peer := by
  induction past generalizing info with
  | nil => cases h
  | cons op past ih =>
    by_cases hpeer : op.peer = peer
    · cases op with
      | register other =>
        have hid : other.id = peer := hpeer
        rw [lastAnnounced, if_pos hid] at h
        cases h
        exact hid
      | announce other head =>
        have hother : other = peer := hpeer
        rw [lastAnnounced, if_pos hother] at h
        obtain ⟨earlier, hearlier, rfl⟩ := Option.map_eq_some_iff.mp h
        have hid : earlier.id = peer := ih hearlier
        exact hid
      | unregister | tryBegin | record => exact ih h
    · rw [lastAnnounced_cons_of_ne hpeer] at h
      exact ih h

/-- The record of a registered peer holds what the peer has said of itself. -/
theorem lastAnnounced_of_find? {record : PeerRecord}
    (h : (after s past).find? peer = some record) :
    lastAnnounced peer past = some record.info := by
  -- on the operations: one about another peer leaves both sides alone
  induction past generalizing record with
  | nil => cases h
  | cons op past ih =>
    have hchange := perform_change (after s past) op
    rw [after] at h
    generalize (perform (after s past) op).1 = r' at h hchange
    generalize (perform (after s past) op).2 = events at hchange
    by_cases hpeer : op.peer = peer
    · subst hpeer
      cases hchange with
      | registered now announced =>
        rw [Operation.peer, now] at h
        cases h
        rw [lastAnnounced, Operation.peer, if_pos rfl, announced]
      | disconnected _ now | evicted _ now =>
        rw [Operation.peer, now] at h
        cases h
      | @announced other head old before now =>
        have hbefore : lastAnnounced other past = some old.info := ih before
        rw [Operation.peer, now] at h
        cases h
        rw [lastAnnounced, Operation.peer, if_pos rfl, hbefore]
        rfl
      | begun before now same =>
        rw [Operation.peer, now] at h
        cases h
        rw [same]
        exact ih before
      | recorded before now =>
        rw [Operation.peer, now] at h
        cases h
        rw [PeerRecord.info_after]
        exact ih before
      | unknown _ absent same =>
        rw [same, absent] at h
        cases h
    · rw [lastAnnounced_cons_of_ne hpeer]
      exact ih ((hchange.agreesBeside peer (Ne.symm hpeer)).symm.trans h)

end

/-! ### The story of a peer -/

/-- What an event says about its peer. -/
inductive Mark where
  | registered
  | updated
  | removed
  deriving DecidableEq

def Event.mark : Event → Mark
  | registered _ => .registered
  | updated _ => .updated
  | removed _ _ => .removed

/-- What others are told about one peer. -/
def word (peer : PeerId) (events : List Event) : List Mark :=
  (events.filter fun e => e.peer = peer).map Event.mark

/-- A peer comes, and is then registered again and talked about any number of times. -/
def stay : Language Mark :=
  {[.registered]} * ({[.registered]} + {[.updated]})∗

/-- A peer comes, stays and leaves. -/
def visit : Language Mark :=
  stay * {[.removed]}

/-- A story extended at its end by one more round is a story. -/
theorem append_mem_kstar {l : Language Mark} {w v : List Mark} (hw : w ∈ l∗) (hv : v ∈ l) :
    w ++ v ∈ l∗ :=
  Set.mem_of_mem_of_subset (Language.append_mem_mul hw hv) (kstar_mul_le_kstar (a := l))

theorem begin_mem_stay : [.registered] ∈ stay :=
  Language.append_mem_mul (Set.mem_singleton _) (Language.nil_mem_kstar _)

/-- A stay goes on with anything but the departure. -/
theorem append_mem_stay {w : List Mark} {m : Mark} (hw : w ∈ stay) (hm : m ≠ .removed) :
    w ++ [m] ∈ stay := by
  obtain ⟨start, hstart, more, hmore, rfl⟩ := Language.mem_mul.mp hw
  rw [List.append_assoc]
  refine Language.append_mem_mul hstart (append_mem_kstar hmore ?_)
  cases m with
  | registered => exact .inl rfl
  | updated => exact .inr rfl
  | removed => exact absurd rfl hm

/-- A visit goes on with anything but the departure. -/
theorem append_mem_staying {w : List Mark} {m : Mark} (hw : w ∈ visit∗ * stay)
    (hm : m ≠ .removed) : w ++ [m] ∈ visit∗ * stay := by
  obtain ⟨visits, hvisits, last, hlast, rfl⟩ := Language.mem_mul.mp hw
  rw [List.append_assoc]
  exact Language.append_mem_mul hvisits (append_mem_stay hlast hm)

/-- With the departure a visit is over. -/
theorem append_mem_visits {w : List Mark} (hw : w ∈ visit∗ * stay) : w ++ [.removed] ∈ visit∗ := by
  obtain ⟨visits, hvisits, last, hlast, rfl⟩ := Language.mem_mul.mp hw
  rw [List.append_assoc]
  exact append_mem_kstar hvisits (Language.append_mem_mul hlast (Set.mem_singleton _))

/-- After the last mark the peer is there. -/
def present (w : List Mark) : Bool :=
  w.getLast?.any (· ≠ .removed)

/-- Whether a peer is there is decided by the last mark of its story. -/
theorem present_append {w v : List Mark} (hv : v ≠ []) : present (w ++ v) = present v := by
  rw [present, present, List.getLast?_append_of_ne_nil w hv]

/-- A peer whose visits are over is not there. -/
theorem present_of_visits {w : List Mark} (hw : w ∈ visit∗) : present w = false := by
  obtain ⟨visits, rfl, hvisits⟩ := Language.mem_kstar.mp hw
  induction visits using List.reverseRecOn with
  | nil => rfl
  | append_singleton visits last ih =>
    obtain ⟨v, _, gone, rfl, rfl⟩ := Language.mem_mul.mp (hvisits last (by simp))
    rw [List.flatten_append, List.flatten_singleton, ← List.append_assoc]
    exact present_append (by simp)

/-- A peer that stays is there. -/
theorem present_of_stay {w : List Mark} (hw : w ∈ stay) : w ≠ [] ∧ present w = true := by
  obtain ⟨start, rfl, more, hmore, rfl⟩ := Language.mem_mul.mp hw
  obtain ⟨marks, rfl, hmarks⟩ := Language.mem_kstar.mp hmore
  refine ⟨by simp, ?_⟩
  induction marks using List.reverseRecOn with
  | nil => rfl
  | append_singleton marks last ih =>
    rw [List.flatten_append, List.flatten_singleton, ← List.append_assoc]
    rcases hmarks last (by simp) with rfl | rfl
    · exact present_append (by simp)
    · exact present_append (by simp)

/-- Nobody is both away and there. -/
theorem not_mem_visits_of_staying {w : List Mark} (hw : w ∈ visit∗ * stay) : w ∉ visit∗ := by
  obtain ⟨visits, _, last, hlast, rfl⟩ := Language.mem_mul.mp hw
  obtain ⟨hne, hpresent⟩ := present_of_stay hlast
  intro haway
  have habsent := present_of_visits haway
  rw [present_append hne, hpresent] at habsent
  cases habsent

/-! ### The story of a peer tells whether it is registered -/

/-- The marks that an operation leaves in the story of a peer, and whether the peer is registered
before and after. -/
inductive Passage (before now : Option PeerRecord) : List Mark → Prop where
  | still (same : now = none ↔ before = none) : Passage before now []
  | comes (present : now ≠ none) : Passage before now [.registered]
  | stays (known : before ≠ none) (present : now ≠ none) : Passage before now [.updated]
  | leaves (known : before ≠ none) (absent : now = none) : Passage before now [.removed]

/-- Of every change a peer is told the part that concerns it. -/
theorem Change.passage {r r' : Registry} {op : Operation} {events : List Event}
    (h : Change r r' op events)
    (hids : ∀ old, r.find? op.peer = some old → old.info.id = op.peer) (peer : PeerId) :
    Passage (r.find? peer) (r'.find? peer) (word peer events) := by
  by_cases hpeer : op.peer = peer
  · subst hpeer
    have hall : ∀ e ∈ events, decide (e.peer = op.peer) = true :=
      fun e he => decide_eq_true (h.peer_of_mem hids he)
    rw [word, List.filter_eq_self.mpr hall]
    cases h with
    | registered now => exact .comes (by simp [Operation.peer, now])
    | disconnected before now => exact .leaves (by simp [Operation.peer, before]) now
    | announced before now | recorded before now =>
      exact .stays (by simp [Operation.peer, before]) (by simp [Operation.peer, now])
    | begun before now => exact .still (by simp [Operation.peer, before, now])
    | evicted before now => exact .leaves (by simp [Operation.peer, before]) now
    | unknown _ _ same => exact .still (by rw [same])
  · have hnone : word peer events = [] := by
      rw [word, List.filter_eq_nil_iff.mpr fun e he => ?_, List.map_nil]
      rw [h.peer_of_mem hids he]
      simpa using hpeer
    rw [hnone, h.agreesBeside peer (Ne.symm hpeer)]
    exact .still Iff.rfl

/-- The story of a peer that is not registered consists of visits that are over, that of a peer
that is registered ends in a visit that is not. -/
theorem word_told (s : RegistrySettings) (past : List Operation) (peer : PeerId) :
    ((after s past).find? peer = none → word peer (told s past) ∈ visit∗) ∧
      ((after s past).find? peer ≠ none → word peer (told s past) ∈ visit∗ * stay) := by
  induction past with
  | nil => exact ⟨fun _ => Language.nil_mem_kstar _, fun h => absurd rfl h⟩
  | cons op past ih =>
    obtain ⟨haway, hthere⟩ := ih
    have hpassage := (perform_change (after s past) op).passage
      (fun old hold => id_of_lastAnnounced (lastAnnounced_of_find? hold)) peer
    have hword : word peer (told s (op :: past)) =
        word peer (told s past) ++ word peer (perform (after s past) op).2 := by
      simp [told, word]
    rw [hword, after]
    generalize (perform (after s past) op).1.find? peer = now at hpassage ⊢
    generalize word peer (perform (after s past) op).2 = marks at hpassage ⊢
    cases hpassage with
    | still same =>
      rw [List.append_nil]
      exact ⟨fun h => haway (same.mp h), fun h => hthere fun hbefore => h (same.mpr hbefore)⟩
    | comes present =>
      refine ⟨fun h => absurd h present, fun _ => ?_⟩
      by_cases hbefore : (after s past).find? peer = none
      · exact Language.append_mem_mul (haway hbefore) begin_mem_stay
      · exact append_mem_staying (hthere hbefore) (by decide)
    | stays known present =>
      exact ⟨fun h => absurd h present, fun _ => append_mem_staying (hthere known) (by decide)⟩
    | leaves known absent =>
      exact ⟨fun _ => append_mem_visits (hthere known), fun h => absurd absent h⟩

/-! ### Departures, and operations on peers that are not registered -/

section

variable (s : RegistrySettings) (past : List Operation) (op : Operation) (info : PeerInfo)

/-- Others are told that a peer has disconnected just when it is known and does, and what it has
announced last. -/
theorem disconnected_mem_iff :
    .removed info .disconnected ∈ ((after s past).perform op).2 ↔
      ∃ peer, op = .unregister peer ∧ (after s past).find? peer ≠ none ∧
        lastAnnounced peer past = some info := by
  have hchange := perform_change (after s past) op
  constructor
  · intro he
    obtain ⟨old, hfind, rfl, _, ⟨_, hop⟩ | ⟨hreason, _⟩⟩ := hchange.of_removed_mem he
    · exact ⟨op.peer, hop, by simp [hfind], lastAnnounced_of_find? hfind⟩
    · cases hreason
  · rintro ⟨peer, rfl, hknown, hinfo⟩
    generalize (perform (after s past) (.unregister peer)).2 = events at hchange ⊢
    cases hchange with
    | disconnected before =>
      rw [lastAnnounced_of_find? before] at hinfo
      cases hinfo
      exact List.mem_singleton_self _
    | unknown _ absent => exact absurd absent hknown

/-- Others are told that a peer was evicted just when an outcome makes it leave, and what it has
announced last. -/
theorem evicted_mem_iff :
    .removed info .evicted ∈ ((after s past).perform op).2 ↔
      ∃ peer o, op = .record peer o ∧ (after s past).find? peer ≠ none ∧
        ((after s past).perform op).1.find? peer = none ∧ lastAnnounced peer past = some info := by
  have hchange := perform_change (after s past) op
  constructor
  · intro he
    obtain ⟨old, hfind, rfl, hgone, ⟨hreason, _⟩ | ⟨_, o, hop⟩⟩ := hchange.of_removed_mem he
    · cases hreason
    · exact ⟨op.peer, o, hop, by simp [hfind], hgone, lastAnnounced_of_find? hfind⟩
  · rintro ⟨peer, o, rfl, hknown, hgone, hinfo⟩
    generalize (perform (after s past) (.record peer o)).1 = r' at hchange hgone
    generalize (perform (after s past) (.record peer o)).2 = events at hchange ⊢
    cases hchange with
    | evicted before =>
      rw [lastAnnounced_of_find? before] at hinfo
      cases hinfo
      exact List.mem_singleton_self _
    | recorded _ now =>
      rw [now] at hgone
      cases hgone
    | unknown _ absent => exact absurd absent hknown

end

/-- Only a registration does anything about a peer that is not registered. -/
theorem perform_unknown {r : Registry} {op : Operation} (stranger : ∀ info, op ≠ .register info)
    (absent : r.find? op.peer = none) : r.perform op = (r, []) := by
  have hchange := perform_change r op
  generalize r.perform op = x at hchange ⊢
  obtain ⟨r', events⟩ := x
  cases hchange with
  | registered => exact absurd rfl (stranger _)
  | disconnected before | announced before | begun before | recorded before | evicted before =>
    rw [Operation.peer, before] at absent
    cases absent
  | unknown _ _ same => exact congrArg (Prod.mk · []) same

/-! ### The mirror -/

/-- What others are told mirrors the registry: what they know of a peer is a story that tells
whether the peer is registered, what they are told next is what has just changed, a departure comes
with its reason and with what the peer has said of itself, and of operations on peers that are not
registered they hear nothing. -/
structure Mirrored (s : RegistrySettings) (past : List Operation) : Prop where
  story (peer : PeerId) : word peer (told s past) ∈ visit∗ * (1 + stay)
  staying (peer : PeerId) :
    word peer (told s past) ∈ visit∗ * stay ↔ (after s past).find? peer ≠ none
  change (op : Operation) :
    Change (after s past) ((after s past).perform op).1 op ((after s past).perform op).2
  disconnected (op : Operation) (info : PeerInfo) :
    .removed info .disconnected ∈ ((after s past).perform op).2 ↔
      ∃ peer, op = .unregister peer ∧ (after s past).find? peer ≠ none ∧
        lastAnnounced peer past = some info
  evicted (op : Operation) (info : PeerInfo) :
    .removed info .evicted ∈ ((after s past).perform op).2 ↔
      ∃ peer o, op = .record peer o ∧ (after s past).find? peer ≠ none ∧
        ((after s past).perform op).1.find? peer = none ∧ lastAnnounced peer past = some info
  unknown (op : Operation) (stranger : ∀ info, op ≠ .register info)
    (absent : (after s past).find? op.peer = none) :
    (after s past).perform op = (after s past, [])

/-- The registry is mirrored after any run, if others listen from the start. -/
theorem mirrored (s : RegistrySettings) (past : List Operation) : Mirrored s past where
  story peer := by
    obtain ⟨haway, hthere⟩ := word_told s past peer
    rw [mul_add, mul_one, Language.mem_add]
    by_cases h : (after s past).find? peer = none
    · exact .inl (haway h)
    · exact .inr (hthere h)
  staying peer := by
    obtain ⟨haway, hthere⟩ := word_told s past peer
    refine ⟨fun hword h => ?_, hthere⟩
    exact not_mem_visits_of_staying hword (haway h)
  change := perform_change (after s past)
  disconnected := disconnected_mem_iff s past
  evicted := evicted_mem_iff s past
  unknown _ := perform_unknown

/-- The third invalid proof ends the visit, and the outcome that comes in after it is not heard of. -/
example :
    let info : PeerInfo := ⟨⟨[7]⟩, none, 2, [.body], ⟨0, .zero⟩⟩
    let bad : Operation := .record info.id .invalidProof
    word info.id (told .default [.record info.id .timeout, bad, bad, bad, .register info]) =
      [.registered, .updated, .updated, .removed] := by
  decide +kernel

end Registry

end LightClient
