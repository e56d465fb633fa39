/-
Module: LightClient.Proofs.Retrieval.Choice
Purpose: What a look at the peers comes to when nobody interferes: a place with the first of the
  eligible peers that has one, a wait if all of them are busy, and nobody to ask if there are none.
Main exports: Client.Pick, Client.Picks, Client.HasRoom, Registry.Precedes, Client.Verdict,
  Client.exists_verdict, Client.PicksBest, Client.picks_best
-/
import LightClient.Proofs.Registry.Order
import LightClient.Proofs.Retrieval.Wakeups
import LightClient.Simulation.Libraries

namespace LightClient

open Client (Action Effect)

section

variable [ItemCache] [DelaySeries]

/-! ### A look at the peers -/

namespace Client

/-- What a look at the peers comes to. -/
inductive Pick where
  | assigned (peer : PeerId)
  | busy
  | noneEligible
  deriving DecidableEq

end Client

/-- What the look at the peers has come to, if it is over. -/
def Pursuit.pick? (p : Pursuit) : Option Client.Pick :=
  match p.stage with
  | .assigned held => some (.assigned held.peer)
  | .parked _ => some .busy
  | .missing => some .noneEligible
  | _ => none

/-- One peer ranks before another. -/
def Registry.Precedes (r : Registry) (peer other : PeerId) : Prop :=
  ∃ a b, r.find? peer = some a ∧ r.find? other = some b ∧ a.ranksBefore r.settings b = true

namespace Client

/-- What the look of a pursuit at the peers has come to, if it is over. -/
def pick? (c : Client) (n : Nat) : Option Pick :=
  (c.pursuits.get? n).bind Pursuit.pick?

/-- The pursuit takes its steps, and nobody else does anything, until its look at the peers is
over. Nothing is seen of it from outside. -/
inductive Picks (n : Nat) : Client → Pick → Client → Prop where
  | done {c : Client} {pick : Pick} (ended : c.pick? n = some pick) : Picks n c pick c
  | step {c d c' : Client} {pick : Pick} (going : c.pick? n = none)
      (step : c.step? (.pursue n) = some (d, [])) (rest : Picks n d pick c') : Picks n c pick c'

/-- The peer is registered and has a place left. -/
def HasRoom (c : Client) (peer : PeerId) : Prop :=
  ∃ record, c.registry.find? peer = some record ∧
    record.inFlight < c.settings.maxInFlight.toNat

/-- The look at the peers comes to the right thing: the first of the eligible peers that has a place
left gives one, and otherwise nothing changes. -/
inductive Verdict (c : Client) (p : Pursuit) : Pick → Client → Prop where
  | assigned {peer : PeerId} {c' : Client} (eligible : c.Eligible p peer)
      (begun : c.registry.tryBegin peer c.settings.maxInFlight.toNat = some c'.registry)
      (first : ∀ other, c.Eligible p other → c.HasRoom other → other ≠ peer →
        c.registry.Precedes peer other) : Verdict c p (.assigned peer) c'
  | busy {c' : Client} (some : ∃ peer, c.Eligible p peer)
      (full : ∀ peer, c.Eligible p peer → c.Full peer) (same : c'.registry = c.registry) :
      Verdict c p .busy c'
  | noneEligible {c' : Client} (nobody : ∀ peer, ¬ c.Eligible p peer)
      (same : c'.registry = c.registry) : Verdict c p .noneEligible c'

variable {c c' d d' : Client} {n seen : Nat} {p : Pursuit} {peer : PeerId} {pick pick' : Pick}

/-- A peer with room is not full. -/
theorem not_full_of_hasRoom (h : c.HasRoom peer) : ¬ c.Full peer := by
  obtain ⟨record, hfind, hroom⟩ := h
  exact fun hfull => Nat.not_lt.mpr (hfull record hfind) hroom

/-- A place is only ever taken with a peer that has room. -/
theorem hasRoom_of_tryBegin {registry : Registry}
    (h : c.registry.tryBegin peer c.settings.maxInFlight.toNat = some registry) :
    c.HasRoom peer := by
  obtain ⟨record, hfind, hroom, _⟩ := Registry.tryBegin_eq_some h
  exact ⟨record, hfind, hroom⟩

/-- A look at the peers comes to one thing. -/
theorem Picks.unique (h : c.Picks n pick d) (h' : c.Picks n pick' d') : pick = pick' ∧ d = d' := by
  induction h with
  | done ended =>
    cases h' with
    | done ended' => exact ⟨Option.some.inj (ended.symm.trans ended'), rfl⟩
    | step going => cases ended.symm.trans going
  | step going step _ ih =>
    cases h' with
    | done ended' => cases going.symm.trans ended'
    | step _ step' rest =>
      cases step.symm.trans step'
      exact ih rest

/-! ### Trying one peer after the other -/

theorem step?_pursue (hpursuit : c.pursuits.get? n = some p) :
    c.step? (.pursue n) = c.pursue? n p :=
  step?_of_flight hpursuit rfl

/-- The pick of the client is the pick of the pursuit that it is made for. -/
theorem pick?_eq (hpursuit : c.pursuits.get? n = some p) : c.pick? n = p.pick? := by
  rw [pick?, hpursuit, Option.bind_some]

theorem get?_move (hpursuit : c.pursuits.get? n = some p) (stage : Pursuit.Stage) :
    (c.move n stage).pursuits.get? n = some { p with stage := stage } := by
  rw [move, Table.get?_modify, if_pos rfl, hpursuit, Option.map_some]

/-- A pursuit that tries peers ends with the first one that has a place left, or with a wait. -/
theorem exists_picks_of_offering {peers : List PeerId} (hpursuit : c.pursuits.get? n = some p)
    (hstage : p.stage = .offering seen peers) :
    ∃ pick c', c.Picks n pick c' ∧
      ((pick = .busy ∧ (∀ peer ∈ peers, c.Full peer) ∧ c'.registry = c.registry) ∨
        ∃ passed peer rest, peers = passed ++ peer :: rest ∧ pick = .assigned peer ∧
          (∀ peer ∈ passed, c.Full peer) ∧
          c.registry.tryBegin peer c.settings.maxInFlight.toNat = some c'.registry) := by
  -- A peer that refuses leaves the registry as it is, so the rest is tried on the same one.
  induction peers generalizing c p with
  | nil =>
    have hstep : c.step? (.pursue n) = some (c.move n (.parked seen), []) := by
      rw [step?_pursue hpursuit, pursue?, hstage]
    refine ⟨.busy, c.move n (.parked seen), .step ?_ hstep (.done ?_), .inl ⟨rfl, ?_, rfl⟩⟩
    · rw [pick?_eq hpursuit, Pursuit.pick?, hstage]
    · rw [pick?_eq (get?_move hpursuit _)]
      rfl
    · exact List.forall_mem_nil _
  | cons peer peers ih =>
    have hgoing : c.pick? n = none := by rw [pick?_eq hpursuit, Pursuit.pick?, hstage]
    have hstep : c.step? (.pursue n) = some (c.offer n p seen peer peers, []) := by
      rw [step?_pursue hpursuit, pursue?, hstage]
    unfold offer at hstep
    split at hstep
    next registry hbegun =>
      refine ⟨.assigned peer, _, .step hgoing hstep (.done ?_),
        .inr ⟨[], peer, peers, rfl, rfl, List.forall_mem_nil _, hbegun⟩⟩
      rw [pick?, Table.get?_insert, if_pos rfl]
      rfl
    next hbusy =>
      have hfull : c.Full peer := full_of_tryBegin hbusy
      obtain ⟨pick, c', hpicks, hverdict⟩ :=
        ih (get?_move hpursuit (.offering seen peers)) rfl
      refine ⟨pick, c', .step hgoing hstep hpicks, ?_⟩
      rcases hverdict with ⟨hpick, hall, hsame⟩ | ⟨passed, other, rest, heq, hpick, hall, hbegun⟩
      · exact .inl ⟨hpick, List.forall_mem_cons.mpr ⟨hfull, hall⟩, hsame⟩
      · exact .inr ⟨peer :: passed, other, rest, by rw [heq]; rfl, hpick,
          List.forall_mem_cons.mpr ⟨hfull, hall⟩, hbegun⟩

/-! ### The verdict -/

/-- The eligible peers come in the order of their ranks. -/
theorem pairwise_eligible (hfiled : c.registry.Filed) (hseq : c.registry.Sequenced) :
    (c.eligible p).Pairwise c.registry.Precedes := by
  refine List.pairwise_map.mpr ?_
  refine (Registry.ranking_ranked hfiled hseq p.wants).ordered.imp_of_mem ?_
  intro a b ha hb hbefore
  exact ⟨a, b, (hfiled.find?_of_ranked ha).1, (hfiled.find?_of_ranked hb).1, hbefore⟩

/-- A pursuit that is about to rank the peers comes to the right verdict. -/
theorem exists_verdict (hfiled : c.registry.Filed) (hseq : c.registry.Sequenced)
    (hpursuit : c.pursuits.get? n = some p) (hstage : p.stage = .ranking seen) :
    ∃ pick c', c.Picks n pick c' ∧ c.Verdict p pick c' := by
  have hgoing : c.pick? n = none := by rw [pick?_eq hpursuit, Pursuit.pick?, hstage]
  have hstep := step?_pursue hpursuit
  rw [pursue?, hstage] at hstep
  cases hpeers : c.eligible p with
  | nil =>
    simp only [hpeers] at hstep
    refine ⟨.noneEligible, _, .step hgoing hstep (.done ?_), .noneEligible ?_ rfl⟩
    · rw [pick?_eq (get?_move hpursuit _)]
      rfl
    · intro peer heligible
      have hmem := (mem_eligible_iff hfiled).mpr heligible
      rw [hpeers] at hmem
      cases hmem
  | cons best others =>
    simp only [hpeers] at hstep
    rw [← hpeers] at hstep
    obtain ⟨pick, c', hpicks, hverdict⟩ :=
      exists_picks_of_offering (get?_move hpursuit (.offering seen (c.eligible p))) rfl
    refine ⟨pick, c', .step hgoing hstep hpicks, ?_⟩
    rcases hverdict with ⟨rfl, hfull, hsame⟩ | ⟨passed, peer, rest, heq, rfl, hfull, hbegun⟩
    · refine .busy ⟨best, ?_⟩ (fun peer heligible => ?_) hsame
      · rw [← mem_eligible_iff hfiled, hpeers]
        exact List.mem_cons_self
      · exact hfull peer ((mem_eligible_iff hfiled).mpr heligible)
    · have hordered := pairwise_eligible (p := p) hfiled hseq
      rw [heq] at hordered
      refine .assigned ?_ hbegun ?_
      · rw [← mem_eligible_iff hfiled, heq]
        exact List.mem_append_right _ List.mem_cons_self
      · intro other heligible hroom hne
        rw [← mem_eligible_iff hfiled, heq] at heligible
        -- whoever was passed over was full, whoever comes later ranks lower
        rcases List.mem_append.mp heligible with hpassed | hrest
        · exact absurd (hfull other hpassed) (not_full_of_hasRoom hroom)
        · have hrest : other ∈ rest := (List.mem_cons.mp hrest).resolve_left hne
          exact List.rel_of_pairwise_cons (List.pairwise_append.mp hordered).2.1 hrest

/-- A pursuit that looks at the peers undisturbed gets a place with the best of the eligible peers
that have one left, waits if all of them are busy, and has nobody to ask if there are none. -/
structure PicksBest (c : Client) (n : Nat) (p : Pursuit) : Prop where
  ends : ∃ pick c', c.Picks n pick c'
  determined {pick pick' : Pick} {d d' : Client} (h : c.Picks n pick d) (h' : c.Picks n pick' d') :
    pick = pick' ∧ d = d'
  /-- The higher loaded score goes first, then the lower latency, then the earlier registration. -/
  lexicographic {peer other : PeerId} {a b : PeerRecord} (ha : c.registry.find? peer = some a)
    (hb : c.registry.find? other = some b) : c.registry.Precedes peer other ↔
      Decimal.orderKey (b.loadedScore c.registry.settings) <
          Decimal.orderKey (a.loadedScore c.registry.settings) ∨
        Decimal.orderKey (a.loadedScore c.registry.settings) =
            Decimal.orderKey (b.loadedScore c.registry.settings) ∧
          (a.latency < b.latency ∨ a.latency = b.latency ∧ a.seq < b.seq)
  assigned_iff : (∃ peer c', c.Picks n (.assigned peer) c') ↔
    ∃ peer, c.Eligible p peer ∧ c.HasRoom peer
  /-- The peer that is picked is the best one with a place left. It has one request more, no more
  than it may have, and nothing else changes in the registry. -/
  assigned {peer : PeerId} {c' : Client} (h : c.Picks n (.assigned peer) c') :
    c.Eligible p peer ∧ c.HasRoom peer ∧
      (∀ other, c.Eligible p other → c.HasRoom other → other ≠ peer →
        c.registry.Precedes peer other) ∧
      c.registry.Amends c'.registry peer (fun old => { old with inFlight := old.inFlight + 1 }) ∧
      ∃ new, c'.registry.find? peer = some new ∧ new.inFlight ≤ c.settings.maxInFlight.toNat
  busy_iff : (∃ c', c.Picks n .busy c') ↔
    (∃ peer, c.Eligible p peer) ∧ ∀ peer, c.Eligible p peer → c.Full peer
  noneEligible_iff : (∃ c', c.Picks n .noneEligible c') ↔ ∀ peer, ¬ c.Eligible p peer
  /-- Without a place nothing changes. -/
  unchanged {pick : Pick} {c' : Client} (h : c.Picks n pick c')
    (hpick : ∀ peer, pick ≠ .assigned peer) : c'.registry = c.registry

/-- A pick assigns a peer just when an eligible one has room. -/
theorem Verdict.assigned_iff (h : c.Verdict p pick c') :
    (∃ peer, pick = .assigned peer) ↔ ∃ peer, c.Eligible p peer ∧ c.HasRoom peer := by
  cases h with
  | assigned eligible begun => exact iff_of_true ⟨_, rfl⟩ ⟨_, eligible, hasRoom_of_tryBegin begun⟩
  | busy _ full =>
    refine iff_of_false (fun ⟨_, heq⟩ => nomatch heq) ?_
    exact fun ⟨peer, heligible, hroom⟩ => not_full_of_hasRoom hroom (full peer heligible)
  | noneEligible nobody =>
    refine iff_of_false (fun ⟨_, heq⟩ => nomatch heq) ?_
    exact fun ⟨peer, heligible, _⟩ => nobody peer heligible

/-- A pick finds all peers busy just when there are eligible ones and all of them are full. -/
theorem Verdict.busy_iff (h : c.Verdict p pick c') :
    pick = .busy ↔ (∃ peer, c.Eligible p peer) ∧ ∀ peer, c.Eligible p peer → c.Full peer := by
  cases h with
  | @assigned peer _ eligible begun =>
    refine iff_of_false (fun heq => nomatch heq) fun hfull => ?_
    exact not_full_of_hasRoom (hasRoom_of_tryBegin begun) (hfull.2 peer eligible)
  | busy some full => exact iff_of_true rfl ⟨some, full⟩
  | noneEligible nobody =>
    exact iff_of_false (fun heq => nomatch heq) fun ⟨⟨peer, heligible⟩, _⟩ => nobody peer heligible

/-- A pick finds no peer just when none is eligible. -/
theorem Verdict.noneEligible_iff (h : c.Verdict p pick c') :
    pick = .noneEligible ↔ ∀ peer, ¬ c.Eligible p peer := by
  cases h with
  | assigned eligible =>
    exact iff_of_false (fun heq => nomatch heq) fun hnobody => hnobody _ eligible
  | busy some => exact iff_of_false (fun heq => nomatch heq) (not_forall_not.mpr some)
  | noneEligible nobody => exact iff_of_true rfl nobody

/-- A pick without a peer leaves the registry as it was. -/
theorem Verdict.unchanged (h : c.Verdict p pick c') (hpick : ∀ peer, pick ≠ .assigned peer) :
    c'.registry = c.registry := by
  cases h with
  | assigned => exact absurd rfl (hpick _)
  | busy _ _ same => exact same
  | noneEligible _ same => exact same

/-- A place is taken with the peer that is picked, and with no other. -/
theorem Verdict.taken (h : c.Verdict p (.assigned peer) c') :
    c.registry.Amends c'.registry peer (fun old => { old with inFlight := old.inFlight + 1 }) ∧
      ∃ new, c'.registry.find? peer = some new ∧
        new.inFlight ≤ c.settings.maxInFlight.toNat := by
  cases h with
  | assigned _ begun =>
    have hamends := Registry.tryBegin_amends begun
    obtain ⟨record, hfind, hroom⟩ := hasRoom_of_tryBegin begun
    refine ⟨hamends, { record with inFlight := record.inFlight + 1 }, ?_, hroom⟩
    rw [hamends.changed, hfind]
    rfl

/-- Whatever has been done to the registry, a pursuit that is about to rank the peers picks the best
one that has a place left. -/
theorem picks_best {s : RegistrySettings} {past : List Registry.Operation}
    (hregistry : c.registry = Registry.after s past) (hpursuit : c.pursuits.get? n = some p)
    (hstage : p.stage = .ranking seen) : c.PicksBest n p := by
  have hfiled : c.registry.Filed := hregistry ▸ Registry.filed_after s past
  have hseq : c.registry.Sequenced := hregistry ▸ Registry.sequenced_after s past
  obtain ⟨pick, c', hpicks, hverdict⟩ := exists_verdict hfiled hseq hpursuit hstage
  -- the steps are determined, so that one verdict speaks for every way to pick
  have hpick : ∀ other, (∃ d, c.Picks n other d) ↔ pick = other := by
    refine fun other => ⟨fun ⟨d, h⟩ => (hpicks.unique h).1, ?_⟩
    rintro rfl
    exact ⟨c', hpicks⟩
  have hright : ∀ {other d}, c.Picks n other d → c.Verdict p other d := by
    intro other d h
    obtain ⟨rfl, rfl⟩ := hpicks.unique h
    exact hverdict
  constructor
  case ends => exact ⟨pick, c', hpicks⟩
  case determined => exact Picks.unique
  case lexicographic =>
    intro peer other a b ha hb
    rw [← PeerRecord.ranksBefore_lexicographic, Registry.Precedes]
    simp only [ha, hb, Option.some.injEq, exists_and_left, exists_eq_left']
  case assigned_iff =>
    simp only [hpick]
    exact hverdict.assigned_iff
  case assigned =>
    intro peer d h
    have htaken := (hright h).taken
    cases hright h with
    | assigned eligible begun first =>
      exact ⟨eligible, hasRoom_of_tryBegin begun, first, htaken⟩
  case busy_iff =>
    rw [hpick]
    exact hverdict.busy_iff
  case noneEligible_iff =>
    rw [hpick]
    exact hverdict.noneEligible_iff
  case unchanged => exact fun h hnone => (hright h).unchanged hnone

end Client

end

namespace Client

/-- The best peer has as many requests as it may have, and is passed over. -/
theorem picks_best_of_busy_peer :
    let busy : PeerInfo := ⟨⟨[7]⟩, none, 2, [.code], ⟨9, .zero⟩⟩
    let free : PeerInfo := ⟨⟨[8]⟩, none, 2, [.code], ⟨9, .zero⟩⟩
    let past : List Registry.Operation :=
      [.tryBegin busy.id 1, .record free.id (.success (.ofNanos 2000000000)), .register free,
        .register busy]
    let p : Pursuit := { Pursuit.fresh (.code .zero 9 .zero) with stage := .ranking 0 }
    let settings : ClientSettings :=
      ⟨.default, .default, .default, { RetrievalSettings.default with maxInFlight := 1 }⟩
    let c : Client :=
      { Client.empty settings with
        registry := Registry.after .default past
        pursuits := [(1, p)] }
    c.registry = Registry.after .default past ∧ c.pursuits.get? 1 = some p ∧
      p.stage = .ranking 0 ∧ c.PicksBest 1 p ∧ c.registry.Precedes busy.id free.id ∧
      ∃ c', c.Picks 1 (.assigned free.id) c' := by
  intro busy free past p settings c
  have hregistry : c.registry = Registry.after .default past := rfl
  have hstage : p.stage = .ranking 0 := rfl
  have hbest : c.PicksBest 1 p := picks_best hregistry rfl hstage
  have hfull : c.Full busy.id := by
    intro record hfind
    cases hfind
    exact Nat.le_refl 1
  have hserves : c.Eligible p free.id := ⟨⟨_, rfl, rfl⟩, List.not_mem_nil⟩
  have hroom : c.HasRoom free.id := ⟨_, rfl, Nat.one_pos⟩
  obtain ⟨peer, c', hpicks⟩ := hbest.assigned_iff.mpr ⟨_, hserves, hroom⟩
  have hpeer : peer = free.id := by
    obtain ⟨⟨⟨record, hfind, _⟩, _⟩, hroom, _⟩ := hbest.assigned hpicks
    have hkeys : c.registry.peers.keys = [busy.id, free.id] := by decide +kernel
    have hmem : peer ∈ c.registry.peers.keys := List.mem_map_of_mem (Table.mem_of_get? hfind)
    rw [hkeys] at hmem
    rcases List.mem_cons.mp hmem with rfl | hmem
    · exact absurd hfull (not_full_of_hasRoom hroom)
    · exact List.mem_singleton.mp hmem
  have hprecedes : c.registry.Precedes busy.id free.id := ⟨_, _, rfl, rfl, by decide +kernel⟩
  exact ⟨hregistry, rfl, hstage, hbest, hprecedes, c', hpeer ▸ hpicks⟩

end Client

end LightClient
