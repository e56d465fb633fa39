/-
Module: LightClient.Proofs.Retrieval.Wakeups
Purpose: A pursuit that waits for a change of the registry misses none: while it waits and nothing has
  changed, every peer that it could ask is busy, or there is no such peer.
Main exports: Client.Eligible, Client.Full, Client.Quiet, Pursuit.parked?, Pursuit.lingering?,
  Pursuit.Heeds, Client.WakeupsKept, Run.heeds, Run.wakeups_kept
-/
import LightClient.Proofs.Retrieval.Failover
import LightClient.Proofs.Retrieval.Notices
import LightClient.Simulation.Libraries

namespace LightClient

open Client (Action Effect)

namespace Pursuit

/-- The generation that a pursuit noted before it found all peers busy and began to wait. -/
def parked? (p : Pursuit) : Option Nat :=
  match p.stage with
  | .parked seen => some seen
  | _ => none

/-- The generation that a pursuit noted before it found no peer and began to wait. -/
def lingering? (p : Pursuit) : Option Nat :=
  match p.stage with
  | .lingering seen => some seen
  | _ => none

variable {p : Pursuit} {seen : Nat}

theorem stage_of_parked? (h : p.parked? = some seen) : p.stage = .parked seen := by
  unfold parked? at h
  split at h
  next hstage => rw [hstage, Option.some.inj h]
  next => cases h

theorem stage_of_lingering? (h : p.lingering? = some seen) : p.stage = .lingering seen := by
  unfold lingering? at h
  split at h
  next hstage => rw [hstage, Option.some.inj h]
  next => cases h

end Pursuit

section

variable [ItemCache] [DelaySeries]

namespace Client

/-- The peer is registered and can serve the request, and the pursuit has not tried it. -/
def Eligible (c : Client) (p : Pursuit) (peer : PeerId) : Prop :=
  c.CanServe peer p.request ∧ peer ∉ p.tried

/-- The peer has no place left, as far as it is registered. -/
def Full (c : Client) (peer : PeerId) : Prop :=
  ∀ record, c.registry.find? peer = some record → c.settings.maxInFlight.toNat ≤ record.inFlight

/-- There are peers to ask, and all but the rest of them have no place left. -/
def Crowded (c : Client) (p : Pursuit) (rest : List PeerId) : Prop :=
  (∃ peer, c.Eligible p peer) ∧ ∀ peer, c.Eligible p peer → peer ∈ rest ∨ c.Full peer

/-- Since this generation was noted, no change has been told, and none has still to be told. -/
structure Quiet (c : Client) (seen : Nat) : Prop where
  current : seen = c.generation
  told : ∀ e, ¬ c.Pends e .generation

end Client

namespace Pursuit

/-- What a pursuit has found out about the peers since it noted the generation holds as long as
nothing changes. -/
def Heeds (c : Client) (p : Pursuit) : Prop :=
  match p.stage with
  | .ranking seen => seen ≤ c.generation
  | .offering seen rest => seen ≤ c.generation ∧ (c.Quiet seen → c.Crowded p rest)
  | .parked seen => seen ≤ c.generation ∧ (c.Quiet seen → c.Crowded p [])
  | .rechecking seen => seen ≤ c.generation
  | .lingering seen => seen ≤ c.generation ∧ (c.Quiet seen → ∀ peer, ¬ c.Eligible p peer)
  | _ => True

end Pursuit

namespace Client

variable {c c' : Client} {n seen : Nat} {p p' : Pursuit} {o : Option Pursuit} {a : Action}
  {effects : List Effect} {peer : PeerId} {r : Request} {rest : List PeerId}

/-- The list of eligible peers names all of them and no other. -/
theorem mem_eligible_iff (hfiled : c.registry.Filed) :
    peer ∈ c.eligible p ↔ c.Eligible p peer := by
  refine ⟨eligible_canServe hfiled, fun ⟨⟨record, hfind, hserves⟩, hnew⟩ => ?_⟩
  have hid : record.info.id = peer := hfiled.ids peer record hfind
  subst hid
  refine List.mem_map_of_mem (hfiled.mem_ranked.mpr ⟨hfind, ?_⟩)
  simp [Pursuit.wants, hserves, hnew]

/-- A peer that gives no place has none left. -/
theorem full_of_tryBegin
    (h : c.registry.tryBegin peer c.settings.maxInFlight.toNat = none) : c.Full peer := by
  intro record hfind
  simp only [Registry.tryBegin, hfind] at h
  split at h
  next => cases h
  next hfull => exact Nat.le_of_not_lt hfull

/-! ### What others do -/

/-- The same peers are known by the same announcements, and none has more places left. -/
structure Fills (c c' : Client) : Prop where
  info : ∀ peer, (c'.registry.find? peer).map PeerRecord.info =
    (c.registry.find? peer).map PeerRecord.info
  full : ∀ peer, c.Full peer → c'.Full peer

theorem fills_of_registry (hregistry : c'.registry = c.registry)
    (hsettings : c'.settings = c.settings) : c.Fills c' where
  info peer := by rw [hregistry]
  full peer hfull := by
    rw [Full, hregistry, hsettings]
    exact hfull

theorem fills_of_tryBegin {limit : Nat} (hbegun : c.registry.tryBegin peer limit = some c'.registry)
    (hsettings : c'.settings = c.settings) : c.Fills c' where
  info other := by
    rw [Registry.find?_tryBegin hbegun, Option.map_map]
    congr 1
    funext record
    simp only [Function.comp_apply]
    split <;> rfl
  full other hfull record hfind := by
    rw [Registry.find?_tryBegin hbegun] at hfind
    obtain ⟨old, hold, rfl⟩ := Option.map_eq_some_iff.mp hfind
    have hle : c'.settings.maxInFlight.toNat ≤ old.inFlight := hsettings ▸ hfull old hold
    split
    · exact Nat.le_succ_of_le hle
    · exact hle

/-- Taking places does not change what the peers have announced. -/
theorem Fills.canServe (h : c.Fills c') : c'.CanServe peer r ↔ c.CanServe peer r := by
  have hexists : ∀ d : Client, d.CanServe peer r ↔
      ∃ info, (d.registry.find? peer).map PeerRecord.info = some info ∧ info.canServe r = true := by
    intro d
    simp [CanServe]
  rw [hexists, hexists, h.info]

theorem Fills.eligible (h : c.Fills c') : c'.Eligible p peer ↔ c.Eligible p peer :=
  and_congr_left' h.canServe

/-- Full peers stay full while places are only taken. -/
theorem Fills.crowded (h : c.Fills c') (hcrowded : c.Crowded p rest) : c'.Crowded p rest := by
  obtain ⟨⟨peer, heligible⟩, hfull⟩ := hcrowded
  refine ⟨⟨peer, h.eligible.mpr heligible⟩, fun other hother => ?_⟩
  exact (hfull other (h.eligible.mp hother)).imp_right (h.full other)

theorem Stir.generation_le (h : c.Stir c') : c.generation ≤ c'.generation := by
  cases h with
  | still _ _ generation => exact generation.ge
  | begin _ _ generation => exact generation.ge
  | change _ _ _ generation => exact generation.ge
  | @tell _ _ e listener _ _ _ _ generation =>
    rw [generation]
    cases listener with
    | router => cases e <;> exact Nat.le_refl _
    | generation => exact Nat.le_succ _
    | pool => exact Nat.le_refl _
  | finish _ _ _ generation => exact generation.ge

/-- If nothing has changed after a step, nothing had changed before, and the step has taken at most a
place: every other change of the registry is one that the generation has yet to be told of. -/
theorem Stir.quiet (h : c.Stir c') (hsettings : c'.settings = c.settings)
    (hseen : seen ≤ c.generation) (hquiet : c'.Quiet seen) : c.Quiet seen ∧ c.Fills c' := by
  have hsame : seen = c.generation :=
    Nat.le_antisymm hseen (hquiet.current ▸ h.generation_le)
  have htold : ∀ e, ¬ c.Pends e .generation := by
    intro e hpends
    rcases h.pends hpends with hstill | ⟨now, hnext, _⟩
    · exact hquiet.told e hstill
    · -- the step would have moved the generation on
      have hnext : c'.generation = c.generation + 1 := hnext
      have hcurrent : seen = c'.generation := hquiet.current
      omega
  refine ⟨⟨hsame, htold⟩, ?_⟩
  cases h with
  | still registry => exact fills_of_registry registry hsettings
  | begin begun => exact fills_of_tryBegin begun hsettings
  | @change x reports registry notices =>
    -- an operation that changes anything leaves a notice of which the generation is not told yet
    have hnone : x.2 = [] := by
      by_contra hsome
      obtain ⟨e, hmem⟩ := List.exists_mem_of_ne_nil _ hsome
      apply hquiet.told e
      rw [Pends, notices]
      exact ⟨_, List.mem_append_right _ (List.mem_map_of_mem hmem), rfl, by simp [Notice.fresh]⟩
    exact fills_of_registry (registry.trans (reports.quiet hnone)) hsettings
  | tell _ _ registry => exact fills_of_registry registry hsettings
  | finish _ registry => exact fills_of_registry registry hsettings

/-- What a pursuit has found out holds on, whatever others do. -/
theorem Stir.heeds (h : c.Stir c') (hsettings : c'.settings = c.settings) (hheeds : p.Heeds c) :
    p.Heeds c' := by
  have hle : ∀ {seen : Nat}, seen ≤ c.generation → seen ≤ c'.generation := fun hseen =>
    Nat.le_trans hseen h.generation_le
  unfold Pursuit.Heeds at hheeds ⊢
  cases hstage : p.stage with
  | ranking seen =>
    rw [hstage] at hheeds
    exact hle hheeds
  | rechecking seen =>
    rw [hstage] at hheeds
    exact hle hheeds
  | offering seen rest =>
    rw [hstage] at hheeds
    refine ⟨hle hheeds.1, fun hquiet => ?_⟩
    obtain ⟨hbefore, hfills⟩ := h.quiet hsettings hheeds.1 hquiet
    exact hfills.crowded (hheeds.2 hbefore)
  | parked seen =>
    rw [hstage] at hheeds
    refine ⟨hle hheeds.1, fun hquiet => ?_⟩
    obtain ⟨hbefore, hfills⟩ := h.quiet hsettings hheeds.1 hquiet
    exact hfills.crowded (hheeds.2 hbefore)
  | lingering seen =>
    rw [hstage] at hheeds
    refine ⟨hle hheeds.1, fun hquiet peer heligible => ?_⟩
    obtain ⟨hbefore, hfills⟩ := h.quiet hsettings hheeds.1 hquiet
    exact hheeds.2 hbefore peer (hfills.eligible.mp heligible)
  | _ => trivial

end Client

/-! ### What a pursuit does -/

section

variable {c c' : Client} {n : Nat} {p p' : Pursuit} {o : Option Pursuit} {a : Action}
  {effects : List Effect}

/-- A pursuit notes the generation before it looks at the peers, and so what it sees then is what it
has found out since. -/
theorem Pursuit.Shift.heeds {stage : Pursuit.Stage} (h : p.Shift c n a stage effects)
    (hfiled : c.registry.Filed) (hheeds : p.Heeds c) :
    ({ p with stage := stage } : Pursuit).Heeds c := by
  have hknown : ∀ {stage : Pursuit.Stage}, p.stage = stage →
      ({ p with stage := stage } : Pursuit).Heeds c := by
    rintro stage rfl
    exact hheeds
  cases h with
  | look => exact Nat.le_refl c.generation
  | lookAgain => exact Nat.le_refl c.generation
  -- at first the rest are all eligible peers, and each refusal takes a full one from them
  | candidates stage some =>
    refine ⟨hknown stage, fun _ => ⟨?_, ?_⟩⟩
    · obtain ⟨peer, hmem⟩ := List.exists_mem_of_ne_nil _ some
      exact ⟨peer, (Client.mem_eligible_iff hfiled).mp hmem⟩
    · intro peer heligible
      exact .inl ((Client.mem_eligible_iff hfiled).mpr heligible)
  | busy stage busy =>
    obtain ⟨hseen, hcrowded⟩ := hknown stage
    refine ⟨hseen, fun hquiet => ?_⟩
    obtain ⟨heligible, hfull⟩ := hcrowded hquiet
    refine ⟨heligible, fun peer heligible => ?_⟩
    rcases hfull peer heligible with hmem | hfull
    · rcases List.mem_cons.mp hmem with rfl | hrest
      · exact .inr (Client.full_of_tryBegin busy)
      · exact .inl hrest
    · exact .inr hfull
  | park stage =>
    obtain ⟨hseen, hcrowded⟩ := hknown stage
    exact ⟨hseen, hcrowded⟩
  | linger stage nobody =>
    refine ⟨hknown stage, fun _ peer heligible => ?_⟩
    have hmem : peer ∈ c.eligible p := (Client.mem_eligible_iff hfiled).mpr heligible
    rw [nobody] at hmem
    cases hmem
  | _ => trivial

/-- Whatever becomes of a pursuit in a step, it heeds the registry after it. -/
theorem Client.Fate.heeds (h : c.Fate n c' o a effects (some p')) (hfiled : c.registry.Filed)
    (hheeds : ∀ p, o = some p → p.Heeds c) : p'.Heeds c := by
  cases h with
  | rest => exact hheeds _ rfl
  | @abort p => exact hheeds p rfl
  | shift shift => exact shift.heeds hfiled (hheeds _ rfl)
  | @release _ _ _ _ next _ proceeds =>
    cases next with
    | stop => cases proceeds
    | _ =>
      cases proceeds
      trivial
  | _ => trivial

end

/-! ### Whole runs -/

/-- No pursuit waits for a change of the registry where it could go on without one. -/
structure Client.WakeupsKept (c : Client) : Prop where
  /-- While a pursuit waits for a busy peer and nothing has changed, there are peers that it could
  ask, and all of them have as many requests as they may. -/
  parked : ∀ n p seen, c.pursuits.get? n = some p → p.parked? = some seen → c.Quiet seen →
    (∃ peer, c.Eligible p peer) ∧
      ∀ peer, c.Eligible p peer →
        ∃ record, c.registry.find? peer = some record ∧
          record.inFlight = c.settings.maxInFlight.toNat
  /-- While a pursuit waits for a peer to come and nothing has changed, there is none that it could
  ask. -/
  lingering : ∀ n p seen, c.pursuits.get? n = some p → p.lingering? = some seen → c.Quiet seen →
    ∀ peer, ¬ c.Eligible p peer

namespace Run

variable {s : ClientSettings} {past : List Moment} {c : Client}

/-- In every run, what the pursuits have found out holds as long as nothing changes. -/
theorem heeds {n : Nat} {p : Pursuit} (run : Run s past c)
    (hpursuit : c.pursuits.get? n = some p) : p.Heeds c := by
  induction run generalizing p with
  | start => cases hpursuit
  | @step past c c' a effects run hstep ih =>
    have hrule := Client.step_of_step? hstep
    have hfiled : c.registry.Filed := run.tallied.filed
    have hsettings : c'.settings = c.settings :=
      (run.step hstep).traced.settings.trans run.traced.settings.symm
    have hfate := hrule.fate n
    rw [hpursuit] at hfate
    have hnow : p.Heeds c := hfate.heeds hfiled fun q hq => ih hq
    exact (hrule.stir hfiled).heeds hsettings hnow

/-- In every run, a pursuit that waits for a change has nothing else to do. -/
theorem wakeups_kept (run : Run s past c) : c.WakeupsKept where
  parked n p seen hpursuit hparked hquiet := by
    have hheeds : p.Heeds c := run.heeds hpursuit
    rw [Pursuit.Heeds, Pursuit.stage_of_parked? hparked] at hheeds
    have hcrowded : c.Crowded p [] := hheeds.2 hquiet
    refine ⟨hcrowded.1, fun peer heligible => ?_⟩
    obtain ⟨record, hfind, _⟩ := heligible.1
    have hfull : c.Full peer := (hcrowded.2 peer heligible).resolve_left List.not_mem_nil
    have hle : record.inFlight ≤ c.settings.maxInFlight.toNat :=
      run.counted.settings ▸ (run.counted.counts peer record hfind).1
    exact ⟨record, hfind, Nat.le_antisymm hle (hfull record hfind)⟩
  lingering n p seen hpursuit hlingering hquiet := by
    have hheeds : p.Heeds c := run.heeds hpursuit
    rw [Pursuit.Heeds, Pursuit.stage_of_lingering? hlingering] at hheeds
    exact hheeds.2 hquiet

end Run

end

namespace Run

/-- The same where a peer may have one request only: the second flight waits until it is free, and the
third one until somebody comes who can serve it. -/
theorem wakeups_kept_of_busy_peer :
    ∃ past c p q,
      Run ⟨.default, .default, .default, { RetrievalSettings.default with maxInFlight := 1 }⟩ past c ∧
        c.generation = 1 ∧ c.notices = [] ∧
        c.pursuits.get? 2 = some p ∧ p.parked? = some 1 ∧
        c.pursuits.get? 3 = some q ∧ q.lingering? = some 1 ∧ c.WakeupsKept := by
  let settings : ClientSettings :=
    ⟨.default, .default, .default, { RetrievalSettings.default with maxInFlight := 1 }⟩
  let header : Header := ⟨.zero, 0, .zero, .zero, .zero, .zero, []⟩
  let actions : List Action :=
    [.register ⟨⟨[7]⟩, none, 2, [.body, .receipts], ⟨0, .zero⟩⟩, .notify 0 0, .notify 0 0,
      .notify 0 0, .notify 0 0, .call (.body header), .bind 0, .enter 0, .pursue 1, .pursue 1,
      .pursue 1, .call (.receipts header), .bind 1, .enter 1, .pursue 2, .pursue 2, .pursue 2,
      .pursue 2, .call (.account header []), .bind 2, .enter 2, .pursue 3, .pursue 3, .pursue 3,
      .pursue 3]
  have hruns : (Moment.replay actions [] (Client.empty settings)).any (fun x =>
      x.2.generation = 1 ∧ x.2.notices = [] ∧
        (x.2.pursuits.get? 2).bind Pursuit.parked? = some 1 ∧
        (x.2.pursuits.get? 3).bind Pursuit.lingering? = some 1) = true := by
    decide +kernel
  obtain ⟨⟨past, c⟩, hreplay, hends⟩ := (Option.any_eq_true _ _).mp hruns
  obtain ⟨hgeneration, hnotices, hparks, hlingers⟩ := of_decide_eq_true hends
  obtain ⟨p, hp, hparked⟩ := Option.bind_eq_some_iff.mp hparks
  obtain ⟨q, hq, hlingering⟩ := Option.bind_eq_some_iff.mp hlingers
  have hrun : Run settings past c := Run.start.replay hreplay
  exact ⟨past, c, p, q, hrun, hgeneration, hnotices, hp, hparked, hq, hlingering,
    wakeups_kept hrun⟩

end Run

end LightClient
