/-
Module: LightClient.Proofs.Retrieval.Capacity
Purpose: How many requests of a peer's present registration are under way: as many as its record
  counts, and as many more as it gave places back for requests of an earlier registration.
Main exports: Client.live, Moment.released?, strays, Client.Counted, Run.counted,
  Run.live_eq_inFlight_add_strays
-/
import LightClient.Proofs.Registry
import LightClient.Proofs.Retrieval.Runs
import LightClient.Simulation.Libraries

namespace LightClient

open Client (Action Effect)

section

variable [ItemCache] [DelaySeries]

/-- The number of pursuits that hold a place taken under this registration of the peer. -/
def Client.live (c : Client) (a : Assignment) : Nat :=
  c.pursuits.count fun p => p.assignment? = some a

/-- The place that a pursuit is about to give back. -/
def Pursuit.released? (p : Pursuit) : Option Assignment :=
  match p.stage with
  | .releasing held _ _ => some held
  | _ => none

/-- The place that is given back at a moment. -/
def Moment.released? (m : Moment) : Option Assignment :=
  match m.action with
  | .pursue n => (m.before.pursuits.get? n).bind Pursuit.released?
  | _ => none

/-- At this moment the registration gives back a place for a request of another registration of the
peer, and has one to give back. -/
def Moment.Stray (a : Assignment) (m : Moment) : Prop :=
  ∃ held record, m.released? = some held ∧ held.peer = a.peer ∧ held ≠ a ∧
    m.before.registry.find? a.peer = some record ∧ record.seq = a.registration ∧
      record.inFlight ≠ 0

/-- How many places more than it counts a registration has given away: one more whenever it gives
back a place for a request of another registration, and one less whenever a request of its own ends
and it counts none any more. -/
def strays (a : Assignment) : List Moment → Nat
  | [] => 0
  | m :: past =>
    match m.released?, m.before.registry.find? a.peer with
    | some held, some record =>
      if held.peer = a.peer ∧ record.seq = a.registration then
        if held = a then strays a past - (if record.inFlight = 0 then 1 else 0)
        else strays a past + (if record.inFlight = 0 then 0 else 1)
      else strays a past
    | _, _ => strays a past

/-- A moment matters to a registration only if a place at its peer is given back under it. -/
theorem strays_cons_of_not {a : Assignment} {m : Moment} {past : List Moment}
    (h : ∀ held record, m.released? = some held → m.before.registry.find? a.peer = some record →
      ¬(held.peer = a.peer ∧ record.seq = a.registration)) :
    strays a (m :: past) = strays a past := by
  rw [strays]
  split
  next held record hreleased hfind => rw [if_neg (h held record hreleased hfind)]
  next => rfl

/-- A step that gives no place back gives none away. -/
theorem strays_cons_of_none {a : Assignment} {m : Moment} {past : List Moment}
    (h : m.released? = none) : strays a (m :: past) = strays a past :=
  strays_cons_of_not fun held record hreleased => by
    rw [h] at hreleased
    cases hreleased

/-- A place given back under the registration is a stray if it was not its own and one was counted;
a place of its own takes a stray back if none was counted. -/
theorem strays_cons_of_some {a held : Assignment} {record : PeerRecord} {m : Moment}
    {past : List Moment} (hreleased : m.released? = some held)
    (hfind : m.before.registry.find? a.peer = some record) (hpeer : held.peer = a.peer)
    (hseq : record.seq = a.registration) :
    strays a (m :: past) =
      if held = a then strays a past - (if record.inFlight = 0 then 1 else 0)
      else strays a past + (if record.inFlight = 0 then 0 else 1) := by
  rw [strays, hreleased, hfind]
  exact if_pos ⟨hpeer, hseq⟩

/-- A registration that never gave back a place for another one has given away none too many. -/
theorem strays_eq_zero {a : Assignment} {past : List Moment} (h : ∀ m ∈ past, ¬ m.Stray a) :
    strays a past = 0 := by
  induction past with
  | nil => rfl
  | cons m past ih =>
    have hpast : strays a past = 0 := ih fun x hx => h x (List.mem_cons_of_mem _ hx)
    have hm := h m List.mem_cons_self
    unfold strays
    split
    next held record hreleased hfind =>
      split
      next hpresent =>
        split
        next => omega
        next hother =>
          split
          next => omega
          next hbusy =>
            exact absurd ⟨held, record, hreleased, hpresent.1, hother, hfind, hpresent.2, hbusy⟩ hm
      next => exact hpast
    next => exact hpast

namespace Client

/-- The records and the pursuits count the same places, up to those that were given back for
requests of earlier registrations. -/
structure Counted (s : RetrievalSettings) (past : List Moment) (c : Client) : Prop where
  settings : c.settings = s
  unique : c.pursuits.Unique
  numbers : c.pursuits.All fun n _ => n < c.nextFlight
  seqs : c.registry.peers.All fun _ record => record.seq < c.registry.nextSeq
  registrations : c.pursuits.All fun _ p => ∀ held, p.assignment? = some held →
    held.registration < c.registry.nextSeq
  fresh : ∀ a : Assignment, c.registry.nextSeq ≤ a.registration → strays a past = 0
  counts : c.registry.peers.All fun peer record =>
    record.inFlight ≤ s.maxInFlight.toNat ∧
      c.live ⟨peer, record.seq⟩ = record.inFlight + strays ⟨peer, record.seq⟩ past

namespace Counted

variable {s : RetrievalSettings} {past : List Moment} {c : Client} {n : Nat} {p : Pursuit}

/-- A new client has neither records nor pursuits. -/
theorem empty (s : ClientSettings) : (Client.empty s).Counted s.retrieval [] where
  settings := rfl
  unique := List.nodup_nil
  numbers := Table.All.empty
  seqs := Table.All.empty
  registrations := Table.All.empty
  fresh _ _ := rfl
  counts := Table.All.empty

/-- A moment that releases nothing leaves every count as it is. -/
theorem later {m : Moment} (h : c.Counted s past) (hm : m.released? = none) :
    c.Counted s (m :: past) where
  settings := h.settings
  unique := h.unique
  numbers := h.numbers
  seqs := h.seqs
  registrations := h.registrations
  fresh a ha := by rw [strays_cons_of_none hm, h.fresh a ha]
  counts := h.counts.imp fun _ _ _ hcount => by rw [strays_cons_of_none hm]; exact hcount

/-- No pursuit holds a place of a registration that has not been yet. -/
theorem live_eq_zero (h : c.Counted s past) {a : Assignment}
    (ha : c.registry.nextSeq ≤ a.registration) : c.live a = 0 := by
  refine Table.count_eq_zero h.unique (h.registrations.imp fun _ p _ hp => ?_)
  apply decide_eq_false
  intro hheld
  exact absurd (hp a hheld) (Nat.not_lt.mpr ha)

/-! ### Steps that neither take nor give back a place -/

/-- Only the registry, the pursuits and the next number of a flight matter. -/
theorem of_same {c' : Client} (h : c.Counted s past) (hsettings : c'.settings = c.settings)
    (hregistry : c'.registry = c.registry) (hpursuits : c'.pursuits = c.pursuits)
    (hnext : c'.nextFlight = c.nextFlight) : c'.Counted s past where
  settings := hsettings.trans h.settings
  unique := hpursuits ▸ h.unique
  numbers := by
    rw [hpursuits, hnext]
    exact h.numbers
  seqs := hregistry ▸ h.seqs
  registrations := by
    rw [hpursuits, hregistry]
    exact h.registrations
  fresh := hregistry ▸ h.fresh
  counts := by
    rw [hregistry]
    unfold live
    rw [hpursuits]
    exact h.counts

/-- A change that keeps every pursuit's place keeps the counts. -/
theorem modify {f : Pursuit → Pursuit} (h : c.Counted s past)
    (hsame : ∀ p, c.pursuits.get? n = some p → (f p).assignment? = p.assignment?) :
    ({ c with pursuits := c.pursuits.modify n f } : Client).Counted s past where
  settings := h.settings
  unique := h.unique.modify
  numbers := h.numbers.modify fun q hq => h.numbers n q hq
  seqs := h.seqs
  registrations := h.registrations.modify fun q hq held hheld =>
    h.registrations n q hq held (hsame q hq ▸ hheld)
  fresh := h.fresh
  counts := h.counts.imp fun _ _ _ hcount =>
    ⟨hcount.1, (Table.count_modify_of_same fun q hq => by rw [hsame q hq]).trans hcount.2⟩

/-- A pursuit that keeps its place changes no count. -/
theorem move {stage : Pursuit.Stage} (h : c.Counted s past)
    (hpursuit : c.pursuits.get? n = some p)
    (hsame : ({ p with stage := stage } : Pursuit).assignment? = p.assignment?) :
    (c.move n stage).Counted s past :=
  h.modify fun q hq => by
    rw [hpursuit] at hq
    cases hq
    exact hsame

/-- A pursuit without a place ends, and no count changes. -/
theorem retire (h : c.Counted s past) (hpursuit : c.pursuits.get? n = some p)
    (hnone : p.assignment? = none) : (c.retire n).Counted s past where
  settings := h.settings
  unique := h.unique.erase
  numbers := h.numbers.erase
  seqs := h.seqs
  registrations := h.registrations.erase
  fresh := h.fresh
  counts := h.counts.imp fun peer record _ hcount => by
    have hlive := Table.count_erase
      (P := fun q : Pursuit => decide (q.assignment? = some ⟨peer, record.seq⟩)) h.unique hpursuit
    rw [hnone] at hlive
    exact ⟨hcount.1, hlive.trans hcount.2⟩

/-- A fresh pursuit holds no place. -/
theorem begin (h : c.Counted s past) (flights : Flights) (r : Request) :
    ({ c with
      flights := flights
      nextFlight := c.nextFlight + 1
      pursuits := c.pursuits.insert c.nextFlight (Pursuit.fresh r) } : Client).Counted s past where
  settings := h.settings
  unique := h.unique.insert
  numbers := Table.All.insert (h.numbers.imp fun _ _ _ hn => Nat.lt_succ_of_lt hn)
    (Nat.lt_succ_self _)
  seqs := h.seqs
  registrations := h.registrations.insert fun _ hheld => nomatch hheld
  fresh := h.fresh
  counts := h.counts.imp fun peer record _ hcount => by
    have hnone : c.pursuits.get? c.nextFlight = none := by
      cases hget : c.pursuits.get? c.nextFlight with
      | none => rfl
      | some q => exact absurd (h.numbers _ q hget) (Nat.lt_irrefl _)
    have hlive := Table.count_insert_of_none (v := Pursuit.fresh r)
      (P := fun q : Pursuit => decide (q.assignment? = some ⟨peer, record.seq⟩)) hnone
    exact ⟨hcount.1, hlive.trans hcount.2⟩

/-- A departing caller aborts a pursuit at most, which keeps its place until it gives it up. -/
theorem depart {x : Caller} {stage : Caller.Stage} (h : c.Counted s past) :
    (c.depart n x stage).Counted s past := by
  have hleave : ∀ seat, (c.leave seat).Counted s past := by
    intro seat
    unfold Client.leave
    simp only
    split
    · have hleft := h.modify (n := seat.flight) (f := fun p => { p with aborted := true })
        fun _ _ => rfl
      exact hleft.of_same rfl rfl rfl rfl
    · exact h.of_same rfl rfl rfl rfl
  unfold Client.depart
  split
  next seat _ => exact (hleave seat).of_same rfl rfl rfl rfl
  next => exact h.of_same rfl rfl rfl rfl

/-- No caller takes a place or gives one back. -/
theorem callerStep {x : Caller} {a : Action} {c' : Client} {effects : List Effect}
    (h : c.Counted s past) (hstep : c.CallerStep n x a c' effects) : c'.Counted s past := by
  cases hstep with
  | shift => exact h.of_same rfl rfl rfl rfl
  | cancel => exact h.of_same rfl rfl rfl rfl
  | drop => exact h.depart
  | quit => exact h.depart
  | join => exact h.of_same rfl rfl rfl rfl
  | stored => exact h.of_same rfl rfl rfl rfl
  | begin => exact (h.begin c.flights _).of_same rfl rfl rfl rfl

/-! ### Places taken and given back -/

/-- A pursuit takes a place: the record and the pursuits count one more. -/
theorem assign {seen : Nat} {peer : PeerId} {rest : List PeerId} {registry : Registry}
    (h : c.Counted s past) (hpursuit : c.pursuits.get? n = some p)
    (hstage : p.stage = .offering seen (peer :: rest))
    (hbegun : c.registry.tryBegin peer c.settings.maxInFlight.toNat = some registry) :
    ({ c with
      registry := registry
      pursuits := c.pursuits.insert n
        (p.assign ⟨peer, ((registry.find? peer).map PeerRecord.seq).getD 0⟩) } :
      Client).Counted s past := by
  obtain ⟨old, hfind, hfree, hregistry⟩ := Registry.tryBegin_eq_some hbegun
  rw [Registry.seq_tryBegin hbegun hfind]
  subst hregistry
  -- among the pursuits, one more holds a place under this registration and no other
  have hlive : ∀ a : Assignment,
      (c.pursuits.insert n (p.assign ⟨peer, old.seq⟩)).count
        (fun q => decide (q.assignment? = some a)) =
          c.live a + if ⟨peer, old.seq⟩ = a then 1 else 0 := by
    intro a
    have hcount := Table.count_insert_of_get? (w := p.assign ⟨peer, old.seq⟩)
      (P := fun q : Pursuit => decide (q.assignment? = some a)) hpursuit
    have hbefore : p.assignment? = none := by rw [Pursuit.assignment?, hstage]
    have hafter : (p.assign ⟨peer, old.seq⟩).assignment? = some ⟨peer, old.seq⟩ := rfl
    simp only [hbefore, hafter, decide_eq_true_eq, reduceCtorEq, if_false,
      Option.some.injEq] at hcount
    exact hcount
  refine ⟨h.settings, h.unique.insert, h.numbers.insert (h.numbers n p hpursuit),
    h.seqs.insert (h.seqs peer old hfind), h.registrations.insert ?_, h.fresh, ?_⟩
  · intro held hheld
    cases hheld
    exact h.seqs peer old hfind
  · intro other record hrecord
    rw [Table.get?_insert] at hrecord
    unfold live
    rw [hlive]
    split at hrecord
    next hpeer =>
      cases hrecord
      subst hpeer
      obtain ⟨_, hcount⟩ := h.counts peer old hfind
      rw [h.settings] at hfree
      refine ⟨hfree, ?_⟩
      rw [if_pos rfl, hcount]
      exact Nat.add_right_comm _ _ 1
    next hpeer =>
      have hne : (⟨peer, old.seq⟩ : Assignment) ≠ ⟨other, record.seq⟩ := fun heq =>
        hpeer (Assignment.mk.inj heq).1
      rw [if_neg hne]
      exact h.counts other record hrecord

/-- The places that are held once a pursuit has given its own back. -/
theorem live_proceed {held : Assignment} {next : Pursuit.Next} (hunique : c.pursuits.Unique)
    (hpursuit : c.pursuits.get? n = some p) (hheld : p.assignment? = some held) (a : Assignment) :
    (c.proceed n next).live a + (if held = a then 1 else 0) = c.live a := by
  have hmove : ∀ stage, ({ p with stage := stage } : Pursuit).assignment? = none →
      (c.move n stage).live a + (if held = a then 1 else 0) = c.live a := by
    intro stage hnone
    have hcount := Table.count_modify (f := fun q => { q with stage := stage })
      (P := fun q : Pursuit => decide (q.assignment? = some a)) hpursuit
    simp only [hnone, hheld, decide_eq_true_eq, reduceCtorEq, if_false, Option.some.injEq] at hcount
    exact hcount
  cases next with
  | retry => exact hmove _ rfl
  | finish result => exact hmove _ rfl
  | stop =>
    have hcount := Table.count_erase
      (P := fun q : Pursuit => decide (q.assignment? = some a)) hunique hpursuit
    simp only [hheld, decide_eq_true_eq, Option.some.injEq] at hcount
    exact hcount

/-- What holds of the pursuits still holds once one of them has given its place back, if it does not
depend on the stage. -/
theorem all_proceed {P : Nat → Pursuit → Prop} {next : Pursuit.Next} (h : c.pursuits.All P)
    (hstage : ∀ stage p, ({ p with stage := stage } : Pursuit).assignment? = none → P n p →
      P n { p with stage := stage }) : (c.proceed n next).pursuits.All P := by
  cases next with
  | retry => exact h.modify fun q hq => hstage _ q rfl (h n q hq)
  | finish result => exact h.modify fun q hq => hstage _ q rfl (h n q hq)
  | stop => exact h.erase

/-- The numbers of pursuits stay distinct when a flight goes on. -/
theorem unique_proceed {next : Pursuit.Next} (h : c.pursuits.Unique) :
    (c.proceed n next).pursuits.Unique := by
  cases next with
  | retry => exact Table.Unique.modify h
  | finish result => exact Table.Unique.modify h
  | stop => exact Table.Unique.erase h

section

variable {d : Client} {m : Moment} {held : Assignment}

/-- A place that is given back to one peer leaves the counts at the others as they were. -/
theorem counts_elsewhere {peer : PeerId} {record : PeerRecord} (h : c.Counted s past)
    (hreleased : m.released? = some held)
    (hlive : ∀ a, d.live a + (if held = a then 1 else 0) = c.live a)
    (hpeer : held.peer ≠ peer) (hfind : c.registry.find? peer = some record) :
    record.inFlight ≤ s.maxInFlight.toNat ∧
      d.live ⟨peer, record.seq⟩ = record.inFlight + strays ⟨peer, record.seq⟩ (m :: past) := by
  obtain ⟨hcap, hcount⟩ := h.counts peer record hfind
  have hne : held ≠ ⟨peer, record.seq⟩ := fun heq => hpeer (congrArg Assignment.peer heq)
  have hkept := hlive ⟨peer, record.seq⟩
  rw [if_neg hne, Nat.add_zero] at hkept
  refine ⟨hcap, hkept.trans (hcount.trans ?_)⟩
  rw [strays_cons_of_not]
  rintro other _ hother - ⟨heq, -⟩
  rw [hreleased] at hother
  cases hother
  exact hpeer heq

/-- A place that is given back is one less in the record of the peer. Among the places that are held
under its registration it is one less only if it was one of them. -/
theorem counts_here {old : PeerRecord} (h : c.Counted s past) (hbefore : m.before = c)
    (hreleased : m.released? = some held)
    (hlive : ∀ a, d.live a + (if held = a then 1 else 0) = c.live a)
    (hfind : c.registry.find? held.peer = some old) :
    old.inFlight - 1 ≤ s.maxInFlight.toNat ∧
      d.live ⟨held.peer, old.seq⟩ =
        old.inFlight - 1 + strays ⟨held.peer, old.seq⟩ (m :: past) := by
  subst hbefore
  obtain ⟨hcap, hcount⟩ := h.counts _ old hfind
  have hkept := hlive ⟨held.peer, old.seq⟩
  rw [strays_cons_of_some (a := ⟨held.peer, old.seq⟩) hreleased hfind rfl rfl]
  refine ⟨by omega, ?_⟩
  split
  next hown =>
    rw [if_pos hown] at hkept
    split <;> omega
  next hstray =>
    rw [if_neg hstray] at hkept
    split <;> omega

/-- A pursuit gives its place back. -/
theorem release {outcome : Outcome} {next : Pursuit.Next} {effects : List Effect}
    (h : c.Counted s past) (hpursuit : c.pursuits.get? n = some p)
    (hstage : p.stage = .releasing held outcome next) :
    ((c.report held.peer outcome).1.proceed n next).Counted s
      (⟨c, .pursue n, effects⟩ :: past) := by
  have hheld : p.assignment? = some held := by rw [Pursuit.assignment?, hstage]
  have hreleased : (⟨c, .pursue n, effects⟩ : Moment).released? = some held := by
    simp only [Moment.released?, hpursuit, Option.bind_some, Pursuit.released?, hstage]
  have hregistry : ((c.report held.peer outcome).1.proceed n next).registry =
      (c.registry.record held.peer outcome).1 := by cases next <;> rfl
  have hflight : ((c.report held.peer outcome).1.proceed n next).nextFlight = c.nextFlight := by
    cases next <;> rfl
  have hlive : ∀ a, ((c.report held.peer outcome).1.proceed n next).live a +
      (if held = a then 1 else 0) = c.live a :=
    live_proceed (c := (c.report held.peer outcome).1) h.unique hpursuit hheld
  have hnumbers : ((c.report held.peer outcome).1.proceed n next).pursuits.All
      fun m _ => m < c.nextFlight :=
    all_proceed (c := (c.report held.peer outcome).1) h.numbers fun _ _ _ hp => hp
  have hregistrations : ((c.report held.peer outcome).1.proceed n next).pursuits.All
      fun _ q => ∀ a, q.assignment? = some a → a.registration < c.registry.nextSeq :=
    all_proceed (c := (c.report held.peer outcome).1) h.registrations
      fun _ _ hnone _ _ ha => by cases hnone.symm.trans ha
  have hfresh : ∀ a : Assignment, c.registry.nextSeq ≤ a.registration →
      strays a (⟨c, .pursue n, effects⟩ :: past) = 0 := by
    intro a ha
    rw [strays_cons_of_not, h.fresh a ha]
    rintro _ record _ hfind ⟨-, hseq⟩
    have hlt : record.seq < c.registry.nextSeq := h.seqs _ record hfind
    omega
  have hsettings : ((c.report held.peer outcome).1.proceed n next).settings = s := by
    cases next <;> exact h.settings
  rcases Registry.record_cases c.registry held.peer outcome with
    ⟨hnone, heq⟩ | ⟨old, hfind, ⟨_, heq⟩ | ⟨_, heq⟩⟩
  all_goals
    rw [heq] at hregistry
    refine ⟨hsettings, unique_proceed h.unique, hflight ▸ hnumbers, ?_, ?_, ?_, ?_⟩ <;>
      rw [hregistry]
  -- The peer is gone.
  · exact h.seqs
  · exact hregistrations
  · exact hfresh
  · intro peer record hrecord
    refine counts_elsewhere h hreleased hlive (fun hpeer => ?_) hrecord
    subst hpeer
    cases hnone.symm.trans hrecord
  -- The peer is evicted.
  · exact h.seqs.erase
  · exact hregistrations
  · exact hfresh
  · intro peer record hrecord
    rw [Table.get?_erase] at hrecord
    split at hrecord
    next => cases hrecord
    next hpeer => exact counts_elsewhere h hreleased hlive hpeer hrecord
  -- The record of the peer takes the outcome up.
  · apply h.seqs.insert
    rw [PeerRecord.seq_after]
    exact h.seqs _ old hfind
  · exact hregistrations
  · exact hfresh
  · intro peer record hrecord
    rw [Table.get?_insert] at hrecord
    split at hrecord
    next hpeer =>
      cases hrecord
      subst hpeer
      rw [PeerRecord.seq_after, PeerRecord.inFlight_after]
      exact counts_here h rfl hreleased hlive hfind
    next hpeer => exact counts_elsewhere h hreleased hlive hpeer hrecord

end

/-! ### Changes of the registry -/

/-- A record that keeps its registration and its count can say anything else. -/
theorem renew {peer : PeerId} {old new : PeerRecord} {events : List Registry.Event}
    (h : c.Counted s past) (hfind : c.registry.find? peer = some old) (hseq : new.seq = old.seq)
    (hinFlight : new.inFlight = old.inFlight) :
    (c.change ({ c.registry with peers := c.registry.peers.insert peer new }, events)).1.Counted
      s past where
  settings := h.settings
  unique := h.unique
  numbers := h.numbers
  seqs := h.seqs.insert (hseq ▸ h.seqs peer old hfind)
  registrations := h.registrations
  fresh := h.fresh
  counts := Table.All.insert h.counts (by rw [hseq, hinFlight]; exact h.counts peer old hfind)

/-- The removal of a peer takes its record out, with all that was counted there. -/
theorem remove {peer : PeerId} {events : List Registry.Event} (h : c.Counted s past) :
    (c.change ({ c.registry with peers := c.registry.peers.erase peer }, events)).1.Counted
      s past where
  settings := h.settings
  unique := h.unique
  numbers := h.numbers
  seqs := h.seqs.erase
  registrations := h.registrations
  fresh := h.fresh
  counts := Table.All.erase h.counts

/-- Nobody holds a place under a new registration. -/
theorem enroll {info : PeerInfo} {events : List Registry.Event} (h : c.Counted s past) :
    (c.change ({ c.registry with
      peers := c.registry.peers.insert info.id (PeerRecord.fresh info c.registry.nextSeq)
      nextSeq := c.registry.nextSeq + 1 }, events)).1.Counted s past where
  settings := h.settings
  unique := h.unique
  numbers := h.numbers
  seqs := Table.All.insert (h.seqs.imp fun _ _ _ hseq => Nat.lt_succ_of_lt hseq)
    (Nat.lt_succ_self _)
  registrations := h.registrations.imp fun _ _ _ hp held hheld =>
    Nat.lt_succ_of_lt (hp held hheld)
  fresh a ha := h.fresh a (Nat.le_of_succ_le ha)
  counts := Table.All.insert h.counts (by
    refine ⟨Nat.zero_le _, ?_⟩
    have hlive : c.live ⟨info.id, c.registry.nextSeq⟩ = 0 := h.live_eq_zero (Nat.le_refl _)
    rw [h.fresh ⟨info.id, (PeerRecord.fresh info c.registry.nextSeq).seq⟩ (Nat.le_refl _)]
    exact hlive)

/-- A registration changes no count of another one. -/
theorem register {info : PeerInfo} (h : c.Counted s past) :
    (c.change (c.registry.register info)).1.Counted s past := by
  rcases Registry.register_cases c.registry info with ⟨old, hfind, heq⟩ | ⟨_, heq⟩
  · rw [heq]
    exact h.renew hfind rfl rfl
  · rw [heq]
    exact h.enroll

/-- With the record of a peer its count is gone. -/
theorem unregister {peer : PeerId} (h : c.Counted s past) :
    (c.change (c.registry.unregister peer)).1.Counted s past := by
  rcases Registry.unregister_cases c.registry peer with ⟨_, _, heq⟩ | ⟨_, heq⟩
  · rw [heq]
    exact h.remove
  · rw [heq]
    exact h.of_same rfl rfl rfl rfl

/-- An announcement changes the head of a record and nothing that is counted there. -/
theorem announce {peer : PeerId} {head : Head} (h : c.Counted s past) :
    (c.change (c.registry.announce peer head)).1.Counted s past := by
  rcases Registry.announce_cases c.registry peer head with ⟨old, hfind, heq⟩ | ⟨_, heq⟩
  · rw [heq]
    exact h.renew hfind rfl rfl
  · rw [heq]
    exact h.of_same rfl rfl rfl rfl

/-- A notice changes no record. -/
theorem notify {now index : Nat} {c' : Client} (h : c.Counted s past)
    (htold : c.notify now index = some c') : c'.Counted s past := by
  have htell : ∀ {d : Client} {e : Registry.Event} {listener : Listener}, d.Counted s past →
      (d.tell now e listener).Counted s past := by
    intro d e listener hd
    cases listener with
    | router => cases e <;> exact hd.of_same rfl rfl rfl rfl
    | generation => exact hd.of_same rfl rfl rfl rfl
    | pool => exact hd.of_same rfl rfl rfl rfl
  unfold Client.notify at htold
  split at htold
  next => cases htold
  next =>
    cases htold
    exact h.of_same rfl rfl rfl rfl
  next =>
    cases htold
    exact htell (h.of_same rfl rfl rfl rfl)

/-! ### Every step -/

/-- A step of a pursuit gives a place back only if the pursuit was about to. -/
theorem released?_eq_none {a : Action} {effects : List Effect}
    (hpursuit : c.pursuits.get? n = some p) (hflight : a.flight? = some n)
    (hstage : p.released? = none) : (⟨c, a, effects⟩ : Moment).released? = none := by
  cases a with
  | pursue m =>
    cases hflight
    simp only [Moment.released?, hpursuit, Option.bind_some, hstage]
  | _ => rfl

/-- A pursuit that does not give its place back leaves the counts as they were. -/
theorem pursuitStep {a : Action} {c' : Client} {effects : List Effect} (h : c.Counted s past)
    (hpursuit : c.pursuits.get? n = some p) (hstep : c.PursuitStep n p a c' effects) :
    c'.Counted s (⟨c, a, effects⟩ :: past) := by
  cases hstep with
  | shift shift =>
    have hstage : p.released? = none := by cases shift <;> simp only [Pursuit.released?, *]
    have hlater : c.Counted s (⟨c, a, effects⟩ :: past) :=
      h.later (released?_eq_none hpursuit shift.flight? hstage)
    exact hlater.move hpursuit shift.assignment?
  | assign stage begun =>
    have hstage : p.released? = none := by rw [Pursuit.released?, stage]
    exact (h.later (released?_eq_none hpursuit rfl hstage)).assign hpursuit stage begun
  | @register held stage =>
    have hstage : p.released? = none := by rw [Pursuit.released?, stage]
    have hrouted : ({ c with
        router := (c.router.register held.peer p.request.kind).2 } : Client).Counted s
          (⟨c, .pursue n, []⟩ :: past) :=
      (h.later (released?_eq_none hpursuit rfl hstage)).of_same rfl rfl rfl rfl
    apply hrouted.move hpursuit
    simp only [Pursuit.assignment?, stage]
  | @conclude _ held t outcome next conclusion =>
    have hstage : p.released? = none := by cases conclusion <;> simp only [Pursuit.released?, *]
    have hrouted : ({ c with
        router := (c.router.forget t.id).discard t } : Client).Counted s (⟨c, a, []⟩ :: past) :=
      (h.later (released?_eq_none hpursuit conclusion.flight? hstage)).of_same rfl rfl rfl rfl
    exact hrouted.move hpursuit conclusion.assignment?.symm
  -- the one rule by which a place is given back
  | release stage => exact h.release hpursuit stage
  | @land result stage =>
    have hstage : p.released? = none := by rw [Pursuit.released?, stage]
    have hnone : p.assignment? = none := by rw [Pursuit.assignment?, stage]
    have hlater : c.Counted s (⟨c, .pursue n, []⟩ :: past) :=
      h.later (released?_eq_none hpursuit rfl hstage)
    unfold Client.land
    split
    next f _ =>
      have hlanded : ∀ store : ItemStore, ({ c with
          store := store
          flights := c.flights.erase p.key } : Client).Counted s (⟨c, .pursue n, []⟩ :: past) :=
        fun _ => hlater.of_same rfl rfl rfl rfl
      apply (hlanded _).move hpursuit
      exact hnone.symm
    next => exact hlater.retire hpursuit hnone
  | @hand result waiters waiter caller stage =>
    have hnone : p.assignment? = none := by rw [Pursuit.assignment?, stage]
    have hhanded : (c.hand ⟨p.key, n, waiter⟩ caller result).Counted s
        (⟨c, .serve n waiter, []⟩ :: past) := by
      rw [hand_eq]
      exact (h.later rfl).of_same rfl rfl rfl rfl
    rw [hand_eq] at hhanded ⊢
    exact hhanded.move hpursuit hnone.symm
  | retire stage =>
    have hstage : p.released? = none := by rw [Pursuit.released?, stage]
    have hnone : p.assignment? = none := by rw [Pursuit.assignment?, stage]
    exact (h.later (released?_eq_none hpursuit rfl hstage)).retire hpursuit hnone
  | stop idle aborted =>
    exact (h.later rfl).retire hpursuit idle.assignment?

/-- One step, whoever makes it, keeps the count of places exact up to strays. -/
theorem step {a : Action} {c' : Client} {effects : List Effect} (h : c.Counted s past)
    (hstep : c.Step a c' effects) : c'.Counted s (⟨c, a, effects⟩ :: past) := by
  cases hstep with
  | call query => exact (h.later rfl).of_same rfl rfl rfl rfl
  | register info => exact (h.later rfl).register
  | unregister peer => exact (h.later rfl).unregister
  | announce peer head => exact (h.later rfl).announce
  | notify htold => exact (h.later rfl).notify htold
  | receive => exact (h.later rfl).of_same rfl rfl rfl rfl
  | caller _ hstep =>
    have hcaller : (⟨c, a, effects⟩ : Moment).released? = none := by
      cases hstep with
      | shift shift => cases shift <;> rfl
      | _ => rfl
    exact (h.later hcaller).callerStep hstep
  | pursuit hpursuit hstep => exact h.pursuitStep hpursuit hstep

end Counted

end Client

namespace Run

variable {s : ClientSettings} {past : List Moment} {c : Client}

/-- In every run the records and the pursuits count the same places, up to the strays. -/
theorem counted (run : Run s past c) : c.Counted s.retrieval past :=
  run.keeps (Client.Counted.empty s) fun h hstep => h.step hstep

/-- The record of a peer never counts more requests than are allowed. The requests under way that
were assigned under its present registration are as many as it counts, and as many more as it gave
places back for requests of other registrations; so they are within the limit as long as it never
did. -/
theorem live_eq_inFlight_add_strays (run : Run s past c) {peer : PeerId} {record : PeerRecord}
    (hfind : c.registry.find? peer = some record) :
    record.inFlight ≤ s.retrieval.maxInFlight.toNat ∧
      c.live ⟨peer, record.seq⟩ = record.inFlight + strays ⟨peer, record.seq⟩ past ∧
      (c.live ⟨peer, record.seq⟩ ≤ s.retrieval.maxInFlight.toNat ↔
        strays ⟨peer, record.seq⟩ past ≤ s.retrieval.maxInFlight.toNat - record.inFlight) ∧
      ((∀ m ∈ past, ¬ m.Stray ⟨peer, record.seq⟩) →
        c.live ⟨peer, record.seq⟩ ≤ s.retrieval.maxInFlight.toNat) := by
  obtain ⟨hcap, hcount⟩ := run.counted.counts peer record hfind
  refine ⟨hcap, hcount, by omega, fun hnone => ?_⟩
  rw [hcount, strays_eq_zero hnone]
  exact hcap

end Run

end

namespace Run

/-- Of one place at a peer, two requests are made: a request of its earlier registration ends late,
and gives back the place that a request of the present one holds. -/
theorem exists_two_live :
    ∃ past c record,
      Run ⟨.default, .default, .default, { RetrievalSettings.default with maxInFlight := 1 }⟩ past c ∧
        c.registry.find? ⟨[7]⟩ = some record ∧ c.live ⟨⟨[7]⟩, record.seq⟩ = 2 := by
  let settings : ClientSettings :=
    ⟨.default, .default, .default, { RetrievalSettings.default with maxInFlight := 1 }⟩
  let header : Header := ⟨.zero, 0, .zero, .zero, .zero, .zero, []⟩
  let peer : PeerInfo := ⟨⟨[7]⟩, none, 2, [.body, .receipts, .code], ⟨0, .zero⟩⟩
  let actions : List Action :=
    [.register peer, .call (.body header), .bind 0, .enter 0, .pursue 1, .pursue 1, .pursue 1,
      .pursue 1, .pursue 1, .pursue 1, .unregister ⟨[7]⟩, .register peer, .call (.receipts header),
      .bind 1, .enter 1, .pursue 2, .pursue 2, .pursue 2, .pursue 2, .pursue 2, .pursue 2, .drop 0,
      .stop 1, .pursue 1, .call (.code header .zero), .bind 2, .enter 2, .pursue 3, .pursue 3,
      .pursue 3]
  have hruns : ((Moment.replay actions [] (Client.empty settings)).bind fun x =>
      (x.2.registry.find? ⟨[7]⟩).map fun record => x.2.live ⟨⟨[7]⟩, record.seq⟩) = some 2 := by
    decide +kernel
  obtain ⟨⟨past, c⟩, hreplay, hlive⟩ := Option.bind_eq_some_iff.mp hruns
  obtain ⟨record, hfind, hlive⟩ := Option.map_eq_some_iff.mp hlive
  exact ⟨past, c, record, Run.start.replay hreplay, hfind, hlive⟩

/-- The same for a peer whose place was given away twice. -/
theorem live_eq_inFlight_add_strays_of_return :
    ∃ past c record,
      Run ⟨.default, .default, .default, { RetrievalSettings.default with maxInFlight := 1 }⟩ past c ∧
        c.registry.find? ⟨[7]⟩ = some record ∧ c.live ⟨⟨[7]⟩, record.seq⟩ = 2 ∧
        record.inFlight ≤ 1 ∧
        c.live ⟨⟨[7]⟩, record.seq⟩ = record.inFlight + strays ⟨⟨[7]⟩, record.seq⟩ past ∧
        (c.live ⟨⟨[7]⟩, record.seq⟩ ≤ 1 ↔
          strays ⟨⟨[7]⟩, record.seq⟩ past ≤ 1 - record.inFlight) ∧
        ((∀ m ∈ past, ¬ m.Stray ⟨⟨[7]⟩, record.seq⟩) → c.live ⟨⟨[7]⟩, record.seq⟩ ≤ 1) := by
  obtain ⟨past, c, record, hrun, hfind, hlive⟩ := exists_two_live
  exact ⟨past, c, record, hrun, hfind, hlive, live_eq_inFlight_add_strays hrun hfind⟩

/-- The requests under way of a peer's present registration can be more than are allowed. -/
theorem live_exceeds_limit :
    ¬ ∀ (s : ClientSettings) (past : List Moment) (c : Client) (peer : PeerId)
        (record : PeerRecord), Run s past c → c.registry.find? peer = some record →
      c.live ⟨peer, record.seq⟩ ≤ s.retrieval.maxInFlight.toNat := by
  intro hall
  obtain ⟨past, c, record, hrun, hfind, hlive⟩ := exists_two_live
  have hle : c.live ⟨⟨[7]⟩, record.seq⟩ ≤ 1 := hall _ past c ⟨[7]⟩ record hrun hfind
  omega

end Run

end LightClient
