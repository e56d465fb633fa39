/-
Module: LightClient.Proofs.Retrieval.Provenance
Purpose: Where the items that calls return come from: a peer delivered each of them for a request
  that was sent to it, and the reply was checked against the root that the query is tied to.
Main exports: Seen, Issued, Dispatched, Received, Proven, Bound, Client.Traced, Client.Sourced,
  Run.traced, Run.sourced, Run.returned_item_proven
-/
import LightClient.Proofs.ItemStore
import LightClient.Proofs.Retrieval.Runs
import LightClient.Proofs.Router
import LightClient.Proofs.Simulation.Libraries

namespace LightClient

open Client (Action Effect)

/-! ### What callers are told at once -/

/-- The one answer that is known at once is the empty code. -/
theorem Query.of_atOnce {q : Query} {item : Item} (h : q.atOnce = some item) :
    ∃ header, q = .code header (sha256 []) ∧ item = .code [] := by
  unfold Query.atOnce at h
  split at h
  next header codeHash =>
    split at h
    next hempty =>
      cases h
      exact ⟨header, by rw [hempty], rfl⟩
    next => cases h
  next => cases h

namespace Caller

theorem stage_of_result? {x : Caller} {result : Retrieved} (h : x.result? = some result) :
    x.stage = .returned result := by
  unfold Caller.result? at h
  split at h
  next found hstage => rw [hstage, Option.some.inj h]
  next => cases h

/-- A root that is accepted was confirmed for the section. -/
theorem confirmed_of_accept {trie : HelperTrie} {index : UInt64} {answer : SectionRoots.Answer}
    {root : Digest} (h : SectionRoots.accept trie index answer = .ok root) :
    answer = .ok (some ⟨index, root, true⟩) := by
  unfold SectionRoots.accept at h
  split at h
  · cases h
  · split at h
    next trusted hconfirmed =>
      obtain ⟨sectionIndex, root', confirmed⟩ := trusted
      cases h
      obtain ⟨rfl, rfl⟩ := hconfirmed
      rfl
    next => cases h
  · cases h

end Caller

section

variable [ItemCache] [DelaySeries]

/-! ### What has happened in a run -/

/-- A moment of this kind has been. -/
def Seen (past : List Moment) (kind : Moment → Prop) : Prop :=
  ∃ m ∈ past, kind m

theorem Seen.later {past : List Moment} {kind : Moment → Prop} {m : Moment}
    (h : Seen past kind) : Seen (m :: past) kind := by
  obtain ⟨x, hx, hkind⟩ := h
  exact ⟨x, List.mem_cons_of_mem _ hx, hkind⟩

/-- A caller has gone to look for the answer to the request. -/
def Issued (past : List Moment) (r : Request) : Prop :=
  Seen past fun m => ∃ n x, m.action = .enter n ∧ m.before.callers.get? n = some x ∧
    x.stage = .bound r

/-- The request has been handed to the transport for the peer, under the number of the ticket. -/
def Dispatched (past : List Moment) (r : Request) (peer : PeerId) (t : Ticket) : Prop :=
  Seen past fun m => ∃ n p held, m.action = .pursue n ∧ m.before.pursuits.get? n = some p ∧
    p.request = r ∧ p.stage = .dispatching held t ∧ held.peer = peer ∧
    m.effects = [.sent t.id peer r.kind r.encode]

/-- The peer has delivered the payload as a reply to the request of the ticket: the reply came while
the slot of the ticket waited for it. -/
def Received (past : List Moment) (peer : PeerId) (t : Ticket) (kind : RequestKind)
    (payload : Bytes) : Prop :=
  Seen past fun m => m.action = .receive peer t.id kind (.data payload) ∧
    m.before.router.slots.get? t.id = some ⟨peer, kind, t.channel⟩

/-- The request was sent to a peer under the number of a ticket, and the peer has delivered a payload
under this number that proves the item. The slot is open from before the request is sent, so that
nothing is said here about which of the two came first. -/
def Proven (past : List Moment) (r : Request) (item : Item) : Prop :=
  ∃ peer t payload, Dispatched past r peer t ∧ Received past peer t r.kind payload ∧
    verify r peer payload = .ok item

/-- The request that a call is tied to: by its query alone, or by the root that a lookup has
confirmed for the section of the query. -/
inductive Bound (s : RetrievalSettings) (past : List Moment) (n : Nat) (q : Query) :
    Request → Prop where
  | byQuery {r : Request} (binding : q.binding s = .ok (.complete r)) : Bound s past n q r
  | byLookup {trie : HelperTrie} {index : UInt64} {key : Bytes} {minHead : UInt64} {root : Digest}
      (binding : q.binding s = .ok (.perSection trie index key minHead))
      (confirmed : Seen past fun m => m.action = .resolve n (.ok (some ⟨index, root, true⟩)) ∧
        ∃ x, m.before.callers.get? n = some x ∧ x.stage = .resolving trie index key minHead) :
      Bound s past n q (.helperTrieProof trie index root key minHead)

/-- An issued request with this key has been answered with the item. -/
def Brought (past : List Moment) (key : RequestKey) (item : Item) : Prop :=
  ∃ r, Issued past r ∧ r.key = key ∧ Proven past r item

section

variable {s : RetrievalSettings} {past : List Moment} {m : Moment} {n : Nat} {q : Query}
  {r : Request} {item : Item} {key : RequestKey}

theorem Proven.later (h : Proven past r item) : Proven (m :: past) r item := by
  obtain ⟨peer, t, payload, hdispatched, hreceived, hverify⟩ := h
  exact ⟨peer, t, payload, hdispatched.later, hreceived.later, hverify⟩

theorem Bound.later (h : Bound s past n q r) : Bound s (m :: past) n q r := by
  cases h with
  | byQuery binding => exact .byQuery binding
  | byLookup binding confirmed => exact .byLookup binding confirmed.later

theorem Brought.later (h : Brought past key item) : Brought (m :: past) key item := by
  obtain ⟨r, hissued, hkey, hproven⟩ := h
  exact ⟨r, hissued.later, hkey, hproven.later⟩

end

/-! ### What a pursuit and a caller have to show for it -/

namespace Pursuit

/-- The result that a pursuit has come to. -/
def result? (p : Pursuit) : Option Retrieved :=
  match p.stage with
  | .releasing _ _ (.finish result) => some result
  | .landing result => some result
  | .handing result _ => some result
  | _ => none

/-- The request of a pursuit was issued and, once the pursuit waits for a reply, sent; what the
pursuit can be handed as a reply was received; and an item that it has come to is proven. -/
structure Sourced (past : List Moment) (router : Router) (p : Pursuit) : Prop where
  key : p.key = p.request.key
  issued : Issued past p.request
  ticket : ∀ held t, p.assignment? = some held → p.ticket? = some t →
    router.Expects t held.peer p.request.kind (Received past held.peer t p.request.kind)
  sent : ∀ held t, p.stage = .sending held t ∨ p.stage = .awaiting held t →
    Dispatched past p.request held.peer t
  item : ∀ item, p.result? = some (.ok item) → Proven past p.request item

variable {c : Client} {n : Nat} {p : Pursuit} {a : Action} {stage : Stage}
  {effects : List Effect}

/-- By itself a pursuit comes to errors only. -/
theorem Shift.result? (h : p.Shift c n a stage effects) (item : Item) :
    ({ p with stage := stage } : Pursuit).result? ≠ some (.ok item) := by
  cases h <;> simp [Pursuit.result?]

theorem Sourced.later {past : List Moment} {router : Router} {m : Moment}
    (h : p.Sourced past router) : p.Sourced (m :: past) router where
  key := h.key
  issued := h.issued.later
  ticket held t hheld hticket := (h.ticket held t hheld hticket).imp fun _ => Seen.later
  sent held t hstage := (h.sent held t hstage).later
  item item hitem := (h.item item hitem).later

/-- An item that a pursuit has come to is proven. -/
theorem Sourced.proven_of_result {past : List Moment} {router : Router} {result : Retrieved}
    (h : p.Sourced past router) (hresult : p.result? = some result) :
    ∀ item, result = .ok item → Proven past p.request item := by
  intro item hitem
  apply h.item
  rw [hresult, hitem]

/-- A pursuit that waits for no reply has its request to show, and the item that it has come to. -/
theorem Sourced.settled {past : List Moment} {router router' : Router} {q : Pursuit}
    (h : p.Sourced past router) (hkey : q.key = p.key) (hrequest : q.request = p.request)
    (hticket : q.ticket? = none)
    (hitem : ∀ item, q.result? = some (.ok item) → Proven past p.request item) :
    q.Sourced past router' where
  key := by rw [hkey, hrequest, h.key]
  issued := hrequest ▸ h.issued
  ticket _ _ _ hticket' := by
    rw [hticket] at hticket'
    cases hticket'
  sent _ _ hstage := by
    rcases hstage with hstage | hstage
    · rw [Pursuit.ticket?, hstage] at hticket
      cases hticket
    · rw [Pursuit.ticket?, hstage] at hticket
      cases hticket
  item item heq := hrequest ▸ hitem item heq

/-- A pursuit sends its request before it waits for a reply. -/
theorem Shift.sent {past : List Moment} {router : Router} (h : p.Shift c n a stage effects)
    (hpursuit : c.pursuits.get? n = some p) (hnow : ⟨c, a, effects⟩ ∈ past)
    (hsourced : p.Sourced past router) {held : Assignment} {t : Ticket}
    (hstage : stage = .sending held t ∨ stage = .awaiting held t) :
    Dispatched past p.request held.peer t := by
  cases h with
  | dispatch stage =>
    rcases hstage with hstage | hstage
    · cases hstage
      exact ⟨_, hnow, n, p, held, rfl, hpursuit, rfl, stage, rfl, rfl⟩
    · cases hstage
  | accepted stage =>
    rcases hstage with hstage | hstage
    · cases hstage
    · cases hstage
      exact hsourced.sent held t (.inl stage)
  | _ => rcases hstage with hstage | hstage <;> cases hstage

/-- A shift of stage keeps a pursuit sourced: what it newly relies on has just happened. -/
theorem Shift.sourced {past : List Moment} (h : p.Shift c n a stage effects)
    (hpursuit : c.pursuits.get? n = some p) (hnow : ⟨c, a, effects⟩ ∈ past)
    (hsourced : p.Sourced past c.router) :
    ({ p with stage := stage } : Pursuit).Sourced past c.router where
  key := hsourced.key
  issued := hsourced.issued
  ticket held t hheld hticket :=
    hsourced.ticket held t (h.assignment?.symm.trans hheld) (h.ticket?.symm.trans hticket)
  sent _ _ hstage := h.sent hpursuit hnow hsourced hstage
  item item hitem := absurd hitem (h.result? item)

/-- A pursuit comes to an item only by a reply that proves it. -/
theorem Conclusion.proven_of_finish {past : List Moment} {held : Assignment} {t : Ticket}
    {outcome : Outcome} {next : Next} {item : Item} (h : p.Conclusion c n a held t outcome next)
    (hsourced : p.Sourced past c.router) (hnext : next = .finish (.ok item)) :
    Proven past p.request item := by
  have hheld : p.assignment? = some held := h.assignment?
  have hticket : p.ticket? = some t := h.ticket?
  cases h with
  | proven stage receipt proven =>
    cases hnext
    exact ⟨held.peer, t, _, hsourced.sent held t (.inr stage),
      (hsourced.ticket held t hheld hticket).receipt _ receipt, proven⟩
  | _ => cases hnext

end Pursuit

/-- A call has returned this item rightly. -/
def Answered (s : RetrievalSettings) (past : List Moment) (n : Nat) (q : Query) (item : Item) :
    Prop :=
  q.atOnce = some item ∨ ∃ r, Bound s past n q r ∧ Issued past r ∧ Brought past r.key item

namespace Caller

/-- What a caller has to show for how far it is. -/
def Sourced (s : RetrievalSettings) (past : List Moment) (n : Nat) (x : Caller) : Prop :=
  match x.stage with
  | .asking => True
  | .resolving trie index key minHead =>
    x.query.binding s = .ok (.perSection trie index key minHead)
  | .bound r => Bound s past n x.query r
  | .waiting seat => ∃ r, Bound s past n x.query r ∧ Issued past r ∧ r.key = seat.key
  | .handed seat result => ∃ r, Bound s past n x.query r ∧ Issued past r ∧ r.key = seat.key ∧
      ∀ item, result = .ok item → Brought past seat.key item
  | .returned result => ∀ item, result = .ok item → Answered s past n x.query item
  | .dropped => True

variable {s : RetrievalSettings} {past : List Moment} {n : Nat} {x : Caller}

theorem Sourced.later {m : Moment} (h : x.Sourced s past n) : x.Sourced s (m :: past) n := by
  unfold Sourced at h ⊢
  cases hstage : x.stage with
  | asking => trivial
  | resolving trie index key minHead =>
    rw [hstage] at h
    exact h
  | bound r =>
    rw [hstage] at h
    exact h.later
  | waiting seat =>
    rw [hstage] at h
    obtain ⟨r, hbound, hissued, hkey⟩ := h
    exact ⟨r, hbound.later, hissued.later, hkey⟩
  | handed seat result =>
    rw [hstage] at h
    obtain ⟨r, hbound, hissued, hkey, hitem⟩ := h
    exact ⟨r, hbound.later, hissued.later, hkey, fun item heq => (hitem item heq).later⟩
  | returned result =>
    rw [hstage] at h
    intro item heq
    refine (h item heq).imp_right ?_
    rintro ⟨r, hbound, hissued, hbrought⟩
    exact ⟨r, hbound.later, hissued.later, hbrought.later⟩
  | dropped => trivial

/-- A caller that goes on by itself has what it needs to show for it. -/
theorem Shift.sourced {c : Client} {a : Action} {stage : Stage} {effects : List Effect}
    (h : x.Shift c n a stage effects) (hsettings : c.settings = s)
    (hcaller : c.callers.get? n = some x) (hnow : ⟨c, a, effects⟩ ∈ past)
    (hsourced : x.Sourced s past n) : ({ x with stage := stage } : Caller).Sourced s past n := by
  subst hsettings
  cases h with
  | canceledEarly => exact fun item heq => nomatch heq
  | atOnce stage wanted atOnce =>
    intro item heq
    cases heq
    exact .inl atOnce
  | unbindable => exact fun item heq => nomatch heq
  | bind stage wanted notAtOnce binding => exact .byQuery binding
  | lookUp stage wanted notAtOnce binding => exact binding
  | resolved stage accepted =>
    rw [Sourced, stage] at hsourced
    cases confirmed_of_accept accepted
    exact .byLookup hsourced ⟨_, hnow, rfl, x, hcaller, stage⟩
  | unresolved => exact fun item heq => nomatch heq
  | canceledBound => exact fun item heq => nomatch heq
  | take stage =>
    rw [Sourced, stage] at hsourced
    obtain ⟨r, hbound, hissued, hkey, hitem⟩ := hsourced
    intro item heq
    exact .inr ⟨r, hbound, hissued, hkey ▸ hitem item heq⟩
  | lose => exact fun item heq => nomatch heq

end Caller

/-! ### What all pursuits have to show for it -/

namespace Client

/-- Every pursuit has its request to show and what it has come to, and can be handed nothing but what
was received for it. -/
structure Traced (s : RetrievalSettings) (past : List Moment) (c : Client) : Prop where
  settings : c.settings = s
  numbered : c.router.Numbered
  pursuits : c.pursuits.All fun _ p => p.Sourced past c.router

namespace Traced

variable {s : RetrievalSettings} {past : List Moment} {c : Client} {n : Nat}

/-- A new client has sent nothing and waits for nothing. -/
theorem empty (s : ClientSettings) : (Client.empty s).Traced s.retrieval [] :=
  ⟨rfl, Table.All.empty, Table.All.empty⟩

theorem later {m : Moment} (h : c.Traced s past) : c.Traced s (m :: past) :=
  ⟨h.settings, h.numbered, h.pursuits.imp fun _ _ _ => Pursuit.Sourced.later⟩

/-! #### What keeps it -/

theorem move {p : Pursuit} {stage : Pursuit.Stage} (h : c.Traced s past)
    (hpursuit : c.pursuits.get? n = some p)
    (hstage : ({ p with stage := stage } : Pursuit).Sourced past c.router) :
    (c.move n stage).Traced s past where
  settings := h.settings
  numbered := h.numbered
  pursuits := h.pursuits.modify fun q hq => by
    rw [hpursuit] at hq
    cases hq
    exact hstage

/-- A retired pursuit leaves the others as they were. -/
theorem retire (h : c.Traced s past) : (c.retire n).Traced s past :=
  ⟨h.settings, h.numbered, h.pursuits.erase⟩

theorem report {peer : PeerId} {outcome : Outcome} (h : c.Traced s past) :
    (c.report peer outcome).1.Traced s past :=
  ⟨h.settings, h.numbered, h.pursuits⟩

/-- Another router will do if every ticket can expect from it what it could expect before. -/
theorem route {router : Router} (h : c.Traced s past) (hnumbered : router.Numbered)
    (hexpects : ∀ t peer kind, c.router.Expects t peer kind (Received past peer t kind) →
      router.Expects t peer kind (Received past peer t kind)) :
    ({ c with router := router } : Client).Traced s past where
  settings := h.settings
  numbered := hnumbered
  pursuits := h.pursuits.imp fun _ _ _ hp =>
    { key := hp.key
      issued := hp.issued
      ticket := fun held t hheld hticket => hexpects t _ _ (hp.ticket held t hheld hticket)
      sent := hp.sent
      item := hp.item }

/-- A caller that leaves changes neither requests nor results. -/
theorem leave {seat : Caller.Seat} (h : c.Traced s past) : (c.leave seat).Traced s past := by
  unfold Client.leave
  simp only
  split
  · refine ⟨h.settings, h.numbered, h.pursuits.modify fun p hp => ?_⟩
    have hsourced := h.pursuits _ _ hp
    exact ⟨hsourced.key, hsourced.issued, hsourced.ticket, hsourced.sent, hsourced.item⟩
  · exact ⟨h.settings, h.numbered, h.pursuits⟩

theorem depart {x : Caller} {stage : Caller.Stage} (h : c.Traced s past) :
    (c.depart n x stage).Traced s past := by
  unfold Client.depart
  split
  next seat _ =>
    have hleft : (c.leave seat).Traced s past := h.leave
    exact ⟨hleft.settings, hleft.numbered, hleft.pursuits⟩
  next => exact ⟨h.settings, h.numbered, h.pursuits⟩

/-- A pursuit that lands hands on the result that it came to. -/
theorem land {p : Pursuit} {result : Retrieved} (h : c.Traced s past)
    (hpursuit : c.pursuits.get? n = some p) (hstage : p.stage = .landing result) :
    (c.land n p.key result).Traced s past := by
  have hsourced := h.pursuits n p hpursuit
  have hitem : ∀ item, result = .ok item → Proven past p.request item :=
    hsourced.proven_of_result (by rw [Pursuit.result?, hstage])
  have hlanded : ∀ store : ItemStore,
      ({ c with store, flights := c.flights.erase p.key } : Client).Traced s past :=
    fun _ => ⟨h.settings, h.numbered, h.pursuits⟩
  unfold Client.land
  split
  next f _ =>
    exact (hlanded _).move hpursuit
      (hsourced.settled rfl rfl rfl fun item heq => hitem item (Option.some.inj heq))
  next => exact h.retire

/-! #### Every step keeps it -/

theorem callerStep {x : Caller} {a : Action} {c' : Client} {effects : List Effect}
    (h : c.Traced s past) (hcaller : c.callers.get? n = some x)
    (hstep : c.CallerStep n x a c' effects) (hnow : ⟨c, a, effects⟩ ∈ past) :
    c'.Traced s past := by
  cases hstep with
  | drop => exact h.depart
  | quit => exact h.depart
  | @begin r stage =>
    have hissued : Issued past r := ⟨_, hnow, n, x, rfl, hcaller, stage⟩
    have hfresh : (Pursuit.fresh r).Sourced past c.router := by
      refine ⟨rfl, hissued, (fun _ _ hheld => nomatch hheld), ?_, (fun _ heq => nomatch heq)⟩
      rintro held t (hstage | hstage) <;> cases hstage
    exact ⟨h.settings, h.numbered, h.pursuits.insert hfresh⟩
  | _ => exact ⟨h.settings, h.numbered, h.pursuits⟩

/-- A step of one pursuit keeps all pursuits traced. -/
theorem pursuitStep {p : Pursuit} {a : Action} {c' : Client} {effects : List Effect}
    (h : c.Traced s past) (hpursuit : c.pursuits.get? n = some p)
    (hstep : c.PursuitStep n p a c' effects) (hnow : ⟨c, a, effects⟩ ∈ past) :
    c'.Traced s past := by
  have hsourced := h.pursuits n p hpursuit
  cases hstep with
  | shift shift => exact h.move hpursuit (shift.sourced hpursuit hnow hsourced)
  | assign stage begun =>
    refine ⟨h.settings, h.numbered, h.pursuits.insert ?_⟩
    exact hsourced.settled rfl rfl rfl fun item heq => nomatch heq
  -- a new ticket has received nothing, so that there is nothing to show for it
  | @register held stage =>
    have hnumbered : (c.router.register held.peer p.request.kind).2.Numbered :=
      h.numbered.register
    have hrouted := h.route hnumbered fun _ _ _ => Router.Expects.register
    refine hrouted.move hpursuit ⟨hsourced.key, hsourced.issued, ?_, ?_, ?_⟩
    · intro held' t hheld hticket
      cases hheld
      cases hticket
      exact Router.expects_register h.numbered
    · rintro held' t (hstage | hstage) <;> cases hstage
    · intro item heq
      cases heq
  | @conclude _ held t outcome next conclusion =>
    have hrouted : ({ c with router := (c.router.forget t.id).discard t } : Client).Traced s past :=
      h.route (Router.Numbered.settle h.numbered) fun _ _ _ hexpects => hexpects.forget.discard
    refine hrouted.move hpursuit (hsourced.settled rfl rfl rfl fun item heq => ?_)
    apply conclusion.proven_of_finish hsourced
    cases next with
    | finish result => rw [Option.some.inj heq]
    | retry => cases heq
    | stop => cases heq
  | @release held outcome next stage =>
    have hreported : (c.report held.peer outcome).1.Traced s past := h.report
    cases next with
    | retry =>
      exact hreported.move hpursuit (hsourced.settled rfl rfl rfl fun _ heq => nomatch heq)
    | finish result =>
      refine hreported.move hpursuit (hsourced.settled rfl rfl rfl fun item heq => ?_)
      exact hsourced.item item (by rw [Pursuit.result?, stage]; exact heq)
    | stop => exact hreported.retire
  | land stage => exact h.land hpursuit stage
  | @hand result waiters waiter caller stage =>
    -- what is handed on is what the pursuit has come to
    have hitem : ∀ item, result = .ok item → Proven past p.request item :=
      hsourced.proven_of_result (by rw [Pursuit.result?, stage])
    have hhanded : (c.hand ⟨p.key, n, waiter⟩ caller result).Traced s past := by
      rw [hand_eq]
      exact ⟨h.settings, h.numbered, h.pursuits⟩
    rw [hand_eq] at hhanded ⊢
    exact hhanded.move hpursuit
      (hsourced.settled rfl rfl rfl fun item heq => hitem item (Option.some.inj heq))
  | retire => exact h.retire
  | stop => exact h.retire

theorem notify {now index : Nat} {c' : Client} (h : c.Traced s past)
    (htold : c.notify now index = some c') : c'.Traced s past := by
  have htell : ∀ {d : Client} {e : Registry.Event} {listener : Listener}, d.Traced s past →
      (d.tell now e listener).Traced s past := by
    intro d e listener hd
    cases listener with
    | router =>
      cases e with
      | removed info reason =>
        exact hd.route hd.numbered.peerRemoved fun _ _ _ => Router.Expects.peerRemoved
      | registered info => exact hd
      | updated peer => exact hd
    | generation => exact ⟨hd.settings, hd.numbered, hd.pursuits⟩
    | pool => exact ⟨hd.settings, hd.numbered, hd.pursuits⟩
  unfold Client.notify at htold
  split at htold
  next => cases htold
  next =>
    cases htold
    exact ⟨h.settings, h.numbered, h.pursuits⟩
  next =>
    cases htold
    exact htell ⟨h.settings, h.numbered, h.pursuits⟩

/-- A reply that comes in is received by the request whose slot it meets. -/
theorem receive {peer : PeerId} {id : RequestId} {kind : RequestKind} {reply : Reply}
    {effects : List Effect} (h : c.Traced s past)
    (hnow : ⟨c, .receive peer id kind reply, effects⟩ ∈ past) :
    ({ c with router := c.router.receive peer id kind reply } : Client).Traced s past := by
  apply h.route h.numbered.receive
  intro t asked what hexpects
  apply hexpects.receive
  rintro payload rfl rfl rfl rfl hslot
  exact ⟨_, hnow, rfl, hslot⟩

/-- One step, whoever makes it, keeps the pursuits traced. -/
theorem step {a : Action} {c' : Client} {effects : List Effect} (h : c.Traced s past)
    (hstep : c.Step a c' effects) (hnow : ⟨c, a, effects⟩ ∈ past) : c'.Traced s past := by
  cases hstep with
  | notify htold => exact h.notify htold
  | receive => exact h.receive hnow
  | caller hcaller hstep => exact h.callerStep hcaller hstep hnow
  | pursuit hpursuit hstep => exact h.pursuitStep hpursuit hstep hnow
  | _ => exact ⟨h.settings, h.numbered, h.pursuits⟩

end Traced

/-! ### What the store and the callers have to show for it -/

/-- Every item in the store was brought by a flight, and every caller has to show how far it is. -/
structure Sourced (s : RetrievalSettings) (past : List Moment) (c : Client) : Prop where
  stored : ∀ entry ∈ c.store.entries, Brought past entry.1 entry.2
  callers : c.callers.All fun n x => x.Sourced s past n

namespace Sourced

variable {s : RetrievalSettings} {past : List Moment} {c : Client} {n : Nat}

theorem later {m : Moment} (h : c.Sourced s past) : c.Sourced s (m :: past) where
  stored entry hentry := (h.stored entry hentry).later
  callers := h.callers.imp fun _ _ _ => Caller.Sourced.later

theorem place {x : Caller} {stage : Caller.Stage} (h : c.Sourced s past)
    (hcaller : c.callers.get? n = some x)
    (hstage : ({ x with stage := stage } : Caller).Sourced s past n) :
    (c.place n stage).Sourced s past where
  stored := h.stored
  callers := h.callers.modify fun y hy => by
    rw [hcaller] at hy
    cases hy
    exact hstage

/-- A caller that departs without an item has nothing to show. -/
theorem depart {x : Caller} {stage : Caller.Stage} (h : c.Sourced s past)
    (hcaller : c.callers.get? n = some x)
    (hstage : ({ x with stage := stage } : Caller).Sourced s past n) :
    (c.depart n x stage).Sourced s past := by
  have hplaced : (c.place n stage).Sourced s past := h.place hcaller hstage
  rw [depart_eq]
  exact ⟨hplaced.stored, hplaced.callers⟩

/-- Handing a proven result to a caller. -/
theorem hand {seat : Caller.Seat} {caller : Nat} {result : Retrieved} (h : c.Sourced s past)
    (hresult : ∀ item, result = .ok item → Brought past seat.key item) :
    (c.hand seat caller result).Sourced s past := by
  unfold Client.hand
  split
  next waits hstage =>
    split
    next hseat =>
      obtain ⟨x, hcaller, hwaiting⟩ := Option.map_eq_some_iff.mp hstage
      have hsourced : x.Sourced s past caller := h.callers caller x hcaller
      rw [Caller.Sourced, hwaiting] at hsourced
      obtain ⟨r, hbound, hissued, hkey⟩ := hsourced
      subst hseat
      exact h.place hcaller ⟨r, hbound, hissued, hkey, hresult⟩
    next => exact h
  next => exact h

variable [ItemCache.Lawful]

/-- A new client has stored nothing and has no callers. -/
theorem empty (s : ClientSettings) : (Client.empty s).Sourced s.retrieval [] where
  stored entry hentry := by
    rw [show (Client.empty s).store.entries = [] from ItemCache.Lawful.entries_new _] at hentry
    cases hentry
  callers := Table.All.empty

/-- Looking a key up in the store brings nothing new into it. -/
theorem look (h : c.Sourced s past) (key : RequestKey) :
    ({ c with store := (c.store.get key).2 } : Client).Sourced s past :=
  ⟨fun entry hentry => h.stored entry (ItemStore.mem_of_mem_get hentry), h.callers⟩

/-- A flight that lands puts nothing into the store but what its pursuit has to show. -/
theorem land {p : Pursuit} {result : Retrieved} (h : c.Sourced s past) (htraced : c.Traced s past)
    (hpursuit : c.pursuits.get? n = some p) (hstage : p.stage = .landing result) :
    (c.land n p.key result).Sourced s past := by
  have hsourced := htraced.pursuits n p hpursuit
  have hitem : ∀ item, result = .ok item → Proven past p.request item :=
    hsourced.proven_of_result (by rw [Pursuit.result?, hstage])
  unfold Client.land
  split
  next f _ =>
    refine ⟨fun entry hentry => ?_, h.callers⟩
    cases result with
    | error e => exact h.stored entry hentry
    | ok item =>
      rcases ItemStore.mem_of_mem_put hentry with rfl | hentry
      · exact ⟨p.request, hsourced.issued, hsourced.key.symm, hitem item rfl⟩
      · exact h.stored entry hentry
  next => exact ⟨h.stored, h.callers⟩

/-! #### Every step keeps it -/

/-- A caller returns what it was handed or what the store holds under its key. -/
theorem callerStep {x : Caller} {a : Action} {c' : Client} {effects : List Effect}
    (h : c.Sourced s past) (hsettings : c.settings = s) (hcaller : c.callers.get? n = some x)
    (hstep : c.CallerStep n x a c' effects) (hnow : ⟨c, a, effects⟩ ∈ past) :
    c'.Sourced s past := by
  have hsourced : x.Sourced s past n := h.callers n x hcaller
  cases hstep with
  | shift shift => exact h.place hcaller (shift.sourced hsettings hcaller hnow hsourced)
  | cancel => exact ⟨h.stored, h.callers.insert hsourced⟩
  | drop => exact h.depart hcaller trivial
  | quit => exact h.depart hcaller fun item heq => nomatch heq
  | @join r f stage wanted flight =>
    rw [Caller.Sourced, stage] at hsourced
    have hissued : Issued past r := ⟨_, hnow, n, x, rfl, hcaller, stage⟩
    have hjoined : ({ c with flights := c.flights.insert r.key (f.join n) } : Client).Sourced s past :=
      ⟨h.stored, h.callers⟩
    exact hjoined.place hcaller ⟨r, hsourced, hissued, rfl⟩
  | @stored r item stage wanted noFlight stored =>
    rw [Caller.Sourced, stage] at hsourced
    have hissued : Issued past r := ⟨_, hnow, n, x, rfl, hcaller, stage⟩
    have hpeek : c.store.peek r.key = some item := ItemStore.fst_get.symm.trans stored
    apply (h.look r.key).place hcaller
    intro found heq
    cases heq
    exact .inr ⟨r, hsourced, hissued, h.stored _ (ItemStore.mem_of_peek hpeek)⟩
  | @begin r stage wanted noFlight missing =>
    rw [Caller.Sourced, stage] at hsourced
    have hissued : Issued past r := ⟨_, hnow, n, x, rfl, hcaller, stage⟩
    have hbegun : ({ c with
        store := (c.store.get r.key).2
        flights := c.flights.insert r.key (Flight.begin c.nextFlight n)
        nextFlight := c.nextFlight + 1
        pursuits := c.pursuits.insert c.nextFlight (Pursuit.fresh r) } : Client).Sourced s past :=
      ⟨(h.look r.key).stored, h.callers⟩
    exact hbegun.place hcaller ⟨r, hsourced, hissued, rfl⟩

/-- A landing stores what the pursuit has proven; no other step of a pursuit touches the store. -/
theorem pursuitStep {p : Pursuit} {a : Action} {c' : Client} {effects : List Effect}
    (h : c.Sourced s past) (htraced : c.Traced s past) (hpursuit : c.pursuits.get? n = some p)
    (hstep : c.PursuitStep n p a c' effects) : c'.Sourced s past := by
  cases hstep with
  | @release _ _ next => cases next <;> exact ⟨h.stored, h.callers⟩
  | land stage => exact h.land htraced hpursuit stage
  | @hand result waiters waiter caller stage =>
    have hsourced := htraced.pursuits n p hpursuit
    have hitem : ∀ item, result = .ok item → Proven past p.request item :=
      hsourced.proven_of_result (by rw [Pursuit.result?, stage])
    have hhanded : (c.hand ⟨p.key, n, waiter⟩ caller result).Sourced s past :=
      h.hand fun item heq => ⟨p.request, hsourced.issued, hsourced.key.symm, hitem item heq⟩
    exact ⟨hhanded.stored, hhanded.callers⟩
  | _ => exact ⟨h.stored, h.callers⟩

/-- One step, whoever makes it, keeps store and callers sourced. -/
theorem step {a : Action} {c' : Client} {effects : List Effect} (h : c.Sourced s past)
    (htraced : c.Traced s past) (hstep : c.Step a c' effects) (hnow : ⟨c, a, effects⟩ ∈ past) :
    c'.Sourced s past := by
  cases hstep with
  | call query => exact ⟨h.stored, h.callers.insert trivial⟩
  | notify htold =>
    rw [notify_eq htold]
    exact ⟨h.stored, h.callers⟩
  | caller hcaller hstep => exact h.callerStep htraced.settings hcaller hstep hnow
  | pursuit hpursuit hstep => exact h.pursuitStep htraced hpursuit hstep
  | _ => exact ⟨h.stored, h.callers⟩

end Sourced

end Client

namespace Run

variable {s : ClientSettings} {past : List Moment} {c : Client}

/-- In every run, what the pursuits have come to is proven by what was received. -/
theorem traced (run : Run s past c) : c.Traced s.retrieval past :=
  run.keeps (Client.Traced.empty s) fun h hstep => h.later.step hstep List.mem_cons_self

/-- In every run, what the store and the callers hold is proven by what was received. -/
theorem sourced [ItemCache.Lawful] (run : Run s past c) : c.Sourced s.retrieval past := by
  induction run with
  | start => exact .empty s
  | step run hstep ih =>
    exact ih.later.step run.traced.later (Client.step_of_step? hstep) List.mem_cons_self

/-- No unproven item is returned. An item that a call returns is the empty code, known from the
query; or the request to which the query is tied was sent to a peer under some number, and the peer
delivered the item with its proof under this number; unless two different requests with one key were
issued. -/
theorem returned_item_proven [ItemCache.Lawful] (run : Run s past c) {n : Nat} {x : Caller}
    {item : Item}
    (hcaller : c.callers.get? n = some x) (hreturned : x.result? = some (.ok item)) :
    (∃ header, x.query = .code header (sha256 []) ∧ item = .code []) ∨
      (∃ r, Bound s.retrieval past n x.query r ∧ ∃ peer t payload,
        Dispatched past r peer t ∧ Received past peer t r.kind payload ∧
          verify r peer payload = .ok item) ∨
      ∃ r₁ r₂, Issued past r₁ ∧ Issued past r₂ ∧ r₁ ≠ r₂ ∧ r₁.key = r₂.key := by
  have hsourced : x.Sourced s.retrieval past n := run.sourced.callers n x hcaller
  rw [Caller.Sourced, Caller.stage_of_result? hreturned] at hsourced
  rcases hsourced item rfl with hatOnce | ⟨r, hbound, hissued, r', hissued', hkey, hproven⟩
  · left
    exact Query.of_atOnce hatOnce
  · right
    by_cases hsame : r' = r
    · subst hsame
      exact .inl ⟨r', hbound, hproven⟩
    · exact .inr ⟨r', r, hissued', hissued, hsame, hkey⟩

end Run

end

namespace Run

/-- A call for a code of one byte, which gets it although a peer that was not asked replies first. -/
theorem returned_item_proven_of_stray_reply :
    ItemCache.Lawful ∧ ∃ past c x, Run ⟨.default, .default, .default, .default⟩ past c ∧
      c.callers.get? 0 = some x ∧ x.result? = some (.ok (.code [1])) ∧
      ((∃ header, x.query = .code header (sha256 []) ∧ Item.code [1] = .code []) ∨
        (∃ r, Bound .default past 0 x.query r ∧ ∃ peer t payload,
          Dispatched past r peer t ∧ Received past peer t r.kind payload ∧
            verify r peer payload = .ok (.code [1])) ∨
        ∃ r₁ r₂, Issued past r₁ ∧ Issued past r₂ ∧ r₁ ≠ r₂ ∧ r₁.key = r₂.key) := by
  let settings : ClientSettings := ⟨.default, .default, .default, .default⟩
  let header : Header := ⟨.zero, 0, .zero, .zero, .zero, .zero, []⟩
  let payload := Wire.Message.encode (⟨[1]⟩ : Wire.CodeMessage)
  let actions : List Action :=
    [.register ⟨⟨[7]⟩, none, 2, [.code], ⟨0, .zero⟩⟩, .call (.code header (sha256 [1])), .bind 0,
      .enter 0, .pursue 1, .pursue 1, .pursue 1, .pursue 1, .pursue 1, .pursue 1, .accept 1,
      .receive ⟨[8]⟩ ⟨0⟩ .code (.data [0]), .receive ⟨[7]⟩ ⟨0⟩ .code (.data payload),
      .collect 1 (.ofNanos 5), .pursue 1, .pursue 1, .serve 1 0, .take 0]
  have hruns : ((Moment.replay actions [] (Client.empty settings)).bind
      fun x => x.2.callers.get? 0).bind Caller.result? = some (.ok (.code [1])) := by
    decide +kernel
  obtain ⟨x, hx, hresult⟩ := Option.bind_eq_some_iff.mp hruns
  obtain ⟨⟨past, c⟩, hreplay, hcaller⟩ := Option.bind_eq_some_iff.mp hx
  have hrun : Run settings past c := Run.start.replay hreplay
  exact ⟨RecencyList.lawful, past, c, x, hrun, hcaller, hresult,
    returned_item_proven hrun hcaller hresult⟩

end Run

end LightClient
