/-
Module: LightClient.Proofs.Retrieval.Errors
Purpose: What concerns one peer only stays behind the retrieval: no call returns such an error, and
  what a call returns is of the kind that its query asks for.
Main exports: verify_cases, Query.answeredBy_of_bound, Client.ErrorsContained, lookupErrors,
  issuedRequests, Run.general_of_error, Run.answeredBy_of_result, Run.errors_contained
-/
import LightClient.Proofs.Retrieval.Failover
import LightClient.Proofs.Verification.Checks
import LightClient.Simulation.Libraries

namespace LightClient

open Client (Action Effect)

/-! ### Replies -/

/-- A reply is blamed on the peer that sent it, or brings an item of the kind that was asked for. -/
theorem verify_cases (r : Request) (peer : PeerId) (payload : Bytes) :
    (∃ flaw, verify r peer payload = .error (.invalidProof peer flaw)) ∨
      ∃ item, verify r peer payload = .ok item ∧ item.answers r = true := by
  unfold verify
  cases hcheck : r.check payload with
  | error flaw => exact .inl ⟨flaw, rfl⟩
  | ok item => exact .inr ⟨item, rfl, Request.answers_of_check hcheck⟩

/-- An item that verification accepts answers the request that it was verified for. -/
theorem answers_of_verify {r : Request} {peer : PeerId} {payload : Bytes} {item : Item}
    (h : verify r peer payload = .ok item) : item.answers r = true :=
  Request.answers_of_check (verify_ok.mp h)

/-! ### Queries -/

section

variable {s : RetrievalSettings} {q : Query} {r : Request} {item : Item} {e : RetrievalError}
  {trie : HelperTrie} {index : UInt64} {key : Bytes} {minHead : UInt64}

/-- The end of a section fails in one way, past the last block. -/
theorem sectionEnd_error {index size : UInt64} (h : sectionEnd index size = .error e) :
    e = .sectionPastLastBlock index size := by
  unfold sectionEnd at h
  split at h
  · cases h
  · cases h
    rfl

/-- A query is refused for reasons that concern no peer, or tied to a request, at once or through the
root of a section, which the same items answer. -/
inductive Query.Binds (q : Query) : Except RetrievalError Binding → Prop where
  | refused {e : RetrievalError} (general : e.isPeerLocal = false) : Binds q (.error e)
  | complete {r : Request} (answers : ∀ item : Item, item.answers r = q.answeredBy item) :
      Binds q (.ok (.complete r))
  | perSection {trie : HelperTrie} {index : UInt64} {key : Bytes} {minHead : UInt64}
      (answers : ∀ (root : Digest) (item : Item),
        item.answers (.helperTrieProof trie index root key minHead) = q.answeredBy item) :
      Binds q (.ok (.perSection trie index key minHead))

/-- Every query is bound to a request by itself, bound to a section, or refused. -/
theorem Query.binds (q : Query) (s : RetrievalSettings) : q.Binds (q.binding s) := by
  cases q with
  | headers anchor anchorNumber count =>
    simp only [binding]
    split
    · exact .refused rfl
    · exact .complete fun item => by cases item <;> rfl
  | canonicalHeader number =>
    simp only [binding]
    cases hlast : sectionEnd (number / s.canonicalHashSection) s.canonicalHashSection with
    | error e => exact .refused (sectionEnd_error hlast ▸ rfl)
    | ok last => exact .perSection fun root item => by cases item <;> rfl
  | bloomBits bit index =>
    simp only [binding]
    cases hlast : sectionEnd index s.bloomSection with
    | error e => exact .refused (sectionEnd_error hlast ▸ rfl)
    | ok last => exact .perSection fun root item => by cases item <;> rfl
  | _ => exact .complete fun item => by cases item <;> rfl

/-- No peer is to blame for a query that is refused. -/
theorem Query.general_of_binding (h : q.binding s = .error e) : e.isPeerLocal = false := by
  have hbinds := q.binds s
  rw [h] at hbinds
  cases hbinds with
  | refused general => exact general

/-- An answer that is known at once is of the kind that the query asks for. -/
theorem Query.answeredBy_of_atOnce (h : q.atOnce = some item) : q.answeredBy item = true := by
  obtain ⟨header, rfl, rfl⟩ := Query.of_atOnce h
  rfl

end

section

variable [ItemCache] [DelaySeries]

/-- The request that a query is tied to is answered by what answers the query. -/
theorem Query.answeredBy_of_bound {s : RetrievalSettings} {past : List Moment} {n : Nat} {q : Query}
    {r : Request} {item : Item} (h : Bound s past n q r)
    (hitem : item.answers r = true) : q.answeredBy item = true := by
  have hbinds := q.binds s
  cases h with
  | byQuery binding =>
    rw [binding] at hbinds
    cases hbinds with
    | complete answers => exact answers item ▸ hitem
  | byLookup binding confirmed =>
    rw [binding] at hbinds
    cases hbinds with
    | perSection answers => exact answers _ item ▸ hitem

/-! ### The errors of a caller -/

/-- The error that a caller has been handed or has returned. -/
def Caller.error? (x : Caller) : Option RetrievalError :=
  match x.stage with
  | .handed _ (.error e) => some e
  | .returned (.error e) => some e
  | _ => none

/-- The error to which a lookup of a section's root comes at a moment. -/
def Moment.lookupError? (m : Moment) : Option RetrievalError :=
  match m.action with
  | .resolve _ (.error e) => some e
  | _ => none

/-- The errors to which lookups of roots have come, the last one first. -/
def lookupErrors (past : List Moment) : List RetrievalError :=
  past.filterMap Moment.lookupError?

section

variable {c c' : Client} {n : Nat} {x x' : Caller} {a : Action} {e : RetrievalError}

/-- An error that a caller comes to by itself concerns no peer, unless a lookup has come to it. -/
theorem Caller.Shift.error {stage : Caller.Stage} {effects : List Effect}
    (h : x.Shift c n a stage effects)
    (he : ({ x with stage := stage } : Caller).error? = some e) :
    x.error? = some e ∨ a = .resolve n (.error e) ∨ e.isPeerLocal = false := by
  cases h with
  | canceledEarly | canceledBound | lose =>
    cases he
    exact .inr (.inr rfl)
  | unbindable _ _ _ binding =>
    cases he
    exact .inr (.inr (Query.general_of_binding binding))
  | @unresolved trie index _ _ answer _ _ refused =>
    cases he
    unfold SectionRoots.accept at refused
    split at refused
    next =>
      cases refused
      exact .inr (.inl rfl)
    next =>
      split at refused
      · cases refused
      · cases refused
        exact .inr (.inr rfl)
    next =>
      cases refused
      exact .inr (.inr rfl)
  | @take seat result stage =>
    left
    rw [Caller.error?, stage]
    cases result with
    | ok item => cases he
    | error e => exact he
  | _ => cases he

/-- An error that a caller has after a step was there before, came from its lookup, blames no peer,
or is the result of a flight. -/
theorem Caller.Progress.error (h : x.Progress c n a x') (he : x'.error? = some e) :
    x.error? = some e ∨ a = .resolve n (.error e) ∨ e.isPeerLocal = false ∨
      ∃ m p, c.pursuits.get? m = some p ∧ p.result? = some (.error e) := by
  cases h with
  | rest => exact .inl he
  | cancel => exact .inl he
  | shift shift =>
    rcases shift.error he with hold | hlookup | hgeneral
    · exact .inl hold
    · exact .inr (.inl hlookup)
    · exact .inr (.inr (.inl hgeneral))
  | quit =>
    cases he
    exact .inr (.inr (.inl rfl))
  | @hand seat p result rest stage pursuit key handing =>
    have hresult : result = .error e := by
      cases result with
      | ok item => cases he
      | error e' =>
        cases he
        rfl
    refine .inr (.inr (.inr ⟨_, p, pursuit, ?_⟩))
    rw [Pursuit.result?, handing, hresult]
  | _ => cases he

end

/-! ### Whole runs -/

/-- The request that a caller looks for at a moment. -/
def Moment.issued? (m : Moment) : Option Request :=
  match m.action with
  | .enter n =>
    (m.before.callers.get? n).bind fun x =>
      match x.stage with
      | .bound r => some r
      | _ => none
  | _ => none

/-- The requests that callers have gone to look for, the last one first. -/
def issuedRequests (past : List Moment) : List Request :=
  past.filterMap Moment.issued?

/-- Requests that have been issued are listed among the issued ones. -/
theorem mem_issuedRequests {past : List Moment} {r : Request} (h : Issued past r) :
    r ∈ issuedRequests past := by
  obtain ⟨m, hm, n, x, haction, hcaller, hstage⟩ := h
  refine List.mem_filterMap.mpr ⟨m, hm, ?_⟩
  simp only [Moment.issued?, haction, hcaller, Option.bind_some, hstage]

/-- Errors that concern one peer only stay behind the retrieval, and so do items of another kind than
the one asked for. -/
structure Client.ErrorsContained (c : Client) : Prop where
  /-- No call returns an error that concerns one peer only. -/
  returned : ∀ n x e, c.callers.get? n = some x → x.result? = some (.error e) →
    (∀ peer, e ≠ .timeout peer) ∧ (∀ peer flaw, e ≠ .invalidProof peer flaw) ∧
      ∀ peer, e ≠ .peerGone peer
  /-- Every reply is blamed on the peer that sent it, or brings an item that answers the request. -/
  verified : ∀ r peer payload,
    (∃ flaw, verify r peer payload = .error (.invalidProof peer flaw)) ∨
      ∃ item, verify r peer payload = .ok item ∧ item.answers r = true
  /-- Every item that a call returns is of the kind that its query asks for, and is not refused. -/
  expected : ∀ n x item, c.callers.get? n = some x → x.result? = some (.ok item) →
    x.query.answeredBy item = true ∧ x.query.expect item = .ok item

namespace Run

variable {s : ClientSettings} {past : List Moment} {c : Client} {n : Nat} {x : Caller}

/-- A flight never ends with an error that one peer alone is to blame for. -/
theorem general_of_result {p : Pursuit} {e : RetrievalError} (run : Run s past c)
    (hpursuit : c.pursuits.get? n = some p) (hresult : p.result? = some (.error e)) :
    e.isPeerLocal = false := by
  rcases (run.tallied.pursuits n p hpursuit).honest e hresult with rfl | rfl
  · unfold Pursuit.exhausted
    split <;> rfl
  · rfl

/-- A caller comes to no error that concerns one peer only, if no lookup does. -/
theorem general_of_error {e : RetrievalError} (run : Run s past c)
    (hlookups : ∀ e ∈ lookupErrors past, e.isPeerLocal = false)
    (hcaller : c.callers.get? n = some x) (he : x.error? = some e) : e.isPeerLocal = false := by
  induction run generalizing x with
  | start => cases hcaller
  | @step past c c' a effects run hstep ih =>
    have hearlier : ∀ e ∈ lookupErrors past, e.isPeerLocal = false := by
      intro e he
      obtain ⟨m, hm, herror⟩ := List.mem_filterMap.mp he
      exact hlookups e (List.mem_filterMap.mpr ⟨m, List.mem_cons_of_mem _ hm, herror⟩)
    rcases (Client.step_of_step? hstep).caller_source hcaller with
      ⟨y, hy, hprogress⟩ | ⟨query, _, _, rfl⟩
    · rcases hprogress.error he with hold | rfl | hgeneral | ⟨m, p, hpursuit, hresult⟩
      · exact ih hearlier hy hold
      · exact hlookups e (List.mem_filterMap.mpr ⟨_, List.mem_cons_self, rfl⟩)
      · exact hgeneral
      · exact run.general_of_result hpursuit hresult
    · cases he

/-- An item that a call returns is of the kind that its query asks for, if no two requests share a
key. -/
theorem answeredBy_of_result [ItemCache.Lawful] {item : Item} (run : Run s past c)
    (hkeys : ∀ r₁ r₂, Issued past r₁ → Issued past r₂ → r₁.key = r₂.key → r₁ = r₂)
    (hcaller : c.callers.get? n = some x) (hresult : x.result? = some (.ok item)) :
    x.query.answeredBy item = true := by
  have hsourced : x.Sourced s.retrieval past n := run.sourced.callers n x hcaller
  rw [Caller.Sourced, Caller.stage_of_result? hresult] at hsourced
  rcases hsourced item rfl with hatOnce | ⟨r, hbound, hissued, r', hissued', hkey, hproven⟩
  · exact Query.answeredBy_of_atOnce hatOnce
  · -- a shared or stored answer was proven for the request of another caller, which has the same key
    obtain rfl : r' = r := hkeys r' r hissued' hissued hkey
    obtain ⟨peer, t, payload, _, _, hverify⟩ := hproven
    exact Query.answeredBy_of_bound hbound (answers_of_verify hverify)

/-- In every run in which no lookup of a root comes to an error that concerns one peer only, and no two
requests share a key, such errors and items of another kind stay behind the retrieval. -/
theorem errors_contained [ItemCache.Lawful] (run : Run s past c)
    (hlookups : ∀ e ∈ lookupErrors past, e.isPeerLocal = false)
    (hkeys : ∀ r₁ r₂, Issued past r₁ → Issued past r₂ → r₁.key = r₂.key → r₁ = r₂) :
    c.ErrorsContained where
  returned n x e hcaller hresult := by
    have he : x.error? = some e := by
      rw [Caller.error?, Caller.stage_of_result? hresult]
    have hgeneral := run.general_of_error hlookups hcaller he
    refine ⟨?_, ?_, ?_⟩
    · rintro peer rfl
      cases hgeneral
    · rintro peer flaw rfl
      cases hgeneral
    · rintro peer rfl
      cases hgeneral
  verified := verify_cases
  expected n x item hcaller hresult := by
    have hanswers := run.answeredBy_of_result hkeys hcaller hresult
    exact ⟨hanswers, if_pos hanswers⟩

end Run

end

namespace Run

/-- The same for three calls for a code, of which the first one begins a flight that a peer answers
wrongly and another one rightly, the second one joins it and the third one comes later, and for a call
whose lookup fails. -/
theorem errors_contained_of_wrong_reply :
    ItemCache.Lawful ∧ ∃ past c,
      Run ⟨.default, .default, .default, .default⟩ past c ∧
        lookupErrors past = [.other "lookup failed" none] ∧
        [0, 1, 2, 3].map (fun n => (c.callers.get? n).bind Caller.result?) =
          [some (.ok (.code [1])), some (.ok (.code [1])), some (.ok (.code [1])),
            some (.error (.other "lookup failed" none))] ∧
        c.ErrorsContained := by
  let settings : ClientSettings := ⟨.default, .default, .default, .default⟩
  let header : Header := ⟨.zero, 0, .zero, .zero, .zero, .zero, []⟩
  let payload := Wire.Message.encode (⟨[1]⟩ : Wire.CodeMessage)
  let peer (number : UInt8) : PeerInfo := ⟨⟨[number]⟩, none, 2, [.code], ⟨0, .zero⟩⟩
  let query : Query := .code header (sha256 [1])
  let ask : List Action :=
    [.pursue 1, .pursue 1, .pursue 1, .pursue 1, .pursue 1, .pursue 1, .accept 1]
  let begins : List Action := [.register (peer 7), .call query, .bind 0, .enter 0]
  let joins : List Action :=
    [.call query, .bind 1, .enter 1, .receive ⟨[7]⟩ ⟨0⟩ .code (.data [0]), .collect 1 (.ofNanos 5),
      .pursue 1, .register (peer 8)]
  let lands : List Action :=
    [.receive ⟨[8]⟩ ⟨1⟩ .code (.data payload), .collect 1 (.ofNanos 5), .pursue 1, .pursue 1,
      .serve 1 1, .serve 1 0, .pursue 1, .take 0, .take 1, .call query, .bind 2, .enter 2,
      .call (.canonicalHeader 0), .bind 3, .resolve 3 (.error (.other "lookup failed" none))]
  let actions := begins ++ ask ++ joins ++ ask ++ lands
  let request : Request := .code header.hash 0 (sha256 [1])
  have hruns : (Moment.replay actions [] (Client.empty settings)).any (fun x =>
      lookupErrors x.1 = [.other "lookup failed" none] ∧
        issuedRequests x.1 = [request, request, request] ∧
        [0, 1, 2, 3].map (fun n => (x.2.callers.get? n).bind Caller.result?) =
          [some (.ok (.code [1])), some (.ok (.code [1])), some (.ok (.code [1])),
            some (.error (.other "lookup failed" none))]) = true := by
    decide +kernel
  obtain ⟨⟨past, c⟩, hreplay, hends⟩ := (Option.any_eq_true _ _).mp hruns
  obtain ⟨hlookups, hissued, hresults⟩ := of_decide_eq_true hends
  have hrun : Run settings past c := Run.start.replay hreplay
  have hgeneral : ∀ e ∈ lookupErrors past, e.isPeerLocal = false := by
    rw [hlookups]
    simp [RetrievalError.isPeerLocal]
  have hone : ∀ r, Issued past r → r = request := by
    intro r h
    have hmem := mem_issuedRequests h
    rw [hissued] at hmem
    simpa using hmem
  have hkeys : ∀ r₁ r₂, Issued past r₁ → Issued past r₂ → r₁.key = r₂.key → r₁ = r₂ := by
    intro r₁ r₂ h₁ h₂ _
    rw [hone r₁ h₁, hone r₂ h₂]
  exact ⟨inferInstance, past, c, hrun, hlookups, hresults,
    errors_contained hrun hgeneral hkeys⟩

end Run

end LightClient
