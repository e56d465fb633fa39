/-
Module: LightClient.Proofs.ServerPool.Bookkeeping
Purpose: What a server pool keeps about an address after any calls: a number of its own, the
  failures since the last success, no more results than were reported, and an interval for which it
  is left alone only if it is known and not connected.
Main exports: ServerPool.after, ServerPool.sequenced_after, ServerPool.failures?,
  ServerPool.failuresInRow, ServerPool.failures?_after, ServerPool.Counts, ServerPool.counts_after,
  ServerPool.Rested, ServerPool.rested_after, ServerPool.Orderly, ServerPool.stays_orderly
-/
import LightClient.Proofs.ServerPool.Order
import LightClient.Proofs.ServerPool.Suggestions

namespace LightClient

/-- Settings that pass the check allow for some failure. -/
theorem PoolSettings.maxConsecutiveFailures_pos {s : PoolSettings} (h : s.validate = .ok ()) :
    0 < s.maxConsecutiveFailures.toNat := by
  by_contra hnone
  have hzero : s.maxConsecutiveFailures = 0 :=
    UInt32.toNat_inj.mp (Nat.eq_zero_of_not_pos hnone)
  unfold validate at h
  split at h
  · cases h
  · cases h

namespace ServerPool

section

variable [DelaySeries] {s : PoolSettings} {calls : List Call} {p : ServerPool} {a b : PeerAddr}
  {now : Nat}

/-- The pool after the given calls, the last one first. -/
def after (s : PoolSettings) (calls : List Call) : ServerPool :=
  (replay s calls).2

/-- An address has one candidate at most, after any calls. -/
theorem unique_after (s : PoolSettings) (calls : List Call) :
    (after s calls).candidates.Unique :=
  (Run.replay s calls).unique

theorem addKnown_cons {addrs : List PeerAddr} :
    p.addKnown (b :: addrs) = (p.mention b).addKnown addrs :=
  rfl

/-! ### Settings and numbers -/

theorem settings_mention : (p.mention a).settings = p.settings := by
  unfold mention
  split <;> rfl

theorem settings_addKnown {addrs : List PeerAddr} : (p.addKnown addrs).settings = p.settings := by
  induction addrs generalizing p with
  | nil => rfl
  | cons b addrs ih => exact ih.trans settings_mention

theorem settings_perform (p : ServerPool) (call : Call) :
    (p.perform call).2.settings = p.settings := by
  cases call with
  | addKnown addrs => exact settings_addKnown
  | suggest now => exact (suggest_onlyDials p now).settings
  | report now a success =>
    simp only [perform, report]
    split
    · exact settings_mention
    · split <;> exact settings_mention
  | connected a => exact settings_mention
  | disconnected now a evicted =>
    simp only [perform, disconnected]
    split
    · split <;> rfl
    · rfl

/-- The settings of a pool never change. -/
theorem settings_after (s : PoolSettings) (calls : List Call) : (after s calls).settings = s := by
  induction calls with
  | nil => rfl
  | cons call calls ih => exact (settings_perform _ call).trans ih

namespace Sequenced

theorem mention (h : p.Sequenced) : (p.mention a).Sequenced := by
  unfold ServerPool.mention
  split
  · exact h
  · exact Table.Numbered.enroll h rfl

theorem update {f : Candidate → Candidate} (h : p.Sequenced) (hf : ∀ c, (f c).seq = c.seq) :
    (p.update a f).Sequenced :=
  Table.Numbered.modify h hf

/-- Numbers stay distinct and below the next one, whatever the pool is asked for. -/
theorem perform (h : p.Sequenced) (call : Call) : (p.perform call).2.Sequenced := by
  cases call with
  | addKnown addrs =>
    induction addrs generalizing p with
    | nil => exact h
    | cons b addrs ih => exact ih h.mention
  | suggest now =>
    simp only [ServerPool.perform, suggest]
    split
    · exact h.update fun _ => rfl
    · exact h
  | report now a success =>
    simp only [ServerPool.perform, report]
    split
    · exact h.mention.update fun _ => rfl
    · split
      · exact Table.Numbered.erase (h.mention.update fun _ => rfl)
      · exact h.mention.update fun _ => rfl
  | connected a => exact h.mention.update fun _ => rfl
  | disconnected now a evicted =>
    simp only [ServerPool.perform, disconnected]
    split
    · split <;> exact h.update fun _ => rfl
    · exact h

end Sequenced

/-- After any calls the candidates have distinct numbers below the next one. -/
theorem sequenced_after (s : PoolSettings) (calls : List Call) : (after s calls).Sequenced := by
  induction calls with
  | nil => exact Table.Numbered.empty
  | cons call calls ih => exact ih.perform call

/-! ### Mentioning -/

theorem get?_mention :
    (p.mention b).candidates.get? a =
      if b = a then some ((p.candidates.get? a).getD (Candidate.fresh p.nextSeq))
      else p.candidates.get? a := by
  unfold mention
  split
  next hknown =>
    obtain ⟨c, hc⟩ := Option.isSome_iff_exists.mp hknown
    split
    next hb =>
      subst hb
      rw [hc, Option.getD_some]
    next => rfl
  next hnew =>
    have hnone : p.candidates.get? b = none := Option.not_isSome_iff_eq_none.mp hnew
    rw [Table.get?_insert]
    split
    next hb =>
      subst hb
      rw [hnone, Option.getD_none]
    next => rfl

theorem backOffs_mention : (p.mention a).backOffs = p.backOffs := by
  unfold mention
  split <;> rfl

/-- The number of a candidate tells whether it is new. -/
theorem Sequenced.seq_eq_nextSeq_iff (h : p.Sequenced) {c : Candidate}
    (hc : (p.mention a).candidates.get? a = some c) :
    c.seq = p.nextSeq ↔ p.candidates.get? a = none := by
  rw [get?_mention, if_pos rfl] at hc
  cases hold : p.candidates.get? a with
  | none =>
    rw [hold] at hc
    cases hc
    exact iff_of_true rfl rfl
  | some old =>
    rw [hold] at hc
    cases hc
    exact iff_of_false (Nat.ne_of_lt (h.below hold)) (Option.some_ne_none _)

theorem backOffs_addKnown {addrs : List PeerAddr} : (p.addKnown addrs).backOffs = p.backOffs := by
  induction addrs generalizing p with
  | nil => rfl
  | cons b addrs ih => exact ih.trans backOffs_mention

/-- A candidate that is mentioned again stays as it is. -/
theorem get?_addKnown_of_some {addrs : List PeerAddr} {c : Candidate}
    (h : p.candidates.get? a = some c) : (p.addKnown addrs).candidates.get? a = some c := by
  induction addrs generalizing p with
  | nil => exact h
  | cons b addrs ih =>
    apply ih
    rw [get?_mention, h]
    split <;> rfl

/-- An address that was not known begins afresh. -/
theorem exists_fresh_of_addKnown {addrs : List PeerAddr} (h : p.candidates.get? a = none)
    (hmem : a ∈ addrs) :
    ∃ seq, (p.addKnown addrs).candidates.get? a = some (Candidate.fresh seq) := by
  induction addrs generalizing p with
  | nil => cases hmem
  | cons b addrs ih =>
    rw [addKnown_cons]
    have hmention := get?_mention (p := p) (a := a) (b := b)
    rw [h, Option.getD_none] at hmention
    by_cases hb : b = a
    · rw [if_pos hb] at hmention
      exact ⟨_, get?_addKnown_of_some hmention⟩
    · rw [if_neg hb] at hmention
      exact ih hmention ((List.mem_cons.mp hmem).resolve_left (Ne.symm hb))

/-! ### Failures in a row -/

/-- The failures since the last success of a candidate. -/
def failures? (p : ServerPool) (a : PeerAddr) : Option Nat :=
  (p.candidates.get? a).map Candidate.consecutiveFailures

theorem failures?_mention :
    (p.mention b).failures? a =
      if b = a then some ((p.failures? a).getD 0) else p.failures? a := by
  unfold failures?
  rw [get?_mention]
  split
  · cases p.candidates.get? a <;> rfl
  · rfl

/-- A change that keeps the failures in a row keeps the count of every address. -/
theorem failures?_update {f : Candidate → Candidate}
    (hf : ∀ c, (f c).consecutiveFailures = c.consecutiveFailures) :
    (p.update b f).failures? a = p.failures? a := by
  unfold failures? update
  rw [Table.get?_modify]
  split
  · rw [Option.map_map]
    exact Option.map_congr fun c _ => hf c
  · rfl

theorem failures?_addKnown {addrs : List PeerAddr} :
    (p.addKnown addrs).failures? a =
      if a ∈ addrs then some ((p.failures? a).getD 0) else p.failures? a := by
  induction addrs generalizing p with
  | nil => rfl
  | cons b addrs ih =>
    rw [addKnown_cons, ih, failures?_mention]
    by_cases hb : b = a
    · subst hb
      simp
    · simp [hb, Ne.symm hb]

theorem failures?_suggest : (p.suggest now).2.failures? a = p.failures? a := by
  unfold suggest
  split
  · exact failures?_update fun _ => rfl
  · rfl

theorem failures?_report_success :
    (p.report now b true).failures? a = if b = a then some 0 else p.failures? a := by
  simp only [report, if_true, failures?, update, clearBackOff, Table.get?_modify, get?_mention]
  split <;> rfl

/-- The failure of a dial is counted before the address is forgotten or left alone. -/
def countFailure (p : ServerPool) (a : PeerAddr) : ServerPool :=
  (p.mention a).update a fun c =>
    { c with
      failures := c.failures + 1
      consecutiveFailures := c.consecutiveFailures + 1
      state := .known }

/-- A failed dial is counted; the one that reaches the maximum forgets the address, every other
backs it off. -/
theorem report_failure :
    p.report now b false =
      if p.settings.maxConsecutiveFailures.toNat ≤ ((p.countFailure b).failures? b).getD 0 then
        (p.countFailure b).forget b
      else (p.countFailure b).backOff now b := by
  rw [← settings_mention (p := p) (a := b)]
  rfl

theorem failures?_countFailure :
    (p.countFailure b).failures? a =
      if b = a then some ((p.failures? a).getD 0 + 1) else p.failures? a := by
  simp only [countFailure, failures?, update, Table.get?_modify, get?_mention]
  split
  · cases p.candidates.get? a <;> rfl
  · rfl

theorem failures?_forget : (p.forget b).failures? a = if b = a then none else p.failures? a := by
  rw [failures?, forget, Table.get?_erase]
  split <;> rfl

/-- A dial that failed counts one more, unless it was the last one that is allowed. -/
theorem failures?_report_failure :
    (p.report now b false).failures? a =
      if b = a then
        if p.settings.maxConsecutiveFailures.toNat ≤ (p.failures? a).getD 0 + 1 then none
        else some ((p.failures? a).getD 0 + 1)
      else p.failures? a := by
  rw [report_failure, failures?_countFailure, if_pos rfl, Option.getD_some]
  by_cases hb : b = a
  · subst hb
    rw [if_pos rfl]
    split
    · rw [failures?_forget, if_pos rfl]
    · exact failures?_countFailure.trans (if_pos rfl)
  · rw [if_neg hb]
    split
    · rw [failures?_forget, if_neg hb, failures?_countFailure, if_neg hb]
    · exact failures?_countFailure.trans (if_neg hb)

theorem failures?_connected :
    (p.connected b).failures? a =
      if b = a then some ((p.failures? a).getD 0) else p.failures? a := by
  refine Eq.trans ?_ failures?_mention
  exact failures?_update (f := fun c => { c with state := .connected }) fun _ => rfl

theorem failures?_disconnected {evicted : Bool} :
    (p.disconnected now b evicted).failures? a = p.failures? a := by
  unfold disconnected
  split
  · simp only
    split <;> exact failures?_update fun _ => rfl
  · rfl

namespace Call

/-- The call reports that dialing the address succeeded. -/
def succeeds (a : PeerAddr) : Call → Bool
  | report _ b true => b = a
  | _ => false

/-- The call reports that dialing the address failed. -/
def fails (a : PeerAddr) : Call → Bool
  | report _ b false => b = a
  | _ => false

end Call

/-- What a call makes of the failures of an address. -/
inductive Tally (limit : Nat) (a : PeerAddr) (before : Option Nat) :
    Call → Option Nat → Prop where
  | rest {call : Call} (succeeds : call.succeeds a = false) (fails : call.fails a = false) :
      Tally limit a before call before
  | mentioned {call : Call} (succeeds : call.succeeds a = false) (fails : call.fails a = false)
      (new : before = none) : Tally limit a before call (some 0)
  | succeeded {now : Nat} : Tally limit a before (.report now a true) (some 0)
  | failed {now : Nat} (allowed : before.getD 0 + 1 < limit) :
      Tally limit a before (.report now a false) (some (before.getD 0 + 1))
  | forgotten {now : Nat} : Tally limit a before (.report now a false) none

omit [DelaySeries] in
/-- An address that may be mentioned is known from then on, and keeps its failures. -/
theorem Tally.mention {limit : Nat} {before : Option Nat} {call : Call} {mentioned : Prop}
    [Decidable mentioned] (succeeds : call.succeeds a = false) (fails : call.fails a = false) :
    Tally limit a before call (if mentioned then some (before.getD 0) else before) := by
  split
  · cases before with
    | none => exact .mentioned succeeds fails rfl
    | some k => exact .rest succeeds fails
  · exact .rest succeeds fails

/-- Each call does to the count of an address what the tally says. -/
theorem perform_tally (p : ServerPool) (call : Call) (a : PeerAddr) :
    Tally p.settings.maxConsecutiveFailures.toNat a (p.failures? a) call
      ((p.perform call).2.failures? a) := by
  cases call with
  | addKnown addrs =>
    rw [perform, failures?_addKnown]
    exact .mention rfl rfl
  | suggest now =>
    rw [perform, failures?_suggest]
    exact .rest rfl rfl
  | report now b success =>
    by_cases hb : b = a
    · subst hb
      cases success with
      | true =>
        rw [perform, failures?_report_success, if_pos rfl]
        exact .succeeded
      | false =>
        -- The failure that is one too many makes the pool forget the address, count and all.
        rw [perform, failures?_report_failure, if_pos rfl]
        split
        next => exact .forgotten
        next hallowed => exact .failed (Nat.lt_of_not_le hallowed)
    · have hother : decide (b = a) = false := decide_eq_false hb
      cases success with
      | true =>
        rw [perform, failures?_report_success, if_neg hb]
        exact .rest hother rfl
      | false =>
        rw [perform, failures?_report_failure, if_neg hb]
        exact .rest rfl hother
  | connected b =>
    rw [perform, failures?_connected]
    exact .mention rfl rfl
  | disconnected now b evicted =>
    rw [perform, failures?_disconnected]
    exact .rest rfl rfl

/-- How many dials of an address have failed since the last one that succeeded, or since the address
was last not known. -/
def failuresInRow (s : PoolSettings) (a : PeerAddr) (calls : List Call) : Nat :=
  ((sinceAbsent (fun calls => (after s calls).candidates.contains a) calls).takeWhile
    fun call => !call.succeeds a).countP (Call.fails a)

/-- The failures in a row start again with a success, and with an address that is not known. -/
theorem failuresInRow_cons {call : Call} :
    failuresInRow s a (call :: calls) =
      if call.succeeds a then 0
      else (if (after s calls).failures? a = none then 0 else failuresInRow s a calls) +
        if call.fails a then 1 else 0 := by
  have hcons : ∀ earlier : List Call,
      ((call :: earlier).takeWhile fun call => !call.succeeds a).countP (Call.fails a) =
        if call.succeeds a then 0
        else (earlier.takeWhile fun call => !call.succeeds a).countP (Call.fails a) +
          if call.fails a then 1 else 0 := by
    intro earlier
    rw [List.takeWhile_cons]
    cases call.succeeds a <;> simp [List.countP_cons]
  unfold failuresInRow
  rw [sinceAbsent, Table.contains, failures?]
  cases (after s calls).candidates.get? a with
  | none => exact hcons []
  | some c => exact hcons _

/-- A candidate counts its failures in a row, and they are fewer than are allowed. -/
theorem failures?_after (hallowed : 0 < s.maxConsecutiveFailures.toNat) {k : Nat}
    (h : (after s calls).failures? a = some k) :
    k = failuresInRow s a calls ∧ k < s.maxConsecutiveFailures.toNat := by
  induction calls generalizing k with
  | nil => cases h
  | cons call calls ih =>
    have htally := perform_tally (after s calls) call a
    rw [settings_after] at htally
    rw [failuresInRow_cons]
    replace h : ((after s calls).perform call).2.failures? a = some k := h
    rw [h] at htally
    generalize hbefore : (after s calls).failures? a = before at htally ih ⊢
    cases htally with
    | rest succeeds fails =>
      obtain ⟨hcount, hlt⟩ := ih rfl
      simpa [succeeds, fails] using ⟨hcount, hlt⟩
    | mentioned succeeds fails new => simpa [succeeds, fails, new] using hallowed
    | succeeded => simpa [Call.succeeds] using hallowed
    | failed allowed =>
      cases before with
      -- A first failure may be the first that is heard of the address.
      | none => simpa [Call.succeeds, Call.fails] using allowed
      | some before =>
        obtain ⟨hcount, _⟩ := ih rfl
        simpa [Call.succeeds, Call.fails, ← hcount] using allowed

/-! ### Numbers of calls -/

/-- The addresses that a call mentions, each time it does. -/
def Call.mentions : Call → List PeerAddr
  | .addKnown addrs => addrs
  | .suggest _ => []
  | .report _ a _ => [a]
  | .connected a => [a]
  | .disconnected _ _ _ => []

theorem nextSeq_mention_le : (p.mention a).nextSeq ≤ p.nextSeq + 1 := by
  unfold mention
  split <;> simp

theorem nextSeq_addKnown_le {addrs : List PeerAddr} :
    (p.addKnown addrs).nextSeq ≤ p.nextSeq + addrs.length := by
  induction addrs generalizing p with
  | nil => exact Nat.le_refl _
  | cons b addrs ih =>
    have hfirst : (p.mention b).nextSeq ≤ p.nextSeq + 1 := nextSeq_mention_le
    have hrest : ((p.mention b).addKnown addrs).nextSeq ≤ (p.mention b).nextSeq + addrs.length := ih
    rw [addKnown_cons, List.length_cons]
    omega

/-- A call uses up no more numbers than it mentions addresses. -/
theorem nextSeq_perform_le (p : ServerPool) (call : Call) :
    (p.perform call).2.nextSeq ≤ p.nextSeq + call.mentions.length := by
  cases call with
  | addKnown addrs => exact nextSeq_addKnown_le
  | suggest now => exact (suggest_onlyDials p now).nextSeq.le
  | report now a success =>
    simp only [perform, report]
    split
    · exact nextSeq_mention_le
    · split <;> exact nextSeq_mention_le
  | connected a => exact nextSeq_mention_le
  | disconnected now a evicted =>
    simp only [perform, disconnected]
    split
    · split <;> exact Nat.le_refl _
    · exact Nat.le_refl _

/-- No more numbers are given than addresses are mentioned. -/
theorem nextSeq_after_le (s : PoolSettings) (calls : List Call) :
    (after s calls).nextSeq ≤ (calls.flatMap Call.mentions).length := by
  induction calls with
  | nil => exact Nat.le_refl 0
  | cons call calls ih =>
    have hcall : (after s (call :: calls)).nextSeq ≤
        (after s calls).nextSeq + call.mentions.length := nextSeq_perform_le (after s calls) call
    rw [List.flatMap_cons, List.length_append]
    omega

/-- The candidate of an address has at most so many successes and failures. -/
def Counts (p : ServerPool) (a : PeerAddr) (successes failures : Nat) : Prop :=
  ∀ c, p.candidates.get? a = some c → c.successes ≤ successes ∧ c.failures ≤ failures

namespace Counts

variable {k l : Nat}

theorem mention (h : p.Counts a k l) : (p.mention b).Counts a k l := by
  intro c hc
  rw [get?_mention] at hc
  split at hc
  · cases hc
    cases hold : p.candidates.get? a with
    | none => exact ⟨Nat.zero_le _, Nat.zero_le _⟩
    | some old => exact h old hold
  · exact h c hc

theorem update {f : Candidate → Candidate} {i j : Nat} (h : p.Counts a k l)
    (hf : ∀ c, (f c).successes = c.successes + i ∧ (f c).failures = c.failures + j) :
    (p.update b f).Counts a (if b = a then k + i else k) (if b = a then l + j else l) := by
  intro c hc
  rw [ServerPool.update, Table.get?_modify] at hc
  split at hc
  next hb =>
    obtain ⟨old, hold, rfl⟩ := Option.map_eq_some_iff.mp hc
    rw [if_pos hb, if_pos hb, (hf old).1, (hf old).2]
    exact ⟨Nat.add_le_add_right (h old hold).1 i, Nat.add_le_add_right (h old hold).2 j⟩
  next hb =>
    rw [if_neg hb, if_neg hb]
    exact h c hc

/-- Another state makes no difference. -/
theorem alter (h : p.Counts a k l) (state : Candidacy) :
    (p.update b fun c => { c with state := state }).Counts a k l := by
  have hupdated := h.update (b := b) (f := fun c => { c with state := state }) (i := 0) (j := 0)
    fun _ => ⟨rfl, rfl⟩
  simpa using hupdated

/-- The intervals make no difference. -/
theorem of_same {p' : ServerPool} (h : p.Counts a k l) (hsame : p'.candidates = p.candidates) :
    p'.Counts a k l :=
  fun c hc => h c (hsame ▸ hc)

theorem forget (h : p.Counts a k l) : (p.forget b).Counts a k l := by
  intro c hc
  rw [ServerPool.forget, Table.get?_erase] at hc
  split at hc
  · cases hc
  · exact h c hc

theorem perform (h : p.Counts a k l) (call : Call) :
    (p.perform call).2.Counts a (if call.succeeds a then k + 1 else k)
      (if call.fails a then l + 1 else l) := by
  cases call with
  | addKnown addrs =>
    induction addrs generalizing p with
    | nil => exact h
    | cons b addrs ih => exact ih h.mention
  | suggest now =>
    simp only [ServerPool.perform, suggest]
    split
    · exact h.alter .dialing
    · exact h
  | report now b success =>
    cases success with
    | true =>
      have hupdated := h.mention (b := b) |>.update (b := b) (i := 1) (j := 0)
        (f := fun c => { c with
          successes := c.successes + 1, consecutiveFailures := 0, state := .connected })
        fun _ => ⟨rfl, rfl⟩
      have hcounted : (p.report now b true).Counts a _ _ := hupdated.of_same rfl
      simpa [ServerPool.perform, Call.succeeds, Call.fails] using hcounted
    | false =>
      -- counted first, then forgotten or left alone for a while
      have hcounted : (p.countFailure b).Counts a k (if b = a then l + 1 else l) := by
        have hupdated := h.mention (b := b) |>.update (b := b) (i := 0) (j := 1)
          (f := fun c => { c with
            failures := c.failures + 1
            consecutiveFailures := c.consecutiveFailures + 1
            state := .known })
          fun _ => ⟨rfl, rfl⟩
        simpa [countFailure] using hupdated
      have hreported : (p.report now b false).Counts a k (if b = a then l + 1 else l) := by
        rw [report_failure]
        split
        · exact hcounted.forget
        · exact hcounted.of_same rfl
      simpa [ServerPool.perform, Call.succeeds, Call.fails] using hreported
  | connected b => exact h.mention.alter .connected
  | disconnected now b evicted =>
    simp only [ServerPool.perform, disconnected]
    split
    · split <;> exact h.alter .known
    · exact h

end Counts

/-- A candidate has no more successes and failures than were reported. -/
theorem counts_after (s : PoolSettings) (calls : List Call) (a : PeerAddr) :
    (after s calls).Counts a (calls.countP (Call.succeeds a)) (calls.countP (Call.fails a)) := by
  induction calls with
  | nil => exact fun _ hc => nomatch hc
  | cons call calls ih =>
    have hcall : (after s (call :: calls)).Counts a
        (if call.succeeds a then calls.countP (Call.succeeds a) + 1
          else calls.countP (Call.succeeds a))
        (if call.fails a then calls.countP (Call.fails a) + 1 else calls.countP (Call.fails a)) :=
      ih.perform call
    rw [List.countP_cons, List.countP_cons]
    cases hsucceeds : call.succeeds a <;> cases hfails : call.fails a <;>
      simpa [hsucceeds, hfails] using hcall

/-! ### Intervals -/

/-- Only an address that is known and not connected is left alone. -/
def Rested (p : ServerPool) (a : PeerAddr) : Prop :=
  p.backOffs.get? a ≠ none → ∃ state, p.candidacy? a = some state ∧ state ≠ .connected

namespace Rested

theorem mention (h : p.Rested a) : (p.mention b).Rested a := by
  intro hbackOff
  rw [backOffs_mention] at hbackOff
  obtain ⟨state, hstate, hfree⟩ := h hbackOff
  refine ⟨state, ?_, hfree⟩
  rw [candidacy?_mention, hstate, Option.getD_some, ite_self]

theorem update {f : Candidate → Candidate} {state : Candidacy} (h : p.Rested a)
    (hf : ∀ c, (f c).state = state) (hfree : state ≠ .connected) : (p.update b f).Rested a := by
  intro hbackOff
  obtain ⟨before, hbefore, hfree'⟩ := h hbackOff
  rw [candidacy?_update state hf, hbefore]
  split
  · exact ⟨state, rfl, hfree⟩
  · exact ⟨before, rfl, hfree'⟩

/-- The interval of an address ends before the address can count as connected. -/
theorem connect {f : Candidate → Candidate} (h : p.Rested a)
    (hf : ∀ c, (f c).state = .connected) : ((p.update b f).clearBackOff b).Rested a := by
  intro hbackOff
  rw [clearBackOff, ServerPool.update, Table.get?_erase] at hbackOff
  split at hbackOff
  · exact absurd rfl hbackOff
  next hb =>
    obtain ⟨state, hstate, hfree⟩ := h hbackOff
    refine ⟨state, ?_, hfree⟩
    exact (candidacy?_update .connected hf).trans ((if_neg hb).trans hstate)

theorem forget (h : p.Rested a) : (p.forget b).Rested a := by
  intro hbackOff
  rw [ServerPool.forget, Table.get?_erase] at hbackOff
  split at hbackOff
  · exact absurd rfl hbackOff
  next hb =>
    obtain ⟨state, hstate, hfree⟩ := h hbackOff
    refine ⟨state, ?_, hfree⟩
    rw [candidacy?, ServerPool.forget, Table.get?_erase, if_neg hb, ← candidacy?, hstate]

theorem backOff (h : p.Rested a) (hknown : p.candidacy? b = some .known) :
    (p.backOff now b).Rested a := by
  intro hbackOff
  by_cases hb : b = a
  · subst hb
    exact ⟨.known, hknown, by decide⟩
  · rw [ServerPool.backOff, Table.get?_insert, if_neg hb] at hbackOff
    exact h hbackOff

-- Only a failed dial and the end of a connection begin an interval, and both of them leave the
-- address known and free.
theorem perform (h : p.Rested a) (call : Call) : (p.perform call).2.Rested a := by
  cases call with
  | addKnown addrs =>
    induction addrs generalizing p with
    | nil => exact h
    | cons b addrs ih => exact ih h.mention
  | suggest now =>
    simp only [ServerPool.perform, suggest]
    split
    · exact h.update (fun _ => rfl) (by decide)
    · exact h
  | report now b success =>
    cases success with
    | true => exact h.mention.connect fun _ => rfl
    | false =>
      have hcounted : (p.countFailure b).Rested a := h.mention.update (fun _ => rfl) (by decide)
      rw [ServerPool.perform, report_failure]
      split
      · exact hcounted.forget
      · apply hcounted.backOff
        rw [countFailure, candidacy?_update .known fun _ => rfl, if_pos rfl, candidacy?_mention,
          if_pos rfl]
        rfl
  | connected b => exact h.mention.connect fun _ => rfl
  | disconnected now b evicted =>
    have hupdated : (p.update b fun c => { c with state := .known }).Rested a :=
      h.update (fun _ => rfl) (by decide)
    simp only [ServerPool.perform, disconnected]
    split
    next hknown =>
      split
      · apply hupdated.backOff
        obtain ⟨c, hc⟩ := Option.isSome_iff_exists.mp hknown
        rw [candidacy?_update .known fun _ => rfl, if_pos rfl, candidacy?, hc]
        rfl
      · exact hupdated
    next => exact h

end Rested

/-- After any calls, an address that is backed off is there and not connected. -/
theorem rested_after (s : PoolSettings) (calls : List Call) (a : PeerAddr) :
    (after s calls).Rested a := by
  induction calls with
  | nil => exact fun h => absurd rfl h
  | cons call calls ih => exact ih.perform call

/-- What a pool keeps about the addresses after any calls, and how they rank. -/
structure Orderly (s : PoolSettings) (calls : List Call) : Prop where
  distinct {a b : PeerAddr} {c d : Candidate} (hc : (after s calls).candidates.get? a = some c)
    (hd : (after s calls).candidates.get? b = some d) (hseq : c.seq = d.seq) : a = b
  below {a : PeerAddr} {c : Candidate} (h : (after s calls).candidates.get? a = some c) :
    c.seq < (after s calls).nextSeq
  /-- There are no more numbers than addresses were mentioned, and a candidate has no more successes
  and failures than were reported. -/
  counted : (after s calls).nextSeq ≤ (calls.flatMap Call.mentions).length ∧
    ∀ a c, (after s calls).candidates.get? a = some c →
      c.successes ≤ calls.countP (Call.succeeds a) ∧ c.failures ≤ calls.countP (Call.fails a)
  /-- Whether a candidate is new can be told from its number. -/
  new_iff {a : PeerAddr} {c : Candidate}
    (h : ((after s calls).mention a).candidates.get? a = some c) :
    c.seq = (after s calls).nextSeq ↔ (after s calls).candidates.get? a = none
  /-- A candidate counts its failures in a row, and they are fewer than are allowed. -/
  failures {a : PeerAddr} {c : Candidate} (h : (after s calls).candidates.get? a = some c) :
    c.consecutiveFailures = failuresInRow s a calls ∧
      c.consecutiveFailures < s.maxConsecutiveFailures.toNat
  /-- Only a candidate that is not connected has an interval for which it is left alone. -/
  rested {a : PeerAddr} (h : (after s calls).backOffs.get? a ≠ none) :
    ∃ c, (after s calls).candidates.get? a = some c ∧ c.state ≠ .connected
  /-- An address that is not known, whatever was known of it before, begins afresh. -/
  afresh {a : PeerAddr} {addrs : List PeerAddr} (h : (after s calls).candidates.get? a = none)
    (hmem : a ∈ addrs) :
    ((after s calls).addKnown addrs).backOffs.get? a = none ∧
      ∃ seq, ((after s calls).addKnown addrs).candidates.get? a = some (Candidate.fresh seq)
  order : IsStrictTotalOrder { c // ∃ a, (after s calls).candidates.get? a = some c }
    fun c d => c.1.ranksBefore d.1 = true
  prefers (now : Nat) : (after s calls).Prefers now

/-- A pool with validated settings stays orderly, whatever it is asked for. -/
theorem stays_orderly (hs : s.validate = .ok ()) (calls : List Call) : Orderly s calls := by
  have hseq := sequenced_after s calls
  have hrested : ∀ {a}, (after s calls).backOffs.get? a ≠ none →
      ∃ c, (after s calls).candidates.get? a = some c ∧ c.state ≠ .connected := by
    intro a h
    obtain ⟨state, hstate, hfree⟩ := rested_after s calls a h
    obtain ⟨c, hc, rfl⟩ := Option.map_eq_some_iff.mp hstate
    exact ⟨c, hc, hfree⟩
  constructor
  case distinct => exact hseq.distinct
  case below => exact hseq.below
  case counted => exact ⟨nextSeq_after_le s calls, counts_after s calls⟩
  case new_iff => exact hseq.seq_eq_nextSeq_iff
  case failures =>
    intro a c hc
    have hfailures : (after s calls).failures? a = some c.consecutiveFailures := by
      rw [failures?, hc, Option.map_some]
    exact failures?_after (PoolSettings.maxConsecutiveFailures_pos hs) hfailures
  case rested => exact hrested
  case afresh =>
    intro a addrs hnone hmem
    refine ⟨?_, exists_fresh_of_addKnown hnone hmem⟩
    rw [backOffs_addKnown]
    by_contra hbackOff
    obtain ⟨c, hc, _⟩ := hrested hbackOff
    rw [hnone] at hc
    cases hc
  case order => exact hseq.isStrictTotalOrder
  case prefers => exact hseq.prefers (unique_after s calls)

end

/-- An address that was forgotten after two failures is mentioned again, and fails again. -/
theorem stays_orderly_of_retry :
    let s : PoolSettings := ⟨5000, 600000, 8, 2⟩
    let calls : List Call :=
      [.report 3 ⟨"a"⟩ false, .addKnown [⟨"b"⟩, ⟨"a"⟩], .report 2 ⟨"a"⟩ false,
        .report 1 ⟨"a"⟩ false, .addKnown [⟨"a"⟩]]
    s.validate = .ok () ∧ Orderly s calls ∧ failuresInRow s ⟨"a"⟩ calls = 1 ∧
      (after s calls).isBackedOff 3 ⟨"a"⟩ = true :=
  ⟨rfl, stays_orderly rfl _, by decide +kernel, by decide +kernel⟩

end ServerPool

end LightClient
