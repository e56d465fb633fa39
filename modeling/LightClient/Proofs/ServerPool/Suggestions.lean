/-
Module: LightClient.Proofs.ServerPool.Suggestions
Purpose: When an address is suggested for dialing again: not before its dialing was reported or a
  connection to it was lost. A lost connection is enough, although the dialing goes on.
Main exports: ServerPool.Call, ServerPool.perform, ServerPool.Run, ServerPool.Change,
  ServerPool.Run.suggested_again, ServerPool.Run.suggested_twice
-/
import LightClient.Proofs.ServerPool.Candidacy
import LightClient.Proofs.Since
import LightClient.Simulation.Libraries

namespace LightClient

namespace ServerPool

/-! ### Calls -/

/-- What can be asked of a pool or told to it. -/
inductive Call where
  | addKnown (addrs : List PeerAddr)
  | suggest (now : Nat)
  | report (now : Nat) (addr : PeerAddr) (success : Bool)
  | connected (addr : PeerAddr)
  | disconnected (now : Nat) (addr : PeerAddr) (evicted : Bool)
  deriving DecidableEq

namespace Call

/-- The call reports the result of dialing the address. -/
def Reports (a : PeerAddr) : Call → Prop
  | report _ b _ => b = a
  | _ => False

/-- The call tells that a connection to the address is lost. -/
def Loses (a : PeerAddr) : Call → Prop
  | disconnected _ b _ => b = a
  | _ => False

/-- The call tells that there is a connection to the address. -/
def Connects (a : PeerAddr) : Call → Prop
  | connected b => b = a
  | _ => False

end Call

/-- The address was suggested, and no call since then is of the given kind. -/
def SuggestedWithout (kind : Call → Prop) (a : PeerAddr) (past : List (Call × Option PeerAddr)) :
    Prop :=
  Since (fun x => ∃ now, x = (.suggest now, some a)) (fun x => kind x.1) past

/-- An address stands suggested from the newest suggestion of it until a call of the given kind. -/
theorem suggestedWithout_cons {kind : Call → Prop} {a : PeerAddr} {call : Call}
    {answer : Option PeerAddr} {past : List (Call × Option PeerAddr)} :
    SuggestedWithout kind a ((call, answer) :: past) ↔
      (∃ now, call = .suggest now ∧ answer = some a) ∨
        ¬ kind call ∧ SuggestedWithout kind a past := by
  simp only [SuggestedWithout, since_cons, Prod.mk.injEq]

section

variable [DelaySeries] {p : ServerPool} {a : PeerAddr}

/-- What is suggested at a call, and the pool after it. -/
def perform (p : ServerPool) : Call → Option PeerAddr × ServerPool
  | .addKnown addrs => (none, p.addKnown addrs)
  | .suggest now => p.suggest now
  | .report now a success => (none, p.report now a success)
  | .connected a => (none, p.connected a)
  | .disconnected now a evicted => (none, p.disconnected now a evicted)

/-- The runs of a pool: the calls so far and what was suggested at each, the last call first, and
the pool now. -/
inductive Run (s : PoolSettings) : List (Call × Option PeerAddr) → ServerPool → Prop where
  | start : Run s [] (empty s)
  | call {past : List (Call × Option PeerAddr)} {p : ServerPool} (run : Run s past p)
      (call : Call) : Run s ((call, (p.perform call).1) :: past) (p.perform call).2

/-- What is suggested at each of the given calls, and the pool after them; the last call first. -/
def replay (s : PoolSettings) : List Call → List (Call × Option PeerAddr) × ServerPool
  | [] => ([], empty s)
  | call :: calls =>
    ((call, ((replay s calls).2.perform call).1) :: (replay s calls).1,
      ((replay s calls).2.perform call).2)

/-! ### What a call makes of an address -/

/-- What a call makes of what is going on at an address. -/
inductive Change (p : ServerPool) (a : PeerAddr) :
    Call → Option PeerAddr → Option Candidacy → Prop where
  | suggested {now : Nat} (known : p.candidacy? a = some .known) :
      Change p a (.suggest now) (some a) (some .dialing)
  | reported {now : Nat} {success : Bool} {state : Option Candidacy}
      (ended : state ≠ some .dialing) : Change p a (.report now a success) none state
  | connected : Change p a (.connected a) none (some .connected)
  | lost {now : Nat} {evicted : Bool} {state : Option Candidacy} (ended : state ≠ some .dialing) :
      Change p a (.disconnected now a evicted) none state
  | mentioned {addrs : List PeerAddr} (new : p.candidacy? a = none) :
      Change p a (.addKnown addrs) none (some .known)
  | rest {call : Call} {answer : Option PeerAddr} (other : answer ≠ some a)
      (reports : ¬ call.Reports a) (loses : ¬ call.Loses a) (connects : ¬ call.Connects a) :
      Change p a call answer (p.candidacy? a)

/-- Each call changes the state of an address as the table of changes says. -/
theorem perform_change (hunique : p.candidates.Unique) (call : Call) (a : PeerAddr) :
    p.Change a call (p.perform call).1 ((p.perform call).2.candidacy? a) := by
  cases call with
  | addKnown addrs =>
    simp only [perform, candidacy?_addKnown]
    split
    next hmem =>
      cases hstate : p.candidacy? a with
      | none => exact .mentioned hstate
      | some state =>
        have hrest : p.Change a (.addKnown addrs) none (p.candidacy? a) :=
          .rest (by simp) id id id
        rw [hstate] at hrest
        exact hrest
    next => exact .rest (by simp) id id id
  | suggest now =>
    simp only [perform]
    -- the pool suggests nothing, or an address that was known and is being dialed from now on
    rcases suggest_cases now hunique with heq | ⟨b, heq, hknown⟩
    · rw [heq]
      exact .rest (by simp) id id id
    · rw [heq]
      simp only
      rw [candidacy?_update .dialing fun _ => rfl]
      by_cases hb : b = a
      · subst hb
        rw [if_pos rfl, hknown]
        exact .suggested hknown
      · rw [if_neg hb]
        exact .rest (fun heq => hb (Option.some.inj heq)) id id id
  | report now b success =>
    simp only [perform]
    by_cases hb : b = a
    · subst hb
      apply Change.reported
      rcases candidacy?_report p now b success with
        ⟨heq, _⟩ | ⟨_, heq | heq⟩ <;>
      · rw [heq]
        simp
    · rw [candidacy?_report_of_ne hb]
      exact .rest (by simp) hb id id
  | connected b =>
    simp only [perform, candidacy?_connected]
    split
    next hb =>
      subst hb
      exact .connected
    next hb => exact .rest (by simp) id id hb
  | disconnected now b evicted =>
    simp only [perform, candidacy?_disconnected]
    split
    next hb =>
      subst hb
      apply Change.lost
      cases p.candidacy? b <;> simp
    next hb => exact .rest (by simp) id hb id

/-! ### Runs -/

namespace Run

variable {s : PoolSettings} {past : List (Call × Option PeerAddr)}

theorem unique (run : Run s past p) : p.candidates.Unique := by
  induction run with
  | start => exact List.nodup_nil
  | call run call ih =>
    cases call with
    | addKnown addrs => exact unique_addKnown ih
    | suggest now => exact unique_suggest ih
    | report now a success => exact unique_report ih
    | connected a => exact unique_connected ih
    | disconnected now a evicted => exact unique_disconnected ih

/-- What was suggested at an earlier call of a run was suggested by the pool of that time. -/
theorem cut {later earlier : List (Call × Option PeerAddr)} {x : Call × Option PeerAddr}
    (run : Run s (later ++ x :: earlier) p) :
    ∃ q, Run s earlier q ∧ x.2 = (q.perform x.1).1 := by
  induction later generalizing p with
  | nil =>
    cases run with
    | call run => exact ⟨_, run, rfl⟩
  | cons _ later ih =>
    cases run with
    | call run => exact ih run

/-- An address is being dialed as long as it was suggested and no call about it has come since. -/
theorem dialing_iff (run : Run s past p) (a : PeerAddr) :
    p.candidacy? a = some .dialing ↔
      SuggestedWithout (fun x => x.Reports a ∨ x.Loses a ∨ x.Connects a) a past := by
  induction run with
  | start => exact iff_of_false (by simp [candidacy?, empty, Table.get?]) not_since_nil
  | @call past p run call ih =>
    have hchange := perform_change run.unique call a
    rw [suggestedWithout_cons]
    generalize (p.perform call).1 = answer at hchange ⊢
    generalize (p.perform call).2.candidacy? a = state at hchange ⊢
    cases hchange with
    | suggested => exact iff_of_true rfl (.inl ⟨_, rfl, rfl⟩)
    | reported ended => simp [ended, Call.Reports]
    | connected => simp [Call.Connects]
    | lost ended => simp [ended, Call.Loses]
    | mentioned new =>
      rw [new] at ih
      simp [← ih]
    | rest other reports loses connects =>
      simp [ih, other, reports, loses, connects]

/-- An address that was suggested is being dialed or connected until its dialing is reported or a
connection to it is lost. -/
theorem engaged (run : Run s past p) {a : PeerAddr}
    (h : SuggestedWithout (fun x => x.Reports a ∨ x.Loses a) a past) :
    p.candidacy? a = some .dialing ∨ p.candidacy? a = some .connected := by
  induction run with
  | start => exact absurd h not_since_nil
  | @call past p run call ih =>
    have hchange := perform_change run.unique call a
    rw [suggestedWithout_cons] at h
    generalize (p.perform call).1 = answer at hchange h
    generalize (p.perform call).2.candidacy? a = state at hchange ⊢
    cases hchange with
    | suggested => exact .inl rfl
    | connected => exact .inr rfl
    | reported => simp [Call.Reports] at h
    | lost => simp [Call.Loses] at h
    | mentioned new =>
      simp only [reduceCtorEq, false_and, exists_false, false_or] at h
      rw [new] at ih
      simpa using ih h.2
    | rest other =>
      rcases h with ⟨_, _, hsuggested⟩ | h
      · exact absurd hsuggested other
      · exact ih h.2

/-- The run that makes the given calls one after the other. -/
theorem replay (s : PoolSettings) (calls : List Call) :
    Run s (ServerPool.replay s calls).1 (ServerPool.replay s calls).2 := by
  induction calls with
  | nil => exact .start
  | cons call calls ih => exact ih.call call

/-- An address is being dialed as long as it was suggested and no call about it has come since. It
is not suggested twice unless its dialing is reported, or a connection to it is lost, between the
two. -/
theorem suggested_again (run : Run s past p) :
    (∀ a, p.candidacy? a = some .dialing ↔
        SuggestedWithout (fun x => x.Reports a ∨ x.Loses a ∨ x.Connects a) a past) ∧
      ∀ later between earlier a now now',
        past = later ++ (.suggest now', some a) :: (between ++ (.suggest now, some a) :: earlier) →
        ∃ x ∈ between, x.1.Reports a ∨ x.1.Loses a := by
  refine ⟨run.dialing_iff, ?_⟩
  intro later between earlier a now now' hpast
  subst hpast
  obtain ⟨q, hrun, hagain⟩ := run.cut
  rcases suggest_cases now' hrun.unique with hnone | ⟨b, hsome, hknown⟩
  · rw [perform, hnone] at hagain
    cases hagain
  · rw [perform, hsome] at hagain
    obtain rfl : a = b := Option.some.inj hagain
    by_contra hfree
    -- without a call that frees the address, the pool of the second time would still hold it
    have hsuggested : SuggestedWithout (fun x => x.Reports a ∨ x.Loses a) a
        (between ++ (.suggest now, some a) :: earlier) :=
      ⟨between, _, earlier, rfl, ⟨now, rfl⟩, fun x hx hcall => hfree ⟨x, hx, hcall⟩⟩
    rcases hrun.engaged hsuggested with hstate | hstate
    · rw [hknown] at hstate
      cases hstate
    · rw [hknown] at hstate
      cases hstate

end Run

end

namespace Run

/-- A peer at an address that is being dialed connects by itself and leaves again. -/
def crossing : List Call :=
  [.suggest 2, .disconnected 1 ⟨"a"⟩ false, .connected ⟨"a"⟩, .suggest 0, .addKnown [⟨"a"⟩]]

theorem replay_crossing :
    (ServerPool.replay .default crossing).1 =
      [(.suggest 2, some ⟨"a"⟩), (.disconnected 1 ⟨"a"⟩ false, none), (.connected ⟨"a"⟩, none),
        (.suggest 0, some ⟨"a"⟩), (.addKnown [⟨"a"⟩], none)] := by
  decide +kernel

/-- The same where a peer connected by itself and left again. -/
theorem suggested_again_of_lost_connection :
    ∃ past p between earlier,
      Run .default past p ∧
        past = [] ++ (.suggest 2, some ⟨"a"⟩) ::
          (between ++ (.suggest 0, some ⟨"a"⟩) :: earlier) ∧
        p.candidacy? ⟨"a"⟩ = some .dialing ∧
        SuggestedWithout (fun x => x.Reports ⟨"a"⟩ ∨ x.Loses ⟨"a"⟩ ∨ x.Connects ⟨"a"⟩) ⟨"a"⟩
          past ∧
        ∃ x ∈ between, x.1.Reports ⟨"a"⟩ ∨ x.1.Loses ⟨"a"⟩ := by
  have hrun := Run.replay .default crossing
  rw [replay_crossing] at hrun
  obtain ⟨hdialing, hagain⟩ := suggested_again hrun
  have hstate : (ServerPool.replay .default crossing).2.candidacy? ⟨"a"⟩ = some .dialing := by
    decide +kernel
  let between : List (Call × Option PeerAddr) :=
    [(.disconnected 1 ⟨"a"⟩ false, none), (.connected ⟨"a"⟩, none)]
  let earlier : List (Call × Option PeerAddr) := [(.addKnown [⟨"a"⟩], none)]
  exact ⟨_, _, between, earlier, hrun, rfl, hstate, (hdialing _).mp hstate,
    hagain [] between earlier _ 0 2 rfl⟩

/-- An address can be suggested twice although its dialing was not reported in between. -/
theorem suggested_twice :
    ¬ ∀ (s : PoolSettings) (past : List (Call × Option PeerAddr)) (p : ServerPool), Run s past p →
      ∀ later between earlier a now now',
        past = later ++ (.suggest now', some a) :: (between ++ (.suggest now, some a) :: earlier) →
        ∃ x ∈ between, x.1.Reports a := by
  intro hall
  have hrun := Run.replay .default crossing
  rw [replay_crossing] at hrun
  obtain ⟨x, hx, hreports⟩ := hall _ _ _ hrun []
    [(.disconnected 1 ⟨"a"⟩ false, none), (.connected ⟨"a"⟩, none)] [(.addKnown [⟨"a"⟩], none)]
    ⟨"a"⟩ 0 2 rfl
  rcases List.mem_cons.mp hx with rfl | hx
  · exact hreports
  · obtain rfl := List.mem_singleton.mp hx
    exact hreports

end Run

end ServerPool

end LightClient
