/-
Module: LightClient.Proofs.ServerPool.Intervals
Purpose: For how long an address is left alone: the intervals of a series grow by doubling up to the
  longest one, which repeats, and only a connection or the end of all interest ends the series.
Main exports: PoolSettings.interval, BackOff.getD_next, ServerPool.triggers,
  ServerPool.backOff?_after, ServerPool.OnSchedule, ServerPool.backs_off_on_schedule
-/
import LightClient.Proofs.ServerPool.Bookkeeping
import LightClient.Proofs.ServerPool.Delays

namespace LightClient

/-! ### The intervals of a series -/

namespace PoolSettings

variable {s : PoolSettings}

/-- The interval that the `k`th reason to leave an address alone begins. -/
def interval (s : PoolSettings) (k : Nat) : Nat :=
  min (BackOff.nanos s.firstBackOffMs * 2 ^ (min k (max s.backOffIntervals.toNat 1) - 1))
    (BackOff.nanos s.lastBackOffMs)

/-- Settings that pass validation have a first delay no longer than the last. -/
theorem first_le_last (h : s.validate = .ok ()) :
    BackOff.nanos s.firstBackOffMs ≤ BackOff.nanos s.lastBackOffMs := by
  unfold validate at h
  split at h
  · cases h
  next horder =>
    rw [UInt32.not_lt, UInt32.le_iff_toNat_le] at horder
    exact Nat.mul_le_mul_left 1000000 horder

/-- Intervals never get shorter within a series. -/
theorem interval_mono {j k : Nat} (h : j ≤ k) : s.interval j ≤ s.interval k := by
  have hplace : min j (max s.backOffIntervals.toNat 1) - 1 ≤
      min k (max s.backOffIntervals.toNat 1) - 1 := by omega
  have hgrows := Nat.mul_le_mul_left (BackOff.nanos s.firstBackOffMs)
    (Nat.pow_le_pow_right (show 0 < 2 by decide) hplace)
  unfold interval
  omega

/-- No interval is longer than the last delay. -/
theorem interval_le_last (k : Nat) : s.interval k ≤ BackOff.nanos s.lastBackOffMs :=
  Nat.min_le_right _ _

/-- From the last interval of the series on, nothing changes. -/
theorem interval_eq_of_le {j k : Nat} (hj : 1 ≤ j) (hlong : s.backOffIntervals.toNat ≤ j)
    (h : j ≤ k) : s.interval k = s.interval j := by
  have hmax : max s.backOffIntervals.toNat 1 ≤ j := Nat.max_le.mpr ⟨hlong, hj⟩
  rw [interval, interval, Nat.min_eq_right hmax, Nat.min_eq_right (hmax.trans h)]

/-- Even a series that is to have no interval has the first one. -/
theorem interval_eq_first (hs : s.validate = .ok ()) {k : Nat}
    (h : min k (max s.backOffIntervals.toNat 1) ≤ 1) :
    s.interval k = BackOff.nanos s.firstBackOffMs := by
  rw [interval, Nat.sub_eq_zero_of_le h, Nat.pow_zero, Nat.mul_one,
    Nat.min_eq_left (first_le_last hs)]

end PoolSettings

namespace BackOff

variable [DelaySeries] {s : PoolSettings}

/-- The interval that begins after the one that ran last, if one did. -/
def next (s : PoolSettings) (now : Nat) : Option BackOff → BackOff
  | some b => b.again now
  | none => begin s now

/-- Each interval comes from the series, and the one that ran last repeats once the series has run
out. -/
theorem getD_next [DelaySeries.Doubling] (hs : s.validate = .ok ()) (k : Nat) :
    (DelaySeries.next (DelaySeries.skip (intervals s) k)).1.getD (s.interval k) =
      s.interval (k + 1) := by
  have horder := PoolSettings.first_le_last hs
  rcases Nat.lt_or_ge k s.backOffIntervals.toNat with hmore | hended
  · have hplace : min (k + 1) (max s.backOffIntervals.toNat 1) - 1 = k := by omega
    rw [intervals, DelaySeries.Doubling.delay horder hmore, Option.getD_some,
      PoolSettings.interval, hplace]
  · rw [intervals, DelaySeries.Doubling.none horder hended, Option.getD_none]
    cases k with
    | zero =>
      rw [PoolSettings.interval_eq_first hs (by omega), PoolSettings.interval_eq_first hs (by omega)]
    | succ k => exact (PoolSettings.interval_eq_of_le (by omega) hended (by omega)).symm

end BackOff

namespace ServerPool

section

variable [DelaySeries] {s : PoolSettings} {calls : List Call} {p : ServerPool} {a b : PeerAddr}
  {now : Nat}

/-! ### What a call makes of the interval of an address -/

theorem backOff?_backOff :
    (p.backOff now b).backOffs.get? a =
      if b = a then some (BackOff.next p.settings now (p.backOffs.get? a))
      else p.backOffs.get? a := by
  unfold backOff
  rw [Table.get?_insert]
  split
  next hb =>
    subst hb
    cases p.backOffs.get? b <;> rfl
  next => rfl

theorem backOff?_clearBackOff :
    (p.clearBackOff b).backOffs.get? a = if b = a then none else p.backOffs.get? a :=
  Table.get?_erase p.backOffs b a

theorem backOff?_forget :
    (p.forget b).backOffs.get? a = if b = a then none else p.backOffs.get? a :=
  Table.get?_erase p.backOffs b a

theorem backOffs_countFailure : (p.countFailure b).backOffs = p.backOffs :=
  backOffs_mention

theorem settings_countFailure : (p.countFailure b).settings = p.settings :=
  settings_mention

/-- An address whose failure is counted is known. -/
theorem contains_countFailure : (p.countFailure b).candidates.contains b = true := by
  simp [countFailure, update, Table.contains, Table.get?_modify, get?_mention]

theorem not_contains_forget : (p.forget b).candidates.contains b = false := by
  simp [forget, Table.contains, Table.get?_erase]

namespace Call

/-- The call tells that the address was reached: dialing it succeeded, or there is a connection. -/
def reaches (a : PeerAddr) : Call → Bool
  | report _ b true => b = a
  | connected b => b = a
  | _ => false

end Call

/-- The call ends the series of intervals of an address: the address was reached, or it is forgotten
after one more dial that failed. -/
def settles (p : ServerPool) (a : PeerAddr) (call : Call) : Bool :=
  call.reaches a || call.fails a && !(p.perform call).2.candidates.contains a

/-- When the address began to be left alone, if the call is a reason to: a dial of it failed and it
is not forgotten, or it is known and a peer at it was evicted. -/
def trigger? (p : ServerPool) (a : PeerAddr) : Call → Option Nat
  | .report now b false =>
    if b = a ∧ (p.report now b false).candidates.contains a then some now else none
  | .disconnected now b true =>
    if b = a ∧ p.candidates.contains a then some now else none
  | _ => none

/-- A dial that failed ends the series if the address is forgotten, and begins the next interval if
it is not. -/
theorem backOff?_report_failure :
    (p.report now b false).backOffs.get? a =
      if b = a then
        if (p.report now b false).candidates.contains a then
          some (BackOff.next p.settings now (p.backOffs.get? a))
        else none
      else p.backOffs.get? a := by
  rw [report_failure]
  split
  next =>
    rw [backOff?_forget, backOffs_countFailure]
    split
    next hb =>
      subst hb
      rw [not_contains_forget]
      rfl
    next => rfl
  next =>
    rw [backOff?_backOff, backOffs_countFailure, settings_countFailure]
    split
    next hb =>
      subst hb
      have hknown : ((p.countFailure b).backOff now b).candidates.contains b = true :=
        contains_countFailure
      rw [if_pos hknown]
    next => rfl

theorem backOff?_disconnected {evicted : Bool} :
    (p.disconnected now b evicted).backOffs.get? a =
      if evicted ∧ b = a ∧ p.candidates.contains a then
        some (BackOff.next p.settings now (p.backOffs.get? a))
      else p.backOffs.get? a := by
  unfold disconnected
  by_cases hknown : p.candidates.contains b
  · cases evicted with
    | true =>
      rw [if_pos hknown, if_pos rfl, backOff?_backOff]
      by_cases hb : b = a
      · subst hb
        simp [update, hknown]
      · simp [update, hb]
    | false => simp [hknown, update]
  · by_cases hb : b = a
    · subst hb
      simp [hknown]
    · simp [hknown, hb]

theorem backOff?_perform (p : ServerPool) (call : Call) (a : PeerAddr) :
    (p.perform call).2.backOffs.get? a =
      if p.settles a call then none
      else match p.trigger? a call with
        | some now => some (BackOff.next p.settings now (p.backOffs.get? a))
        | none => p.backOffs.get? a := by
  cases call with
  | addKnown addrs =>
    simp only [perform, settles, trigger?, Call.reaches, Call.fails, backOffs_addKnown]
    rfl
  | suggest now =>
    simp only [perform, settles, trigger?, Call.reaches, Call.fails, suggest]
    split <;> rfl
  | report now b success =>
    cases success with
    | true =>
      simp only [perform, settles, trigger?, Call.reaches, Call.fails, report, if_true,
        backOff?_clearBackOff, update, backOffs_mention]
      by_cases hb : b = a <;> simp [hb]
    | false =>
      simp only [perform, settles, trigger?, Call.reaches, Call.fails, backOff?_report_failure]
      by_cases hb : b = a
      · subst hb
        by_cases hknown : (p.report now b false).candidates.contains b <;> simp [hknown]
      · simp [hb]
  | connected b =>
    simp only [perform, settles, trigger?, Call.reaches, Call.fails, connected,
      backOff?_clearBackOff, update, backOffs_mention]
    by_cases hb : b = a <;> simp [hb]
  | disconnected now b evicted =>
    simp only [perform, settles, trigger?, Call.reaches, Call.fails, backOff?_disconnected]
    cases evicted with
    | true => by_cases hb : b = a ∧ p.candidates.contains a <;> simp [hb]
    | false => simp

/-! ### The series of an address -/

/-- When an address began to be left alone, each time since its series last ended; the last time
first. -/
def triggers (s : PoolSettings) (a : PeerAddr) : List Call → List Nat
  | [] => []
  | call :: calls =>
    if (after s calls).settles a call then []
    else ((after s calls).trigger? a call).toList ++ triggers s a calls

/-- What is kept about a series: the intervals that are left, the one that runs, and when it
began. -/
def series (s : PoolSettings) : List Nat → Option BackOff
  | [] => none
  | now :: times =>
    some
      { series := DelaySeries.skip (BackOff.intervals s) (times.length + 1)
        interval := s.interval (times.length + 1)
        since := now }

/-- One more reason to leave the address alone takes the series on by one interval; a series that
has run out stays where it is. -/
theorem next_series [DelaySeries.Doubling] (hs : s.validate = .ok ()) (now : Nat)
    (times : List Nat) :
    some (BackOff.next s now (series s times)) = series s (now :: times) := by
  cases times with
  | nil =>
    have hfirst := BackOff.getD_next hs 0
    rw [PoolSettings.interval_eq_first hs (by omega)] at hfirst
    simp only [series, BackOff.next, BackOff.begin, List.length_nil, ← hfirst, DelaySeries.skip]
  | cons last times =>
    have hinterval := BackOff.getD_next hs (times.length + 1)
    simp only [series, BackOff.next, BackOff.again, List.length_cons, ← hinterval, DelaySeries.skip]

/-- What a pool keeps about an address is what its series has come to. -/
theorem backOff?_after [DelaySeries.Doubling] (hs : s.validate = .ok ()) (calls : List Call)
    (a : PeerAddr) : (after s calls).backOffs.get? a = series s (triggers s a calls) := by
  induction calls with
  | nil => rfl
  | cons call calls ih =>
    have hperform := backOff?_perform (after s calls) call a
    rw [settings_after, ih] at hperform
    refine Eq.trans hperform ?_
    rw [triggers]
    split
    · rfl
    · cases (after s calls).trigger? a call with
      | none => rfl
      | some now => exact next_series hs now _

/-- The later calls take a series on: none of them ends it. -/
def Continues (s : PoolSettings) (a : PeerAddr) (later calls : List Call) : Prop :=
  ∀ after' call before, later = after' ++ call :: before →
    (after s (before ++ calls)).settles a call = false

theorem triggers_of_continues {later : List Call} (h : Continues s a later calls) :
    ∃ more, triggers s a (later ++ calls) = more ++ triggers s a calls := by
  induction later with
  | nil => exact ⟨[], rfl⟩
  | cons call later ih =>
    obtain ⟨more, hmore⟩ := ih fun after' x before heq => h (call :: after') x before (heq ▸ rfl)
    have hgoes : (after s (later ++ calls)).settles a call = false := h [] call later rfl
    refine ⟨((after s (later ++ calls)).trigger? a call).toList ++ more, ?_⟩
    rw [List.cons_append, triggers, hgoes, hmore, List.append_assoc]
    rfl

/-! ### The schedule -/

/-- How long an address is left alone after any calls. -/
structure OnSchedule (s : PoolSettings) (calls : List Call) (a : PeerAddr) : Prop where
  /-- Without a reason since its series last ended, an address is never left alone. -/
  free (h : triggers s a calls = []) (now : Nat) : (after s calls).isBackedOff now a = false
  /-- After `k` reasons an address is left alone until the `k`th interval has run off. -/
  resting {last : Nat} {times : List Nat} (h : triggers s a calls = last :: times) (now : Nat) :
    (after s calls).isBackedOff now a = true ↔ now - last < s.interval (times.length + 1)
  bounded {b : BackOff} (h : (after s calls).backOffs.get? a = some b) :
    b.interval ≤ BackOff.nanos s.lastBackOffMs
  /-- The intervals of one series never shrink. -/
  grows {later : List Call} {b b' : BackOff} (hseries : Continues s a later calls)
    (h : (after s calls).backOffs.get? a = some b)
    (h' : (after s (later ++ calls)).backOffs.get? a = some b') : b.interval ≤ b'.interval
  /-- The last interval of a series repeats for ever. -/
  repeats {later : List Call} {b b' : BackOff} (hseries : Continues s a later calls)
    (h : (after s calls).backOffs.get? a = some b)
    (h' : (after s (later ++ calls)).backOffs.get? a = some b')
    (hlong : s.backOffIntervals.toNat ≤ (triggers s a calls).length) : b'.interval = b.interval

/-- The interval that runs is the one whose turn it is. -/
theorem interval_of_backOff? [DelaySeries.Doubling] (hs : s.validate = .ok ()) {b : BackOff}
    (h : (after s calls).backOffs.get? a = some b) :
    1 ≤ (triggers s a calls).length ∧ b.interval = s.interval (triggers s a calls).length := by
  rw [backOff?_after hs] at h
  cases htimes : triggers s a calls with
  | nil =>
    rw [htimes] at h
    cases h
  | cons last times =>
    rw [htimes] at h
    cases h
    exact ⟨Nat.le_add_left 1 _, rfl⟩

theorem length_triggers_le {later : List Call} (h : Continues s a later calls) :
    (triggers s a calls).length ≤ (triggers s a (later ++ calls)).length := by
  obtain ⟨more, hmore⟩ := triggers_of_continues h
  rw [hmore, List.length_append]
  exact Nat.le_add_left _ _

/-- An address is left alone for the first interval after the first reason to, and for twice as long
after each further one, up to the longest interval, until it is reached or forgotten. -/
theorem backs_off_on_schedule [DelaySeries.Doubling] (hs : s.validate = .ok ())
    (calls : List Call) (a : PeerAddr) : OnSchedule s calls a := by
  have hkept := backOff?_after hs calls a
  constructor
  case free =>
    intro h now
    rw [isBackedOff, hkept, h]
    rfl
  case resting =>
    intro last times h now
    rw [isBackedOff, hkept, h]
    exact decide_eq_true_iff
  case bounded =>
    intro b h
    rw [(interval_of_backOff? hs h).2]
    exact PoolSettings.interval_le_last _
  case grows =>
    intro later b b' hseries h h'
    rw [(interval_of_backOff? hs h).2, (interval_of_backOff? hs h').2]
    exact PoolSettings.interval_mono (length_triggers_le hseries)
  case repeats =>
    intro later b b' hseries h h' hlong
    obtain ⟨hsome, hinterval⟩ := interval_of_backOff? hs h
    rw [hinterval, (interval_of_backOff? hs h').2]
    exact PoolSettings.interval_eq_of_le hsome hlong (length_triggers_le hseries)

end

section

attribute [local instance] ExactDelays.series

/-- With the default settings, an address that failed twice and then had its peer evicted is left
alone for twenty seconds. -/
theorem backs_off_on_schedule_of_eviction :
    let calls : List Call :=
      [.disconnected 30000000000 ⟨"a"⟩ true, .report 7000000000 ⟨"a"⟩ false,
        .report 0 ⟨"a"⟩ false, .addKnown [⟨"a"⟩]]
    DelaySeries.Doubling ∧ PoolSettings.default.validate = .ok () ∧
      OnSchedule .default calls ⟨"a"⟩ ∧
      triggers .default ⟨"a"⟩ calls = [30000000000, 7000000000, 0] ∧
      (after .default calls).isBackedOff 49999999999 ⟨"a"⟩ = true ∧
      (after .default calls).isBackedOff 50000000000 ⟨"a"⟩ = false := by
  intro calls
  have hdoubling := ExactDelays.doubling
  have hschedule : OnSchedule .default calls ⟨"a"⟩ := backs_off_on_schedule rfl calls ⟨"a"⟩
  have htimes : triggers .default ⟨"a"⟩ calls = [30000000000, 7000000000, 0] := by
    decide +kernel
  have hresting := hschedule.resting htimes
  refine ⟨hdoubling, rfl, hschedule, htimes, (hresting _).mpr (by decide), ?_⟩
  rw [Bool.eq_false_iff, ne_eq, hresting]
  decide

end

end ServerPool

end LightClient
