/-
Module: LightClient.Proofs.ServerPool.Order
Purpose: The addresses of a server pool in the order in which they are preferred. Candidates have
  numbers of their own, so no two of them rank alike, and what is suggested is the first of the
  preferred addresses at which nothing is going on.
Main exports: Candidate.rank, Candidate.ranksBefore_lexicographic, Candidate.ranksBefore_iff,
  ServerPool.Sequenced, ServerPool.Precedes, ServerPool.ranking_ranked, ServerPool.ranked_eq_filter,
  ServerPool.Prefers, ServerPool.Sequenced.prefers
-/
import Mathlib.Data.Int.Order.Basic
import Mathlib.Data.Prod.Lex
import Mathlib.Order.OrderDual
import LightClient.Proofs.Ranking
import LightClient.Proofs.ServerPool.Candidacy

namespace LightClient

namespace Candidate

/-- The place of a candidate among all: success ratios downwards, then successes downwards, then
first mentions. -/
def rank (c : Candidate) : ℤᵒᵈ ×ₗ ℕᵒᵈ ×ₗ ℕ :=
  toLex (OrderDual.toDual (Decimal.orderKey c.successRatio),
    toLex (OrderDual.toDual c.successes, c.seq))

/-- The higher success ratio goes first, among equal ones the more successes, and among equal ones of
these the earlier mention. -/
theorem ranksBefore_lexicographic (a b : Candidate) :
    a.ranksBefore b = true ↔
      Decimal.orderKey b.successRatio < Decimal.orderKey a.successRatio ∨
        Decimal.orderKey a.successRatio = Decimal.orderKey b.successRatio ∧
          (b.successes < a.successes ∨ a.successes = b.successes ∧ a.seq < b.seq) := by
  unfold ranksBefore
  grind

theorem ranksBefore_iff (a b : Candidate) : a.ranksBefore b = true ↔ a.rank < b.rank := by
  rw [ranksBefore_lexicographic, rank, rank, Prod.Lex.toLex_lt_toLex, Prod.Lex.toLex_lt_toLex,
    OrderDual.toDual_lt_toDual, OrderDual.toDual_inj, OrderDual.toDual_lt_toDual,
    OrderDual.toDual_inj]

theorem seq_eq_of_rank_eq {a b : Candidate} (h : a.rank = b.rank) : a.seq = b.seq :=
  congrArg (fun x => (ofLex (ofLex x).2).2) h

end Candidate

namespace ServerPool

def entryRanksBefore (x y : PeerAddr × Candidate) : Bool :=
  x.2.ranksBefore y.2

theorem entryRanksBefore_iff (x y : PeerAddr × Candidate) :
    entryRanksBefore x y = true ↔ x.2.rank < y.2.rank :=
  Candidate.ranksBefore_iff x.2 y.2

variable [DelaySeries] {p : ServerPool} {now : Nat} {accept : Candidate → Bool} {a b : PeerAddr}

/-- Every candidate has a number of its own, and the next one is above all of them. -/
def Sequenced (p : ServerPool) : Prop :=
  p.candidates.Numbered Candidate.seq p.nextSeq

/-- One address ranks before another. -/
def Precedes (p : ServerPool) (a b : PeerAddr) : Prop :=
  ∃ c d, p.candidates.get? a = some c ∧ p.candidates.get? b = some d ∧ c.ranksBefore d = true

/-- The address is that of a candidate that passes the filter, and is not left alone. -/
def Accepted (p : ServerPool) (now : Nat) (accept : Candidate → Bool) (a : PeerAddr) : Prop :=
  (∃ c, p.candidates.get? a = some c ∧ accept c = true) ∧ p.isBackedOff now a = false

theorem precedes_iff {c d : Candidate} (hc : p.candidates.get? a = some c)
    (hd : p.candidates.get? b = some d) : p.Precedes a b ↔ c.rank < d.rank := by
  unfold Precedes
  simp only [hc, hd, Option.some.injEq, exists_and_left, exists_eq_left']
  exact Candidate.ranksBefore_iff c d

instance : IsStrictOrder PeerAddr p.Precedes where
  irrefl a := by
    rintro ⟨c, d, hc, hd, hbefore⟩
    obtain rfl : c = d := Option.some.inj (hc.symm.trans hd)
    exact lt_irrefl _ ((Candidate.ranksBefore_iff c c).mp hbefore)
  trans a b e := by
    rintro ⟨c, d, hc, hd, hcd⟩ ⟨d', f, hd', hf, hdf⟩
    obtain rfl : d = d' := Option.some.inj (hd.symm.trans hd')
    refine (precedes_iff hc hf).mpr (lt_trans ?_ ((Candidate.ranksBefore_iff d f).mp hdf))
    exact (Candidate.ranksBefore_iff c d).mp hcd

/-- Of two candidates one ranks before the other. -/
theorem Sequenced.isStrictTotalOrder (h : p.Sequenced) :
    IsStrictTotalOrder { c // ∃ a, p.candidates.get? a = some c }
      fun c d => c.1.ranksBefore d.1 = true := by
  refine isStrictTotalOrder_of_rank Candidate.ranksBefore_iff ?_
  rintro c d ⟨a, hc⟩ ⟨b, hd⟩ hrank
  obtain rfl := h.distinct hc hd (Candidate.seq_eq_of_rank_eq hrank)
  exact Option.some.inj (hc.symm.trans hd)

/-! ### Ranking -/

theorem pairwise_rank_ne (hunique : p.candidates.Unique) (hseq : p.Sequenced) (now : Nat)
    (accept : Candidate → Bool) :
    (p.candidates.filter fun x => accept x.2 && !p.isBackedOff now x.1).Pairwise
      fun x y => x.2.rank ≠ y.2.rank :=
  ((hseq.pairwise hunique).imp fun hne heq => hne (Candidate.seq_eq_of_rank_eq heq)).filter _

theorem mem_ranked (hunique : p.candidates.Unique) :
    a ∈ p.ranked now accept ↔ p.Accepted now accept a := by
  simp only [ranked, List.mem_map, List.mem_mergeSort, List.mem_filter, Bool.and_eq_true,
    Bool.not_eq_true', Accepted]
  constructor
  · rintro ⟨⟨_, c⟩, ⟨hmem, haccept, hfree⟩, rfl⟩
    exact ⟨⟨c, Table.get?_of_mem hunique hmem, haccept⟩, hfree⟩
  · rintro ⟨⟨c, hc, haccept⟩, hfree⟩
    exact ⟨(a, c), ⟨Table.mem_of_get? hc, haccept, hfree⟩, rfl⟩

theorem ranking_ranked (hunique : p.candidates.Unique) (hseq : p.Sequenced) (now : Nat)
    (accept : Candidate → Bool) :
    Ranking p.Precedes (p.Accepted now accept) (p.ranked now accept) where
  ordered := by
    have hsorted := Ranking.mergeSort entryRanksBefore_iff
      (pairwise_rank_ne hunique hseq now accept)
    have hfind : ∀ x ∈ p.candidates.filter fun x => accept x.2 && !p.isBackedOff now x.1,
        p.candidates.get? x.1 = some x.2 := fun x hx =>
      Table.get?_of_mem hunique (List.mem_of_mem_filter hx)
    refine List.pairwise_map.mpr (hsorted.ordered.imp_of_mem ?_)
    intro x y hx hy hbefore
    exact ⟨x.2, y.2, hfind x ((hsorted.mem_iff x).mp hx), hfind y ((hsorted.mem_iff y).mp hy),
      hbefore⟩
  mem_iff _ := mem_ranked hunique

/-- The order in which the table keeps the candidates does not matter. -/
theorem ranked_eq_of_perm (hunique : p.candidates.Unique) (hseq : p.Sequenced)
    {candidates : Table PeerAddr Candidate} (hperm : candidates.Perm p.candidates) :
    ranked { p with candidates := candidates } now accept = p.ranked now accept :=
  congrArg (List.map Prod.fst) (mergeSort_eq_of_perm entryRanksBefore_iff
    (pairwise_rank_ne hunique hseq now accept) (hperm.filter _))

/-- Fewer candidates are ranked in the same order. -/
theorem ranked_eq_filter (hunique : p.candidates.Unique) (hseq : p.Sequenced) :
    p.ranked now accept =
      (p.ranked now fun _ => true).filter fun a => (p.candidates.get? a).any accept := by
  refine Ranking.unique (ranking_ranked hunique hseq now accept) ?_
  have hall := (ranking_ranked hunique hseq now fun _ => true).filter
    fun a => (p.candidates.get? a).any accept
  refine ⟨hall.ordered, fun a => (hall.mem_iff a).trans ?_⟩
  cases hc : p.candidates.get? a <;> simp [Accepted, hc, and_comm]

/-! ### Suggestions -/

/-- What is suggested is the first of the preferred addresses at which nothing is going on. -/
theorem suggest_eq_find? (hunique : p.candidates.Unique) (hseq : p.Sequenced) (now : Nat) :
    (p.suggest now).1 =
      (p.preferred now none).find? fun a => decide (p.candidacy? a = some .known) := by
  have hknown : (fun a => (p.candidates.get? a).any fun c => decide (c.state = .known)) =
      fun a => decide (p.candidacy? a = some .known) := by
    funext a
    cases hc : p.candidates.get? a <;> simp [candidacy?, hc]
  have hhead : (p.suggest now).1 = (p.ranked now fun c => decide (c.state = .known)).head? := by
    unfold suggest
    split
    next a hsome => exact hsome.symm
    next hnone => exact hnone.symm
  rw [hhead, ranked_eq_filter hunique hseq, hknown, List.head?_filter, preferred]

/-- A suggestion changes what is going on at the address that is suggested, and nothing else. -/
structure OnlyDials (p p' : ServerPool) (suggested : Option PeerAddr) : Prop where
  settings : p'.settings = p.settings
  nextSeq : p'.nextSeq = p.nextSeq
  backOffs : p'.backOffs = p.backOffs
  candidates (a : PeerAddr) : p'.candidates.get? a =
    if suggested = some a then (p.candidates.get? a).map fun c => { c with state := .dialing }
    else p.candidates.get? a

theorem suggest_onlyDials (p : ServerPool) (now : Nat) :
    p.OnlyDials (p.suggest now).2 (p.suggest now).1 := by
  unfold suggest
  split
  next b _ =>
    refine ⟨rfl, rfl, rfl, fun a => ?_⟩
    rw [update, Table.get?_modify]
    simp only [Option.some.injEq]
  next => exact ⟨rfl, rfl, rfl, fun a => (if_neg (Option.some_ne_none a).symm).symm⟩

/-- What is preferred and what is suggested at one time. -/
structure Prefers (p : ServerPool) (now : Nat) : Prop where
  /-- The higher success ratio goes first, then the more successes, then the earlier mention. -/
  lexicographic {a b : PeerAddr} {c d : Candidate} (hc : p.candidates.get? a = some c)
    (hd : p.candidates.get? b = some d) : p.Precedes a b ↔
      Decimal.orderKey d.successRatio < Decimal.orderKey c.successRatio ∨
        Decimal.orderKey c.successRatio = Decimal.orderKey d.successRatio ∧
          (d.successes < c.successes ∨ c.successes = d.successes ∧ c.seq < d.seq)
  /-- Every candidate that is not left alone is preferred, in the order of the ranks. -/
  listed : Ranking p.Precedes
    (fun a => p.candidates.get? a ≠ none ∧ p.isBackedOff now a = false) (p.preferred now none)
  once : (p.preferred now none).Nodup
  /-- A limit keeps the first ones. -/
  limited (n : Nat) : p.preferred now (some n) = (p.preferred now none).take n
  /-- The order in which the table keeps the candidates does not matter. -/
  unordered (limit : Option Nat) (candidates : Table PeerAddr Candidate)
    (h : candidates.Perm p.candidates) :
    preferred { p with candidates := candidates } now limit = p.preferred now limit
  /-- The first preferred address at which nothing is going on is suggested. -/
  suggested : (p.suggest now).1 =
    (p.preferred now none).find? fun a => decide (p.candidacy? a = some .known)
  none_iff : (p.suggest now).1 = none ↔
    ∀ a ∈ p.preferred now none, p.candidacy? a ≠ some .known
  /-- It counts as being dialed from then on, and nothing else changes. -/
  dials : p.OnlyDials (p.suggest now).2 (p.suggest now).1

theorem Sequenced.prefers (hseq : p.Sequenced) (hunique : p.candidates.Unique) (now : Nat) :
    p.Prefers now := by
  have hranking : Ranking p.Precedes
      (fun a => p.candidates.get? a ≠ none ∧ p.isBackedOff now a = false)
      (p.preferred now none) := by
    have hall := ranking_ranked hunique hseq now fun _ => true
    refine ⟨hall.ordered, fun a => (hall.mem_iff a).trans ?_⟩
    simp [Accepted, Option.ne_none_iff_exists']
  have hsuggested := suggest_eq_find? hunique hseq now
  constructor
  case lexicographic =>
    intro a b c d hc hd
    rw [precedes_iff hc hd, ← Candidate.ranksBefore_iff, Candidate.ranksBefore_lexicographic]
  case listed => exact hranking
  case once => exact hranking.nodup
  case limited => exact fun _ => rfl
  case unordered =>
    intro limit candidates hperm
    unfold preferred
    rw [ranked_eq_of_perm hunique hseq hperm]
  case suggested => exact hsuggested
  case none_iff =>
    rw [hsuggested, List.find?_eq_none]
    simp only [decide_eq_true_eq]
  case dials => exact suggest_onlyDials p now

end ServerPool

end LightClient
