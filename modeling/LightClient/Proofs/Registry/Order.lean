/-
Module: LightClient.Proofs.Registry.Order
Purpose: The registered peers in the order in which they are asked. Registrations have numbers of
  their own, so no two peers rank alike, and the best of them do not depend on the order in which
  the table keeps them.
Main exports: PeerRecord.rank, PeerRecord.ranksBefore_lexicographic, PeerRecord.ranksBefore_iff,
  Registry.Sequenced, Registry.sequenced_after, Registry.Accepted, Registry.ranking_ranked,
  Registry.BestFirst, Registry.best_first
-/
import Mathlib.Data.Int.Order.Basic
import Mathlib.Data.Prod.Lex
import Mathlib.Order.OrderDual
import LightClient.Proofs.Ranking
import LightClient.Proofs.Registry.Records

namespace LightClient

namespace PeerRecord

/-- The place of a record among all: loaded scores downwards, then latencies upwards, then
registrations. -/
def rank (s : RegistrySettings) (r : PeerRecord) : ℤᵒᵈ ×ₗ ℕ ×ₗ ℕ :=
  toLex (OrderDual.toDual (Decimal.orderKey (r.loadedScore s)), toLex (r.latency, r.seq))

variable {s : RegistrySettings}

/-- The higher loaded score goes first, among equal ones the lower latency, and among equal ones of
these the earlier registration. -/
theorem ranksBefore_lexicographic (a b : PeerRecord) :
    a.ranksBefore s b = true ↔
      Decimal.orderKey (b.loadedScore s) < Decimal.orderKey (a.loadedScore s) ∨
        Decimal.orderKey (a.loadedScore s) = Decimal.orderKey (b.loadedScore s) ∧
          (a.latency < b.latency ∨ a.latency = b.latency ∧ a.seq < b.seq) := by
  unfold ranksBefore
  grind

/-- One record ranks before another by its place among all. -/
theorem ranksBefore_iff (a b : PeerRecord) : a.ranksBefore s b = true ↔ a.rank s < b.rank s := by
  rw [ranksBefore_lexicographic, rank, rank, Prod.Lex.toLex_lt_toLex, Prod.Lex.toLex_lt_toLex,
    OrderDual.toDual_lt_toDual, OrderDual.toDual_inj]

/-- Records of one rank have one number, since the number is the last part of the rank. -/
theorem seq_eq_of_rank_eq {a b : PeerRecord} (h : a.rank s = b.rank s) : a.seq = b.seq :=
  congrArg (fun x => (ofLex (ofLex x).2).2) h

instance : IsStrictOrder PeerRecord fun a b => a.ranksBefore s b = true :=
  isStrictOrder_of_rank ranksBefore_iff

end PeerRecord

namespace Registry

variable {r r' : Registry} {peer : PeerId}

/-! ### The order of registration -/

/-- Every peer has a registration of its own, and the next one is later than all of them. -/
def Sequenced (r : Registry) : Prop :=
  r.peers.Numbered PeerRecord.seq r.nextSeq

/-- Numbers stay unique and below the next one through every update. -/
theorem Sequenced.update (h : r.Sequenced) (hupdate : r.Update r') : r'.Sequenced := by
  cases hupdate with
  | none => exact h
  | renew found seq _ => exact Table.Numbered.renew h found seq
  | remove => exact Table.Numbered.erase h
  | enroll => exact Table.Numbered.enroll h rfl

/-- After any operations every peer has a registration of its own. -/
theorem sequenced_after (s : RegistrySettings) (past : List Operation) :
    (after s past).Sequenced := by
  induction past with
  | nil => exact Table.Numbered.empty
  | cons op past ih => exact ih.update (perform_update _ op)

/-- There are no more registrations than operations. -/
theorem nextSeq_after_le (s : RegistrySettings) (past : List Operation) :
    (after s past).nextSeq ≤ past.length := by
  induction past with
  | nil => exact Nat.le_refl 0
  | cons op past ih =>
    have hstep : (after s (op :: past)).nextSeq ≤ (after s past).nextSeq + 1 := by
      have hupdate := perform_update (after s past) op
      rw [after]
      generalize (perform (after s past) op).1 = r' at hupdate ⊢
      cases hupdate <;> simp
    exact hstep.trans (Nat.succ_le_succ ih)

/-! ### Ranking -/

/-- The record is that of a registered peer whose announcement passes the filter. -/
def Accepted (r : Registry) (accept : PeerInfo → Bool) (record : PeerRecord) : Prop :=
  (∃ peer, r.find? peer = some record) ∧ accept record.info = true

/-- The peers of the given views. -/
def shown (views : List Standing) : List PeerId :=
  views.map fun x => x.info.id

section

variable {accept : PeerInfo → Bool}

/-- Those that are ranked are the registered peers that pass the filter. -/
theorem Filed.accepted_iff (h : r.Filed) {record : PeerRecord} :
    r.Accepted accept record ↔ record ∈ r.ranked accept := by
  rw [h.mem_ranked, Accepted]
  refine and_congr_left' ⟨?_, fun hfind => ⟨_, hfind⟩⟩
  rintro ⟨peer, hfind⟩
  rw [h.ids peer record hfind]
  exact hfind

/-- Peers with registrations of their own rank differently. -/
theorem pairwise_rank_ne (hfiled : r.Filed) (hseq : r.Sequenced) :
    (r.peers.values.filter fun p => accept p.info).Pairwise
      fun a b => a.rank r.settings ≠ b.rank r.settings := by
  refine (List.pairwise_map.mpr ?_).filter _
  exact (hseq.pairwise hfiled.unique).imp fun hne heq => hne (PeerRecord.seq_eq_of_rank_eq heq)

/-- The ranked records are all that pass the filter, in the order of their ranks. -/
theorem ranking_ranked (hfiled : r.Filed) (hseq : r.Sequenced) (accept : PeerInfo → Bool) :
    Ranking (fun a b => a.ranksBefore r.settings b = true) (r.Accepted accept)
      (r.ranked accept) where
  ordered := (Ranking.mergeSort PeerRecord.ranksBefore_iff (pairwise_rank_ne hfiled hseq)).ordered
  mem_iff _ := hfiled.accepted_iff.symm

/-- The order in which the table keeps the peers does not matter. -/
theorem ranked_eq_of_perm (hfiled : r.Filed) (hseq : r.Sequenced)
    {peers : Table PeerId PeerRecord} (hperm : peers.Perm r.peers) :
    ranked { r with peers := peers } accept = r.ranked accept :=
  mergeSort_eq_of_perm PeerRecord.ranksBefore_iff (pairwise_rank_ne hfiled hseq)
    ((hperm.map Prod.snd).filter _)

/-- A ranking names each record that the caller accepts once. -/
theorem length_ranked (r : Registry) (accept : PeerInfo → Bool) :
    (r.ranked accept).length = r.peers.count fun record => accept record.info := by
  rw [ranked, List.length_mergeSort, Table.count, List.countP_eq_length_filter]

/-- The best peers are the first of the ranked ones. -/
theorem best_eq_take (r : Registry) (accept : PeerInfo → Bool) (limit : Option Nat) :
    r.best accept limit =
      ((r.ranked accept).take (limit.getD (r.ranked accept).length)).map
        (PeerRecord.standing r.settings) := by
  cases limit with
  | none => rw [Option.getD_none, List.take_length, best]
  | some n => rw [Option.getD_some, best, List.map_take]

/-- A peer is shown if its record is among the first ones. -/
theorem Filed.mem_shown_iff (h : r.Filed) {limit : Option Nat} {record : PeerRecord}
    (hrecord : r.Accepted accept record) :
    record.info.id ∈ shown (r.best accept limit) ↔
      record ∈ (r.ranked accept).take (limit.getD (r.ranked accept).length) := by
  rw [best_eq_take, shown, List.map_map]
  refine ⟨fun hmem => ?_, List.mem_map_of_mem⟩
  obtain ⟨found, hfound, hid⟩ := List.mem_map.mp hmem
  have hid : found.info.id = record.info.id := hid
  have hfind := (h.find?_of_ranked (List.mem_of_mem_take hfound)).1
  have hfind' := (h.find?_of_ranked (h.accepted_iff.mp hrecord)).1
  rw [hid, hfind'] at hfind
  cases hfind
  exact hfound

end

/-- The peers of a registry are ranked without ties, by loaded score, latency and registration, and
whoever asks for some of them is shown the first ones. -/
structure BestFirst (s : RegistrySettings) (past : List Operation) : Prop where
  distinct {peer other : PeerId} {a b : PeerRecord} (ha : (after s past).find? peer = some a)
    (hb : (after s past).find? other = some b) (hseq : a.seq = b.seq) : peer = other
  below {peer : PeerId} {record : PeerRecord} (h : (after s past).find? peer = some record) :
    record.seq < (after s past).nextSeq
  counted : (after s past).nextSeq ≤ past.length
  /-- The higher loaded score goes first, then the lower latency, then the earlier registration. -/
  lexicographic (a b : PeerRecord) : a.ranksBefore s b = true ↔
    Decimal.orderKey (b.loadedScore s) < Decimal.orderKey (a.loadedScore s) ∨
      Decimal.orderKey (a.loadedScore s) = Decimal.orderKey (b.loadedScore s) ∧
        (a.latency < b.latency ∨ a.latency = b.latency ∧ a.seq < b.seq)
  order : IsStrictTotalOrder { record // ∃ peer, (after s past).find? peer = some record }
    fun a b => a.1.ranksBefore s b.1 = true
  /-- The peers that pass a filter can be listed in this order. -/
  listed (accept : PeerInfo → Bool) : ∃ all : List PeerRecord,
    Ranking (fun a b => a.ranksBefore s b = true) ((after s past).Accepted accept) all
  /-- The first ones of that list are shown, as many as are asked for and as there are. -/
  best (accept : PeerInfo → Bool) (all : List PeerRecord)
    (h : Ranking (fun a b => a.ranksBefore s b = true) ((after s past).Accepted accept) all) :
    all.length = (after s past).peers.count (fun record => accept record.info) ∧
      (after s past).best accept none = all.map (PeerRecord.standing s) ∧
      ∀ n, (after s past).best accept (some n) = (all.take n).map (PeerRecord.standing s) ∧
        ((after s past).best accept (some n)).length = min n all.length
  once (accept : PeerInfo → Bool) (limit : Option Nat) :
    (shown ((after s past).best accept limit)).Nodup
  /-- Whoever is left out ranks after everybody who is shown. -/
  omitted (accept : PeerInfo → Bool) (limit : Option Nat) {a b : PeerRecord}
    (ha : (after s past).Accepted accept a) (hb : (after s past).Accepted accept b)
    (hshown : a.info.id ∈ shown ((after s past).best accept limit))
    (homitted : b.info.id ∉ shown ((after s past).best accept limit)) :
    a.ranksBefore s b = true
  /-- The order in which the table keeps the peers does not matter. -/
  unordered (accept : PeerInfo → Bool) (limit : Option Nat) (peers : Table PeerId PeerRecord)
    (h : peers.Perm (after s past).peers) :
    Registry.best { after s past with peers := peers } accept limit =
      (after s past).best accept limit

/-- After any operations the best peers come first, and the same ones whatever order the table has.
-/
theorem best_first (s : RegistrySettings) (past : List Operation) : BestFirst s past := by
  have hfiled := filed_after s past
  have hseq := sequenced_after s past
  have hranking := ranking_ranked hfiled hseq
  have hbest := best_eq_take (after s past)
  rw [settings_after] at hranking hbest
  constructor
  case distinct => exact hseq.distinct
  case below => exact hseq.below
  case counted => exact nextSeq_after_le s past
  case lexicographic => exact PeerRecord.ranksBefore_lexicographic
  case order =>
    refine isStrictTotalOrder_of_rank PeerRecord.ranksBefore_iff ?_
    -- equal ranks have equal registration numbers, and these are distinct
    rintro a b ⟨peer, ha⟩ ⟨other, hb⟩ hrank
    obtain rfl := hseq.distinct ha hb (PeerRecord.seq_eq_of_rank_eq hrank)
    exact Option.some.inj (ha.symm.trans hb)
  case listed =>
    exact fun accept => ⟨_, hranking accept⟩
  case best =>
    intro accept all hall
    obtain rfl : all = (after s past).ranked accept := hall.unique (hranking accept)
    have hunlimited := hbest accept none
    rw [Option.getD_none, List.take_length] at hunlimited
    refine ⟨length_ranked _ accept, hunlimited, fun n => ⟨hbest accept (some n), ?_⟩⟩
    rw [hbest, List.length_map, List.length_take]
    rfl
  case once =>
    intro accept limit
    rw [hbest, shown, List.map_map]
    refine ((List.take_sublist _ _).map _).nodup ?_
    -- two records with one identity are filed at the same place
    refine List.Nodup.map_on ?_ (hranking accept).nodup
    intro a ha b hb hid
    have hid : a.info.id = b.info.id := hid
    have hfind := (hfiled.find?_of_ranked ha).1
    rw [hid, (hfiled.find?_of_ranked hb).1] at hfind
    exact (Option.some.inj hfind).symm
  case omitted =>
    intro accept limit a b ha hb hshown homitted
    rw [hfiled.mem_shown_iff ha] at hshown
    rw [hfiled.mem_shown_iff hb] at homitted
    exact (hranking accept).before_of_not_mem_take hshown hb homitted
  case unordered =>
    intro accept limit peers hperm
    unfold Registry.best
    rw [ranked_eq_of_perm hfiled hseq hperm]

end Registry

end LightClient
