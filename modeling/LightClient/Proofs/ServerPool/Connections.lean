/-
Module: LightClient.Proofs.ServerPool.Connections
Purpose: How far a server pool that hears of every change of a registry knows the addresses of the
  registered peers: until the last peer at an address is registered at another one, or one of
  several peers at an address leaves.
Main exports: Registry.addr?, Registry.Holds, Registry.Shift, Registry.perform_shift,
  Registry.Strands, Registry.Uncovers, Following, Turn.follows_iff, Following.follows_registry,
  Following.loses_registry
-/
import LightClient.Proofs.Registry
import LightClient.Proofs.ServerPool.Candidacy
import LightClient.Simulation.Libraries

namespace LightClient

/-! ### Where the registered peers are -/

namespace Registry

def addr? (r : Registry) (peer : PeerId) : Option PeerAddr :=
  (r.find? peer).bind fun record => record.info.addr

/-- Some registered peer has the address. -/
def Holds (r : Registry) (a : PeerAddr) : Prop :=
  ∃ peer, r.addr? peer = some a

/-- Another registered peer than the given one has the address. -/
def HeldBeside (r : Registry) (peer : PeerId) (a : PeerAddr) : Prop :=
  ∃ other, other ≠ peer ∧ r.addr? other = some a

variable {r r' : Registry} {peer : PeerId}

theorem addr?_insert {record : PeerRecord} {other : PeerId} :
    addr? { r with peers := r.peers.insert peer record } other =
      if peer = other then record.info.addr else r.addr? other := by
  simp only [addr?, find?, Table.get?_insert]
  split <;> rfl

theorem addr?_erase {other : PeerId} :
    addr? { r with peers := r.peers.erase peer } other =
      if peer = other then none else r.addr? other := by
  simp only [addr?, find?, Table.get?_erase]
  split <;> rfl

theorem addr?_of_find? {record : PeerRecord} (h : r.find? peer = some record) :
    r.addr? peer = record.info.addr := by
  rw [addr?, h]
  rfl

/-- A record that changes, but not in its address, changes nothing about where the peers are. -/
theorem addr?_insert_same {old new : PeerRecord} (h : r.find? peer = some old)
    (hsame : new.info.addr = old.info.addr) (other : PeerId) :
    addr? { r with peers := r.peers.insert peer new } other = r.addr? other := by
  rw [addr?_insert]
  split
  next heq =>
    subst heq
    rw [hsame, addr?_of_find? h]
  next => rfl

/-- What an operation does to the addresses of the peers, and what others are told of it. -/
inductive Shift (r r' : Registry) : List Event → Prop where
  | came {info : PeerInfo} (present : r'.find? info.id ≠ none)
      (addrs : ∀ other, r'.addr? other = if info.id = other then info.addr else r.addr? other) :
      Shift r r' [.registered info]
  | left {peer : PeerId} {info : PeerInfo} {reason : Removal} (absent : r'.find? peer = none)
      (last : info.addr = r.addr? peer)
      (addrs : ∀ other, r'.addr? other = if peer = other then none else r.addr? other) :
      Shift r r' [.removed info reason]
  | stayed {events : List Event} (quiet : ∀ e ∈ events, ∃ peer, e = .updated peer)
      (addrs : ∀ other, r'.addr? other = r.addr? other) : Shift r r' events

theorem Shift.refl : r.Shift r [] :=
  .stayed (List.forall_mem_nil _) fun _ => rfl

theorem Shift.update {old new : PeerRecord} (h : r.find? peer = some old)
    (hsame : new.info.addr = old.info.addr) :
    r.Shift { r with peers := r.peers.insert peer new } [.updated peer] :=
  .stayed (List.forall_mem_singleton.mpr ⟨peer, rfl⟩) (addr?_insert_same h hsame)

theorem Shift.remove {old : PeerRecord} {info : PeerInfo} {reason : Removal}
    (h : r.find? peer = some old) (hlast : info.addr = old.info.addr) :
    r.Shift { r with peers := r.peers.erase peer } [.removed info reason] := by
  refine .left ?_ (hlast.trans (addr?_of_find? h).symm) fun _ => addr?_erase
  exact (Table.get?_erase r.peers peer peer).trans (if_pos rfl)

/-- Every operation moves one peer, takes one out, or leaves all peers where they are. -/
theorem perform_shift (r : Registry) (op : Operation) :
    r.Shift (r.perform op).1 (r.perform op).2 := by
  cases op with
  | register info =>
    simp only [perform]
    rcases register_cases r info with ⟨old, _, heq⟩ | ⟨_, heq⟩
    · rw [heq]
      exact .came (by simp [find?, Table.get?_insert]) fun _ => addr?_insert
    · rw [heq]
      exact .came (by simp [find?, Table.get?_insert]) fun _ => addr?_insert
  | unregister peer =>
    simp only [perform]
    rcases unregister_cases r peer with ⟨old, hfind, heq⟩ | ⟨_, heq⟩
    · rw [heq]
      exact .remove hfind rfl
    · rw [heq]
      exact .refl
  | announce peer head =>
    simp only [perform]
    rcases announce_cases r peer head with ⟨old, hfind, heq⟩ | ⟨_, heq⟩
    · rw [heq]
      exact .update hfind rfl
    · rw [heq]
      exact .refl
  | tryBegin peer limit =>
    simp only [perform]
    cases hbegin : r.tryBegin peer limit with
    | none => exact .refl
    | some r' =>
      obtain ⟨old, hfind, _, rfl⟩ := tryBegin_eq_some hbegin
      exact .stayed (List.forall_mem_nil _) (addr?_insert_same hfind rfl)
  | record peer o =>
    simp only [perform]
    rcases record_cases r peer o with ⟨_, heq⟩ | ⟨old, hfind, ⟨_, heq⟩ | ⟨_, heq⟩⟩
    · rw [heq]
      exact .refl
    · rw [heq]
      exact .remove hfind (congrArg PeerInfo.addr PeerRecord.info_after)
    · rw [heq]
      exact .update hfind (congrArg PeerInfo.addr PeerRecord.info_after)

theorem addr?_of_absent (h : r.find? peer = none) : r.addr? peer = none := by
  rw [addr?, h]
  rfl

/-- After a change at one peer, an address is held there or at another peer. -/
theorem holds_iff {addr : Option PeerAddr} {a : PeerAddr}
    (h : ∀ other, r'.addr? other = if peer = other then addr else r.addr? other) :
    r'.Holds a ↔ addr = some a ∨ r.HeldBeside peer a := by
  constructor
  · rintro ⟨other, hother⟩
    rw [h] at hother
    split at hother
    next => exact .inl hother
    next hne => exact .inr ⟨other, Ne.symm hne, hother⟩
  · rintro (haddr | ⟨other, hne, hother⟩)
    · exact ⟨peer, by rw [h, if_pos rfl, haddr]⟩
    · exact ⟨other, by rw [h, if_neg (Ne.symm hne), hother]⟩

/-- An address is held by this peer, or by one beside it. -/
theorem holds_iff_at (peer : PeerId) {a : PeerAddr} :
    r.Holds a ↔ r.addr? peer = some a ∨ r.HeldBeside peer a := by
  apply holds_iff
  intro other
  split
  next heq => rw [heq]
  next => rfl

/-- The only peer at the address stays registered, but with another address or none. -/
def Strands (r r' : Registry) (a : PeerAddr) : Prop :=
  ∃ peer, r.addr? peer = some a ∧ r'.find? peer ≠ none ∧ r'.addr? peer ≠ some a ∧
    ¬ r.HeldBeside peer a

/-- A peer at the address leaves, and another one is there. -/
def Uncovers (r r' : Registry) (a : PeerAddr) : Prop :=
  ∃ peer, r.addr? peer = some a ∧ r'.find? peer = none ∧ r.HeldBeside peer a

/-- Where only one peer changes, an address is left behind by that peer or by none. -/
theorem strands_iff {addr : Option PeerAddr} {a : PeerAddr}
    (h : ∀ other, r'.addr? other = if peer = other then addr else r.addr? other) :
    r.Strands r' a ↔
      r.addr? peer = some a ∧ r'.find? peer ≠ none ∧ addr ≠ some a ∧ ¬ r.HeldBeside peer a := by
  have hpeer : r'.addr? peer = addr := (h peer).trans (if_pos rfl)
  constructor
  · rintro ⟨other, hhere, hpresent, hmoves, hbeside⟩
    rw [h] at hmoves
    split at hmoves
    next heq =>
      subst heq
      exact ⟨hhere, hpresent, hmoves, hbeside⟩
    next => exact absurd hhere hmoves
  · rintro ⟨hhere, hpresent, hmoves, hbeside⟩
    exact ⟨peer, hhere, hpresent, hpeer ▸ hmoves, hbeside⟩

/-- Where only one peer changes, an address is uncovered by that peer or by none. -/
theorem uncovers_iff {addr : Option PeerAddr} {a : PeerAddr}
    (h : ∀ other, r'.addr? other = if peer = other then addr else r.addr? other) :
    r.Uncovers r' a ↔ r.addr? peer = some a ∧ r'.find? peer = none ∧ r.HeldBeside peer a := by
  constructor
  · rintro ⟨other, hhere, habsent, hbeside⟩
    have hnone := (addr?_of_absent habsent).symm.trans (h other)
    split at hnone
    next heq =>
      subst heq
      exact ⟨hhere, habsent, hbeside⟩
    next =>
      rw [hhere] at hnone
      cases hnone
  · rintro ⟨hhere, habsent, hbeside⟩
    exact ⟨peer, hhere, habsent, hbeside⟩

end Registry

/-! ### What the pool makes of a change -/

namespace ServerPool

variable [DelaySeries] {p : ServerPool} {a : PeerAddr} {now : Nat} {info : PeerInfo}

/-- A registration connects the address that it carries and changes no other connection. -/
theorem connected_hear_registered :
    (p.hear now (.registered info)).candidacy? a = some .connected ↔
      info.addr = some a ∨ p.candidacy? a = some .connected := by
  simp only [hear]
  split
  next b haddr =>
    rw [candidacy?_connected, haddr]
    by_cases hb : b = a <;> simp [hb]
  next haddr => simp [haddr]

/-- A removal disconnects the address that it carries and changes no other connection. -/
theorem connected_hear_removed {reason : Registry.Removal} :
    (p.hear now (.removed info reason)).candidacy? a = some .connected ↔
      info.addr ≠ some a ∧ p.candidacy? a = some .connected := by
  simp only [hear]
  split
  next b haddr =>
    rw [candidacy?_disconnected, haddr]
    by_cases hb : b = a <;> simp [hb]
  next haddr => simp [haddr]

/-- A pool is deaf to updates. -/
theorem hear_of_quiet {events : List Registry.Event}
    (h : ∀ e ∈ events, ∃ peer, e = .updated peer) : events.foldl (hear · now) p = p := by
  induction events with
  | nil => rfl
  | cons e events ih =>
    obtain ⟨peer, rfl⟩ := h e List.mem_cons_self
    exact ih fun e he => h e (List.mem_cons_of_mem _ he)

theorem unique_hear {events : List Registry.Event} (h : p.candidates.Unique) :
    (events.foldl (hear · now) p).candidates.Unique := by
  induction events generalizing p with
  | nil => exact h
  | cons e events ih =>
    apply ih
    simp only [hear]
    split
    · split
      · exact unique_connected h
      · exact h
    · split
      · exact unique_disconnected h
      · exact h
    · exact h

/-- The pool has an address as connected exactly if a registered peer has it. -/
def Follows (p : ServerPool) (r : Registry) (a : PeerAddr) : Prop :=
  p.candidacy? a = some .connected ↔ r.Holds a

end ServerPool

/-! ### Registry and pool together -/

section

variable [DelaySeries]

/-- An operation on a registry that a pool listens to, and both as they were before. -/
structure Turn where
  registry : Registry
  pool : ServerPool
  operation : Registry.Operation

/-- The runs of a registry that a pool listens to: the operations so far, the last one first, and
both as they are now. The clock may show anything. -/
inductive Following (s : RegistrySettings) (t : PoolSettings) :
    List Turn → Registry → ServerPool → Prop where
  | start : Following s t [] (.empty s) (.empty t)
  | turn {past : List Turn} {r : Registry} {p : ServerPool} (run : Following s t past r p)
      (op : Registry.Operation) (now : Nat) :
      Following s t (⟨r, p, op⟩ :: past) (r.perform op).1
        ((r.perform op).2.foldl (ServerPool.hear · now) p)

/-- The given operations, each with a clock reading, and the registry and the pool after them; the
last one first. -/
def Turn.replay (s : RegistrySettings) (t : PoolSettings) :
    List (Registry.Operation × Nat) → List Turn × Registry × ServerPool
  | [] => ([], .empty s, .empty t)
  | (op, now) :: ops =>
    let (past, r, p) := replay s t ops
    (⟨r, p, op⟩ :: past, (r.perform op).1, (r.perform op).2.foldl (ServerPool.hear · now) p)

namespace Turn

variable {x : Turn} {a : PeerAddr}

def after (x : Turn) : Registry :=
  (x.registry.perform x.operation).1

/-- A pool that follows the registry at an address still does so after an operation, unless the
address is left behind or a peer at a shared address leaves. -/
theorem follows_iff (h : x.pool.Follows x.registry a) (now : Nat) :
    ((x.registry.perform x.operation).2.foldl (ServerPool.hear · now) x.pool).Follows x.after a ↔
      ¬ x.registry.Strands x.after a ∧ ¬ x.registry.Uncovers x.after a := by
  have hshift := x.registry.perform_shift x.operation
  obtain ⟨r, p, op⟩ := x
  simp only [after, ServerPool.Follows] at h hshift ⊢
  generalize (r.perform op).1 = r' at hshift ⊢
  generalize (r.perform op).2 = events at hshift ⊢
  cases hshift with
  | @came info present addrs =>
    rw [List.foldl_cons, List.foldl_nil, ServerPool.connected_hear_registered, h,
      Registry.holds_iff addrs, Registry.holds_iff_at info.id, Registry.strands_iff addrs,
      Registry.uncovers_iff addrs]
    by_cases hbeside : r.HeldBeside info.id a <;> simp [present, hbeside]
  | @left peer info reason absent last addrs =>
    rw [List.foldl_cons, List.foldl_nil, ServerPool.connected_hear_removed, h, last,
      Registry.holds_iff addrs, Registry.holds_iff_at peer, Registry.strands_iff addrs,
      Registry.uncovers_iff addrs]
    by_cases hhere : r.addr? peer = some a <;> simp [absent, hhere]
  | stayed quiet addrs =>
    have hstays : ¬ r.Strands r' a := by
      rintro ⟨peer, hhere, _, hmoves, _⟩
      exact hmoves ((addrs peer).trans hhere)
    have hcovered : ¬ r.Uncovers r' a := by
      rintro ⟨peer, hhere, habsent, _⟩
      rw [← addrs, Registry.addr?_of_absent habsent] at hhere
      cases hhere
    rw [ServerPool.hear_of_quiet quiet, h]
    simp only [Registry.Holds, addrs, hstays, hcovered, not_false_eq_true, and_self]

end Turn

namespace Following

variable {s : RegistrySettings} {t : PoolSettings} {past : List Turn} {r : Registry}
  {p : ServerPool}

theorem unique (run : Following s t past r p) : p.candidates.Unique := by
  induction run with
  | start => exact List.nodup_nil
  | turn run op now ih => exact ServerPool.unique_hear ih

/-- What a replay yields, the pool has come to by following the registry. -/
theorem replay (s : RegistrySettings) (t : PoolSettings) (ops : List (Registry.Operation × Nat)) :
    Following s t (Turn.replay s t ops).1 (Turn.replay s t ops).2.1 (Turn.replay s t ops).2.2 := by
  induction ops with
  | nil => exact .start
  | cons op ops ih => exact ih.turn op.1 op.2

/-- The pool has an address as connected exactly as long as a registered peer has it, at every
point of a run, if and only if the last peer at the address never registers again at another one
or at none, and no peer leaves while another one is there. As long as this is so, the address of a
registered peer is not suggested. -/
theorem follows_registry (run : Following s t past r p) (a : PeerAddr) :
    ((∀ x ∈ past, x.pool.Follows x.registry a) ∧ p.Follows r a ↔
        ∀ x ∈ past, ¬ x.registry.Strands x.after a ∧ ¬ x.registry.Uncovers x.after a) ∧
      ((∀ x ∈ past, ¬ x.registry.Strands x.after a ∧ ¬ x.registry.Uncovers x.after a) →
        ∀ now, (p.suggest now).1 = some a → ¬ r.Holds a) := by
  have hfollows : (∀ x ∈ past, x.pool.Follows x.registry a) ∧ p.Follows r a ↔
      ∀ x ∈ past, ¬ x.registry.Strands x.after a ∧ ¬ x.registry.Uncovers x.after a := by
    induction run with
    | start => simp [ServerPool.Follows, ServerPool.candidacy?, ServerPool.empty, Table.get?,
        Registry.Holds, Registry.addr?, Registry.find?, Registry.empty]
    | @turn past r p run op now ih =>
      have hstep (h : p.Follows r a) := Turn.follows_iff (x := ⟨r, p, op⟩) h now
      simp only [List.forall_mem_cons]
      constructor
      · rintro ⟨⟨hlast, hpast⟩, hnow⟩
        exact ⟨(hstep hlast).mp hnow, ih.mp ⟨hpast, hlast⟩⟩
      · rintro ⟨hop, hpast⟩
        obtain ⟨hpast, hlast⟩ := ih.mpr hpast
        exact ⟨⟨hlast, hpast⟩, (hstep hlast).mpr hop⟩
  refine ⟨hfollows, ?_⟩
  intro hquiet now hsuggest hholds
  have hconnected : p.candidacy? a = some .connected := (hfollows.mpr hquiet).2.mpr hholds
  rcases ServerPool.suggest_cases now run.unique with hnone | ⟨b, hsome, hknown⟩
  · rw [hnone] at hsuggest
    cases hsuggest
  · rw [hsome] at hsuggest
    obtain rfl : b = a := Option.some.inj hsuggest
    rw [hconnected] at hknown
    cases hknown

end Following

end

namespace Following

/-- What the peer with the given number announces, at the given address. -/
def visitor (number : UInt8) (addr : String) : PeerInfo :=
  ⟨⟨[number]⟩, some ⟨addr⟩, 2, [.body], ⟨0, .zero⟩⟩

/-- The only peer at an address registers again at another one. -/
def moving : List (Registry.Operation × Nat) :=
  [(.register (visitor 7 "b"), 1), (.register (visitor 7 "a"), 0)]

/-- One of two peers at an address leaves. -/
def parting : List (Registry.Operation × Nat) :=
  [(.unregister ⟨[7]⟩, 2), (.register (visitor 8 "a"), 1), (.register (visitor 7 "a"), 0)]

/-- The same where the only peer at an address moved. -/
theorem follows_registry_of_move :
    ∃ past r p, Following .default .default past r p ∧
      r.Holds ⟨"b"⟩ ∧ (p.suggest 5).1 = none ∧
      ((∀ x ∈ past, x.pool.Follows x.registry ⟨"b"⟩) ∧ p.Follows r ⟨"b"⟩ ↔
        ∀ x ∈ past, ¬ x.registry.Strands x.after ⟨"b"⟩ ∧ ¬ x.registry.Uncovers x.after ⟨"b"⟩) ∧
      ((∀ x ∈ past, ¬ x.registry.Strands x.after ⟨"b"⟩ ∧ ¬ x.registry.Uncovers x.after ⟨"b"⟩) →
        ∀ now, (p.suggest now).1 = some ⟨"b"⟩ → ¬ r.Holds ⟨"b"⟩) := by
  have hrun := Following.replay .default .default moving
  refine ⟨_, _, _, hrun, ?_, ?_, follows_registry hrun ⟨"b"⟩⟩
  · exact ⟨⟨[7]⟩, by decide +kernel⟩
  · decide +kernel

/-- An address can stay connected after the last peer there is gone, and the address of a
registered peer can be suggested for dialing. -/
theorem loses_registry :
    (¬ ∀ (s : RegistrySettings) (t : PoolSettings) (past : List Turn) (r : Registry)
        (p : ServerPool), Following s t past r p →
      ∀ a, p.candidacy? a = some .connected → r.Holds a) ∧
    ¬ ∀ (s : RegistrySettings) (t : PoolSettings) (past : List Turn) (r : Registry)
        (p : ServerPool), Following s t past r p →
      ∀ a now, (p.suggest now).1 = some a → ¬ r.Holds a := by
  constructor
  · intro hall
    obtain ⟨peer, hpeer⟩ := hall _ _ _ _ _ (Following.replay .default .default moving) ⟨"a"⟩
      (by decide +kernel)
    obtain ⟨record, hfind, haddr⟩ := Option.bind_eq_some_iff.mp hpeer
    have helsewhere : ∀ entry ∈ (Turn.replay .default .default moving).2.1.peers,
        entry.2.info.addr ≠ some ⟨"a"⟩ := by
      decide +kernel
    exact helsewhere _ (Table.mem_of_get? hfind) haddr
  · intro hall
    exact hall _ _ _ _ _ (Following.replay .default .default parting) ⟨"a"⟩ 5 (by decide +kernel)
      ⟨⟨[8]⟩, by decide +kernel⟩

end Following

end LightClient
