/-
Module: LightClient.Proofs.Registry.Records
Purpose: What each operation makes of the record of the peer that it names, and what holds of the
  records after any run.
Main exports: Registry.perform_update, Registry.filed_after, Registry.settings_after,
  Registry.Course, Registry.perform_course, Registry.Amends
-/
import LightClient.Proofs.Registry.Notifications

namespace LightClient

namespace Registry

/-! ### Runs -/

section

variable {r r' : Registry}

/-- Every operation changes one record at most. -/
theorem perform_update (r : Registry) (op : Operation) : r.Update (r.perform op).1 := by
  cases op with
  | register info => exact register_update r info
  | unregister peer => exact unregister_update r peer
  | announce peer head => exact announce_update r peer head
  | tryBegin peer limit =>
    simp only [perform]
    cases hbegin : r.tryBegin peer limit with
    | none => exact .none
    | some r' => exact tryBegin_update hbegin
  | record peer o => exact record_update r peer o

/-- After any operations every record is filed under its own peer. -/
theorem filed_after (s : RegistrySettings) (past : List Operation) : (after s past).Filed := by
  induction past with
  | nil => exact .empty s
  | cons op past ih => exact ih.update (perform_update _ op)

theorem Update.settings (h : r.Update r') : r'.settings = r.settings := by
  cases h <;> rfl

/-- No operation changes the settings. -/
theorem settings_after (s : RegistrySettings) (past : List Operation) :
    (after s past).settings = s := by
  induction past with
  | nil => rfl
  | cons op past ih => exact (perform_update _ op).settings.trans ih

end

/-! ### What an operation makes of the record of its peer -/

/-- The record of the peer that an operation names, before and after it. The next registration has
the given number. -/
inductive Course (s : RegistrySettings) (next : Nat) :
    Option PeerRecord → Operation → Option PeerRecord → Prop where
  | comes (info : PeerInfo) :
      Course s next none (.register info) (some (PeerRecord.fresh info next))
  | renews (info : PeerInfo) (old : PeerRecord) :
      Course s next (some old) (.register info) (some { old with info := info })
  | leaves (peer : PeerId) (old : PeerRecord) : Course s next (some old) (.unregister peer) none
  | announces (peer : PeerId) (head : Head) (old : PeerRecord) :
      Course s next (some old) (.announce peer head)
        (some { old with info := { old.info with head := head } })
  | begins {peer : PeerId} {limit : Nat} {old : PeerRecord} (free : old.inFlight < limit) :
      Course s next (some old) (.tryBegin peer limit)
        (some { old with inFlight := old.inFlight + 1 })
  | refuses {peer : PeerId} {limit : Nat} {old : PeerRecord} (full : limit ≤ old.inFlight) :
      Course s next (some old) (.tryBegin peer limit) (some old)
  | stays {peer : PeerId} {o : Outcome} {old : PeerRecord}
      (tolerable : ¬(o ≠ .abandoned ∧ (old.after s o).isEvictable s = true)) :
      Course s next (some old) (.record peer o) (some (old.after s o))
  | evicted {peer : PeerId} {o : Outcome} {old : PeerRecord} (counts : o ≠ .abandoned)
      (evictable : (old.after s o).isEvictable s = true) :
      Course s next (some old) (.record peer o) none
  | unknown {op : Operation} (stranger : ∀ info, op ≠ .register info) : Course s next none op none

/-- What happens to the record of the peer that an operation names. -/
theorem perform_course (r : Registry) (op : Operation) :
    Course r.settings r.nextSeq (r.find? op.peer) op ((r.perform op).1.find? op.peer) := by
  cases op with
  | register info =>
    simp only [perform, Operation.peer]
    rcases register_cases r info with ⟨old, hfind, heq⟩ | ⟨hnone, heq⟩
    · rw [heq, hfind, find?_insert_self]
      exact .renews info old
    · rw [heq, hnone, find?_insert_self]
      exact .comes info
  | unregister peer =>
    simp only [perform, Operation.peer]
    rcases unregister_cases r peer with ⟨old, hfind, heq⟩ | ⟨hnone, heq⟩
    · rw [heq, hfind, find?_erase_self]
      exact .leaves peer old
    · rw [heq, hnone]
      exact .unknown (by rintro _ ⟨⟩)
  | announce peer head =>
    simp only [perform, Operation.peer]
    rcases announce_cases r peer head with ⟨old, hfind, heq⟩ | ⟨hnone, heq⟩
    · rw [heq, hfind, find?_insert_self]
      exact .announces peer head old
    · rw [heq, hnone]
      exact .unknown (by rintro _ ⟨⟩)
  | tryBegin peer limit =>
    simp only [perform, Operation.peer, tryBegin]
    cases hfind : r.find? peer with
    | none =>
      simp only [Option.getD_none, hfind]
      exact .unknown (by rintro _ ⟨⟩)
    | some old =>
      by_cases hfree : old.inFlight < limit
      · simp only [if_pos hfree, Option.getD_some, find?_insert_self]
        exact .begins hfree
      · simp only [if_neg hfree, Option.getD_none, hfind]
        exact .refuses (Nat.le_of_not_lt hfree)
  | record peer o =>
    simp only [perform, Operation.peer]
    rcases record_cases r peer o with ⟨hnone, heq⟩ | ⟨old, hfind, ⟨hevict, heq⟩ | ⟨hstay, heq⟩⟩
    · rw [heq, hnone]
      exact .unknown (by rintro _ ⟨⟩)
    · rw [heq, hfind, find?_erase_self]
      exact .evicted hevict.1 hevict.2
    · rw [heq, hfind, find?_insert_self]
      exact .stays hstay

/-- The registries differ in the record of one peer, which has changed in the given way, if the peer
is known at all. -/
structure Amends (r r' : Registry) (peer : PeerId) (change : PeerRecord → PeerRecord) : Prop where
  settings : r'.settings = r.settings
  nextSeq : r'.nextSeq = r.nextSeq
  changed : r'.find? peer = (r.find? peer).map change
  others : r.AgreesBeside r' peer

section

variable {r r' : Registry} {peer : PeerId}

theorem Amends.insert (change : PeerRecord → PeerRecord) {old : PeerRecord}
    (h : r.find? peer = some old) :
    r.Amends { r with peers := r.peers.insert peer (change old) } peer change where
  settings := rfl
  nextSeq := rfl
  changed := by
    rw [h]
    exact find?_insert_self
  others := agreesBeside_insert

/-- To a peer that is known, a registration means a new announcement. -/
theorem register_amends (r : Registry) (info : PeerInfo) (known : r.find? info.id ≠ none) :
    r.Amends (r.register info).1 info.id fun old => { old with info := info } := by
  rcases register_cases r info with ⟨old, hfind, heq⟩ | ⟨hnone, _⟩
  · rw [heq]
    exact .insert (fun old => { old with info := info }) hfind
  · exact absurd hnone known

/-- A request that was given up counts no more, and that is all. -/
theorem record_abandoned_amends (r : Registry) (peer : PeerId) :
    r.Amends (r.record peer .abandoned).1 peer
      fun old => { old with inFlight := old.inFlight - 1 } := by
  rcases record_cases r peer .abandoned with ⟨hnone, heq⟩ | ⟨old, hfind, ⟨hevict, _⟩ | ⟨_, heq⟩⟩
  · rw [heq]
    exact ⟨rfl, rfl, by rw [hnone]; rfl, fun _ _ => rfl⟩
  · exact absurd rfl hevict.1
  · rw [heq]
    exact .insert (fun old => { old with inFlight := old.inFlight - 1 }) hfind

/-- A place that is reserved is counted, and nothing else changes. -/
theorem tryBegin_amends {limit : Nat} (h : r.tryBegin peer limit = some r') :
    r.Amends r' peer fun old => { old with inFlight := old.inFlight + 1 } := by
  obtain ⟨old, hfind, _, rfl⟩ := tryBegin_eq_some h
  exact .insert (fun old => { old with inFlight := old.inFlight + 1 }) hfind

end

end Registry

end LightClient
