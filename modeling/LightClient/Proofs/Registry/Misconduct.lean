/-
Module: LightClient.Proofs.Registry.Misconduct
Purpose: No peer stays with as many invalid proofs as the settings speak of. Its record counts every
  one of them since it came, and nothing but leaving makes the registry forget them.
Main exports: Registry.invalidProofs, Registry.invalidProofs_of_find?, Registry.samples_le,
  Registry.Disciplined, Registry.disciplined
-/
import LightClient.Proofs.Registry.Records
import LightClient.Proofs.Since

namespace LightClient

/-- Settings that pass the check allow for some invalid proof. -/
theorem RegistrySettings.maxInvalidProofs_pos {s : RegistrySettings} (h : s.validate = .ok ()) :
    0 < s.maxInvalidProofs.toNat := by
  by_contra hnone
  have hzero : s.maxInvalidProofs = 0 := UInt32.toNat_inj.mp (Nat.eq_zero_of_not_pos hnone)
  unfold validate at h
  split at h
  · cases h
  · split at h
    · cases h
    · split at h
      · cases h
      · cases h

namespace Registry

/-- The operation records an invalid proof of the peer. -/
def Operation.isInvalidProof (peer : PeerId) : Operation → Bool
  | .record other .invalidProof => other = peer
  | _ => false

/-- The operation records an outcome that counts as a sample of the peer. -/
def Operation.isSample (peer : PeerId) : Operation → Bool
  | .record other o => other = peer ∧ o ≠ .abandoned
  | _ => false

/-- How many invalid proofs of a peer were recorded since it last came. -/
def invalidProofs (s : RegistrySettings) (peer : PeerId) (past : List Operation) : Nat :=
  (sinceAbsent (fun past => ((after s past).find? peer).isSome) past).countP
    (Operation.isInvalidProof peer)

section

variable {s : RegistrySettings} {past : List Operation} {op : Operation} {peer : PeerId}

/-- What was recorded of an earlier stay no longer counts. -/
theorem invalidProofs_cons :
    invalidProofs s peer (op :: past) =
      (if (after s past).find? peer = none then 0 else invalidProofs s peer past) +
        if op.isInvalidProof peer then 1 else 0 := by
  unfold invalidProofs
  rw [sinceAbsent]
  cases hfind : (after s past).find? peer with
  | none => simp [List.countP_cons]
  | some record => simp [List.countP_cons]

/-- An operation on another peer is no invalid proof of this one. -/
theorem isInvalidProof_of_ne (h : op.peer ≠ peer) : op.isInvalidProof peer = false := by
  cases op with
  | record other o => cases o <;> simp_all [Operation.isInvalidProof, Operation.peer]
  | register | unregister | announce | tryBegin => rfl

end

end Registry

namespace PeerRecord

variable {s : RegistrySettings} {r : PeerRecord} {o : Outcome}

/-- No other outcome moves the count of invalid proofs. -/
theorem invalidProofs_after :
    (r.after s o).invalidProofs = r.invalidProofs + if o = .invalidProof then 1 else 0 := by
  cases o <;> rfl

/-- Every outcome but an abandoned one is a sample. -/
theorem samples_after :
    (r.after s o).samples = r.samples + if o = .abandoned then 0 else 1 := by
  cases o <;> rfl

/-- A record with as many invalid proofs as are allowed cannot be kept. -/
theorem isEvictable_of_le (h : s.maxInvalidProofs.toNat ≤ r.invalidProofs) :
    r.isEvictable s = true := by
  simp [isEvictable, h]

end PeerRecord

namespace Registry

section

variable {s : RegistrySettings} {past : List Operation} {peer : PeerId}

/-- What an operation makes of the count of invalid proofs of the peer that it names, if the peer is
registered afterwards. -/
theorem Course.invalidProofs_eq {next : Nat} {before now : Option PeerRecord} {op : Operation}
    {record : PeerRecord} (h : Course s next before op now) (hnow : now = some record) :
    record.invalidProofs =
      (before.map PeerRecord.invalidProofs).getD 0 +
        if op.isInvalidProof op.peer then 1 else 0 := by
  subst hnow
  cases h with
  | comes | renews | announces | begins | refuses => rfl
  | @stays _ o =>
    rw [PeerRecord.invalidProofs_after]
    cases o <;> simp [Operation.isInvalidProof, Operation.peer]

/-- A peer that stays has fewer invalid proofs than are allowed, if it had so before. -/
theorem Course.invalidProofs_lt {next : Nat} {before now : Option PeerRecord} {op : Operation}
    {record : PeerRecord} (h : Course s next before op now) (hnow : now = some record)
    (hallowed : 0 < s.maxInvalidProofs.toNat)
    (hbefore : ∀ old, before = some old → old.invalidProofs < s.maxInvalidProofs.toNat) :
    record.invalidProofs < s.maxInvalidProofs.toNat := by
  subst hnow
  cases h with
  | comes => exact hallowed
  | renews _ old | announces _ _ old | @begins _ _ old => exact hbefore old rfl
  | refuses => exact hbefore record rfl
  | @stays _ o old tolerable =>
    by_cases habandoned : o = .abandoned
    · subst habandoned
      exact hbefore old rfl
    · refine Nat.lt_of_not_le fun hreached => tolerable ⟨habandoned, ?_⟩
      exact PeerRecord.isEvictable_of_le hreached

/-- An operation adds one sample at most. -/
theorem Course.samples_le {next : Nat} {before now : Option PeerRecord} {op : Operation}
    {record : PeerRecord} (h : Course s next before op now) (hnow : now = some record) :
    record.samples ≤ (before.map PeerRecord.samples).getD 0 +
      if op.isSample op.peer then 1 else 0 := by
  subst hnow
  cases h with
  | comes | renews | announces | begins | refuses => exact Nat.le_add_right _ _
  | @stays _ o =>
    rw [PeerRecord.samples_after]
    by_cases habandoned : o = .abandoned <;>
      simp [Operation.isSample, Operation.peer, habandoned]

/-- A record has no more samples than outcomes were recorded of its peer. -/
theorem samples_le {record : PeerRecord} (h : (after s past).find? peer = some record) :
    record.samples ≤ past.countP (Operation.isSample peer) := by
  induction past generalizing record with
  | nil => cases h
  | cons op past ih =>
    rw [List.countP_cons]
    by_cases hpeer : op.peer = peer
    · subst hpeer
      have hcourse := perform_course (after s past) op
      rw [settings_after] at hcourse
      refine (hcourse.samples_le h).trans (Nat.add_le_add_right ?_ _)
      cases hbefore : (after s past).find? op.peer with
      | none => exact Nat.zero_le _
      | some old => exact ih hbefore
    · have hbefore := (perform_change (after s past) op).agreesBeside peer (Ne.symm hpeer)
      rw [after, hbefore] at h
      exact (ih h).trans (Nat.le_add_right _ _)

/-- The record of a registered peer counts its invalid proofs since it came, and they are fewer than
are allowed. -/
theorem invalidProofs_of_find? (hallowed : 0 < s.maxInvalidProofs.toNat) {record : PeerRecord}
    (h : (after s past).find? peer = some record) :
    record.invalidProofs = invalidProofs s peer past ∧
      record.invalidProofs < s.maxInvalidProofs.toNat := by
  induction past generalizing record with
  | nil => cases h
  | cons op past ih =>
    rw [invalidProofs_cons]
    have hcourse := perform_course (after s past) op
    rw [settings_after] at hcourse
    by_cases hpeer : op.peer = peer
    · subst hpeer
      have hcount := hcourse.invalidProofs_eq h
      refine ⟨?_, hcourse.invalidProofs_lt h hallowed fun old hold => (ih hold).2⟩
      rw [hcount]
      cases hbefore : (after s past).find? op.peer with
      | none => rfl
      | some old => simp [(ih hbefore).1]
    -- What is done to another peer changes neither the record nor the count.
    · have hbefore := (perform_change (after s past) op).agreesBeside peer (Ne.symm hpeer)
      rw [after, hbefore] at h
      obtain ⟨hcount, hlt⟩ := ih h
      refine ⟨?_, hlt⟩
      simp [h, hcount, isInvalidProof_of_ne hpeer]

/-- With the invalid proof that reaches the number allowed a registered peer is gone, and others are
told why. -/
theorem record_invalidProof_of_le {r : Registry} {record : PeerRecord}
    (h : r.find? peer = some record)
    (hreached : r.settings.maxInvalidProofs.toNat ≤ record.invalidProofs + 1) :
    r.record peer .invalidProof =
      ({ r with peers := r.peers.erase peer }, [.removed record.info .evicted]) := by
  have hevictable : (record.after r.settings .invalidProof).isEvictable r.settings = true := by
    apply PeerRecord.isEvictable_of_le
    rw [PeerRecord.invalidProofs_after, if_pos rfl]
    exact hreached
  rcases record_cases r peer .invalidProof with
    ⟨hnone, _⟩ | ⟨old, hfind, ⟨_, heq⟩ | ⟨hstays, _⟩⟩
  · rw [h] at hnone
    cases hnone
  · rw [h] at hfind
    cases hfind
    rw [heq, PeerRecord.info_after]
  · rw [h] at hfind
    cases hfind
    exact absurd ⟨by decide, hevictable⟩ hstays

end

/-- No peer stays with as many invalid proofs as are allowed, and it cannot come round this by
registering again. -/
structure Disciplined (s : RegistrySettings) (past : List Operation) : Prop where
  /-- A registered peer has fewer invalid proofs than are allowed, since it last came. -/
  tolerated {peer : PeerId} {record : PeerRecord} (h : (after s past).find? peer = some record) :
    record.invalidProofs = invalidProofs s peer past ∧
      invalidProofs s peer past < s.maxInvalidProofs.toNat
  /-- It has no more samples than outcomes were recorded. -/
  counted {peer : PeerId} {record : PeerRecord} (h : (after s past).find? peer = some record) :
    record.samples ≤ past.countP (Operation.isSample peer)
  /-- The invalid proof that reaches that number ends the stay, and others are told why. -/
  evicted {peer : PeerId} {record : PeerRecord} (h : (after s past).find? peer = some record)
    (hreached : invalidProofs s peer (.record peer .invalidProof :: past) =
      s.maxInvalidProofs.toNat) :
    (after s (.record peer .invalidProof :: past)).find? peer = none ∧
      ((after s past).perform (.record peer .invalidProof)).2 = [.removed record.info .evicted]
  /-- To a peer that is known, a registration means a new announcement and nothing else. -/
  renewed {info : PeerInfo} (known : (after s past).find? info.id ≠ none) :
    (after s past).Amends (after s (.register info :: past)) info.id
        (fun old => { old with info := info }) ∧
      invalidProofs s info.id (.register info :: past) = invalidProofs s info.id past
  /-- A request that was given up takes no peer away and is no longer counted, and that is all. -/
  abandoned (peer : PeerId) :
    (after s past).Amends (after s (.record peer .abandoned :: past)) peer
      fun old => { old with inFlight := old.inFlight - 1 }
  /-- Only the record of the peer that an operation names can change. -/
  others (op : Operation) : (after s past).AgreesBeside (after s (op :: past)) op.peer

/-- After any operations no peer is tolerated that has reached the number of invalid proofs allowed.
-/
theorem disciplined {s : RegistrySettings} (hs : s.validate = .ok ()) (past : List Operation) :
    Disciplined s past where
  tolerated h := by
    obtain ⟨hcount, hlt⟩ := invalidProofs_of_find? (RegistrySettings.maxInvalidProofs_pos hs) h
    exact ⟨hcount, hcount ▸ hlt⟩
  counted := samples_le
  evicted {peer record} h hreached := by
    have hcount := (invalidProofs_of_find? (RegistrySettings.maxInvalidProofs_pos hs) h).1
    have hlast : Operation.isInvalidProof peer (.record peer .invalidProof) = true :=
      decide_eq_true rfl
    rw [invalidProofs_cons, if_neg (by simp [h]), if_pos hlast, ← hcount] at hreached
    have hrecord := record_invalidProof_of_le h (by rw [settings_after, hreached])
    rw [after, perform, hrecord]
    exact ⟨find?_erase_self, rfl⟩
  renewed {info} known := by
    refine ⟨register_amends _ info known, ?_⟩
    rw [invalidProofs_cons, if_neg known]
    rfl
  abandoned := record_abandoned_amends _
  others op := (perform_change _ op).agreesBeside

/-- A peer that registers again after its second invalid proof is gone with the third one all the
same. -/
theorem disciplined_of_renewal :
    let info : PeerInfo := ⟨⟨[7]⟩, none, 2, [.body], ⟨0, .zero⟩⟩
    let bad : Operation := .record info.id .invalidProof
    let past : List Operation := [.register info, .tryBegin info.id 4, bad, bad, .register info]
    RegistrySettings.default.validate = .ok () ∧ Disciplined .default past ∧
      invalidProofs .default info.id past = 2 ∧
      (after .default past).find? info.id ≠ none ∧
      (after .default (bad :: past)).find? info.id = none := by
  intro info bad past
  have hpast : Disciplined .default past := disciplined rfl past
  have hknown : ((after .default past).find? info.id).isSome = true := by decide +kernel
  obtain ⟨record, hfind⟩ := Option.isSome_iff_exists.mp hknown
  have hreached : invalidProofs .default info.id (bad :: past) = 3 := by decide +kernel
  have hgone := (hpast.evicted hfind hreached).1
  refine ⟨rfl, hpast, by decide +kernel, ?_, hgone⟩
  rw [hfind]
  exact Option.some_ne_none record

end Registry

end LightClient
