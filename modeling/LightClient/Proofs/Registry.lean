/-
Module: LightClient.Proofs.Registry
Purpose: What each operation of the registry does to the record of a peer: to its place in the order
  of registration and to the number of its requests.
Main exports: PeerRecord.inFlight_after, Registry.tryBegin_eq_some, Registry.record_cases,
  Registry.register_cases, Registry.Operation, Registry.perform, Registry.Update,
  Registry.Update.seq, Registry.Filed, Registry.Reports
-/
import LightClient.Proofs.Table
import LightClient.Registry

namespace LightClient

namespace PeerRecord

variable {s : RegistrySettings} {r : PeerRecord} {o : Outcome}

/-- Every outcome gives one place back. -/
theorem inFlight_after : (r.after s o).inFlight = r.inFlight - 1 := by
  cases o <;> rfl

theorem seq_after : (r.after s o).seq = r.seq := by
  cases o <;> rfl

theorem info_after : (r.after s o).info = r.info := by
  cases o <;> rfl

end PeerRecord

namespace Registry

variable {r r' : Registry} {peer : PeerId}

/-- A place is taken only from a peer that has fewer requests than the limit. -/
theorem tryBegin_eq_some {limit : Nat} (h : r.tryBegin peer limit = some r') :
    ∃ record, r.find? peer = some record ∧ record.inFlight < limit ∧
      r' = { r with
        peers := r.peers.insert peer { record with inFlight := record.inFlight + 1 } } := by
  unfold tryBegin at h
  split at h
  next record hfind =>
    split at h
    next hfree =>
      cases h
      exact ⟨record, hfind, hfree, rfl⟩
    next => cases h
  next => cases h

/-- Taking a place counts one request more with the peer, and changes nothing else. -/
theorem find?_tryBegin {limit : Nat} (h : r.tryBegin peer limit = some r') (other : PeerId) :
    r'.find? other = (r.find? other).map fun record =>
      if peer = other then { record with inFlight := record.inFlight + 1 } else record := by
  obtain ⟨old, hold, _, rfl⟩ := tryBegin_eq_some h
  rw [find?, Table.get?_insert]
  split
  next heq =>
    subst heq
    rw [hold]
    rfl
  next => exact Option.map_id'.symm

/-- Taking a place does not change the place of a peer in the order of registration. -/
theorem seq_tryBegin {limit : Nat} {record : PeerRecord} (h : r.tryBegin peer limit = some r')
    (hfind : r.find? peer = some record) :
    ((r'.find? peer).map PeerRecord.seq).getD 0 = record.seq := by
  rw [find?_tryBegin h, hfind, Option.map_some, if_pos rfl]
  rfl

/-- An outcome is lost on a peer that is gone; otherwise the peer leaves if it has become evictable,
and its record takes the outcome up if not. -/
theorem record_cases (r : Registry) (peer : PeerId) (o : Outcome) :
    (r.find? peer = none ∧ r.record peer o = (r, [])) ∨
      ∃ old, r.find? peer = some old ∧
        ((o ≠ .abandoned ∧ (old.after r.settings o).isEvictable r.settings = true) ∧
            r.record peer o = ({ r with peers := r.peers.erase peer },
              [.removed (old.after r.settings o).info .evicted]) ∨
          ¬(o ≠ .abandoned ∧ (old.after r.settings o).isEvictable r.settings = true) ∧
            r.record peer o = ({ r with peers := r.peers.insert peer (old.after r.settings o) },
              [.updated peer])) := by
  unfold record
  split
  next old hfind =>
    refine .inr ⟨old, hfind, ?_⟩
    by_cases hevict : o ≠ .abandoned ∧ (old.after r.settings o).isEvictable r.settings = true
    · exact .inl ⟨hevict, if_pos hevict⟩
    · exact .inr ⟨hevict, if_neg hevict⟩
  next hnone => exact .inl ⟨hnone, rfl⟩

/-- A peer that is known gets a new announcement, and a new one gets a fresh record. -/
theorem register_cases (r : Registry) (info : PeerInfo) :
    (∃ old, r.find? info.id = some old ∧ r.register info =
        ({ r with peers := r.peers.insert info.id { old with info := info } },
          [.registered info])) ∨
      r.find? info.id = none ∧ r.register info =
        ({ r with
            peers := r.peers.insert info.id (PeerRecord.fresh info r.nextSeq)
            nextSeq := r.nextSeq + 1 }, [.registered info]) := by
  unfold register
  split
  next old hfind => exact .inl ⟨old, hfind, rfl⟩
  next hnone => exact .inr ⟨hnone, rfl⟩

/-- A peer that is known leaves, and one that is not changes nothing. -/
theorem unregister_cases (r : Registry) (peer : PeerId) :
    (∃ old, r.find? peer = some old ∧ r.unregister peer =
        ({ r with peers := r.peers.erase peer }, [.removed old.info .disconnected])) ∨
      r.find? peer = none ∧ r.unregister peer = (r, []) := by
  unfold unregister
  split
  next old hfind => exact .inl ⟨old, hfind, rfl⟩
  next hnone => exact .inr ⟨hnone, rfl⟩

/-- A peer that is known gets the new head, and one that is not changes nothing. -/
theorem announce_cases (r : Registry) (peer : PeerId) (head : Head) :
    (∃ old, r.find? peer = some old ∧ r.announce peer head =
        ({ r with
            peers := r.peers.insert peer { old with info := { old.info with head := head } } },
          [.updated peer])) ∨
      r.find? peer = none ∧ r.announce peer head = (r, []) := by
  unfold announce
  split
  next old hfind => exact .inl ⟨old, hfind, rfl⟩
  next hnone => exact .inr ⟨hnone, rfl⟩

/-! ### What any operation does to the records -/

inductive Operation where
  | register (info : PeerInfo)
  | unregister (peer : PeerId)
  | announce (peer : PeerId) (head : Head)
  | tryBegin (peer : PeerId) (limit : Nat)
  | record (peer : PeerId) (o : Outcome)

/-- The registry after an operation, and what others are told of it. -/
def perform (r : Registry) : Operation → Registry × List Event
  | .register info => r.register info
  | .unregister peer => r.unregister peer
  | .announce peer head => r.announce peer head
  | .tryBegin peer limit => ((r.tryBegin peer limit).getD r, [])
  | .record peer o => r.record peer o

/-- One record changes within its registration, or is taken out, or a peer that is not known gets a
record of the next registration. -/
inductive Update (r : Registry) : Registry → Prop where
  | none : Update r r
  | renew {peer : PeerId} {old new : PeerRecord} (found : r.find? peer = some old)
      (seq : new.seq = old.seq) (id : old.info.id = peer → new.info.id = peer) :
      Update r { r with peers := r.peers.insert peer new }
  | remove (peer : PeerId) : Update r { r with peers := r.peers.erase peer }
  | enroll {info : PeerInfo} (absent : r.find? info.id = Option.none) :
      Update r { r with
        peers := r.peers.insert info.id (PeerRecord.fresh info r.nextSeq)
        nextSeq := r.nextSeq + 1 }

/-- A registration is one update of the registry. -/
theorem register_update (r : Registry) (info : PeerInfo) : r.Update (r.register info).1 := by
  rcases register_cases r info with ⟨old, hfind, heq⟩ | ⟨hnone, heq⟩
  · rw [heq]
    exact .renew hfind rfl fun _ => rfl
  · rw [heq]
    exact .enroll hnone

/-- A removal is one update of the registry. -/
theorem unregister_update (r : Registry) (peer : PeerId) : r.Update (r.unregister peer).1 := by
  rcases unregister_cases r peer with ⟨old, _, heq⟩ | ⟨_, heq⟩
  · rw [heq]
    exact .remove peer
  · rw [heq]
    exact .none

/-- An announcement is one update of the registry. -/
theorem announce_update (r : Registry) (peer : PeerId) (head : Head) :
    r.Update (r.announce peer head).1 := by
  rcases announce_cases r peer head with ⟨old, hfind, heq⟩ | ⟨_, heq⟩
  · rw [heq]
    exact .renew hfind rfl id
  · rw [heq]
    exact .none

/-- A place that is reserved renews the record of its peer. -/
theorem tryBegin_update {limit : Nat} (h : r.tryBegin peer limit = some r') : r.Update r' := by
  obtain ⟨old, hfind, _, rfl⟩ := tryBegin_eq_some h
  exact .renew hfind rfl id

/-- An outcome renews the record of its peer, or removes it. -/
theorem record_update (r : Registry) (peer : PeerId) (o : Outcome) :
    r.Update (r.record peer o).1 := by
  rcases record_cases r peer o with ⟨_, heq⟩ | ⟨old, hfind, ⟨_, heq⟩ | ⟨_, heq⟩⟩
  · rw [heq]
    exact .none
  · rw [heq]
    exact .remove peer
  · rw [heq]
    refine .renew hfind PeerRecord.seq_after ?_
    rw [PeerRecord.info_after]
    exact id

/-- A peer that is known before and after is known under the same registration. -/
theorem Update.seq {old new : PeerRecord} (h : r.Update r') (hold : r.find? peer = some old)
    (hnew : r'.find? peer = some new) : new.seq = old.seq := by
  cases h with
  | none =>
    rw [hold] at hnew
    cases hnew
    rfl
  | renew found seq _ =>
    rw [find?, Table.get?_insert] at hnew
    split at hnew
    next heq =>
      subst heq
      cases hnew
      rw [found] at hold
      cases hold
      exact seq
    next =>
      rw [← find?, hold] at hnew
      cases hnew
      rfl
  | remove gone =>
    rw [find?, Table.get?_erase] at hnew
    split at hnew
    next => cases hnew
    next =>
      rw [← find?, hold] at hnew
      cases hnew
      rfl
  | enroll absent =>
    rw [find?, Table.get?_insert] at hnew
    split at hnew
    next heq =>
      subst heq
      rw [absent] at hold
      cases hold
    next =>
      rw [← find?, hold] at hnew
      cases hnew
      rfl

/-- Every record is kept once, under the identity that it announces. -/
structure Filed (r : Registry) : Prop where
  unique : r.peers.Unique
  ids : r.peers.All fun peer record => record.info.id = peer

namespace Filed

theorem empty (s : RegistrySettings) : (Registry.empty s).Filed where
  unique := List.nodup_nil
  ids := Table.All.empty

/-- Records stay filed under their own peers. -/
theorem update (h : r.Filed) (hupdate : r.Update r') : r'.Filed := by
  cases hupdate with
  | none => exact h
  | renew found _ id => exact ⟨h.unique.insert, h.ids.insert (id (h.ids _ _ found))⟩
  | remove => exact ⟨h.unique.erase, h.ids.erase⟩
  | enroll => exact ⟨h.unique.insert, h.ids.insert rfl⟩

/-- A record that is ranked is that of its peer. -/
theorem find?_of_ranked {accept : PeerInfo → Bool} {record : PeerRecord} (h : r.Filed)
    (hranked : record ∈ r.ranked accept) :
    r.find? record.info.id = some record ∧ accept record.info = true := by
  obtain ⟨hmem, haccept⟩ := List.mem_filter.mp (List.mem_mergeSort.mp hranked)
  obtain ⟨⟨peer, found⟩, hentry, rfl⟩ := List.mem_map.mp hmem
  have hfind : r.find? peer = some found := Table.get?_of_mem h.unique hentry
  refine ⟨?_, haccept⟩
  rw [h.ids peer found hfind]
  exact hfind

/-- The peers that are ranked are those whose announcement passes the filter. -/
theorem mem_ranked {accept : PeerInfo → Bool} {record : PeerRecord} (h : r.Filed) :
    record ∈ r.ranked accept ↔
      r.find? record.info.id = some record ∧ accept record.info = true := by
  refine ⟨h.find?_of_ranked, fun ⟨hfind, haccept⟩ => ?_⟩
  refine List.mem_mergeSort.mpr (List.mem_filter.mpr ⟨?_, haccept⟩)
  exact List.mem_map_of_mem (Table.mem_of_get? hfind)

end Filed

/-! ### What an operation tells others -/

/-- Others are told something if anything has changed, and of every peer that leaves. -/
structure Reports (r : Registry) (x : Registry × List Event) : Prop where
  quiet : x.2 = [] → x.1 = r
  removed : ∀ peer, r.find? peer ≠ none → x.1.find? peer = none →
    ∃ info reason, .removed info reason ∈ x.2 ∧ info.id = peer

namespace Reports

theorem none : r.Reports (r, []) where
  quiet _ := rfl
  removed _ hfind hnone := absurd hnone hfind

theorem insert {new : PeerRecord} {seq : Nat} {e : Event} :
    r.Reports ({ r with peers := r.peers.insert peer new, nextSeq := seq }, [e]) where
  quiet h := nomatch h
  removed other hfind hnone := by
    rw [find?, Table.get?_insert] at hnone
    split at hnone
    · cases hnone
    · exact absurd hnone hfind

theorem erase {info : PeerInfo} {reason : Removal} (hinfo : info.id = peer) :
    r.Reports ({ r with peers := r.peers.erase peer }, [.removed info reason]) where
  quiet h := nomatch h
  removed other hfind hnone := by
    rw [find?, Table.get?_erase] at hnone
    split at hnone
    next heq => exact ⟨info, reason, List.mem_cons_self, hinfo.trans heq⟩
    next => exact absurd hnone hfind

end Reports

/-- Of a registration others are told the announcement. -/
theorem register_reports (r : Registry) (info : PeerInfo) : r.Reports (r.register info) := by
  rcases register_cases r info with ⟨old, _, heq⟩ | ⟨_, heq⟩
  · rw [heq]
    exact .insert
  · rw [heq]
    exact .insert

/-- Of a peer that leaves others are told the last announcement. -/
theorem Filed.unregister_reports (h : r.Filed) (peer : PeerId) :
    r.Reports (r.unregister peer) := by
  rcases unregister_cases r peer with ⟨old, hfind, heq⟩ | ⟨_, heq⟩
  · rw [heq]
    exact .erase (h.ids peer old hfind)
  · rw [heq]
    exact .none

theorem announce_reports (r : Registry) (peer : PeerId) (head : Head) :
    r.Reports (r.announce peer head) := by
  rcases announce_cases r peer head with ⟨old, _, heq⟩ | ⟨_, heq⟩
  · rw [heq]
    exact .insert
  · rw [heq]
    exact .none

/-- Of a peer that is evicted others are told the last announcement. -/
theorem Filed.record_reports (h : r.Filed) (peer : PeerId) (o : Outcome) :
    r.Reports (r.record peer o) := by
  rcases record_cases r peer o with ⟨_, heq⟩ | ⟨old, hfind, ⟨_, heq⟩ | ⟨_, heq⟩⟩
  · rw [heq]
    exact .none
  · rw [heq]
    refine .erase ?_
    rw [PeerRecord.info_after]
    exact h.ids peer old hfind
  · rw [heq]
    exact .insert

end Registry

end LightClient
