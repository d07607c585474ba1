import FloodEws.Chains
/-!
# Office — what replication and snapshots leave alone

The role, the leader it is held under, the term and the count of the current probe.  Sending, committing, applying,
compacting and taking over entries change none of them; only the transitions of `server_election_impl.inl` and the driver
do, and what those do is said where it is needed.
-/
namespace FloodEws
namespace Raft

structure Office where
  selfId : Nat
  currentTerm : Nat
  state : Role
  currentLeader : Nat
  preVoteActive : Bool
  preVotesGranted : Nat

namespace Server

def office (s : Server) : Office :=
  ⟨s.selfId, s.currentTerm, s.state, s.currentLeader, s.preVoteActive, s.preVotesGranted⟩

variable {cfg : Config} {io : Io} {s s' : Server}

/-! ## Sending -/

theorem Sends.trans {s'' : Server} (h : Sends s s') (h' : Sends s' s'') : Sends s s'' := by
  obtain ⟨ms, rfl⟩ := h
  obtain ⟨ms', rfl⟩ := h'
  exact ⟨ms' ++ ms, by simp only [after, List.map_append, List.append_assoc]⟩

theorem Sends.office (h : Sends s s') : s'.office = s.office := by
  obtain ⟨ms, rfl⟩ := h
  rfl

theorem Sends.log (h : Sends s s') : s'.log = s.log := by
  obtain ⟨ms, rfl⟩ := h
  rfl

theorem Sends.nodes (h : Sends s s') : s'.nodes = s.nodes := by
  obtain ⟨ms, rfl⟩ := h
  rfl

/-- Going through the peers. -/
theorem Sends.foldl {g : Server → Peer → Server} (hg : ∀ x p, Sends x (g x p)) :
    ∀ (ps : List Peer) (s : Server), Sends s (ps.foldl g s)
  | [], s => .refl s
  | p :: ps, s => (hg s p).trans (foldl hg ps (g s p))

theorem sends_sendInstallSnapshot (cfg : Config) (p : Peer) (s : Server) : Sends s (s.sendInstallSnapshot cfg p) := by
  unfold sendInstallSnapshot
  split
  · exact .refl s
  split
  · exact .refl s
  split
  · exact .refl s
  · exact .emit (.refl s) _

theorem sends_sendAppendEntries (cfg : Config) (p : Peer) (s : Server) : Sends s (s.sendAppendEntries cfg p) := by
  unfold sendAppendEntries
  split
  · exact .refl s
  dsimp only
  split
  · exact sends_sendInstallSnapshot cfg p s
  split
  · exact sends_sendInstallSnapshot cfg p s
  · exact .emit (.refl s) _

theorem sends_broadcast (cfg : Config) (s : Server) : Sends s (s.broadcast cfg) := by
  refine .foldl (fun x p => ?_) s.nodes s
  split
  · exact .refl x
  · exact sends_sendAppendEntries cfg p x

/-- A guard that applies has only answered. -/
theorem sends_requestVoteGuard {rv : RequestVote} (h : s.requestVoteGuard cfg io rv = some s') : Sends s.tick s' := by
  unfold requestVoteGuard at h
  dsimp only at h
  split at h
  · obtain rfl := Option.some.inj h
    exact .emit (.refl _) _
  split at h
  · obtain rfl := Option.some.inj h
    exact .emit (.refl _) _
  · cases h

/-- The requests of a campaign. -/
theorem sends_requestVotes (cfg : Config) (s : Server) :
    Sends s (s.nodes.foldl (fun (s : Server) (p : Peer) => if p.isSelf then s else s.sendRequestVote cfg p) s) := by
  refine .foldl (fun x p => ?_) s.nodes s
  split
  · exact .refl x
  · exact .emit (.refl x) _

/-- The probes of a round. -/
theorem sends_probes (cfg : Config) (s : Server) :
    Sends s (s.nodes.foldl (fun (s : Server) (p : Peer) => if p.isSelf then s else
      s.emit ⟨s.selfId, p.id, .requestVote
        { term := wrap64 (s.currentTerm + 1), candidateId := s.selfId, lastLogIndex := s.log.lastIndex,
          lastLogTerm := s.log.lastTerm cfg, preVote := true }⟩) s) := by
  refine .foldl (fun x p => ?_) s.nodes s
  split
  · exact .refl x
  · exact .emit (.refl x) _

/-! ## Applying, committing, taking over -/

theorem office_resetElectionTimer (cfg : Config) (io : Io) (s : Server) :
    (s.resetElectionTimer cfg io).office = s.office := by
  obtain ⟨d, k, he⟩ := resetElectionTimer_eq cfg io s
  rw [he]
  rfl

theorem office_applyLoop (cfg : Config) : ∀ (k : Nat) (s : Server), (applyLoop cfg k s).office = s.office
  | 0, _ => rfl
  | k + 1, s => by
    rw [applyLoop, office_applyLoop cfg k, applyNext_eq]
    rfl

theorem office_beginSnapshot (cfg : Config) (io : Io) (s : Server) : (s.beginSnapshot cfg io).2.office = s.office := by
  rcases beginSnapshot_cases cfg io s with ⟨-, k, he⟩ | ⟨-, t, bytes, -, -, -, he⟩
  all_goals
    rw [he]
    rfl

theorem office_maybeCompact (cfg : Config) (io : Io) (s : Server) : (s.maybeCompact cfg io).office = s.office := by
  unfold maybeCompact
  split
  · rfl
  · exact office_beginSnapshot cfg io s

theorem office_applyCommitted (cfg : Config) (io : Io) (s : Server) : (s.applyCommitted cfg io).office = s.office :=
  (office_maybeCompact cfg io _).trans (office_applyLoop cfg _ s)

theorem office_leaderAdvanceCommit (cfg : Config) (io : Io) (s : Server) :
    (s.leaderAdvanceCommit cfg io).office = s.office := by
  unfold leaderAdvanceCommit
  split <;> exact office_applyCommitted cfg io _

theorem office_accepted (cfg : Config) (ae : AppendEntries) (s : Server) : (s.accepted cfg ae).office = s.office := by
  obtain ⟨evs, -, he⟩ := accepted_eq cfg ae s
  rw [he]
  rfl

theorem office_storeChunk (cfg : Config) (is : InstallSnapshot) (s : Server) : (s.storeChunk cfg is).office = s.office := by
  obtain ⟨i, t, he⟩ := storeChunk_eq cfg is s
  rw [he]
  rfl

theorem office_submit (cfg : Config) (io : Io) (type : EntryType) (data : List Byte) (s : Server) :
    (s.submit cfg io type data).2.office = s.office := by
  unfold submit
  split
  · rfl
  split
  · rfl
  split
  · rfl
  split
  · rfl
  dsimp only
  split
  · rfl
  · split
    · rw [office_applyCommitted, office_leaderAdvanceCommit, (sends_broadcast cfg _).office]
      rfl
    · exact (sends_broadcast cfg _).office

end Server

end Raft
end FloodEws
