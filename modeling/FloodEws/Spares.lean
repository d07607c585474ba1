import FloodEws.Chains
/-!
# Spares — what the small steps leave alone

Adopting a term, becoming a follower, storing a chunk, replying and applying touch neither the log nor, mostly, the
commit index; what they do is call back.  `Spares p` says so, and that none of the callbacks they make is one of `p`.
-/
namespace FloodEws
namespace Raft

namespace Event

/-- A call of `m_snapshot_load`. -/
def isLoad : Event → Bool
  | .snapshotLoad _ _ => true
  | _ => false

def isSend : Event → Bool
  | .send _ _ _ => true
  | _ => false

/-- A call of `m_apply`. -/
def isApply : Event → Bool
  | .apply _ _ => true
  | _ => false

/-- The callbacks of a change of term or role. -/
def stepping : Event → Bool
  | .persistState _ _ => true
  | .onStateChange _ _ => true
  | _ => false

/-- The callbacks that neither send nor save nor load anything. -/
def routine : Event → Bool
  | .send _ _ _ => false
  | .snapshotSave _ _ => false
  | .snapshotLoad _ _ => false
  | _ => true

theorem routine_of_quiet {e : Event} (h : e.quiet = true) : e.routine = true := by
  cases e <;> first | rfl | cases h

theorem not_load_of_routine {e : Event} (h : e.routine = true) : e.isLoad = false := by
  cases e <;> first | rfl | cases h

theorem not_send_of_routine {e : Event} (h : e.routine = true) : e.isSend = false := by
  cases e <;> first | rfl | cases h

theorem routine_of_stepping {e : Event} (h : e.stepping = true) : e.routine = true := by
  cases e <;> first | rfl | cases h

theorem routine_of_apply {e : Event} (h : e.isApply = true) : e.routine = true := by
  cases e <;> first | rfl | cases h

theorem not_load_of_stepping {e : Event} (h : e.stepping = true) : e.isLoad = false :=
  not_load_of_routine (routine_of_stepping h)

theorem not_send_of_stepping {e : Event} (h : e.stepping = true) : e.isSend = false :=
  not_send_of_routine (routine_of_stepping h)

theorem not_apply_of_stepping {e : Event} (h : e.stepping = true) : e.isApply = false := by
  cases e <;> first | rfl | cases h

theorem not_apply_of_quiet {e : Event} (h : e.quiet = true) : e.isApply = false := by
  cases e <;> first | rfl | cases h

end Event

namespace Server

/-- The follower as it looks at a request. -/
def following (cfg : Config) (io : Io) (ae : AppendEntries) (s : Server) : Server :=
  let s := (s.maybeStepDown ae.term).becomeFollower cfg io ae.term ae.leaderId
  { s.tick with lastLeaderContact := io.now s.reads }

theorem handleAppendEntries_eq (cfg : Config) (io : Io) {ae : AppendEntries} {s : Server} (ht : s.currentTerm ≤ ae.term) :
    s.handleAppendEntries cfg io ae = match (s.following cfg io ae).prevMismatch cfg ae with
      | some resp => (s.following cfg io ae).replyAppend ae resp
      | none => ((s.following cfg io ae).accepted cfg ae).applyCommitted cfg io := by
  unfold handleAppendEntries
  rw [if_neg (Nat.not_lt.2 ht)]
  rfl

/-- The log and what was committed and applied of it are as they were, and no callback was one of `p`. -/
structure Spares (p : Event → Bool) (s s' : Server) : Prop where
  self : s'.selfId = s.selfId
  log : s'.log = s.log
  commit : s'.commitIndex = s.commitIndex
  applied : s'.lastApplied = s.lastApplied
  calls : ∃ evs : List Event, s'.calls = evs ++ s.calls ∧ ∀ e ∈ evs, p e = false

section

variable {p : Event → Bool} {cfg : Config} {io : Io} {s x y : Server}

theorem Spares.refl (s : Server) : Spares p s s := ⟨rfl, rfl, rfl, rfl, [], rfl, by simp⟩

theorem Spares.trans (h : Spares p s x) (h' : Spares p x y) : Spares p s y := by
  obtain ⟨evs, hevs, hno⟩ := h.calls
  obtain ⟨evs', hevs', hno'⟩ := h'.calls
  refine ⟨h'.self.trans h.self, h'.log.trans h.log, h'.commit.trans h.commit, h'.applied.trans h.applied, evs' ++ evs, ?_,
    fun e he => ?_⟩
  · rw [hevs', hevs, List.append_assoc]
  · rcases List.mem_append.1 he with he | he
    · exact hno' e he
    · exact hno e he

theorem Spares.call (e : Event) (h : p e = false) (s : Server) : Spares p s (s.call e) :=
  ⟨rfl, rfl, rfl, rfl, [e], rfl, by simp [h]⟩

variable (hp : ∀ e : Event, e.stepping = true → p e = false)
include hp

theorem setState_spares (r : Role) (s : Server) : Spares p s (s.setState r) := by
  unfold setState
  split
  · exact .refl s
  · exact ⟨rfl, rfl, rfl, rfl, [_], rfl, by simp [hp _ (show (Event.onStateChange s.state r).stepping = true from rfl)]⟩

theorem maybeStepDown_spares (t : Nat) (s : Server) : Spares p s (s.maybeStepDown t) := by
  unfold maybeStepDown
  split
  · have hpersist : Spares p s ({ s with currentTerm := t, votedFor := badNode }.persistState) :=
      ⟨rfl, rfl, rfl, rfl, [_], rfl, by simp [hp _ (show (Event.persistState t badNode).stepping = true from rfl)]⟩
    dsimp only
    split
    · obtain ⟨hself, hlog, hcommit, happlied, hcalls⟩ := hpersist.trans (setState_spares hp .follower _)
      exact ⟨hself, hlog, hcommit, happlied, hcalls⟩
    · exact hpersist
  · exact .refl s

theorem becomeFollower_spares (cfg : Config) (io : Io) (t leader : Nat) (s : Server) :
    Spares p s (s.becomeFollower cfg io t leader) := by
  unfold becomeFollower
  dsimp only
  have hstart : Spares p s (if s.currentTerm < t then
      ({ s with preVoteActive := false, currentTerm := t, votedFor := badNode } : Server).persistState
      else { s with preVoteActive := false }) := by
    split
    · exact ⟨rfl, rfl, rfl, rfl, [_], rfl, by simp [hp _ (show (Event.persistState t badNode).stepping = true from rfl)]⟩
    · exact ⟨rfl, rfl, rfl, rfl, [], rfl, by simp⟩
  obtain ⟨hself, hlog, hcommit, happlied, hcalls⟩ := hstart.trans (setState_spares hp .follower _)
  split
  all_goals
    obtain ⟨d, k, hx⟩ := resetElectionTimer_eq cfg io _
    rw [hx]
    exact ⟨hself, hlog, hcommit, happlied, hcalls⟩

/-- The server once it has followed the sender of a message. -/
theorem follow_spares (cfg : Config) (io : Io) (t leader : Nat) (s : Server) :
    Spares p s ((s.maybeStepDown t).becomeFollower cfg io t leader) :=
  (maybeStepDown_spares hp t s).trans (becomeFollower_spares hp cfg io t leader _)

theorem following_spares (cfg : Config) (io : Io) (ae : AppendEntries) (s : Server) :
    Spares p s (s.following cfg io ae) := by
  have hspares := follow_spares hp cfg io ae.term ae.leaderId s
  exact ⟨hspares.self, hspares.log, hspares.commit, hspares.applied, hspares.calls⟩

omit hp

theorem storeChunk_spares (cfg : Config) (is : InstallSnapshot) (s : Server) : Spares p s (s.storeChunk cfg is) := by
  obtain ⟨i, t, he⟩ := storeChunk_eq cfg is s
  rw [he]
  exact ⟨rfl, rfl, rfl, rfl, [], rfl, by simp⟩

end

/-! ## Applying -/

/-- The loop moves nothing but the applied index. -/
theorem applyLoop_spec (cfg : Config) : ∀ (k : Nat) (s : Server),
    (applyLoop cfg k s).log = s.log ∧ (applyLoop cfg k s).commitIndex = s.commitIndex ∧
      (applyLoop cfg k s).lastApplied = s.lastApplied + k ∧
      ∃ evs : List Event, (applyLoop cfg k s).calls = evs ++ s.calls ∧ ∀ e ∈ evs, e.isApply = true
  | 0, s => ⟨rfl, rfl, rfl, [], rfl, by simp⟩
  | k + 1, s => by
    obtain ⟨new, hnew, hnext⟩ : ∃ new : List Event, (∀ e ∈ new, e.isApply = true) ∧
        s.applyNext cfg = { s with lastApplied := s.lastApplied + 1, calls := new ++ s.calls } := by
      refine ⟨_, fun e he => ?_, applyNext_eq cfg s⟩
      rw [Option.mem_toList, Option.map_eq_some_iff] at he
      obtain ⟨x, -, rfl⟩ := he
      rfl
    obtain ⟨hlog, hcommit, happlied, evs, hevs, hno⟩ := applyLoop_spec cfg k (s.applyNext cfg)
    have hloop : applyLoop cfg (k + 1) s = applyLoop cfg k (s.applyNext cfg) := rfl
    rw [hloop]
    refine ⟨hlog.trans (by rw [hnext]), hcommit.trans (by rw [hnext]), ?_, evs ++ new, ?_, fun e he => ?_⟩
    · rw [happlied, hnext]
      exact Nat.add_right_comm _ _ _
    · rw [hevs, hnext, List.append_assoc]
    · rcases List.mem_append.1 he with he | he
      · exact hno e he
      · exact hnew e he

/-- Compaction does not come about: not enough is applied, or there is no snapshot. -/
def Uncompacted (cfg : Config) (io : Io) (s : Server) : Prop :=
  s.lastApplied - s.log.base < cfg.snapshotThreshold ∨ s.NoSnapshot cfg io

theorem maybeCompact_cases (cfg : Config) (io : Io) (s : Server) :
    (s.Uncompacted cfg io ∧ ∃ k, s.maybeCompact cfg io = { s with reads := k }) ∨
    (¬ s.Uncompacted cfg io ∧ ∃ t bytes, s.log.base < s.lastApplied ∧ s.log.termAt cfg s.lastApplied = some t ∧
      savedAt io s.reads = some bytes ∧ s.maybeCompact cfg io = s.compacted cfg t bytes) := by
  unfold maybeCompact
  split
  · rename_i hlive
    exact .inl ⟨.inl hlive, _, rfl⟩
  · rename_i hlive
    rcases beginSnapshot_cases cfg io s with ⟨hno, hs⟩ | ⟨hsome, hs⟩
    · exact .inl ⟨.inr hno, hs⟩
    · exact .inr ⟨not_or.2 ⟨hlive, hsome⟩, hs⟩

/-- **What applying can do**: call back; or also compact the log to the applied index, which is above the base, with a
snapshot taken there.  It sends and loads nothing. -/
theorem applyCommitted_cases (cfg : Config) (io : Io) (s : Server) :
    (s.applyCommitted cfg io).commitIndex = s.commitIndex ∧
    ∃ evs, (s.applyCommitted cfg io).calls = evs ++ s.calls ∧ (∀ e ∈ evs, e.isLoad = false ∧ e.isSend = false) ∧
      ((s.applyCommitted cfg io).log = s.log ∨
        ∃ k t bytes, k = max s.lastApplied s.commitIndex ∧ s.log.base < k ∧ s.log.termAt cfg k = some t ∧
          (s.applyCommitted cfg io).log = s.log.compactTo cfg k t ∧ .snapshotSave k bytes ∈ evs) := by
  obtain ⟨hlog, hcommit, happlied, evs, hevs, happly⟩ := applyLoop_spec cfg (s.commitIndex - s.lastApplied) s
  have hno : ∀ e ∈ evs, e.isLoad = false ∧ e.isSend = false := fun e he =>
    ⟨Event.not_load_of_routine (Event.routine_of_apply (happly e he)),
      Event.not_send_of_routine (Event.routine_of_apply (happly e he))⟩
  have happlied : (applyLoop cfg (s.commitIndex - s.lastApplied) s).lastApplied = max s.lastApplied s.commitIndex := by
    omega
  unfold applyCommitted
  generalize applyLoop cfg (s.commitIndex - s.lastApplied) s = x at hlog hcommit happlied hevs
  rcases maybeCompact_cases cfg io x with ⟨-, reads, hx⟩ | ⟨-, t, bytes, hbase, hterm, -, hx⟩
  · rw [hx]
    exact ⟨hcommit, evs, hevs, hno, .inl hlog⟩
  · rw [hlog] at hterm hbase
    rw [hx]
    refine ⟨hcommit, [.persistLogCompact x.lastApplied, .snapshotSave x.lastApplied bytes] ++ evs, ?_, ?_, ?_⟩
    · rw [List.append_assoc, ← hevs]
      rfl
    · intro e he
      rcases List.mem_append.1 he with he | he
      · simp only [List.mem_cons, List.not_mem_nil, or_false] at he
        rcases he with rfl | rfl <;> exact ⟨rfl, rfl⟩
      · exact hno e he
    · refine .inr ⟨x.lastApplied, t, bytes, happlied, hbase, hterm, ?_, by simp⟩
      show x.log.compactTo cfg x.lastApplied t = _
      rw [hlog]

end Server

end Raft
end FloodEws
