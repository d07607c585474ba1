import Mathlib.Data.List.Pairwise
import FloodEws.Majority
import FloodEws.Persist
import FloodEws.Steps
/-!
# Elect — at most one leader per term

A vote is a pair `(term, candidate)` that a node has had on storage.  Pairs are never forgotten, neither by a restart
nor by a crash inside a call, and within one term a node's vote only changes away from `BAD_NODE`.  A candidate counts
a peer only on the strength of a message that the peer sent after persisting its vote, so a leader always has a
majority of votes behind it, and two majorities share a voter.
-/
namespace FloodEws
namespace Raft

/-- Node `v` has had the vote for `a` in the term `t` on storage. -/
def Setup.Granted (S : Setup) (c : Cluster) (v t a : Nat) : Prop := (t, a) ∈ persisted (S.boot v) (c.node v).calls

/-- What votes are counted by: the columns of the node table that an election reads. -/
def Peer.ballot (p : Peer) : Nat × Bool × Bool := (p.id, p.isSelf, p.voteGranted)

/-- The number of peers that count as having voted for the server. -/
def Server.votes (s : Server) : Nat := s.nodes.countP (fun p => p.voteGranted)

/-- **What is true of a node's part in elections**, when `G v t a` are the votes on storage in the cluster. -/
structure VoterOk (S : Setup) (G : Nat → Nat → Nat → Prop) (a : Nat) (s : Server) : Prop where
  self : s.selfId = a
  members : s.nodes.map (fun p => (p.id, p.isSelf)) = S.ids.map (fun i => (i, i == a))
  synced : Synced (S.boot a) s
  backed : s.state ≠ .follower → ∀ p ∈ s.nodes, p.voteGranted = true → G p.id s.currentTerm a
  counted : s.state = .candidate → s.votesGranted ≤ s.votes
  elected : s.state = .leader → s.majority ≤ s.votes
  sends : ∀ t v m, .send t v m ∈ s.calls → m.sender = a ∧ ∀ rr, m.payload = .requestVoteResp rr → rr.preVote = false →
    rr.voteGranted = true → rr.term = t ∧ m.recipient = v

namespace VoterOk

variable {S : Setup} {G G' : Nat → Nat → Nat → Prop} {a : Nat} {s s' : Server}

theorem mono (h : VoterOk S G a s) (hG : ∀ v t b, G v t b → G' v t b) : VoterOk S G' a s :=
  { h with backed := fun hs p hp hv => hG _ _ _ (h.backed hs p hp hv) }

theorem isSelf_eq (h : VoterOk S G a s) {p : Peer} (hp : p ∈ s.nodes) : p.isSelf = (p.id == a) := by
  have hmem : (p.id, p.isSelf) ∈ S.ids.map (fun i => (i, i == a)) := h.members ▸ List.mem_map_of_mem hp
  obtain ⟨i, -, hi⟩ := List.mem_map.1 hmem
  injection hi with h1 h2
  rw [← h2, h1]

theorem isSelf_of_self (h : VoterOk S G a s) : ∀ p ∈ s.nodes, p.id = s.selfId → p.isSelf = true := by
  intro p hp hid
  rw [h.isSelf_eq hp, hid, h.self, beq_self_eq_true]

theorem length_nodes (h : VoterOk S G a s) : s.nodes.length = S.ids.length := by
  simpa using congrArg List.length h.members

theorem core_iff : VoterOk S G a s.core ↔ VoterOk S G a s := by
  have hvotes : s.core.votes = s.votes := by
    simp only [Server.votes, Server.core, List.countP_map]; rfl
  have hmem : s.core.nodes.map (fun p => (p.id, p.isSelf)) = s.nodes.map (fun p => (p.id, p.isSelf)) := by
    simp only [Server.core, List.map_map]; rfl
  have hmaj : s.core.majority = s.majority := by simp [Server.majority, Server.core]
  constructor
  · intro h
    exact ⟨h.self, hmem ▸ h.members, synced_core.1 h.synced,
      fun hs p hp hv => h.backed hs p.key (List.mem_map_of_mem hp) hv,
      fun hs => hvotes ▸ h.counted hs, fun hs => hvotes ▸ hmaj ▸ h.elected hs, h.sends⟩
  · intro h
    refine ⟨h.self, hmem ▸ h.members, synced_core.2 h.synced, ?_, fun hs => hvotes ▸ h.counted hs,
      fun hs => hvotes ▸ hmaj ▸ h.elected hs, h.sends⟩
    intro hs p hp hv
    obtain ⟨q, hq, rfl⟩ := List.mem_map.1 hp
    exact h.backed hs q hq hv

end VoterOk

theorem persisted_mono {boot : Nat × Nat} {es evs : List Event} {p : Nat × Nat} (h : p ∈ persisted boot es) :
    p ∈ persisted boot (evs ++ es) := by
  obtain ⟨ps, hp⟩ := persisted_append boot es evs
  rw [hp]
  exact List.mem_append_right ps h

/-- A record with the same ballot column counts the same votes. -/
theorem votes_congr {s s' : Server} (h : s'.nodes.map Peer.ballot = s.nodes.map Peer.ballot) : s'.votes = s.votes := by
  have hcol : ∀ x : Server, x.votes = (x.nodes.map Peer.ballot).countP (fun b => b.2.2) := by
    intro x
    rw [List.countP_map]; rfl
  rw [hcol, hcol, h]

theorem mem_modifyNode_iff {n : Nat} {f : Peer → Peer} {p : Peer} : ∀ {ps : List Peer}, p ∈ modifyNode n f ps →
    p ∈ ps ∨ ∃ q ∈ ps, q.id = n ∧ p = f q
  | [], h => by cases h
  | q :: ps, h => by
    rw [modifyNode] at h
    split at h
    · rename_i hq
      rcases List.mem_cons.1 h with rfl | h
      · exact .inr ⟨q, List.mem_cons_self, hq, rfl⟩
      · exact .inl (List.mem_cons_of_mem q h)
    · rcases List.mem_cons.1 h with rfl | h
      · exact .inl List.mem_cons_self
      · rcases mem_modifyNode_iff h with h | ⟨q', hq', h⟩
        · exact .inl (List.mem_cons_of_mem q h)
        · exact .inr ⟨q', List.mem_cons_of_mem q hq', h⟩

/-- Granting a vote that was not granted yet adds one to the count. -/
theorem countP_grant {n : Nat} {p : Peer} : ∀ {ps : List Peer}, ps.find? (fun q => q.id == n) = some p →
    p.voteGranted = false →
    (modifyNode n (fun q => { q with voteGranted := true }) ps).countP (fun q => q.voteGranted) =
      ps.countP (fun q => q.voteGranted) + 1
  | [], h, _ => by cases h
  | q :: ps, h, hp => by
    rw [modifyNode]
    by_cases hq : q.id = n
    · rw [List.find?_cons_of_pos (by simpa using hq)] at h
      injection h with h
      subst h
      rw [if_pos hq, List.countP_cons_of_pos rfl, List.countP_cons_of_neg (by simp [hp])]
    · rw [List.find?_cons_of_neg (by simpa using hq)] at h
      rw [if_neg hq]
      cases hv : q.voteGranted with
      | true =>
        rw [List.countP_cons_of_pos (by simpa using hv), List.countP_cons_of_pos (by simpa using hv), countP_grant h hp]
      | false =>
        rw [List.countP_cons_of_neg (by simp [hv]), List.countP_cons_of_neg (by simp [hv]), countP_grant h hp]

/-- The event is no message. -/
def Event.silent : Event → Bool
  | .send _ _ _ => false
  | _ => true

theorem Event.silent_of_plain {e : Event} (h : e.plain = true) : e.silent = true := by
  cases e <;> first | rfl | cases h

theorem send_of_silent {s s' : Server} {evs : List Event} (hc : s'.calls = evs ++ s.calls)
    (hs : ∀ e ∈ evs, e.silent = true) {t v : Nat} {m : Message} (hm : .send t v m ∈ s'.calls) : .send t v m ∈ s.calls := by
  rw [hc] at hm
  rcases List.mem_append.1 hm with hm | hm
  · exact absurd (hs _ hm) (by simp [Event.silent])
  · exact hm

theorem send_of_send {s s' : Server} (evs : List Event) {t v t' v' : Nat} {m m' : Message}
    (hc : s'.calls = .send t' v' m' :: (evs ++ s.calls)) (hs : ∀ e ∈ evs, e.silent = true)
    (hm : .send t v m ∈ s'.calls) : (t = t' ∧ v = v' ∧ m = m') ∨ .send t v m ∈ s.calls := by
  rw [hc] at hm
  rcases List.mem_cons.1 hm with hm | hm
  · injection hm with h1 h2 h3
    exact .inl ⟨h1, h2, h3⟩
  · rcases List.mem_append.1 hm with hm | hm
    · exact absurd (hs _ hm) (by simp [Event.silent])
    · exact .inr hm

namespace VoterOk

variable {S : Setup} {G G' : Nat → Nat → Nat → Prop} {a : Nat} {s s' : Server}

/-- **The frame rule for elections**: a step that leaves the ballots alone and sends no vote. -/
theorem frame (h : VoterOk S G a s) (hsync : Synced (S.boot a) s') (hself : s'.selfId = s.selfId)
    (hb : s'.nodes.map Peer.ballot = s.nodes.map Peer.ballot)
    (hst : s'.state = .follower ∨ (s'.state = s.state ∧ s'.currentTerm = s.currentTerm ∧ s'.votesGranted = s.votesGranted))
    (hsent : ∀ t v m, .send t v m ∈ s'.calls → .send t v m ∈ s.calls ∨ (m.sender = a ∧
      ∀ rr, m.payload = .requestVoteResp rr → rr.preVote = false → rr.voteGranted = true → rr.term = t ∧ m.recipient = v)) :
    VoterOk S G a s' := by
  have hmem : s'.nodes.map (fun p => (p.id, p.isSelf)) = s.nodes.map (fun p => (p.id, p.isSelf)) := by
    have := congrArg (List.map (fun b : Nat × Bool × Bool => (b.1, b.2.1))) hb
    simpa [List.map_map, Peer.ballot, Function.comp_def] using this
  have hlen : s'.majority = s.majority := by
    have := congrArg List.length hb
    simp only [List.length_map] at this
    unfold Server.majority
    rw [this]
  have hv := votes_congr hb
  constructor
  · exact hself.trans h.self
  · rw [hmem]; exact h.members
  · exact hsync
  · intro hs p hp hpv
    rcases hst with hst | ⟨h1, h2, -⟩
    · exact absurd hst hs
    · rw [h1] at hs
      rw [h2]
      have hmem' : p.ballot ∈ s.nodes.map Peer.ballot := hb ▸ List.mem_map_of_mem hp
      obtain ⟨q, hq, hqp⟩ := List.mem_map.1 hmem'
      simp only [Peer.ballot, Prod.mk.injEq] at hqp
      obtain ⟨h3, -, h4⟩ := hqp
      rw [← h3]
      exact h.backed hs q hq (h4.trans hpv)
  · intro hs
    rcases hst with hst | ⟨h1, -, h3⟩
    · rw [hst] at hs; cases hs
    · rw [h3, hv]; exact h.counted (h1 ▸ hs)
  · intro hs
    rcases hst with hst | ⟨h1, -, -⟩
    · rw [hst] at hs; cases hs
    · rw [hlen, hv]; exact h.elected (h1 ▸ hs)
  · intro t v m hm
    rcases hsent t v m hm with hm | hm
    · exact h.sends t v m hm
    · exact hm

end VoterOk

namespace VoterOk

variable {S : Setup} {G G' : Nat → Nat → Nat → Prop} {a : Nat} {s s' : Server} {io : Io} {heard : Option Message}
  {start : Server}

/-- A new campaign: one vote, our own. -/
theorem campaign (h : VoterOk S G a s) (hsync : Synced (S.boot a) s')
    (hself : s'.selfId = a) (hst : s'.state = .candidate) (hown : G a s'.currentTerm a)
    (hnodes : s'.nodes = modifyNode a (fun p => { p with voteGranted := true })
      (s.nodes.map (fun p => { p with voteGranted := false })))
    (hvotes : s'.votesGranted = if (s.nodeById a).isSome then 1 else 0)
    (hc : ∃ evs, s'.calls = evs ++ s.calls ∧ ∀ e ∈ evs, e.silent = true) : VoterOk S G a s' := by
  obtain ⟨evs, hcalls, hsilent⟩ := hc
  constructor
  · exact hself
  · rw [hnodes, map_modifyNode _ (by intro p; rfl), List.map_map]
    exact h.members
  · exact hsync
  · intro _ p hp hv
    rw [hnodes] at hp
    rcases mem_modifyNode_iff hp with hp | ⟨q, _, hq, rfl⟩
    · obtain ⟨q, _, rfl⟩ := List.mem_map.1 hp
      cases hv
    · have hid : q.id = a := hq
      show G q.id s'.currentTerm a
      rw [hid]; exact hown
  · intro _
    rw [hvotes]
    split
    · rename_i hsome
      obtain ⟨p, hp⟩ := Option.isSome_iff_exists.1 hsome
      have hp' : (s.nodes.map (fun p => { p with voteGranted := false })).find? (fun q => q.id == a) =
          some { p with voteGranted := false } := by
        rw [Server.find?_map_id (by intro p; rfl)]
        unfold Server.nodeById at hp
        rw [hp]; rfl
      have hone := countP_grant hp' rfl
      unfold Server.votes
      rw [hnodes, hone]
      omega
    · exact Nat.zero_le _
  · intro hl; rw [hst] at hl; cases hl
  · intro t v m hm
    exact h.sends t v m (send_of_silent hcalls hsilent hm)

/-- One more vote. -/
theorem tally (h : VoterOk S G a s) {m : Message} {p : Peer} (hst : s.state = .candidate)
    (hp : s.nodeById m.sender = some p) (hn : p.voteGranted = false) (hg : G m.sender s.currentTerm a) :
    VoterOk S G a { s with
      nodes := modifyNode m.sender (fun p => { p with voteGranted := true }) s.nodes
      votesGranted := s.votesGranted + 1 } := by
  have hone := countP_grant hp hn
  constructor
  · exact h.self
  · show (modifyNode m.sender _ s.nodes).map _ = _
    rw [map_modifyNode _ (by intro p; rfl)]
    exact h.members
  · exact ⟨h.synced.last, h.synced.disciplined⟩
  · intro hs q hq hv
    rcases mem_modifyNode_iff hq with hq | ⟨q', _, hq', rfl⟩
    · exact h.backed hs q hq hv
    · show G q'.id s.currentTerm a
      rw [hq']; exact hg
  · intro hs
    show s.votesGranted + 1 ≤ (modifyNode m.sender _ s.nodes).countP _
    rw [hone]
    exact Nat.succ_le_succ (h.counted hs)
  · intro hl
    have hl : s.state = .leader := hl
    rw [hst] at hl; cases hl
  · exact h.sends

/-- A candidate with a majority of votes becomes leader. -/
theorem promote (h : VoterOk S G a s) (hst : s.state = .candidate) (hm : s.majority ≤ s.votesGranted) {nodes : List Peer}
    (hb : nodes.map Peer.ballot = s.nodes.map Peer.ballot) : VoterOk S G a { s with state := .leader, nodes := nodes } := by
  have hframe : VoterOk S G a { s with nodes := nodes } :=
    h.frame ⟨h.synced.last, h.synced.disciplined⟩ rfl hb (.inr ⟨rfl, rfl, rfl⟩) (fun t v m hm => .inl hm)
  have hlen : nodes.length = s.nodes.length := by simpa using congrArg List.length hb
  have hv : Server.votes { s with nodes := nodes } = s.votes := votes_congr hb
  refine ⟨hframe.self, hframe.members, ⟨h.synced.last, h.synced.disciplined⟩, ?_, ?_, ?_, h.sends⟩
  · intro _ p hp hpv
    exact hframe.backed (by show s.state ≠ .follower; rw [hst]; decide) p hp hpv
  · intro hl; cases hl
  · intro _
    have hmaj : s.majority ≤ s.votes := Nat.le_trans hm (h.counted hst)
    show nodes.length / 2 + 1 ≤ _
    rw [hlen]
    exact hv ▸ hmaj

/-- **Every move keeps a node's part in elections sound.** -/
theorem move (h : VoterOk S G a s) (hmv : Move S.cfg io True heard start s s')
    (hown : ∀ t b, (t, b) ∈ persisted (S.boot a) s'.calls → G a t b)
    (hheard : ∀ m rr, heard = some m → m.payload = .requestVoteResp rr → rr.preVote = false → rr.voteGranted = true →
      G m.sender rr.term a) : VoterOk S G a s' := by
  have hsync : Synced (S.boot a) s' := h.synced.move hmv
  have hquiet : ∀ evs : List Event, (∀ e ∈ evs, e.quiet = true) → ∀ e ∈ evs, e.silent = true :=
    fun evs hq e he => Event.silent_of_plain (Event.plain_of_quiet (hq e he))
  have hnil : ∀ e ∈ ([] : List Event), e.silent = true := by simp
  -- A step that keeps ballots, role, term and count, and sends nothing.
  have hkeep : ∀ evs : List Event, s'.calls = evs ++ s.calls → (∀ e ∈ evs, e.silent = true) → s'.selfId = s.selfId →
      s'.nodes.map Peer.ballot = s.nodes.map Peer.ballot → (s'.state = .follower ∨
        (s'.state = s.state ∧ s'.currentTerm = s.currentTerm ∧ s'.votesGranted = s.votesGranted)) → VoterOk S G a s' :=
    fun evs hc hs hself hb hst => h.frame hsync hself hb hst (fun t v m hm => .inl (send_of_silent hc hs hm))
  cases hmv with
  | quiet evs hq => exact hkeep evs rfl (hquiet evs hq) rfl rfl (.inr ⟨rfl, rfl, rfl⟩)
  | aim nodes hk hn => exact hkeep [] rfl hnil rfl (map_aim _ (by intro p; rfl) hk) (.inr ⟨rfl, rfl, rfl⟩)
  | adopt t ht => exact hkeep [.persistState t badNode] rfl (by simp [Event.silent]) rfl rfl (.inl rfl)
  | demote => exact hkeep [] rfl hnil rfl rfl (.inl rfl)
  | campaign hs hf =>
    have hself := h.self
    subst hself
    exact h.campaign hsync rfl rfl (hown _ _ List.mem_cons_self) rfl rfl
      ⟨[.persistState (wrap64 (s.currentTerm + 1)) s.selfId], rfl, by simp [Event.silent]⟩
  | tally m rr p hm hrr hpre hg ht hs hp hn => exact h.tally hs hp hn (ht ▸ hheard m rr hm hrr hpre hg)
  | promote hs hm _ =>
    refine h.promote hs hm ?_
    rw [map_modifyNode _ (by intro p; rfl), List.map_map]
    rfl
  | propose e log hs ht hi hp =>
    exact hkeep [.persistLogAppend e] rfl (by simp [Event.silent]) rfl (map_modifyNode _ (by intro p; rfl) _)
      (.inr ⟨rfl, rfl, rfl⟩)
  | vote m rv hm hrv hpre ht hv hu =>
    exact hkeep [.persistState s.currentTerm rv.candidateId] rfl (by simp [Event.silent]) rfl rfl (.inr ⟨rfl, rfl, rfl⟩)
  | emit m hsend =>
    refine h.frame hsync rfl rfl (.inr ⟨rfl, rfl, rfl⟩) ?_
    intro t v m' hm'
    rcases send_of_send [] rfl hnil hm' with ⟨rfl, rfl, rfl⟩ | hm'
    · refine .inr ⟨hsend.1.trans h.self, ?_⟩
      intro rr hrr hpre hg
      have hcan := hsend.2
      rw [hrr] at hcan
      rcases hcan with hcan | hcan | ⟨h1, h2⟩
      · rw [hpre] at hcan; cases hcan
      · rw [hg] at hcan; cases hcan
      · exact ⟨h1, h2.symm⟩
    · exact .inl hm'
  | accept m ae hm hae ht hs hp h0 =>
    obtain ⟨evs, hq, he⟩ := Server.accepted_eq S.cfg ae s
    refine h.frame hsync (by rw [he]) (by rw [he]) (.inr (by rw [he]; exact ⟨rfl, rfl, rfl⟩)) ?_
    intro t v m' hm'
    rcases send_of_send evs (by rw [he]) (hquiet evs hq) hm' with ⟨rfl, rfl, rfl⟩ | hm'
    · exact .inr ⟨h.self, fun rr hrr => by cases hrr⟩
    · exact .inl hm'
  | chunk m is hm his ht hs hd h0 =>
    rw [Server.chunk_eq] at hsync hkeep ⊢
    refine hkeep [] rfl hnil rfl ?_ (.inr ⟨rfl, rfl, rfl⟩)
    show (s.nodes.map Peer.key).map Peer.ballot = _
    rw [List.map_map]; rfl
  | install m is hm his ht hs hd h0 =>
    rw [Server.installed_eq] at hsync hkeep ⊢
    refine hkeep _ rfl ?_ rfl ?_ (.inr ⟨rfl, rfl, rfl⟩)
    · intro e he
      split at he
      · rw [List.mem_singleton.1 he]; rfl
      · cases he
    · show (s.nodes.map Peer.key).map Peer.ballot = _
      rw [List.map_map]; rfl
  | learn sender l hs hr =>
    exact hkeep [] rfl hnil rfl (map_modifyNode _ (by intro p; rfl) _) (.inr ⟨rfl, rfl, rfl⟩)
  | advance next hs hn => exact hkeep [] rfl hnil rfl rfl (.inr ⟨rfl, rfl, rfl⟩)
  | apply hlt =>
    rw [Server.applyNext_eq] at hsync hkeep ⊢
    refine hkeep _ rfl ?_ rfl rfl (.inr ⟨rfl, rfl, rfl⟩)
    intro e he
    rw [Option.mem_toList, Option.map_eq_some_iff] at he
    obtain ⟨x, -, rfl⟩ := he
    rfl
  | compact bytes t hio hb ht =>
    exact hkeep [.persistLogCompact s.lastApplied, .snapshotSave s.lastApplied bytes] rfl (by simp [Event.silent]) rfl
      rfl (.inr ⟨rfl, rfl, rfl⟩)

end VoterOk

/-! ## The cluster -/

/-- A message that grants a vote left after the vote was persisted. -/
theorem VoterOk.granted {S : Setup} {G : Nat → Nat → Nat → Prop} {a : Nat} {s : Server} (h : VoterOk S G a s)
    {m : Message} {rr : RequestVoteResp} (hm : m ∈ s.sent) (hrr : m.payload = .requestVoteResp rr)
    (hpre : rr.preVote = false) (hg : rr.voteGranted = true) :
    (rr.term, m.recipient) ∈ persisted (S.boot a) s.calls := by
  obtain ⟨t, v, hev⟩ := mem_sent.1 hm
  obtain ⟨h1, h2⟩ := (h.sends t v m hev).2 rr hrr hpre hg
  obtain ⟨newer, older, hsplit⟩ := List.append_of_mem hev
  have hd := h.synced.disciplined
  rw [hsplit] at hd ⊢
  have hlast := (Disciplined.of_append newer hd).1
  refine persisted_mono ?_
  rw [h1, h2, ← hlast]
  exact lastPersisted_mem _ older

/-- **Every node's part in elections is sound.** -/
def VoteInv (S : Setup) (c : Cluster) : Prop := ∀ a, VoterOk S (S.Granted c) a (c.node a)

theorem Setup.Granted.set {S : Setup} {c : Cluster} {n : Nat} {s : Server} {evs : List Event}
    (hc : s.calls = evs ++ (c.node n).calls) {v t b : Nat} (h : S.Granted c v t b) : S.Granted (c.set n s) v t b := by
  unfold Setup.Granted at h ⊢
  by_cases hv : v = n
  · subst hv
    rw [Cluster.set_node_self, hc]
    exact persisted_mono h
  · rw [Cluster.set_node_ne hv]
    exact h

/-- A node coming back keeps its record and nothing else that elections read. -/
theorem voterOk_rebuild {S : Setup} {G : Nat → Nat → Nat → Prop} {a : Nat} {calls : List Event}
    (hd : Disciplined (S.boot a) calls)
    (hs : ∀ t v m, .send t v m ∈ calls → m.sender = a ∧ ∀ rr, m.payload = .requestVoteResp rr → rr.preVote = false →
      rr.voteGranted = true → rr.term = t ∧ m.recipient = v) : VoterOk S G a (S.rebuild a calls) := by
  have hnew : ¬ (S.ids.isEmpty = true ∨ S.cfg.maxNodes < S.ids.length) := by
    rintro (h | h)
    · exact S.ne_nil (List.isEmpty_iff.1 h)
    · exact absurd S.le_max (Nat.not_le.2 h)
  unfold Setup.rebuild Server.new
  rw [if_neg hnew]
  constructor
  · rfl
  · show (S.ids.map _).map _ = _
    rw [List.map_map]; rfl
  · exact ⟨rfl, hd⟩
  · intro h; exact absurd rfl h
  · intro h; cases h
  · intro h; cases h
  · exact hs

/-- The term counter does not wrap: no election is started at the last term. -/
def Setup.TermsFit (_ : Setup) (c : Cluster) : Action → Prop
  | .call n io k => (c.node n).electing io k = true → (c.node n).currentTerm + 1 < 2 ^ 64
  | .crash n io k _ => (c.node n).electing io k = true → (c.node n).currentTerm + 1 < 2 ^ 64
  | .restart _ => True

theorem VoteInv.core_iff {S : Setup} {c : Cluster} {n : Nat} {x : Server} :
    VoteInv S (c.set n x) ↔ VoteInv S (c.set n x.core) := by
  have hG : S.Granted (c.set n x.core) = S.Granted (c.set n x) := by
    funext v t b
    unfold Setup.Granted
    by_cases hv : v = n
    · subst hv; simp only [Cluster.set_node_self]; rfl
    · rw [Cluster.set_node_ne hv, Cluster.set_node_ne hv]
  unfold VoteInv
  rw [hG]
  refine forall_congr' (fun a => ?_)
  by_cases ha : a = n
  · subst ha
    rw [Cluster.set_node_self, Cluster.set_node_self]
    exact VoterOk.core_iff.symm
  · rw [Cluster.set_node_ne ha, Cluster.set_node_ne ha]

/-- **Every move of a node keeps elections sound.** -/
theorem VoteInv.move {S : Setup} {c : Cluster} {n : Nat} {io : Io} {heard : Option Message} {start x y : Server}
    (hx : VoteInv S (c.set n x)) (hheard : ∀ m, heard = some m → m.recipient = n ∧ S.InFlight (c.set n x) m)
    (hmv : Move S.cfg io True heard start x y) : VoteInv S (c.set n y) := by
  intro a
  obtain ⟨evs, he⟩ := Server.Move.calls_grow hmv
  have hG : ∀ v t b, S.Granted (c.set n x) v t b → S.Granted (c.set n y) v t b := by
    intro v t b hv
    rw [← Cluster.set_set c n x y]
    exact hv.set (by rw [Cluster.set_node_self]; exact he)
  have ha := (hx a).mono hG
  by_cases han : a = n
  · subst han
    rw [Cluster.set_node_self] at ha ⊢
    refine ha.move hmv ?_ ?_
    · intro t b hp
      unfold Setup.Granted
      rw [Cluster.set_node_self]
      exact hp
    · intro m rr hm hrr hpre hg
      obtain ⟨hrec, v, hv, hsent⟩ := hheard m hm
      have hvote := (hx v).granted hsent hrr hpre hg
      obtain ⟨t', v', hev⟩ := mem_sent.1 hsent
      rw [((hx v).sends t' v' m hev).1]
      rw [hrec] at hvote
      exact hG v rr.term a hvote
  · rw [Cluster.set_node_ne han] at ha ⊢
    exact ha

theorem VoteInv.call {S : Setup} {c : Cluster} {n : Nat} {io : Io} {k : Call} (h : VoteInv S c)
    (hk : S.Callable c n k) (hfit : (c.node n).electing io k = true → (c.node n).currentTerm + 1 < 2 ^ 64) :
    VoteInv S (c.set n ((c.node n).perform S.cfg io k)) :=
  Setup.call_invariant True h hk (fun _ => hfit) (fun _ => VoteInv.core_iff)
    (fun _ _ hx _ hheard hmv => hx.move hheard hmv)

theorem VoteInv.rebuild {S : Setup} {c : Cluster} {n : Nat} {calls evs : List Event} (h : VoteInv S c)
    (hc : calls = evs ++ (c.node n).calls) (hd : Disciplined (S.boot n) calls)
    (hs : ∀ t v m, .send t v m ∈ calls → m.sender = n ∧ ∀ rr, m.payload = .requestVoteResp rr → rr.preVote = false →
      rr.voteGranted = true → rr.term = t ∧ m.recipient = v) : VoteInv S (c.set n (S.rebuild n calls)) := by
  intro a
  by_cases ha : a = n
  · subst ha
    rw [Cluster.set_node_self]
    exact voterOk_rebuild hd hs
  · rw [Cluster.set_node_ne ha]
    exact (h a).mono (fun v t b hv => hv.set hc)

/-- The callbacks on record after a crash: those from before the call, and the first few of it. -/
theorem callsAfter_eq (made : Nat) (before evs : List Event) :
    ∃ made' later, callsAfter made before (evs ++ before) = made' ++ before ∧ evs = later ++ made' := by
  refine ⟨evs.drop (evs.length - made), evs.take (evs.length - made), ?_, (List.take_append_drop _ _).symm⟩
  have hlen : (evs ++ before).length - before.length - made = evs.length - made := by
    rw [List.length_append]; omega
  unfold callsAfter
  rw [hlen, List.drop_append_of_le_length (Nat.sub_le _ _)]

theorem newEvents_eq {before after evs : List Event} (h : after = evs ++ before) : newEvents before after = evs := by
  unfold newEvents
  rw [h, List.length_append, Nat.add_sub_cancel, List.take_left]

/-- **A node that goes down inside a call** has made some of its callbacks, and is built anew. -/
theorem VoteInv.cut {S : Setup} {c : Cluster} {n : Nat} {y : Server} {evs : List Event} (h : VoteInv S c)
    (hy : VoteInv S (c.set n y)) (he : y.calls = evs ++ (c.node n).calls) (made : Nat) :
    VoteInv S (c.set n (S.rebuild n (callsAfter made (c.node n).calls y.calls))) := by
  have hfull := hy n
  rw [Cluster.set_node_self] at hfull
  obtain ⟨made', later, hcut, hevs⟩ := callsAfter_eq made (c.node n).calls evs
  have hall : y.calls = later ++ callsAfter made (c.node n).calls y.calls := by
    rw [he, hcut, hevs, List.append_assoc]
  refine h.rebuild (by rw [he]; exact hcut) ?_ ?_
  · have hd := hfull.synced.disciplined
    rw [hall] at hd
    exact Disciplined.of_append later hd
  · intro t v m hm
    exact hfull.sends t v m (by rw [hall]; exact List.mem_append_right later hm)

theorem voteInv_exec {S : Setup} {c : Cluster} {act : Action} (h : VoteInv S c) (hen : S.sys.enabled c act)
    (hfit : S.TermsFit c act) : VoteInv S (S.sys.exec c act) := by
  cases act with
  | call n io k => exact h.call hen hfit
  | restart n =>
    exact h.rebuild (List.nil_append _).symm (h n).synced.disciplined (h n).sends
  | crash n io k made =>
    obtain ⟨evs, he⟩ := Server.Moves.calls_grow
      (Server.perform_moves S.cfg io True (c.node n) k (fun _ => hfit))
    exact h.cut (h.call hen hfit) he made

theorem voteInv_init (S : Setup) : VoteInv S S.init := fun a => voterOk_rebuild trivial (fun _ _ _ h => by cases h)

theorem voteInv_reachable {S : Setup} {c : Cluster} (h : S.sys.Reachable S.TermsFit c) : VoteInv S c :=
  h.invariant (voteInv_init S) (fun _ _ hx hen hfit => voteInv_exec hx hen hfit)

theorem Setup.Granted.cut {S : Setup} {c : Cluster} {n : Nat} {y : Server} {evs : List Event} {v t b : Nat}
    (h : S.Granted c v t b) (he : y.calls = evs ++ (c.node n).calls) (made : Nat) :
    S.Granted (c.set n (S.rebuild n (callsAfter made (c.node n).calls y.calls))) v t b := by
  obtain ⟨made', later, hcut, -⟩ := callsAfter_eq made (c.node n).calls evs
  rw [← he] at hcut
  have hc : (S.rebuild n (callsAfter made (c.node n).calls y.calls)).calls = made' ++ (c.node n).calls := hcut
  exact h.set hc

/-- Votes on storage are never taken off it. -/
theorem granted_exec {S : Setup} {c : Cluster} (act : Action) {v t b : Nat} (h : S.Granted c v t b) :
    S.Granted (S.sys.exec c act) v t b := by
  cases act with
  | call n io k =>
    obtain ⟨evs, he⟩ := Server.Moves.calls_grow
      (Server.perform_moves S.cfg io False (c.node n) k (fun hf => hf.elim))
    have he : ((c.node n).perform S.cfg io k).calls = evs ++ (c.node n).calls := he
    exact h.set he
  | restart n =>
    have he : (S.rebuild n (c.node n).calls).calls = [] ++ (c.node n).calls := rfl
    exact h.set he
  | crash n io k made =>
    obtain ⟨evs, he⟩ := Server.Moves.calls_grow
      (Server.perform_moves S.cfg io False (c.node n) k (fun hf => hf.elim))
    exact h.cut he made

theorem granted_reaches {S : Setup} {ok : Cluster → Action → Prop} {c c' : Cluster} (h : S.sys.Reaches ok c c')
    {v t b : Nat} (hv : S.Granted c v t b) : S.Granted c' v t b :=
  h.invariant (P := fun x => S.Granted x v t b) hv (fun _ act hx _ _ => granted_exec act hx)

/-- **A leader has a majority of the cluster's votes on storage.** -/
theorem VoterOk.quorum {S : Setup} {G : Nat → Nat → Nat → Prop} {a : Nat} {s : Server} (h : VoterOk S G a s)
    (hl : s.state = .leader) : Quorum S.ids.toFinset (fun v => G v s.currentTerm a) := by
  have hids : s.nodes.map Peer.id = S.ids := by
    have := congrArg (List.map Prod.fst) h.members
    simpa [List.map_map, Function.comp_def] using this
  have hn : (s.nodes.map Peer.id).Nodup := by rw [hids]; exact S.nodup
  have hq := quorum_of_countP hn (h.elected hl)
  rw [hids] at hq
  refine hq.mono ?_
  rintro v - ⟨p, hp, rfl, hv⟩
  exact h.backed (by rw [hl]; decide) p hp hv

/-- **A node has at most one vote per term on storage**, `BAD_NODE` apart. -/
theorem granted_unique {S : Setup} {c : Cluster} (h : VoteInv S c) {v t a b : Nat} (ha : S.Granted c v t a)
    (hb : S.Granted c v t b) (hna : a ≠ badNode) (hnb : b ≠ badNode) : a = b := by
  let R : Nat × Nat → Nat × Nat → Prop := fun p q => p.1 = q.1 → p.2 ≠ badNode → q.2 ≠ badNode → p.2 = q.2
  have hsymm : Std.Symm R := ⟨fun p q hpq h1 h2 h3 => (hpq h1.symm h3 h2).symm⟩
  have hpair : (persisted (S.boot v) (c.node v).calls).Pairwise R := by
    refine (persisted_pairwise (h v).synced.disciplined).imp ?_
    intro p q hf h1 h2 h3
    rcases hf with hf | ⟨-, hf | hf⟩
    · omega
    · exact hf.symm
    · exact absurd hf h3
  exact hpair.forall_of_forall (fun p _ _ _ _ => rfl) ha hb rfl hna hnb

/-- **Election safety across restarts**: two servers that are leaders of one term, at any two moments of a run, are the
same server.  `BAD_NODE` is the vote that stands for none, so no node may have it as its id. -/
theorem election_safety (S : Setup) (hids : badNode ∉ S.ids) (c c' : Cluster) (h : S.sys.Reachable S.TermsFit c)
    (h' : S.sys.Reaches S.TermsFit c c') (a b : Nat) (ha : a ∈ S.ids) (hb : b ∈ S.ids)
    (hla : (c.node a).state = .leader) (hlb : (c'.node b).state = .leader)
    (ht : (c.node a).currentTerm = (c'.node b).currentTerm) : a = b := by
  have hinv := voteInv_reachable (h.trans h')
  have hqa : Quorum S.ids.toFinset (fun v => S.Granted c' v (c.node a).currentTerm a) :=
    ((voteInv_reachable h a).quorum hla).mono (fun v _ hv => granted_reaches h' hv)
  have hqb := (hinv b).quorum hlb
  obtain ⟨v, -, hva, hvb⟩ := hqa.meet hqb
  rw [← ht] at hvb
  exact granted_unique hinv hva hvb (fun he => hids (he ▸ ha)) (fun he => hids (he ▸ hb))

instance (S : Setup) (c : Cluster) : ∀ act : Action, Decidable (S.TermsFit c act)
  | .call n io k => inferInstanceAs (Decidable ((c.node n).electing io k = true → (c.node n).currentTerm + 1 < 2 ^ 64))
  | .crash n io k _ => inferInstanceAs (Decidable ((c.node n).electing io k = true → (c.node n).currentTerm + 1 < 2 ^ 64))
  | .restart _ => inferInstanceAs (Decidable True)

/-- Node 1 is elected and sends a heartbeat: whoever leads term 1 then is node 1. -/
theorem election_safety_trio :
    let c := trio.play trio.TermsFit .at (startAll ++ elect 1 2 5000) trio.init
    let c' := trio.play trio.TermsFit .at [.restart 3, .start 3 6000, .periodic 1 7000] c
    (c.node 1).state = .leader ∧ (c'.node 1).state = .leader ∧
      ∀ b ∈ trio.ids, (c'.node b).state = .leader → (c'.node b).currentTerm = 1 → 1 = b := by
  refine ⟨by decide +kernel, by decide +kernel, ?_⟩
  intro b hb hl ht
  have hterm : ((trio.play trio.TermsFit .at (startAll ++ elect 1 2 5000) trio.init).node 1).currentTerm = 1 := by
    decide +kernel
  exact election_safety trio (by decide) _ _ (Setup.reachable_play _ _ _) (Setup.reaches_play _ _ _ _) 1 b (by decide) hb
    (by decide +kernel) hl (hterm.trans ht.symm)

/-- Two nodes, and one whose id is `BAD_NODE`. -/
def badTrio : Setup where
  cfg := defaultConfig
  ids := [1, 2, badNode]
  boot := fun _ => (0, badNode)
  nodup := by decide
  ne_nil := by decide
  le_max := by decide

/-- The node with id `BAD_NODE` campaigns, its vote for itself looks like no vote, and it votes for node 1 as well. -/
def doubleVote : List Turn :=
  [.start 1 0, .start 2 0, .start badNode 0,
   .periodic badNode 5000, .deliver badNode 2 0 5000, .deliver 2 badNode 0 5000,
   .periodic 1 5000, .deliver 1 2 0 5000, .deliver 2 1 0 5000,
   .deliver 1 badNode 0 5000, .deliver badNode 2 0 5000, .deliver 2 badNode 0 5000, .deliver badNode 1 0 5000]

theorem election_safety_fails_with_badNode :
    ∃ c, badTrio.sys.Reachable badTrio.TermsFit c ∧ (c.node 1).state = .leader ∧ (c.node badNode).state = .leader ∧
      (c.node 1).currentTerm = (c.node badNode).currentTerm ∧ 1 ≠ badNode :=
  ⟨badTrio.play badTrio.TermsFit .at doubleVote badTrio.init, Setup.reachable_play _ _ _, by decide +kernel⟩

end Raft
end FloodEws
