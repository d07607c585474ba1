import FloodEws.Commit
import FloodEws.Schedule
/-!
# Safety — state machine safety

Every move of a server keeps the cluster a sound replicated log, whatever the network does, if two things are excluded.
A follower reports its last index as matched, not the end of the slice it was sent: its log must not go on, past that
slice, with entries the leader does not have.  And a finished `InstallSnapshot` must not lie below the receiver's edge,
where it throws away entries that were acknowledged.
-/
namespace FloodEws
namespace Raft

/-- The `AppendEntries` is accepted, and the log goes on past the slice. -/
def Server.GoesOn (cfg : Config) (s : Server) (ae : AppendEntries) : Prop :=
  s.currentTerm ≤ ae.term ∧ s.prevMismatch cfg ae = none ∧ ¬ s.log.Conflicts cfg (ae.prevLogIndex + 1) ae.view ∧
    ae.prevLogIndex + ae.nEntries < s.log.lastIndex

/-- **When an accepted message does no harm to what was acknowledged.**  Where the log of the receiver `s` goes on past
the slice, its last entry is in the log of the leader, or the leader leads no more, or has committed that far; a
finished `InstallSnapshot` does not lie below the edge. -/
def SafeOk (S : Setup) (c : Cluster) (s : Server) : Option Message → Prop
  | some ⟨_, _, .appendEntries ae⟩ => s.GoesOn S.cfg ae → (c.node ae.leaderId).state = .leader →
      (c.node ae.leaderId).currentTerm = ae.term →
      s.log.lastIndex ≤ (c.node ae.leaderId).commitIndex ∨
        (s.log.lastIndex ≤ (c.node ae.leaderId).log.lastIndex ∧
          (c.node ae.leaderId).log.termAt S.cfg s.log.lastIndex = s.log.termAt S.cfg s.log.lastIndex)
  | some ⟨_, _, .installSnapshot is⟩ => s.currentTerm ≤ is.term → is.done = true → s.log.base ≤ is.lastIncludedIndex
  | _ => True

/-- What an accepted `AppendEntries` leaves behind, once the commit index it raised is known to be committed. -/
theorem Trust.accepted {S : Setup} {g g' : Replog Nat Entry} {n : Nat} {x : Server} {ae : AppendEntries}
    (h : Trust S g n x) (hst : x.state = .follower) (hg : g.Grows g')
    (hc : Committed S g' x.currentTerm (ae.commitFrom x.commitIndex) (g'.log n)) :
    Trust S g' n (x.accepted S.cfg ae) := by
  obtain ⟨evs, hq, he⟩ := Server.accepted_eq S.cfg ae x
  have hbase := Server.accepted_base S.cfg ae x
  have hmono : x.commitIndex ≤ ae.commitFrom x.commitIndex := by
    unfold AppendEntries.commitFrom
    split <;> omega
  have hstate : (x.accepted S.cfg ae).state ≠ .leader := by
    rw [he]
    dsimp only
    rw [hst]
    exact fun hf => (by cases hf)
  refine ⟨?_, ?_, ?_, fun hs => absurd hs hstate, fun hs => absurd hs hstate, ?_⟩
  · rw [he]
    exact Nat.le_trans h.applied_le hmono
  · rw [hbase, he]
    exact Nat.le_trans h.base_le hmono
  · rw [he]
    exact hc
  · intro i e hmem
    rw [he] at hmem
    have hold : .apply i e ∈ x.calls := by
      rcases List.mem_cons.1 hmem with hmem | hmem
      · cases hmem
      rcases List.mem_append.1 hmem with hmem | hmem
      · cases hq _ hmem
      · exact hmem
    exact h.applied_grows hg i e hold

namespace Safe

variable {S : Setup} {g : Replog Nat Entry} {c : Cluster} {n : Nat} {x y start : Server} {io : Io}
  {heard : Option Message}

theorem self_mirror (h : Safe S g (c.set n x)) : Mirror S.cfg g n x := h.mirrors.self

theorem self_trust (h : Safe S g (c.set n x)) : Trust S g n x := by
  have := h.trust n
  rwa [Cluster.set_node_self] at this

theorem self_voter (h : Safe S g (c.set n x)) : VoterOk S (S.Granted (c.set n x)) n x := by
  have := h.votes n
  rwa [Cluster.set_node_self] at this

/-- A leader has all that it has committed. -/
theorem commit_le (h : Safe S g (c.set n x)) (hst : x.state = .leader) :
    g.leader x.currentTerm ≠ none ∧ x.commitIndex ≤ (g.llog x.currentTerm).length := by
  have hl : g.leader x.currentTerm ≠ none := by
    rw [(h.self_mirror.leads hst).1]
    exact Option.some_ne_none n
  exact ⟨hl, h.self_trust.commit.reached.le_length h.sound hl⟩

/-- A move that leaves the history as it is and sends nothing. -/
theorem hold {fit : Prop} (h : Safe S g (c.set n x)) (hv : VoteInv S (c.set n y))
    (hmv : Move S.cfg io fit heard start x y) (evs : List Event) (hc : y.calls = evs ++ x.calls)
    (hev : ∀ e ∈ evs, e.silent = true ∧ e.casts = false) (hterm : y.currentTerm = x.currentTerm)
    (hring : y.log.Holds S.cfg (g.log n)) (hst : y.state = x.state ∨ y.state = .follower) (htrust : Trust S g n y)
    (hcommit : x.commitIndex ≤ y.commitIndex) : Safe S g (c.set n y) := by
  refine h.step hv (h.mirrors.hold h.self_voter.self hmv evs hc (fun e he => (hev e he).2) hterm hring hst) h.sound
    (.refl g) (fun _ _ => rfl) htrust ?_ (fun _ => hcommit)
    (fun m hm => .inl (mem_sent_of_silent evs hc (fun e he => (hev e he).1) hm))
  intro hl
  rcases hst with hst | hst
  · exact .inl ⟨hst ▸ hl, hterm⟩
  · rw [hst] at hl
    cases hl

/-- A move with a step of the replicated log that leaves the node's log alone. -/
theorem stepped {g' : Replog Nat Entry} (h : Safe S g (c.set n x)) (hv : VoteInv S (c.set n y))
    (hnext : Next S True n (g.log n) g g') (hm : Mirrors S g' (c.set n y)) (evs : List Event)
    (hc : y.calls = evs ++ x.calls) (hev : ∀ e ∈ evs, e.silent = true) (htrust : Trust S g n y)
    (hlead : y.state = .leader → (x.state = .leader ∧ y.currentTerm = x.currentTerm) ∨
      g.leader y.currentTerm ≠ some n)
    (hcommit : x.commitIndex ≤ y.commitIndex) : g.Grows g' ∧ Safe S g' (c.set n y) := by
  have hg := hnext.grows h.mirrors.coherent
  have hlog : g'.log = g.log := by rw [hnext.log, Function.update_eq_self]
  have hs := hnext.sound h.sound
  refine ⟨hg, h.step hv hm hs hg (fun a _ => by rw [hlog]) ?_ hlead (fun _ => hcommit)
    (fun m hm => .inl (mem_sent_of_silent evs hc hev hm))⟩
  refine htrust.grows hg ?_
  rw [hlog]
  exact htrust.commit.grows hg (Nat.le_refl _)

/-- A move that sends one message. -/
theorem send {fit : Prop} {m : Message} (h : Safe S g (c.set n x)) (hv : VoteInv S (c.set n (x.emit m)))
    (hmv : Move S.cfg io fit heard start x (x.emit m)) (hpl : Pledge S g (c.set n (x.emit m)) m) :
    Safe S g (c.set n (x.emit m)) := by
  refine h.step hv (h.mirrors.hold h.self_voter.self hmv [_] rfl (by simp [Event.casts]) rfl h.self_mirror.ring (.inl rfl))
    h.sound (.refl g) (fun _ _ => rfl) ?_ (fun hl => .inl ⟨hl, rfl⟩) (fun _ => Nat.le_refl _) ?_
  · exact h.self_trust.frame (Nat.le_refl _) rfl rfl rfl
      (fun hl => ⟨hl, rfl, fun p hp hs => ⟨p, hp, hs, rfl, rfl⟩⟩) (fun i e he => by simpa [Server.emit, Server.call] using he)
  · intro m' hm'
    obtain ⟨t, v, hev⟩ := mem_sent.1 hm'
    rcases send_of_send [] rfl (by simp) hev with ⟨-, -, rfl⟩ | hev
    · exact .inr hpl
    · exact .inl (mem_sent.2 ⟨t, v, hev⟩)

theorem emit {fit : Prop} {m : Message} (h : Safe S g (c.set n x)) (hv : VoteInv S (c.set n (x.emit m)))
    (hcan : x.CanSend S.cfg m) (hmv : Move S.cfg io fit heard start x (x.emit m)) :
    ∃ g', g.Grows g' ∧ Safe S g' (c.set n (x.emit m)) := by
  have hn := h.self_mirror
  have ht := h.self_trust
  by_cases hpl : ∃ rr, m.payload = .installSnapshotResp rr
  · obtain ⟨rr, hrr⟩ := hpl
    have hfields := hcan.2
    rw [hrr] at hfields
    obtain ⟨hterm, hbase⟩ : rr.term = x.currentTerm ∧ rr.lastIncludedIndex = x.log.base := hfields
    have hreach : Reached S g rr.term rr.lastIncludedIndex := by
      rw [hterm, hbase]
      exact ht.commit.reached.mono ht.base_le
    by_cases hl : g.leader x.currentTerm = none
    · -- Nobody leads the term, so no index of it can be acknowledged.
      refine ⟨g, .refl g, h.send hv hmv ?_⟩
      unfold Pledge
      rw [hrr]
      refine ⟨hreach, ?_⟩
      rintro k - ⟨-, e, he, -⟩
      rw [hterm, h.sound.idle _ hl] at he
      cases he
    · -- What the edge covers is chosen, so the leader has it too.
      rw [← hn.term] at hl
      have hcommit := ht.commit
      rw [← hn.term] at hcommit
      have hk : x.log.base ≤ (g.llog (g.term n)).length := (hcommit.reached.mono ht.base_le).le_length h.sound hl
      have hp : (g.llog (g.term n)).take x.log.base <+: g.log n := by
        rw [← hcommit.take_eq h.sound hl ht.base_le hn.ring.base_le]
        exact List.take_prefix _ _
      have hg := acknowledged_grows hk hp h.mirrors.coherent
      refine ⟨acknowledged g n x.log.base, hg, (h.acknowledge hk hp).send hv hmv ?_⟩
      unfold Pledge
      rw [hrr]
      refine ⟨hreach.grows hg (Nat.le_refl _), ?_⟩
      intro k hkb _
      have hsender : m.sender = n := hcan.1.trans h.self_voter.self
      rw [hsender, hterm, ← hn.term]
      rw [hbase] at hkb
      exact Nat.le_trans hkb le_acked_acknowledged
  · exact ⟨g, .refl g, h.send hv hmv (ht.pledge hcan (fun rr hrr => hpl ⟨rr, hrr⟩))⟩

theorem propose (h : Safe S g (c.set n x)) (hv : VoteInv S (c.set n y)) (hst : x.state = .leader) {e : Entry}
    {log : LogRing} (ht : e.term = x.currentTerm) (hi : e.index = x.log.lastIndex + 1)
    (hp : x.log.push S.cfg e = .ok log)
    (hy : y = { x with log := log, nodes := modifyNode x.selfId (fun p => { p with matchIndex := e.index }) x.nodes,
                       calls := .persistLogAppend e :: x.calls }) :
    ∃ g', g.Grows g' ∧ Safe S g' (c.set n y) := by
  have hn := h.self_mirror
  have htr := h.self_trust
  have hnext : ∃ g', Next S True n (g.log n ++ [e]) g g' ∧ Mirrors S g' (c.set n y) := h.mirrors.propose hst ht hi hp hy
  obtain ⟨g', hnext, hm⟩ := hnext
  have hg := hnext.grows h.mirrors.coherent
  have hlog : g'.log n = g.log n ++ [e] := by rw [hnext.log, Function.update_self]
  have hs := hnext.sound h.sound
  -- A leader's commit index is within its log.
  have hcommit : Committed S g' x.currentTerm x.commitIndex (g'.log n) := by
    have hle := (h.commit_le hst).2
    rw [← (hn.leads hst).2] at hle
    have hold := htr.commit.grows hg (Nat.le_refl _)
    rcases hold with hz | ⟨t, k, h1, h2, h3, h4⟩
    · exact .inl hz
    · refine .inr ⟨t, k, h1, h2, h3, ?_⟩
      rw [hlog, List.take_append_of_le_length hle]
      exact h4
  have hbase : log.base = x.log.base := (hn.ring.toLive.push hp).2.1
  subst hy
  refine ⟨g', hg, h.step hv hm hs hg (fun a ha => by rw [hnext.log, Function.update_of_ne ha]) ?_
    (fun hl => .inl ⟨hl, rfl⟩) (fun _ => Nat.le_refl _)
    (fun m hmem => .inl (mem_sent_of_silent [.persistLogAppend e] rfl (by simp [Event.silent]) hmem))⟩
  refine (htr.grows hg hcommit).frame (Nat.le_refl _) rfl rfl hbase (fun hl => ⟨hl, rfl, ?_⟩)
    (fun i d hd => by simpa using hd)
  intro p hmem hself
  rcases mem_modifyNode_iff hmem with hmem | ⟨q, hq, hid, rfl⟩
  · exact ⟨p, hmem, hself, rfl, rfl⟩
  · have hqs := h.self_voter.isSelf_of_self q hq hid
    have hself : q.isSelf = false := hself
    rw [hqs] at hself
    cases hself

theorem promote (h : Safe S g (c.set n x)) (hne : n ≠ badNode) (hv : VoteInv S (c.set n y)) (hst : x.state = .candidate)
    (hy : y = { x with
      state := .leader
      nodes := modifyNode x.selfId (fun p => { p with matchIndex := x.log.lastIndex })
        (x.nodes.map (fun p => { p with nextIndex := x.log.lastIndex + 1, matchIndex := 0 })) })
    (hmatch : ∀ p ∈ y.nodes, p.isSelf = false → p.matchIndex = 0) :
    ∃ g', g.Grows g' ∧ Safe S g' (c.set n y) := by
  have htr := h.self_trust
  have hnext : ∃ g', Next S True n (g.log n) g g' ∧ Mirrors S g' (c.set n y) := h.mirrors.promote hne hv hst hy
  obtain ⟨g', hnext, hm⟩ := hnext
  have hnot := (h.self_mirror.runs hst).2
  have htrust : Trust S g n y := by
    refine ⟨?_, ?_, ?_, ?_, ?_, ?_⟩
    · rw [hy]; exact htr.applied_le
    · rw [hy]; exact htr.base_le
    · rw [hy]; exact htr.commit
    · intro _ p hp hself
      rw [hmatch p hp hself]
      exact Nat.zero_le _
    · intro _ p hp hself k hk hkm _
      rw [hmatch p hp hself] at hkm
      omega
    · rw [hy]; exact htr.applied
  obtain ⟨hg, hsafe⟩ := h.stepped hv hnext hm [] (by rw [hy]; rfl) (by simp) htrust (fun _ => .inr (by rw [hy]; exact hnot))
    (by rw [hy])
  exact ⟨g', hg, hsafe⟩

/-- **What a report is worth**: the index is within the leader's log, and true above the commit index. -/
theorem report (h : Safe S g (c.set n x)) (hst : x.state = .leader)
    (hheard : ∀ m, heard = some m → m.recipient = n ∧ S.InFlight (c.set n x) m) {sender l : Nat}
    (hr : Reports x heard sender l) :
    l ≤ (g.llog x.currentTerm).length ∧
      ∀ k, x.commitIndex < k → k ≤ l → Own g x.currentTerm k → k ≤ g.acked sender x.currentTerm := by
  obtain ⟨hl, hcommit⟩ := h.commit_le hst
  obtain ⟨m, hm, rfl, hr⟩ := hr
  obtain ⟨hrec, a, -, hsent⟩ := hheard m hm
  have hpl := h.sent a m hsent
  unfold Pledge at hpl
  rcases hr with ⟨rr, hrr, hsucc, ht, rfl⟩ | ⟨rr, hrr, ht, rfl⟩
  · rw [hrr] at hpl
    obtain ⟨-, hpl⟩ := hpl hsucc
    rw [hrec, Cluster.set_node_self, ht] at hpl
    rcases hpl with hpl | hpl
    · exact ⟨Nat.le_trans hpl (h.sound.acked_le _ _), fun k _ hk _ => Nat.le_trans hk hpl⟩
    · have hle := hpl hst rfl
      exact ⟨Nat.le_trans hle hcommit, fun k hk hkl _ => by omega⟩
  · rw [hrr] at hpl
    obtain ⟨hreach, hack⟩ := hpl
    refine ⟨(hreach.grows (.refl g) ht).le_length h.sound hl, ?_⟩
    intro k hk hkl hown
    rcases Nat.eq_or_lt_of_le ht with ht | ht
    · rw [← ht] at hown ⊢
      exact hack k hkl hown
    · -- The edge reported was chosen in an earlier term: none of its entries is the leader's own.
      exfalso
      obtain ⟨-, e, he, het⟩ := hown
      rcases hreach with hz | ⟨t, k₀, ht₀, hc, hk₀⟩
      · omega
      · have := h.sound.chosen_lt_own hc (show t < x.currentTerm by omega) he het
        omega

theorem learn {fit : Prop} (h : Safe S g (c.set n x)) (hv : VoteInv S (c.set n y)) (hst : x.state = .leader)
    (hmv : Move S.cfg io fit heard start x y)
    (hheard : ∀ m, heard = some m → m.recipient = n ∧ S.InFlight (c.set n x) m) {sender l : Nat}
    (hr : Reports x heard sender l)
    (hy : y = { x with nodes := modifyNode sender (fun p => { p with matchIndex := max l p.matchIndex }) x.nodes }) :
    Safe S g (c.set n y) := by
  have htr := h.self_trust
  obtain ⟨hlen, hack⟩ := h.report hst hheard hr
  have htrust : Trust S g n y := by
    subst hy
    refine ⟨htr.applied_le, htr.base_le, htr.commit, ?_, ?_, htr.applied⟩
    · intro _ p hp hself
      rcases mem_modifyNode_iff hp with hp | ⟨q, hq, -, rfl⟩
      · exact htr.match_le hst p hp hself
      · exact Nat.max_le.2 ⟨hlen, htr.match_le hst q hq hself⟩
    · intro _ p hp hself k hk hkm hown
      rcases mem_modifyNode_iff hp with hp | ⟨q, hq, hid, rfl⟩
      · exact htr.acked hst p hp hself k hk hkm hown
      · have hkm : k ≤ max l q.matchIndex := hkm
        show k ≤ g.acked q.id x.currentTerm
        rcases Nat.lt_or_ge l k with hkl | hkl
        · exact htr.acked hst q hq hself k hk (by omega) hown
        · rw [hid]
          exact hack k hk hkl hown
  exact h.hold hv hmv [] (by rw [hy]; rfl) (by simp) (by rw [hy]) (by rw [hy]; exact h.self_mirror.ring)
    (.inl (by rw [hy])) htrust (by rw [hy])

/-- **A leader's count**: the nodes it counts for an entry of its own, above its commit index, have acknowledged it, once
it counts itself. -/
theorem quorum_counted {k : Nat} (h : Safe S g (c.set n x)) (hst : x.state = .leader)
    (hk : k ≤ (g.llog (g.term n)).length) (hp : (g.llog (g.term n)).take k <+: g.log n) (hgt : x.commitIndex < k)
    (hown : Own g x.currentTerm k)
    (hcount : x.majority ≤ x.nodes.countP (fun p : Peer => p.isSelf || decide (k ≤ p.matchIndex))) :
    Quorum S.ids.toFinset (fun v => k ≤ (acknowledged g n k).acked v x.currentTerm) := by
  have hg := acknowledged_grows hk hp h.mirrors.coherent
  have hids : x.nodes.map Peer.id = S.ids := by
    have := congrArg (List.map Prod.fst) h.self_voter.members
    simpa [List.map_map, Function.comp_def] using this
  have hnodup : (x.nodes.map Peer.id).Nodup := by rw [hids]; exact S.nodup
  have hq := quorum_of_countP hnodup hcount
  rw [hids] at hq
  refine hq.mono ?_
  rintro v - ⟨p, hp, rfl, hv⟩
  cases hself : p.isSelf with
  | true =>
    have hpn : p.id = n := by
      have := h.self_voter.isSelf_eq hp
      rw [hself] at this
      exact beq_iff_eq.1 this.symm
    rw [hpn, ← h.self_mirror.term]
    exact le_acked_acknowledged
  | false =>
    rw [hself, Bool.false_or] at hv
    exact Nat.le_trans (h.self_trust.acked hst p hp hself k hgt (of_decide_eq_true hv) hown) (hg.acked _ _)

/-- **The commit rule**: an index that a majority has acknowledged, the leader itself included, of the leader's own term,
is chosen. -/
theorem advance {fit : Prop} {next : Nat} (h : Safe S g (c.set n x)) (hv : VoteInv S (c.set n y)) (hst : x.state = .leader)
    (hmv : Move S.cfg io fit heard start x y)
    (hnext : Server.findCommit S.cfg x (x.log.lastIndex - x.commitIndex) = some next)
    (hy : y = { x with commitIndex := next }) : ∃ g', g.Grows g' ∧ Safe S g' (c.set n y) ∧
      g'.Chosen Entry.term S.ids.toFinset x.currentTerm next ∧ next ≤ g'.acked n x.currentTerm := by
  have hn := h.self_mirror
  have htr := h.self_trust
  obtain ⟨hl, hlog⟩ := hn.leads hst
  obtain ⟨hgt, -, hterm, hcount⟩ := Ordered.findCommit_spec hnext
  have hb := htr.base_le
  obtain ⟨hle, heq⟩ := hn.ring.termAt_eq_some (show x.log.base ≤ next by omega) hterm
  rw [hlog] at hle heq
  obtain ⟨i, rfl⟩ : ∃ i, next = i + 1 := ⟨next - 1, by omega⟩
  obtain ⟨e, he⟩ : ∃ e, (g.llog x.currentTerm)[i]? = some e := ⟨_, List.getElem?_eq_getElem (by omega)⟩
  rw [termOf_succ he] at heq
  have hown : Own g x.currentTerm (i + 1) := ⟨Nat.succ_pos i, e, he, heq.symm⟩
  -- The leader counts itself.
  have hk : i + 1 ≤ (g.llog (g.term n)).length := by rw [hn.term]; exact hle
  have hp : (g.llog (g.term n)).take (i + 1) <+: g.log n := by
    rw [hn.term, hlog]
    exact List.take_prefix _ _
  have hg := acknowledged_grows hk hp h.mirrors.coherent
  have hsafe := h.acknowledge hk hp
  have hchosen : (acknowledged g n (i + 1)).Chosen Entry.term S.ids.toFinset x.currentTerm (i + 1) :=
    ⟨⟨e, he, heq.symm⟩, Nat.succ_pos i, h.quorum_counted hst hk hp hgt hown hcount⟩
  have htr' := hsafe.self_trust
  have htrust : Trust S (acknowledged g n (i + 1)) n y := by
    subst hy
    refine ⟨?_, ?_, ?_, htr'.match_le, ?_, htr'.applied⟩
    · exact Nat.le_trans htr.applied_le (Nat.le_of_lt hgt)
    · exact Nat.le_trans hb (Nat.le_of_lt hgt)
    · refine .inr ⟨x.currentTerm, i + 1, Nat.le_refl _, hchosen, Nat.le_refl _, ?_⟩
      show (g.log n).take (i + 1) <+: g.llog x.currentTerm
      rw [hlog]
      exact List.take_prefix _ _
    · intro hs p hp hself k hk hkm ho
      have hk : i + 1 < k := hk
      exact htr'.acked hs p hp hself k (by omega) hkm ho
  refine ⟨acknowledged g n (i + 1), hg, hsafe.hold hv hmv [] (by rw [hy]; rfl) (by simp) (by rw [hy])
    (by rw [hy]; exact hn.ring) (.inl (by rw [hy])) htrust (by rw [hy]; exact Nat.le_of_lt hgt), hchosen, ?_⟩
  rw [← hn.term]
  exact le_acked_acknowledged

theorem apply {fit : Prop} (h : Safe S g (c.set n x)) (hv : VoteInv S (c.set n (x.applyNext S.cfg)))
    (hlt : x.lastApplied < x.commitIndex) (hmv : Move S.cfg io fit heard start x (x.applyNext S.cfg)) :
    Safe S g (c.set n (x.applyNext S.cfg)) := by
  have hn := h.self_mirror
  have htr := h.self_trust
  have he := Server.applyNext_eq S.cfg x
  have htrust : Trust S g n (x.applyNext S.cfg) := by
    refine ⟨?_, ?_, ?_, ?_, ?_, ?_⟩
    · rw [he]; exact hlt
    · rw [he]; exact htr.base_le
    · rw [he]; exact htr.commit
    · rw [he]; exact htr.match_le
    · rw [he]; exact htr.acked
    · intro i d hd
      rcases hmv.applies hd with hd | ⟨-, rfl, hat⟩
      · exact htr.applied i d hd
      · -- The entry is below the commit index, so it is a chosen one.
        obtain ⟨hb, hlen, hget⟩ := hn.ring.at?_eq_some.1 hat
        rcases htr.commit with hz | ⟨t, k, -, hc, hk, hp⟩
        · omega
        · refine ⟨t, k, hc, Nat.succ_pos _, by omega, ?_⟩
          obtain ⟨ext, hext⟩ := hp
          have hlt' : x.lastApplied + 1 - 1 < ((g.log n).take x.commitIndex).length := by
            rw [List.length_take]
            omega
          rw [← hext, List.getElem?_append_left hlt', List.getElem?_take_of_lt (by omega)]
          exact hget
  refine h.hold hv hmv _ (by rw [he]) ?_ (by rw [he]) (by rw [he]; exact hn.ring) (.inl (by rw [he])) htrust
    (by rw [he])
  cases x.log.at? S.cfg (x.lastApplied + 1) with
  | none => simp
  | some e => simp [Event.silent, Event.casts]

theorem compact {fit : Prop} (h : Safe S g (c.set n x)) (hv : VoteInv S (c.set n y)) {bytes : List Byte} {t : Nat}
    (hb : x.log.base < x.lastApplied) (ht : x.log.termAt S.cfg x.lastApplied = some t)
    (hmv : Move S.cfg io fit heard start x y)
    (hy : y = { x with
      snapBuf := splice x.snapBuf 0 bytes.length bytes
      snapLen := bytes.length
      log := x.log.compactTo S.cfg x.lastApplied t
      calls := .persistLogCompact x.lastApplied :: .snapshotSave x.lastApplied bytes :: x.calls }) :
    Safe S g (c.set n y) := by
  have htr := h.self_trust
  have htrust : Trust S g n y := by
    subst hy
    exact ⟨htr.applied_le, htr.applied_le, htr.commit, htr.match_le, htr.acked,
      fun i e he => htr.applied i e (by simpa using he)⟩
  exact h.hold hv hmv [_, _] (by rw [hy]; rfl) (by simp [Event.silent, Event.casts]) (by rw [hy])
    (by rw [hy]; exact Mirrors.holds_compact h.self_mirror hb ht) (.inl (by rw [hy])) htrust (by rw [hy])

/-! ## Accepted messages -/

theorem reached_append {m : Message} {ae : AppendEntries} (h : Safe S g c) (hmem : S.InFlight c m)
    (hae : m.payload = .appendEntries ae) : Reached S g ae.term ae.leaderCommit := by
  obtain ⟨a, -, hsent⟩ := hmem
  have hpl := h.sent a m hsent
  unfold Pledge at hpl
  rwa [hae] at hpl

theorem reached_install {m : Message} {is : InstallSnapshot} (h : Safe S g c) (hmem : S.InFlight c m)
    (his : m.payload = .installSnapshot is) : Reached S g is.term is.lastIncludedIndex := by
  obtain ⟨a, -, hsent⟩ := hmem
  have hpl := h.sent a m hsent
  unfold Pledge at hpl
  rwa [his] at hpl

/-- **The last entry is the leader's, so all of them are.** -/
theorem prefix_of_termAt {a : Nat} (h : Safe S g (c.set n x)) (hne : a ≠ n) (hst : (c.node a).state = .leader)
    (hpos : 0 < (g.log n).length)
    (heq : (c.node a).log.termAt S.cfg (g.log n).length = x.log.termAt S.cfg (g.log n).length) :
    g.log n <+: g.llog (c.node a).currentTerm := by
  have hring := h.self_mirror.ring
  have hlead := h.mirrors.node a
  rw [Cluster.set_node_ne hne] at hlead
  obtain ⟨-, hlog⟩ := hlead.leads hst
  rw [hring.termAt_eq hring.base_le (Nat.le_refl _)] at heq
  have hbase : (c.node a).log.base ≤ (g.log n).length := by
    by_contra hb
    rw [LogRing.termAt_eq_none (by omega) (.inl (by omega))] at heq
    cases heq
  obtain ⟨hlen, hterms⟩ := hlead.ring.termAt_eq_some hbase heq
  rw [hlog] at hlen hterms
  obtain ⟨i, hi⟩ : ∃ i, (g.log n).length = i + 1 := ⟨(g.log n).length - 1, by omega⟩
  rw [hi] at hlen hterms
  obtain ⟨e, he⟩ : ∃ e, (g.log n)[i]? = some e := ⟨_, List.getElem?_eq_getElem (by omega)⟩
  obtain ⟨e', he'⟩ : ∃ e', (g.llog (c.node a).currentTerm)[i]? = some e' := ⟨_, List.getElem?_eq_getElem (by omega)⟩
  rw [termOf_succ he, termOf_succ he'] at hterms
  have hagree := (h.mirrors.coherent.log n).agree (h.mirrors.coherent.llog _) he he' hterms
  rw [List.take_of_length_le (by omega)] at hagree
  exact hagree ▸ List.take_prefix _ _

/-- What an accepted `AppendEntries` sends is its reply. -/
theorem accepted_sent {cfg : Config} {m : Message} {ae : AppendEntries} (hm : m ∈ (x.accepted cfg ae).sent) : m ∈ x.sent ∨
    m = ⟨x.selfId, ae.leaderId, .appendEntriesResp
      { term := x.currentTerm, success := true,
        lastLogIndex := (x.log.appendAll cfg (ae.prevLogIndex + 1) ae.view).lastIndex }⟩ := by
  obtain ⟨evs, hq, he⟩ := Server.accepted_eq cfg ae x
  obtain ⟨t, v, hev⟩ := mem_sent.1 hm
  rw [he] at hev
  rcases send_of_send evs rfl (fun e he => Event.silent_of_plain (Event.plain_of_quiet (hq e he))) hev with
    ⟨-, -, rfl⟩ | hev
  · exact .inr rfl
  · exact .inl (mem_sent.2 ⟨t, v, hev⟩)

section

variable {m : Message} {ae : AppendEntries} {ℓ' : List Entry}
  (hcase : ae.prevLogIndex + ae.nEntries ≤ x.log.base ∧ ae.prevLogIndex < x.log.base ∧ ℓ' = g.log n ∨
    LogRing.Appended S.cfg x.log (x.accepted S.cfg ae).log (g.log n) ℓ' (g.llog x.currentTerm)
      (ae.prevLogIndex + ae.nEntries))

include hcase in
/-- A log that goes on past the slice with other entries than the leader's is the one that was there, and the slice
was all in it. -/
theorem stale (h : Safe S g (c.set n x)) (hl : g.leader x.currentTerm ≠ none)
    (hslice : ae.entries <+: (g.llog x.currentTerm).drop ae.prevLogIndex) (hcount : ae.nEntries = ae.entries.length)
    (hnot : ¬ ℓ' <+: g.llog x.currentTerm) :
    ℓ' = g.log n ∧ ae.prevLogIndex + ae.nEntries < (g.log n).length ∧
      (g.log n).take (ae.prevLogIndex + ae.nEntries) <+: g.llog x.currentTerm ∧
      ¬ x.log.Conflicts S.cfg (ae.prevLogIndex + 1) ae.view := by
  have hring := h.self_mirror.ring
  have hb := hring.base_le
  have hedge := h.self_trust.commit.take_eq h.sound hl h.self_trust.base_le hb
  have hview : ae.view = ae.entries := AppendEntries.view_eq hcount
  -- The two logs agree as far as the slice and the edge reach.
  obtain ⟨hℓ, k, hk, hkb, heq⟩ : ℓ' = g.log n ∧ ∃ k, ae.prevLogIndex + ae.nEntries ≤ k ∧ x.log.base ≤ k ∧
      (g.log n).take k = (g.llog x.currentTerm).take k := by
    rcases hcase with ⟨h1, -, h2⟩ | happ
    · exact ⟨h2, x.log.base, h1, Nat.le_refl _, hedge⟩
    · have hℓ : ℓ' = g.log n := by
        rcases happ.from_leader with hℓ | ⟨j, -, hj⟩
        · exact hℓ
        · exact absurd (hj ▸ List.take_prefix _ _) hnot
      subst hℓ
      refine ⟨rfl, _, Nat.le_max_left _ x.log.base, Nat.le_max_right _ _, ?_⟩
      rcases happ.aligned with ⟨-, ha⟩ | ⟨ha, -, -⟩
      · rwa [happ.base] at ha
      · exact absurd ha hnot
  subst hℓ
  have hlt : k < (g.log n).length := by
    by_contra hle
    rw [List.take_of_length_le (by omega)] at heq
    exact hnot (heq ▸ List.take_prefix _ _)
  refine ⟨rfl, by omega, ?_, ?_⟩
  · have hpre : (g.log n).take (ae.prevLogIndex + ae.nEntries) <+: (g.log n).take k :=
      List.take_isPrefix_take.2 (.inl hk)
    rw [heq] at hpre
    exact hpre.trans (List.take_prefix _ _)
  · rintro ⟨j, hj, hbj, hlj, hne⟩
    rw [hview] at hj hne
    refine hne ?_
    have hget : (g.llog x.currentTerm)[ae.prevLogIndex + j]? = ae.entries[j]? := by
      obtain ⟨rest, hrest⟩ := hslice
      rw [← List.getElem?_drop, ← hrest, List.getElem?_append_left hj]
    have hsame : (g.log n)[ae.prevLogIndex + j]? = ae.entries[j]? := by
      rw [← hget, ← List.getElem?_take_of_lt (show ae.prevLogIndex + j < k by omega), heq,
        List.getElem?_take_of_lt (by omega)]
    obtain ⟨e, he⟩ : ∃ e, ae.entries[j]? = some e := ⟨_, List.getElem?_eq_getElem hj⟩
    rw [he] at hsame
    rw [hring.termAt_eq (by omega) (by omega), he, show ae.prevLogIndex + 1 + j = ae.prevLogIndex + j + 1 by omega,
      termOf_succ hsame]
    rfl

include hcase in
/-- The commit index after the slice covers nothing that leaders have not chosen. -/
theorem accepted_committed (h : Safe S g (c.set n x)) (hl : g.leader x.currentTerm ≠ none)
    (hslice : ae.entries <+: (g.llog x.currentTerm).drop ae.prevLogIndex) (hcount : ae.nEntries = ae.entries.length)
    (hreach : Reached S g x.currentTerm ae.leaderCommit) :
    Committed S g x.currentTerm (ae.commitFrom x.commitIndex) ℓ' := by
  have hcommit := h.self_trust.commit
  have hcases : ae.commitFrom x.commitIndex = x.commitIndex ∨
      (ae.commitFrom x.commitIndex ≤ ae.leaderCommit ∧
        ae.commitFrom x.commitIndex ≤ ae.prevLogIndex + ae.nEntries) := by
    unfold AppendEntries.commitFrom
    split <;> omega
  have hreach' : Reached S g x.currentTerm (ae.commitFrom x.commitIndex) := by
    rcases hcases with heq | ⟨hle, -⟩
    · rw [heq]
      exact hcommit.reached
    · exact hreach.mono hle
  refine hreach'.committed h.sound hl ?_
  by_cases hpre : ℓ' <+: g.llog x.currentTerm
  · exact (List.take_prefix _ _).trans hpre
  · obtain ⟨rfl, -, hagree, -⟩ := h.stale hcase hl hslice hcount hpre
    rcases hcases with heq | ⟨-, hle⟩
    · rw [heq]
      exact hcommit.at_leader h.sound hl
    · exact (List.take_isPrefix_take.2 (.inl hle)).trans hagree

include hcase in
theorem stale_goesOn (h : Safe S g (c.set n x)) (h0 : Server.Untouched (c.node n) x) (ht : ae.term = x.currentTerm)
    (hp : x.prevMismatch S.cfg ae = none) (hl : g.leader x.currentTerm ≠ none)
    (hslice : ae.entries <+: (g.llog x.currentTerm).drop ae.prevLogIndex) (hcount : ae.nEntries = ae.entries.length)
    (hnot : ¬ ℓ' <+: g.llog x.currentTerm) : ℓ' = g.log n ∧ (c.node n).GoesOn S.cfg ae := by
  obtain ⟨heq, hlt, -, hcon⟩ := h.stale hcase hl hslice hcount hnot
  refine ⟨heq, ht ▸ h0.term, Ordered.prevMismatch_congr h0.log.symm hp, h0.log ▸ hcon, ?_⟩
  rw [← h0.log, h.self_mirror.ring.lastIndex]
  exact hlt

include hcase in
/-- A stale tail is reported to a leader that leads no more, or has committed that far. -/
theorem stale_harmless (h : Safe S g (c.set n x)) (hok : SafeOk S c (c.node n) (some m))
    (h0 : Server.Untouched (c.node n) x) (hae : m.payload = .appendEntries ae) (ht : ae.term = x.currentTerm)
    (hp : x.prevMismatch S.cfg ae = none) (hl : g.leader x.currentTerm ≠ none)
    (hslice : ae.entries <+: (g.llog x.currentTerm).drop ae.prevLogIndex) (hcount : ae.nEntries = ae.entries.length)
    (hnot : ¬ ℓ' <+: g.llog x.currentTerm) (hne : ae.leaderId ≠ n) (hst : (c.node ae.leaderId).state = .leader)
    (hterm : (c.node ae.leaderId).currentTerm = x.currentTerm) :
    ℓ'.length ≤ (c.node ae.leaderId).commitIndex := by
  have hring := h.self_mirror.ring
  obtain ⟨rfl, hgoes⟩ := h.stale_goesOn hcase h0 ht hp hl hslice hcount hnot
  obtain ⟨src, dst, pl⟩ := m
  cases hae
  have hlt := hgoes.2.2.2
  have hend := hok hgoes hst (hterm.trans ht.symm)
  rw [← h0.log, hring.lastIndex] at hlt hend
  rcases hend with hend | ⟨-, heq⟩
  · exact hend
  · have hpre := h.prefix_of_termAt hne hst (Nat.zero_lt_of_lt hlt) heq
    rw [hterm] at hpre
    exact absurd hpre hnot

end

/-- **An accepted `AppendEntries`**: what it reports is true, or the log goes on with entries the leader does not have,
and the report does no harm. -/
theorem accept {m : Message} {ae : AppendEntries} (h : Safe S g (c.set n x))
    (hv : VoteInv S (c.set n (x.accepted S.cfg ae))) (hmem : S.InFlight (c.set n x) m)
    (hok : SafeOk S c (c.node n) (some m)) (h0 : Server.Untouched (c.node n) x) (hae : m.payload = .appendEntries ae)
    (ht : ae.term = x.currentTerm) (hst : x.state = .follower) (hp : x.prevMismatch S.cfg ae = none) :
    ∃ g', g.Grows g' ∧ Safe S g' (c.set n (x.accepted S.cfg ae)) ∧
      ((x.accepted S.cfg ae).log.lastIndex ≤ g'.acked n x.currentTerm ∨
        ((c.node n).GoesOn S.cfg ae ∧ ¬ g.log n <+: g.llog x.currentTerm)) := by
  have hn := h.self_mirror
  have htr := h.self_trust
  have htold := (h.mirrors.heard h.votes hmem).1
  have hreach := h.reached_append hmem hae
  rw [ht] at hreach
  obtain ⟨hl, hid, hcount, -, -, hslice⟩ := htold.appendEntries hae
  rw [ht] at hl hslice
  have hl' : g.leader x.currentTerm ≠ none := by
    rw [hl]
    exact Option.some_ne_none _
  have hacc : ∃ ℓ' g', Next S True n ℓ' g g' ∧ Mirrors S g' (c.set n (x.accepted S.cfg ae)) ∧ _ :=
    h.mirrors.accept htold hae ht hst hp
      (fun _ _ => htr.commit.take_eq h.sound hl' htr.base_le hn.ring.base_le)
  obtain ⟨ℓ', g', hnext, hm, hcase⟩ := hacc
  have hcommitted := h.accepted_committed hcase hl' hslice hcount hreach
  have hg := hnext.grows h.mirrors.coherent
  have hlog : g'.log n = ℓ' := by rw [hnext.log, Function.update_self]
  have hs := hnext.sound h.sound
  obtain ⟨evs, -, he⟩ := Server.accepted_eq S.cfg ae x
  have hend : (x.accepted S.cfg ae).log.lastIndex = ℓ'.length := by
    rw [hm.self.ring.lastIndex, hlog]
  have hlast : (x.log.appendAll S.cfg (ae.prevLogIndex + 1) ae.view).lastIndex = ℓ'.length := by
    rw [← hend, he]
  have hstate : (x.accepted S.cfg ae).state ≠ .leader := by
    rw [he]
    dsimp only
    rw [hst]
    exact fun hf => (by cases hf)
  have htrust : Trust S g' n (x.accepted S.cfg ae) :=
    htr.accepted hst hg (by rw [hlog]; exact hcommitted.grows hg (Nat.le_refl _))
  have hreply : ∀ m' ∈ (x.accepted S.cfg ae).sent, m' ∈ x.sent ∨
      m' = ⟨n, m.sender, .appendEntriesResp { term := x.currentTerm, success := true, lastLogIndex := ℓ'.length }⟩ := by
    intro m' hm'
    rcases accepted_sent hm' with hold | rfl
    · exact .inl hold
    · exact .inr (by rw [hlast, h.self_voter.self, hid])
  have hothers : ∀ a, a ≠ n → g'.log a = g.log a := fun a ha => by rw [hnext.log, Function.update_of_ne ha]
  by_cases hpre : ℓ' <+: g.llog x.currentTerm
  · -- The whole log is the leader's: the report is true.
    have hterm : g'.term n = x.currentTerm := by
      have := hm.self.term
      rw [he] at this
      exact this
    have hpre' : g'.log n <+: g'.llog (g'.term n) := by
      rw [hlog, hterm]
      exact hpre.trans (hg.llog _)
    have hk : ℓ'.length ≤ (g'.llog (g'.term n)).length := hlog ▸ hpre'.length_le
    have hpk : (g'.llog (g'.term n)).take ℓ'.length <+: g'.log n := by
      rw [← hlog, ← List.prefix_iff_eq_take.1 hpre']
    have hg' := acknowledged_grows hk hpk hm.coherent
    have hacked : ℓ'.length ≤ (acknowledged g' n ℓ'.length).acked n x.currentTerm := by
      have := @le_acked_acknowledged g' n ℓ'.length
      rwa [hterm] at this
    refine ⟨acknowledged g' n ℓ'.length, hg.trans hg', h.step hv (hm.acknowledge hk hpk) (hs.acknowledge hk hpk)
      (hg.trans hg') hothers (htrust.grows hg' (htrust.commit.grows hg' (Nat.le_refl _)))
      (fun hl => absurd hl hstate) (fun hl => absurd hl hstate) ?_, .inl (by rw [hend]; exact hacked)⟩
    intro m' hm'
    rcases hreply m' hm' with hold | rfl
    · exact .inl hold
    · exact .inr (fun _ => ⟨(hg.trans hg').leader _ _ hl, .inl hacked⟩)
  · obtain ⟨hkept, hgoes⟩ := h.stale_goesOn hcase h0 ht hp hl' hslice hcount hpre
    refine ⟨g', hg, h.step hv hm hs hg hothers htrust (fun hl => absurd hl hstate) (fun hl => absurd hl hstate) ?_,
      .inr ⟨hgoes, hkept ▸ hpre⟩⟩
    intro m' hm'
    rcases hreply m' hm' with hold | rfl
    · exact .inl hold
    · refine .inr (fun _ => ⟨hg.leader _ _ hl, .inr ?_⟩)
      intro hlead hterm
      by_cases hself : m.sender = n
      · rw [hself, Cluster.set_node_self] at hlead
        exact absurd hlead hstate
      · rw [Cluster.set_node_ne hself] at hlead hterm ⊢
        rw [← hid] at hself hlead hterm ⊢
        exact h.stale_harmless hcase hok h0 hae ht hp hl' hslice hcount hpre hself hlead hterm

/-- The commit index after a snapshot was installed covers nothing that leaders have not chosen. -/
theorem installed_committed {i : Nat} {ℓ' : List Entry} (h : Safe S g (c.set n x)) (hl : g.leader x.currentTerm ≠ none)
    (hreach : Reached S g x.currentTerm i) (hfrom : ℓ' = g.log n ∨ ℓ' = (g.llog x.currentTerm).take i)
    (htake : ℓ'.take i = (g.llog x.currentTerm).take i) :
    Committed S g x.currentTerm (max x.commitIndex i) ℓ' := by
  have hcommit := h.self_trust.commit
  rcases Nat.le_total i x.commitIndex with hle | hle
  · rw [Nat.max_eq_left hle]
    refine hcommit.reached.committed h.sound hl ?_
    rcases hfrom with rfl | rfl
    · exact hcommit.at_leader h.sound hl
    · exact (List.take_prefix _ _).trans (List.take_prefix _ _)
  · rw [Nat.max_eq_right hle]
    refine hreach.committed h.sound hl ?_
    rw [htake]
    exact List.take_prefix _ _

/-- **A finished `InstallSnapshot`**: its index is one that leaders have chosen. -/
theorem install {m : Message} {is : InstallSnapshot} (h : Safe S g (c.set n x))
    (hv : VoteInv S (c.set n (x.installed S.cfg io is).core)) (hmem : S.InFlight (c.set n x) m)
    (his : m.payload = .installSnapshot is) (ht : is.term = x.currentTerm) (hst : x.state = .follower)
    (hb : x.log.base ≤ is.lastIncludedIndex) :
    ∃ g', g.Grows g' ∧ Safe S g' (c.set n (x.installed S.cfg io is).core) := by
  have htr := h.self_trust
  have htold := (h.mirrors.heard h.votes hmem).1
  have hreach := h.reached_install hmem his
  rw [ht] at hreach
  have hl : g.leader x.currentTerm ≠ none := by
    rw [← ht, (htold.installSnapshot his).1]
    exact Option.some_ne_none _
  have hacc : ∃ ℓ' g', Next S True n ℓ' g g' ∧ Mirrors S g' (c.set n (x.installed S.cfg io is).core) ∧ _ :=
    h.mirrors.install io htold his ht hst (fun hz => by omega) (fun _ => hb)
  obtain ⟨ℓ', g', hnext, hm, hfrom, htake, -⟩ := hacc
  have hg := hnext.grows h.mirrors.coherent
  have hlog : g'.log n = ℓ' := by rw [hnext.log, Function.update_self]
  have hs := hnext.sound h.sound
  have hbase := Server.installLog_base S.cfg is x.log
  have hcommitted := h.installed_committed hl hreach hfrom htake
  have he := Server.installed_eq S.cfg io is x
  generalize x.installed S.cfg io is = z at he hv hm ⊢
  have hstate : z.core.state ≠ .leader := by
    rw [he]
    show x.state ≠ .leader
    rw [hst]
    exact fun hf => (by cases hf)
  obtain ⟨evs, hcalls, hload⟩ : ∃ evs : List Event, z.core.calls = evs ++ x.calls ∧
      ∀ e ∈ evs, e.silent = true ∧ ∀ i d, e ≠ .apply i d := by
    refine ⟨_, by rw [he], ?_⟩
    intro e hmem
    split at hmem
    · rw [List.mem_singleton.1 hmem]
      exact ⟨rfl, fun _ _ hf => (by cases hf)⟩
    · cases hmem
  have htrust : Trust S g' n z.core := by
    refine ⟨?_, ?_, ?_, fun hs => absurd hs hstate, fun hs => absurd hs hstate, ?_⟩
    · rw [he]
      have := htr.applied_le
      show max x.lastApplied _ ≤ max x.commitIndex _
      omega
    · rw [he]
      exact Nat.le_max_right _ _
    · rw [hlog, he]
      show Committed S g' x.currentTerm (max x.commitIndex (Server.installLog S.cfg is x.log).base) ℓ'
      rw [hbase]
      exact hcommitted.grows hg (Nat.le_refl _)
    · intro i e hmem
      rw [hcalls] at hmem
      rcases List.mem_append.1 hmem with hmem | hmem
      · exact absurd rfl ((hload _ hmem).2 i e)
      · exact htr.applied_grows hg i e hmem
  refine ⟨g', hg, h.step hv hm hs hg (fun a ha => by rw [hnext.log, Function.update_of_ne ha]) htrust
    (fun hl => absurd hl hstate) (fun hl => absurd hl hstate)
    (fun m' hm' => .inl (mem_sent_of_silent evs hcalls (fun e hmem => (hload e hmem).1) hm'))⟩

/-! ## Every move -/

/-- A move that leaves all indices alone, of a server that stays what it is. -/
theorem still {fit : Prop} (h : Safe S g (c.set n x)) (hv : VoteInv S (c.set n y))
    (hmv : Move S.cfg io fit heard start x y) (evs : List Event) (hc : y.calls = evs ++ x.calls)
    (hev : ∀ e ∈ evs, e.silent = true ∧ e.casts = false ∧ ∀ i d, e ≠ .apply i d) (hterm : y.currentTerm = x.currentTerm)
    (hlog : y.log = x.log) (hcommit : y.commitIndex = x.commitIndex) (happlied : y.lastApplied = x.lastApplied)
    (hst : y.state = x.state ∨ y.state = .follower)
    (hnodes : y.state = .leader → ∀ p ∈ y.nodes, p.isSelf = false →
      ∃ q ∈ x.nodes, q.isSelf = false ∧ p.id = q.id ∧ p.matchIndex = q.matchIndex) :
    ∃ g', g.Grows g' ∧ Safe S g' (c.set n y) := by
  refine ⟨g, .refl g, h.hold hv hmv evs hc (fun e he => ⟨(hev e he).1, (hev e he).2.1⟩) hterm
    (hlog ▸ h.self_mirror.ring) hst ?_ (Nat.le_of_eq hcommit.symm)⟩
  refine h.self_trust.frame (Nat.le_of_eq hterm.symm) hcommit happlied (by rw [hlog]) ?_ ?_
  · intro hl
    rcases hst with hst | hst
    · exact ⟨hst ▸ hl, hterm, hnodes hl⟩
    · rw [hst] at hl
      cases hl
  · intro i e he
    rw [hc] at he
    rcases List.mem_append.1 he with he | he
    · exact absurd rfl ((hev _ he).2.2 i e)
    · exact he

/-- **Every move keeps the cluster sound**, if the message being handled does no harm. -/
theorem move (hids : badNode ∉ S.ids) (hn : n ∈ S.ids) (h : Safe S g (c.set n x))
    (hheard : ∀ m, heard = some m → m.recipient = n ∧ S.InFlight (c.set n x) m)
    (hok : SafeOk S c (c.node n) heard) (hmv : Move S.cfg io True heard (c.node n) x y) :
    ∃ g', g.Grows g' ∧ Safe S g' (c.set n y) := by
  have hne : n ≠ badNode := fun he => hids (he ▸ hn)
  have hself := h.self_voter.self
  have hv : VoteInv S (c.set n y) := h.votes.move hheard hmv
  have htr := h.self_trust
  have hsame : ∀ p ∈ x.nodes, p.isSelf = false →
      ∃ q ∈ x.nodes, q.isSelf = false ∧ p.id = q.id ∧ p.matchIndex = q.matchIndex :=
    fun p hp hs => ⟨p, hp, hs, rfl, rfl⟩
  have hall := hmv
  cases hmv with
  | quiet evs hq =>
    refine h.still hv hall evs rfl ?_ rfl rfl rfl rfl (.inl rfl) (fun _ => hsame)
    intro e he
    have hq := hq e he
    refine ⟨Event.silent_of_plain (Event.plain_of_quiet hq), Event.casts_of_quiet hq, ?_⟩
    rintro i d rfl
    cases hq
  | aim nodes hk hna =>
    refine h.still hv hall [] rfl (by simp) rfl rfl rfl rfl (.inl rfl) ?_
    intro _ p hp hs
    obtain ⟨q, hq, hself, hid, hmatch⟩ := mem_aim hk hp
    exact ⟨q, hq, hself.trans hs, hid, hmatch⟩
  | adopt t ht =>
    obtain ⟨g', hnext, hm⟩ : ∃ g', Next S True n (g.log n) g g' ∧ Mirrors S g' _ := h.mirrors.adopt ht rfl
    refine ⟨g', h.stepped hv hnext hm [_] rfl (by simp [Event.silent]) ?_ (fun hl => (by cases hl)) (Nat.le_refl _)⟩
    exact htr.frame (Nat.le_of_lt ht) rfl rfl rfl (fun hl => (by cases hl)) (fun i e he => by simpa using he)
  | demote => exact h.still hv hall [] rfl (by simp) rfl rfl rfl rfl (.inr rfl) (fun _ => hsame)
  | campaign hs hf =>
    have hfit : wrap64 (x.currentTerm + 1) = x.currentTerm + 1 := Nat.mod_eq_of_lt (hf trivial)
    rw [hfit] at hv hall ⊢
    obtain ⟨g', hnext, hm⟩ : ∃ g', Next S True n (g.log n) g g' ∧ Mirrors S g' _ :=
      h.mirrors.campaign hself hne (Nat.lt_succ_self _) rfl
    refine ⟨g', h.stepped hv hnext hm [_] rfl (by simp [Event.silent]) ?_ (fun hl => (by cases hl)) (Nat.le_refl _)⟩
    exact htr.frame (Nat.le_succ _) rfl rfl rfl (fun hl => (by cases hl)) (fun i e he => by simpa using he)
  | tally m rr p hm hrr hpre hg ht hs hp hnv =>
    refine h.still hv hall [] rfl (by simp) rfl rfl rfl rfl (.inl rfl) ?_
    intro hl
    have hl : x.state = .leader := hl
    rw [hs] at hl
    cases hl
  | promote hs hm _ =>
    -- A new leader counts nobody but itself.
    obtain ⟨hx, -⟩ | ⟨-, -, hmatch⟩ := hall.leading h.self_voter.isSelf_of_self rfl
    · exact absurd (hs.symm.trans hx) (by decide)
    · exact h.promote hne hv hs rfl hmatch
  | propose e log hs ht hi hp => exact h.propose hv hs ht hi hp rfl
  | vote m rv hm hrv hpre ht hvf hu =>
    obtain ⟨htold, hsender⟩ := h.mirrors.heard h.votes (hheard m hm).2
    obtain ⟨g', hnext, hm⟩ : ∃ g', Next S True n (g.log n) g g' ∧ Mirrors S g' _ :=
      h.mirrors.vote h.votes htold (fun he => hids (he ▸ hsender)) hrv hpre ht hvf hu rfl
    refine ⟨g', h.stepped hv hnext hm [_] rfl (by simp [Event.silent]) ?_ (fun hl => .inl ⟨hl, rfl⟩) (Nat.le_refl _)⟩
    exact htr.frame (Nat.le_refl _) rfl rfl rfl (fun hl => ⟨hl, rfl, hsame⟩) (fun i e he => by simpa using he)
  | emit m hsend => exact h.emit hv hsend hall
  | accept m ae hm hae ht hs hp h0 =>
    rw [hm] at hok
    obtain ⟨g', hg, hsafe, -⟩ := h.accept hv (hheard m hm).2 hok h0 hae ht hs hp
    exact ⟨g', hg, hsafe⟩
  | chunk m is hm his ht hs hd h0 =>
    have he := Server.chunk_eq S.cfg is x
    refine h.still hv hall [] (by rw [he]; rfl) (by simp) (by rw [he]; rfl) (by rw [he]; rfl) (by rw [he]; rfl)
      (by rw [he]; rfl) (.inl (by rw [he]; rfl)) ?_
    intro hl
    rw [he] at hl
    have hl : x.state = .leader := hl
    rw [hs] at hl
    cases hl
  | install m is hm his ht hs hd h0 =>
    have hb : x.log.base ≤ is.lastIncludedIndex := by
      rw [hm] at hok
      obtain ⟨src, dst, pl⟩ := m
      cases his
      rw [h0.log]
      exact hok (ht ▸ h0.term) hd
    exact h.install hv (hheard m hm).2 his ht hs hb
  | learn sender l hs hr => exact ⟨g, .refl g, h.learn hv hs hall hheard hr rfl⟩
  | advance next hs hnx =>
    obtain ⟨g', hg, hsafe, -⟩ := h.advance hv hs hall hnx rfl
    exact ⟨g', hg, hsafe⟩
  | apply hlt => exact ⟨g, .refl g, h.apply hv hlt hall⟩
  | compact bytes t hio hb ht => exact ⟨g, .refl g, h.compact hv hb ht hall rfl⟩

theorem core_iff : Safe S g (c.set n x) ↔ Safe S g (c.set n x.core) := by
  constructor
  · intro h
    refine h.step (VoteInv.core_iff.1 h.votes) (Mirrors.core_iff.1 h.mirrors) h.sound (.refl g) (fun _ _ => rfl) ?_
      (fun hl => .inl ⟨hl, rfl⟩) (fun _ => Nat.le_refl _) (fun m hm => .inl hm)
    refine h.self_trust.frame (Nat.le_refl _) rfl rfl rfl (fun hl => ⟨hl, rfl, ?_⟩) (fun i e he => he)
    intro p hp hs
    obtain ⟨q, hq, rfl⟩ := List.mem_map.1 hp
    exact ⟨q, hq, hs, rfl, rfl⟩
  · intro h
    refine h.step (VoteInv.core_iff.2 h.votes) (Mirrors.core_iff.2 h.mirrors) h.sound (.refl g) (fun _ _ => rfl) ?_
      (fun hl => .inl ⟨hl, rfl⟩) (fun _ => Nat.le_refl _) (fun m hm => .inl hm)
    refine h.self_trust.frame (Nat.le_refl _) rfl rfl rfl (fun hl => ⟨hl, rfl, ?_⟩) (fun i e he => he)
    intro p hp hs
    exact ⟨p.key, List.mem_map_of_mem hp, hs, rfl, rfl⟩

/-- **A node that goes down with an empty log** loses nothing, whatever its last callbacks have reported. -/
theorem rebuilt (h : Safe S g (c.set n x)) (hlog : x.log.lastIndex = 0) (evs : List Event)
    (hev : ∀ e ∈ evs, e.plain = true ∧ ∀ i d, e ≠ .apply i d) : Safe S g (c.set n (S.rebuild n (evs ++ x.calls))) := by
  have hplain : ∀ e ∈ evs, e.plain = true := fun e he => (hev e he).1
  have hsilent : ∀ e ∈ evs, e.silent = true := fun e he => Event.silent_of_plain (hplain e he)
  have hcalls : (S.rebuild n (evs ++ x.calls)).calls = evs ++ x.calls := rfl
  have hself := h.self_voter
  have hv : VoteInv S (c.set n (S.rebuild n (evs ++ x.calls))) := by
    rw [← Cluster.set_set c n x]
    have hrecord : evs ++ x.calls = evs ++ ((c.set n x).node n).calls := by rw [Cluster.set_node_self]
    refine h.votes.rebuild hrecord (disciplined_append_plain hplain hself.synced.disciplined) ?_
    intro t v m hm
    exact hself.sends t v m (send_of_silent hcalls hsilent hm)
  have hnil : g.log n = [] := by
    rw [h.self_mirror.ring.lastIndex] at hlog
    exact List.eq_nil_of_length_eq_zero hlog
  obtain ⟨h1, h2, h3⟩ := rebuild_log S n (evs ++ x.calls)
  have hst : (S.rebuild n (evs ++ x.calls)).state = .follower ∧
      (S.rebuild n (evs ++ x.calls)).currentTerm = x.currentTerm := by
    have hterm : (lastPersisted (S.boot n) (evs ++ x.calls)).1 = x.currentTerm := by
      rw [lastPersisted_append_plain hplain, hself.synced.last]
    unfold Setup.rebuild Server.new
    split <;> exact ⟨rfl, hterm⟩
  have hnot : (S.rebuild n (evs ++ x.calls)).state ≠ .leader := by
    rw [hst.1]
    exact fun hf => (by cases hf)
  have hsent : ∀ m ∈ (S.rebuild n (evs ++ x.calls)).sent, m ∈ x.sent := fun m hm => mem_sent_of_silent evs hcalls hsilent hm
  have hm : Mirrors S g (c.set n (S.rebuild n (evs ++ x.calls))) := by
    refine h.mirrors.stay (h.self_mirror.still hst.2 ?_ (.inr hst.1) (fun m hm => .inl (hsent m hm))) ?_
    · rw [h1, hnil]
      exact LogRing.holds_nil S.cfg
    · intro v t a
      rw [granted_of_casts evs hcalls (fun e he => Event.casts_of_plain (hplain e he))]
  refine h.step hv hm h.sound (.refl g) (fun _ _ => rfl) ?_ (fun hl => absurd hl hnot) (fun hl => absurd hl hnot)
    (fun m hm => .inl (hsent m hm))
  refine ⟨?_, ?_, ?_, fun hl => absurd hl hnot, fun hl => absurd hl hnot, ?_⟩
  · rw [h2, h3]
  · rw [h1, h2]
  · rw [h2]
    exact .inl rfl
  · intro i e he
    rcases List.mem_append.1 he with he | he
    · exact absurd rfl ((hev _ he).2 i e)
    · exact h.self_trust.applied i e he

/-- **A restart with an empty log** loses nothing. -/
theorem restart (h : Safe S g c) (hlog : (c.node n).log.lastIndex = 0) :
    Safe S g (c.set n (S.rebuild n (c.node n).calls)) := by
  rw [← Cluster.set_self c n] at h
  exact h.rebuilt hlog [] (fun e he => by cases he)

theorem init (hfresh : S.Fresh) : Safe S S.blank S.init := by
  refine ⟨voteInv_init S, .init hfresh, S.sound_blank hfresh, ?_, ?_⟩
  · intro a
    obtain ⟨h1, h2, h3⟩ := rebuild_log S a []
    have hnot : (S.rebuild a []).state ≠ .leader := by
      unfold Setup.rebuild Server.new
      split <;> exact fun hf => (by cases hf)
    refine ⟨?_, ?_, ?_, fun hl => absurd hl hnot, fun hl => absurd hl hnot, fun i e he => (by cases he)⟩
    · show (S.rebuild a []).lastApplied ≤ (S.rebuild a []).commitIndex
      rw [h2, h3]
    · show (S.rebuild a []).log.base ≤ (S.rebuild a []).commitIndex
      rw [h1, h2]
    · exact .inl h2
  · intro a m hm
    obtain ⟨t, v, hev⟩ := mem_sent.1 hm
    cases hev

end Safe

/-- A node goes down only while its log is empty, no election is started at the last term, and every message that is
accepted does no harm. -/
def Setup.SafeSteps (S : Setup) (c : Cluster) : Action → Prop
  | .call n io k => ((c.node n).electing io k = true → (c.node n).currentTerm + 1 < 2 ^ 64) ∧
      SafeOk S c (c.node n) k.heard
  | .restart n => (c.node n).log.lastIndex = 0
  | .crash _ _ _ _ => False

/-- **Every step keeps the cluster sound**, and the history only grows. -/
theorem safe_exec {S : Setup} (hids : badNode ∉ S.ids) {g₀ : Replog Nat Entry} {c : Cluster} {act : Action}
    (h : ∃ g, g₀.Grows g ∧ Safe S g c) (hen : S.sys.enabled c act) (hok : S.SafeSteps c act) :
    ∃ g, g₀.Grows g ∧ Safe S g (S.sys.exec c act) := by
  cases act with
  | call n io k =>
    obtain ⟨hfit, hsafe⟩ := hok
    refine Setup.call_invariant (P := fun c => ∃ g, g₀.Grows g ∧ Safe S g c) True h hen (fun _ => hfit) ?_ ?_
    · intro x
      exact exists_congr (fun g => and_congr_right (fun _ => Safe.core_iff))
    · rintro x y ⟨g, hg, hx⟩ - hheard hmv
      obtain ⟨g', hg', hy⟩ := hx.move hids hen.1 hheard hsafe hmv
      exact ⟨g', hg.trans hg', hy⟩
  | restart n =>
    obtain ⟨g, hg, hc⟩ := h
    exact ⟨g, hg, hc.restart hok⟩
  | crash n io k made => exact hok.elim

theorem safe_reaches {S : Setup} (hids : badNode ∉ S.ids) {g : Replog Nat Entry} {c c' : Cluster} (h : Safe S g c)
    (hr : S.sys.Reaches S.SafeSteps c c') : ∃ g', g.Grows g' ∧ Safe S g' c' :=
  hr.invariant (P := fun c => ∃ g', g.Grows g' ∧ Safe S g' c) ⟨g, .refl g, h⟩
    (fun _ _ hx hen hok => safe_exec hids hx hen hok)

theorem safe_reachable {S : Setup} (hids : badNode ∉ S.ids) (hfresh : S.Fresh) {c : Cluster}
    (hr : S.sys.Reachable S.SafeSteps c) : ∃ g, Safe S g c := by
  obtain ⟨g, -, h⟩ := safe_reaches hids (.init hfresh) hr
  exact ⟨g, h⟩

/-- **State machine safety**: in every run whose accepted messages do no harm, two servers that apply an entry at one
index apply the same. -/
theorem state_machine_safety (S : Setup) (hids : badNode ∉ S.ids) (hfresh : S.Fresh) (c : Cluster)
    (h : S.sys.Reachable S.SafeSteps c) (a b i : Nat) (ea eb : Entry) (ha : .apply i ea ∈ (c.node a).calls)
    (hb : .apply i eb ∈ (c.node b).calls) : ea.term = eb.term ∧ ea.type = eb.type ∧ ea.payload = eb.payload := by
  obtain ⟨g, hg⟩ := safe_reachable hids hfresh h
  obtain ⟨t, k, hc, hpos, hk, he⟩ := (hg.trust a).applied i ea ha
  obtain ⟨t', k', hc', -, hk', he'⟩ := (hg.trust b).applied i eb hb
  rw [hg.sound.chosen_agree hc hc' (by omega) (by omega), he'] at he
  injection he with he
  rw [he]
  exact ⟨rfl, rfl, rfl⟩

instance (cfg : Config) (s : Server) (ae : AppendEntries) : Decidable (s.GoesOn cfg ae) :=
  inferInstanceAs (Decidable (s.currentTerm ≤ ae.term ∧ s.prevMismatch cfg ae = none ∧
    ¬ s.log.Conflicts cfg (ae.prevLogIndex + 1) ae.view ∧ ae.prevLogIndex + ae.nEntries < s.log.lastIndex))

instance (S : Setup) (c : Cluster) (s : Server) : ∀ heard : Option Message, Decidable (SafeOk S c s heard)
  | some ⟨_, _, .appendEntries ae⟩ => inferInstanceAs (Decidable (s.GoesOn S.cfg ae → (c.node ae.leaderId).state = .leader →
      (c.node ae.leaderId).currentTerm = ae.term → s.log.lastIndex ≤ (c.node ae.leaderId).commitIndex ∨
        (s.log.lastIndex ≤ (c.node ae.leaderId).log.lastIndex ∧
          (c.node ae.leaderId).log.termAt S.cfg s.log.lastIndex = s.log.termAt S.cfg s.log.lastIndex)))
  | some ⟨_, _, .installSnapshot is⟩ => inferInstanceAs (Decidable (s.currentTerm ≤ is.term → is.done = true →
      s.log.base ≤ is.lastIncludedIndex))
  | some ⟨_, _, .requestVote _⟩ => inferInstanceAs (Decidable True)
  | some ⟨_, _, .requestVoteResp _⟩ => inferInstanceAs (Decidable True)
  | some ⟨_, _, .appendEntriesResp _⟩ => inferInstanceAs (Decidable True)
  | some ⟨_, _, .installSnapshotResp _⟩ => inferInstanceAs (Decidable True)
  | none => inferInstanceAs (Decidable True)

instance (S : Setup) (c : Cluster) : ∀ act : Action, Decidable (S.SafeSteps c act)
  | .call n io k => inferInstanceAs (Decidable (((c.node n).electing io k = true → (c.node n).currentTerm + 1 < 2 ^ 64) ∧
      SafeOk S c (c.node n) k.heard))
  | .restart n => inferInstanceAs (Decidable ((c.node n).log.lastIndex = 0))
  | .crash _ _ _ _ => inferInstanceAs (Decidable False)

/-- Node 1 is elected by node 2, replicates its no-op to it and tells it that it is committed. -/
def firstCommit : List Turn :=
  startAll ++ elect 1 2 5000 ++
  [.periodic 1 6000, .deliver 1 2 0 6000, .deliver 2 1 0 6000, .periodic 1 7000, .deliver 1 2 0 7000]

theorem state_machine_safety_firstCommit :
    let c := trio.play trio.SafeSteps .at firstCommit trio.init
    .apply 1 { term := 1, index := 1 } ∈ (c.node 1).calls ∧ .apply 1 { term := 1, index := 1 } ∈ (c.node 2).calls ∧
      ∀ e, .apply 1 e ∈ (c.node 2).calls → e.term = 1 := by
  intro c
  have hc : trio.sys.Reachable trio.SafeSteps c := Setup.reachable_play _ _ _
  have h1 : .apply 1 { term := 1, index := 1 } ∈ (c.node 1).calls := by decide +kernel
  refine ⟨h1, by decide +kernel, ?_⟩
  intro e he
  exact (state_machine_safety trio (by decide) (fun _ => .inl rfl) c hc 2 1 1 e { term := 1, index := 1 } he h1).1

/-- Node 1 replicates indices 1 to 8 in term 1.  Node 2 leads term 2 and keeps its no-op, index 9, to itself.  Node 1
leads term 3 with an index 9 of its own; old rejections make it start over at index 1, so node 2 accepts a slice that
ends below index 9 and reports its own index 9 as matched. -/
def staleTail : List Turn :=
  startAll ++ elect 1 2 5000 ++ List.replicate 7 (.submit 1 5001) ++ [.deliver 1 2 0 5002, .deliver 1 3 0 5002] ++
  elect 2 3 20000 ++ [.deliver 2 1 0 20000] ++
  elect 1 3 60000 ++ [.deliver 1 2 0 60000] ++
  (List.range 8).flatMap (fun k => [.deliver 1 2 (3 + k) 60001, .deliver 2 1 0 60001]) ++
  [.deliver 1 2 0 60002, .deliver 2 1 0 60002] ++
  elect 2 3 80000 ++
  [.periodic 2 81000, .deliver 2 3 0 81000, .deliver 3 2 0 81000, .deliver 2 3 0 81000, .deliver 3 2 0 81000]

/-- **Node 1 applies the no-op of term 3 at index 9 and node 2 that of term 2.** -/
theorem state_machine_safety_fails_on_stale_tail :
    let c := trio.play NoRestart .at staleTail trio.init
    trio.sys.Reachable NoRestart c ∧ .apply 9 { term := 3, index := 9 } ∈ (c.node 1).calls ∧
      .apply 9 { term := 2, index := 9 } ∈ (c.node 2).calls :=
  ⟨Setup.reachable_play _ _ _, by decide +kernel⟩

end Raft
end FloodEws
