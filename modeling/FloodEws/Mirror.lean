import FloodEws.Chosen
import FloodEws.Elect
import FloodEws.Slices
/-!
# Mirror — the cluster as a replicated log

The servers' rings, votes and messages, seen as one `Replog`: behind each ring stands the whole log it is the live
suffix of, a message of a leader is a slice of that leader's log, and a request for a vote describes the log its sender
runs with.
-/
namespace FloodEws
namespace Raft

/-! ## The relation -/

/-- **What a message says about the history**: a leader's message is a slice of its log, a request for a vote describes
the log its sender runs with. -/
def Says (g : Replog Nat Entry) (m : Message) : Prop :=
  match m.payload with
  | .requestVote rv => rv.preVote = false → rv.candidateId = m.sender ∧ rv.term ≤ g.term m.sender ∧
      rv.lastLogIndex = (g.cand rv.term m.sender).length ∧ rv.lastLogTerm = lastTermOf (g.cand rv.term m.sender)
  | .appendEntries ae => g.leader ae.term = some m.sender ∧ ae.leaderId = m.sender ∧
      ae.nEntries = ae.entries.length ∧ ae.prevLogIndex ≤ (g.llog ae.term).length ∧
      ae.prevLogTerm = termOf (g.llog ae.term) ae.prevLogIndex ∧
      ae.entries <+: (g.llog ae.term).drop ae.prevLogIndex
  | .installSnapshot is => g.leader is.term = some m.sender ∧ is.leaderId = m.sender ∧
      is.lastIncludedIndex ≤ (g.llog is.term).length ∧
      is.lastIncludedTerm = termOf (g.llog is.term) is.lastIncludedIndex
  | _ => True

theorem Says.appendEntries {g : Replog Nat Entry} {m : Message} {ae : AppendEntries} (h : Says g m)
    (hae : m.payload = .appendEntries ae) : g.leader ae.term = some m.sender ∧ ae.leaderId = m.sender ∧
      ae.nEntries = ae.entries.length ∧ ae.prevLogIndex ≤ (g.llog ae.term).length ∧
      ae.prevLogTerm = termOf (g.llog ae.term) ae.prevLogIndex ∧
      ae.entries <+: (g.llog ae.term).drop ae.prevLogIndex := by
  unfold Says at h
  rwa [hae] at h

theorem Says.installSnapshot {g : Replog Nat Entry} {m : Message} {is : InstallSnapshot} (h : Says g m)
    (his : m.payload = .installSnapshot is) : g.leader is.term = some m.sender ∧ is.leaderId = m.sender ∧
      is.lastIncludedIndex ≤ (g.llog is.term).length ∧
      is.lastIncludedTerm = termOf (g.llog is.term) is.lastIncludedIndex := by
  unfold Says at h
  rwa [his] at h

theorem Says.grows {g g' : Replog Nat Entry} {m : Message} (h : Says g m) (hg : g.Grows g') : Says g' m := by
  unfold Says at h ⊢
  split
  · rename_i rv hrv
    rw [hrv] at h
    intro hpre
    obtain ⟨h1, h2, h3, h4⟩ := h hpre
    rw [hg.cand _ _ h2]
    exact ⟨h1, Nat.le_trans h2 (hg.term _), h3, h4⟩
  · rename_i ae hae
    rw [hae] at h
    obtain ⟨h1, h2, h3, h4, h5, h6⟩ := h
    have hp := hg.llog ae.term
    refine ⟨hg.leader _ _ h1, h2, h3, Nat.le_trans h4 hp.length_le, ?_, ?_⟩
    · rw [termOf_isPrefix hp h4]
      exact h5
    · obtain ⟨ext, hext⟩ := hp
      rw [← hext, List.drop_append_of_le_length h4]
      exact h6.trans (List.prefix_append _ _)
  · rename_i is his
    rw [his] at h
    obtain ⟨h1, h2, h3, h4⟩ := h
    have hp := hg.llog is.term
    refine ⟨hg.leader _ _ h1, h2, Nat.le_trans h3 hp.length_le, ?_⟩
    rw [termOf_isPrefix hp h3]
    exact h4
  · trivial

/-- **A server is one node of the replicated log.** -/
structure Mirror (cfg : Config) (g : Replog Nat Entry) (a : Nat) (s : Server) : Prop where
  term : g.term a = s.currentTerm
  ring : s.log.Holds cfg (g.log a)
  indexed : Indexed 0 (g.log a)
  leads : s.state = .leader → g.leader s.currentTerm = some a ∧ g.log a = g.llog s.currentTerm
  runs : s.state = .candidate → g.cand s.currentTerm a = g.log a ∧ g.leader s.currentTerm ≠ some a
  sent : ∀ m ∈ s.sent, Says g m

namespace Mirror

variable {cfg : Config} {g g' : Replog Nat Entry} {a : Nat} {s s' : Server}

theorem core_iff : Mirror cfg g a s.core ↔ Mirror cfg g a s :=
  ⟨fun h => ⟨h.term, h.ring, h.indexed, h.leads, h.runs, h.sent⟩,
   fun h => ⟨h.term, h.ring, h.indexed, h.leads, h.runs, h.sent⟩⟩

/-- The history grows and this node's part of it stays. -/
theorem grows (h : Mirror cfg g a s) (hg : g.Grows g') (hterm : g'.term a = g.term a) (hlog : g'.log a = g.log a)
    (hlead : ∀ t, g'.leader t = some a → g.leader t = some a)
    (hllog : ∀ t, g.leader t = some a → g'.llog t = g.llog t) : Mirror cfg g' a s := by
  refine ⟨hterm.trans h.term, hlog ▸ h.ring, hlog ▸ h.indexed, ?_, ?_, fun m hm => (h.sent m hm).grows hg⟩
  · intro hs
    obtain ⟨h1, h2⟩ := h.leads hs
    exact ⟨hg.leader _ _ h1, by rw [hlog, hllog _ h1, h2]⟩
  · intro hs
    obtain ⟨h1, h2⟩ := h.runs hs
    refine ⟨?_, fun hl => h2 (hlead _ hl)⟩
    rw [hg.cand _ _ (Nat.le_of_eq h.term.symm), hlog, h1]

/-- A move that leaves term, log and role alone, or only gives up the role, and says nothing wrong. -/
theorem still (h : Mirror cfg g a s) (hterm : s'.currentTerm = s.currentTerm)
    (hring : s'.log.Holds cfg (g.log a)) (hst : s'.state = s.state ∨ s'.state = .follower)
    (hsent : ∀ m ∈ s'.sent, m ∈ s.sent ∨ Says g m) : Mirror cfg g a s' := by
  refine ⟨h.term.trans hterm.symm, hring, h.indexed, ?_, ?_, ?_⟩
  · intro hs
    rcases hst with hst | hst
    · rw [hterm]
      exact h.leads (hst ▸ hs)
    · rw [hst] at hs
      cases hs
  · intro hs
    rcases hst with hst | hst
    · rw [hterm]
      exact h.runs (hst ▸ hs)
    · rw [hst] at hs
      cases hs
  · intro m hm
    rcases hsent m hm with hm | hm
    · exact h.sent m hm
    · exact hm

end Mirror

/-- **The cluster is a replicated log.** -/
structure Mirrors (S : Setup) (g : Replog Nat Entry) (c : Cluster) : Prop where
  coherent : g.Coherent Entry.term S.ids.toFinset
  indexed : ∀ t, Indexed 0 (g.llog t)
  node : ∀ a, Mirror S.cfg g a (c.node a)
  votes : ∀ v t a, g.voted v t a ↔ S.Granted c v t a ∧ a ≠ badNode

/-- No node has a vote of a term above 0 on its storage before the run: `RaftPersistence::load` answers `{0, 0}` there, and
a server that is not restored at all has no vote. -/
def Setup.Fresh (S : Setup) : Prop := ∀ n, (S.boot n).1 = 0 ∨ (S.boot n).2 = badNode

/-- The history then: nothing but the votes on storage. -/
def Setup.blank (S : Setup) : Replog Nat Entry :=
  { Replog.blank (fun n => (S.boot n).1) with voted := fun v t a => (t, a) = S.boot v ∧ a ≠ badNode }

theorem Setup.sound_blank {S : Setup} (hfresh : S.Fresh) : S.blank.Sound Entry.term S.ids.toFinset := by
  refine .blank_voted _ _ ?_ (fun v t a b h h' => congrArg Prod.snd (h.1.trans h'.1.symm))
  rintro v t a ⟨hboot, ha⟩
  have hterm : (S.boot v).1 = t := (congrArg Prod.fst hboot).symm
  rcases hfresh v with hzero | hbad
  · obtain rfl : t = 0 := hterm.symm.trans hzero
    exact ⟨Nat.zero_le _, Nat.zero_le _⟩
  · exact absurd ((congrArg Prod.snd hboot).trans hbad) ha

/-- What a step of the replicated log leaves of all nodes but one. -/
structure Aside (n : Nat) (g g' : Replog Nat Entry) : Prop where
  term : ∀ a, a ≠ n → g'.term a = g.term a
  log : ∀ a, a ≠ n → g'.log a = g.log a
  leader : ∀ a t, a ≠ n → g'.leader t = some a → g.leader t = some a
  llog : ∀ a t, a ≠ n → g.leader t = some a → g'.llog t = g.llog t

namespace Mirrors

variable {S : Setup} {g g' : Replog Nat Entry} {c : Cluster} {n : Nat} {x y : Server} {careful : Prop}

/-- **The frame rule**: one node moves, with a step of the replicated log. -/
theorem step (h : Mirrors S g (c.set n x)) (hstep : g.Step Entry.term S.ids.toFinset careful g')
    (haside : Aside n g g') (hidx : ∀ t, Indexed 0 (g'.llog t)) (hnode : Mirror S.cfg g' n y)
    (hvotes : ∀ v t a, g'.voted v t a ↔ S.Granted (c.set n y) v t a ∧ a ≠ badNode) : Mirrors S g' (c.set n y) := by
  refine ⟨h.coherent.step hstep, hidx, ?_, hvotes⟩
  intro a
  by_cases ha : a = n
  · subst ha
    rw [Cluster.set_node_self]
    exact hnode
  · have hold := h.node a
    rw [Cluster.set_node_ne ha] at hold ⊢
    exact hold.grows (hstep.grows h.coherent) (haside.term a ha) (haside.log a ha) (fun t => haside.leader a t ha)
      (fun t => haside.llog a t ha)

theorem stay (h : Mirrors S g (c.set n x)) (hnode : Mirror S.cfg g n y)
    (hvotes : ∀ v t a, S.Granted (c.set n y) v t a ∧ a ≠ badNode ↔ S.Granted (c.set n x) v t a ∧ a ≠ badNode) :
    Mirrors S g (c.set n y) := by
  refine ⟨h.coherent, h.indexed, ?_, fun v t a => (h.votes v t a).trans (hvotes v t a).symm⟩
  intro a
  by_cases ha : a = n
  · subst ha
    rw [Cluster.set_node_self]
    exact hnode
  · have hold := h.node a
    rw [Cluster.set_node_ne ha] at hold ⊢
    exact hold

end Mirrors

/-! ## Messages and votes of one move -/

/-- The event persists a vote. -/
def Event.casts : Event → Bool
  | .persistState _ _ => true
  | _ => false

theorem persisted_of_casts {boot : Nat × Nat} {es : List Event} : ∀ (evs : List Event), (∀ e ∈ evs, e.casts = false) →
    persisted boot (evs ++ es) = persisted boot es
  | [], _ => rfl
  | e :: evs, h => by
    have hrest : ∀ x ∈ evs, x.casts = false := fun x hx => h x (List.mem_cons_of_mem e hx)
    cases e with
    | persistState t v => cases h _ List.mem_cons_self
    | _ => exact persisted_of_casts evs hrest

theorem Event.casts_of_plain {e : Event} (h : e.plain = true) : e.casts = false := by
  cases e <;> first | rfl | cases h

theorem Event.casts_of_quiet {e : Event} (h : e.quiet = true) : e.casts = false := Event.casts_of_plain (Event.plain_of_quiet h)

theorem granted_of_casts {S : Setup} {c : Cluster} {n : Nat} {x y : Server} (evs : List Event)
    (hc : y.calls = evs ++ x.calls) (h : ∀ e ∈ evs, e.casts = false) (v t a : Nat) :
    S.Granted (c.set n y) v t a ↔ S.Granted (c.set n x) v t a := by
  unfold Setup.Granted
  by_cases hv : v = n
  · subst hv
    rw [Cluster.set_node_self, Cluster.set_node_self, hc, persisted_of_casts evs h]
  · rw [Cluster.set_node_ne hv, Cluster.set_node_ne hv]

theorem granted_of_persist {S : Setup} {c : Cluster} {n : Nat} {x y : Server} {t b : Nat}
    (hc : y.calls = .persistState t b :: x.calls) (v t' a : Nat) :
    S.Granted (c.set n y) v t' a ↔ S.Granted (c.set n x) v t' a ∨ (v = n ∧ t' = t ∧ a = b) := by
  unfold Setup.Granted
  by_cases hv : v = n
  · subst hv
    rw [Cluster.set_node_self, Cluster.set_node_self, hc, persisted, List.mem_cons, Prod.mk.injEq, or_comm]
    simp
  · rw [Cluster.set_node_ne hv, Cluster.set_node_ne hv]
    simp [hv]

theorem mem_sent_of_silent {s s' : Server} (evs : List Event) (hc : s'.calls = evs ++ s.calls)
    (hs : ∀ e ∈ evs, e.silent = true) {m : Message} (hm : m ∈ s'.sent) : m ∈ s.sent := by
  obtain ⟨t, v, hev⟩ := mem_sent.1 hm
  exact mem_sent.2 ⟨t, v, send_of_silent hc hs hev⟩

open Server in
/-- **What a move sends**: nothing, one message that the server can send, or the reply to an accepted
`AppendEntries`. -/
theorem Move.sends {cfg : Config} {io : Io} {fit : Prop} {heard : Option Message} {start x y : Server}
    (hmv : Move cfg io fit heard start x y) {m : Message} (hm : m ∈ y.sent) :
    m ∈ x.sent ∨ CanSend cfg x m ∨
      (∃ m₀ ae, heard = some m₀ ∧ m₀.payload = .appendEntries ae ∧ ae.term = x.currentTerm ∧
        (x.state = .follower ∧ x.prevMismatch cfg ae = none ∧ Untouched start x) ∧ y = x.accepted cfg ae ∧
        m = ⟨x.selfId, ae.leaderId, .appendEntriesResp
          { term := x.currentTerm, success := true, lastLogIndex := y.log.lastIndex }⟩) := by
  have hold : ∀ evs : List Event, y.calls = evs ++ x.calls → (∀ e ∈ evs, e.silent = true) → m ∈ x.sent :=
    fun evs hc hs => mem_sent_of_silent evs hc hs hm
  have hone : ∀ e : Event, e.silent = true → ∀ e' ∈ [e], e'.silent = true := by
    intro e he e' he'
    rw [List.mem_singleton.1 he']
    exact he
  have hnil : ∀ e ∈ ([] : List Event), e.silent = true := by simp
  cases hmv with
  | quiet evs hq => exact .inl (hold evs rfl (fun e he => Event.silent_of_plain (Event.plain_of_quiet (hq e he))))
  | aim nodes hk hn => exact .inl (hold [] rfl hnil)
  | adopt t ht => exact .inl (hold [_] rfl (hone _ rfl))
  | demote => exact .inl (hold [] rfl hnil)
  | campaign hs hf => exact .inl (hold [_] rfl (hone _ rfl))
  | tally m rr p hm hrr hpre hg ht hs hp hn => exact .inl (hold [] rfl hnil)
  | promote hs hm _ => exact .inl (hold [] rfl hnil)
  | propose e log hs ht hi hp => exact .inl (hold [_] rfl (hone _ rfl))
  | vote m rv hm hrv hpre ht hv hu => exact .inl (hold [_] rfl (hone _ rfl))
  | emit m' hsend =>
    obtain ⟨t, v, hev⟩ := mem_sent.1 hm
    rcases send_of_send [] rfl hnil hev with ⟨-, -, rfl⟩ | hev
    · exact .inr (.inl hsend)
    · exact .inl (mem_sent.2 ⟨t, v, hev⟩)
  | accept m₀ ae hm₀ hae ht hs hp h0 =>
    obtain ⟨evs, hq, he⟩ := accepted_eq cfg ae x
    obtain ⟨t, v, hev⟩ := mem_sent.1 hm
    rw [he] at hev
    rcases send_of_send evs rfl (fun e he => Event.silent_of_plain (Event.plain_of_quiet (hq e he))) hev with
      ⟨-, -, rfl⟩ | hev
    · refine .inr (.inr ⟨m₀, ae, hm₀, hae, ht, ⟨hs, hp, h0⟩, rfl, ?_⟩)
      rw [he]
    · exact .inl (mem_sent.2 ⟨t, v, hev⟩)
  | chunk m is hm his ht hs hd h0 =>
    rw [chunk_eq] at hold
    exact .inl (hold [] rfl hnil)
  | install m is hm his ht hs hd h0 =>
    rw [installed_eq] at hold
    refine .inl (hold _ rfl ?_)
    split
    · exact hone _ rfl
    · exact hnil
  | learn sender l hs hr => exact .inl (hold [] rfl hnil)
  | advance next hs hn => exact .inl (hold [] rfl hnil)
  | apply hlt =>
    rw [applyNext_eq] at hold
    refine .inl (hold _ rfl ?_)
    cases x.log.at? cfg (x.lastApplied + 1) with
    | none => exact hnil
    | some e => exact hone _ rfl
  | compact bytes t hio hb ht => exact .inl (hold [_, _] rfl (by simp [Event.silent]))

/-- **A server only says what is so.** -/
theorem Mirror.tells {cfg : Config} {g : Replog Nat Entry} {a : Nat} {s : Server} (h : Mirror cfg g a s)
    (hself : s.selfId = a) {m : Message} (hcan : s.CanSend cfg m) : Says g m := by
  obtain ⟨hsender, hcan⟩ := hcan
  rw [hself] at hsender
  unfold Says
  cases hpl : m.payload with
  | requestVote rv =>
    rw [hpl] at hcan
    rcases hcan with ⟨hpre, -⟩ | ⟨hst, -, hrv⟩
    · intro hno
      rw [hpre] at hno
      cases hno
    · intro _
      rw [hrv, hsender, hself]
      have hcand := (h.runs hst).1
      refine ⟨rfl, Nat.le_of_eq h.term.symm, ?_, ?_⟩
      · rw [hcand]
        exact h.ring.lastIndex
      · rw [hcand]
        exact h.ring.lastTerm_eq
  | appendEntries ae =>
    rw [hpl] at hcan
    obtain ⟨hst, -, hb, next, hterm, hae⟩ := hcan
    obtain ⟨hl, hlog⟩ := h.leads hst
    have hprev : ae.prevLogIndex = next - 1 := by rw [hae]
    rw [hprev] at hb
    obtain ⟨hle, hpt⟩ := h.ring.termAt_eq_some hb hterm
    have hg : Server.gather cfg s.log cfg.maxAppendEntries next <+: (g.log a).drop (next - 1) := by
      rcases Nat.eq_zero_or_pos next with h0 | h0
      · -- Index 0 is never in the ring, so nothing is gathered.
        have hnil : Server.gather cfg s.log cfg.maxAppendEntries next = [] := by
          subst h0
          cases cfg.maxAppendEntries with
          | zero => rfl
          | succ k =>
            rw [Server.gather, if_pos (Nat.zero_le _)]
            have : s.log.at? cfg 0 = none := by rw [LogRing.at?, if_pos (.inl (Nat.zero_le _))]
            rw [this]
        rw [hnil]
        exact List.nil_prefix
      · exact h.ring.gather_isPrefix _ next (by omega)
    rw [hlog] at hle hpt hg
    dsimp only
    rw [hae, hsender]
    exact ⟨hl, hself, rfl, hle, hpt, hg⟩
  | installSnapshot is =>
    rw [hpl] at hcan
    obtain ⟨hst, -, -, his⟩ := hcan
    obtain ⟨hl, hlog⟩ := h.leads hst
    have hle := h.ring.base_le
    have hedge := h.ring.edge
    rw [hlog] at hle hedge
    dsimp only
    rw [his, hsender]
    exact ⟨hl, hself, hle, hedge⟩
  | _ => trivial

end Raft
end FloodEws
