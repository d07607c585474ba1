import FloodEws.Elect
/-!
# Strand — what the product's leader sends to a follower that fell behind

`Engine::make_cbs` binds `m_snapshot_save` to a function that writes nothing and returns 0, and leaves
`m_snapshot_load` unbound.  Compaction then goes on as ever, but the snapshot buffer stays empty, so no
`InstallSnapshot` is ever sent, and a peer whose next index is at or below the base is sent nothing at all.
-/
namespace FloodEws
namespace Raft

/-- The snapshot callbacks of `Engine::make_cbs`; clock and random source are free. -/
def Io.IsEngine (io : Io) : Prop := io.snapshotSave = some (fun _ => some []) ∧ io.snapshotLoad = false

/-- `send_append_entries(peer)` emits exactly one message, to that peer, and it is one that carries the log. -/
def Server.EmitsOne (cfg : Config) (s : Server) (peer : Peer) : Prop :=
  ∃ m : Message, (s.sendAppendEntries cfg peer).sent = m :: s.sent ∧ m.recipient = peer.id ∧
    ((∃ ae, m.payload = .appendEntries ae) ∨ (∃ is, m.payload = .installSnapshot is))

/-- **A server with the product's callbacks has no snapshot to send.** -/
structure Snapless (s : Server) : Prop where
  len : s.snapLen = 0
  next : ∀ p ∈ s.nodes, 1 ≤ p.nextIndex
  sent : ∀ m ∈ s.sent, ∀ is, m.payload ≠ .installSnapshot is

namespace Snapless

variable {cfg : Config} {s s' : Server}

theorem core_iff : Snapless s.core ↔ Snapless s := by
  constructor
  · intro h
    exact ⟨h.len, fun p hp => h.next p.key (List.mem_map_of_mem hp), h.sent⟩
  · intro h
    refine ⟨h.len, ?_, h.sent⟩
    intro p hp
    obtain ⟨q, hq, rfl⟩ := List.mem_map.1 hp
    exact h.next q hq

theorem sent_of_silent (h : Snapless s) (evs : List Event) (hc : s'.calls = evs ++ s.calls)
    (hs : ∀ e ∈ evs, e.silent = true) : ∀ m ∈ s'.sent, ∀ is, m.payload ≠ .installSnapshot is := by
  intro m hm
  obtain ⟨t, v, hm⟩ := mem_sent.1 hm
  exact h.sent m (mem_sent.2 ⟨t, v, send_of_silent hc hs hm⟩)

/-- A change of one peer's record that leaves the next index alone. -/
theorem next_modifyNode {n : Nat} {f : Peer → Peer} {ps : List Peer} (h : ∀ p ∈ ps, 1 ≤ p.nextIndex)
    (hf : ∀ p, (f p).nextIndex = p.nextIndex) : ∀ p ∈ modifyNode n f ps, 1 ≤ p.nextIndex := by
  intro p hp
  rcases mem_modifyNode_iff hp with hp | ⟨q, hq, -, rfl⟩
  · exact h p hp
  · rw [hf]; exact h q hq

theorem move {io : Io} {fit : Prop} {heard : Option Message} {start : Server} (h : Snapless s) (hio : io.IsEngine)
    (hheard : ∀ m is, heard = some m → m.payload ≠ .installSnapshot is) (hmv : Move cfg io fit heard start s s') :
    Snapless s' := by
  have hquiet : ∀ evs : List Event, (∀ e ∈ evs, e.quiet = true) → ∀ e ∈ evs, e.silent = true :=
    fun evs hq e he => Event.silent_of_plain (Event.plain_of_quiet (hq e he))
  have hone : ∀ e : Event, e.silent = true → ∀ x ∈ [e], x.silent = true := by
    intro e he x hx
    rw [List.mem_singleton.1 hx]; exact he
  cases hmv with
  | quiet evs hq => exact ⟨h.len, h.next, h.sent_of_silent evs rfl (hquiet evs hq)⟩
  | aim nodes hk hn => exact ⟨h.len, fun p hp => (hn p hp).elim id (h.next p), h.sent⟩
  | adopt t ht => exact ⟨h.len, h.next, h.sent_of_silent [_] rfl (hone _ rfl)⟩
  | demote => exact ⟨h.len, h.next, h.sent⟩
  | campaign hs hf =>
    refine ⟨h.len, next_modifyNode ?_ (by intro p; rfl), h.sent_of_silent [_] rfl (hone _ rfl)⟩
    intro p hp
    obtain ⟨q, hq, rfl⟩ := List.mem_map.1 hp
    exact h.next q hq
  | tally m rr p hm hrr hpre hg ht hs hp hn => exact ⟨h.len, next_modifyNode h.next (by intro p; rfl), h.sent⟩
  | promote hs hm _ =>
    refine ⟨h.len, next_modifyNode ?_ (by intro p; rfl), h.sent⟩
    intro p hp
    obtain ⟨q, hq, rfl⟩ := List.mem_map.1 hp
    exact Nat.le_add_left 1 _
  | propose e log hs ht hi hp =>
    exact ⟨h.len, next_modifyNode h.next (by intro p; rfl), h.sent_of_silent [_] rfl (hone _ rfl)⟩
  | vote m rv hm hrv hpre ht hv hu => exact ⟨h.len, h.next, h.sent_of_silent [_] rfl (hone _ rfl)⟩
  | emit m hsend =>
    refine ⟨h.len, h.next, ?_⟩
    intro m' hm' is his
    obtain ⟨t, v, hm'⟩ := mem_sent.1 hm'
    rcases send_of_send [] rfl (by simp) hm' with ⟨rfl, rfl, rfl⟩ | hm'
    · have hcan := hsend.2
      rw [his] at hcan
      have hlt := hcan.2.2.1
      rw [h.len] at hlt
      exact Nat.not_lt_zero _ hlt
    · exact h.sent m' (mem_sent.2 ⟨t, v, hm'⟩) is his
  | accept m ae hm hae ht hs hp h0 =>
    obtain ⟨evs, hq, he⟩ := Server.accepted_eq cfg ae s
    refine ⟨by rw [he]; exact h.len, by rw [he]; exact h.next, ?_⟩
    intro m' hm' is his
    obtain ⟨t, v, hm'⟩ := mem_sent.1 hm'
    rcases send_of_send evs (by rw [he]) (hquiet evs hq) hm' with ⟨rfl, rfl, rfl⟩ | hm'
    · cases his
    · exact h.sent m' (mem_sent.2 ⟨t, v, hm'⟩) is his
  | chunk m is hm his ht hs hd h0 => exact absurd his (hheard m is hm)
  | install m is hm his ht hs hd h0 => exact absurd his (hheard m is hm)
  | learn sender l hs hr => exact ⟨h.len, next_modifyNode h.next (by intro p; rfl), h.sent⟩
  | advance next hs hn => exact ⟨h.len, h.next, h.sent⟩
  | apply hlt =>
    rw [Server.applyNext_eq]
    refine ⟨h.len, h.next, h.sent_of_silent _ rfl ?_⟩
    intro e he
    rw [Option.mem_toList, Option.map_eq_some_iff] at he
    obtain ⟨x, -, rfl⟩ := he
    rfl
  | compact bytes t hsave hb ht =>
    obtain ⟨save, k, h1, h2⟩ := hsave
    rw [hio.1] at h1
    injection h1 with h1
    subst h1
    injection h2 with h2
    subst h2
    refine ⟨rfl, h.next, h.sent_of_silent [_, _] rfl ?_⟩
    intro e he
    rcases List.mem_cons.1 he with rfl | he
    · rfl
    · rw [List.mem_singleton.1 he]; rfl

end Snapless

/-- Every call is answered by the product's snapshot callbacks. -/
def Setup.EngineSteps (_ : Setup) (_ : Cluster) : Action → Prop
  | .call _ io _ => io.IsEngine
  | .crash _ io _ _ => io.IsEngine
  | .restart _ => True

theorem snapless_rebuild (S : Setup) (n : Nat) {calls : List Event}
    (hs : ∀ t v m, .send t v m ∈ calls → ∀ is, m.payload ≠ .installSnapshot is) : Snapless (S.rebuild n calls) := by
  have hsent : ∀ s : Server, s.calls = calls → ∀ m ∈ s.sent, ∀ is, m.payload ≠ .installSnapshot is := by
    intro s hc m hm
    obtain ⟨t, v, hm⟩ := mem_sent.1 hm
    exact hs t v m (hc ▸ hm)
  refine ⟨?_, ?_, hsent _ rfl⟩
  · unfold Setup.rebuild Server.new
    split <;> rfl
  · intro p hp
    unfold Setup.rebuild Server.new at hp
    split at hp
    · cases hp
    · obtain ⟨i, -, rfl⟩ := List.mem_map.1 hp
      exact Nat.le_refl 1

theorem Snapless.call {S : Setup} {c : Cluster} {n : Nat} {io : Io} {k : Call} (h : ∀ a, Snapless (c.node a))
    (hk : S.Callable c n k) (hio : io.IsEngine) : Snapless ((c.node n).perform S.cfg io k) := by
  have hheard : ∀ m is, k.heard = some m → m.payload ≠ .installSnapshot is := by
    intro m is hm
    obtain ⟨-, v, -, hv⟩ := hk.2 m (by cases k <;> first | cases hm; rfl | cases hm)
    exact (h v).sent m hv is
  have hrun : ∀ y, Moves S.cfg io False k.heard (c.node n) (c.node n).core y → Snapless y := by
    intro y hy
    induction hy with
    | refl => exact Snapless.core_iff.2 (h n)
    | tail _ hmv ih => exact ih.move hio hheard hmv
  exact Snapless.core_iff.1 (hrun _ (Server.perform_moves S.cfg io False (c.node n) k (fun hf => hf.elim)))

theorem snapless_reachable {S : Setup} {c : Cluster} (h : S.sys.Reachable S.EngineSteps c) (n : Nat) :
    Snapless (c.node n) := by
  refine Sys.Reachable.invariant (P := fun c => ∀ n, Snapless (c.node n)) h ?_ ?_ n
  · intro n
    exact snapless_rebuild S n (fun _ _ _ hm => by cases hm)
  intro x act hx hen hok n
  have hset : ∀ a s, Snapless s → Snapless ((x.set a s).node n) := by
    intro a s hs
    by_cases hn : n = a
    · subst hn; rw [Cluster.set_node_self]; exact hs
    · rw [Cluster.set_node_ne hn]; exact hx n
  cases act with
  | call a io k => exact hset a _ (Snapless.call hx hen hok)
  | restart a =>
    refine hset a _ (snapless_rebuild S a ?_)
    intro t v m hm
    exact (hx a).sent m (mem_sent.2 ⟨t, v, hm⟩)
  | crash a io k made =>
    refine hset a _ (snapless_rebuild S a ?_)
    intro t v m hm
    have hfull := Snapless.call hx hen hok
    exact hfull.sent m (mem_sent.2 ⟨t, v, List.mem_of_mem_drop hm⟩)

/-- **What a leader with an empty snapshot buffer sends to a peer**: one `AppendEntries` where the log above the base
reaches back to the peer's next index, and nothing elsewhere. -/
theorem Snapless.emitsOne_iff {cfg : Config} {s : Server} (h : Snapless s) {p : Peer} (hp : p ∈ s.nodes)
    (hself : p.isSelf = false) :
    s.EmitsOne cfg p ↔ s.log.base < p.nextIndex ∧ p.nextIndex ≤ s.log.lastIndex + 1 := by
  have hnext := h.next p hp
  have hnone : s.sendInstallSnapshot cfg p = s := by
    rw [Server.sendInstallSnapshot, if_neg (by simp [hself]), if_pos h.len]
  have hstay : s.sendAppendEntries cfg p = s → ¬ s.EmitsOne cfg p := by
    rintro he ⟨m, hm, -⟩
    rw [he] at hm
    exact absurd (congrArg List.length hm) (by simp)
  have hsend := Server.sendAppendEntries.eq_def cfg p s
  rw [if_neg (by simp [hself])] at hsend
  dsimp only at hsend
  by_cases hb : p.nextIndex - 1 < s.log.base
  · rw [if_pos hb, hnone] at hsend
    exact ⟨fun hone => absurd hone (hstay hsend), fun hc => by omega⟩
  rw [if_neg hb] at hsend
  cases ht : s.log.termAt cfg (p.nextIndex - 1) with
  | none =>
    rw [ht, hnone] at hsend
    refine ⟨fun hone => absurd hone (hstay hsend), fun hc => ?_⟩
    exfalso
    rcases Nat.eq_or_lt_of_le (Nat.le_of_not_lt hb) with he | hlt
    · rw [← he, LogRing.termAt] at ht
      split at ht
      · cases ht
      · rw [if_pos rfl] at ht
        cases ht
    · rw [LogRing.termAt, if_neg (by omega), if_neg (by omega), Option.map_eq_none_iff] at ht
      have hsome := (LogRing.at?_isSome s.log cfg (p.nextIndex - 1)).2 ⟨hlt, by omega⟩
      rw [ht] at hsome
      cases hsome
  | some t =>
    rw [ht] at hsend
    have hle : p.nextIndex - 1 ≤ s.log.lastIndex := by
      by_contra hgt
      have hnone : s.log.termAt cfg (p.nextIndex - 1) = none :=
        LogRing.termAt_eq_none (by unfold LogRing.lastIndex at hgt; omega) (.inr (Nat.lt_of_not_le hgt))
      rw [ht] at hnone
      cases hnone
    refine ⟨fun _ => ⟨by omega, by omega⟩, fun _ => ?_⟩
    unfold Server.EmitsOne
    rw [hsend]
    exact ⟨_, rfl, rfl, .inl ⟨_, rfl⟩⟩

/-- **When compaction strands a follower**: in every reachable state of a cluster with the product's callbacks, restarts
included, a leader's `send_append_entries` emits its one message to a peer exactly when the peer's next index is above
the leader's base and at most one past its last index. -/
theorem send_append_entries_emits_iff (S : Setup) (c : Cluster) (h : S.sys.Reachable S.EngineSteps c) (n : Nat)
    (_hl : (c.node n).state = .leader) (p : Peer) (hp : p ∈ (c.node n).nodes) (hself : p.isSelf = false) :
    (c.node n).EmitsOne S.cfg p ↔
      (c.node n).log.base < p.nextIndex ∧ p.nextIndex ≤ (c.node n).log.lastIndex + 1 :=
  (snapless_reachable h n).emitsOne_iff hp hself

theorem engine_run (ts : List Turn) : trio.sys.Reachable trio.EngineSteps (trio.play NoRestart .engine ts trio.init) := by
  refine Setup.reaches_play_of ?_ ts trio.init
  rintro c a - ha
  cases a with
  | call n io k =>
    obtain ⟨now, rfl⟩ := ha
    exact ⟨rfl, rfl⟩
  | restart n => trivial
  | crash n io k made => exact ha.elim

/-- Node 1 is elected and sends node 3 its no-op. -/
theorem send_append_entries_emits_noop :
    let c := trio.play NoRestart .engine (startAll ++ elect 1 2 5000) trio.init
    (c.node 1).state = .leader ∧ ∀ p ∈ (c.node 1).nodes, p.isSelf = false → (c.node 1).EmitsOne trio.cfg p := by
  intro c
  have hl : (c.node 1).state = .leader := by decide +kernel
  refine ⟨hl, fun p hp hself => ?_⟩
  refine (send_append_entries_emits_iff trio c (engine_run _) 1 hl p hp hself).2 ?_
  have hall : ∀ p ∈ (c.node 1).nodes, (c.node 1).log.base < p.nextIndex ∧ p.nextIndex ≤ (c.node 1).log.lastIndex + 1 := by
    decide +kernel
  exact hall p hp

/-- Node 1 commits 32 entries with node 2 while node 3 hears nothing, and compacts them. -/
def leftBehind : List Turn :=
  startAll ++ elect 1 2 5000 ++ List.replicate 31 (.submit 1 5001) ++
  [.deliver 1 2 0 5002, .deliver 2 1 0 5002, .deliver 1 2 0 5002, .deliver 2 1 0 5002,
   .deliver 1 2 0 5002, .deliver 2 1 0 5002, .deliver 1 2 0 5002, .deliver 2 1 0 5002]

/-- Node 3 is then sent nothing. -/
theorem send_append_entries_silent_below_base :
    let c := trio.play NoRestart .engine leftBehind trio.init
    trio.sys.Reachable trio.EngineSteps c ∧ (c.node 1).state = .leader ∧
      ∃ p ∈ (c.node 1).nodes, p.isSelf = false ∧ p.id = 3 ∧ ¬ (c.node 1).EmitsOne trio.cfg p := by
  intro c
  have hpeer : ∃ p ∈ (c.node 1).nodes, p.isSelf = false ∧ p.id = 3 ∧
      ((c.node 1).sendAppendEntries trio.cfg p).sent.length = (c.node 1).sent.length := by decide +kernel
  refine ⟨engine_run _, by decide +kernel, ?_⟩
  obtain ⟨p, hp, hself, hid, hlen⟩ := hpeer
  refine ⟨p, hp, hself, hid, ?_⟩
  rintro ⟨m, hm, -⟩
  rw [hm, List.length_cons] at hlen
  omega

end Raft
end FloodEws
