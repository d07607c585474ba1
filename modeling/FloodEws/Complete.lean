import FloodEws.Outage
/-!
# Complete — leader completeness

What a leader has committed is in the log of every later leader, or under its snapshot edge.  Restarts are the catch: a
node keeps its term and its vote over a restart, and nothing of its log, so a node that has acknowledged an entry and
goes down helps to elect a leader without it.  Where nodes go down only with an empty log, as before they first hear of
an entry, or before anything they do shows that they have one, it holds.
-/
namespace FloodEws
namespace Raft

/-- The server holds the entry at this index, or has applied it. -/
def Server.HasEntry (cfg : Config) (s : Server) (i : Nat) (e : Entry) : Prop :=
  s.log.at? cfg i = some e ∨ .apply i e ∈ s.calls

/-! ## What a commit index covers -/

/-- What a call made at `s` has done when the server is `y`, if no log was put in place: a commit index it raised is
within the ring, and what it applied above the old one it has handed to the state machine, compacted since or not. -/
structure Server.Advanced (s y : Server) : Prop where
  commit : y.commitIndex ≤ max s.commitIndex y.log.lastIndex
  base : y.log.base ≤ max s.commitIndex y.lastApplied
  applied : ∀ i, s.commitIndex < i → i ≤ y.lastApplied → ∃ e, .apply i e ∈ y.calls

namespace Server.Advanced

variable {cfg : Config} {s x y : Server}

/-- Nothing changed but what was called. -/
theorem keep (h : Advanced s x) (hlog : y.log = x.log) (hcommit : y.commitIndex = x.commitIndex)
    (happlied : y.lastApplied = x.lastApplied) (hcalls : x.calls <:+ y.calls) : Advanced s y := by
  refine ⟨by rw [hcommit, hlog]; exact h.commit, by rw [happlied, hlog]; exact h.base, fun i hi hle => ?_⟩
  rw [happlied] at hle
  obtain ⟨e, he⟩ := h.applied i hi hle
  exact ⟨e, hcalls.subset he⟩

/-- **Every move but those of the two messages that carry a log.** -/
theorem move {io : Io} {fit : Prop} {heard : Option Message} {start : Server} {ℓ : List Entry} (h : Advanced s x)
    (hring : x.log.Holds cfg ℓ) (hmv : Move cfg io fit heard start x y)
    (hno : ∀ m, heard = some m → (∀ ae, m.payload ≠ .appendEntries ae) ∧ ∀ is, m.payload ≠ .installSnapshot is) :
    Advanced s y := by
  have hcalls : x.calls <:+ y.calls := by
    obtain ⟨evs, hevs⟩ := Server.Move.calls_grow hmv
    exact ⟨evs, hevs.symm⟩
  cases hmv with
  | propose e log hs ht hi hp =>
    obtain ⟨hlive, hbase, -⟩ := hring.toLive.push hp
    have hlast : log.lastIndex = x.log.lastIndex + 1 := by
      rw [hlive.lastIndex, hring.lastIndex, List.length_append, List.length_singleton]
    obtain ⟨hcommit, hb, happlied⟩ := h
    refine ⟨?_, by rw [← hbase] at hb; exact hb, fun i hi hle => ?_⟩
    · show x.commitIndex ≤ max s.commitIndex log.lastIndex
      omega
    · obtain ⟨e, he⟩ := happlied i hi hle
      exact ⟨e, hcalls.subset he⟩
  | advance next hs hnx =>
    obtain ⟨hgt, hle, -⟩ := Ordered.findCommit_spec hnx
    refine ⟨?_, h.base, h.applied⟩
    show next ≤ max s.commitIndex x.log.lastIndex
    omega
  | apply hlt =>
    obtain ⟨hcommit, hbase, happlied⟩ := h
    have he := Server.applyNext_eq cfg x
    refine ⟨by rw [he]; exact hcommit, ?_, fun i hi hle => ?_⟩
    · rw [he]
      show x.log.base ≤ max s.commitIndex (x.lastApplied + 1)
      omega
    have hle : i ≤ x.lastApplied + 1 := by rw [he] at hle; exact hle
    rcases Nat.lt_or_eq_of_le hle with hlt' | rfl
    · obtain ⟨e, he⟩ := happlied i hi (Nat.le_of_lt_succ hlt')
      exact ⟨e, hcalls.subset he⟩
    · -- The index was covered in this call, so the ring holds it.
      have hlive : x.log.base < x.lastApplied + 1 ∧ x.lastApplied + 1 ≤ x.log.lastIndex := by omega
      obtain ⟨e, hat⟩ := Option.isSome_iff_exists.1 ((LogRing.at?_isSome x.log cfg _).2 hlive)
      refine ⟨e, ?_⟩
      rw [he, hat]
      exact List.mem_cons_self
  | compact bytes t hio hb ht =>
    obtain ⟨hle, hedge⟩ := hring.termAt_eq_some (Nat.le_of_lt hb) ht
    have hlast : (x.log.compactTo cfg x.lastApplied t).lastIndex = x.log.lastIndex := by
      rw [(hring.compactTo (Nat.le_of_lt hb) hle hedge).lastIndex, hring.lastIndex]
    refine ⟨?_, Nat.le_max_right _ _, fun i hi hle => ?_⟩
    · show x.commitIndex ≤ max s.commitIndex (x.log.compactTo cfg x.lastApplied t).lastIndex
      rw [hlast]
      exact h.commit
    · obtain ⟨e, he⟩ := h.applied i hi hle
      exact ⟨e, hcalls.subset he⟩
  | accept m ae hm hae => exact absurd hae ((hno m hm).1 ae)
  | chunk m is hm his => exact absurd his ((hno m hm).2 is)
  | install m is hm his => exact absurd his ((hno m hm).2 is)
  | _ => exact h.keep rfl rfl rfl hcalls

/-- In the end the server has every entry that its commit index covers now and did not before. -/
theorem hasEntry (h : Advanced s y) (cfg : Config) {i : Nat} (hlt : s.commitIndex < i) (hle : i ≤ y.commitIndex) :
    ∃ e, y.HasEntry cfg i e := by
  obtain ⟨hcommit, hbase, happlied⟩ := h
  rcases Nat.lt_or_ge y.log.base i with hb | hb
  · obtain ⟨e, he⟩ := Option.isSome_iff_exists.1 ((LogRing.at?_isSome y.log cfg i).2 ⟨hb, by omega⟩)
    exact ⟨e, .inl he⟩
  · obtain ⟨e, he⟩ := happlied i hlt (by omega)
    exact ⟨e, .inr he⟩

end Server.Advanced

theorem Server.stepDown_becomeFollower_state (cfg : Config) (io : Io) (leader : Nat) {t : Nat} {s : Server}
    (h : s.currentTerm ≤ t) : ((s.maybeStepDown t).becomeFollower cfg io t leader).state = .follower := by
  obtain ⟨hterm, -⟩ := Server.maybeStepDown_spec t s
  rw [Nat.max_eq_right h] at hterm
  exact (Server.becomeFollower_spec cfg io leader (Nat.le_of_eq hterm.symm)).2.1

/-- **A leader gets no log from others**: one that handled an `AppendEntries` or an `InstallSnapshot` refused it. -/
theorem Server.leading_handle (cfg : Config) (io : Io) (s : Server) :
    (∀ ae, (s.handleAppendEntries cfg io ae).state = .leader →
      (s.handleAppendEntries cfg io ae).commitIndex = s.commitIndex) ∧
    ∀ is, (s.handleInstallSnapshot cfg io is).state = .leader →
      (s.handleInstallSnapshot cfg io is).commitIndex = s.commitIndex := by
  constructor
  · intro ae hl
    unfold Server.handleAppendEntries at hl ⊢
    rcases Nat.lt_or_ge ae.term s.currentTerm with ht | ht
    · rw [if_pos ht]
      rfl
    have hst := Server.stepDown_becomeFollower_state cfg io ae.leaderId ht
    rw [if_neg (Nat.not_lt.2 ht)] at hl
    dsimp only at hl
    generalize (s.maybeStepDown ae.term).becomeFollower cfg io ae.term ae.leaderId = x at hst hl
    exfalso
    cases hp : Server.prevMismatch cfg ae { x.tick with lastLeaderContact := io.now x.reads } with
    | some resp =>
      rw [hp] at hl
      exact absurd (hst.symm.trans hl) (by decide)
    | none =>
      rw [hp] at hl
      obtain ⟨evs, -, he⟩ := Server.accepted_eq cfg ae { x.tick with lastLeaderContact := io.now x.reads }
      have hacc : (Server.accepted cfg ae { x.tick with lastLeaderContact := io.now x.reads }).state = x.state := by
        rw [he]
        rfl
      have hl := (Server.applyCommitted_frame cfg io (Server.accepted cfg ae _)).2.symm.trans hl
      exact absurd (hst.symm.trans (hacc.symm.trans hl)) (by decide)
  · intro is hl
    unfold Server.handleInstallSnapshot at hl ⊢
    rcases Nat.lt_or_ge is.term s.currentTerm with ht | ht
    · rw [if_pos ht]
      rfl
    have hst := Server.stepDown_becomeFollower_state cfg io is.leaderId ht
    rw [if_neg (Nat.not_lt.2 ht)] at hl
    dsimp only at hl
    have hstore : (((s.maybeStepDown is.term).becomeFollower cfg io is.term is.leaderId).storeChunk cfg is).state =
        .follower := by
      unfold Server.storeChunk
      dsimp only
      split <;> split <;> exact hst
    generalize ((s.maybeStepDown is.term).becomeFollower cfg io is.term is.leaderId).storeChunk cfg is = x at hstore hl
    exfalso
    cases hd : is.done with
    | false =>
      rw [hd] at hl
      exact absurd (hstore.symm.trans hl) (by decide)
    | true =>
      rw [hd] at hl
      have hl := (Server.applyCommitted_frame cfg io _).2.symm.trans hl
      revert hl
      split <;> exact fun hl => absurd (hstore.symm.trans hl) (by decide)

/-- **What a leader newly commits it has**: in its ring, or applied and compacted in the same call. -/
theorem newly_committed {S : Setup} (hids : badNode ∉ S.ids) {g : Replog Nat Entry} {c : Cluster} {act : Action}
    (h : Safe S g c) (hen : S.sys.enabled c act) (hok : S.OutageSteps c act) {a i : Nat}
    (hl : ((S.sys.exec c act).node a).state = .leader) (hlt : (c.node a).commitIndex < i)
    (hle : i ≤ ((S.sys.exec c act).node a).commitIndex) : ∃ e, ((S.sys.exec c act).node a).HasEntry S.cfg i e := by
  have hdown : ∀ (n : Nat) (calls : List Event), i ≤ ((c.set n (S.rebuild n calls)).node a).commitIndex → False := by
    intro n calls hle
    by_cases ha : a = n
    · subst ha
      rw [Cluster.set_node_self, (rebuild_log S a calls).2.1] at hle
      omega
    · rw [Cluster.set_node_ne ha] at hle
      omega
  cases act with
  | call n io k =>
    obtain ⟨hfit, hsafe⟩ := hok
    by_cases ha : a = n
    · subst ha
      have hself : (S.sys.exec c (.call a io k)).node a = (c.node a).perform S.cfg io k := Cluster.set_node_self _ _ _
      rw [hself] at hl hle ⊢
      by_cases hlog : ∀ m, k.heard = some m →
          (∀ ae, m.payload ≠ .appendEntries ae) ∧ ∀ is, m.payload ≠ .installSnapshot is
      · -- Along the call the cluster stays sound, and the moves are those of `Advanced`.
        have hrun : (∃ g', Safe S g' (c.set a ((c.node a).perform S.cfg io k))) ∧
            (c.node a).Advanced ((c.set a ((c.node a).perform S.cfg io k)).node a) := by
          refine Setup.call_invariant (P := fun c' => (∃ g', Safe S g' c') ∧ (c.node a).Advanced (c'.node a)) True
            ⟨⟨g, h⟩, ?_⟩ hen (fun _ => hfit) ?_ ?_
          · exact ⟨Nat.le_max_left _ _, Nat.le_trans (h.trust a).base_le (Nat.le_max_left _ _),
              fun j hj hja => absurd (Nat.le_trans hja (h.trust a).applied_le) (Nat.not_le.2 hj)⟩
          · intro x
            rw [Cluster.set_node_self, Cluster.set_node_self]
            exact and_congr (exists_congr (fun g' => Safe.core_iff))
              ⟨fun hx => hx.keep rfl rfl rfl (List.suffix_refl _), fun hx => hx.keep rfl rfl rfl (List.suffix_refl _)⟩
          · rintro x y ⟨⟨g', hg'⟩, hx⟩ - hheard hmv
            rw [Cluster.set_node_self] at hx ⊢
            obtain ⟨g'', -, hy⟩ := hg'.move hids hen.1 hheard hsafe hmv
            exact ⟨⟨g'', hy⟩, hx.move hg'.self_mirror.ring hmv hlog⟩
        have hadv := hrun.2
        rw [Cluster.set_node_self] at hadv
        exact hadv.hasEntry S.cfg hlt hle
      · exfalso
        have hkeep : ((c.node a).perform S.cfg io k).commitIndex = (c.node a).commitIndex := by
          cases k with
          | handle m =>
            obtain ⟨src, dst, payload⟩ := m
            cases payload with
            | appendEntries ae => exact (Server.leading_handle S.cfg io (c.node a)).1 ae hl
            | installSnapshot is => exact (Server.leading_handle S.cfg io (c.node a)).2 is hl
            | _ => exact absurd (fun m hm => by cases hm; exact ⟨fun _ hf => (by cases hf), fun _ hf => (by cases hf)⟩) hlog
          | _ => exact absurd (fun m hm => by cases hm) hlog
        omega
    · have hsame : (S.sys.exec c (.call n io k)).node a = c.node a := Cluster.set_node_ne ha
      rw [hsame] at hle
      omega
  | restart n => exact (hdown n _ hle).elim
  | crash n io k made => exact (hdown n _ hle).elim

/-! ## In every later leader's log -/

/-- An entry that a server has, at or below its commit index, was chosen by the leader of a term up to its own. -/
theorem Safe.chosen_of_hasEntry {S : Setup} {g : Replog Nat Entry} {c : Cluster} (h : Safe S g c) {a i : Nat} {e : Entry}
    (hi : i ≤ (c.node a).commitIndex) (he : (c.node a).HasEntry S.cfg i e) :
    ∃ t k, t ≤ (c.node a).currentTerm ∧ g.Chosen Entry.term S.ids.toFinset t k ∧ 0 < i ∧ i ≤ k ∧
      (g.llog t)[i - 1]? = some e := by
  have hpos : 0 < i := by
    rcases he with he | he
    · have := ((h.mirrors.node a).ring.at?_eq_some.1 he).1
      omega
    · obtain ⟨t, k, hc, hpos, hk, hget⟩ := (h.trust a).applied i e he
      exact hpos
  rcases (h.trust a).commit with hz | ⟨t, k, htT, hc, hk, hp⟩
  · omega
  refine ⟨t, k, htT, hc, hpos, Nat.le_trans hi hk, ?_⟩
  rcases he with he | he
  · obtain ⟨hbase, hlen, hget⟩ := (h.mirrors.node a).ring.at?_eq_some.1 he
    obtain ⟨ext, hext⟩ := hp
    rw [← hext, List.getElem?_append_left (by rw [List.length_take]; omega), List.getElem?_take_of_lt (by omega)]
    exact hget
  · obtain ⟨t', k', hc', -, hk', hget⟩ := (h.trust a).applied i e he
    rw [h.sound.chosen_agree hc hc' (by omega) (by omega)]
    exact hget

/-- **An entry below the commit index of a server**, a leader or not, stands in the log of every later leader. -/
theorem Safe.carried {S : Setup} {g g' : Replog Nat Entry} {c c' : Cluster} (h : Safe S g c) (h' : Safe S g' c')
    (hg : g.Grows g') {a b i : Nat} {e : Entry} (hi : i ≤ (c.node a).commitIndex)
    (he : (c.node a).HasEntry S.cfg i e) (hb : (c'.node b).state = .leader)
    (ht : (c.node a).currentTerm ≤ (c'.node b).currentTerm) : 0 < i ∧ (g'.log b)[i - 1]? = some e := by
  obtain ⟨t, k, htT, hc, hpos, hk, hthen⟩ := h.chosen_of_hasEntry hi he
  obtain ⟨hl, hlog⟩ := (h'.mirrors.node b).leads hb
  have hcar := h'.sound.carried_llog (hc.grows hg) (Nat.le_trans htT ht) (by rw [hl]; exact Option.some_ne_none b)
  have hlen := (List.getElem?_eq_some_iff.1 hthen).1
  have hnow : ((g'.llog t).take k)[i - 1]? = some e := by
    obtain ⟨ext, hext⟩ := hg.llog t
    rw [List.getElem?_take_of_lt (by omega), ← hext, List.getElem?_append_left (by omega)]
    exact hthen
  obtain ⟨ext, hext⟩ := hcar
  rw [hlog, ← hext, List.getElem?_append_left (List.getElem?_eq_some_iff.1 hnow).1]
  exact ⟨hpos, hnow⟩

/-- **Leader completeness**: if a step makes a leader's commit index cover the index `i`, the leader has an entry there,
in its log or applied and compacted in the same step, and that entry is held at `i` by every leader of a later term, or
lies under its snapshot edge. -/
theorem leader_completeness (S : Setup) (hids : badNode ∉ S.ids) (hfresh : S.Fresh) (c c' : Cluster) (act : Action)
    (h : S.sys.Reachable S.OutageSteps c) (hen : S.sys.enabled c act) (hok : S.OutageSteps c act) (a i : Nat)
    (hlead : ((S.sys.exec c act).node a).state = .leader) (hlt : (c.node a).commitIndex < i)
    (hle : i ≤ ((S.sys.exec c act).node a).commitIndex) (h' : S.sys.Reaches S.OutageSteps (S.sys.exec c act) c') :
    (∃ e, ((S.sys.exec c act).node a).HasEntry S.cfg i e) ∧
      ∀ e, ((S.sys.exec c act).node a).HasEntry S.cfg i e → ∀ b, (c'.node b).state = .leader →
        ((S.sys.exec c act).node a).currentTerm < (c'.node b).currentTerm →
        (c'.node b).log.at? S.cfg i = some e ∨
          (i ≤ (c'.node b).log.base ∧ (i = (c'.node b).log.base → (c'.node b).log.baseTerm = e.term)) := by
  obtain ⟨g, -, hg⟩ := safeFrom_reachable hids hfresh h
  refine ⟨newly_committed hids hg hen hok hlead hlt hle, fun e he b hb ht => ?_⟩
  obtain ⟨g₁, -, hg₁⟩ := safeFrom_exec hids ⟨g, .refl g, hg⟩ hen hok
  obtain ⟨g', hgrow, hg'⟩ := safeFrom_reaches hids ⟨g₁, .refl g₁, hg₁⟩ h'
  obtain ⟨hpos, hget⟩ := hg₁.carried hg' hgrow hle he hb (Nat.le_of_lt ht)
  have hring := (hg'.mirrors.node b).ring
  rcases Nat.lt_or_ge (c'.node b).log.base i with hbase | hbase
  · have hlen := (List.getElem?_eq_some_iff.1 hget).1
    exact .inl (hring.at?_eq_some.2 ⟨hbase, by omega, hget⟩)
  · refine .inr ⟨hbase, fun heq => ?_⟩
    rw [hring.edge, ← heq, show i = i - 1 + 1 by omega]
    exact termOf_succ hget

/-- Node 1 is elected and sends its first entry. -/
def firstSent : List Turn := startAll ++ elect 1 2 5000 ++ [.periodic 1 5500]

/-- Node 2 stores the entry, and goes down before it acknowledges it. -/
def storeUnheard : Action := .crash 2 (.at 5500) (.handle ⟨1, 2, .appendEntries
  ⟨1, 1, 0, 0, 0, 1, [{ term := 1, index := 1 }]⟩⟩) 1

/-- Node 2 comes back with an empty log, gets the entry once more and acknowledges it. -/
def secondSent : List Turn := [.start 2 5600, .periodic 1 6000, .deliver 1 2 0 6000]

/-- Node 1 hears the acknowledgement. -/
def hearAck : Action := .call 1 (.at 6000) (.handle ⟨2, 1, .appendEntriesResp
  { term := 1, success := true, lastLogIndex := 1 }⟩)

/-- Node 1 tells node 2 that the entry is committed, and node 2 succeeds node 1. -/
def succession : List Turn := [.periodic 1 7000, .deliver 1 2 0 7000] ++ elect 2 3 20000

/-- The entry that node 1 commits on node 2's acknowledgement is in the log of node 2 as the next leader. -/
theorem leader_completeness_succession :
    let c := trio.play trio.OutageSteps .at secondSent
      (trio.sys.exec (trio.play trio.OutageSteps .at firstSent trio.init) storeUnheard)
    let c' := trio.play trio.OutageSteps .at succession (trio.sys.exec c hearAck)
    (c.node 1).commitIndex = 0 ∧ ((trio.sys.exec c hearAck).node 1).commitIndex = 1 ∧ (c'.node 2).state = .leader ∧
      (c'.node 2).log.at? trio.cfg 1 = some { term := 1, index := 1 } := by
  intro c c'
  have hc₀ : trio.sys.Reachable trio.OutageSteps (trio.play trio.OutageSteps .at firstSent trio.init) :=
    Setup.reachable_play _ _ _
  have hdown : trio.sys.enabled (trio.play trio.OutageSteps .at firstSent trio.init) storeUnheard := by
    refine ⟨by decide, ?_⟩
    rintro m ⟨⟩
    exact ⟨rfl, 1, by decide, by decide +kernel⟩
  have hc : trio.sys.Reachable trio.OutageSteps c :=
    (hc₀.tail ⟨storeUnheard, hdown, by decide +kernel, rfl⟩).trans (Setup.reaches_play _ _ _ _)
  have hc' : trio.sys.Reaches trio.OutageSteps (trio.sys.exec c hearAck) c' := Setup.reaches_play _ _ _ _
  have hheard : trio.sys.enabled c hearAck := by
    refine ⟨by decide, ?_⟩
    rintro m ⟨⟩
    exact ⟨rfl, 2, by decide, by decide +kernel⟩
  have hbefore : (c.node 1).commitIndex = 0 := by decide +kernel
  have hafter : ((trio.sys.exec c hearAck).node 1).commitIndex = 1 := by decide +kernel
  have hlead : (c'.node 2).state = .leader := by decide +kernel
  refine ⟨hbefore, hafter, hlead, ?_⟩
  have hdone := (leader_completeness trio (by decide) (fun _ => .inl rfl) c c' hearAck hc hheard (by decide +kernel) 1 1
    (by decide +kernel) (by rw [hbefore]; decide) (Nat.le_of_eq hafter.symm) hc').2 { term := 1, index := 1 }
    (.inl (by decide +kernel)) 2 hlead (by decide +kernel)
  have hbase : (c'.node 2).log.base = 0 := by decide +kernel
  rcases hdone with hdone | ⟨hle, -⟩
  · exact hdone
  · omega

/-- **A restarted voter**: node 2 acknowledges the first entry, node 1 commits it, node 2 goes down and comes back with
an empty log, and elects node 3, whose log is empty too, at its second attempt. -/
theorem leader_completeness_fails_on_restart :
    let c := trio.play trio.TermsFit .at firstCommit trio.init
    let c' := trio.play trio.TermsFit .at (.restart 2 :: .start 2 8000 :: elect 3 2 20000 ++ elect 3 2 40000) c
    trio.sys.Reachable trio.TermsFit c ∧ trio.sys.Reaches trio.TermsFit c c' ∧
      (c.node 1).state = .leader ∧ (c.node 1).commitIndex = 1 ∧
      (c.node 1).log.at? trio.cfg 1 = some { term := 1, index := 1 } ∧
      (c'.node 3).state = .leader ∧ (c.node 1).currentTerm < (c'.node 3).currentTerm ∧
      (c'.node 3).log.base = 0 ∧ (c'.node 3).log.at? trio.cfg 1 = some { term := 2, index := 1 } :=
  ⟨Setup.reachable_play _ _ _, Setup.reaches_play _ _ _ _, by decide +kernel⟩

end Raft
end FloodEws
