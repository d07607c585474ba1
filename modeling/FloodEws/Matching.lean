import FloodEws.Simulate
import FloodEws.Schedule
/-!
# Matching — the log matching property

Two rings that hold an entry of one term at one index agree at every index below that both still hold.  The replicated
log behind the cluster gives it (`Canonical.agree`), as long as the two unchecked spots do no harm: a slice that reaches
across the receiver's snapshot edge must agree with it at the edge, and no snapshot for index 0 may meet a compacted
log.  Where a slice disagrees at the edge the ring ends up with an edge of one history and entries of another, and as
leader hands this on.
-/
namespace FloodEws
namespace Raft

/-- **When an accepted message fits the snapshot edge.**  A slice that starts below the edge and ends above it has, at
the edge, an entry of the edge's term; a finished `InstallSnapshot` for index 0 meets no compacted log. -/
def Server.EdgeOk (s : Server) : Option Message → Prop
  | some ⟨_, _, .appendEntries ae⟩ => s.currentTerm ≤ ae.term → ae.prevLogIndex < s.log.base →
      s.log.base < ae.prevLogIndex + ae.nEntries →
      (ae.view[s.log.base - ae.prevLogIndex - 1]?).map Entry.term = some s.log.baseTerm
  | some ⟨_, _, .installSnapshot is⟩ => s.currentTerm ≤ is.term → is.done = true → is.lastIncludedIndex = 0 →
      s.log.base = 0
  | _ => True

/-- No node goes down, no election is started at the last term, and every message that is accepted fits the edge. -/
def Setup.MatchSteps (_ : Setup) (c : Cluster) : Action → Prop
  | .call n io k => ((c.node n).electing io k = true → (c.node n).currentTerm + 1 < 2 ^ 64) ∧ (c.node n).EdgeOk k.heard
  | .restart _ => False
  | .crash _ _ _ _ => False

namespace Mirrors

variable {S : Setup} {g : Replog Nat Entry} {c : Cluster} {n : Nat} {start x : Server}

/-- A slice with an entry of the edge's term at the edge: the logs agree up to there. -/
theorem agree_at_edge (h : Mirrors S g (c.set n x)) {m : Message} {ae : AppendEntries} (htold : Says g m)
    (hae : m.payload = .appendEntries ae) (ht : ae.term = x.currentTerm) (hok : start.EdgeOk (some m))
    (h0 : Server.Untouched start x) (hlt : ae.prevLogIndex < x.log.base)
    (hgt : x.log.base < ae.prevLogIndex + ae.nEntries) :
    (g.log n).take x.log.base = (g.llog x.currentTerm).take x.log.base := by
  have hn := h.self
  obtain ⟨src, dst, pl⟩ := m
  cases hae
  obtain ⟨-, -, hcount, -, -, hslice⟩ := htold
  rw [ht] at hslice
  have hterm := hok (ht ▸ h0.term) (h0.log ▸ hlt) (h0.log ▸ hgt)
  rw [← h0.log, AppendEntries.view_eq hcount] at hterm
  obtain ⟨e, he, het⟩ := Option.map_eq_some_iff.1 hterm
  have hle := hn.ring.base_le
  obtain ⟨b, hb⟩ : ∃ b, x.log.base = b + 1 := ⟨x.log.base - 1, by omega⟩
  have heL : (g.llog x.currentTerm)[b]? = some e := by
    obtain ⟨rest, hrest⟩ := hslice
    have hpos : b = ae.prevLogIndex + (x.log.base - ae.prevLogIndex - 1) := by omega
    rw [hpos, ← List.getElem?_drop, ← hrest, List.getElem?_append_left (List.getElem?_eq_some_iff.1 he).1]
    exact he
  obtain ⟨e', he'⟩ : ∃ e', (g.log n)[b]? = some e' := ⟨_, List.getElem?_eq_getElem (by omega)⟩
  have hedge := hn.ring.edge
  rw [hb, termOf_succ he'] at hedge
  rw [hb]
  exact (h.coherent.log n).agree (h.coherent.llog _) he' heL (hedge.symm.trans het.symm)

end Mirrors

theorem mirrors_exec {S : Setup} (hids : badNode ∉ S.ids) {c : Cluster} {act : Action}
    (h : VoteInv S c ∧ ∃ g, Mirrors S g c) (hen : S.sys.enabled c act) (hok : S.MatchSteps c act) :
    VoteInv S (S.sys.exec c act) ∧ ∃ g, Mirrors S g (S.sys.exec c act) := by
  cases act with
  | call n io k =>
    obtain ⟨hfit, hedge⟩ := hok
    refine Setup.call_invariant (P := fun c => VoteInv S c ∧ ∃ g, Mirrors S g c) True h hen (fun _ => hfit) ?_ ?_
    · intro x
      rw [VoteInv.core_iff]
      exact and_congr_right (fun _ => exists_congr (fun g => Mirrors.core_iff))
    · rintro x y ⟨hv, g, hx⟩ - hheard hmv
      refine ⟨hv.move hheard hmv, ?_⟩
      have hstep : ∃ ℓ g', Next S False n ℓ g g' ∧ Mirrors S g' (c.set n y) := by
        refine hx.move hids hen.1 hv hheard hmv ?_ ?_
        · intro m ae hm hae ht _ h0 hlt hgt
          rw [hm] at hedge
          exact hx.agree_at_edge (hx.heard hv (hheard m hm).2).1 hae ht hedge h0 hlt hgt
        · intro m is hm his ht hd h0
          refine ⟨fun hz => ?_, fun hf => hf.elim⟩
          rw [hm] at hedge
          obtain ⟨src, dst, pl⟩ := m
          cases his
          rw [h0.log]
          exact hedge (ht ▸ h0.term) hd hz
      obtain ⟨-, g', -, hy⟩ := hstep
      exact ⟨g', hy⟩
  | restart n => exact hok.elim
  | crash n io k made => exact hok.elim

/-- **Log matching**: in every state of a run whose accepted messages fit the snapshot edge, two rings with entries of
one term at an index agree at every index up to it that both hold. -/
theorem log_matching (S : Setup) (hids : badNode ∉ S.ids) (hfresh : S.Fresh) (c : Cluster)
    (h : S.sys.Reachable S.MatchSteps c) (a b i : Nat) (ea eb : Entry) (ha : (c.node a).log.at? S.cfg i = some ea)
    (hb : (c.node b).log.at? S.cfg i = some eb) (ht : ea.term = eb.term) (j : Nat) (hj : j ≤ i) (xa xb : Entry)
    (hxa : (c.node a).log.at? S.cfg j = some xa) (hxb : (c.node b).log.at? S.cfg j = some xb) :
    xa.term = xb.term ∧ xa.type = xb.type ∧ xa.payload = xb.payload := by
  have hinv : VoteInv S c ∧ ∃ g, Mirrors S g c :=
    h.invariant (P := fun c => VoteInv S c ∧ ∃ g, Mirrors S g c) ⟨voteInv_init S, _, Mirrors.init hfresh⟩
      (fun _ _ hx hen hok => mirrors_exec hids hx hen hok)
  obtain ⟨-, g, hg⟩ := hinv
  obtain ⟨h1, h2, h3⟩ := (hg.node a).ring.at?_eq_some.1 ha
  obtain ⟨-, -, h4⟩ := (hg.node b).ring.at?_eq_some.1 hb
  obtain ⟨h5, -, h6⟩ := (hg.node a).ring.at?_eq_some.1 hxa
  obtain ⟨-, -, h7⟩ := (hg.node b).ring.at?_eq_some.1 hxb
  have hagree := (hg.coherent.log a).agree (hg.coherent.log b) h3 h4 ht
  have hsame : some xa = some xb := by
    rw [← h6, ← h7, ← List.getElem?_take_of_lt (show j - 1 < i - 1 + 1 by omega), hagree,
      List.getElem?_take_of_lt (by omega)]
  injection hsame with hsame
  rw [hsame]
  exact ⟨rfl, rfl, rfl⟩

instance (s : Server) : ∀ heard : Option Message, Decidable (s.EdgeOk heard)
  | some ⟨_, _, .appendEntries ae⟩ => inferInstanceAs (Decidable (s.currentTerm ≤ ae.term →
      ae.prevLogIndex < s.log.base → s.log.base < ae.prevLogIndex + ae.nEntries →
      (ae.view[s.log.base - ae.prevLogIndex - 1]?).map Entry.term = some s.log.baseTerm))
  | some ⟨_, _, .installSnapshot is⟩ => inferInstanceAs (Decidable (s.currentTerm ≤ is.term → is.done = true →
      is.lastIncludedIndex = 0 → s.log.base = 0))
  | some ⟨_, _, .requestVote _⟩ => inferInstanceAs (Decidable True)
  | some ⟨_, _, .requestVoteResp _⟩ => inferInstanceAs (Decidable True)
  | some ⟨_, _, .appendEntriesResp _⟩ => inferInstanceAs (Decidable True)
  | some ⟨_, _, .installSnapshotResp _⟩ => inferInstanceAs (Decidable True)
  | none => inferInstanceAs (Decidable True)

instance (S : Setup) (c : Cluster) : ∀ act : Action, Decidable (S.MatchSteps c act)
  | .call n io k => inferInstanceAs (Decidable (((c.node n).electing io k = true → (c.node n).currentTerm + 1 < 2 ^ 64) ∧
      (c.node n).EdgeOk k.heard))
  | .restart _ => inferInstanceAs (Decidable False)
  | .crash _ _ _ _ => inferInstanceAs (Decidable False)

/-- Node 1 replicates two entries to node 2, node 2 succeeds it and replicates a third one back. -/
def twoTerms : List Turn :=
  startAll ++ elect 1 2 5000 ++ [.submit 1 5000, .deliver 1 2 0 5000] ++ elect 2 3 20000 ++
  [.periodic 2 20000, .deliver 2 1 0 20000]

theorem log_matching_twoTerms :
    let c := trio.play trio.MatchSteps .at twoTerms trio.init
    ((c.node 1).log.at? trio.cfg 3).map Entry.term = some 2 ∧ ((c.node 2).log.at? trio.cfg 3).map Entry.term = some 2 ∧
      ∀ x1 x2, (c.node 1).log.at? trio.cfg 2 = some x1 → (c.node 2).log.at? trio.cfg 2 = some x2 →
        x1.type = x2.type := by
  intro c
  have hc : trio.sys.Reachable trio.MatchSteps c := Setup.reachable_play _ _ _
  have h1 : ((c.node 1).log.at? trio.cfg 3).map Entry.term = some 2 := by decide +kernel
  have h2 : ((c.node 2).log.at? trio.cfg 3).map Entry.term = some 2 := by decide +kernel
  refine ⟨h1, h2, ?_⟩
  intro x1 x2 hx1 hx2
  obtain ⟨e1, he1, ht1⟩ := Option.map_eq_some_iff.1 h1
  obtain ⟨e2, he2, ht2⟩ := Option.map_eq_some_iff.1 h2
  exact (log_matching trio (by decide) (fun _ => .inl rfl) c hc 1 2 3 e1 e2 he1 he2 (ht1.trans ht2.symm) 2 (by omega) x1 x2
    hx1 hx2).2.1

/-- Nodes 1 to 5, with two entries to a message. -/
def quintet : Setup where
  cfg := { defaultConfig with maxNodes := 5, maxAppendEntries := 2 }
  ids := [1, 2, 3, 4, 5]
  boot := fun _ => (0, badNode)
  nodup := by decide
  ne_nil := by decide
  le_max := by decide

/-- `a` becomes leader with the votes of `b` and `d`. -/
def electBy (a b d now : Nat) : List Turn :=
  [.periodic a now, .deliver a b 0 now, .deliver a d 0 now, .deliver b a 0 now, .deliver d a 0 now,
   .deliver a b 0 now, .deliver b a 0 now, .deliver a d 0 now, .deliver d a 0 now]

/-- Node 2 leads term 2 and keeps its no-op to itself; node 1, leading term 3, counts that entry as its own, commits and
compacts; node 2, leading term 4, sends a slice across node 1's edge; node 1, leading term 5, hands it on to node 4. -/
def crossedEdge : List Turn :=
  [.start 1 0, .start 2 0, .start 3 0, .start 4 0, .start 5 0] ++
  electBy 1 2 3 5000 ++ [.submit 1 5000, .deliver 1 2 0 5000] ++
  electBy 2 3 5 20000 ++ [.deliver 2 1 0 20000] ++
  electBy 1 3 4 40000 ++
  [.deliver 1 2 0 40000,
   .deliver 1 2 3 40000, .deliver 2 1 0 40000, .deliver 1 2 4 40000, .deliver 2 1 0 40000,
   .deliver 1 2 0 40000, .deliver 2 1 0 40000,
   .periodic 1 40000, .deliver 1 4 0 40000, .deliver 4 1 0 40000, .deliver 1 4 0 40000, .deliver 4 1 0 40000,
   .deliver 1 4 0 40000, .deliver 4 1 0 40000, .snapshot 1 40000] ++
  electBy 2 3 5 60000 ++
  [.periodic 2 60000, .deliver 2 1 0 60000, .deliver 1 2 0 60000, .deliver 2 1 0 60000] ++
  electBy 1 3 4 80000 ++
  [.periodic 1 80000, .deliver 1 4 0 80000, .deliver 4 1 0 80000, .deliver 1 4 0 80000]

/-- **Nodes 2 and 4 hold an entry of term 4 at index 4 and differ at index 3.** -/
theorem log_matching_fails_across_edge :
    let c := quintet.play NoRestart (.saving [7]) crossedEdge quintet.init
    quintet.sys.Reachable NoRestart c ∧
      ((c.node 2).log.at? quintet.cfg 4).map Entry.term = some 4 ∧
      ((c.node 4).log.at? quintet.cfg 4).map Entry.term = some 4 ∧
      ((c.node 2).log.at? quintet.cfg 3).map Entry.term = some 2 ∧
      ((c.node 4).log.at? quintet.cfg 3).map Entry.term = some 3 :=
  ⟨Setup.reachable_play _ _ _, by decide +kernel⟩

end Raft
end FloodEws
