import FloodEws.Elect
/-!
# Nested — the cluster with callbacks that submit

A cluster whose servers are called as in `Cluster`, or with callbacks that submit while the call runs.  A node can go down
inside such a call too.

What such a call does to votes and terms is sound even when the callback of `become_leader` appends something, and the no-op
after it gets a wrong index.  So there is at most one leader in each term (`nested_one_leader`).
-/
namespace FloodEws
namespace Raft

namespace Server

variable {cfg : Config} {io : Io} {fit : Prop} {heard : Option Message} {start s : Server}

/-! ## Calls whose callbacks submit as they like -/

/-- A move, or one half of becoming leader: up to the callback, and from it on, with whatever last index was read. -/
inductive Stride (cfg : Config) (io : Io) (fit : Prop) (heard : Option Message) (start : Server) : Server → Server → Prop where
  | move {s s' : Server} (h : Move cfg io fit heard start s s') : Stride cfg io fit heard start s s'
  | rise (s : Server) (hs : s.state = .candidate) (hm : s.majority ≤ s.votesGranted) :
      Stride cfg io fit heard start s { s with state := .leader, calls := .onStateChange .candidate .leader :: s.calls }
  | lead (s : Server) (last : Nat) (hs : s.state = .leader) : Stride cfg io fit heard start s.core (s.lead cfg io last).core

/-- A chain of strides. -/
abbrev Strides (cfg : Config) (io : Io) (fit : Prop) (heard : Option Message) (start : Server) : Server → Server → Prop :=
  Relation.ReflTransGen (Stride cfg io fit heard start)

theorem Strides.of_moves {x y : Server} (h : Moves cfg io fit heard start x y) : Strides cfg io fit heard start x y :=
  Relation.ReflTransGen.mono (fun _ _ => .move) _ _ h

/-- The rest of `become_leader` touches the log and, of the peers, only how far they have come. -/
theorem lead_core (cfg : Config) (io : Io) (last : Nat) (s : Server) :
    ∃ log nodes evs, (∀ e ∈ evs, e.quiet = true) ∧ nodes.map Peer.ballot = s.core.nodes.map Peer.ballot ∧
      (s.lead cfg io last).core = { s.core.after evs with log := log, nodes := nodes } := by
  have hkeep : ∀ (now : Nat) (ps : List Peer),
      ((ps.map (fun p : Peer => { p with lastContact := now })).map Peer.key).map Peer.ballot = ps.map Peer.ballot := by
    intro now ps
    rw [List.map_map, List.map_map]
    rfl
  have hmatch : ∀ (n k : Nat) (ps : List Peer),
      (modifyNode n (fun p : Peer => { p with matchIndex := k }) ps).map Peer.ballot = ps.map Peer.ballot :=
    fun n k ps => map_modifyNode _ (by intro p; rfl) ps
  have hreset : ∀ (l : Nat) (ps : List Peer),
      (ps.map (fun p : Peer => { p with nextIndex := l, matchIndex := 0 })).map Peer.ballot = ps.map Peer.ballot := by
    intro l ps
    rw [List.map_map]
    rfl
  have hcore : s.core.nodes.map Peer.ballot = s.nodes.map Peer.ballot := by
    show (s.nodes.map Peer.key).map Peer.ballot = _
    rw [List.map_map]
    rfl
  unfold lead
  dsimp only
  split
  · refine ⟨_, _, [.persistLogAppend _], by simp [Event.quiet], ?_, rfl⟩
    rw [hcore]
    exact (hkeep _ _).trans ((hmatch _ _ _).trans ((hmatch _ _ _).trans (hreset _ _)))
  · refine ⟨_, _, [], by simp, ?_, rfl⟩
    rw [hcore]
    exact (hkeep _ _).trans ((hmatch _ _ _).trans (hreset _ _))

namespace Underway

/-- **A call under way is a chain of strides.** -/
theorem strides {r : Server × List Frame} (h : Underway cfg io fit heard start r) :
    Strides cfg io fit heard start start.core r.1.core ∧ ∀ f ∈ r.2, r.1.Steady f := by
  cases h with
  | steady h hfs => exact ⟨.of_moves h, fun f hf => (hfs f hf).2⟩
  | @leading x fs rest h hs hm hw hrest hfs =>
    have hne : x.state ≠ .leader := by rw [hs]; decide
    have hleads : x.enterLeader.1.state = .leader ∧ Stride cfg io fit heard start x.core x.enterLeader.1.core := by
      have hm' : x.core.majority ≤ x.votesGranted := by simpa [majority, core] using hm
      have hstride : Stride cfg io fit heard start x.core _ := .rise x.core hs hm'
      unfold enterLeader setState
      dsimp only
      rw [if_neg hne, hs]
      exact ⟨rfl, hstride⟩
    refine ⟨(Strides.of_moves h).tail hleads.2, fun f hf => ?_⟩
    have hcases : f = .callback ∨ f = .lead x.log.lastIndex ∨ f = .applying := by
      rcases hfs with rfl | rfl
      · rcases List.mem_cons.1 hf with rfl | hf
        · exact .inl rfl
        · exact .inr ((List.mem_cons.1 hf).imp_right (hrest f))
      · exact .inr ((List.mem_cons.1 hf).imp_right (hrest f))
    rcases hcases with rfl | rfl | rfl
    · trivial
    · exact hleads.1
    · trivial

end Underway

/-- What is left of a call goes on by strides. -/
theorem strides_go {x : Server} {f : Frame} {rest : List Frame} (h : Strides cfg io fit heard start start.core x.core)
    (hfs : ∀ g ∈ f :: rest, x.Steady g) :
    Strides cfg io fit heard start start.core (x.resume cfg io f).1.core ∧
      ∀ g ∈ (x.resume cfg io f).2 ++ rest, (x.resume cfg io f).1.Steady g := by
  have hf := hfs f List.mem_cons_self
  have hrest : ∀ g ∈ rest, x.Steady g := fun g hg => hfs g (List.mem_cons_of_mem f hg)
  cases hp : f.plain with
  | true =>
    obtain ⟨hmoves, hstate, hframes⟩ : Moves cfg io fit heard start x.core (x.resume cfg io f).1.core ∧ _ ∧ _ :=
      resume_moves hp hf
    refine ⟨h.trans (Strides.of_moves hmoves), fun g hg => ?_⟩
    rcases List.mem_append.1 hg with hg | hg
    · exact (hframes g hg).2.of_state hstate
    · exact (hrest g hg).of_state hstate
  | false =>
    cases f with
    | lead last =>
      obtain ⟨log, nodes, evs, -, -, he⟩ := lead_core cfg io last x
      have hstate : (x.lead cfg io last).core.state = x.state := by rw [he]; rfl
      refine ⟨h.tail (.lead x last hf), fun g hg => ?_⟩
      rcases List.mem_append.1 hg with hg | hg
      · cases hg
      · exact (hrest g hg).of_state hstate
    | _ => cases hp

theorem strides_run : ∀ (answers : List Answer) {x : Server × List Frame},
    Strides cfg io fit heard start start.core x.1.core → (∀ f ∈ x.2, x.1.Steady f) →
    ((segments cfg).sys start).Legal Sys.always (answers.map (Answer.act io)) x →
    Strides cfg io fit heard start start.core (((segments cfg).sys start).run (answers.map (Answer.act io)) x).1.core
  | [], _, h, _, _ => h
  | .go :: answers, (x, []), _, _, hlegal => absurd rfl hlegal.1
  | .go :: answers, (x, f :: rest), h, hfs, hlegal => by
    obtain ⟨hgo, hsteady⟩ := strides_go h hfs
    exact strides_run answers hgo hsteady hlegal.2.2
  | .submit type data :: answers, (x, fs), h, hfs, hlegal => by
    obtain ⟨hmoves, hstate, hframes⟩ : Moves cfg io fit heard start x.core _ ∧ _ ∧ _ :=
      Underway.enterSubmit_moves type data x
    refine strides_run answers (h.trans (Strides.of_moves hmoves)) (fun f hf => ?_) hlegal.2.2
    rcases List.mem_append.1 hf with hf | hf
    · obtain rfl := hframes f hf
      trivial
    · exact (hfs f hf).of_state hstate

/-- **A call whose callbacks submit is a chain of strides**, whatever they submit. -/
theorem answered_strides {k : Call} {answers : List Answer}
    (hf : fit → s.electing io k = true → s.currentTerm + 1 < 2 ^ 64) (h : s.Answers cfg io k answers) :
    Strides cfg io fit k.heard s s.core (s.answered cfg io k answers).1.core := by
  have henter : Underway cfg io fit k.heard s (s.enter cfg io (.call k)) := .enter hf
  obtain ⟨hstrides, hsteady⟩ := henter.strides
  exact strides_run answers hstrides hsteady h.1

theorem Stride.calls_grow {x y : Server} (h : Stride cfg io fit heard start x y) : ∃ evs, y.calls = evs ++ x.calls := by
  cases h with
  | move h => exact Move.calls_grow h
  | rise hs hm => exact ⟨[.onStateChange .candidate .leader], rfl⟩
  | lead x last hs =>
    obtain ⟨log, nodes, evs, -, -, he⟩ := lead_core cfg io last x
    exact ⟨evs, by rw [he]; rfl⟩

/-- The record of a call only grows. -/
theorem answered_grow {k : Call} {answers : List Answer} (h : s.Answers cfg io k answers) :
    ∃ evs, (s.answered cfg io k answers).1.calls = evs ++ s.calls := by
  have hrun : ∀ y, Strides cfg io False k.heard s s.core y → ∃ evs, y.calls = evs ++ s.calls := by
    intro y hy
    induction hy with
    | refl => exact ⟨[], rfl⟩
    | tail _ hstep ih =>
      obtain ⟨evs, he⟩ := ih
      obtain ⟨evs', he'⟩ := Stride.calls_grow hstep
      exact ⟨evs' ++ evs, by rw [he', he, List.append_assoc]⟩
  have hcore := hrun _ (answered_strides (fun hf : False => hf.elim) h)
  exact hcore

end Server

/-! ## The cluster -/

/-- An action of the cluster; a call whose callbacks answer so; or such a call in which the node goes down, when it has made
`made` callbacks. -/
inductive NestedAct where
  | plain (a : Action)
  | nested (n : Nat) (io : Io) (k : Call) (answers : List Answer)
  | cut (n : Nat) (io : Io) (k : Call) (answers : List Answer) (made : Nat)

/-- The cluster with callbacks that submit. -/
def Setup.nested (S : Setup) : Sys Cluster NestedAct where
  init := S.init
  enabled c
    | .plain a => S.sys.enabled c a
    | .nested n io k answers => S.Callable c n k ∧ (c.node n).Answers S.cfg io k answers
    | .cut n io k answers _ => S.Callable c n k ∧ (c.node n).Answers S.cfg io k answers
  exec c
    | .plain a => S.sys.exec c a
    | .nested n io k answers => c.set n ((c.node n).answered S.cfg io k answers).1
    | .cut n io k answers made =>
      c.set n (S.rebuild n (callsAfter made (c.node n).calls ((c.node n).answered S.cfg io k answers).1.calls))

/-- What it submits is allowed. -/
def Answer.Meets (ok : Call → Prop) : Answer → Prop
  | .go => True
  | .submit type data => ok (.submit type data)

/-- The action meets `ok`, and so do the submits of its callbacks. -/
def Nests (ok : Cluster → Action → Prop) (c : Cluster) : NestedAct → Prop
  | .plain a => ok c a
  | .nested n io k answers => ok c (.call n io k) ∧ ∀ ans ∈ answers, ans.Meets (fun k => ok c (.call n io k))
  | .cut n io k answers made =>
    ok c (.crash n io k made) ∧ ∀ ans ∈ answers, ans.Meets (fun k => ok c (.crash n io k made))

/-- The callback of `become_leader` is given no index. -/
def Setup.LeadsAlone (S : Setup) (c : Cluster) : NestedAct → Prop
  | .plain _ => True
  | .nested n io k answers => ((Server.segments S.cfg).sys (c.node n)).Legal (Server.Unsubmitted S.cfg)
      (answers.map (Answer.act io)) ((c.node n).enter S.cfg io (.call k))
  | .cut n io k answers _ => ((Server.segments S.cfg).sys (c.node n)).Legal (Server.Unsubmitted S.cfg)
      (answers.map (Answer.act io)) ((c.node n).enter S.cfg io (.call k))

section

variable {S : Setup} {c : Cluster} {n : Nat} {io : Io} {k : Call} {answers : List Answer}

/-- Every run of the cluster is one of these. -/
theorem nested_reaches {ok : Cluster → Action → Prop} {c c' : Cluster} (h : S.sys.Reaches ok c c') :
    S.nested.Reaches (Nests ok) c c' :=
  (h.simulated id (P := fun _ => True) (fun _ a _ hen hok => ⟨.single ⟨.plain a, hen, hok, rfl⟩, trivial⟩) trivial).1

/-! ### Votes and terms -/

/-- Callbacks that only report, and nothing else that matters for elections. -/
theorem VoterOk.report {G : Nat → Nat → Nat → Prop} {a : Nat} {s s' : Server} (h : VoterOk S G a s) (evs : List Event)
    (hq : ∀ e ∈ evs, e.quiet = true) (hc : s'.calls = evs ++ s.calls) (hself : s'.selfId = s.selfId)
    (hb : s'.nodes.map Peer.ballot = s.nodes.map Peer.ballot) (hv : s'.votedFor = s.votedFor)
    (hst : s'.state = s.state ∧ s'.currentTerm = s.currentTerm ∧ s'.votesGranted = s.votesGranted) : VoterOk S G a s' := by
  have hplain : ∀ e ∈ evs, e.plain = true := fun e he => Event.plain_of_quiet (hq e he)
  exact h.frame (h.synced.plain evs hplain hc hst.2.1 hv) hself hb (.inr hst)
    (fun t v m hm => .inl (send_of_silent hc (fun e he => Event.silent_of_plain (hplain e he)) hm))

theorem VoterOk.rise {G : Nat → Nat → Nat → Prop} {a : Nat} {s : Server} (h : VoterOk S G a s) (hs : s.state = .candidate)
    (hm : s.majority ≤ s.votesGranted) :
    VoterOk S G a { s with state := .leader, calls := .onStateChange .candidate .leader :: s.calls } := by
  have hcalled : VoterOk S G a { s with calls := .onStateChange .candidate .leader :: s.calls } :=
    h.report [.onStateChange .candidate .leader] (by simp [Event.quiet]) rfl rfl rfl rfl ⟨rfl, rfl, rfl⟩
  exact VoterOk.promote hcalled hs hm rfl

theorem VoterOk.lead {G : Nat → Nat → Nat → Prop} {a : Nat} {s : Server} (h : VoterOk S G a s.core) (io : Io) (last : Nat) :
    VoterOk S G a (s.lead S.cfg io last).core := by
  obtain ⟨log, nodes, evs, hq, hb, he⟩ := Server.lead_core S.cfg io last s
  rw [he]
  exact h.report evs hq rfl rfl hb rfl ⟨rfl, rfl, rfl⟩

/-- A link at one node whose own part in elections stays sound keeps elections sound. -/
theorem VoteInv.link {x y : Server} {evs : List Event} (hx : VoteInv S (c.set n x)) (he : y.calls = evs ++ x.calls)
    (hown : VoterOk S (S.Granted (c.set n y)) n x → VoterOk S (S.Granted (c.set n y)) n y) : VoteInv S (c.set n y) := by
  intro a
  have hG : ∀ v t b, S.Granted (c.set n x) v t b → S.Granted (c.set n y) v t b := by
    intro v t b hv
    rw [← Cluster.set_set c n x y]
    exact hv.set (by rw [Cluster.set_node_self]; exact he)
  have ha := (hx a).mono hG
  by_cases han : a = n
  · subst han
    rw [Cluster.set_node_self] at ha ⊢
    exact hown ha
  · rw [Cluster.set_node_ne han] at ha ⊢
    exact ha

theorem VoteInv.stride {heard : Option Message} {start x y : Server} (hx : VoteInv S (c.set n x))
    (hheard : ∀ m, heard = some m → m.recipient = n ∧ S.InFlight (c.set n x) m)
    (hst : Server.Stride S.cfg io True heard start x y) : VoteInv S (c.set n y) := by
  obtain ⟨evs, he⟩ := Server.Stride.calls_grow hst
  cases hst with
  | move hmv => exact hx.move hheard hmv
  | rise _ hs hm => exact hx.link he (fun h => h.rise hs hm)
  | lead x last hs => exact hx.link he (fun h => h.lead io last)

theorem VoteInv.answered (h : VoteInv S c) (hk : S.Callable c n k) (hans : (c.node n).Answers S.cfg io k answers)
    (hfit : (c.node n).electing io k = true → (c.node n).currentTerm + 1 < 2 ^ 64) :
    VoteInv S (c.set n ((c.node n).answered S.cfg io k answers).1) :=
  Setup.chain_invariant h hk.heard (fun _ _ => Server.Stride.calls_grow)
    (Server.answered_strides (fun _ : True => hfit) hans) (fun _ => VoteInv.core_iff)
    (fun _ _ hx _ hheard hst => hx.stride hheard hst)

theorem voteInv_nested {act : NestedAct} (h : VoteInv S c) (hen : S.nested.enabled c act) (hok : Nests S.TermsFit c act) :
    VoteInv S (S.nested.exec c act) := by
  cases act with
  | plain a => exact voteInv_exec h hen hok
  | nested n io k answers => exact h.answered hen.1 hen.2 hok.1
  | cut n io k answers made =>
    obtain ⟨evs, he⟩ := Server.answered_grow hen.2
    exact h.cut (h.answered hen.1 hen.2 hok.1) he made

theorem voteInv_nested_reachable (h : S.nested.Reachable (Nests S.TermsFit) c) : VoteInv S c :=
  h.invariant (voteInv_init S) (fun _ _ hx hen hok => voteInv_nested hx hen hok)

end

/-! ## How a call runs -/

/-- The callbacks of a call return at once, or answer so; or the node goes down when it has made `made` of them. -/
inductive Manner where
  | whole
  | nested (answers : List Answer)
  | cut (answers : List Answer) (made : Nat)

namespace Manner

def act (n : Nat) (io : Io) (k : Call) : Manner → NestedAct
  | whole => .plain (.call n io k)
  | nested answers => .nested n io k answers
  | cut answers made => .cut n io k answers made

/-- The answers take the call to its end. -/
def Possible (cfg : Config) (io : Io) (k : Call) (s : Server) : Manner → Prop
  | whole => True
  | nested answers => s.Answers cfg io k answers
  | cut answers _ => s.Answers cfg io k answers

def answers : Manner → List Answer
  | whole => []
  | nested answers => answers
  | cut answers _ => answers

/-- The server then. -/
def after (S : Setup) (n : Nat) (io : Io) (k : Call) (s : Server) : Manner → Server
  | whole => s.perform S.cfg io k
  | nested answers => (s.answered S.cfg io k answers).1
  | cut answers made => S.rebuild n (callsAfter made s.calls (s.answered S.cfg io k answers).1.calls)

variable {S : Setup} {n : Nat} {io : Io} {k l : Call}

theorem exec_act (c : Cluster) (how : Manner) :
    S.nested.exec c (how.act n io k) = c.set n (how.after S n io k (c.node n)) := by
  cases how <;> rfl

theorem enabled_act {c : Cluster} {how : Manner} (hk : S.Callable c n k) (hp : how.Possible S.cfg io k (c.node n)) :
    S.nested.enabled c (how.act n io k) := by
  cases how with
  | whole => exact hk
  | nested answers => exact ⟨hk, hp⟩
  | cut answers made => exact ⟨hk, hp⟩

/-- The record of the node only grows. -/
theorem after_grow {s : Server} (how : Manner) (hp : how.Possible S.cfg io k s) :
    ∃ evs, (how.after S n io k s).calls = evs ++ s.calls := by
  cases how with
  | whole =>
    obtain ⟨evs, he⟩ := Server.Moves.calls_grow (Server.perform_moves S.cfg io False s k (fun hf => hf.elim))
    exact ⟨evs, he⟩
  | nested answers => exact Server.answered_grow hp
  | cut answers made =>
    obtain ⟨evs, he⟩ := Server.answered_grow hp
    obtain ⟨made', -, hcut, -⟩ := callsAfter_eq made s.calls evs
    refine ⟨made', ?_⟩
    show callsAfter made s.calls (s.answered S.cfg io k answers).1.calls = _
    rw [he, hcut]

/-- Calls that do the same up to the first callback and as a whole run alike. -/
theorem after_congr {s : Server} (hperform : s.perform S.cfg io k = s.perform S.cfg io l)
    (henter : s.enter S.cfg io (.call k) = s.enter S.cfg io (.call l)) (how : Manner) :
    how.after S n io k s = how.after S n io l s := by
  cases how with
  | whole => exact hperform
  | nested answers =>
    unfold after Server.answered
    rw [henter]
  | cut answers made =>
    unfold after Server.answered
    rw [henter]

theorem possible_congr {cfg : Config} {s : Server} (henter : s.enter cfg io (.call k) = s.enter cfg io (.call l))
    (how : Manner) : how.Possible cfg io k s ↔ how.Possible cfg io l s := by
  cases how with
  | whole => exact Iff.rfl
  | nested answers =>
    unfold Possible Server.Answers Server.answered
    rw [henter]
  | cut answers made =>
    unfold Possible Server.Answers Server.answered
    rw [henter]

end Manner

theorem Answer.Meets.mono {ok ok' : Call → Prop} (h : ∀ k, ok k → ok' k) {ans : Answer} (ha : ans.Meets ok) :
    ans.Meets ok' := by
  cases ans with
  | go => trivial
  | submit type data => exact h _ ha

theorem Nests.mono {ok ok' : Cluster → Action → Prop} (h : ∀ c a, ok c a → ok' c a) {c : Cluster} {act : NestedAct}
    (ha : Nests ok c act) : Nests ok' c act := by
  cases act with
  | plain a => exact h c a ha
  | nested n io k answers => exact ⟨h c _ ha.1, fun ans hans => (ha.2 ans hans).mono (fun _ => h c _)⟩
  | cut n io k answers made => exact ⟨h c _ ha.1, fun ans hans => (ha.2 ans hans).mono (fun _ => h c _)⟩

theorem Answer.Meets.and {ok ok' : Call → Prop} {ans : Answer} (h : ans.Meets ok) (h' : ans.Meets ok') :
    ans.Meets (fun k => ok k ∧ ok' k) := by
  cases ans with
  | go => trivial
  | submit type data => exact ⟨h, h'⟩

theorem Nests.and {ok ok' : Cluster → Action → Prop} {c : Cluster} {act : NestedAct} (h : Nests ok c act)
    (h' : Nests ok' c act) : Nests (fun c a => ok c a ∧ ok' c a) c act := by
  cases act with
  | plain a => exact ⟨h, h'⟩
  | nested n io k answers => exact ⟨⟨h.1, h'.1⟩, fun ans hans => (h.2 ans hans).and (h'.2 ans hans)⟩
  | cut n io k answers made => exact ⟨⟨h.1, h'.1⟩, fun ans hans => (h.2 ans hans).and (h'.2 ans hans)⟩

/-! ### Runs can be played -/

instance decidableAnswered (cfg : Config) (io : Io) (s : Server)
    (ok : Server × List Frame → Interrupted.Act Op Io → Prop) [∀ x a, Decidable (ok x a)] :
    ∀ (answers : List Answer) (x : Server × List Frame),
      Decidable (((Server.segments cfg).sys s).Legal ok (answers.map (Answer.act io)) x)
  | [], _ => inferInstanceAs (Decidable True)
  | .go :: answers, x =>
    have := decidableAnswered cfg io s ok answers (((Server.segments cfg).sys s).exec x (Answer.act io .go))
    inferInstanceAs (Decidable (x.2 ≠ [] ∧ ok x _ ∧ _))
  | .submit type data :: answers, x =>
    have := decidableAnswered cfg io s ok answers (((Server.segments cfg).sys s).exec x (Answer.act io (.submit type data)))
    decidable_of_iff (x.2.head? = some .callback ∧ ok x (Answer.act io (.submit type data)) ∧ _)
      (and_congr_left' (by
        rw [List.head?_eq_some_iff]
        exact ⟨fun ⟨rest, h⟩ => ⟨⟨type, data, rfl⟩, .callback, rest, h, rfl⟩, fun ⟨_, f, rest, h, hf⟩ => ⟨rest, hf ▸ h⟩⟩))

instance decidableUnsubmitted (cfg : Config) : ∀ (x : Server × List Frame) (a : Interrupted.Act Op Io),
    Decidable (Server.Unsubmitted cfg x a)
  | (s, .callback :: .lead _ :: _), .reenter _ op => inferInstanceAs (Decidable (s.given cfg op = none))
  | (_, .callback :: .lead _ :: _), .call _ _ => inferInstanceAs (Decidable True)
  | (_, .callback :: .lead _ :: _), .go _ => inferInstanceAs (Decidable True)
  | (_, []), _ => inferInstanceAs (Decidable True)
  | (_, [.callback]), _ => inferInstanceAs (Decidable True)
  | (_, .callback :: .callback :: _), _ => inferInstanceAs (Decidable True)
  | (_, .callback :: .applying :: _), _ => inferInstanceAs (Decidable True)
  | (_, .callback :: .pipeline _ :: _), _ => inferInstanceAs (Decidable True)
  | (_, .lead _ :: _), _ => inferInstanceAs (Decidable True)
  | (_, .applying :: _), _ => inferInstanceAs (Decidable True)
  | (_, .pipeline _ :: _), _ => inferInstanceAs (Decidable True)

instance decidableAlways (x : Server × List Frame) (a : Interrupted.Act Op Io) : Decidable (Sys.always x a) :=
  inferInstanceAs (Decidable True)

instance decidableAnswers (cfg : Config) (io : Io) (k : Call) (answers : List Answer) (s : Server) :
    Decidable (s.Answers cfg io k answers) :=
  inferInstanceAs (Decidable (_ ∧ _))

instance decidablePossible (cfg : Config) (io : Io) (k : Call) (s : Server) :
    ∀ how : Manner, Decidable (how.Possible cfg io k s)
  | .whole => inferInstanceAs (Decidable True)
  | .nested answers => inferInstanceAs (Decidable (s.Answers cfg io k answers))
  | .cut answers _ => inferInstanceAs (Decidable (s.Answers cfg io k answers))

instance decidableLeadsAlone (S : Setup) (c : Cluster) : ∀ act : NestedAct, Decidable (S.LeadsAlone c act)
  | .plain _ => inferInstanceAs (Decidable True)
  | .nested n io k answers => inferInstanceAs (Decidable (((Server.segments S.cfg).sys (c.node n)).Legal
      (Server.Unsubmitted S.cfg) (answers.map (Answer.act io)) ((c.node n).enter S.cfg io (.call k))))
  | .cut n io k answers _ => inferInstanceAs (Decidable (((Server.segments S.cfg).sys (c.node n)).Legal
      (Server.Unsubmitted S.cfg) (answers.map (Answer.act io)) ((c.node n).enter S.cfg io (.call k))))

instance decidableMeetsAnswer (ok : Call → Prop) [∀ k, Decidable (ok k)] : ∀ ans : Answer, Decidable (ans.Meets ok)
  | .go => inferInstanceAs (Decidable True)
  | .submit type data => inferInstanceAs (Decidable (ok (.submit type data)))

instance decidableNests (ok : Cluster → Action → Prop) [∀ c a, Decidable (ok c a)] (c : Cluster) :
    ∀ act : NestedAct, Decidable (Nests ok c act)
  | .plain a => inferInstanceAs (Decidable (ok c a))
  | .nested _ _ _ _ => inferInstanceAs (Decidable (_ ∧ _))
  | .cut _ _ _ _ _ => inferInstanceAs (Decidable (_ ∧ _))

end Raft
end FloodEws
