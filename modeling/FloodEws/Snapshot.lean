import FloodEws.Images
import FloodEws.Schedule
/-!
# Snapshot — what a follower loads, some server saved

The cluster is run together with one bit of history per node: the chunk it stored last, forgotten when the node takes a
snapshot of its own or goes down.  As long as every chunk continues the one before, and no node becomes leader with a
snapshot half put together, the images of all leaders stay snapshots that were saved, and so is what is loaded.
Without either, chunks of two snapshots mix in one buffer, or a hole stays in it.
-/
namespace FloodEws
namespace Raft

namespace Setup

/-- Some server's state machine was serialised to these bytes when the server had applied up to `i`. -/
def Saved (S : Setup) (c : Cluster) (i : Nat) (bytes : List Byte) : Prop :=
  ∃ a ∈ S.ids, .snapshotSave i bytes ∈ (c.node a).calls

/-- A chunk on its way to `n`. -/
def Incoming (S : Setup) (c : Cluster) (n : Nat) (is : InstallSnapshot) : Prop :=
  ∃ m, m.recipient = n ∧ m.payload = .installSnapshot is ∧ S.InFlight c m

theorem Saved.set {S : Setup} {c : Cluster} {n i : Nat} {bytes : List Byte} (h : S.Saved c i bytes) {s : Server}
    {evs : List Event} (hc : s.calls = evs ++ (c.node n).calls) : S.Saved (c.set n s) i bytes := by
  obtain ⟨a, ha, hev⟩ := h
  refine ⟨a, ha, ?_⟩
  by_cases han : a = n
  · subst han
    rw [Cluster.set_node_self, hc]
    exact List.mem_append_right evs hev
  · rw [Cluster.set_node_ne han]
    exact hev

theorem Incoming.set {S : Setup} {c : Cluster} {n a : Nat} {is : InstallSnapshot} (h : S.Incoming c a is) {s : Server}
    {evs : List Event} (hc : s.calls = evs ++ (c.node n).calls) : S.Incoming (c.set n s) a is := by
  obtain ⟨m, h1, h2, h3⟩ := h
  exact ⟨m, h1, h2, h3.set hc⟩

end Setup

/-- **The images behind a cluster**: what every node hands out, and what the buffers of `c₀` hold when `last` are the
chunks stored last. -/
structure Faithful (S : Setup) (img : Nat → Nat → Nat → List Byte) (last : Nat → Option InstallSnapshot)
    (c₀ c : Cluster) : Prop where
  hands : ∀ a, Hands S.cfg (S.Saved c) (img a) a (c.node a)
  buffers : ∀ a, Buffer S.cfg (S.Saved c) img (S.Incoming c a) (last a) (c₀.node a)

section
variable {S : Setup} {img : Nat → Nat → Nat → List Byte} {last : Nat → Option InstallSnapshot} {c₀ c : Cluster}

/-- A chunk comes from another node of the cluster, and is a slice of that node's image. -/
theorem Faithful.incoming (h : Faithful S img last c₀ c) {n : Nat} {is : InstallSnapshot} (hi : S.Incoming c n is) :
    is.leaderId ∈ S.ids ∧ n ≠ is.leaderId ∧ Buffer.Cut S.cfg (S.Saved c) img is := by
  obtain ⟨m, rfl, his, b, hb, hm⟩ := hi
  have hc := (h.hands b).sent m hm is his
  have hl := hc.leader
  rw [hl]
  exact ⟨hb, hc.other, by rw [Buffer.Cut, hl]; exact ⟨hc.slice, hc.saved⟩⟩

/-- Two nodes make a majority of two. -/
theorem not_alone {n a : Nat} (hn : n ∈ S.ids) (ha : a ∈ S.ids) (hne : n ≠ a) {G : Nat → Nat → Nat → Prop} {x : Server}
    (hx : VoterOk S G n x) : ¬ x.majority ≤ 1 := by
  intro hm
  have hlen := hx.length_nodes
  have hpos := List.length_pos_of_mem hn
  unfold Server.majority at hm
  obtain ⟨b, hb⟩ := List.length_eq_one_iff.1 (by omega : S.ids.length = 1)
  rw [hb, List.mem_singleton] at hn ha
  exact hne (hn.trans ha.symm)

end

/-! ## One call -/

namespace Server

/-- The chunk a call stores: the one it handles, unless its term is past. -/
def chunkOf (s : Server) : Call → Option InstallSnapshot
  | .handle ⟨_, _, .installSnapshot is⟩ => if is.term < s.currentTerm then none else some is
  | _ => none

/-- The call handles the vote that makes a candidate leader. -/
def winning (s : Server) : Call → Bool
  | .handle ⟨sender, _, .requestVoteResp rr⟩ => !rr.preVote && rr.voteGranted && decide (rr.term = s.currentTerm) &&
      decide (s.state = .candidate) && (s.nodeById sender).any (fun p => !p.voteGranted) &&
      decide (s.majority ≤ s.votesGranted + 1)
  | _ => false

theorem chunkOf_handle {s : Server} {m : Message} {is : InstallSnapshot} (h : m.payload = .installSnapshot is)
    (ht : s.currentTerm ≤ is.term) : s.chunkOf (.handle m) = some is := by
  obtain ⟨a, b, p⟩ := m
  have h : p = .installSnapshot is := h
  subst h
  exact if_neg (Nat.not_lt.2 ht)

theorem chunkOf_eq_some {s : Server} {k : Call} {is : InstallSnapshot} (h : s.chunkOf k = some is) :
    ∃ m, k = .handle m ∧ m.payload = .installSnapshot is ∧ s.currentTerm ≤ is.term := by
  unfold chunkOf at h
  split at h
  · rename_i a b is'
    split at h
    · cases h
    · rename_i ht
      injection h with h
      subst h
      exact ⟨_, rfl, rfl, Nat.not_lt.1 ht⟩
  · cases h

end Server

theorem Call.heard_eq_some {k : Call} {m : Message} (h : k.heard = some m) : k = .handle m := by
  cases k with
  | handle m' => injection h with h; rw [h]
  | _ => cases h

/-- The state inside a call at `n`, made in the cluster `c`. -/
def MidCall (S : Setup) (last : Nat → Option InstallSnapshot) (c : Cluster) (n : Nat) (k : Call) (c' : Cluster) : Prop :=
  VoteInv S c' ∧ ∃ img, Faithful S img last c c' ∧ Phase S.cfg (S.Saved c') k.heard (c.node n) (c'.node n)

section
variable {S : Setup} {last : Nat → Option InstallSnapshot} {c : Cluster} {n : Nat} {io : Io} {k : Call}

theorem MidCall.core_iff {x : Server} : MidCall S last c n k (c.set n x) ↔ MidCall S last c n k (c.set n x.core) := by
  have hcalls : ∀ a, ((c.set n x.core).node a).calls = ((c.set n x).node a).calls := by
    intro a
    by_cases ha : a = n
    · subst ha; rw [Cluster.set_node_self, Cluster.set_node_self]; rfl
    · rw [Cluster.set_node_ne ha, Cluster.set_node_ne ha]
  have hsaved : S.Saved (c.set n x.core) = S.Saved (c.set n x) := by
    funext i b
    simp only [Setup.Saved, hcalls]
  have hin : S.Incoming (c.set n x.core) = S.Incoming (c.set n x) := by
    funext a is
    simp only [Setup.Incoming, Setup.InFlight, Server.sent, hcalls]
  unfold MidCall
  refine and_congr VoteInv.core_iff (exists_congr (fun img => and_congr ?_ ?_))
  · have hhands : (∀ a, Hands S.cfg (S.Saved (c.set n x)) (img a) a ((c.set n x).node a)) ↔
        ∀ a, Hands S.cfg (S.Saved (c.set n x.core)) (img a) a ((c.set n x.core).node a) := by
      rw [hsaved]
      refine forall_congr' (fun a => ?_)
      by_cases ha : a = n
      · subst ha
        rw [Cluster.set_node_self, Cluster.set_node_self]
        exact Hands.core_iff.symm
      · rw [Cluster.set_node_ne ha, Cluster.set_node_ne ha]
    constructor
    · intro h
      exact ⟨hhands.1 h.hands, by rw [hsaved, hin]; exact h.buffers⟩
    · intro h
      exact ⟨hhands.2 h.hands, by rw [← hsaved, ← hin]; exact h.buffers⟩
  · rw [hsaved, Cluster.set_node_self, Cluster.set_node_self]
    exact Phase.core_iff.symm

/-- No server wins on a chunk. -/
theorem Faithful.not_wins {img : Nat → Nat → Nat → List Byte} {c' : Cluster} (hf : Faithful S img last c c')
    (hn : n ∈ S.ids) {G : Nat → Nat → Nat → Prop} {start x : Server} (hx : VoterOk S G n x) {heard : Option Message}
    {m : Message} {is : InstallSnapshot} (hm : heard = some m) (his : m.payload = .installSnapshot is)
    (hi : S.Incoming c' n is) : ¬ Server.Wins heard start x := by
  obtain ⟨hl, hne, -⟩ := hf.incoming hi
  rintro (hw | ⟨m', rr, p, hm', hrr, -⟩)
  · exact not_alone hn hl hne hx hw
  · rw [hm] at hm'
    injection hm' with hm'
    rw [← hm', his] at hrr
    cases hrr

/-- No server wins with a snapshot half put together, so the one that wins has a whole one. -/
theorem Faithful.whole_of_wins {img : Nat → Nat → Nat → List Byte} {c' : Cluster} (hf : Faithful S img last c c')
    (hn : n ∈ S.ids) (hv : VoteInv S c) {G : Nat → Nat → Nat → Prop} {x : Server} (hx : VoterOk S G n x)
    (hhalf : Halfway (last n) (c.node n) → (c.node n).winning k = false)
    (hw : Server.Wins k.heard (c.node n) x) : Whole S.cfg (S.Saved c') (c.node n) := by
  refine (hf.buffers n).whole (fun is hi => (hf.incoming hi).2.2) ?_
  rintro ⟨is, hl, hlt⟩
  obtain ⟨hmem, hne, -⟩ := hf.incoming ((hf.buffers n).part is hl).1
  rcases hw with hw | ⟨⟨a, b, payload⟩, rr, p, hm, hrr, hpre, hg, ht, hs, hp, hnew, hmaj⟩
  · exact not_alone hn hmem hne hx hw
  · have hno := hhalf ⟨is, hl, hlt⟩
    have hrr : payload = .requestVoteResp rr := hrr
    subst hrr
    have hmaj : (c.node n).majority ≤ (c.node n).votesGranted + 1 := by
      unfold Server.majority at hmaj ⊢
      rw [hx.length_nodes] at hmaj
      rw [(hv n).length_nodes]
      exact hmaj
    rw [Call.heard_eq_some hm] at hno
    simp [Server.winning, hpre, hg, ht, hs, hp, hnew, hmaj] at hno

/-- What the last chunk completes was saved. -/
theorem Faithful.loaded {img : Nat → Nat → Nat → List Byte} {c' : Cluster} (hf : Faithful S img last c c')
    (hchunk : ∀ is, (c.node n).chunkOf k = some is → Continues is (last n) (c.node n)) {x : Server} {m : Message}
    {is : InstallSnapshot} (hm : k.heard = some m) (his : m.payload = .installSnapshot is) (hi : S.Incoming c' n is)
    (ht : is.term = x.currentTerm) (h0 : Server.Untouched (c.node n) x) (hd : is.done = true) :
    S.Saved c' is.lastIncludedIndex
      (bytesAt (x.storeChunk S.cfg is).snapBuf 0 (x.storeChunk S.cfg is).snapLen) := by
  obtain ⟨-, -, hslice, hsaved⟩ := hf.incoming hi
  obtain ⟨hbuf, hlen⟩ := storeChunk_congr S.cfg is h0.buf h0.len
  have hstored : (c.node n).chunkOf k = some is := by
    rw [Call.heard_eq_some hm]
    exact Server.chunkOf_handle his (by rw [ht]; exact h0.term)
  rw [hbuf, hlen, (hf.buffers n).complete hslice (hchunk is hstored) hd]
  exact hsaved

/-- **Every move of the called node keeps the images.** -/
theorem MidCall.move {x y : Server} (hn : n ∈ S.ids) (hv : VoteInv S c) (hfit : io.Fits S.cfg)
    (hchunk : ∀ is, (c.node n).chunkOf k = some is → Continues is (last n) (c.node n))
    (hhalf : Halfway (last n) (c.node n) → (c.node n).winning k = false)
    (hx : MidCall S last c n k (c.set n x))
    (hheard : ∀ m, k.heard = some m → m.recipient = n ∧ S.InFlight (c.set n x) m)
    (hmv : Move S.cfg io True k.heard (c.node n) x y) : MidCall S last c n k (c.set n y) := by
  obtain ⟨hvx, img, hf, hphase⟩ := hx
  rw [Cluster.set_node_self] at hphase
  obtain ⟨evs, he⟩ := Server.Move.calls_grow hmv
  have hgrow : y.calls = evs ++ ((c.set n x).node n).calls := by rw [Cluster.set_node_self]; exact he
  have hK : ∀ i b, S.Saved (c.set n x) i b → S.Saved (c.set n y) i b := by
    intro i b h
    rw [← Cluster.set_set c n x y]
    exact h.set hgrow
  have hF : ∀ a is, S.Incoming (c.set n x) a is → S.Incoming (c.set n y) a is := by
    intro a is h
    rw [← Cluster.set_set c n x y]
    exact h.set hgrow
  have hsave : ∀ i b, .snapshotSave i b ∈ y.calls → S.Saved (c.set n y) i b :=
    fun i b h => ⟨n, hn, by rw [Cluster.set_node_self]; exact h⟩
  have hvoter := hvx n
  rw [Cluster.set_node_self] at hvoter
  have hincoming : ∀ m is, k.heard = some m → m.payload = .installSnapshot is → S.Incoming (c.set n x) n is :=
    fun m is hm his => ⟨m, (hheard m hm).1, his, (hheard m hm).2⟩
  have hwin : ∀ m is, k.heard = some m → m.payload = .installSnapshot is → ¬ Server.Wins k.heard (c.node n) x :=
    fun m is hm his => hf.not_wins hn hvoter hm his (hincoming m is hm his)
  have hwhole : Server.Wins k.heard (c.node n) x → Whole S.cfg (S.Saved (c.set n x)) x := by
    intro hw
    cases hphase with
    | kept hk => exact hk.whole (hf.whole_of_wins hn hv hvoter hhalf hw)
    | stored m is hm his ht h hs => exact absurd hw (hwin m is hm his)
    | saved h hw => exact hw
  have hpeer : ∀ dst, x.HasPeer dst → dst ≠ n := by
    rintro dst ⟨p, hp, hps, hpid⟩ hdst
    rw [hvoter.isSelf_eq hp, hpid, hdst, beq_self_eq_true] at hps
    cases hps
  have hhands := hf.hands n
  rw [Cluster.set_node_self] at hhands
  obtain ⟨imgn, hnew, hsame⟩ := hhands.step hmv.snap hvoter.self hK hsave hfit hpeer hwhole
    (fun m is hm his ht h0 hd => hK _ _ (hf.loaded hchunk hm his (hincoming m is hm his) ht h0 hd))
  refine ⟨hvx.move hheard hmv, Function.update img n imgn, ⟨?_, ?_⟩, ?_⟩
  · intro a
    by_cases ha : a = n
    · subst ha
      rw [Cluster.set_node_self, Function.update_self]
      exact hnew
    · have hother := (hf.hands a).mono hK
      rw [Cluster.set_node_ne ha] at hother ⊢
      rw [Function.update_of_ne ha]
      exact hother
  · intro a
    refine (hf.buffers a).mono hK (hF a) ?_
    rintro is ⟨m, -, his, b, hb, hm⟩
    have hl := ((hf.hands b).sent m hm is his).leader
    by_cases hbn : b = n
    · subst hbn
      rw [Cluster.set_node_self] at hm
      rw [hl, Function.update_self]
      exact hsame m hm is his
    · rw [hl, Function.update_of_ne hbn]
  · rw [Cluster.set_node_self]
    exact hphase.step hmv.snap hK hsave hfit hwin

end

/-! ## Runs -/

/-- A cluster, and for every node the chunk it stored last. -/
structure Traced where
  cluster : Cluster
  last : Nat → Option InstallSnapshot

/-- The chunk stored last after a call from `s` to `s'`; a snapshot of the node's own takes its place. -/
def lastAfter (s s' : Server) (k : Call) (last : Option InstallSnapshot) : Option InstallSnapshot :=
  if s'.saves = s.saves then (s.chunkOf k).or last else none

/-- The cluster's runs, with the history kept along. -/
def Setup.traced (S : Setup) : Sys Traced Action where
  init := ⟨S.init, fun _ => none⟩
  enabled := fun x act => S.sys.enabled x.cluster act
  exec := fun x act => ⟨S.sys.exec x.cluster act, match act with
    | .call n io k => Function.update x.last n
        (lastAfter (x.cluster.node n) ((x.cluster.node n).perform S.cfg io k) k (x.last n))
    | .restart n => Function.update x.last n none
    | .crash n _ _ _ => Function.update x.last n none⟩

/-- Every run of the cluster can be traced. -/
theorem reachable_traced {S : Setup} {c : Cluster} (h : S.sys.Reachable Sys.always c) :
    ∃ x : Traced, S.traced.Reachable Sys.always x ∧ x.cluster = c := by
  refine Sys.Reachable.invariant (P := fun c => ∃ x : Traced, S.traced.Reachable Sys.always x ∧ x.cluster = c) h
    ⟨_, .refl, rfl⟩ ?_
  rintro c act ⟨x, hx, rfl⟩ hen -
  exact ⟨S.traced.exec x act, .tail hx ⟨act, hen, trivial, rfl⟩, rfl⟩

/-- What a call must not do to a node that has stored the chunk `last`: store one that does not continue it, or become
leader before the snapshot is complete. -/
def Server.InOrder (s : Server) (last : Option InstallSnapshot) (k : Call) : Prop :=
  (∀ is ∈ s.chunkOf k, Continues is last s) ∧ (Halfway last s → s.winning k = false)

/-- What `m_snapshot_save` promises holds in the calls of the action. -/
def Action.Fits (cfg : Config) : Action → Prop
  | .call _ io _ => io.Fits cfg
  | .restart _ => True
  | .crash _ io _ _ => io.Fits cfg

/-- Every call meets the condition above, the term counter does not wrap, and no node goes down inside a call. -/
def Traced.InOrder (x : Traced) : Action → Prop
  | .call n io k => (x.cluster.node n).InOrder (x.last n) k ∧
      ((x.cluster.node n).electing io k = true → (x.cluster.node n).currentTerm + 1 < 2 ^ 64)
  | .restart _ => True
  | .crash _ _ _ _ => False

/-- **Transfers in order.** -/
def Setup.TransferSteps (S : Setup) (x : Traced) (act : Action) : Prop := x.InOrder act ∧ act.Fits S.cfg

/-- The images behind a traced cluster. -/
def SnapInv (S : Setup) (x : Traced) : Prop :=
  VoteInv S x.cluster ∧ ∃ img, Faithful S img x.last x.cluster x.cluster

/-- **The buffer after a call**, by what the call stored or saved. -/
theorem Buffer.call {cfg : Config} {K : Nat → List Byte → Prop} {img : Nat → Nat → Nat → List Byte}
    {F : InstallSnapshot → Prop} {last : Option InstallSnapshot} {s : Server} {io : Io} {k : Call}
    (h : Buffer cfg K img F last s) (hphase : Phase cfg K k.heard s (s.perform cfg io k))
    (hF : ∀ is, F is → Buffer.Cut cfg K img is) (hchunk : ∀ is, s.chunkOf k = some is → F is ∧ Continues is last s) :
    Buffer cfg K img F (lastAfter s (s.perform cfg io k) k last) (s.perform cfg io k) := by
  unfold lastAfter
  split
  · rename_i hsaves
    cases hc : s.chunkOf k with
    | none =>
      rw [Option.none_or]
      cases hphase with
      | kept hk => exact h.kept hk
      | stored m is hm his ht _ _ =>
        rw [Call.heard_eq_some hm, Server.chunkOf_handle his ht] at hc
        cases hc
      | saved hlt _ => omega
    | some is =>
      rw [Option.some_or]
      obtain ⟨hi, hcont⟩ := hchunk is hc
      obtain ⟨⟨a, b, p⟩, rfl, hp, ht⟩ := Server.chunkOf_eq_some hc
      have hp : p = .installSnapshot is := hp
      subst hp
      exact h.stored hF hi hcont (Server.handleInstallSnapshot_stored ht hsaves)
  · rename_i hsaves
    cases hphase with
    | kept hk => exact absurd hk.saves hsaves
    | stored m is hm his ht hst _ => exact absurd hst.saves hsaves
    | saved _ hw => exact ⟨fun _ => hw, fun is hl => by cases hl⟩

section
variable {S : Setup} {x : Traced} {n : Nat} {io : Io} {k : Call}

theorem SnapInv.call (h : SnapInv S x) (hk : S.Callable x.cluster n k)
    (hok : S.TransferSteps x (.call n io k)) : SnapInv S (S.traced.exec x (.call n io k)) := by
  obtain ⟨hv, img, hf⟩ := h
  obtain ⟨⟨⟨hchunk, hhalf⟩, hterm⟩, hfit⟩ := hok
  have hmid : MidCall S x.last x.cluster n k (x.cluster.set n ((x.cluster.node n).perform S.cfg io k)) := by
    refine Setup.call_invariant True ⟨hv, img, hf, .kept (.refl _)⟩ hk (fun _ => hterm)
      (fun _ => MidCall.core_iff) ?_
    intro y z hy _ hheard hmv
    exact hy.move hk.1 hv hfit hchunk hhalf hheard hmv
  obtain ⟨hv', img', hf', hphase⟩ := hmid
  refine ⟨hv', img', hf'.hands, fun a => ?_⟩
  have hbuf := hf'.buffers a
  by_cases ha : a = n
  · subst ha
    rw [Cluster.set_node_self] at hphase
    show Buffer _ _ _ _ (Function.update x.last a _ a) ((x.cluster.set a _).node a)
    rw [Function.update_self, Cluster.set_node_self]
    refine hbuf.call hphase (fun is hi => (hf'.incoming hi).2.2) (fun is hc => ⟨?_, hchunk is hc⟩)
    obtain ⟨m, rfl, his, -⟩ := Server.chunkOf_eq_some hc
    obtain ⟨hrec, hsent⟩ := hk.2 m rfl
    obtain ⟨evs, he⟩ := Server.Moves.calls_grow
      (Server.perform_moves S.cfg io True (x.cluster.node a) (.handle m) (fun _ => hterm))
    exact Setup.Incoming.set ⟨m, hrec, his, hsent⟩ he
  · show Buffer _ _ _ _ (Function.update x.last n _ a) ((x.cluster.set n _).node a)
    rw [Function.update_of_ne ha, Cluster.set_node_ne ha]
    exact hbuf

theorem rebuild_fresh (S : Setup) (n : Nat) (calls : List Event) :
    (S.rebuild n calls).state = .follower ∧ (S.rebuild n calls).snapLen = 0 := by
  unfold Setup.rebuild Server.new
  split <;> exact ⟨rfl, rfl⟩

/-- A node that comes back has an empty buffer; what it sent stays on record. -/
theorem SnapInv.restart (h : SnapInv S x) : SnapInv S (S.traced.exec x (.restart n)) := by
  obtain ⟨hv, img, hf⟩ := h
  have hc : (S.rebuild n (x.cluster.node n).calls).calls = [] ++ (x.cluster.node n).calls := rfl
  have hlast := (hv n).synced.last
  have hterm : (S.rebuild n (x.cluster.node n).calls).currentTerm = (x.cluster.node n).currentTerm := by
    show (lastPersisted _ _).1 = _
    rw [hlast]
  obtain ⟨hfollower, hempty⟩ := rebuild_fresh S n (x.cluster.node n).calls
  refine ⟨hv.rebuild (List.nil_append _).symm (hv n).synced.disciplined (hv n).sends, img, fun a => ?_, fun a => ?_⟩
  · have hh := (hf.hands a).mono (fun i b hs => hs.set (n := n) hc)
    show Hands _ _ _ _ ((x.cluster.set n _).node a)
    by_cases ha : a = n
    · subst ha
      rw [Cluster.set_node_self]
      refine ⟨fun m hm is his => ?_, fun hl => ?_, hh.loads⟩
      · have hok := hh.sent m hm is his
        refine { hok with term := by rw [hterm]; exact hok.term, before := fun hl => ?_, edge := fun hl => ?_ }
        · rw [hfollower] at hl; cases hl
        · rw [hfollower] at hl; cases hl
      · rw [hfollower] at hl; cases hl
    · rw [Cluster.set_node_ne ha]
      exact hh
  · show Buffer _ _ _ _ (Function.update x.last n none a) ((x.cluster.set n _).node a)
    by_cases ha : a = n
    · subst ha
      rw [Function.update_self, Cluster.set_node_self]
      exact ⟨fun _ => .inl hempty, fun is hl => by cases hl⟩
    · rw [Function.update_of_ne ha, Cluster.set_node_ne ha]
      exact (hf.buffers a).mono (fun i b hs => hs.set hc) (fun is hi => hi.set hc) (fun _ _ => rfl)

end

instance (is : InstallSnapshot) (last : Option InstallSnapshot) (s : Server) : Decidable (Continues is last s) :=
  inferInstanceAs (Decidable (is.offset = 0 ∨ ∃ prev ∈ last, prev.leaderId = is.leaderId ∧ prev.term = is.term ∧
    prev.lastIncludedIndex = is.lastIncludedIndex ∧ is.offset ≤ s.snapLen))

instance (last : Option InstallSnapshot) (s : Server) : Decidable (Halfway last s) :=
  inferInstanceAs (Decidable (∃ is ∈ last, s.snapLen < is.totalLen))

instance (s : Server) (last : Option InstallSnapshot) (k : Call) : Decidable (s.InOrder last k) :=
  inferInstanceAs (Decidable ((∀ is ∈ s.chunkOf k, Continues is last s) ∧ (Halfway last s → s.winning k = false)))

instance (x : Traced) : ∀ act : Action, Decidable (x.InOrder act)
  | .call n io k => inferInstanceAs (Decidable ((x.cluster.node n).InOrder (x.last n) k ∧
      ((x.cluster.node n).electing io k = true → (x.cluster.node n).currentTerm + 1 < 2 ^ 64)))
  | .restart _ => inferInstanceAs (Decidable True)
  | .crash _ _ _ _ => inferInstanceAs (Decidable False)

instance (S : Setup) (c : Cluster) (i : Nat) (bytes : List Byte) : Decidable (S.Saved c i bytes) :=
  inferInstanceAs (Decidable (∃ a ∈ S.ids, _ ∈ (c.node a).calls))

end Raft
end FloodEws
