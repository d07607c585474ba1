import FloodEws.Nested
import FloodEws.Shapes
/-!
# Fleet — the engines on the mesh

Three fog nodes, each an `Engine`: a server, the queue its CoAP handlers fill and its work task drains, and the pair on
its flash.  What a server sends is put on the mesh as a signed datagram if the peer service knows an address; the mesh may
lose, repeat, delay and reorder what was put, and hand in datagrams of anyone else.  While a task runs, the callbacks of
the server may submit, and the node may lose power after any of them: what was saved and sent by then is saved and sent.
It comes back with the pair on its flash and an empty queue.

Every run of the fleet is a run of the cluster with callbacks that submit (`fleet_simulates`): what a node takes off its
queue is an RPC that some server of the fleet sent to it.
-/
namespace FloodEws
namespace Raft

open Ingress (RpcType Psa TrustedDeviceStore sigLen psaSuccess)

/-! ## `Engine` -/

/-- `EXPECTED_EUIS`. -/
def expectedEuis : List Nat := [0xf4ce360a4eac3643, 0xf4ce363a5c916092, 0xf4ce3696247825d1]

/-- The servers as `Engine` builds them.  `RaftPersistence::load` answers `{0, 0}` when nothing was saved. -/
def engineSetup : Setup where
  cfg := defaultConfig
  ids := expectedEuis
  boot := fun _ => (0, 0)
  nodup := by decide
  ne_nil := by decide
  le_max := by decide

def queueDepth : Nat := 8

structure Engine where
  server : Server
  rxQueue : List Message := []
  nvs : Option (Nat × Nat) := none

/-- What a node does with its server: the timer, a call of `submit`, or one turn of the loop in `drain`. -/
inductive Task where
  | tick
  | submit (type : EntryType) (data : List Byte)
  | drain

/-- What a node meets while it runs one of its tasks: the clock and the random source, the peers an address is known for,
its signatures, and what is in the padding of what it sends. -/
structure Env where
  now : Nat → Nat
  rand : Nat → Nat
  knows : Nat → Bool
  sign : List Byte → Option (List Byte)
  gap : Nat → Byte

/-- `make_cbs`: the `m_snapshot_save` that returns 0, and no `m_snapshot_load`. -/
def Env.io (env : Env) : Io where
  now := env.now
  rand := env.rand
  snapshotSave := some (fun _ => some [])
  snapshotLoad := false

/-- A datagram for the endpoint of an RPC at the address of a node. -/
structure Packet where
  dest : Nat
  endpoint : RpcType
  bytes : List Byte
deriving DecidableEq

/-- `CoapServer::send_msg`, at the node with this EUI. -/
def sendMsg (env : Env) (ownEui : Nat) (msg : Message) : Option Packet :=
  if env.knows msg.recipient then
    (coapPut env.gap env.sign ownEui msg.payload).map (fun put => ⟨msg.recipient, put.1, put.2⟩)
  else none

/-- `RaftPersistence::save`, for each call of `m_persist_state` among these callbacks, the newest of which come first. -/
def saveAll (nvs : Option (Nat × Nat)) : List Event → Option (Nat × Nat)
  | [] => nvs
  | .persistState t v :: _ => some (t, v)
  | _ :: evs => saveAll nvs evs

namespace Engine

/-- `RaftPersistence::load`. -/
def load (e : Engine) : Nat × Nat := e.nvs.getD (0, 0)

/-- `receive`: a message that finds the queue full is dropped. -/
def receive (msg : Message) (e : Engine) : Engine :=
  if e.rxQueue.length < queueDepth then { e with rxQueue := e.rxQueue ++ [msg] } else e

/-- What the constructor makes, given the pair that was loaded.  The record of callbacks goes on. -/
def restored (n : Nat) (pair : Nat × Nat) (calls : List Event) : Server :=
  { (Server.new defaultConfig n expectedEuis).restoreState pair.1 pair.2 with calls := calls }

/-- The constructor and `start`, after a power cycle; `start` makes no callbacks. -/
def boot (n : Nat) (env : Env) (e : Engine) : Engine :=
  { server := (restored n e.load e.server.calls).start defaultConfig env.io, rxQueue := [], nvs := e.nvs }

/-- The call of the server, if there is anything to do. -/
def call (e : Engine) : Task → Option Call
  | .tick => some .periodic
  | .submit type data => some (.submit type data)
  | .drain => e.rxQueue.head?.map .handle

/-- The queue while the call runs. -/
def rest (e : Engine) : Task → List Message
  | .drain => e.rxQueue.tail
  | _ => e.rxQueue

/-- A node that has lost power with this record: of the call that ran it keeps what was saved. -/
def off (n : Nat) (calls : List Event) (e : Engine) : Engine :=
  let saved := { e with nvs := saveAll e.nvs (newEvents e.server.calls calls) }
  { e with server := restored n saved.load calls, rxQueue := [] }

/-- A task, whose callbacks answer so or in which the node loses power. -/
def run (n : Nat) (env : Env) (t : Task) (how : Manner) (e : Engine) : Engine :=
  match e.call t with
  | none => e
  | some k => match how with
    | .whole => { e with server := e.server.perform defaultConfig env.io k, rxQueue := e.rest t }
    | .nested answers =>
      { e with server := (e.server.answered defaultConfig env.io k answers).1, rxQueue := e.rest t }
    | .cut answers made =>
      e.off n (callsAfter made e.server.calls (e.server.answered defaultConfig env.io k answers).1.calls)

end Engine

/-! ## The mesh -/

/-- The library that checks signatures, and the keys every node trusts. -/
structure Deployment where
  psa : Psa
  store : Nat → TrustedDeviceStore

structure Fleet where
  node : Nat → Engine
  packets : List Packet

/-- The servers. -/
def Fleet.cluster (F : Fleet) : Cluster := ⟨fun n => (F.node n).server⟩

inductive FleetAction where
  | boot (n : Nat) (env : Env)
  | task (n : Nat) (env : Env) (t : Task) (how : Manner)
  | deliver (packet : Packet)

/-- What the callbacks of a node come to: `m_persist_state` saves, `m_send` puts. -/
def Fleet.settle (F : Fleet) (n : Nat) (env : Env) (e : Engine) : Fleet :=
  let new := newEvents (F.node n).server.calls e.server.calls
  { node := Function.update F.node n { e with nvs := saveAll e.nvs new }
    packets := new.filterMap (fun ev => match ev with | .send _ _ m => sendMsg env n m | _ => none) ++ F.packets }

namespace Deployment

variable (D : Deployment)

/-- `decode_response` at a node. -/
def decode (p : Packet) : Option Message := decodeMessage D.psa (D.store p.dest) p.endpoint p.bytes

/-- What the node signs, every node of the fleet verifies. -/
def Signs (n : Nat) (env : Env) : Prop := ∀ bytes sig, env.sign bytes = some sig →
  sig.length = sigLen ∧ ∀ k ∈ expectedEuis, (D.store k).verify D.psa n bytes sig = psaSuccess

/-- The fleet: any node may run any of its tasks at any time, when there is something to do.  Any datagram that was put
may come in, and any other that does not pass for one. -/
def sys : Sys Fleet FleetAction where
  init := { node := fun n => { server := engineSetup.rebuild n [] }, packets := [] }
  enabled F
    | .boot n env => n ∈ expectedEuis ∧ D.Signs n env
    | .task n env t how => n ∈ expectedEuis ∧ D.Signs n env ∧
        ∃ k, (F.node n).call t = some k ∧ how.Possible defaultConfig env.io k (F.node n).server
    | .deliver p => p.dest ∈ expectedEuis ∧ (p ∈ F.packets ∨ D.decode p = none)
  exec F
    | .boot n env => F.settle n env ((F.node n).boot n env)
    | .task n env t how => F.settle n env ((F.node n).run n env t how)
    | .deliver p => match D.decode p with
      | none => F
      | some msg => { F with node := Function.update F.node p.dest ((F.node p.dest).receive msg) }

end Deployment

/-! ## The cluster behind the fleet -/

/-- What the servers do in a step of the fleet. -/
def Fleet.actions (F : Fleet) : FleetAction → List NestedAct
  | .boot n env => [.plain (.restart n), .plain (.call n env.io .start)]
  | .task n env t how => (((F.node n).call t).map (how.act n env.io)).toList
  | .deliver _ => []

/-- Each of the actions meets `ok` when its turn comes. -/
def Setup.AllMeet (S : Setup) (ok : Cluster → NestedAct → Prop) : List NestedAct → Cluster → Prop
  | [], _ => True
  | a :: as, c => ok c a ∧ S.AllMeet ok as (S.nested.exec c a)

theorem Setup.AllMeet.mono {S : Setup} {ok ok' : Cluster → NestedAct → Prop} : ∀ {as : List NestedAct} {c : Cluster},
    S.AllMeet ok as c → (∀ a ∈ as, ∀ c, ok c a → ok' c a) → S.AllMeet ok' as c
  | [], _, _, _ => trivial
  | a :: _, c, h, hok => ⟨hok a List.mem_cons_self c h.1, h.2.mono fun b hb => hok b (List.mem_cons_of_mem a hb)⟩

/-- The step meets `ok` as far as the servers are concerned, and no number that a server puts into an RPC has outgrown its
word. -/
def Deployment.Meets (D : Deployment) (ok : Cluster → NestedAct → Prop) (F : Fleet) (a : FleetAction) : Prop :=
  engineSetup.AllMeet ok (F.actions a) F.cluster ∧
    ∀ n ∈ expectedEuis, ∀ m ∈ ((D.sys.exec F a).node n).server.sent, m.payload.Small

/-- Nothing is submitted but what `P` allows. -/
def Submits (P : EntryType → List Byte → Prop) : Action → Prop
  | .call _ _ (.submit type data) => P type data
  | .crash _ _ (.submit type data) _ => P type data
  | _ => True

theorem Submits.mono {P P' : EntryType → List Byte → Prop} (h : ∀ type data, P type data → P' type data) {a : Action}
    (ha : Submits P a) : Submits P' a := by
  unfold Submits at ha ⊢
  split at ha
  · exact h _ _ ha
  · exact h _ _ ha
  · trivial

/-- The message off the queue is as good as the one that was sent. -/
def Stands (msg m : Message) : Prop :=
  msg.payload = m.payload ∧ (m.payload.type.isResp = true → msg.sender = m.sender)

/-- The side condition does not tell such messages apart, it does not let an election start at the last term, and what is
submitted is what `P` allows. -/
structure Blind (ok : Cluster → NestedAct → Prop) (P : EntryType → List Byte → Prop) : Prop where
  terms : ∀ c a, ok c a → Nests engineSetup.TermsFit c a
  submits : ∀ c a, ok c a → Nests (fun _ a => Submits P a) c a
  stands : ∀ c n io msg m how, Stands msg m → ok c (Manner.act n io (.handle msg) how) →
    ok c (Manner.act n io (.handle m) how)

/-- **What the network of the fleet carries**: RPCs that were sent, to where they were sent, in shape. -/
structure Carried (D : Deployment) (P : EntryType → List Byte → Prop) (F : Fleet) : Prop where
  plain : ∀ n ∈ expectedEuis, (F.node n).server.Plain P
  nvs : ∀ n ∈ expectedEuis, (F.node n).load = lastPersisted (0, 0) (F.node n).server.calls
  packets : ∀ p ∈ F.packets, p.dest ∈ expectedEuis → ∃ m msg, engineSetup.InFlight F.cluster m ∧ m.recipient = p.dest ∧
    D.decode p = some msg ∧ Stands msg m
  queued : ∀ n ∈ expectedEuis, ∀ msg ∈ (F.node n).rxQueue, ∃ m, engineSetup.InFlight F.cluster m ∧ m.recipient = n ∧
    Stands msg m

theorem bare_io (env : Env) : env.io.Bare := by
  intro k bytes h
  exact (Option.some.inj h).symm

/-- The server looks at nothing else of a message. -/
theorem handle_stands {msg m : Message} (h : Stands msg m) (cfg : Config) (io : Io) (s : Server) :
    s.handle cfg io msg = s.handle cfg io m ∧ s.enterHandle cfg io msg = s.enterHandle cfg io m := by
  obtain ⟨sender, recipient, payload⟩ := msg
  obtain ⟨sender', recipient', payload'⟩ := m
  obtain ⟨rfl, hsender⟩ := h
  cases payload with
  | requestVote rv => exact ⟨rfl, rfl⟩
  | appendEntries ae => exact ⟨rfl, rfl⟩
  | installSnapshot is => exact ⟨rfl, rfl⟩
  | requestVoteResp rr => obtain rfl := hsender rfl; exact ⟨rfl, rfl⟩
  | appendEntriesResp rr => obtain rfl := hsender rfl; exact ⟨rfl, rfl⟩
  | installSnapshotResp rr => obtain rfl := hsender rfl; exact ⟨rfl, rfl⟩

theorem after_stands {msg m : Message} (h : Stands msg m) (n : Nat) (io : Io) (s : Server) (how : Manner) :
    how.after engineSetup n io (.handle msg) s = how.after engineSetup n io (.handle m) s := by
  obtain ⟨hperform, henter⟩ := handle_stands h engineSetup.cfg io s
  exact Manner.after_congr (k := .handle msg) (l := .handle m) hperform henter how

theorem possible_stands {msg m : Message} (h : Stands msg m) (cfg : Config) (io : Io) (s : Server) (how : Manner) :
    how.Possible cfg io (.handle msg) s ↔ how.Possible cfg io (.handle m) s := by
  obtain ⟨-, henter⟩ := handle_stands h cfg io s
  exact Manner.possible_congr (k := .handle msg) (l := .handle m) henter how

namespace Server.Plain

variable {s y : Server} {P : EntryType → List Byte → Prop} {n : Nat} {io : Io} {k : Call}

/-- A server built anew with some of the record. -/
theorem rebuilt (h : y.Plain P) (n : Nat) {calls : List Event} (hsub : ∀ ev ∈ calls, ev ∈ y.calls) :
    (engineSetup.rebuild n calls).Plain P := by
  refine engineSetup.plain_rebuild n (fun m hm => ?_) (fun ev hev => ?_)
  · obtain ⟨t, v, hev⟩ := mem_sent.1 hm
    exact h.sent m (mem_sent.2 ⟨t, v, hsub _ hev⟩)
  · obtain ⟨hev, hfed⟩ := List.mem_filter.1 hev
    exact h.fed ev (List.mem_filter.2 ⟨hsub ev hev, hfed⟩)

/-- **However a call runs**, it keeps the server plain. -/
theorem after (h : s.Plain P) (hio : io.Bare) (hk : ∀ m, k.heard = some m → m.payload.Plain P) {how : Manner}
    (hp : how.Possible defaultConfig io k s) {c : Cluster} (hsubmits : Nests (fun _ a => Submits P a) c (how.act n io k)) :
    (how.after engineSetup n io k s).Plain P := by
  have hanswered : ∀ answers : List Answer, (∀ type data, k = .submit type data → P type data) →
      (∀ ans ∈ answers, ans.Meets (fun k => ∀ type data, k = .submit type data → P type data)) →
      (s.answered defaultConfig io k answers).1.Plain P :=
    fun answers hdata hans => h.answered hio hk hdata (fun type data hmem => hans _ hmem type data rfl)
  cases how with
  | whole => exact h.perform hio hk (fun type data hl => by subst hl; exact hsubmits)
  | nested answers =>
    refine hanswered answers (fun type data hl => by subst hl; exact hsubmits.1) (fun ans hmem => ?_)
    exact (hsubmits.2 ans hmem).mono (fun k hk type data hl => by subst hl; exact hk)
  | cut answers made =>
    refine (hanswered answers (fun type data hl => by subst hl; exact hsubmits.1) (fun ans hmem => ?_)).rebuilt n
      (fun ev hev => List.mem_of_mem_drop hev)
    exact (hsubmits.2 ans hmem).mono (fun k hk type data hl => by subst hl; exact hk)

end Server.Plain

/-! ## A step of the fleet -/

/-- What is on the flash is the last pair that was handed to `m_persist_state`. -/
theorem saveAll_eq (nvs : Option (Nat × Nat)) (calls : List Event) (h : nvs.getD (0, 0) = lastPersisted (0, 0) calls) :
    ∀ evs : List Event, (saveAll nvs evs).getD (0, 0) = lastPersisted (0, 0) (evs ++ calls)
  | [] => h
  | e :: evs => by
    have ih := saveAll_eq nvs calls h evs
    cases e <;> first | exact ih | rfl

theorem settle_self (F : Fleet) (n : Nat) (env : Env) (e : Engine) :
    (F.settle n env e).node n = { e with nvs := saveAll e.nvs (newEvents (F.node n).server.calls e.server.calls) } :=
  Function.update_self ..

theorem settle_other (F : Fleet) {n k : Nat} (h : k ≠ n) (env : Env) (e : Engine) :
    (F.settle n env e).node k = F.node k :=
  Function.update_of_ne h ..

theorem cluster_settle (F : Fleet) (n : Nat) (env : Env) (e : Engine) :
    (F.settle n env e).cluster = F.cluster.set n e.server := by
  refine congrArg Cluster.mk (funext fun k => ?_)
  by_cases hk : k = n
  · rw [hk, settle_self, Function.update_self]
  · rw [settle_other F hk, Function.update_of_ne hk]
    rfl

/-- What a task leaves on record. -/
theorem run_calls {e : Engine} {t : Task} {k : Call} (hk : e.call t = some k) (n : Nat) (env : Env) (how : Manner) :
    (e.run n env t how).server.calls = (how.after engineSetup n env.io k e.server).calls := by
  unfold Engine.run
  rw [hk]
  cases how <;> rfl

namespace Carried

variable {D : Deployment} {P : EntryType → List Byte → Prop} {F : Fleet} {n : Nat} {env : Env} {e : Engine}
  {evs : List Event}

/-- A packet that is put is one that was sent, and every node of the fleet decodes it. -/
theorem put (hn : n ∈ expectedEuis) (hsigns : D.Signs n env) {m : Message} {p : Packet} (hsender : m.sender = n)
    (hsmall : m.payload.Small) (hsized : m.payload.Sized) (hp : sendMsg env n m = some p) :
    p.dest = m.recipient ∧ (p.dest ∈ expectedEuis → ∃ msg, D.decode p = some msg ∧ Stands msg m) := by
  unfold sendMsg at hp
  split at hp
  · obtain ⟨put, hput, rfl⟩ := Option.map_eq_some_iff.1 hp
    refine ⟨rfl, fun hdest => ?_⟩
    have hlt : ∀ k ∈ expectedEuis, k < 2 ^ 64 := by decide
    obtain ⟨ht, hdecode⟩ := decode_put D.psa (D.store m.recipient) env.gap env.sign n (hlt n hn) m.payload hsmall hsized
      (fun sig hsig => ⟨(hsigns _ sig hsig).1, (hsigns _ sig hsig).2 _ hdest⟩) put.1 put.2 hput
    refine ⟨_, hdecode, rfl, fun hresp => ?_⟩
    rw [hsender, if_pos (ht.symm ▸ hresp)]
  · cases hp

/-- **What one node does leaves the network in order**: its queue may have got shorter, and its server has made the
callbacks `evs`. -/
theorem settle (h : Carried D P F) (hn : n ∈ expectedEuis) (hsigns : D.Signs n env) (hplain : e.server.Plain P)
    (hcalls : e.server.calls = evs ++ (F.node n).server.calls) (hnvs : e.nvs = (F.node n).nvs)
    (hqueue : ∀ msg ∈ e.rxQueue, msg ∈ (F.node n).rxQueue) (hsender : ∀ m ∈ e.server.sent, m.sender = n)
    (hsmall : ∀ m ∈ e.server.sent, m.payload.Small) : Carried D P (F.settle n env e) := by
  have hnew := newEvents_eq hcalls
  have hflight : ∀ m, engineSetup.InFlight F.cluster m → engineSetup.InFlight (F.settle n env e).cluster m := by
    intro m hm
    rw [cluster_settle]
    exact hm.set hcalls
  constructor
  · intro k hk
    by_cases hkn : k = n
    · rw [hkn, settle_self]
      exact hplain
    · rw [settle_other F hkn]
      exact h.plain k hk
  · intro k hk
    by_cases hkn : k = n
    · rw [hkn, settle_self, hnew]
      dsimp only
      rw [hcalls, ← saveAll_eq _ _ (h.nvs n hn) evs, hnvs]
      rfl
    · rw [settle_other F hkn]
      exact h.nvs k hk
  · intro p hp hdest
    rcases List.mem_append.1 hp with hp | hp
    · rw [hnew] at hp
      obtain ⟨ev, hev, hput⟩ := List.mem_filterMap.1 hp
      cases ev with
      | send t v m =>
        have hsent : m ∈ e.server.sent := mem_sent.2 ⟨t, v, by rw [hcalls]; exact List.mem_append_left _ hev⟩
        obtain ⟨hto, hdecode⟩ := put (D := D) hn hsigns (hsender m hsent) (hsmall m hsent) (hplain.sent m hsent).sized hput
        obtain ⟨msg, hdecoded, hstands⟩ := hdecode hdest
        refine ⟨m, msg, ⟨n, hn, ?_⟩, hto.symm, hdecoded, hstands⟩
        rw [cluster_settle, Cluster.set_node_self]
        exact hsent
      | _ => cases hput
    · obtain ⟨m, msg, hm, hto, hdecoded, hstands⟩ := h.packets p hp hdest
      exact ⟨m, msg, hflight m hm, hto, hdecoded, hstands⟩
  · intro k hk msg hmsg
    have hold : msg ∈ (F.node k).rxQueue := by
      by_cases hkn : k = n
      · subst hkn
        rw [settle_self] at hmsg
        exact hqueue msg hmsg
      · rw [settle_other F hkn] at hmsg
        exact hmsg
    obtain ⟨m, hm, hto, hstands⟩ := h.queued k hk msg hold
    exact ⟨m, hflight m hm, hto, hstands⟩

theorem receive_server (msg : Message) (e : Engine) : (e.receive msg).server = e.server ∧ (e.receive msg).nvs = e.nvs := by
  unfold Engine.receive
  split <;> exact ⟨rfl, rfl⟩

theorem mem_receive {msg msg' : Message} {e : Engine} (h : msg' ∈ (e.receive msg).rxQueue) :
    msg' ∈ e.rxQueue ∨ msg' = msg := by
  unfold Engine.receive at h
  split at h
  · rcases List.mem_append.1 h with h | h
    · exact .inl h
    · exact .inr (List.mem_singleton.1 h)
  · exact .inl h

/-- A message that stands for one that was sent here may be queued. -/
theorem received (h : Carried D P F) {msg m : Message} (hm : engineSetup.InFlight F.cluster m) (hto : m.recipient = n)
    (hstands : Stands msg m) {F' : Fleet}
    (hF : F' = { F with node := Function.update F.node n ((F.node n).receive msg) }) :
    F'.cluster = F.cluster ∧ Carried D P F' := by
  have hnode : ∀ k, (F'.node k).server = (F.node k).server ∧ (F'.node k).nvs = (F.node k).nvs := by
    intro k
    rw [hF]
    by_cases hk : k = n
    · rw [hk]
      dsimp only
      rw [Function.update_self]
      exact receive_server msg (F.node n)
    · dsimp only
      rw [Function.update_of_ne hk]
      exact ⟨rfl, rfl⟩
  have hcluster : F'.cluster = F.cluster := congrArg Cluster.mk (funext fun k => (hnode k).1)
  refine ⟨hcluster, fun k hk => (hnode k).1 ▸ h.plain k hk, fun k hk => ?_, fun p hp hdest => ?_, fun k hk msg' hmsg => ?_⟩
  · unfold Engine.load
    rw [(hnode k).1, (hnode k).2]
    exact h.nvs k hk
  · rw [hcluster]
    exact h.packets p (by rwa [hF] at hp) hdest
  · rw [hcluster]
    by_cases hkn : k = n
    · rw [hF, hkn] at hmsg
      dsimp only at hmsg
      rw [Function.update_self] at hmsg
      rcases mem_receive hmsg with hold | rfl
      · exact h.queued k hk msg' (hkn ▸ hold)
      · exact ⟨m, hm, hto.trans hkn.symm, hstands⟩
    · rw [hF] at hmsg
      dsimp only at hmsg
      rw [Function.update_of_ne hkn] at hmsg
      exact h.queued k hk msg' hmsg

variable {ok : Cluster → NestedAct → Prop}

/-- What a node of the cluster has sent, it has sent in its own name. -/
theorem sender_eq (hblind : Blind ok P) {c : Cluster} (hr : engineSetup.nested.Reachable ok c) {m : Message}
    (hm : m ∈ (c.node n).sent) : m.sender = n := by
  obtain ⟨t, v, hev⟩ := mem_sent.1 hm
  exact ((voteInv_nested_reachable (hr.mono hblind.terms) n).sends t v m hev).1

/-- **A run of the cluster that ends with the server of the node** leaves the network in order. -/
theorem arrive (h : Carried D P F) (hblind : Blind ok P) (hr : engineSetup.nested.Reachable ok F.cluster)
    (hn : n ∈ expectedEuis) (hsigns : D.Signs n env)
    (hstep : engineSetup.nested.Reaches ok F.cluster (F.cluster.set n e.server)) (hplain : e.server.Plain P)
    (hcalls : ∃ evs, e.server.calls = evs ++ (F.node n).server.calls) (hnvs : e.nvs = (F.node n).nvs)
    (hqueue : ∀ msg ∈ e.rxQueue, msg ∈ (F.node n).rxQueue)
    (hsmall : ∀ m ∈ ((F.settle n env e).node n).server.sent, m.payload.Small) :
    engineSetup.nested.Reaches ok F.cluster (F.settle n env e).cluster ∧ Carried D P (F.settle n env e) := by
  obtain ⟨evs, hcalls⟩ := hcalls
  rw [settle_self] at hsmall
  refine ⟨cluster_settle F n env e ▸ hstep,
    h.settle hn hsigns hplain hcalls hnvs hqueue (fun m hm => sender_eq hblind (hr.trans hstep) ?_) hsmall⟩
  rw [Cluster.set_node_self]
  exact hm

/-- **A power cycle of one node of the fleet** is two steps of the cluster, and leaves the network in order. -/
theorem boot (h : Carried D P F) (hblind : Blind ok P) (hr : engineSetup.nested.Reachable ok F.cluster)
    (hn : n ∈ expectedEuis) (hsigns : D.Signs n env) (hok : engineSetup.AllMeet ok (F.actions (.boot n env)) F.cluster)
    (hsmall : ∀ m ∈ ((F.settle n env ((F.node n).boot n env)).node n).server.sent, m.payload.Small) :
    engineSetup.nested.Reaches ok F.cluster (F.settle n env ((F.node n).boot n env)).cluster ∧
      Carried D P (F.settle n env ((F.node n).boot n env)) := by
  obtain ⟨hrestart, hstart, -⟩ := hok
  -- What is on the flash is what the record says.
  have hserver : ((F.node n).boot n env).server =
      (engineSetup.rebuild n (F.node n).server.calls).perform defaultConfig env.io .start := by
    unfold Engine.boot Engine.restored Setup.rebuild
    rw [h.nvs n hn]
    rfl
  have hstep : engineSetup.nested.Reaches ok F.cluster (F.cluster.set n ((F.node n).boot n env).server) := by
    refine .tail (.single ⟨.plain (.restart n), hn, hrestart, rfl⟩)
      ⟨.plain (.call n env.io .start), ⟨hn, fun m hm => by cases hm⟩, hstart, ?_⟩
    show _ = (F.cluster.set n _).set n (((F.cluster.set n _).node n).perform _ _ _)
    rw [Cluster.set_set, Cluster.set_node_self, hserver]
    rfl
  refine h.arrive hblind hr hn hsigns hstep ?_ ?_ rfl (fun msg hmsg => by cases hmsg) hsmall
  · rw [hserver]
    exact ((h.plain n hn).rebuilt n (fun _ hev => hev)).perform (bare_io env) (fun m hm => by cases hm)
      (fun type data hl => by cases hl)
  · rw [hserver]
    exact Manner.after_grow (S := engineSetup) (n := n) .whole trivial

/-- The server after a task, and what the node has besides. -/
theorem run_spec (h : Carried D P F) (hn : n ∈ expectedEuis) {t : Task} {k : Call} (hk : (F.node n).call t = some k)
    {how : Manner} (hp : how.Possible defaultConfig env.io k (F.node n).server) :
    ((F.node n).run n env t how).server = how.after engineSetup n env.io k (F.node n).server ∧
      ((F.node n).run n env t how).nvs = (F.node n).nvs ∧
      ∀ msg ∈ ((F.node n).run n env t how).rxQueue, msg ∈ (F.node n).rxQueue := by
  have hrest : ∀ msg ∈ (F.node n).rest t, msg ∈ (F.node n).rxQueue := by
    intro msg hmsg
    cases t with
    | drain => exact List.mem_of_mem_tail hmsg
    | _ => exact hmsg
  unfold Engine.run
  rw [hk]
  cases how with
  | whole => exact ⟨rfl, rfl, hrest⟩
  | nested answers => exact ⟨rfl, rfl, hrest⟩
  | cut answers made =>
    refine ⟨?_, rfl, fun msg hmsg => by cases hmsg⟩
    -- What was saved is what the record says that was persisted.
    obtain ⟨evs, he⟩ := Manner.after_grow (S := engineSetup) (n := n) (.cut answers made) hp
    have hcalls : callsAfter made (F.node n).server.calls
        ((F.node n).server.answered defaultConfig env.io k answers).1.calls = evs ++ (F.node n).server.calls := he
    have hsaved := saveAll_eq _ _ (h.nvs n hn) evs
    show Engine.restored n ((saveAll (F.node n).nvs (newEvents _ _)).getD (0, 0)) _ = engineSetup.rebuild n _
    rw [hcalls, newEvents_eq rfl, hsaved]
    exact congrArg (engineSetup.rebuild n) hcalls.symm

/-- **A task of one node of the fleet** is a step of the cluster, however it runs, and leaves the network in order. -/
theorem task (h : Carried D P F) (hblind : Blind ok P) (hr : engineSetup.nested.Reachable ok F.cluster)
    (hn : n ∈ expectedEuis) (hsigns : D.Signs n env) {t : Task} {k l : Call} {how : Manner}
    (hk : (F.node n).call t = some k) (hp : how.Possible defaultConfig env.io k (F.node n).server)
    (hafter : how.after engineSetup n env.io k (F.node n).server = how.after engineSetup n env.io l (F.node n).server)
    (hpossible : how.Possible defaultConfig env.io l (F.node n).server) (hcallable : engineSetup.Callable F.cluster n l)
    (hok : ok F.cluster (how.act n env.io l))
    (hsmall : ∀ m ∈ ((F.settle n env ((F.node n).run n env t how)).node n).server.sent, m.payload.Small) :
    engineSetup.nested.Reaches ok F.cluster (F.settle n env ((F.node n).run n env t how)).cluster ∧
      Carried D P (F.settle n env ((F.node n).run n env t how)) := by
  obtain ⟨hserver, hnvs, hqueue⟩ := h.run_spec hn hk hp
  rw [hafter] at hserver
  have hheard : ∀ m, l.heard = some m → m.payload.Plain P := by
    intro m hm
    obtain ⟨-, a, ha, hsent⟩ := hcallable.heard m hm
    exact (h.plain a ha).sent m hsent
  refine h.arrive hblind hr hn hsigns ?_ ?_ ?_ hnvs hqueue hsmall
  · refine .single ⟨how.act n env.io l, Manner.enabled_act hcallable hpossible, hok, ?_⟩
    rw [Manner.exec_act, hserver]
    rfl
  · rw [hserver]
    exact (h.plain n hn).after (bare_io env) hheard hpossible (hblind.submits _ _ hok)
  · rw [hserver]
    exact Manner.after_grow how hpossible

/-- **Every step of the fleet is a run of the cluster**, and leaves the network in order. -/
theorem exec (h : Carried D P F) (hblind : Blind ok P) (hr : engineSetup.nested.Reachable ok F.cluster) {a : FleetAction}
    (hen : D.sys.enabled F a) (hmeets : D.Meets ok F a) :
    engineSetup.nested.Reaches ok F.cluster (D.sys.exec F a).cluster ∧ Carried D P (D.sys.exec F a) := by
  obtain ⟨hok, hsmall⟩ := hmeets
  cases a with
  | boot n env => exact h.boot hblind hr hen.1 hen.2 hok (hsmall n hen.1)
  | task n env t how =>
    obtain ⟨hn, hsigns, k, hk, hp⟩ := hen
    have hsmall : ∀ m ∈ ((F.settle n env ((F.node n).run n env t how)).node n).server.sent, m.payload.Small := hsmall n hn
    have hok : ok F.cluster (how.act n env.io k) := by
      have hall : engineSetup.AllMeet ok (F.actions (.task n env t how)) F.cluster := hok
      rw [Fleet.actions, hk] at hall
      exact hall.1
    have hfree : (∀ m, k.heard ≠ some m) → engineSetup.Callable F.cluster n k :=
      fun hno => ⟨hn, fun m hm => absurd (hm ▸ rfl) (hno m)⟩
    cases t with
    | tick =>
      obtain rfl := Option.some.inj hk
      exact h.task hblind hr hn hsigns hk hp rfl hp (hfree nofun) hok hsmall
    | submit type data =>
      obtain rfl := Option.some.inj hk
      exact h.task hblind hr hn hsigns hk hp rfl hp (hfree nofun) hok hsmall
    | drain =>
      obtain ⟨msg, hmsg, rfl⟩ := Option.map_eq_some_iff.1 hk
      obtain ⟨m, hm, hto, hstands⟩ := h.queued n hn msg (List.mem_of_mem_head? hmsg)
      exact h.task (l := .handle m) hblind hr hn hsigns hk hp (after_stands hstands n env.io _ how)
        ((possible_stands hstands defaultConfig env.io _ how).1 hp)
        ⟨hn, fun m' hm' => by obtain rfl := Call.handle.inj hm'; exact ⟨hto, hm⟩⟩
        (hblind.stands _ _ _ _ _ _ hstands hok) hsmall
  | deliver p =>
    obtain ⟨hdest, hput⟩ := hen
    cases hdecode : D.decode p with
    | none =>
      have hstill : D.sys.exec F (.deliver p) = F := by
        simp only [Deployment.sys, hdecode]
      rw [hstill]
      exact ⟨.refl, h⟩
    | some msg =>
      have hqueue : D.sys.exec F (.deliver p) =
          { F with node := Function.update F.node p.dest ((F.node p.dest).receive msg) } := by
        simp only [Deployment.sys, hdecode]
      rcases hput with hput | hnone
      · obtain ⟨m, msg', hm, hto, hdecoded, hstands⟩ := h.packets p hput hdest
        obtain rfl : msg' = msg := Option.some.inj (hdecoded.symm.trans hdecode)
        obtain ⟨hcluster, hcarried⟩ := h.received hm hto hstands hqueue
        rw [hcluster]
        exact ⟨.refl, hcarried⟩
      · rw [hdecode] at hnone
        cases hnone

theorem init (D : Deployment) (P : EntryType → List Byte → Prop) : Carried D P D.sys.init where
  plain n _ := engineSetup.plain_rebuild n (fun m hm => by cases hm) (fun e he => by cases he)
  nvs _ _ := rfl
  packets p hp := by cases hp
  queued _ _ msg hmsg := by cases hmsg

theorem reaches {F' : Fleet} (h : Carried D P F) (hblind : Blind ok P) (hr : engineSetup.nested.Reachable ok F.cluster)
    (hF : D.sys.Reaches (D.Meets ok) F F') :
    engineSetup.nested.Reaches ok F.cluster F'.cluster ∧ Carried D P F' := by
  obtain ⟨hruns, -, hcarried⟩ := hF.simulated Fleet.cluster
    (P := fun x => engineSetup.nested.Reachable ok x.cluster ∧ Carried D P x) (fun x a hx hen hmeets => by
      obtain ⟨hstep, hnext⟩ := hx.2.exec hblind hx.1 hen hmeets
      exact ⟨hstep, hx.1.trans hstep, hnext⟩) ⟨hr, h⟩
  exact ⟨hruns, hcarried⟩

theorem reachable (hblind : Blind ok P) (hF : D.sys.Reachable (D.Meets ok) F) :
    engineSetup.nested.Reachable ok F.cluster ∧ Carried D P F :=
  (init D P).reaches hblind .refl hF

end Carried

/-! ## Whole runs -/

/-- What is asked of each call and each submit by itself. -/
theorem blind_nests {ok : Cluster → Action → Prop} {P : EntryType → List Byte → Prop}
    (hterms : ∀ c a, ok c a → engineSetup.TermsFit c a) (hsubmits : ∀ c a, ok c a → Submits P a)
    (hstands : ∀ c n io msg m, Stands msg m → (ok c (.call n io (.handle msg)) → ok c (.call n io (.handle m))) ∧
      ∀ made, ok c (.crash n io (.handle msg) made) → ok c (.crash n io (.handle m) made)) : Blind (Nests ok) P where
  terms _ _ h := h.mono hterms
  submits _ _ h := h.mono hsubmits
  stands c n io msg m how hm h := by
    obtain ⟨hcall, hcrash⟩ := hstands c n io msg m hm
    cases how with
    | whole => exact hcall h
    | nested answers => exact ⟨hcall h.1, h.2⟩
    | cut answers made => exact ⟨hcrash made h.1, h.2⟩

theorem electing_stands {msg m : Message} (h : Stands msg m) (io : Io) (s : Server) :
    s.electing io (.handle msg) = s.electing io (.handle m) := by
  obtain ⟨sender, recipient, payload⟩ := msg
  obtain ⟨sender', recipient', payload'⟩ := m
  obtain rfl : payload = payload' := h.1
  cases payload <;> rfl

theorem termsFit_stands (c : Cluster) (n : Nat) (io : Io) (msg m : Message) (h : Stands msg m) :
    (engineSetup.TermsFit c (.call n io (.handle msg)) → engineSetup.TermsFit c (.call n io (.handle m))) ∧
      ∀ made, engineSetup.TermsFit c (.crash n io (.handle msg) made) →
        engineSetup.TermsFit c (.crash n io (.handle m) made) := by
  unfold Setup.TermsFit
  dsimp only
  rw [electing_stands h]
  exact ⟨id, fun _ => id⟩

/-- Elections that fit are all that `TermsFit` asks for. -/
theorem blind_termsFit : Blind (Nests engineSetup.TermsFit) (fun _ _ => True) :=
  blind_nests (fun _ _ h => h) (fun c a _ => by unfold Submits; split <;> trivial) termsFit_stands

theorem blind_submits (P : EntryType → List Byte → Prop) :
    Blind (Nests fun c a => engineSetup.TermsFit c a ∧ Submits P a) P :=
  blind_nests (fun _ _ h => h.1) (fun _ _ h => h.2) (fun c n io msg m hm =>
    have hfit := termsFit_stands c n io msg m hm
    ⟨fun h => ⟨hfit.1 h.1, trivial⟩, fun made h => ⟨hfit.2 made h.1, trivial⟩⟩)

/-! ### Runs written down -/

inductive FleetTurn where
  | boot (n now : Nat)
  | task (n now : Nat) (t : Task) (how : Manner)
  | deliver (nth : Nat)

namespace FleetTurn

def tick (n now : Nat) : FleetTurn := .task n now .tick .whole

def submit (n now : Nat) (type : EntryType) (data : List Byte) : FleetTurn := .task n now (.submit type data) .whole

def drain (n now : Nat) : FleetTurn := .task n now .drain .whole

end FleetTurn

/-- The clock stands at `now`, every address is known, and what is signed is signed with sevens. -/
def Env.at (now : Nat) : Env := ⟨fun _ => now, fun _ => 0, fun _ => true, fun _ => some (List.replicate 64 7), fun _ => 0xAA⟩

/-- Every node trusts all three, and any signature will do. -/
def openMesh : Deployment where
  psa := { computeDigest := fun bytes => .ok bytes, verifyHash := fun _ _ _ => psaSuccess }
  store := fun _ => ⟨expectedEuis.map (fun eui => ⟨eui, 1, true⟩)⟩

instance decidableEntrySmall (e : Entry) : Decidable e.Small := inferInstanceAs (Decidable (_ ∧ _))

instance decidablePayloadSmall : ∀ p : Payload, Decidable p.Small
  | .requestVote _ => inferInstanceAs (Decidable (_ ∧ _ ∧ _ ∧ _))
  | .requestVoteResp _ => inferInstanceAs (Decidable (_ < _))
  | .appendEntries _ => inferInstanceAs (Decidable (_ ∧ _ ∧ _ ∧ _ ∧ _ ∧ _))
  | .appendEntriesResp _ => inferInstanceAs (Decidable (_ ∧ _ ∧ _ ∧ _))
  | .installSnapshot _ => inferInstanceAs (Decidable (_ ∧ _ ∧ _ ∧ _ ∧ _ ∧ _))
  | .installSnapshotResp _ => inferInstanceAs (Decidable (_ ∧ _))

instance decidableAllMeet (S : Setup) (ok : Cluster → NestedAct → Prop) [∀ c a, Decidable (ok c a)] :
    ∀ (as : List NestedAct) (c : Cluster), Decidable (S.AllMeet ok as c)
  | [], _ => inferInstanceAs (Decidable True)
  | a :: as, c =>
    have := decidableAllMeet S ok as (S.nested.exec c a)
    inferInstanceAs (Decidable (_ ∧ _))

instance decidableMeets (D : Deployment) (ok : Cluster → NestedAct → Prop) [∀ c a, Decidable (ok c a)] (F : Fleet)
    (a : FleetAction) : Decidable (D.Meets ok F a) := inferInstanceAs (Decidable (_ ∧ _))

/-- The action a turn stands for: the `nth` packet is counted from the newest. -/
def Fleet.action (F : Fleet) : FleetTurn → Option FleetAction
  | .boot n now => if n ∈ expectedEuis then some (.boot n (.at now)) else none
  | .task n now t how => ((F.node n).call t).bind (fun k =>
      if n ∈ expectedEuis ∧ how.Possible defaultConfig (Env.at now).io k (F.node n).server then
        some (.task n (.at now) t how)
      else none)
  | .deliver nth => (F.packets[nth]?.filter (fun p => decide (p.dest ∈ expectedEuis))).map .deliver

section

variable (ok : Cluster → NestedAct → Prop) [∀ c a, Decidable (ok c a)]

/-- Play a schedule on the open mesh, skipping the turns that are not possible. -/
def playFleet : List FleetTurn → Fleet → Fleet
  | [], F => F
  | t :: ts, F => playFleet ts (match F.action t with
    | some a => if openMesh.Meets ok F a then openMesh.sys.exec F a else F
    | none => F)

theorem signs_at {n : Nat} (hn : n ∈ expectedEuis) (now : Nat) : openMesh.Signs n (.at now) := by
  intro bytes sig hsig
  obtain rfl := Option.some.inj hsig
  refine ⟨by decide, fun k _ => ?_⟩
  have hpeer : ∀ m ∈ expectedEuis, ((openMesh.store 0).findPeer m).isSome = true := by decide
  obtain ⟨peer, hpeer⟩ := Option.isSome_iff_exists.1 (hpeer n hn)
  show (openMesh.store 0).verify openMesh.psa n bytes _ = psaSuccess
  unfold TrustedDeviceStore.verify
  rw [hpeer]
  rfl

theorem action_enabled_fleet {F : Fleet} {t : FleetTurn} {a : FleetAction} (h : F.action t = some a) :
    openMesh.sys.enabled F a := by
  cases t with
  | boot n now =>
    unfold Fleet.action at h
    dsimp only at h
    split at h
    · rename_i hn
      obtain rfl := Option.some.inj h
      exact ⟨hn, signs_at hn now⟩
    · cases h
  | task n now t how =>
    obtain ⟨k, hk, h⟩ := Option.bind_eq_some_iff.1 h
    split at h
    · rename_i hn
      obtain rfl := Option.some.inj h
      exact ⟨hn.1, signs_at hn.1 now, k, hk, hn.2⟩
    · cases h
  | deliver nth =>
    obtain ⟨p, hp, rfl⟩ := Option.map_eq_some_iff.1 h
    obtain ⟨hp, hdest⟩ := Option.filter_eq_some_iff.1 hp
    exact ⟨of_decide_eq_true hdest, .inl (List.mem_of_getElem? hp)⟩

theorem reaches_playFleet : ∀ (ts : List FleetTurn) (F : Fleet),
    openMesh.sys.Reaches (openMesh.Meets ok) F (playFleet ok ts F)
  | [], _ => .refl
  | t :: ts, F => by
    refine .trans ?_ (reaches_playFleet ts _)
    split
    · rename_i a ha
      split
      · rename_i hmeets
        exact .single ⟨a, action_enabled_fleet ha, hmeets, rfl⟩
      · exact .refl
    · exact .refl

end

/-- The first node of the list asks the second, and is elected. -/
def electFirst : List FleetTurn :=
  let a := 0xf4ce360a4eac3643
  let b := 0xf4ce363a5c916092
  [.boot a 0, .boot b 0, .tick a 5000, .deliver 1, .drain b 5000, .deliver 0, .drain a 5000,
   .deliver 1, .drain b 5000, .deliver 0, .drain a 5000]

/-! ### What holds in all of them -/

namespace Server

variable {s : Server} {P : EntryType → List Byte → Prop}

/-- Nothing is sent to a peer whose previous entry is below the snapshot edge. -/
theorem Plain.mem_sendAppendEntries (h : s.Plain P) {p : Peer} {m : Message}
    (hm : m ∈ (s.sendAppendEntries defaultConfig p).sent) :
    m ∈ s.sent ∨ (m.recipient = p.id ∧ s.log.base ≤ p.nextIndex - 1) := by
  unfold Server.sendAppendEntries at hm
  split at hm
  · exact .inl hm
  dsimp only at hm
  split at hm
  · exact .inl (h.sendInstallSnapshot_eq defaultConfig p ▸ hm)
  rename_i hbase
  split at hm
  · exact .inl (h.sendInstallSnapshot_eq defaultConfig p ▸ hm)
  · rcases List.mem_cons.1 hm with rfl | hm
    · exact .inr ⟨rfl, Nat.not_lt.1 hbase⟩
    · exact .inl hm

theorem Plain.mem_broadcast (h : s.Plain P) {m : Message} (hm : m ∈ (s.broadcast defaultConfig).sent) :
    m ∈ s.sent ∨ ∃ p ∈ s.nodes, m.recipient = p.id ∧ s.log.base ≤ p.nextIndex - 1 := by
  have hloop : ∀ (ps : List Peer) (x : Server), x.Plain P → x.log = s.log →
      m ∈ (ps.foldl (fun (s : Server) (p : Peer) => if p.isSelf then s else s.sendAppendEntries defaultConfig p) x).sent →
      m ∈ x.sent ∨ ∃ p ∈ ps, m.recipient = p.id ∧ s.log.base ≤ p.nextIndex - 1 := by
    intro ps
    induction ps with
    | nil => exact fun x _ _ hm => .inl hm
    | cons p ps ih =>
      intro x hx hlog hm
      rw [List.foldl_cons] at hm
      split at hm
      · rcases ih x hx hlog hm with hm | ⟨q, hq, hto, hbase⟩
        · exact .inl hm
        · exact .inr ⟨q, List.mem_cons_of_mem p hq, hto, hbase⟩
      · rcases ih _ (hx.sendAppendEntries p) ((sends_sendAppendEntries defaultConfig p x).log.trans hlog) hm with
          hm | ⟨q, hq, hto, hbase⟩
        · rcases hx.mem_sendAppendEntries hm with hm | ⟨hto, hbase⟩
          · exact .inl hm
          · exact .inr ⟨p, List.mem_cons_self, hto, hlog ▸ hbase⟩
        · exact .inr ⟨q, List.mem_cons_of_mem p hq, hto, hbase⟩
  exact hloop s.nodes s h rfl hm

/-- What the tick of a leader sends. -/
theorem Plain.mem_periodic (h : s.Plain P) (hl : s.state = .leader) (io : Io) {m : Message}
    (hm : m ∈ (s.periodic defaultConfig io).sent) :
    m ∈ s.sent ∨ ∃ p ∈ s.nodes, m.recipient = p.id ∧ s.log.base ≤ p.nextIndex - 1 := by
  have hstate : s.tick.state = .leader := hl
  unfold Server.periodic at hm
  split at hm
  · exact .inl hm
  dsimp only at hm
  rw [if_pos hstate] at hm
  split at hm
  · rw [(becomeFollower_spares (fun _ he => Event.not_send_of_stepping he) defaultConfig io _ _ s.tick).sent] at hm
    exact .inl hm
  split at hm
  · rw [(applyCommitted_still defaultConfig io _).1] at hm
    exact Plain.mem_broadcast (s := { s.tick with lastHeartbeatSent := _ }) (h.frame rfl rfl rfl rfl) hm
  · rw [(applyCommitted_still defaultConfig io _).1] at hm
    exact .inl hm

end Server

/-- **The fleet ships no snapshot**: none was ever sent, and no node has one.  So the ticks of a leader pass over every
peer that needs an entry the leader has compacted. -/
theorem fleet_ships_no_snapshot (D : Deployment) (F : Fleet) (h : D.sys.Reachable (D.Meets (Nests engineSetup.TermsFit)) F)
    (n : Nat) (hn : n ∈ expectedEuis) :
    (F.node n).server.snapLen = 0 ∧
      (∀ m ∈ (F.node n).server.sent, (∀ is, m.payload ≠ .installSnapshot is) ∧ ∀ rr, m.payload ≠ .installSnapshotResp rr) ∧
      ((F.node n).server.state = .leader → ∀ env : Env, ∀ m ∈ ((F.node n).server.periodic defaultConfig env.io).sent,
        m ∈ (F.node n).server.sent ∨
          ∃ p ∈ (F.node n).server.nodes, m.recipient = p.id ∧ (F.node n).server.log.base ≤ p.nextIndex - 1) := by
  have hplain := (Carried.reachable blind_termsFit h).2.plain n hn
  refine ⟨hplain.empty, fun m hm => ?_, fun hl env m hm => hplain.mem_periodic hl env.io hm⟩
  have hm := hplain.sent m hm
  exact ⟨fun is he => by rw [he] at hm; exact hm, fun rr he => by rw [he] at hm; exact hm⟩

/-- After the first election. -/
def elected : Fleet := playFleet (Nests engineSetup.TermsFit) electFirst openMesh.sys.init

theorem reachable_elected : openMesh.sys.Reachable (openMesh.Meets (Nests engineSetup.TermsFit)) elected :=
  reaches_playFleet (Nests engineSetup.TermsFit) electFirst _

theorem fleet_ships_no_snapshot_election : (elected.node 0xf4ce360a4eac3643).server.snapLen = 0 :=
  (fleet_ships_no_snapshot openMesh elected reachable_elected _ (by decide)).1

end Raft
end FloodEws
