import FloodEws.Runs
import FloodEws.Server
/-!
# Cluster — the servers and the messages between them

A cluster is one server per node id.  The network keeps every message ever sent and may hand any of them to its
recipient at any time, any number of times: loss, duplication, delay and reordering are the schedules that never, or
repeatedly, or late, or out of order pick one.  Each call brings its own clock readings, random numbers and snapshot
bytes.

A node can go down between two calls (`restart`) or inside one, after some of its callbacks were made (`crash`); it
comes back as `Engine::start` and `Cluster::restart` bring it back, with nothing but the pair it last passed to
`m_persist_state`.  The callbacks it made before stay on record.
-/
namespace FloodEws
namespace Raft

/-- A cluster's fixed part: the policy, the node ids every server is built with, and the pair `(term, voted_for)` each
node's storage holds before the node first persists one. -/
structure Setup where
  cfg : Config
  ids : List Nat
  boot : Nat → Nat × Nat
  nodup : ids.Nodup
  ne_nil : ids ≠ []
  le_max : ids.length ≤ cfg.maxNodes

structure Cluster where
  node : Nat → Server

/-- Replace one server. -/
def Cluster.set (c : Cluster) (n : Nat) (s : Server) : Cluster := ⟨Function.update c.node n s⟩

/-- The last pair passed to `m_persist_state`. -/
def lastPersisted (boot : Nat × Nat) : List Event → Nat × Nat
  | [] => boot
  | .persistState t v :: _ => (t, v)
  | _ :: es => lastPersisted boot es

/-- The messages a server has sent, newest first. -/
def Server.sent (s : Server) : List Message :=
  s.calls.filterMap (fun e => match e with | .send _ _ m => some m | _ => none)

namespace Setup

/-- A server built anew and given the persisted pair. -/
def rebuild (S : Setup) (n : Nat) (calls : List Event) : Server :=
  { (Server.new S.cfg n S.ids).restoreState (lastPersisted (S.boot n) calls).1 (lastPersisted (S.boot n) calls).2 with
    calls := calls }

def init (S : Setup) : Cluster := ⟨fun n => S.rebuild n []⟩

def InFlight (S : Setup) (c : Cluster) (m : Message) : Prop := ∃ n ∈ S.ids, m ∈ (c.node n).sent

end Setup

inductive Action where
  | call (n : Nat) (io : Io) (k : Call)
  | restart (n : Nat)
  | crash (n : Nat) (io : Io) (k : Call) (made : Nat)

/-- A call can be made at any node; a message is only handled by its recipient, after it was sent. -/
def Setup.Callable (S : Setup) (c : Cluster) (n : Nat) (k : Call) : Prop :=
  n ∈ S.ids ∧ ∀ m, k = .handle m → m.recipient = n ∧ S.InFlight c m

/-- The callbacks on record when a node goes down inside a call: the oldest `made` new ones. -/
def callsAfter (made : Nat) (before after : List Event) : List Event :=
  after.drop (after.length - before.length - made)

/-- The callbacks that were made between two states of the record. -/
def newEvents (before after : List Event) : List Event := after.take (after.length - before.length)

def Setup.sys (S : Setup) : Sys Cluster Action where
  init := S.init
  enabled := fun c a => match a with
    | .call n _ k => S.Callable c n k
    | .restart n => n ∈ S.ids
    | .crash n _ k _ => S.Callable c n k
  exec := fun c a => match a with
    | .call n io k => c.set n ((c.node n).perform S.cfg io k)
    | .restart n => c.set n (S.rebuild n (c.node n).calls)
    | .crash n io k made => c.set n (S.rebuild n (callsAfter made (c.node n).calls ((c.node n).perform S.cfg io k).calls))

/-- No node goes down. -/
def NoRestart (_ : Cluster) : Action → Prop
  | .call _ _ _ => True
  | .restart _ => False
  | .crash _ _ _ _ => False

end Raft
end FloodEws
