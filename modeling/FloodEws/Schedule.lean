import FloodEws.Cluster
/-!
# Schedule — runs of the cluster, written down

A schedule is a list of turns: who is called when, and which of the messages from one node to another is delivered,
counted from the newest.  Playing one skips the turns that are not possible, so that every schedule is a run.
-/
namespace FloodEws
namespace Raft

inductive Turn where
  | start (n now : Nat)
  | periodic (n now : Nat)
  | submit (n now : Nat)
  | snapshot (n now : Nat)
  | deliver (src dst nth now : Nat)
  | restart (n : Nat)

/-- The clock stands at `now`, the jitter is 0 and no snapshot hook is bound. -/
def Io.at (now : Nat) : Io := ⟨fun _ => now, fun _ => 0, none, false⟩

/-- The same, with both snapshot hooks bound; the state machine serialises to the bytes given. -/
def Io.saving (bytes : List Byte) (now : Nat) : Io := ⟨fun _ => now, fun _ => 0, some (fun _ => some bytes), true⟩

/-- The same, with the snapshot callbacks of `Engine::make_cbs`: nothing is ever serialised, and nothing loaded. -/
def Io.engine (now : Nat) : Io := ⟨fun _ => now, fun _ => 0, some (fun _ => some []), false⟩

/-- Every call of the action is answered by `env`, at some time. -/
def Action.AnsweredBy (env : Nat → Io) : Action → Prop
  | .call _ io _ => ∃ now, io = env now
  | .restart _ => True
  | .crash _ _ _ _ => False

namespace Setup

variable (S : Setup)

/-- The action a turn stands for, when it is possible; the environment answers `env now`. -/
def action (env : Nat → Io) (c : Cluster) : Turn → Option Action
  | .start n now => if n ∈ S.ids then some (.call n (env now) .start) else none
  | .periodic n now => if n ∈ S.ids then some (.call n (env now) .periodic) else none
  | .submit n now => if n ∈ S.ids then some (.call n (env now) (.submit .sensorData [])) else none
  | .snapshot n now => if n ∈ S.ids then some (.call n (env now) .beginSnapshot) else none
  | .restart n => if n ∈ S.ids then some (.restart n) else none
  | .deliver src dst nth now =>
    if src ∈ S.ids ∧ dst ∈ S.ids then
      ((c.node src).sent.filter (fun m => m.recipient == dst))[nth]?.map (fun m => .call dst (env now) (.handle m))
    else none

/-- Play a schedule, skipping the turns that are not possible or do not meet `ok`. -/
def play (ok : Cluster → Action → Prop) [∀ c a, Decidable (ok c a)] (env : Nat → Io) : List Turn → Cluster → Cluster
  | [], c => c
  | t :: ts, c => play ok env ts (match S.action env c t with
    | some a => if ok c a then S.sys.exec c a else c
    | none => c)

variable {S}

theorem action_enabled {env : Nat → Io} {c : Cluster} {t : Turn} {a : Action} (h : S.action env c t = some a) :
    S.sys.enabled c a := by
  have hplain : ∀ (n now : Nat) (k : Call), (∀ m, k ≠ .handle m) →
      (if n ∈ S.ids then some (Action.call n (env now) k) else none) = some a → S.sys.enabled c a := by
    intro n now k hk h
    split at h
    · rename_i hn
      injection h with h
      subst h
      exact ⟨hn, fun m hm => absurd hm (hk m)⟩
    · cases h
  cases t with
  | start n now => exact hplain n now _ (fun m => Call.noConfusion) h
  | periodic n now => exact hplain n now _ (fun m => Call.noConfusion) h
  | submit n now => exact hplain n now _ (fun m => Call.noConfusion) h
  | snapshot n now => exact hplain n now _ (fun m => Call.noConfusion) h
  | restart n =>
    rw [action] at h
    split at h
    · rename_i hn
      injection h with h
      subst h
      exact hn
    · cases h
  | deliver src dst nth now =>
    rw [action] at h
    split at h
    · rename_i hn
      obtain ⟨m, hm, rfl⟩ := Option.map_eq_some_iff.1 h
      have hmem := List.mem_of_getElem? hm
      rw [List.mem_filter] at hmem
      refine ⟨hn.2, ?_⟩
      rintro m' ⟨⟩
      exact ⟨by simpa using hmem.2, src, hn.1, hmem.1⟩
    · cases h

theorem action_answered {env : Nat → Io} {c : Cluster} {t : Turn} {a : Action} (h : S.action env c t = some a) :
    a.AnsweredBy env := by
  have hplain : ∀ (n now : Nat) (k : Call),
      (if n ∈ S.ids then some (Action.call n (env now) k) else none) = some a → a.AnsweredBy env := by
    intro n now k h
    split at h
    · injection h with h
      subst h
      exact ⟨now, rfl⟩
    · cases h
  cases t with
  | start n now => exact hplain n now _ h
  | periodic n now => exact hplain n now _ h
  | submit n now => exact hplain n now _ h
  | snapshot n now => exact hplain n now _ h
  | restart n =>
    rw [action] at h
    split at h
    · injection h with h
      subst h
      trivial
    · cases h
  | deliver src dst nth now =>
    rw [action] at h
    split at h
    · obtain ⟨m, -, rfl⟩ := Option.map_eq_some_iff.1 h
      exact ⟨now, rfl⟩
    · cases h

/-- **Every schedule is a run**, also under a side condition that follows from the one it was played under and from how
the environment answers. -/
theorem reaches_play_of {ok ok' : Cluster → Action → Prop} [∀ c a, Decidable (ok c a)] {env : Nat → Io}
    (hok : ∀ c a, ok c a → a.AnsweredBy env → ok' c a) :
    ∀ (ts : List Turn) (c : Cluster), S.sys.Reaches ok' c (S.play ok env ts c)
  | [], _ => .refl
  | t :: ts, c => by
    rw [play]
    split
    · rename_i a ha
      split
      · rename_i h
        exact Relation.ReflTransGen.head ⟨a, action_enabled ha, hok c a h (action_answered ha), rfl⟩
          (reaches_play_of hok ts _)
      · exact reaches_play_of hok ts c
    · exact reaches_play_of hok ts c

theorem reaches_play (ok : Cluster → Action → Prop) [∀ c a, Decidable (ok c a)] (env : Nat → Io) (ts : List Turn)
    (c : Cluster) : S.sys.Reaches ok c (S.play ok env ts c) :=
  reaches_play_of (fun _ _ h _ => h) ts c

theorem reachable_play (ok : Cluster → Action → Prop) [∀ c a, Decidable (ok c a)] (env : Nat → Io) (ts : List Turn) :
    S.sys.Reachable ok (S.play ok env ts S.init) :=
  reaches_play ok env ts S.init

/-- Play a schedule on a system that carries the cluster along, skipping the turns that are not possible or do not meet
`ok`. -/
def playOver (S : Setup) {σ : Type} (M : Sys σ Action) (view : σ → Cluster) (ok : σ → Action → Prop)
    [∀ x a, Decidable (ok x a)] (env : Nat → Io) : List Turn → σ → σ
  | [], x => x
  | t :: ts, x => playOver S M view ok env ts (match S.action env (view x) t with
    | some a => if ok x a then M.exec x a else x
    | none => x)

theorem reaches_playOver {σ : Type} {M : Sys σ Action} {view : σ → Cluster} {ok : σ → Action → Prop}
    [∀ x a, Decidable (ok x a)] {env : Nat → Io} (hen : ∀ x a, S.sys.enabled (view x) a → M.enabled x a) :
    ∀ (ts : List Turn) (x : σ), M.Reaches ok x (S.playOver M view ok env ts x)
  | [], _ => .refl
  | t :: ts, x => by
    rw [playOver]
    split
    · rename_i a ha
      split
      · rename_i h
        exact Relation.ReflTransGen.head ⟨a, hen x a (action_enabled ha), h, rfl⟩ (reaches_playOver hen ts _)
      · exact reaches_playOver hen ts x
    · exact reaches_playOver hen ts x

end Setup

instance {σ : Type} (x : σ) (a : Action) : Decidable (Sys.always x a) := inferInstanceAs (Decidable True)

instance (c : Cluster) : ∀ a : Action, Decidable (NoRestart c a)
  | .call _ _ _ => inferInstanceAs (Decidable True)
  | .restart _ => inferInstanceAs (Decidable False)
  | .crash _ _ _ _ => inferInstanceAs (Decidable False)

/-- A probe, its answer, the request for the vote and its answer: `a` becomes leader with the vote of `b`. -/
def elect (a b now : Nat) : List Turn :=
  [.periodic a now, .deliver a b 0 now, .deliver b a 0 now, .deliver a b 0 now, .deliver b a 0 now]

/-- Nodes 1, 2 and 3 with fresh storage, under the default policy. -/
def trio : Setup where
  cfg := defaultConfig
  ids := [1, 2, 3]
  boot := fun _ => (0, badNode)
  nodup := by decide
  ne_nil := by decide
  le_max := by decide

/-- All three are started. -/
def startAll : List Turn := [.start 1 0, .start 2 0, .start 3 0]

end Raft
end FloodEws
