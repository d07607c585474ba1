import FloodEws.Fleet
import FloodEws.Safety
/-!
# Alike — the entries the fleet applies

What the engines hand to their applications.  Every entry is the no-op of some leader or was submitted at some node
(`fleet_applies_submitted`).  And as long as the messages that are accepted do no harm, no node loses power inside a task
or once its log is filled, and the callback of a new leader appends nothing, the engines apply entries 1, 2, 3, … of one
sequence: of two nodes, one has applied what the other has and maybe more (`fleet_applies_alike`).
-/
namespace FloodEws

/-! ## Numbered sequences -/

section

variable {α : Type*} {number : α → Nat} {xs ys : List α}

/-- Numbered from one on, the newest first. -/
inductive Numbered (number : α → Nat) : List α → Prop
  | nil : Numbered number []
  | cons {x : α} {xs : List α} (hx : number x = xs.length + 1) (hxs : Numbered number xs) : Numbered number (x :: xs)

/-- **Of two sequences that agree on every number, the shorter is the beginning of the longer.** -/
theorem Numbered.suffix (hx : Numbered number xs) (hy : Numbered number ys)
    (hagree : ∀ x ∈ xs, ∀ y ∈ ys, number x = number y → x = y) (hle : xs.length ≤ ys.length) : xs <:+ ys := by
  induction hy generalizing xs with
  | nil =>
    obtain rfl := List.eq_nil_of_length_eq_zero (Nat.le_zero.1 hle)
    exact List.suffix_refl []
  | @cons y ys hnum _ ih =>
    rcases Nat.lt_or_eq_of_le hle with hlt | heq
    · exact (ih hx (fun x h z hz => hagree x h z (List.mem_cons_of_mem y hz)) (Nat.le_of_lt_succ hlt)).trans
        (List.suffix_cons y ys)
    · cases hx with
      | nil => cases heq
      | @cons x xs hnum' hxs =>
        have hlen : xs.length = ys.length := Nat.succ.inj heq
        have hsame : x = y := hagree x List.mem_cons_self y List.mem_cons_self (by rw [hnum', hnum, hlen])
        have hrest : xs <:+ ys := ih hxs
          (fun x h z hz => hagree x (List.mem_cons_of_mem _ h) z (List.mem_cons_of_mem y hz)) (Nat.le_of_eq hlen)
        rw [hsame, hrest.eq_of_length hlen]

end

namespace Raft

open Ingress (psaSuccess)

/-! ## What a server has applied -/

/-- The entries of the calls of `m_apply`, newest first. -/
def appliedEntries (calls : List Event) : List Entry :=
  calls.filterMap (fun ev => match ev with | .apply _ e => some e | _ => none)

theorem mem_appliedEntries {calls : List Event} {e : Entry} : e ∈ appliedEntries calls ↔ ∃ i, .apply i e ∈ calls := by
  unfold appliedEntries
  rw [List.mem_filterMap]
  constructor
  · rintro ⟨ev, hev, he⟩
    cases ev with
    | apply i x => exact ⟨i, Option.some.inj he ▸ hev⟩
    | _ => cases he
  · rintro ⟨i, hev⟩
    exact ⟨_, hev, rfl⟩

/-- A gapless record without snapshots numbers its entries. -/
theorem numbered_applied {calls : List Event} (h : Gapless calls) (hno : ∀ li bytes, .snapshotLoad li bytes ∉ calls) :
    Numbered Entry.index (appliedEntries calls) ∧ (appliedEntries calls).length = appliedUpTo calls := by
  induction calls with
  | nil => exact ⟨.nil, rfl⟩
  | cons ev calls ih =>
    have hrest : ∀ li bytes, .snapshotLoad li bytes ∉ calls := fun li bytes hm => hno li bytes (List.mem_cons_of_mem ev hm)
    cases ev with
    | apply i e =>
      obtain ⟨hnum, hlen⟩ := ih h.2 hrest
      have hindex : e.index = (appliedEntries calls).length + 1 := hlen.symm ▸ h.1
      exact ⟨.cons hindex hnum, hindex.symm⟩
    | snapshotLoad li bytes => exact absurd List.mem_cons_self (hno li bytes)
    | _ => exact ih h hrest

/-- The message that is accepted keeps the applied sequence. -/
def Setup.ApplyFits (S : Setup) (c : Cluster) : Action → Prop
  | .call n io k => (c.node n).ApplyOk S.cfg io k.heard
  | _ => True

/-- A node goes down only between two calls and while its log is empty, no election is started at the last term, every
message that is accepted harms neither what was acknowledged nor the applied sequence, and what the callback of
`become_leader` submits is refused. -/
def Setup.Harmless (S : Setup) (c : Cluster) (a : NestedAct) : Prop :=
  Nests (fun c a => S.SafeSteps c a ∧ S.ApplyFits c a) c a ∧ S.LeadsAlone c a

section

variable {S : Setup} {c : Cluster} {n : Nat} {io : Io} {k : Call}

/-- A call that does no harm is a chain of moves, however it runs. -/
theorem Setup.Harmless.moves {how : Manner} (hok : S.Harmless c (how.act n io k))
    (hp : how.Possible S.cfg io k (c.node n)) :
    (S.SafeSteps c (.call n io k) ∧ S.ApplyFits c (.call n io k)) ∧
      Moves S.cfg io True k.heard (c.node n) (c.node n).core (how.after S n io k (c.node n)).core := by
  obtain ⟨hsteps, halone⟩ := hok
  cases how with
  | whole => exact ⟨hsteps, Server.perform_moves S.cfg io True (c.node n) k (fun _ => hsteps.1.1)⟩
  | nested answers => exact ⟨hsteps.1, Server.answered_moves (fun _ => hsteps.1.1.1) halone hp.2⟩
  | cut answers made => exact hsteps.1.1.elim

/-- The actions that do no harm: a call however it runs, or a restart. -/
theorem Setup.Harmless.cases {act : NestedAct} (hok : S.Harmless c act) (hen : S.nested.enabled c act) :
    (∃ n io k how, act = Manner.act n io k how ∧ S.Callable c n k ∧ how.Possible S.cfg io k (c.node n)) ∨
      ∃ n, act = .plain (.restart n) ∧ (c.node n).log.lastIndex = 0 := by
  obtain ⟨hsteps, -⟩ := hok
  cases act with
  | plain a =>
    cases a with
    | call n io k => exact .inl ⟨n, io, k, .whole, rfl, hen, trivial⟩
    | restart n => exact .inr ⟨n, rfl, hsteps.1⟩
    | crash n io k made => exact hsteps.1.elim
  | nested n io k answers => exact .inl ⟨n, io, k, .nested answers, rfl, hen.1, hen.2⟩
  | cut n io k answers made => exact hsteps.1.1.elim

/-- **Every server stands at its last applied index.** -/
theorem applied_reachable (h : S.nested.Reachable S.Harmless c) (n : Nat) : Applied S.cfg (c.node n) := by
  refine Sys.Reachable.invariant (P := fun c => ∀ n, Applied S.cfg (c.node n)) h ?_ ?_ n
  · intro n
    exact ⟨ordered_rebuild S n [], (rebuild_log S n []).2.2.symm, trivial⟩
  · intro x act hx hen hok n
    have hset : ∀ a y, Applied S.cfg y → Applied S.cfg ((x.set a y).node n) := by
      intro a y hy
      by_cases hn : n = a
      · subst hn
        rw [Cluster.set_node_self]
        exact hy
      · rw [Cluster.set_node_ne hn]
        exact hx n
    rcases hok.cases hen with ⟨a, io, k, how, rfl, -, hp⟩ | ⟨a, rfl, hempty⟩
    · obtain ⟨⟨-, happly⟩, hmoves⟩ := hok.moves hp
      rw [Manner.exec_act]
      exact hset a _ ((hx a).moves happly hmoves)
    · -- With an empty log nothing had been applied.
      refine hset a (S.rebuild a (x.node a).calls) ⟨ordered_rebuild S a _, ?_, (hx a).gapless⟩
      have hle := (hx a).order.applied_le
      have hle' := (hx a).order.commit_le
      rw [(rebuild_log S a _).2.2]
      exact (hx a).upTo.trans (by omega)

/-- **The cluster stays sound** when callbacks submit. -/
theorem safe_nested (hids : badNode ∉ S.ids) (hfresh : S.Fresh) (h : S.nested.Reachable S.Harmless c) :
    ∃ g, Safe S g c := by
  refine Sys.Reachable.invariant (P := fun c => ∃ g, Safe S g c) h ⟨_, .init hfresh⟩ ?_
  rintro x act ⟨g, hx⟩ hen hok
  rcases hok.cases hen with ⟨a, io, k, how, rfl, hk, hp⟩ | ⟨a, rfl, hempty⟩
  · obtain ⟨⟨⟨-, hsafe⟩, -⟩, hmoves⟩ := hok.moves hp
    rw [Manner.exec_act]
    refine Setup.chain_invariant (P := fun c => ∃ g, Safe S g c) ⟨g, hx⟩ hk.heard (fun _ _ => Server.Move.calls_grow)
      hmoves (fun _ => exists_congr (fun _ => Safe.core_iff)) ?_
    rintro y z ⟨g', hy⟩ - hheard hmv
    obtain ⟨g'', -, hz⟩ := hy.move hids hk.1 hheard hsafe hmv
    exact ⟨g'', hz⟩
  · exact ⟨g, hx.restart hempty⟩

end

/-- **Two servers apply the same entry at an index.** -/
theorem Safe.applied_agree {S : Setup} {g : Replog Nat Entry} {c : Cluster} (h : Safe S g c) {a b : Nat} {e e' : Entry}
    (he : e ∈ appliedEntries (c.node a).calls) (he' : e' ∈ appliedEntries (c.node b).calls) (hindex : e.index = e'.index) :
    e = e' := by
  obtain ⟨i, hi⟩ := mem_appliedEntries.1 he
  obtain ⟨i', hi'⟩ := mem_appliedEntries.1 he'
  obtain ⟨t, k, hc, hpos, hk, hat⟩ := (h.trust a).applied i e hi
  obtain ⟨t', k', hc', hpos', hk', hat'⟩ := (h.trust b).applied i' e' hi'
  have hown := h.mirrors.indexed t (i - 1) e (Nat.zero_le _) hat
  have hown' := h.mirrors.indexed t' (i' - 1) e' (Nat.zero_le _) hat'
  obtain rfl : i = i' := by omega
  rw [h.sound.chosen_agree hc hc' (by omega) (by omega), hat'] at hat
  exact (Option.some.inj hat).symm

/-! ## The side condition -/

theorem applyFits_stands (c : Cluster) (n : Nat) (io : Io) (msg m : Message) (hm : Stands msg m) :
    (engineSetup.SafeSteps c (.call n io (.handle msg)) ∧ engineSetup.ApplyFits c (.call n io (.handle msg))) →
      engineSetup.SafeSteps c (.call n io (.handle m)) ∧ engineSetup.ApplyFits c (.call n io (.handle m)) := by
  obtain ⟨sender, recipient, payload⟩ := msg
  obtain ⟨sender', recipient', payload'⟩ := m
  obtain rfl : payload = payload' := hm.1
  cases payload <;> exact id

/-- The side condition does not look at who a message is from. -/
theorem blind_harmless : Blind engineSetup.Harmless (fun _ _ => True) where
  terms c a h := h.1.mono (fun c a hk => by
    cases a with
    | call n io k => exact hk.1.1
    | restart n => trivial
    | crash n io k made => exact hk.1.elim)
  submits _ _ h := h.1.mono (fun _ a _ => by unfold Submits; split <;> trivial)
  stands c n io msg m how hm h := by
    obtain ⟨hsteps, halone⟩ := h
    cases how with
    | whole => exact ⟨applyFits_stands c n io msg m hm hsteps, trivial⟩
    | nested answers =>
      refine ⟨⟨applyFits_stands c n io msg m hm hsteps.1, hsteps.2⟩, ?_⟩
      have henter : (c.node n).enter engineSetup.cfg io (.call (.handle msg)) =
          (c.node n).enter engineSetup.cfg io (.call (.handle m)) := (handle_stands hm _ io _).2
      unfold Manner.act Setup.LeadsAlone at halone ⊢
      dsimp only at halone ⊢
      rwa [henter] at halone
    | cut answers made => exact hsteps.1.1.elim

/-! ## What holds in all runs -/

variable {D : Deployment} {F : Fleet}

/-- The record of a node of the fleet has no snapshots. -/
theorem Carried.unloaded {P : EntryType → List Byte → Prop} (h : Carried D P F) {n : Nat} (hn : n ∈ expectedEuis) :
    ∀ li bytes, .snapshotLoad li bytes ∉ (F.node n).server.calls := by
  intro li bytes hm
  obtain ⟨i, e, he, -⟩ := (h.plain n hn).fed _ (List.mem_filter.2 ⟨hm, rfl⟩)
  cases he

/-- **What the fleet applies was submitted**: in every run whose nodes submit only what `P` allows, every entry that any
node applies is the empty no-op of a leader or one that `P` allows. -/
theorem fleet_applies_submitted (P : EntryType → List Byte → Prop) (D : Deployment) (F : Fleet)
    (h : D.sys.Reachable (D.Meets (Nests fun c a => engineSetup.TermsFit c a ∧ Submits P a)) F) (n : Nat) (hn : n ∈ expectedEuis)
    (e : Entry) (he : e ∈ appliedEntries (F.node n).server.calls) : (e.type = .noop ∧ e.data = []) ∨ P e.type e.data := by
  obtain ⟨-, hcarried⟩ := Carried.reachable (blind_submits P) h
  obtain ⟨i, hi⟩ := mem_appliedEntries.1 he
  obtain ⟨j, x, hx, hfrom⟩ := (hcarried.plain n hn).fed _ (List.mem_filter.2 ⟨hi, rfl⟩)
  cases hx
  exact hfrom

/-- What the nodes of the fleet have applied, in runs that do no harm. -/
theorem Carried.numbered (h : D.sys.Reachable (D.Meets engineSetup.Harmless) F) {n : Nat} (hn : n ∈ expectedEuis) :
    Numbered Entry.index (appliedEntries (F.node n).server.calls) ∧
      (appliedEntries (F.node n).server.calls).length = (F.node n).server.lastApplied := by
  obtain ⟨hr, hcarried⟩ := Carried.reachable blind_harmless h
  have happlied : Applied defaultConfig (F.node n).server := applied_reachable hr n
  obtain ⟨hnum, hlen⟩ := numbered_applied happlied.gapless (hcarried.unloaded hn)
  exact ⟨hnum, hlen.trans happlied.upTo⟩

/-- The node that has applied no more than another has applied the beginning of what that has. -/
theorem Carried.suffix (h : D.sys.Reachable (D.Meets engineSetup.Harmless) F) {a b : Nat} (ha : a ∈ expectedEuis)
    (hb : b ∈ expectedEuis) (hle : (F.node a).server.lastApplied ≤ (F.node b).server.lastApplied) :
    appliedEntries (F.node a).server.calls <:+ appliedEntries (F.node b).server.calls := by
  obtain ⟨hr, -⟩ := Carried.reachable blind_harmless h
  obtain ⟨g, hsafe⟩ := safe_nested (S := engineSetup) (by decide) (fun _ => .inl rfl) hr
  obtain ⟨hnuma, hlena⟩ := Carried.numbered h ha
  obtain ⟨hnumb, hlenb⟩ := Carried.numbered h hb
  exact hnuma.suffix hnumb (fun e he e' he' => hsafe.applied_agree he he') (by omega)

instance decidableSubmits (P : EntryType → List Byte → Prop) [∀ type data, Decidable (P type data)] :
    ∀ a : Action, Decidable (Submits P a)
  | .call _ _ (.submit type data) => inferInstanceAs (Decidable (P type data))
  | .call _ _ .start => inferInstanceAs (Decidable True)
  | .call _ _ .stop => inferInstanceAs (Decidable True)
  | .call _ _ .periodic => inferInstanceAs (Decidable True)
  | .call _ _ .beginSnapshot => inferInstanceAs (Decidable True)
  | .call _ _ (.handle _) => inferInstanceAs (Decidable True)
  | .restart _ => inferInstanceAs (Decidable True)
  | .crash _ _ (.submit type data) _ => inferInstanceAs (Decidable (P type data))
  | .crash _ _ .start _ => inferInstanceAs (Decidable True)
  | .crash _ _ .stop _ => inferInstanceAs (Decidable True)
  | .crash _ _ .periodic _ => inferInstanceAs (Decidable True)
  | .crash _ _ .beginSnapshot _ => inferInstanceAs (Decidable True)
  | .crash _ _ (.handle _) _ => inferInstanceAs (Decidable True)

instance decidableApplyFits (S : Setup) (c : Cluster) : ∀ a : Action, Decidable (S.ApplyFits c a)
  | .call n io k => inferInstanceAs (Decidable ((c.node n).ApplyOk S.cfg io k.heard))
  | .restart _ => inferInstanceAs (Decidable True)
  | .crash _ _ _ _ => inferInstanceAs (Decidable True)

instance decidableHarmless (S : Setup) (c : Cluster) (a : NestedAct) : Decidable (S.Harmless c a) :=
  inferInstanceAs (Decidable (_ ∧ _))

/-- The first node is elected and a batch is submitted to it.  The second node takes it; when the first applies it, the
callback submits another entry, which goes the same way. -/
def shipBatch : List FleetTurn :=
  let a := 0xf4ce360a4eac3643
  let b := 0xf4ce363a5c916092
  electFirst ++ [.submit a 6000 .sensorData [1, 2, 3], .deliver 1, .drain b 6000, .deliver 0,
    .task a 6000 .drain (.nested [.go, .go, .go, .submit .egressMsg [1, 2, 3], .go, .go, .go]),
    .tick a 9000, .deliver 1, .drain b 9000, .deliver 0, .drain a 9000, .tick a 12000, .deliver 1, .drain b 12000]

/-- The run of `shipBatch` in which nothing but these three bytes may be submitted. -/
theorem fleet_applies_submitted_batch :
    let F := playFleet (Nests fun c a => engineSetup.TermsFit c a ∧ Submits (fun _ data => data = [1, 2, 3]) a) shipBatch
      openMesh.sys.init
    (appliedEntries (F.node 0xf4ce363a5c916092).server.calls).length = 3 ∧
      ∀ e ∈ appliedEntries (F.node 0xf4ce363a5c916092).server.calls,
        (e.type = .noop ∧ e.data = []) ∨ e.data = [1, 2, 3] := by
  intro F
  exact ⟨by decide +kernel, fun e he => fleet_applies_submitted (fun _ data => data = [1, 2, 3]) openMesh F
    (reaches_playFleet _ shipBatch _) _ (by decide) e he⟩

end Raft
end FloodEws
