import FloodEws.Cluster
import FloodEws.Underway
/-!
# Steps — invariants of the cluster, move by move

An action of the cluster is a call at one node, or such a call cut short and the node rebuilt.  `call_invariant` reduces
the first to the moves of that node, with the rest of the cluster standing still and the message being handled still on
record.  The lemmas on node tables say which columns of the table a move leaves alone.
-/
namespace FloodEws
namespace Raft

/-! ## The node table -/

/-- A column that the update does not change. -/
theorem map_modifyNode {β : Type} {n : Nat} {f : Peer → Peer} (g : Peer → β) (hg : ∀ p, g (f p) = g p) :
    ∀ ps : List Peer, (modifyNode n f ps).map g = ps.map g
  | [] => rfl
  | p :: ps => by
    rw [modifyNode]
    split
    · rw [List.map_cons, List.map_cons, hg]
    · rw [List.map_cons, List.map_cons, map_modifyNode g hg ps]

/-- A column without the next index, when only that one changed. -/
theorem map_aim {β : Type} {ps qs : List Peer} (g : Peer → β) (hg : ∀ p, g { p with nextIndex := 0 } = g p)
    (h : ps.map (fun p => { p with nextIndex := 0 }) = qs.map (fun p => { p with nextIndex := 0 })) :
    ps.map g = qs.map g := by
  have hcol : ∀ l : List Peer, l.map g = (l.map (fun p => { p with nextIndex := 0 })).map g := by
    intro l
    rw [List.map_map]
    exact List.map_congr_left (fun p _ => (hg p).symm)
  rw [hcol ps, hcol qs, h]

theorem mem_aim {ps qs : List Peer} {p : Peer}
    (h : ps.map (fun p => { p with nextIndex := 0 }) = qs.map (fun p => { p with nextIndex := 0 })) (hp : p ∈ ps) :
    ∃ q ∈ qs, q.isSelf = p.isSelf ∧ p.id = q.id ∧ p.matchIndex = q.matchIndex := by
  have hcol : ps.map (fun p => (p.isSelf, p.id, p.matchIndex)) = qs.map (fun p => (p.isSelf, p.id, p.matchIndex)) :=
    map_aim _ (fun _ => rfl) h
  have hmem : (p.isSelf, p.id, p.matchIndex) ∈ qs.map (fun p => (p.isSelf, p.id, p.matchIndex)) := by
    rw [← hcol]
    exact List.mem_map_of_mem hp
  obtain ⟨q, hq, heq⟩ := List.mem_map.1 hmem
  injection heq with hself heq
  injection heq with hid hmatch
  exact ⟨q, hq, hself, hid.symm, hmatch.symm⟩

/-! ## The cluster -/

namespace Cluster

@[simp] theorem set_node_self (c : Cluster) (n : Nat) (s : Server) : (c.set n s).node n = s := Function.update_self _ _ _

theorem set_node_ne {c : Cluster} {n a : Nat} {s : Server} (h : a ≠ n) : (c.set n s).node a = c.node a :=
  Function.update_of_ne h _ _

@[simp] theorem set_self (c : Cluster) (n : Nat) : c.set n (c.node n) = c := by
  unfold set
  rw [Function.update_eq_self]

@[simp] theorem set_set (c : Cluster) (n : Nat) (s s' : Server) : (c.set n s).set n s' = c.set n s' := by
  unfold set
  rw [Function.update_idem]

end Cluster

theorem mem_sent {s : Server} {m : Message} : m ∈ s.sent ↔ ∃ t v, Event.send t v m ∈ s.calls := by
  unfold Server.sent
  rw [List.mem_filterMap]
  constructor
  · rintro ⟨e, he, h⟩
    cases e with
    | send t v m' =>
      injection h with h
      subst h
      exact ⟨t, v, he⟩
    | _ => cases h
  · rintro ⟨t, v, he⟩
    exact ⟨_, he, rfl⟩

theorem sent_append {s s' : Server} {evs : List Event} (h : s'.calls = evs ++ s.calls) {m : Message} (hm : m ∈ s.sent) :
    m ∈ s'.sent := by
  rw [mem_sent] at hm ⊢
  obtain ⟨t, v, hm⟩ := hm
  exact ⟨t, v, by rw [h]; exact List.mem_append_right evs hm⟩

namespace Setup

variable {S : Setup}

theorem InFlight.set {c : Cluster} {m : Message} (h : S.InFlight c m) {n : Nat} {s : Server} {evs : List Event}
    (hc : s.calls = evs ++ (c.node n).calls) : S.InFlight (c.set n s) m := by
  obtain ⟨a, ha, hm⟩ := h
  refine ⟨a, ha, ?_⟩
  by_cases han : a = n
  · subst han
    rw [Cluster.set_node_self]
    exact sent_append hc hm
  · rw [Cluster.set_node_ne han]
    exact hm

/-- **The rule for chains**: what every link of a chain at one node preserves, the chain preserves.  The property must not
depend on what `core` forgets. -/
theorem chain_invariant {P : Cluster → Prop} {R : Server → Server → Prop} {c : Cluster} {n : Nat} {heard : Option Message}
    {y : Server} (hc : P c) (hheard : ∀ m, heard = some m → m.recipient = n ∧ S.InFlight c m)
    (hgrow : ∀ x x', R x x' → ∃ evs, x'.calls = evs ++ x.calls)
    (hchain : Relation.ReflTransGen R (c.node n).core y.core) (hcore : ∀ x : Server, P (c.set n x) ↔ P (c.set n x.core))
    (hlink : ∀ x x', P (c.set n x) → (∃ evs, x.calls = evs ++ (c.node n).calls) →
      (∀ m, heard = some m → m.recipient = n ∧ S.InFlight (c.set n x) m) → R x x' → P (c.set n x')) :
    P (c.set n y) := by
  have hrun : ∀ x, Relation.ReflTransGen R (c.node n).core x → P (c.set n x) ∧ ∃ evs, x.calls = evs ++ (c.node n).calls := by
    intro x hx
    induction hx with
    | refl => exact ⟨(hcore _).1 (by rw [Cluster.set_self]; exact hc), [], rfl⟩
    | tail _ hstep ih =>
      obtain ⟨hp, evs, he⟩ := ih
      obtain ⟨evs', he'⟩ := hgrow _ _ hstep
      refine ⟨hlink _ _ hp ⟨evs, he⟩ (fun m hm => ?_) hstep, evs' ++ evs, by rw [he', he, List.append_assoc]⟩
      exact ⟨(hheard m hm).1, (hheard m hm).2.set he⟩
  exact (hcore _).2 (hrun _ hchain).1

/-- A message that is handled was sent to the node. -/
theorem Callable.heard {c : Cluster} {n : Nat} {k : Call} (hk : S.Callable c n k) :
    ∀ m, k.heard = some m → m.recipient = n ∧ S.InFlight c m := by
  intro m hm
  refine hk.2 m ?_
  cases k <;> first | cases hm; rfl | cases hm

/-- **The rule for calls**: what every move of the called node preserves, the call preserves. -/
theorem call_invariant {P : Cluster → Prop} (fit : Prop) {c : Cluster} {n : Nat} {io : Io} {k : Call} (hc : P c)
    (hk : S.Callable c n k) (hfit : fit → (c.node n).electing io k = true → (c.node n).currentTerm + 1 < 2 ^ 64)
    (hcore : ∀ x : Server, P (c.set n x) ↔ P (c.set n x.core))
    (hmove : ∀ x y, P (c.set n x) → (∃ evs, x.calls = evs ++ (c.node n).calls) →
      (∀ m, k.heard = some m → m.recipient = n ∧ S.InFlight (c.set n x) m) →
      Move S.cfg io fit k.heard (c.node n) x y → P (c.set n y)) :
    P (c.set n ((c.node n).perform S.cfg io k)) :=
  chain_invariant hc hk.heard (fun _ _ => Server.Move.calls_grow) (Server.perform_moves S.cfg io fit (c.node n) k hfit)
    hcore hmove

end Setup

end Raft
end FloodEws
