import Mathlib.Data.List.Induction
import FloodEws.Schedule
import FloodEws.Underway
/-!
# Persist — the pair on storage, and what is sent with it

`m_persist_state` is called on every change of `(m_current_term, m_voted_for)`.  `Disciplined` is what the record of
callbacks shows when that is done right: a message only leaves while the pair in memory is the last one persisted, and
each persisted pair follows the one before it, in a later term or in the same term with the vote unchanged or new.

Every move keeps it, except a campaign whose term counter wraps.
-/
namespace FloodEws
namespace Raft

/-- The pair `q` may be persisted after the pair `p`. -/
def Follows (p q : Nat × Nat) : Prop := p.1 < q.1 ∨ (p.1 = q.1 ∧ (p.2 = q.2 ∨ p.2 = badNode))

theorem Follows.refl (p : Nat × Nat) : Follows p p := .inr ⟨rfl, .inl rfl⟩

theorem Follows.trans {p q r : Nat × Nat} (h : Follows p q) (h' : Follows q r) : Follows p r := by
  rcases h with h | ⟨ht, hv⟩
  · rcases h' with h' | ⟨ht', -⟩
    · exact .inl (Nat.lt_trans h h')
    · exact .inl (ht' ▸ h)
  · rcases h' with h' | ⟨ht', hv'⟩
    · exact .inl (ht ▸ h')
    · refine .inr ⟨ht.trans ht', ?_⟩
      rcases hv with hv | hv
      · rw [hv]; exact hv'
      · exact .inr hv

/-- **The record of a disciplined server**, newest first, with `boot` the pair restored at the start. -/
def Disciplined (boot : Nat × Nat) : List Event → Prop
  | [] => True
  | .send t v _ :: es => lastPersisted boot es = (t, v) ∧ Disciplined boot es
  | .persistState t v :: es => Follows (lastPersisted boot es) (t, v) ∧ Disciplined boot es
  | _ :: es => Disciplined boot es

/-- The event is neither a message nor a persisted pair. -/
def Event.plain : Event → Bool
  | .send _ _ _ => false
  | .persistState _ _ => false
  | _ => true

theorem Event.plain_of_quiet {e : Event} (h : e.quiet = true) : e.plain = true := by
  cases e <;> first | rfl | cases h

theorem lastPersisted_append_plain {boot : Nat × Nat} {es : List Event} :
    ∀ {evs : List Event}, (∀ e ∈ evs, e.plain = true) → lastPersisted boot (evs ++ es) = lastPersisted boot es
  | [], _ => rfl
  | e :: evs, h => by
    have ih : lastPersisted boot (evs ++ es) = _ := lastPersisted_append_plain (fun x hx => h x (List.mem_cons_of_mem e hx))
    have he := h e List.mem_cons_self
    cases e <;> first | exact ih | cases he

theorem disciplined_append_plain {boot : Nat × Nat} {es : List Event} :
    ∀ {evs : List Event}, (∀ e ∈ evs, e.plain = true) → Disciplined boot es → Disciplined boot (evs ++ es)
  | [], _, hd => hd
  | e :: evs, h, hd => by
    have ih := disciplined_append_plain (fun x hx => h x (List.mem_cons_of_mem e hx)) hd
    have he := h e List.mem_cons_self
    cases e <;> first | exact ih | cases he

theorem Disciplined.of_append {boot : Nat × Nat} {es : List Event} :
    ∀ (evs : List Event), Disciplined boot (evs ++ es) → Disciplined boot es
  | [], h => h
  | e :: evs, h => by
    refine Disciplined.of_append evs ?_
    cases e <;> first | exact h | exact h.2

/-- **The server's record is disciplined and ends in the pair in memory.** -/
structure Synced (boot : Nat × Nat) (s : Server) : Prop where
  last : lastPersisted boot s.calls = (s.currentTerm, s.votedFor)
  disciplined : Disciplined boot s.calls

namespace Synced

variable {boot : Nat × Nat} {s s' : Server}

/-- Callbacks that neither send nor persist, and no change of the pair. -/
theorem plain (h : Synced boot s) (evs : List Event) (hp : ∀ e ∈ evs, e.plain = true) (hc : s'.calls = evs ++ s.calls)
    (ht : s'.currentTerm = s.currentTerm) (hv : s'.votedFor = s.votedFor) : Synced boot s' where
  last := by rw [hc, lastPersisted_append_plain hp, h.last, ht, hv]
  disciplined := by rw [hc]; exact disciplined_append_plain hp h.disciplined

/-- A message, after callbacks that neither send nor persist. -/
theorem send (h : Synced boot s) (evs : List Event) {m : Message} (hp : ∀ e ∈ evs, e.plain = true)
    (hc : s'.calls = .send s.currentTerm s.votedFor m :: (evs ++ s.calls)) (ht : s'.currentTerm = s.currentTerm)
    (hv : s'.votedFor = s.votedFor) : Synced boot s' where
  last := by rw [hc, lastPersisted, lastPersisted_append_plain hp, h.last, ht, hv]; intro t v; exact Event.noConfusion
  disciplined := by
    rw [hc]
    exact ⟨by rw [lastPersisted_append_plain hp, h.last], disciplined_append_plain hp h.disciplined⟩

/-- A new pair, persisted at once. -/
theorem persist (h : Synced boot s) (hf : Follows (s.currentTerm, s.votedFor) (s'.currentTerm, s'.votedFor))
    (hc : s'.calls = .persistState s'.currentTerm s'.votedFor :: s.calls) : Synced boot s' where
  last := by rw [hc, lastPersisted]
  disciplined := by
    rw [hc]
    exact ⟨by rw [h.last]; exact hf, h.disciplined⟩

end Synced

/-- **Every move keeps the discipline**, while the term counter does not wrap. -/
theorem Synced.move {cfg : Config} {io : Io} {heard : Option Message} {boot : Nat × Nat} {start s s' : Server}
    (h : Synced boot s) (hmv : Move cfg io True heard start s s') : Synced boot s' := by
  have hquiet : ∀ evs : List Event, (∀ e ∈ evs, e.quiet = true) → ∀ e ∈ evs, e.plain = true :=
    fun evs hq e he => Event.plain_of_quiet (hq e he)
  have hnil : ∀ e ∈ ([] : List Event), e.plain = true := by simp
  cases hmv with
  | quiet evs hq => exact h.plain evs (hquiet evs hq) rfl rfl rfl
  | aim nodes hk hn => exact h.plain [] hnil rfl rfl rfl
  | adopt t ht => exact h.persist (.inl ht) rfl
  | demote => exact h.plain [] hnil rfl rfl rfl
  | campaign hs hf =>
    have hw : wrap64 (s.currentTerm + 1) = s.currentTerm + 1 := Nat.mod_eq_of_lt (hf trivial)
    refine h.persist (.inl ?_) rfl
    show s.currentTerm < wrap64 (s.currentTerm + 1)
    omega
  | tally m rr p hm hrr hpre hg ht hs hp hn => exact h.plain [] hnil rfl rfl rfl
  | promote hs hm _ => exact h.plain [] hnil rfl rfl rfl
  | propose e log hs ht hi hp =>
    exact h.plain [.persistLogAppend e] (by simp [Event.plain]) rfl rfl rfl
  | vote m rv hm hrv hpre ht hv hu => exact h.persist (.inr ⟨rfl, hv.symm⟩) rfl
  | emit m hsend => exact h.send [] hnil rfl rfl rfl
  | accept m ae hm hae ht hs hp h0 =>
    obtain ⟨evs, hq, he⟩ := Server.accepted_eq cfg ae s
    rw [he]
    exact h.send evs (hquiet evs hq) rfl rfl rfl
  | chunk m is hm his ht hs hd h0 =>
    rw [Server.chunk_eq]
    exact h.plain [] hnil rfl rfl rfl
  | install m is hm his ht hs hd h0 =>
    rw [Server.installed_eq]
    refine h.plain _ ?_ rfl rfl rfl
    intro e he
    split at he
    · rw [List.mem_singleton.1 he]; rfl
    · cases he
  | learn sender l hs hr => exact h.plain [] hnil rfl rfl rfl
  | advance next hs hn => exact h.plain [] hnil rfl rfl rfl
  | apply hlt =>
    rw [Server.applyNext_eq]
    refine h.plain _ ?_ rfl rfl rfl
    intro e he
    rw [Option.mem_toList, Option.map_eq_some_iff] at he
    obtain ⟨x, -, rfl⟩ := he
    rfl
  | compact bytes t hio hb ht =>
    exact h.plain [.persistLogCompact s.lastApplied, .snapshotSave s.lastApplied bytes]
      (by simp [Event.plain]) rfl rfl rfl

/-! ## Sequences of calls -/

theorem Synced.moves {cfg : Config} {io : Io} {heard : Option Message} {boot : Nat × Nat} {start s s' : Server}
    (h : Synced boot s) (hmv : Moves cfg io True heard start s s') : Synced boot s' := by
  induction hmv with
  | refl => exact h
  | tail _ hstep ih => exact ih.move hstep

theorem synced_core {boot : Nat × Nat} {s : Server} : Synced boot s.core ↔ Synced boot s :=
  ⟨fun h => ⟨h.last, h.disciplined⟩, fun h => ⟨h.last, h.disciplined⟩⟩

theorem Synced.perform {cfg : Config} {io : Io} {boot : Nat × Nat} {s : Server} {k : Call} (h : Synced boot s)
    (hf : s.electing io k = true → s.currentTerm + 1 < 2 ^ 64) : Synced boot (s.perform cfg io k) :=
  synced_core.1 ((synced_core.2 h).moves (Server.perform_moves cfg io True s k (fun _ => hf)))

/-- One server through a sequence of calls, each with its own answers of the environment. -/
def Server.runCalls (cfg : Config) (ks : List (Io × Call)) (s : Server) : Server :=
  ks.foldl (fun s k => s.perform cfg k.1 k.2) s

/-- No call of the sequence starts an election while the term counter stands at its maximum. -/
def NoWrap (cfg : Config) : List (Io × Call) → Server → Prop
  | [], _ => True
  | k :: ks, s => (s.electing k.1 k.2 = true → s.currentTerm + 1 < 2 ^ 64) ∧ NoWrap cfg ks (s.perform cfg k.1 k.2)

theorem noWrap_append {cfg : Config} {k : Io × Call} : ∀ {ks : List (Io × Call)} {s : Server},
    NoWrap cfg (ks ++ [k]) s ↔
      NoWrap cfg ks s ∧ ((s.runCalls cfg ks).electing k.1 k.2 = true → (s.runCalls cfg ks).currentTerm + 1 < 2 ^ 64)
  | [], s => by simp [NoWrap, Server.runCalls]
  | k' :: ks, s => by
    rw [List.cons_append, NoWrap, noWrap_append, NoWrap, and_assoc]
    rfl

theorem Synced.runCalls {cfg : Config} {boot : Nat × Nat} : ∀ {ks : List (Io × Call)} {s : Server},
    Synced boot s → NoWrap cfg ks s → Synced boot (s.runCalls cfg ks)
  | [], _, h, _ => h
  | k :: ks, s, h, ⟨hk, hks⟩ => by
    have hrest : Synced boot ((s.perform cfg k.1 k.2).runCalls cfg ks) := Synced.runCalls (h.perform hk) hks
    exact hrest

/-- The pairs a server has had on storage, newest first; the last one is what `restore_state` was given. -/
def persisted (boot : Nat × Nat) : List Event → List (Nat × Nat)
  | [] => [boot]
  | .persistState t v :: es => (t, v) :: persisted boot es
  | _ :: es => persisted boot es

/-- **Persist before send, and vote once**, read off a server's record of callbacks. -/
structure PersistDiscipline (boot : Nat × Nat) (s : Server) : Prop where
  /-- At each message the last persisted pair is the one in memory. -/
  beforeSend : ∀ newer older t v m, s.calls = newer ++ .send t v m :: older → lastPersisted boot older = (t, v)
  /-- Persisted terms never decrease. -/
  terms : (persisted boot s.calls).Pairwise (fun newer older => older.1 ≤ newer.1)
  /-- Within a term the vote changes at most once, and then from `BAD_NODE`. -/
  votes : (persisted boot s.calls).Pairwise (fun newer older =>
    older.1 = newer.1 → older.2 = newer.2 ∨ older.2 = badNode)
  /-- The pair in memory is the newest of them. -/
  inMemory : lastPersisted boot s.calls = (s.currentTerm, s.votedFor)

theorem lastPersisted_follows {boot : Nat × Nat} : ∀ {es : List Event}, Disciplined boot es →
    ∀ p ∈ persisted boot es, Follows p (lastPersisted boot es)
  | [], _, p, hp => by
    rw [List.mem_singleton.1 hp]
    exact .refl boot
  | e :: es, h, p, hp => by
    cases e with
    | persistState t v =>
      rcases List.mem_cons.1 hp with rfl | hp
      · exact .refl _
      · exact (lastPersisted_follows h.2 p hp).trans h.1
    | send t v m => exact lastPersisted_follows h.2 p hp
    | _ =>
      have hd : Disciplined boot es := h
      exact lastPersisted_follows hd p hp

theorem persisted_pairwise {boot : Nat × Nat} : ∀ {es : List Event}, Disciplined boot es →
    (persisted boot es).Pairwise (fun newer older => Follows older newer)
  | [], _ => List.pairwise_singleton _ _
  | e :: es, h => by
    cases e with
    | persistState t v =>
      refine List.pairwise_cons.2 ⟨?_, persisted_pairwise h.2⟩
      intro p hp
      exact (lastPersisted_follows h.2 p hp).trans h.1
    | send t v m =>
      have ih := persisted_pairwise h.2
      exact ih
    | _ =>
      have ih : (persisted boot es).Pairwise _ := persisted_pairwise h
      exact ih

theorem Synced.discipline {boot : Nat × Nat} {s : Server} (h : Synced boot s) : PersistDiscipline boot s where
  beforeSend := by
    intro newer older t v m hc
    have hd := h.disciplined
    rw [hc] at hd
    exact (Disciplined.of_append newer hd).1
  terms := (persisted_pairwise h.disciplined).imp (fun hf => by rcases hf with hf | hf <;> omega)
  votes := (persisted_pairwise h.disciplined).imp (fun hf ht => by
    rcases hf with hf | hf
    · omega
    · exact hf.2)
  inMemory := h.last

theorem lastPersisted_mem (boot : Nat × Nat) : ∀ es : List Event, lastPersisted boot es ∈ persisted boot es
  | [] => List.mem_singleton.2 rfl
  | e :: es => by
    cases e with
    | persistState t v => exact List.mem_cons_self
    | _ => exact lastPersisted_mem boot es

theorem persisted_append (boot : Nat × Nat) (es : List Event) : ∀ evs : List Event,
    ∃ ps, persisted boot (evs ++ es) = ps ++ persisted boot es
  | [] => ⟨[], rfl⟩
  | e :: evs => by
    obtain ⟨ps, hp⟩ := persisted_append boot es evs
    cases e with
    | persistState t v => exact ⟨(t, v) :: ps, by rw [List.cons_append, persisted, hp]; rfl⟩
    | _ => exact ⟨ps, hp⟩

/-- **A campaign at the last term breaks the order of the persisted terms.** -/
theorem electing_of_terms {cfg : Config} {io : Io} {boot : Nat × Nat} {s : Server} {k : Call} (h : Synced boot s)
    (ht : (persisted boot (s.perform cfg io k).calls).Pairwise (fun newer older => older.1 ≤ newer.1))
    (hel : s.electing io k = true) : s.currentTerm + 1 < 2 ^ 64 := by
  obtain ⟨newer, evs, -, hc⟩ := Server.electing_persists cfg hel
  obtain ⟨ps, hps⟩ := persisted_append boot
    (.persistState (wrap64 (s.currentTerm + 1)) s.selfId :: (evs ++ s.calls)) newer
  obtain ⟨qs, hqs⟩ := persisted_append boot s.calls evs
  rw [hc, hps, persisted, hqs] at ht
  have hmem : (s.currentTerm, s.votedFor) ∈ qs ++ persisted boot s.calls := by
    rw [← h.last]
    exact List.mem_append_right qs (lastPersisted_mem boot s.calls)
  have hle : s.currentTerm ≤ wrap64 (s.currentTerm + 1) :=
    (List.pairwise_cons.1 (List.pairwise_append.1 ht).2.1).1 _ hmem
  unfold wrap64 at hle
  omega

theorem noWrap_of_terms {cfg : Config} {boot : Nat × Nat} {s : Server} (h : Synced boot s) (ks : List (Io × Call)) :
    (persisted boot (s.runCalls cfg ks).calls).Pairwise (fun newer older => older.1 ≤ newer.1) → NoWrap cfg ks s := by
  induction ks using List.reverseRecOn with
  | nil => intro _; trivial
  | append_singleton ks k ih =>
    intro ht
    have hrun : s.runCalls cfg (ks ++ [k]) = (s.runCalls cfg ks).perform cfg k.1 k.2 := by
      simp [Server.runCalls]
    rw [hrun] at ht
    obtain ⟨evs, he⟩ := Server.Moves.calls_grow
      (Server.perform_moves cfg k.1 False (s.runCalls cfg ks) k.2 (fun hf => hf.elim))
    have hcalls : ((s.runCalls cfg ks).perform cfg k.1 k.2).calls = evs ++ (s.runCalls cfg ks).calls := he
    obtain ⟨ps, hps⟩ := persisted_append boot (s.runCalls cfg ks).calls evs
    have hold : NoWrap cfg ks s := by
      refine ih ?_
      rw [hcalls, hps] at ht
      exact (List.pairwise_append.1 ht).2.1
    exact noWrap_append.2 ⟨hold, electing_of_terms (h.runCalls hold) ht⟩

theorem synced_restoreState (cfg : Config) (selfId : Nat) (nodeIds : List Nat) (t v : Nat) :
    Synced (t, v) ((Server.new cfg selfId nodeIds).restoreState t v) := by
  have hc : (Server.new cfg selfId nodeIds).calls = [] := by
    unfold Server.new
    split <;> rfl
  exact ⟨by show lastPersisted (t, v) (Server.new cfg selfId nodeIds).calls = (t, v); rw [hc]; rfl,
    by show Disciplined (t, v) (Server.new cfg selfId nodeIds).calls; rw [hc]; trivial⟩

/-- **The discipline holds exactly as long as no election is started at the last term.** -/
theorem persistDiscipline_iff (cfg : Config) (selfId : Nat) (nodeIds : List Nat) (t v : Nat) (ks : List (Io × Call)) :
    PersistDiscipline (t, v) (((Server.new cfg selfId nodeIds).restoreState t v).runCalls cfg ks) ↔
      NoWrap cfg ks ((Server.new cfg selfId nodeIds).restoreState t v) := by
  constructor
  · intro h
    exact noWrap_of_terms (synced_restoreState cfg selfId nodeIds t v) ks h.terms
  · intro h
    exact ((synced_restoreState cfg selfId nodeIds t v).runCalls h).discipline

/-- A cluster of one, restored at the last term, is started and times out: it persists term 0. -/
theorem persistDiscipline_fails_at_last_term :
    ¬ PersistDiscipline (2 ^ 64 - 1, badNode)
      (((Server.new defaultConfig 1 [1]).restoreState (2 ^ 64 - 1) badNode).runCalls defaultConfig
        [(.at 0, .start), (.at 5000, .periodic)]) := by
  intro h
  have hp : persisted (2 ^ 64 - 1, badNode)
      (((Server.new defaultConfig 1 [1]).restoreState (2 ^ 64 - 1) badNode).runCalls defaultConfig
        [(.at 0, .start), (.at 5000, .periodic)]).calls = [(0, 1), (2 ^ 64 - 1, badNode)] := by decide
  have ht := h.terms
  rw [hp] at ht
  exact absurd ht (by decide)

end Raft
end FloodEws
