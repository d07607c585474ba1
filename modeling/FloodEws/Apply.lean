import FloodEws.Order
/-!
# Apply — the sequence of `m_apply` and `m_snapshot_load` calls

While the indices are in order, `apply_committed` finds every entry it looks for, so the calls of `m_apply` go up one
index at a time.  A snapshot may only replace the state machine where that does not take it back, and it must be loaded
when it takes it forward.
-/
namespace FloodEws
namespace Raft

/-- The index the state machine stands at: that of the newest `m_apply` or `m_snapshot_load`. -/
def appliedUpTo : List Event → Nat
  | [] => 0
  | .apply _ e :: _ => e.index
  | .snapshotLoad li _ :: _ => li
  | _ :: es => appliedUpTo es

/-- **Entries are applied gaplessly and once**, as a record of callbacks shows it. -/
structure ApplyOrder (calls : List Event) : Prop where
  /-- Each `m_apply` is for the index after the one the state machine stands at. -/
  apply : ∀ newer older i e, calls = newer ++ .apply i e :: older → e.index = appliedUpTo older + 1
  /-- No `m_snapshot_load` goes below an index already applied. -/
  load : ∀ newer older li bytes, calls = newer ++ .snapshotLoad li bytes :: older →
    ∀ i e, .apply i e ∈ older → e.index ≤ li

/-- The same, recursively. -/
def Gapless : List Event → Prop
  | [] => True
  | .apply _ e :: es => e.index = appliedUpTo es + 1 ∧ Gapless es
  | .snapshotLoad li _ :: es => appliedUpTo es ≤ li ∧ Gapless es
  | _ :: es => Gapless es

/-- The event leaves the state machine alone. -/
def Event.idle : Event → Bool
  | .apply _ _ => false
  | .snapshotLoad _ _ => false
  | _ => true

theorem Event.idle_of_quiet {e : Event} (h : e.quiet = true) : e.idle = true := by
  cases e <;> first | rfl | cases h

theorem appliedUpTo_idle {es : List Event} : ∀ {evs : List Event}, (∀ e ∈ evs, e.idle = true) →
    appliedUpTo (evs ++ es) = appliedUpTo es
  | [], _ => rfl
  | e :: evs, h => by
    have ih : appliedUpTo (evs ++ es) = _ := appliedUpTo_idle (fun x hx => h x (List.mem_cons_of_mem e hx))
    have he := h e List.mem_cons_self
    cases e <;> first | exact ih | cases he

theorem gapless_idle {es : List Event} (hg : Gapless es) : ∀ {evs : List Event}, (∀ e ∈ evs, e.idle = true) →
    Gapless (evs ++ es)
  | [], _ => hg
  | e :: evs, h => by
    have ih : Gapless (evs ++ es) := gapless_idle hg (fun x hx => h x (List.mem_cons_of_mem e hx))
    have he := h e List.mem_cons_self
    cases e <;> first | exact ih | cases he

theorem Gapless.of_append {es : List Event} : ∀ (evs : List Event), Gapless (evs ++ es) → Gapless es
  | [], h => h
  | e :: evs, h => by
    refine Gapless.of_append evs ?_
    cases e <;> first | exact h | exact h.2

/-- What was applied is not above where the state machine stands. -/
theorem Gapless.index_le : ∀ {es : List Event}, Gapless es → ∀ {i : Nat} {e : Entry}, .apply i e ∈ es →
    e.index ≤ appliedUpTo es
  | x :: es, h, i, e, hm => by
    have hrest : Gapless es → .apply i e ∈ es → e.index ≤ appliedUpTo es := fun hg hm => hg.index_le hm
    cases x with
    | apply j f =>
      obtain ⟨h1, h2⟩ := h
      rcases List.mem_cons.1 hm with hm | hm
      · injection hm with _ hm
        rw [hm]
        exact Nat.le_refl _
      · have := hrest h2 hm
        show e.index ≤ f.index
        omega
    | snapshotLoad li bytes =>
      obtain ⟨h1, h2⟩ := h
      rcases List.mem_cons.1 hm with hm | hm
      · cases hm
      · exact Nat.le_trans (hrest h2 hm) h1
    | _ =>
      rcases List.mem_cons.1 hm with hm | hm
      · cases hm
      · exact hrest h hm

theorem Gapless.applyOrder {calls : List Event} (h : Gapless calls) : ApplyOrder calls where
  apply := by
    rintro newer older i e rfl
    exact (Gapless.of_append newer h).1
  load := by
    rintro newer older li bytes rfl i e hm
    have hg := Gapless.of_append newer h
    exact Nat.le_trans (hg.2.index_le hm) hg.1

/-- **When an accepted message keeps the applied sequence**: the indices stay in order, a loaded snapshot is not below
the last applied index, and one that is above it is loaded. -/
def Server.ApplyOk (cfg : Config) (io : Io) (s : Server) (heard : Option Message) : Prop :=
  s.OrderOk cfg heard ∧ match heard with
  | some ⟨_, _, .installSnapshot is⟩ => s.currentTerm ≤ is.term → is.done = true →
      if io.snapshotLoad then s.lastApplied ≤ is.lastIncludedIndex else is.lastIncludedIndex ≤ s.lastApplied
  | _ => True

/-- **The state machine stands at the last applied index.** -/
structure Applied (cfg : Config) (s : Server) : Prop where
  order : Ordered cfg s
  upTo : appliedUpTo s.calls = s.lastApplied
  gapless : Gapless s.calls

namespace Applied

variable {cfg : Config} {s s' : Server}

theorem idle (h : Applied cfg s) (ho : Ordered cfg s') (evs : List Event) (hc : s'.calls = evs ++ s.calls)
    (hi : ∀ e ∈ evs, e.idle = true) (ha : s'.lastApplied = s.lastApplied) : Applied cfg s' where
  order := ho
  upTo := by rw [hc, appliedUpTo_idle hi, ha]; exact h.upTo
  gapless := by rw [hc]; exact gapless_idle h.gapless hi

/-- One turn of `apply_committed` finds its entry. -/
theorem applyNext (h : Applied cfg s) (hlt : s.lastApplied < s.commitIndex) (ho : Ordered cfg (s.applyNext cfg)) :
    Applied cfg (s.applyNext cfg) := by
  obtain ⟨ℓ, hlive, hidx⟩ := h.order.ring
  have hb := h.order.base_le
  have hle := h.order.commit_le
  rw [hlive.lastIndex] at hle
  have hat := hlive.at?_live (i := s.lastApplied + 1) (by omega) (by omega)
  obtain ⟨e, he⟩ : ∃ e, ℓ[s.lastApplied]? = some e := ⟨ℓ[s.lastApplied], List.getElem?_eq_getElem (by omega)⟩
  rw [Nat.add_sub_cancel, he] at hat
  have hind := hidx s.lastApplied e hb he
  have hstep : s.applyNext cfg = { s with
      lastApplied := s.lastApplied + 1
      calls := .apply (s.lastApplied + 1) e :: s.calls } := by
    rw [Server.applyNext_eq, hat]; rfl
  rw [hstep] at ho ⊢
  exact ⟨ho, hind, ⟨by rw [hind, h.upTo], h.gapless⟩⟩

theorem install {io : Io} (h : Applied cfg s) {is : InstallSnapshot} (ho : Ordered cfg (s.installed cfg io is).core)
    (hbase : (s.installed cfg io is).core.log.base = is.lastIncludedIndex)
    (hload : if io.snapshotLoad then s.lastApplied ≤ is.lastIncludedIndex else is.lastIncludedIndex ≤ s.lastApplied) :
    Applied cfg (s.installed cfg io is).core := by
  have he := Server.installed_eq cfg io is s
  have ha : (s.installed cfg io is).core.lastApplied = max s.lastApplied is.lastIncludedIndex := by
    rw [← hbase, he]
  have hup := h.upTo
  refine ⟨ho, ?_, ?_⟩
  · rw [ha, he]
    dsimp only
    split
    · rename_i hl
      rw [if_pos hl] at hload
      show is.lastIncludedIndex = _
      omega
    · rename_i hl
      rw [if_neg hl] at hload
      rw [List.nil_append, hup]
      omega
  · rw [he]
    dsimp only
    split
    · rename_i hl
      rw [if_pos hl] at hload
      have hle : appliedUpTo s.calls ≤ is.lastIncludedIndex := by rw [hup]; exact hload
      exact ⟨hle, h.gapless⟩
    · exact h.gapless

/-- **Every move keeps the applied sequence gapless**, if the message being handled permits. -/
theorem move {io : Io} {fit : Prop} {heard : Option Message} {start : Server} (h : Applied cfg s)
    (hok : start.ApplyOk cfg io heard) (hmv : Move cfg io fit heard start s s') : Applied cfg s' := by
  have ho := (h.order.move hok.1 hmv).1
  have hquiet : ∀ evs : List Event, (∀ e ∈ evs, e.quiet = true) → ∀ e ∈ evs, e.idle = true :=
    fun evs hq e he => Event.idle_of_quiet (hq e he)
  have hnil : ∀ e ∈ ([] : List Event), e.idle = true := by simp
  cases hmv with
  | quiet evs hq => exact h.idle ho evs rfl (hquiet evs hq) rfl
  | aim nodes hk hn => exact h.idle ho [] rfl hnil rfl
  | adopt t ht => exact h.idle ho [.persistState t badNode] rfl (by simp [Event.idle]) rfl
  | demote => exact h.idle ho [] rfl hnil rfl
  | campaign hs hf =>
    exact h.idle ho [.persistState (wrap64 (s.currentTerm + 1)) s.selfId] rfl (by simp [Event.idle]) rfl
  | tally m rr p hm hrr hpre hg ht hs hp hn => exact h.idle ho [] rfl hnil rfl
  | promote hs hm _ => exact h.idle ho [] rfl hnil rfl
  | propose e log hs ht hi hp => exact h.idle ho [.persistLogAppend e] rfl (by simp [Event.idle]) rfl
  | vote m rv hm hrv hpre ht hv hu =>
    exact h.idle ho [.persistState s.currentTerm rv.candidateId] rfl (by simp [Event.idle]) rfl
  | emit m hsend => exact h.idle ho [.send s.currentTerm s.votedFor m] rfl (by simp [Event.idle]) rfl
  | accept m ae hm hae ht hs hp h0 =>
    obtain ⟨evs, hq, he⟩ := Server.accepted_eq cfg ae s
    rw [he] at ho ⊢
    refine h.idle ho (_ :: evs) rfl ?_ rfl
    intro e hmem
    rcases List.mem_cons.1 hmem with rfl | hmem
    · rfl
    · exact hquiet evs hq e hmem
  | chunk m is hm his ht hs hd h0 =>
    rw [Server.chunk_eq] at ho ⊢
    exact h.idle ho [] rfl hnil rfl
  | install m is hm his ht hs hd h0 =>
    subst hm
    obtain ⟨hb, hcov⟩ := Ordered.orderOk_install hok.1 his h0 ht hd
    have he := Server.installed_eq cfg io is s
    have hlog : (s.installed cfg io is).core.log = Server.installLog cfg is s.log := by rw [he]
    obtain ⟨-, hbase⟩ := h.order.install hb hcov hlog (by rw [he]) (by rw [he])
    refine h.install ho hbase ?_
    have hload := hok.2
    obtain ⟨src, dst, pl⟩ := m
    cases his
    rw [h0.applied]
    exact hload (ht ▸ h0.term) hd
  | learn sender l hs hr => exact h.idle ho [] rfl hnil rfl
  | advance next hs hn => exact h.idle ho [] rfl hnil rfl
  | apply hlt => exact h.applyNext hlt ho
  | compact bytes t hio hb ht =>
    exact h.idle ho [.persistLogCompact s.lastApplied, .snapshotSave s.lastApplied bytes] rfl (by simp [Event.idle]) rfl

theorem core_iff : Applied cfg s.core ↔ Applied cfg s :=
  ⟨fun h => ⟨Ordered.core_iff.1 h.order, h.upTo, h.gapless⟩, fun h => ⟨Ordered.core_iff.2 h.order, h.upTo, h.gapless⟩⟩

/-- So does a chain of them. -/
theorem moves {io : Io} {fit : Prop} {heard : Option Message} {y : Server} (h : Applied cfg s)
    (hok : s.ApplyOk cfg io heard) (hmoves : Moves cfg io fit heard s s.core y.core) : Applied cfg y := by
  have hrun : ∀ y, Moves cfg io fit heard s s.core y → Applied cfg y := by
    intro y hy
    induction hy with
    | refl => exact core_iff.2 h
    | tail _ hmv ih => exact ih.move hok hmv
  exact core_iff.1 (hrun _ hmoves)

theorem perform {io : Io} {k : Call} (h : Applied cfg s) (hok : s.ApplyOk cfg io k.heard) :
    Applied cfg (s.perform cfg io k) :=
  h.moves hok (Server.perform_moves cfg io False s k (fun hf => hf.elim))

end Applied

/-! ## Runs -/

/-- No node goes down, and every message that is accepted keeps the applied sequence. -/
def Setup.ApplySteps (S : Setup) (c : Cluster) : Action → Prop
  | .call n io k => (c.node n).ApplyOk S.cfg io k.heard
  | .restart _ => False
  | .crash _ _ _ _ => False

/-- **Gapless, exactly-once apply**: along a run whose accepted messages permit it, every server's `m_apply` calls go up
one index at a time from the last one applied or loaded, and no `m_snapshot_load` goes back. -/
theorem gapless_apply (S : Setup) (c : Cluster) (h : S.sys.Reachable S.ApplySteps c) (n : Nat) :
    ApplyOrder (c.node n).calls := by
  have happ : ∀ n, Applied S.cfg (c.node n) := by
    refine Sys.Reachable.invariant (P := fun c => ∀ n, Applied S.cfg (c.node n)) h ?_ ?_
    · intro n
      exact ⟨ordered_rebuild S n [], (rebuild_log S n []).2.2.symm, trivial⟩
    · intro x act hx _ hok n
      cases act with
      | call a io k =>
        show Applied S.cfg ((x.set a _).node n)
        by_cases hn : n = a
        · subst hn
          rw [Cluster.set_node_self]
          exact (hx n).perform hok
        · rw [Cluster.set_node_ne hn]
          exact hx n
      | restart a => exact hok.elim
      | crash a io k made => exact hok.elim
  exact (happ n).gapless.applyOrder

instance (cfg : Config) (io : Io) (s : Server) (heard : Option Message) : Decidable (s.ApplyOk cfg io heard) :=
  match heard with
  | some ⟨src, dst, .installSnapshot is⟩ =>
    inferInstanceAs (Decidable (s.OrderOk cfg (some ⟨src, dst, .installSnapshot is⟩) ∧
      (s.currentTerm ≤ is.term → is.done = true →
        if io.snapshotLoad then s.lastApplied ≤ is.lastIncludedIndex else is.lastIncludedIndex ≤ s.lastApplied)))
  | some ⟨src, dst, .appendEntries ae⟩ => inferInstanceAs (Decidable (s.OrderOk cfg (some ⟨src, dst, .appendEntries ae⟩) ∧ True))
  | some ⟨_, _, .requestVote _⟩ => inferInstanceAs (Decidable (True ∧ True))
  | some ⟨_, _, .requestVoteResp _⟩ => inferInstanceAs (Decidable (True ∧ True))
  | some ⟨_, _, .appendEntriesResp _⟩ => inferInstanceAs (Decidable (True ∧ True))
  | some ⟨_, _, .installSnapshotResp _⟩ => inferInstanceAs (Decidable (True ∧ True))
  | none => inferInstanceAs (Decidable (True ∧ True))

instance (S : Setup) (c : Cluster) : ∀ act : Action, Decidable (S.ApplySteps c act)
  | .call n io k => inferInstanceAs (Decidable ((c.node n).ApplyOk S.cfg io k.heard))
  | .restart _ => inferInstanceAs (Decidable False)
  | .crash _ _ _ _ => inferInstanceAs (Decidable False)

theorem gapless_apply_catchUp :
    let c := trio.play trio.ApplySteps (.saving [7]) catchUp trio.init
    (c.node 3).lastApplied = 2 ∧ ApplyOrder (c.node 3).calls := by
  intro c
  exact ⟨by decide +kernel, gapless_apply trio c (Setup.reachable_play _ _ _) 3⟩

/-- Node 1 commits and compacts 32 entries with node 2, brings node 3 up to date by a snapshot of them and then by
entry 33, and the network delivers the snapshot once more. -/
def lateSnapshot : List Turn :=
  .start 1 0 :: elect 1 2 5000 ++ List.replicate 31 (.submit 1 5001) ++
  [.deliver 1 2 0 5002, .deliver 2 1 0 5002, .deliver 1 2 0 5002, .deliver 2 1 0 5002,
   .deliver 1 2 0 5002, .deliver 2 1 0 5002, .deliver 1 2 0 5002, .deliver 2 1 0 5002,
   .periodic 1 6001, .deliver 1 3 0 6001, .deliver 3 1 0 6001,
   .submit 1 6002, .deliver 1 3 0 6002, .deliver 3 1 0 6002,
   .periodic 1 7002, .deliver 1 3 0 7002, .deliver 1 3 3 7002]

/-- Node 3 applies entry 33 and then loads the snapshot of the first 32. -/
theorem gapless_apply_fails_on_late_snapshot :
    let c := trio.play NoRestart (.saving [7]) lateSnapshot trio.init
    trio.sys.Reachable NoRestart c ∧ ¬ ApplyOrder (c.node 3).calls := by
  intro c
  refine ⟨Setup.reachable_play _ _ _, ?_⟩
  intro h
  have hsplit : (c.node 3).calls = (c.node 3).calls.take 2 ++ .snapshotLoad 32 [7] :: (c.node 3).calls.drop 3 := by
    decide +kernel
  have hmem : .apply 33 { term := 1, index := 33, type := .sensorData } ∈ (c.node 3).calls.drop 3 := by decide +kernel
  have hle := h.load _ _ _ _ hsplit _ _ hmem
  exact absurd hle (by decide)

end Raft
end FloodEws
