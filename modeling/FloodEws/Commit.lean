import FloodEws.Simulate
/-!
# Commit — what the commit indices and the acknowledgements stand for

On top of the replicated log: a commit index only ever covers what some leader has chosen, in the log it is about; the
leader's match indices count true acknowledgements, as far as they can still matter; and every message that reports
progress is as good as the history behind it.  The replies are where it can go wrong, so what an `AppendEntriesResp`
promises depends on its recipient: it is true, or the leader it was meant for leads no more, or has committed that far
already.
-/
namespace FloodEws
namespace Raft

section

variable (S : Setup) (g : Replog Nat Entry)

/-- A leader of a term up to `T` has chosen the first `i` entries. -/
def Reached (T i : Nat) : Prop :=
  i = 0 ∨ ∃ t k, t ≤ T ∧ g.Chosen Entry.term S.ids.toFinset t k ∧ i ≤ k

/-- The same, and the log `ℓ` has these entries, as far as it reaches. -/
def Committed (T i : Nat) (ℓ : List Entry) : Prop :=
  i = 0 ∨ ∃ t k, t ≤ T ∧ g.Chosen Entry.term S.ids.toFinset t k ∧ i ≤ k ∧ ℓ.take i <+: g.llog t

/-- The leader of `t` put its entry at index `k` there itself. -/
def Own (t k : Nat) : Prop := 0 < k ∧ ∃ e, (g.llog t)[k - 1]? = some e ∧ e.term = t

/-- **What a message promises.** -/
def Pledge (c : Cluster) (m : Message) : Prop :=
  match m.payload with
  | .appendEntries ae => Reached S g ae.term ae.leaderCommit
  | .installSnapshot is => Reached S g is.term is.lastIncludedIndex
  | .appendEntriesResp rr => rr.success = true → g.leader rr.term = some m.recipient ∧
      (rr.lastLogIndex ≤ g.acked m.sender rr.term ∨
        ((c.node m.recipient).state = .leader → (c.node m.recipient).currentTerm = rr.term →
          rr.lastLogIndex ≤ (c.node m.recipient).commitIndex))
  | .installSnapshotResp rr => Reached S g rr.term rr.lastIncludedIndex ∧
      ∀ k, k ≤ rr.lastIncludedIndex → Own g rr.term k → k ≤ g.acked m.sender rr.term
  | _ => True

/-- **What a server's indices stand for.** -/
structure Trust (a : Nat) (s : Server) : Prop where
  applied_le : s.lastApplied ≤ s.commitIndex
  base_le : s.log.base ≤ s.commitIndex
  commit : Committed S g s.currentTerm s.commitIndex (g.log a)
  match_le : s.state = .leader → ∀ p ∈ s.nodes, p.isSelf = false → p.matchIndex ≤ (g.llog s.currentTerm).length
  acked : s.state = .leader → ∀ p ∈ s.nodes, p.isSelf = false → ∀ k, s.commitIndex < k → k ≤ p.matchIndex →
    Own g s.currentTerm k → k ≤ g.acked p.id s.currentTerm
  applied : ∀ i e, .apply i e ∈ s.calls →
    ∃ t k, g.Chosen Entry.term S.ids.toFinset t k ∧ 0 < i ∧ i ≤ k ∧ (g.llog t)[i - 1]? = some e

/-- **The cluster is a sound replicated log**, and its servers' indices and messages stand for what they should. -/
structure Safe (c : Cluster) : Prop where
  votes : VoteInv S c
  mirrors : Mirrors S g c
  sound : g.Sound Entry.term S.ids.toFinset
  trust : ∀ a, Trust S g a (c.node a)
  sent : ∀ a, ∀ m ∈ (c.node a).sent, Pledge S g c m

end

variable {S : Setup} {g g' : Replog Nat Entry} {T T' i : Nat} {ℓ ℓ' : List Entry}

/-! ## Chosen entries -/

theorem Reached.grows (h : Reached S g T i) (hg : g.Grows g') (hT : T ≤ T') : Reached S g' T' i := by
  rcases h with h | ⟨t, k, ht, hc, hi⟩
  · exact .inl h
  · exact .inr ⟨t, k, Nat.le_trans ht hT, hc.grows hg, hi⟩

theorem Reached.mono (h : Reached S g T i) {j : Nat} (hj : j ≤ i) : Reached S g T j := by
  rcases h with h | ⟨t, k, ht, hc, hi⟩
  · exact .inl (by omega)
  · exact .inr ⟨t, k, ht, hc, by omega⟩

theorem Committed.reached (h : Committed S g T i ℓ) : Reached S g T i := by
  rcases h with h | ⟨t, k, ht, hc, hi, -⟩
  · exact .inl h
  · exact .inr ⟨t, k, ht, hc, hi⟩

theorem Committed.grows (h : Committed S g T i ℓ) (hg : g.Grows g') (hT : T ≤ T') : Committed S g' T' i ℓ := by
  rcases h with h | ⟨t, k, ht, hc, hi, hp⟩
  · exact .inl h
  · exact .inr ⟨t, k, Nat.le_trans ht hT, hc.grows hg, hi, hp.trans (hg.llog t)⟩

/-- **A leader has all that was chosen before.** -/
theorem Reached.le_length (h : Reached S g T i) (hs : g.Sound Entry.term S.ids.toFinset) (hl : g.leader T ≠ none) :
    i ≤ (g.llog T).length := by
  rcases h with h | ⟨t, k, ht, hc, hi⟩
  · omega
  · have hp := (hs.carried_llog hc ht hl).length_le
    have hle := hc.le
    rw [List.length_take] at hp
    omega

/-- A log that follows a leader is committed as far as leaders have chosen. -/
theorem Reached.committed (h : Reached S g T i) (hs : g.Sound Entry.term S.ids.toFinset) (hl : g.leader T ≠ none)
    (hp : ℓ.take i <+: g.llog T) : Committed S g T i ℓ := by
  rcases h with h | ⟨t, k, ht, hc, hi⟩
  · exact .inl h
  · refine .inr ⟨t, k, ht, hc, hi, ?_⟩
    have hcar := hs.carried_llog hc ht hl
    have hle := hc.le
    have hlen : i ≤ ((g.llog t).take k).length := by
      rw [List.length_take]
      omega
    have heq : (g.llog T).take i = (g.llog t).take i := by
      rw [take_eq_of_isPrefix hcar hlen, List.take_take, Nat.min_eq_left hi]
    have hpp : (ℓ.take i).take i <+: (g.llog T).take i := hp.take i
    rw [List.take_take, Nat.min_self, heq] at hpp
    exact hpp.trans (List.take_prefix _ _)

theorem Committed.at_leader (h : Committed S g T i ℓ) (hs : g.Sound Entry.term S.ids.toFinset) (hl : g.leader T ≠ none) :
    ℓ.take i <+: g.llog T := by
  rcases h with rfl | ⟨t, k, ht, hc, hi, hp⟩
  · exact List.nil_prefix
  · have hcar := hs.carried_llog hc ht hl
    have hpp : (ℓ.take i).take k <+: (g.llog t).take k := hp.take k
    rw [List.take_take, Nat.min_eq_right hi] at hpp
    exact hpp.trans hcar

/-- The prefix below a committed index. -/
theorem Committed.take_eq (h : Committed S g T i ℓ) (hs : g.Sound Entry.term S.ids.toFinset) (hl : g.leader T ≠ none)
    {j : Nat} (hj : j ≤ i) (hlen : j ≤ ℓ.length) : ℓ.take j = (g.llog T).take j := by
  have hp := h.at_leader hs hl
  have hlen' : j ≤ (ℓ.take i).length := by
    rw [List.length_take]
    omega
  rw [take_eq_of_isPrefix hp hlen', List.take_take, Nat.min_eq_left hj]

/-- An entry of its own that a later leader would have below a chosen index is already there. -/
theorem Own.of_grows {t k : Nat} (h : Own g' t k) (hr : Reached S g t i) (hk : k ≤ i) (hg : g.Grows g')
    (hs : g'.Sound Entry.term S.ids.toFinset) : Own g t k := by
  obtain ⟨hpos, e, he, het⟩ := h
  rcases hr with rfl | ⟨t₀, k₀, ht, hc, hi⟩
  · omega
  · -- What was chosen in an earlier term lies below it.
    have htt : t₀ = t := by
      rcases Nat.eq_or_lt_of_le ht with ht | ht
      · exact ht
      · have := hs.chosen_lt_own (hc.grows hg) ht he het
        omega
    subst htt
    have hle := hc.le
    refine ⟨hpos, e, ?_, het⟩
    obtain ⟨ext, hext⟩ := hg.llog t₀
    rw [← hext, List.getElem?_append_left (by omega)] at he
    exact he

/-! ## Frame rules -/

theorem Pledge.step {c : Cluster} {n : Nat} {x y : Server} {m : Message} (h : Pledge S g (c.set n x) m)
    (hg : g.Grows g') (hs : g'.Sound Entry.term S.ids.toFinset)
    (hlead : y.state = .leader → (x.state = .leader ∧ y.currentTerm = x.currentTerm) ∨
      g.leader y.currentTerm ≠ some n)
    (hcommit : y.state = .leader → x.commitIndex ≤ y.commitIndex) : Pledge S g' (c.set n y) m := by
  unfold Pledge at h ⊢
  cases hpl : m.payload with
  | requestVote rv => trivial
  | requestVoteResp rr => trivial
  | appendEntries ae =>
    rw [hpl] at h
    exact Reached.grows h hg (Nat.le_refl _)
  | installSnapshot is =>
    rw [hpl] at h
    exact Reached.grows h hg (Nat.le_refl _)
  | installSnapshotResp rr =>
    rw [hpl] at h
    obtain ⟨h1, h2⟩ := h
    refine ⟨h1.grows hg (Nat.le_refl _), ?_⟩
    intro k hk hown
    exact Nat.le_trans (h2 k hk (hown.of_grows h1 hk hg hs)) (hg.acked _ _)
  | appendEntriesResp rr =>
    rw [hpl] at h
    intro hsucc
    obtain ⟨h1, h2⟩ := h hsucc
    refine ⟨hg.leader _ _ h1, ?_⟩
    rcases h2 with h2 | h2
    · exact .inl (Nat.le_trans h2 (hg.acked _ _))
    · refine .inr ?_
      by_cases hrec : m.recipient = n
      · rw [hrec, Cluster.set_node_self] at h2 ⊢
        intro hst ht
        rcases hlead hst with ⟨h3, h4⟩ | h3
        · exact Nat.le_trans (h2 h3 (h4.symm.trans ht)) (hcommit hst)
        · rw [ht] at h3
          rw [hrec] at h1
          exact absurd h1 h3
      · rw [Cluster.set_node_ne hrec] at h2 ⊢
        exact h2

theorem Trust.applied_grows {a : Nat} {s : Server} (h : Trust S g a s) (hg : g.Grows g') (i : Nat) (e : Entry)
    (he : .apply i e ∈ s.calls) :
    ∃ t k, g'.Chosen Entry.term S.ids.toFinset t k ∧ 0 < i ∧ i ≤ k ∧ (g'.llog t)[i - 1]? = some e := by
  obtain ⟨t, k, hc, h1, h2, h3⟩ := h.applied i e he
  refine ⟨t, k, hc.grows hg, h1, h2, ?_⟩
  obtain ⟨ext, hext⟩ := hg.llog t
  rw [← hext, List.getElem?_append_left (List.getElem?_eq_some_iff.1 h3).1]
  exact h3

/-- The history grows, and what is committed stays so. -/
theorem Trust.grows {a : Nat} {s : Server} (h : Trust S g a s) (hg : g.Grows g')
    (hcommit : Committed S g' s.currentTerm s.commitIndex (g'.log a)) : Trust S g' a s := by
  refine ⟨h.applied_le, h.base_le, hcommit, ?_, ?_, h.applied_grows hg⟩
  · intro hst p hp hself
    exact Nat.le_trans (h.match_le hst p hp hself) (hg.llog _).length_le
  · intro hst p hp hself k hk hkm hown
    refine Nat.le_trans (h.acked hst p hp hself k hk hkm ?_) (hg.acked _ _)
    obtain ⟨hpos, e, he, het⟩ := hown
    have hlen := h.match_le hst p hp hself
    obtain ⟨ext, hext⟩ := hg.llog s.currentTerm
    rw [← hext, List.getElem?_append_left (by omega)] at he
    exact ⟨hpos, e, he, het⟩

/-- A move that leaves the indices alone, and the match indices of a leader. -/
theorem Trust.frame {a : Nat} {s s' : Server} (h : Trust S g a s) (hterm : s.currentTerm ≤ s'.currentTerm)
    (hcommit : s'.commitIndex = s.commitIndex) (happlied : s'.lastApplied = s.lastApplied)
    (hbase : s'.log.base = s.log.base)
    (hlead : s'.state = .leader → s.state = .leader ∧ s'.currentTerm = s.currentTerm ∧
      ∀ p ∈ s'.nodes, p.isSelf = false → ∃ q ∈ s.nodes, q.isSelf = false ∧ p.id = q.id ∧ p.matchIndex = q.matchIndex)
    (hcalls : ∀ i e, .apply i e ∈ s'.calls → .apply i e ∈ s.calls) : Trust S g a s' := by
  refine ⟨?_, ?_, ?_, ?_, ?_, fun i e he => h.applied i e (hcalls i e he)⟩
  · rw [hcommit, happlied]
    exact h.applied_le
  · rw [hcommit, hbase]
    exact h.base_le
  · rw [hcommit]
    exact h.commit.grows (.refl g) hterm
  · intro hst p hp hself
    obtain ⟨h1, h2, h3⟩ := hlead hst
    obtain ⟨q, hq, hqs, -, hmatch⟩ := h3 p hp hself
    rw [hmatch, h2]
    exact h.match_le h1 q hq hqs
  · intro hst p hp hself k hk hkm hown
    obtain ⟨h1, h2, h3⟩ := hlead hst
    obtain ⟨q, hq, hqs, hid, hmatch⟩ := h3 p hp hself
    rw [hmatch] at hkm
    rw [hcommit] at hk
    rw [h2] at hown ⊢
    rw [hid]
    exact h.acked h1 q hq hqs k hk hkm hown

/-- **The frame rule**: one node moves. -/
theorem Safe.step {c : Cluster} {n : Nat} {x y : Server} (h : Safe S g (c.set n x)) (hv : VoteInv S (c.set n y))
    (hm : Mirrors S g' (c.set n y)) (hs : g'.Sound Entry.term S.ids.toFinset) (hg : g.Grows g')
    (hlog : ∀ a, a ≠ n → g'.log a = g.log a) (htrust : Trust S g' n y)
    (hlead : y.state = .leader → (x.state = .leader ∧ y.currentTerm = x.currentTerm) ∨
      g.leader y.currentTerm ≠ some n)
    (hcommit : y.state = .leader → x.commitIndex ≤ y.commitIndex)
    (hsent : ∀ m ∈ y.sent, m ∈ x.sent ∨ Pledge S g' (c.set n y) m) : Safe S g' (c.set n y) := by
  refine ⟨hv, hm, hs, ?_, ?_⟩
  · intro a
    by_cases ha : a = n
    · subst ha
      rw [Cluster.set_node_self]
      exact htrust
    · have hold := h.trust a
      rw [Cluster.set_node_ne ha] at hold ⊢
      refine hold.grows hg ?_
      rw [hlog a ha]
      exact hold.commit.grows hg (Nat.le_refl _)
  · intro a m hma
    by_cases ha : a = n
    · subst ha
      rw [Cluster.set_node_self] at hma
      rcases hsent m hma with hma | hma
      · have hold := h.sent a m (by rw [Cluster.set_node_self]; exact hma)
        exact hold.step hg hs hlead hcommit
      · exact hma
    · rw [Cluster.set_node_ne ha] at hma
      have hold := h.sent a m (by rw [Cluster.set_node_ne ha]; exact hma)
      exact hold.step hg hs hlead hcommit

/-! ## What one move applies, counts, acknowledges and promises -/

open Server in
/-- **What a move applies**: nothing, or the next entry below the commit index. -/
theorem Move.applies {cfg : Config} {io : Io} {fit : Prop} {heard : Option Message} {start x y : Server}
    (hmv : Move cfg io fit heard start x y) {i : Nat} {e : Entry} (he : .apply i e ∈ y.calls) :
    .apply i e ∈ x.calls ∨ (x.lastApplied < x.commitIndex ∧ i = x.lastApplied + 1 ∧ x.log.at? cfg i = some e) := by
  have hold : ∀ evs : List Event, y.calls = evs ++ x.calls → (∀ j d, .apply j d ∉ evs) → .apply i e ∈ x.calls := by
    intro evs hc hno
    rw [hc] at he
    rcases List.mem_append.1 he with he | he
    · exact absurd he (hno i e)
    · exact he
  have hquiet : ∀ evs : List Event, (∀ e ∈ evs, e.quiet = true) → ∀ j d, .apply j d ∉ evs := by
    intro evs hq j d hmem
    cases hq _ hmem
  cases hmv with
  | quiet evs hq => exact .inl (hold evs rfl (hquiet evs hq))
  | aim nodes hk hn => exact .inl (hold [] rfl (by simp))
  | adopt t ht => exact .inl (hold [_] rfl (by simp))
  | demote => exact .inl (hold [] rfl (by simp))
  | campaign hs hf => exact .inl (hold [_] rfl (by simp))
  | tally m rr p hm hrr hpre hg ht hs hp hn => exact .inl (hold [] rfl (by simp))
  | promote hs hm _ => exact .inl (hold [] rfl (by simp))
  | propose e log hs ht hi hp => exact .inl (hold [_] rfl (by simp))
  | vote m rv hm hrv hpre ht hv hu => exact .inl (hold [_] rfl (by simp))
  | emit m hsend => exact .inl (hold [_] rfl (by simp))
  | accept m₀ ae hm₀ hae ht hs hp h0 =>
    obtain ⟨evs, hq, heq⟩ := accepted_eq cfg ae x
    refine .inl (hold (_ :: evs) (by rw [heq]; rfl) ?_)
    intro j d hmem
    rcases List.mem_cons.1 hmem with hmem | hmem
    · cases hmem
    · exact hquiet evs hq j d hmem
  | chunk m is hm his ht hs hd h0 =>
    rw [chunk_eq] at hold
    exact .inl (hold [] rfl (by simp))
  | install m is hm his ht hs hd h0 =>
    rw [installed_eq] at hold
    refine .inl (hold _ rfl ?_)
    split <;> simp
  | learn sender l hs hr => exact .inl (hold [] rfl (by simp))
  | advance next hs hn => exact .inl (hold [] rfl (by simp))
  | apply hlt =>
    rw [applyNext_eq] at he
    rcases List.mem_append.1 he with he | he
    · cases hat : x.log.at? cfg (x.lastApplied + 1) with
      | none =>
        rw [hat] at he
        cases he
      | some d =>
        rw [hat] at he
        have he : Event.apply i e = .apply (x.lastApplied + 1) d := List.mem_singleton.1 he
        injection he with h1 h2
        subst h1 h2
        exact .inr ⟨hlt, rfl, hat⟩
    · exact .inl he
  | compact bytes t hio hb ht => exact .inl (hold [_, _] rfl (by simp))

section
open Server
variable {cfg : Config} {io : Io} {fit : Prop} {heard : Option Message} {start x y : Server}

/-- **The snapshot edge does not go down**, unless a snapshot from below it is installed. -/
theorem Move.base_le (hmv : Move cfg io fit heard start x y)
    (hinstall : ∀ m is, heard = some m → m.payload = .installSnapshot is → is.term = x.currentTerm → is.done = true →
      Untouched start x → x.log.base ≤ is.lastIncludedIndex) : x.log.base ≤ y.log.base := by
  cases hmv with
  | propose e log hs ht hi hp => exact Nat.le_of_eq (LogRing.push_base hp).symm
  | accept m ae hm hae ht hs hp h0 => exact Nat.le_of_eq (accepted_base cfg ae x).symm
  | chunk m is hm his ht hs hd h0 =>
    rw [chunk_eq]
    exact Nat.le_refl _
  | install m is hm his ht hs hd h0 =>
    rw [installed_eq]
    exact (hinstall m is hm his ht hd h0).trans_eq (installLog_base cfg is x.log).symm
  | apply hlt => rw [applyNext_eq]
  | compact bytes t hio hb ht => exact Nat.le_of_lt hb
  | quiet evs hq => exact Nat.le_refl _
  | aim nodes hk hn => exact Nat.le_refl _
  | adopt t ht => exact Nat.le_refl _
  | demote => exact Nat.le_refl _
  | campaign hs hf => exact Nat.le_refl _
  | tally m rr p hm hrr hpre hg ht hs hp hn => exact Nat.le_refl _
  | promote hs hm hw => exact Nat.le_refl _
  | vote m rv hm hrv hpre ht hv hu => exact Nat.le_refl _
  | emit m hsend => exact Nat.le_refl _
  | learn sender l hs hr => exact Nat.le_refl _
  | advance next hs hn => exact Nat.le_refl _

/-- **A leader's match indices after a move**: it led before, and each is what it was or what was just reported; or it has
just been elected, and they are 0. -/
theorem Move.leading (hmv : Move cfg io fit heard start x y) (hself : ∀ p ∈ x.nodes, p.id = x.selfId → p.isSelf = true)
    (hy : y.state = .leader) :
    (x.state = .leader ∧ y.currentTerm = x.currentTerm ∧ ∀ p ∈ y.nodes, p.isSelf = false → ∃ q ∈ x.nodes, q.isSelf = false ∧
      p.id = q.id ∧ (p.matchIndex = q.matchIndex ∨ ∃ l, Reports x heard p.id l ∧ p.matchIndex = max l q.matchIndex)) ∨
    (x.state = .candidate ∧ y.currentTerm = x.currentTerm ∧ ∀ p ∈ y.nodes, p.isSelf = false → p.matchIndex = 0) := by
  have hsame : ∀ p ∈ x.nodes, p.isSelf = false → ∃ q ∈ x.nodes, q.isSelf = false ∧ p.id = q.id ∧
      (p.matchIndex = q.matchIndex ∨ ∃ l, Reports x heard p.id l ∧ p.matchIndex = max l q.matchIndex) :=
    fun p hp hs => ⟨p, hp, hs, rfl, .inl rfl⟩
  cases hmv with
  | quiet evs hq => exact .inl ⟨hy, rfl, hsame⟩
  | aim nodes hk hna =>
    refine .inl ⟨hy, rfl, fun p hp hs => ?_⟩
    obtain ⟨q, hq, hself, hid, hmatch⟩ := mem_aim hk hp
    exact ⟨q, hq, hself.trans hs, hid, .inl hmatch⟩
  | adopt t ht => cases hy
  | demote => cases hy
  | campaign hs hf => cases hy
  | tally m rr p hm hrr hpre hg ht hs hp hn => exact absurd (hs.symm.trans hy) (by decide)
  | promote hs hm hw =>
    refine .inr ⟨hs, rfl, fun p hp hself' => ?_⟩
    rcases mem_modifyNode_iff hp with hp | ⟨q, hq, hid, rfl⟩
    · obtain ⟨q, -, rfl⟩ := List.mem_map.1 hp
      rfl
    · obtain ⟨r, hr, rfl⟩ := List.mem_map.1 hq
      have hr' : r.isSelf = false := hself'
      rw [hself r hr hid] at hr'
      cases hr'
  | propose e log hs ht hi hp =>
    refine .inl ⟨hs, rfl, fun p hp hself' => ?_⟩
    rcases mem_modifyNode_iff hp with hp | ⟨q, hq, hid, rfl⟩
    · exact hsame p hp hself'
    · have hq' : q.isSelf = false := hself'
      rw [hself q hq hid] at hq'
      cases hq'
  | vote m rv hm hrv hpre ht hv hu => exact .inl ⟨hy, rfl, hsame⟩
  | emit m hsend => exact .inl ⟨hy, rfl, hsame⟩
  | accept m ae hm hae ht hs hp h0 =>
    obtain ⟨evs, -, he⟩ := accepted_eq cfg ae x
    rw [he] at hy
    exact absurd (hs.symm.trans hy) (by decide)
  | chunk m is hm his ht hs hd h0 =>
    rw [chunk_eq] at hy
    exact absurd (hs.symm.trans hy) (by decide)
  | install m is hm his ht hs hd h0 =>
    rw [installed_eq] at hy
    exact absurd (hs.symm.trans hy) (by decide)
  | learn sender l hs hr =>
    refine .inl ⟨hs, rfl, fun p hp hself' => ?_⟩
    rcases mem_modifyNode_iff hp with hp | ⟨q, hq, hid, rfl⟩
    · exact hsame p hp hself'
    · exact ⟨q, hq, hself', rfl, .inr ⟨l, hid ▸ hr, rfl⟩⟩
  | advance next hs hn => exact .inl ⟨hy, rfl, hsame⟩
  | apply hlt =>
    rw [applyNext_eq] at hy ⊢
    exact .inl ⟨hy, rfl, hsame⟩
  | compact bytes t hio hb ht => exact .inl ⟨hy, rfl, hsame⟩

end

/-- The history in which node `n` has acknowledged its leader's log up to `k`. -/
def acknowledged (g : Replog Nat Entry) (n k : Nat) : Replog Nat Entry :=
  { g with acked := Function.update g.acked n (Function.update (g.acked n) (g.term n) (max k (g.acked n (g.term n)))) }

section

variable {c : Cluster} {n k : Nat} (hk : k ≤ (g.llog (g.term n)).length) (hp : (g.llog (g.term n)).take k <+: g.log n)

include hk hp in
theorem acknowledged_grows (hco : g.Coherent Entry.term S.ids.toFinset) : g.Grows (acknowledged g n k) :=
  Replog.Step.grows hco (.acknowledge g n k hk hp : g.Step Entry.term S.ids.toFinset True _)

theorem le_acked_acknowledged : k ≤ (acknowledged g n k).acked n (g.term n) := by
  unfold acknowledged
  dsimp only
  rw [Function.update_self, Function.update_self]
  exact Nat.le_max_left _ _

include hk hp in
theorem Mirrors.acknowledge (h : Mirrors S g c) : Mirrors S (acknowledged g n k) c := by
  have hg := acknowledged_grows hk hp h.coherent
  refine ⟨{ h.coherent with }, h.indexed, ?_, h.votes⟩
  intro a
  exact (h.node a).grows hg rfl rfl (fun _ hl => hl) (fun _ _ => rfl)

include hk hp in
/-- **A true acknowledgement** changes nothing else. -/
theorem Safe.acknowledge (h : Safe S g c) : Safe S (acknowledged g n k) c := by
  have hg := acknowledged_grows hk hp h.mirrors.coherent
  refine ⟨h.votes, h.mirrors.acknowledge hk hp, h.sound.acknowledge hk hp, ?_, ?_⟩
  · exact fun a => (h.trust a).grows hg ((h.trust a).commit.grows hg (Nat.le_refl _))
  · intro a m hm
    have hset : c.set a (c.node a) = c := Cluster.set_self c a
    have hold : Pledge S g (c.set a (c.node a)) m := by
      rw [hset]
      exact h.sent a m hm
    have hnew := hold.step hg (h.sound.acknowledge hk hp) (fun hst => .inl ⟨hst, rfl⟩) (fun _ => Nat.le_refl _)
    rwa [hset] at hnew

end

/-- **A server promises only what is so**, the answer to an `InstallSnapshot` apart. -/
theorem Trust.pledge {c : Cluster} {a : Nat} {s : Server} (h : Trust S g a s) {m : Message}
    (hcan : s.CanSend S.cfg m) (hno : ∀ rr, m.payload ≠ .installSnapshotResp rr) : Pledge S g c m := by
  obtain ⟨-, hcan⟩ := hcan
  unfold Pledge
  cases hpl : m.payload with
  | requestVote rv => trivial
  | requestVoteResp rr => trivial
  | appendEntries ae =>
    rw [hpl] at hcan
    obtain ⟨-, -, -, next, -, hae⟩ := hcan
    dsimp only
    rw [hae]
    exact h.commit.reached
  | installSnapshot is =>
    rw [hpl] at hcan
    obtain ⟨-, -, -, his⟩ := hcan
    dsimp only
    rw [his]
    exact h.commit.reached.mono h.base_le
  | appendEntriesResp rr =>
    rw [hpl] at hcan
    have hcan : rr.success = false := hcan
    intro hsucc
    rw [hcan] at hsucc
    cases hsucc
  | installSnapshotResp rr => exact absurd hpl (hno rr)

end Raft
end FloodEws
