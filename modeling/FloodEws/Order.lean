import FloodEws.Steps
import FloodEws.Schedule
/-!
# Order — base, applied, commit and last index

The four indices of a server are kept in order by every move but two.  An accepted `AppendEntries` raises the commit
index by what the message covers, not by what the ring took, and truncates without looking at the commit index; a
finished `InstallSnapshot` moves the snapshot edge wherever the message says.  `OrderOk` is when these two do no harm,
and the index order, the applied entries and their indices follow from it for arbitrary messages.
-/
namespace FloodEws
namespace Raft

/-- Every entry above the edge carries its own index. -/
def Indexed (base : Nat) (ℓ : List Entry) : Prop := ∀ i e, base ≤ i → ℓ[i]? = some e → e.index = i + 1

theorem Indexed.push {base : Nat} {ℓ : List Entry} (h : Indexed base ℓ) (e : Entry) :
    Indexed base (ℓ ++ [{ e with index := ℓ.length + 1 }]) := by
  intro i x hb hx
  rcases Nat.lt_or_ge i ℓ.length with hi | hi
  · rw [List.getElem?_append_left hi] at hx
    exact h i x hb hx
  · rw [List.getElem?_append_right hi] at hx
    obtain ⟨hi', rfl⟩ : i - ℓ.length = 0 ∧ { e with index := ℓ.length + 1 } = x := by
      rcases Nat.eq_zero_or_pos (i - ℓ.length) with h0 | h0
      · rw [h0] at hx
        exact ⟨h0, by simpa using hx⟩
      · rw [List.getElem?_eq_none (by simpa using Nat.succ_le_of_lt h0)] at hx
        cases hx
    show ℓ.length + 1 = i + 1
    omega

theorem Indexed.take {base : Nat} {ℓ : List Entry} (h : Indexed base ℓ) (k : Nat) : Indexed base (ℓ.take k) := by
  intro i x hb hx
  refine h i x hb ?_
  rw [List.getElem?_take] at hx
  split at hx
  · exact hx
  · cases hx

/-- An entry of the slice that starts at `i` differs in term from the one the ring holds there. -/
def LogRing.Conflicts (cfg : Config) (r : LogRing) (i : Nat) (es : List Entry) : Prop :=
  ∃ j, j < es.length ∧ r.base < i + j ∧ i + j ≤ r.lastIndex ∧ r.termAt cfg (i + j) ≠ es[j]?.map Entry.term

instance (cfg : Config) (r : LogRing) (i : Nat) (es : List Entry) : Decidable (r.Conflicts cfg i es) :=
  inferInstanceAs (Decidable (∃ j, j < es.length ∧ r.base < i + j ∧ i + j ≤ r.lastIndex ∧
    r.termAt cfg (i + j) ≠ es[j]?.map Entry.term))

namespace LogRing

variable {cfg : Config} {r : LogRing} {ℓ : List Entry}

theorem termAt_live {i : Nat} (hb : r.base < i) : r.termAt cfg i = (r.at? cfg i).map Entry.term := by
  rw [termAt, if_neg (by omega), if_neg (by omega)]

theorem termAt_isSome {i : Nat} (hb : r.base < i) (hl : i ≤ r.lastIndex) : ∃ t, r.termAt cfg i = some t := by
  rw [termAt_live hb]
  obtain ⟨e, he⟩ := Option.isSome_iff_exists.1 ((at?_isSome r cfg i).2 ⟨hb, hl⟩)
  exact ⟨e.term, by rw [he]; rfl⟩

/-- **What one turn does**: nothing, because the index is compacted or its entry is there; or a push past the end; or a
push where a conflicting entry was. -/
theorem appendEntry_cases (cfg : Config) (r : LogRing) (i : Nat) (e : Entry) :
    ((i ≤ r.base ∨ (r.base < i ∧ i ≤ r.lastIndex ∧ r.termAt cfg i = some e.term)) ∧ r.appendEntry cfg i e = r) ∨
    (r.base < i ∧ r.lastIndex < i ∧ r.appendEntry cfg i e = r.pushOrSkip cfg { e with index := i }) ∨
    (r.base < i ∧ i ≤ r.lastIndex ∧ r.termAt cfg i ≠ some e.term ∧
      r.appendEntry cfg i e = (r.truncateSuffix i).pushOrSkip cfg { e with index := i }) := by
  unfold appendEntry
  by_cases hb : i ≤ r.base
  · exact .inl ⟨.inl hb, if_pos hb⟩
  rw [if_neg hb]
  have hb' : r.base < i := Nat.lt_of_not_le hb
  by_cases hl : i ≤ r.lastIndex
  · obtain ⟨t, ht⟩ : ∃ t, r.termAt cfg i = some t := termAt_isSome hb' hl
    rw [if_pos hl, ht]
    by_cases hte : t = e.term
    · exact .inl ⟨.inr ⟨hb', hl, by rw [hte]⟩, if_pos hte⟩
    · exact .inr (.inr ⟨hb', hl, by simpa using hte, if_neg hte⟩)
  · rw [if_neg hl]
    exact .inr (.inl ⟨hb', Nat.lt_of_not_le hl, rfl⟩)

/-- A push in list terms: one more entry, or a full ring as it was. -/
theorem Live.pushOrSkip_cases (h : Live cfg r ℓ) (e : Entry) :
    (r.count < cfg.logCapacity ∧ Live cfg (r.pushOrSkip cfg e) (ℓ ++ [e])) ∨
    (r.count = cfg.logCapacity ∧ r.pushOrSkip cfg e = r) := by
  unfold LogRing.pushOrSkip
  cases hp : r.push cfg e with
  | ok r' =>
    have hlt : r.count < cfg.logCapacity := by
      by_contra hc
      rw [LogRing.push, if_pos (by simpa [full] using hc)] at hp
      cases hp
    exact .inl ⟨hlt, (h.push hp).1⟩
  | error err =>
    have hge : cfg.logCapacity ≤ r.count := by
      by_contra hc
      rw [LogRing.push, if_neg (by simpa [full] using hc)] at hp
      cases hp
    exact .inr ⟨Nat.le_antisymm h.count_le hge, rfl⟩

/-- Where two live logs agree, so does `term_at` above both edges. -/
theorem Live.termAt_congr {r' : LogRing} {ℓ' : List Entry} (h : Live cfg r ℓ) (h' : Live cfg r' ℓ') (hb : r'.base = r.base)
    {k i : Nat} (hk : ℓ'.take k = ℓ.take k) (hkl : k ≤ ℓ.length) (hkl' : k ≤ ℓ'.length) (hi : r.base < i) (hik : i ≤ k) :
    r'.termAt cfg i = r.termAt cfg i := by
  rw [termAt_live hi, termAt_live (hb ▸ hi), h.at?_live hi (by omega), h'.at?_live (hb ▸ hi) (by omega)]
  rw [← List.getElem?_take_of_lt (show i - 1 < k by omega), hk, List.getElem?_take_of_lt (by omega)]

/-- The slice `es` from index `i` on has no conflict with the ring up to index `k`. -/
def Clear (cfg : Config) (r : LogRing) (i : Nat) (es : List Entry) (k : Nat) : Prop :=
  ∀ j, j < es.length → r.base < i + j → i + j ≤ k → r.termAt cfg (i + j) = es[j]?.map Entry.term

theorem Clear.tail {i k : Nat} {e : Entry} {es : List Entry} (h : Clear cfg r i (e :: es) k) : Clear cfg r (i + 1) es k := by
  intro j hj hb hk
  have := h (j + 1) (by simpa using hj) (by omega) (by omega)
  rw [show i + 1 + j = i + (j + 1) by omega, this]
  rfl

/-- A slice from above the index. -/
theorem clear_of_lt {i k : Nat} (es : List Entry) (h : k < i) : Clear cfg r i es k := by
  intro j _ _ hk
  omega

/-- **What the append loop leaves**: as many entries as the slice reaches to, if they fit; the log as far as nothing
conflicts; and, if there is room for the slice, all of the slice that is above the edge. -/
structure Spliced (cfg : Config) (r r' : LogRing) (ℓ ℓ' : List Entry) (i : Nat) (es : List Entry) : Prop where
  live : Live cfg r' ℓ'
  base : r'.base = r.base
  indexed : Indexed r.base ℓ → Indexed r.base ℓ'
  reach : min (i + es.length - 1) (r.base + cfg.logCapacity) ≤ ℓ'.length
  kept : ∀ k, k ≤ ℓ.length → Clear cfg r i es k → k ≤ ℓ'.length ∧ ℓ'.take k = ℓ.take k
  taken : i ≤ ℓ.length + 1 → i + es.length ≤ r.base + cfg.logCapacity + 1 → ∀ j, j < es.length → r.base < i + j →
    r'.termAt cfg (i + j) = es[j]?.map Entry.term

/-- The rest of the slice, after a turn that leaves `r₁` with the log `ℓ₁`. -/
theorem Spliced.cons {r₁ r' : LogRing} {ℓ₁ ℓ' : List Entry} {i : Nat} {e : Entry} {es : List Entry}
    (h : Spliced cfg r₁ r' ℓ₁ ℓ' (i + 1) es) (h₁ : Live cfg r₁ ℓ₁) (hb : r₁.base = r.base)
    (hidx : Indexed r.base ℓ → Indexed r.base ℓ₁) (hkept : ∀ k, k ≤ ℓ.length → Clear cfg r i (e :: es) k →
      k ≤ ℓ₁.length ∧ ℓ₁.take k = ℓ.take k ∧ Clear cfg r₁ (i + 1) es k)
    (htaken : i ≤ ℓ.length + 1 → i + (e :: es).length ≤ r.base + cfg.logCapacity + 1 → i ≤ ℓ₁.length ∧
      (r.base < i → r₁.termAt cfg i = some e.term)) : Spliced cfg r r' ℓ ℓ' i (e :: es) := by
  refine ⟨h.live, h.base.trans hb, fun hx => hb ▸ h.indexed (hb.symm ▸ hidx hx), ?_, fun k hk hclear => ?_,
    fun hi hroom j hj hbj => ?_⟩
  · have := h.reach
    rw [hb] at this
    rwa [List.length_cons, show i + (es.length + 1) - 1 = i + 1 + es.length - 1 by omega]
  · obtain ⟨h1, h2, h3⟩ := hkept k hk hclear
    obtain ⟨h4, h5⟩ := h.kept k h1 h3
    exact ⟨h4, h5.trans h2⟩
  · obtain ⟨hlen, hterm⟩ := htaken hi hroom
    rw [List.length_cons] at hroom hj
    cases j with
    | zero =>
      obtain ⟨h4, h5⟩ := h.kept i hlen (clear_of_lt es (Nat.lt_succ_self i))
      rw [Nat.add_zero, h₁.termAt_congr h.live h.base h5 hlen h4 (by omega) (Nat.le_refl i), hterm (by omega)]
      rfl
    | succ j =>
      have := h.taken (by omega) (by omega) j (by omega) (by omega)
      rw [show i + (j + 1) = i + 1 + j by omega, this]
      rfl

/-- **The append loop**, from an index the ring reaches or with a full ring. -/
theorem Live.splice : ∀ (es : List Entry) (i : Nat) {r : LogRing} {ℓ : List Entry}, Live cfg r ℓ →
    i ≤ ℓ.length + 1 ∨ r.count = cfg.logCapacity → ∃ ℓ', Spliced cfg r (r.appendAll cfg i es) ℓ ℓ' i es
  | [], i, r, ℓ, h, hi => by
    have hlast := h.last
    refine ⟨ℓ, h, rfl, id, ?_, fun k hk _ => ⟨hk, rfl⟩, fun _ _ j hj => absurd hj (Nat.not_lt_zero j)⟩
    rw [List.length_nil]
    omega
  | e :: es, i, r, ℓ, h, hi => by
    have hlast := h.last
    rw [LogRing.appendAll]
    -- a turn that leaves the ring alone
    have hstay : r.appendEntry cfg i e = r → i + 1 ≤ ℓ.length + 1 ∨ r.count = cfg.logCapacity →
        (i ≤ ℓ.length + 1 → i + (e :: es).length ≤ r.base + cfg.logCapacity + 1 → i ≤ ℓ.length ∧
          (r.base < i → r.termAt cfg i = some e.term)) →
        ∃ ℓ', Spliced cfg r ((r.appendEntry cfg i e).appendAll cfg (i + 1) es) ℓ ℓ' i (e :: es) := by
      intro hsame hnext htaken
      rw [hsame]
      obtain ⟨ℓ', hrest⟩ := Live.splice es (i + 1) h hnext
      exact ⟨ℓ', hrest.cons h rfl id (fun k hk hclear => ⟨hk, rfl, hclear.tail⟩) htaken⟩
    -- a turn that leaves the log up to `i`, and the new entry there
    have hpush : ∀ {r₁ : LogRing}, Live cfg r₁ (ℓ.take (i - 1) ++ [{ e with index := i }]) → r₁.base = r.base →
        r.base < i → i ≤ ℓ.length + 1 → (i ≤ ℓ.length → r.termAt cfg i ≠ some e.term) →
        ∃ ℓ', Spliced cfg r (r₁.appendAll cfg (i + 1) es) ℓ ℓ' i (e :: es) := by
      intro r₁ h₁ hb₁ hb hil hconf
      have hlen : (ℓ.take (i - 1) ++ [{ e with index := i }]).length = i := by
        rw [List.length_append, List.length_take, List.length_singleton]
        omega
      obtain ⟨ℓ', hrest⟩ := Live.splice es (i + 1) h₁ (.inl (by omega))
      refine ⟨ℓ', hrest.cons h₁ hb₁ (fun hx => ?_) (fun k hk hclear => ?_) fun _ _ => ⟨by omega, fun _ => ?_⟩⟩
      · have hnew := (hx.take (i - 1)).push e
        rwa [show (ℓ.take (i - 1)).length + 1 = i by rw [List.length_take]; omega] at hnew
      · have hki : k < i := by
          by_contra hge
          have := hclear 0 (by simp) (by omega) (by omega)
          exact hconf (by omega) (by simpa using this)
        refine ⟨by omega, ?_, clear_of_lt es (by omega)⟩
        rw [List.take_append_of_le_length (by rw [List.length_take]; omega), List.take_take, Nat.min_eq_left (by omega)]
      · rw [termAt_live (hb₁ ▸ hb), h₁.at?_live (hb₁ ▸ hb) (by omega),
          List.getElem?_append_right (by rw [List.length_take]; omega)]
        simp [List.length_take, Nat.min_eq_left (show i - 1 ≤ ℓ.length by omega)]
    rcases appendEntry_cases cfg r i e with ⟨hskip, hsame⟩ | ⟨hb, hl, happ⟩ | ⟨hb, hl, hconf, happ⟩
    · refine hstay hsame (.inl ?_) fun _ _ => ?_
      · rcases hskip with hskip | ⟨-, hskip, -⟩
        · omega
        · rw [h.lastIndex] at hskip
          omega
      · rcases hskip with hskip | ⟨-, hskip, hterm⟩
        · exact ⟨by omega, fun hb => by omega⟩
        · rw [h.lastIndex] at hskip
          exact ⟨hskip, fun _ => hterm⟩
    · rw [h.lastIndex] at hl
      rcases h.pushOrSkip_cases { e with index := i } with ⟨hc, hlive⟩ | ⟨hc, hfull⟩
      · rw [happ]
        have hil : i = ℓ.length + 1 := by omega
        refine hpush ?_ (pushOrSkip_base _ _) hb (by omega) (fun hle => by omega)
        rw [List.take_of_length_le (by omega)]
        exact hlive
      · refine hstay (happ.trans hfull) (.inr hc) fun hil hroom => ?_
        rw [List.length_cons] at hroom
        omega
    · rw [h.lastIndex] at hl
      obtain ⟨htrunc, hb₁, -⟩ := h.truncateSuffix hb
      have htl := htrunc.last
      rw [List.length_take, hb₁] at htl
      have hcount := h.count_le
      rcases htrunc.pushOrSkip_cases { e with index := i } with ⟨hc, hlive⟩ | ⟨hc, -⟩
      · rw [happ]
        exact hpush hlive ((pushOrSkip_base _ _).trans hb₁) hb (by omega) fun _ => hconf
      · omega

/-- The loop keeps the edge, ends with everything of the slice that fits, and only gets shorter by a conflict. -/
theorem Live.appendAll (es : List Entry) (i : Nat) (h : Live cfg r ℓ) (hx : Indexed r.base ℓ)
    (hi : i ≤ ℓ.length + 1 ∨ r.count = cfg.logCapacity) :
    ∃ ℓ', Live cfg (r.appendAll cfg i es) ℓ' ∧ Indexed r.base ℓ' ∧ (r.appendAll cfg i es).base = r.base ∧
      min (i + es.length - 1) (r.base + cfg.logCapacity) ≤ ℓ'.length ∧
      (ℓ.length ≤ ℓ'.length ∨ r.Conflicts cfg i es) := by
  obtain ⟨ℓ', hsplice⟩ := h.splice es i hi
  refine ⟨ℓ', hsplice.live, hsplice.indexed hx, hsplice.base, hsplice.reach, ?_⟩
  by_cases hconf : r.Conflicts cfg i es
  · exact .inr hconf
  · refine .inl (hsplice.kept ℓ.length (Nat.le_refl _) fun j hj hb hk => ?_).1
    by_contra hne
    exact hconf ⟨j, hj, hb, by rw [h.lastIndex]; exact hk, hne⟩

end LogRing

/-- The snapshot's last entry is in the log. -/
def LogRing.Covers (cfg : Config) (r : LogRing) (is : InstallSnapshot) : Prop :=
  is.lastIncludedIndex ≤ r.lastIndex ∧ r.termAt cfg is.lastIncludedIndex = some is.lastIncludedTerm

instance (cfg : Config) (r : LogRing) (is : InstallSnapshot) : Decidable (r.Covers cfg is) :=
  inferInstanceAs (Decidable (_ ∧ _))

/-! ## Entries and their positions -/

namespace LogRing

/-- The ring holds a log whose live entries carry their own index. -/
def Tidy (cfg : Config) (r : LogRing) : Prop := ∃ ℓ, r.Live cfg ℓ ∧ Indexed r.base ℓ

variable {cfg : Config} {r r' : LogRing}

theorem Tidy.index (h : r.Tidy cfg) {i : Nat} {e : Entry} (he : r.at? cfg i = some e) : e.index = i := by
  obtain ⟨ℓ, hlive, hidx⟩ := h
  obtain ⟨hb, -, hget⟩ := hlive.at?_eq_some.1 he
  rw [hidx (i - 1) e (by omega) hget]
  omega

theorem tidy_empty (cfg : Config) : Tidy cfg {} :=
  ⟨[], (holds_nil cfg).toLive, fun _ _ _ he => nomatch he⟩

theorem Tidy.push (h : r.Tidy cfg) {e : Entry} (hi : e.index = r.lastIndex + 1) (hp : r.push cfg e = .ok r') :
    r'.Tidy cfg ∧ r'.lastIndex = r.lastIndex + 1 ∧ r'.base = r.base := by
  obtain ⟨ℓ, hlive, hidx⟩ := h
  obtain ⟨hlive', hb, -⟩ := hlive.push hp
  have hnew := hidx.push e
  have he : { e with index := ℓ.length + 1 } = e := by rw [← hlive.lastIndex, ← hi]
  rw [he] at hnew
  refine ⟨⟨_, hlive', hb ▸ hnew⟩, ?_, hb⟩
  rw [hlive'.lastIndex, hlive.lastIndex, List.length_append]
  rfl

/-- The last entry of a ring that took one. -/
theorem Live.at?_pushed {ℓ : List Entry} (h : Live cfg r ℓ) {e : Entry} (hp : r.push cfg e = .ok r') :
    r'.at? cfg (r.lastIndex + 1) = some e := by
  obtain ⟨hlive, hb, -⟩ := h.push hp
  have hbase := h.base_le
  rw [hlive.at?_live (by rw [hb, h.lastIndex]; omega) (by simp [h.lastIndex]), h.lastIndex]
  simp

theorem Tidy.compactTo (h : r.Tidy cfg) {i : Nat} (t : Nat) (hb : r.base ≤ i) (hl : i ≤ r.lastIndex) :
    (r.compactTo cfg i t).Tidy cfg ∧ (r.compactTo cfg i t).lastIndex = r.lastIndex := by
  obtain ⟨ℓ, hlive, hidx⟩ := h
  have hlive' := hlive.compactTo t hb (by rwa [← hlive.lastIndex])
  exact ⟨⟨ℓ, hlive', fun j e hj he => hidx j e (Nat.le_trans hb hj) he⟩, by rw [hlive'.lastIndex, hlive.lastIndex]⟩

theorem Tidy.appendAll (h : r.Tidy cfg) (es : List Entry) {i : Nat} (hi : i ≤ r.lastIndex + 1) :
    (r.appendAll cfg i es).Tidy cfg := by
  obtain ⟨ℓ, hlive, hidx⟩ := h
  obtain ⟨ℓ', hlive', hidx', hb, -, -⟩ := hlive.appendAll es i hidx (.inl (by rwa [← hlive.lastIndex]))
  exact ⟨ℓ', hlive', hb ▸ hidx'⟩

theorem tidy_resetToSnapshot (cfg : Config) (r : LogRing) (i t : Nat) : (r.resetToSnapshot i t).Tidy cfg := by
  have hm : (List.replicate i ({} : Entry)).length = i := List.length_replicate
  have hlive := live_resetToSnapshot cfg r (List.replicate i {}) t
  rw [hm] at hlive
  refine ⟨_, hlive, fun j e hj he => ?_⟩
  rw [List.getElem?_eq_none (by rw [hm]; exact hj)] at he
  cases he

theorem Tidy.installLog (h : r.Tidy cfg) {is : InstallSnapshot} (hb : r.Covers cfg is → r.base ≤ is.lastIncludedIndex) :
    (Server.installLog cfg is r).Tidy cfg := by
  unfold Server.installLog
  split
  · rename_i hcov
    exact (h.compactTo is.lastIncludedTerm (hb hcov) hcov.1).1
  · exact tidy_resetToSnapshot cfg r _ _

end LogRing

/-- **When an accepted message keeps the indices in order.**  An `AppendEntries` may commit no further than the ring
can reach, and a slice that conflicts with the log must not end below the commit index; a finished `InstallSnapshot`
must not lie below the snapshot edge, nor, where it replaces the log, below the commit index. -/
def Server.OrderOk (cfg : Config) (s : Server) : Option Message → Prop
  | some ⟨_, _, .appendEntries ae⟩ => s.currentTerm ≤ ae.term → s.prevMismatch cfg ae = none →
      (s.commitIndex < ae.leaderCommit →
        min ae.leaderCommit (ae.prevLogIndex + ae.nEntries) ≤ s.log.base + cfg.logCapacity) ∧
      (s.log.Conflicts cfg (ae.prevLogIndex + 1) ae.view → s.commitIndex ≤ ae.prevLogIndex + ae.nEntries)
  | some ⟨_, _, .installSnapshot is⟩ => s.currentTerm ≤ is.term → is.done = true →
      s.log.base ≤ is.lastIncludedIndex ∧ (s.log.Covers cfg is ∨ s.commitIndex ≤ is.lastIncludedIndex)
  | _ => True

/-- The previous entry of a message that is not refused is not past the end. -/
theorem Server.prev_le_lastIndex {cfg : Config} {s : Server} {ae : AppendEntries} (h : s.prevMismatch cfg ae = none) :
    ae.prevLogIndex ≤ s.log.lastIndex := by
  unfold prevMismatch at h
  split at h
  · cases h
  · rename_i hlt
    exact Nat.le_of_not_lt hlt

/-- **The index order of a server**, and the shape of its ring. -/
structure Ordered (cfg : Config) (s : Server) : Prop where
  ring : ∃ ℓ, s.log.Live cfg ℓ ∧ Indexed s.log.base ℓ
  base_le : s.log.base ≤ s.lastApplied
  applied_le : s.lastApplied ≤ s.commitIndex
  commit_le : s.commitIndex ≤ s.log.lastIndex

namespace Ordered

variable {cfg : Config} {s s' : Server}

theorem congr (h : Ordered cfg s) (hl : s'.log = s.log) (hc : s'.commitIndex = s.commitIndex)
    (ha : s'.lastApplied = s.lastApplied) : Ordered cfg s' := by
  refine ⟨?_, ?_, ?_, ?_⟩
  · rw [hl]; exact h.ring
  · rw [hl, ha]; exact h.base_le
  · rw [ha, hc]; exact h.applied_le
  · rw [hc, hl]; exact h.commit_le

/-- A longer log above the same edge. -/
theorem extend (h : Ordered cfg s) {log : LogRing} (hr : ∃ ℓ, log.Live cfg ℓ ∧ Indexed log.base ℓ)
    (hb : log.base = s.log.base) (hl : s.log.lastIndex ≤ log.lastIndex) : Ordered cfg { s with log := log } :=
  ⟨hr, by show log.base ≤ _; rw [hb]; exact h.base_le, h.applied_le, Nat.le_trans h.commit_le hl⟩

theorem prev_le {ae : AppendEntries} {r : LogRing} {ℓ : List Entry} (hlive : r.Live cfg ℓ)
    (hp : Server.prevMismatch cfg ae { s with log := r } = none) : ae.prevLogIndex + 1 ≤ ℓ.length + 1 := by
  rw [← hlive.lastIndex]
  exact Nat.succ_le_succ (Server.prev_le_lastIndex hp)

/-- **An accepted `AppendEntries` keeps the order.** -/
theorem accept (h : Ordered cfg s) {ae : AppendEntries} (hp : s.prevMismatch cfg ae = none)
    (hcom : s.commitIndex < ae.leaderCommit →
      min ae.leaderCommit (ae.prevLogIndex + ae.nEntries) ≤ s.log.base + cfg.logCapacity)
    (hcon : s.log.Conflicts cfg (ae.prevLogIndex + 1) ae.view → s.commitIndex ≤ ae.prevLogIndex + ae.nEntries)
    (hlog : s'.log = s.log.appendAll cfg (ae.prevLogIndex + 1) ae.view)
    (hc : s'.commitIndex = ae.commitFrom s.commitIndex) (ha : s'.lastApplied = s.lastApplied) :
    Ordered cfg s' ∧ s'.log.base = s.log.base := by
  obtain ⟨ℓ, hlive, hidx⟩ := h.ring
  have hprev : ae.prevLogIndex + 1 ≤ ℓ.length + 1 := prev_le (s := s) hlive hp
  obtain ⟨ℓ', h1, h2, h3, h4, h5⟩ := hlive.appendAll ae.view (ae.prevLogIndex + 1) hidx (.inl hprev)
  rw [AppendEntries.length_view] at h4
  rw [← hlog] at h1 h3
  have hold : s.commitIndex ≤ ℓ'.length := by
    have hle := h.commit_le
    rw [hlive.lastIndex] at hle
    rcases h5 with h5 | h5
    · omega
    · have := hcon h5
      have hcount := hlive.count_le
      have hlast := hlive.last
      omega
  have hnew : s'.commitIndex ≤ ℓ'.length ∧ s.commitIndex ≤ s'.commitIndex := by
    rw [hc, AppendEntries.commitFrom]
    split
    · rename_i hlt
      have := hcom hlt
      omega
    · exact ⟨hold, Nat.le_refl _⟩
  refine ⟨⟨⟨ℓ', h1, h3 ▸ h2⟩, ?_, ?_, ?_⟩, h3⟩
  · rw [h3, ha]; exact h.base_le
  · rw [ha]; exact Nat.le_trans h.applied_le hnew.2
  · rw [h1.lastIndex]; exact hnew.1

/-- **A finished `InstallSnapshot` keeps the order.** -/
theorem install (h : Ordered cfg s) {is : InstallSnapshot} (hb : s.log.base ≤ is.lastIncludedIndex)
    (hcov : s.log.Covers cfg is ∨ s.commitIndex ≤ is.lastIncludedIndex)
    (hlog : s'.log = Server.installLog cfg is s.log) (hc : s'.commitIndex = max s.commitIndex s'.log.base)
    (ha : s'.lastApplied = max s.lastApplied s'.log.base) : Ordered cfg s' ∧ s'.log.base = is.lastIncludedIndex := by
  have htidy : s'.log.Tidy cfg := hlog ▸ LogRing.Tidy.installLog h.ring (fun _ => hb)
  have hbase : s'.log.base = is.lastIncludedIndex := by rw [hlog, Server.installLog_base]
  have hlast : max s.commitIndex is.lastIncludedIndex ≤ s'.log.lastIndex := by
    have hcommit := h.commit_le
    rw [hlog]
    unfold Server.installLog
    split
    · rename_i hcv
      rw [(LogRing.Tidy.compactTo h.ring is.lastIncludedTerm hb hcv.1).2]
      exact Nat.max_le.2 ⟨hcommit, hcv.1⟩
    · rename_i hcv
      have hle : s.commitIndex ≤ is.lastIncludedIndex := hcov.resolve_left hcv
      exact Nat.max_le.2 ⟨hle, Nat.le_refl _⟩
  have happlied := h.applied_le
  refine ⟨⟨htidy, ?_, ?_, ?_⟩, hbase⟩
  · rw [ha]
    exact Nat.le_max_right _ _
  · rw [ha, hc]
    omega
  · rw [hc, hbase]
    exact hlast

theorem findCommit_spec {next : Nat} : ∀ {k : Nat}, Server.findCommit cfg s k = some next →
    s.commitIndex < next ∧ next ≤ s.commitIndex + k ∧ s.log.termAt cfg next = some s.currentTerm ∧
      s.majority ≤ s.nodes.countP (fun p : Peer => p.isSelf || decide (next ≤ p.matchIndex))
  | 0, h => by cases h
  | k + 1, h => by
    rw [Server.findCommit] at h
    split at h
    · rename_i hc
      injection h with h
      subst h
      exact ⟨by omega, Nat.le_refl _, hc.1, hc.2⟩
    · obtain ⟨h1, h2, h3⟩ := findCommit_spec h
      exact ⟨h1, by omega, h3⟩

theorem prevMismatch_congr {ae : AppendEntries} (hl : s'.log = s.log) (h : s.prevMismatch cfg ae = none) :
    s'.prevMismatch cfg ae = none := by
  unfold Server.prevMismatch at h ⊢
  rw [hl]
  split at h
  · cases h
  rename_i h1
  rw [if_neg h1]
  split at h
  · rename_i h2
    rw [if_pos h2]
  rename_i h2
  rw [if_neg h2]
  split at h
  · split at h
    · cases h
    · rename_i t ht h3
      rw [if_neg h3]
  · cases h

/-- The condition, read at the moment an `AppendEntries` is accepted. -/
theorem orderOk_append {m : Message} {ae : AppendEntries} (hok : s.OrderOk cfg (some m)) (hm : m.payload = .appendEntries ae)
    (h0 : Server.Untouched s s') (ht : ae.term = s'.currentTerm) (hp : s'.prevMismatch cfg ae = none) :
    (s'.commitIndex < ae.leaderCommit →
      min ae.leaderCommit (ae.prevLogIndex + ae.nEntries) ≤ s'.log.base + cfg.logCapacity) ∧
    (s'.log.Conflicts cfg (ae.prevLogIndex + 1) ae.view → s'.commitIndex ≤ ae.prevLogIndex + ae.nEntries) := by
  obtain ⟨src, dst, pl⟩ := m
  cases hm
  rw [h0.log, h0.commit]
  exact hok (ht ▸ h0.term) (prevMismatch_congr h0.log.symm hp)

theorem orderOk_install {m : Message} {is : InstallSnapshot} (hok : s.OrderOk cfg (some m))
    (hm : m.payload = .installSnapshot is) (h0 : Server.Untouched s s') (ht : is.term = s'.currentTerm)
    (hd : is.done = true) :
    s'.log.base ≤ is.lastIncludedIndex ∧ (s'.log.Covers cfg is ∨ s'.commitIndex ≤ is.lastIncludedIndex) := by
  obtain ⟨src, dst, pl⟩ := m
  cases hm
  rw [h0.log, h0.commit]
  exact hok (ht ▸ h0.term) hd

/-- **Every move keeps the order, and lowers neither the commit index nor the edge**, if the message being handled is
in order. -/
theorem move {io : Io} {fit : Prop} {heard : Option Message} {start : Server} (h : Ordered cfg s)
    (hok : start.OrderOk cfg heard) (hmv : Move cfg io fit heard start s s') :
    Ordered cfg s' ∧ s.commitIndex ≤ s'.commitIndex ∧ s.log.base ≤ s'.log.base := by
  have hsame : s'.log = s.log → s'.commitIndex = s.commitIndex → s'.lastApplied = s.lastApplied →
      Ordered cfg s' ∧ s.commitIndex ≤ s'.commitIndex ∧ s.log.base ≤ s'.log.base :=
    fun hl hc ha => ⟨h.congr hl hc ha, Nat.le_of_eq hc.symm, Nat.le_of_eq (by rw [hl])⟩
  cases hmv with
  | quiet evs hq => exact hsame rfl rfl rfl
  | aim nodes hk hn => exact hsame rfl rfl rfl
  | adopt t ht => exact hsame rfl rfl rfl
  | demote => exact hsame rfl rfl rfl
  | campaign hs hf => exact hsame rfl rfl rfl
  | tally m rr p hm hrr hpre hg ht hs hp hn => exact hsame rfl rfl rfl
  | promote hs hm _ => exact hsame rfl rfl rfl
  | propose e log hs ht hi hp =>
    obtain ⟨htidy, hl, hb⟩ := LogRing.Tidy.push h.ring hi hp
    have hord := h.extend htidy hb (by rw [hl]; exact Nat.le_succ _)
    exact ⟨hord.congr rfl rfl rfl, Nat.le_refl _, Nat.le_of_eq hb.symm⟩
  | vote m rv hm hrv hpre ht hv hu => exact hsame rfl rfl rfl
  | emit m hsend => exact hsame rfl rfl rfl
  | accept m ae hm hae ht hs hp h0 =>
    subst hm
    obtain ⟨hcom, hcon⟩ := orderOk_append hok hae h0 ht hp
    obtain ⟨evs, -, he⟩ := Server.accepted_eq cfg ae s
    have hlog : (s.accepted cfg ae).log = s.log.appendAll cfg (ae.prevLogIndex + 1) ae.view := by rw [he]
    have hc : (s.accepted cfg ae).commitIndex = ae.commitFrom s.commitIndex := by rw [he]
    obtain ⟨hord, hb⟩ := h.accept hp hcom hcon hlog hc (by rw [he])
    refine ⟨hord, ?_, Nat.le_of_eq hb.symm⟩
    rw [hc]
    exact ae.le_commitFrom s.commitIndex
  | chunk m is hm his ht hs hd h0 =>
    have he := Server.chunk_eq cfg is s
    exact hsame (by rw [he]; rfl) (by rw [he]; rfl) (by rw [he]; rfl)
  | install m is hm his ht hs hd h0 =>
    subst hm
    obtain ⟨hb, hcov⟩ := orderOk_install hok his h0 ht hd
    have he := Server.installed_eq cfg io is s
    have hlog : (s.installed cfg io is).core.log = Server.installLog cfg is s.log := by rw [he]
    have hc : (s.installed cfg io is).core.commitIndex = max s.commitIndex (s.installed cfg io is).core.log.base := by
      rw [he]
    obtain ⟨hord, hbase⟩ := h.install hb hcov hlog hc (by rw [he])
    refine ⟨hord, ?_, ?_⟩
    · rw [hc]; exact Nat.le_max_left _ _
    · rw [hbase]; exact hb
  | learn sender l hs hr => exact hsame rfl rfl rfl
  | advance next hs hn =>
    obtain ⟨h1, h2, -⟩ := findCommit_spec hn
    have hle := h.commit_le
    refine ⟨⟨h.ring, h.base_le, Nat.le_trans h.applied_le (Nat.le_of_lt h1), ?_⟩, Nat.le_of_lt h1, Nat.le_refl _⟩
    show next ≤ s.log.lastIndex
    omega
  | apply hlt =>
    rw [Server.applyNext_eq]
    exact ⟨⟨h.ring, Nat.le_succ_of_le h.base_le, hlt, h.commit_le⟩, Nat.le_refl _, Nat.le_refl _⟩
  | compact bytes t hio hb ht =>
    obtain ⟨htidy, hl⟩ := LogRing.Tidy.compactTo h.ring t (Nat.le_of_lt hb) (Nat.le_trans h.applied_le h.commit_le)
    refine ⟨⟨htidy, Nat.le_refl _, h.applied_le, ?_⟩, Nat.le_refl _, Nat.le_of_lt hb⟩
    show s.commitIndex ≤ (s.log.compactTo cfg s.lastApplied t).lastIndex
    rw [hl]
    exact h.commit_le

theorem core_iff : Ordered cfg s.core ↔ Ordered cfg s := ⟨fun h => h.congr rfl rfl rfl, fun h => h.congr rfl rfl rfl⟩

/-- **One call** keeps the order and lowers neither the commit index nor the edge. -/
theorem perform {io : Io} {k : Call} (h : Ordered cfg s) (hok : s.OrderOk cfg k.heard) :
    Ordered cfg (s.perform cfg io k) ∧ s.commitIndex ≤ (s.perform cfg io k).commitIndex ∧
      s.log.base ≤ (s.perform cfg io k).log.base := by
  have hrun : ∀ y, Moves cfg io False k.heard s s.core y →
      Ordered cfg y ∧ s.commitIndex ≤ y.commitIndex ∧ s.log.base ≤ y.log.base := by
    intro y hy
    induction hy with
    | refl => exact ⟨core_iff.2 h, Nat.le_refl _, Nat.le_refl _⟩
    | tail _ hmv ih =>
      obtain ⟨h1, h2, h3⟩ := ih
      obtain ⟨h4, h5, h6⟩ := h1.move hok hmv
      exact ⟨h4, Nat.le_trans h2 h5, Nat.le_trans h3 h6⟩
  obtain ⟨h1, h2, h3⟩ := hrun _ (Server.perform_moves cfg io False s k (fun hf => hf.elim))
  exact ⟨core_iff.1 h1, h2, h3⟩

end Ordered

/-! ## Runs -/

theorem rebuild_log (S : Setup) (n : Nat) (calls : List Event) :
    (S.rebuild n calls).log = {} ∧ (S.rebuild n calls).commitIndex = 0 ∧ (S.rebuild n calls).lastApplied = 0 := by
  unfold Setup.rebuild Server.new
  split <;> exact ⟨rfl, rfl, rfl⟩

theorem ordered_rebuild (S : Setup) (n : Nat) (calls : List Event) : Ordered S.cfg (S.rebuild n calls) := by
  obtain ⟨h1, h2, h3⟩ := rebuild_log S n calls
  refine ⟨⟨[], ?_, ?_⟩, ?_, ?_, ?_⟩
  · rw [h1]; exact (LogRing.holds_nil S.cfg).toLive
  · intro i e _ he
    cases he
  · exact Nat.le_trans (Nat.le_of_eq (congrArg LogRing.base h1)) (Nat.zero_le _)
  · exact Nat.le_trans (Nat.le_of_eq h3) (Nat.zero_le _)
  · exact Nat.le_trans (Nat.le_of_eq h2) (Nat.zero_le _)

/-- No node goes down, and every message that is accepted is in order. -/
def Setup.OrderlySteps (S : Setup) (c : Cluster) : Action → Prop
  | .call n _ k => (c.node n).OrderOk S.cfg k.heard
  | .restart _ => False
  | .crash _ _ _ _ => False

theorem ordered_exec {S : Setup} {c : Cluster} {act : Action} (h : ∀ n, Ordered S.cfg (c.node n))
    (hok : S.OrderlySteps c act) (n : Nat) :
    Ordered S.cfg ((S.sys.exec c act).node n) ∧ (c.node n).commitIndex ≤ ((S.sys.exec c act).node n).commitIndex ∧
      (c.node n).log.base ≤ ((S.sys.exec c act).node n).log.base := by
  cases act with
  | call a io k =>
    show Ordered S.cfg ((c.set a _).node n) ∧ _ ≤ ((c.set a _).node n).commitIndex ∧ _ ≤ ((c.set a _).node n).log.base
    by_cases hn : n = a
    · subst hn
      rw [Cluster.set_node_self]
      exact (h n).perform hok
    · rw [Cluster.set_node_ne hn]
      exact ⟨h n, Nat.le_refl _, Nat.le_refl _⟩
  | restart a => exact hok.elim
  | crash a io k made => exact hok.elim

theorem ordered_reachable {S : Setup} {c : Cluster} (h : S.sys.Reachable S.OrderlySteps c) (n : Nat) :
    Ordered S.cfg (c.node n) := by
  refine Sys.Reachable.invariant (P := fun c => ∀ n, Ordered S.cfg (c.node n)) h (fun n => ordered_rebuild S n []) ?_ n
  intro x act hx _ hok n
  exact (ordered_exec hx hok n).1

/-- **The index order**: along a run whose accepted messages are in order, in every state of every server
`base ≤ last_applied ≤ commit_index ≤ last_index` and the ring is within its capacity, and neither the commit index nor
the base ever decreases. -/
theorem index_order (S : Setup) (c c' : Cluster) (h : S.sys.Reachable S.OrderlySteps c)
    (h' : S.sys.Reaches S.OrderlySteps c c') (n : Nat) :
    ((c.node n).log.base ≤ (c.node n).lastApplied ∧ (c.node n).lastApplied ≤ (c.node n).commitIndex ∧
      (c.node n).commitIndex ≤ (c.node n).log.lastIndex ∧ (c.node n).log.count ≤ S.cfg.logCapacity) ∧
    (c.node n).commitIndex ≤ (c'.node n).commitIndex ∧ (c.node n).log.base ≤ (c'.node n).log.base := by
  have hord := ordered_reachable h n
  obtain ⟨ℓ, hlive, -⟩ := hord.ring
  refine ⟨⟨hord.base_le, hord.applied_le, hord.commit_le, hlive.count_le⟩, ?_⟩
  have hmono : (∀ n, Ordered S.cfg (c'.node n)) ∧ (c.node n).commitIndex ≤ (c'.node n).commitIndex ∧
      (c.node n).log.base ≤ (c'.node n).log.base := by
    refine Sys.Reaches.invariant (P := fun x => (∀ n, Ordered S.cfg (x.node n)) ∧
      (c.node n).commitIndex ≤ (x.node n).commitIndex ∧ (c.node n).log.base ≤ (x.node n).log.base) h'
      ⟨ordered_reachable h, Nat.le_refl _, Nat.le_refl _⟩ ?_
    rintro x act ⟨hx, h1, h2⟩ - hok
    obtain ⟨-, h3, h4⟩ := ordered_exec hx hok n
    exact ⟨fun m => (ordered_exec hx hok m).1, Nat.le_trans h1 h3, Nat.le_trans h2 h4⟩
  exact hmono.2

instance (cfg : Config) (s : Server) : ∀ heard : Option Message, Decidable (s.OrderOk cfg heard)
  | some ⟨_, _, .appendEntries ae⟩ => inferInstanceAs (Decidable (s.currentTerm ≤ ae.term → s.prevMismatch cfg ae = none →
      (s.commitIndex < ae.leaderCommit →
        min ae.leaderCommit (ae.prevLogIndex + ae.nEntries) ≤ s.log.base + cfg.logCapacity) ∧
      (s.log.Conflicts cfg (ae.prevLogIndex + 1) ae.view → s.commitIndex ≤ ae.prevLogIndex + ae.nEntries)))
  | some ⟨_, _, .installSnapshot is⟩ => inferInstanceAs (Decidable (s.currentTerm ≤ is.term → is.done = true →
      s.log.base ≤ is.lastIncludedIndex ∧ (s.log.Covers cfg is ∨ s.commitIndex ≤ is.lastIncludedIndex)))
  | some ⟨_, _, .requestVote _⟩ => inferInstanceAs (Decidable True)
  | some ⟨_, _, .requestVoteResp _⟩ => inferInstanceAs (Decidable True)
  | some ⟨_, _, .appendEntriesResp _⟩ => inferInstanceAs (Decidable True)
  | some ⟨_, _, .installSnapshotResp _⟩ => inferInstanceAs (Decidable True)
  | none => inferInstanceAs (Decidable True)

instance (S : Setup) (c : Cluster) : ∀ act : Action, Decidable (S.OrderlySteps c act)
  | .call n _ k => inferInstanceAs (Decidable ((c.node n).OrderOk S.cfg k.heard))
  | .restart _ => inferInstanceAs (Decidable False)
  | .crash _ _ _ _ => inferInstanceAs (Decidable False)

/-- Node 1 is elected, commits its no-op, takes a snapshot and brings node 3 up to date with it. -/
def catchUp : List Turn :=
  .start 1 0 :: elect 1 2 5000 ++
  [.periodic 1 6000, .deliver 1 2 0 6000, .deliver 2 1 0 6000, .snapshot 1 6000,
   .periodic 1 7000, .deliver 1 3 0 7000, .deliver 3 1 0 7000,
   .submit 1 7000, .deliver 1 3 0 7000, .deliver 3 1 0 7000, .periodic 1 8000, .deliver 1 3 0 8000]

theorem index_order_catchUp :
    let c := trio.play trio.OrderlySteps (.saving [7]) catchUp trio.init
    let c' := trio.play trio.OrderlySteps (.saving [7]) [.snapshot 3 8000] c
    (c.node 3).log.base = 1 ∧ (c.node 3).commitIndex = 2 ∧ (c'.node 3).log.base = 2 ∧
      (c.node 3).commitIndex ≤ (c'.node 3).commitIndex ∧ (c.node 3).log.base ≤ (c'.node 3).log.base := by
  intro c c'
  have hc : trio.sys.Reachable trio.OrderlySteps c := Setup.reachable_play _ _ _
  have hc' : trio.sys.Reaches trio.OrderlySteps c c' := Setup.reaches_play _ _ _ _
  exact ⟨by decide +kernel, by decide +kernel, by decide +kernel, (index_order trio c c' hc hc' 3).2⟩

/-- Node 3 takes a snapshot of its own, then the network delivers the old `InstallSnapshot` once more: the edge goes
back, below the commit index. -/
theorem index_order_fails_on_duplicate :
    let c := trio.play NoRestart (.saving [7]) (catchUp ++ [.snapshot 3 8000]) trio.init
    let c' := trio.play NoRestart (.saving [7]) [.deliver 1 3 3 8000] c
    trio.sys.Reachable NoRestart c ∧ trio.sys.Reaches NoRestart c c' ∧
      (c'.node 3).log.base < (c.node 3).log.base ∧ (c'.node 3).log.lastIndex < (c'.node 3).commitIndex :=
  ⟨Setup.reachable_play _ _ _, Setup.reaches_play _ _ _ _, by decide +kernel⟩

end Raft
end FloodEws
