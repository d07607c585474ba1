import FloodEws.Slices
/-!
# Repair — where a leader retries, and what an accepted slice leaves

A follower that refuses a request names its own term at the place and where that term starts; the leader retries after
its own last entry of that term, or at the place named.

Until a request is accepted the leader's entry at `next_index` is one the follower does not have: what it has there, if
anything, is of another term (`Probing`).  Each refusal keeps that and moves the index down.  So the first entry of the
request that is accepted cuts the follower's log there, and it is a beginning of the leader's from then on (`InStep`).
-/
namespace FloodEws
namespace Raft

/-- An entry without the index that is stored with it. -/
def Entry.content (e : Entry) : Entry := { e with index := 0 }

/-! ## Logs -/

/-- `i` is the first index of the term `t`. -/
structure FirstOf (ℓ : List Entry) (t i : Nat) : Prop where
  pos : 1 ≤ i
  le : i ≤ ℓ.length
  term : termOf ℓ i = t
  first : ∀ j, 1 ≤ j → j < i → termOf ℓ j ≠ t

/-- Positive and nondecreasing terms. -/
structure Ascending (ℓ : List Entry) : Prop where
  pos : ∀ i, 1 ≤ i → i ≤ ℓ.length → 0 < termOf ℓ i
  mono : ∀ i j, 1 ≤ i → i ≤ j → j ≤ ℓ.length → termOf ℓ i ≤ termOf ℓ j

/-- **A leader's log `L` and a follower's log `F`** as they are in runs without compaction: entries of one term at one index
agree up to there, a term that is in both starts at the same index, and none of the follower's is of the leader's term. -/
structure Diverged (L F : List Entry) (term : Nat) : Prop where
  leader : Ascending L
  follower : Ascending F
  matching : ∀ i, 1 ≤ i → i ≤ L.length → i ≤ F.length → termOf F i = termOf L i →
    (F.take i).map Entry.content = (L.take i).map Entry.content
  starts : ∀ t i j, FirstOf L t i → FirstOf F t j → i = j
  fresh : ∀ i, 1 ≤ i → i ≤ F.length → termOf F i ≠ term

/-- The leader has an entry at `next`, and the follower none of its term there. -/
structure Probing (L F : List Entry) (next : Nat) : Prop where
  pos : 1 ≤ next
  le : next ≤ L.length
  other : next ≤ F.length → termOf F next ≠ termOf L next

/-- The follower's log is the beginning of the leader's up to `next`. -/
structure InStep (L F : List Entry) (next : Nat) : Prop where
  next_eq : next = F.length + 1
  le : F.length ≤ L.length
  content : F.map Entry.content = (L.take F.length).map Entry.content

theorem termOf_content (ℓ : List Entry) (i : Nat) : termOf (ℓ.map Entry.content) i = termOf ℓ i := by
  cases i with
  | zero => rfl
  | succ i =>
    simp only [termOf, List.getElem?_map, Option.map_map]
    rfl

/-- The same contents, the same terms. -/
theorem termOf_congr {ℓ m : List Entry} (h : ℓ.map Entry.content = m.map Entry.content) (i : Nat) :
    termOf ℓ i = termOf m i := by
  rw [← termOf_content ℓ, h, termOf_content]

/-- The start of a run of entries of one term, as the follower names it. -/
theorem Ascending.firstOf {ℓ : List Entry} (h : Ascending ℓ) {t i : Nat} (hi : 1 ≤ i) (hle : i ≤ ℓ.length)
    (ht : termOf ℓ i = t) (hstart : i = 1 ∨ termOf ℓ (i - 1) ≠ t) : FirstOf ℓ t i := by
  refine ⟨hi, hle, ht, fun j hj hji heq => ?_⟩
  rcases hstart with rfl | hne
  · omega
  · have h1 := h.mono j (i - 1) hj (by omega) (by omega)
    have h2 := h.mono (i - 1) i (by omega) (by omega) hle
    omega

theorem exists_firstOf {ℓ : List Entry} {t i : Nat} (hi : 1 ≤ i) (hle : i ≤ ℓ.length) (ht : termOf ℓ i = t) :
    ∃ j, j ≤ i ∧ FirstOf ℓ t j := by
  induction i using Nat.strong_induction_on with
  | _ i ih =>
    by_cases h : ∃ j, 1 ≤ j ∧ j < i ∧ termOf ℓ j = t
    · obtain ⟨j, hj, hji, hjt⟩ := h
      obtain ⟨k, hk, hfirst⟩ := ih j hji hj (by omega) hjt
      exact ⟨k, by omega, hfirst⟩
    · exact ⟨i, Nat.le_refl i, hi, hle, ht, fun j hj hji hjt => h ⟨j, hj, hji, hjt⟩⟩

/-! ## A refused request -/

/-- Where the leader retries: after its last entry of the follower's term, or where the follower's term starts. -/
def retryAt (found start : Nat) : Nat := if found ≠ 0 then found + 1 else start

/-- **A refusal for another term moves `next_index` down and keeps probing.** -/
theorem Probing.conflict {L F : List Entry} {term next found start : Nat} (h : Probing L F next) (hd : Diverged L F term)
    (hF : next - 1 ≤ F.length) (hne : termOf F (next - 1) ≠ termOf L (next - 1))
    (hstart : 1 ≤ start ∧ start ≤ next - 1) (hrun : ∀ j, start ≤ j → j ≤ next - 1 → termOf F j = termOf F (next - 1))
    (hedge : start = 1 ∨ termOf F (start - 1) ≠ termOf F (next - 1))
    (hfound : found ≤ L.length) (hterm : found ≠ 0 → termOf L found = termOf F (next - 1))
    (hlast : ∀ j, found < j → j ≤ L.length → termOf L j ≠ termOf F (next - 1)) :
    Probing L F (retryAt found start) ∧ retryAt found start < next := by
  have hpos := h.pos
  have hle := h.le
  have hfirst : FirstOf F (termOf F (next - 1)) start :=
    hd.follower.firstOf hstart.1 (by omega) (hrun start (Nat.le_refl _) hstart.2) hedge
  unfold retryAt
  split
  · rename_i h0
    -- The leader's entries of that term start where the follower's do, and end before the place.
    obtain ⟨i, hi, hfirst'⟩ := exists_firstOf (by omega) hfound (hterm h0)
    obtain rfl : i = start := hd.starts _ _ _ hfirst' hfirst
    have hbefore : found < next - 1 := by
      by_contra hge
      have h1 := hd.leader.mono i (next - 1) (by omega) (by omega) (by omega)
      have h2 := hd.leader.mono (next - 1) found (by omega) (by omega) hfound
      rw [hfirst'.term] at h1
      rw [hterm h0] at h2
      omega
    refine ⟨⟨by omega, by omega, fun _ => ?_⟩, by omega⟩
    rw [hrun (found + 1) (by omega) (by omega)]
    exact (hlast (found + 1) (by omega) (by omega)).symm
  · rename_i h0
    obtain rfl : found = 0 := by omega
    refine ⟨⟨hstart.1, by omega, fun _ => ?_⟩, by omega⟩
    rw [hfirst.term]
    exact (hlast start (by omega) (by omega)).symm

/-- A follower whose log ends before the place: the leader retries at its end. -/
theorem Probing.short {L F : List Entry} {next : Nat} (h : Probing L F next) (hF : F.length < next - 1) :
    Probing L F (F.length + 1) ∧ F.length + 1 < next := by
  have hle := h.le
  exact ⟨⟨by omega, by omega, by omega⟩, by omega⟩

/-- A slice is empty only at the end of both logs. -/
theorem slice_end {L F : List Entry} {next m : Nat} (hm : 0 < m) (hpos : 1 ≤ next) (hF : next - 1 ≤ F.length)
    (hother : next ≤ F.length → next ≤ L.length) (hnil : (L.drop (next - 1)).take m = []) : next - 1 = F.length := by
  have hlen := congrArg List.length hnil
  rw [List.length_take, List.length_drop, List.length_nil] at hlen
  by_contra hne
  have := hother (by omega)
  omega

/-- The first entry of a slice is one the follower does not have. -/
theorem slice_head {L F : List Entry} {next m : Nat} (hpos : 1 ≤ next)
    (hother : next ≤ F.length → termOf F next ≠ termOf L next) (e : Entry)
    (he : ((L.drop (next - 1)).take m).head? = some e) (hlt : next - 1 + 1 ≤ F.length) :
    termOf F (next - 1 + 1) ≠ e.term := by
  obtain ⟨k, rfl⟩ : ∃ k, next = k + 1 := ⟨next - 1, by omega⟩
  rw [Nat.add_sub_cancel] at he ⊢
  have hterm : termOf L (k + 1) = e.term := by
    have hm : m ≠ 0 := by
      rintro rfl
      cases he
    rw [List.head?_take, if_neg hm, List.head?_drop] at he
    simp [termOf, he]
  rw [← hterm]
  exact hother hlt

/-- **An accepted request**: with the entries from `next` on, as many as fit, the log is a beginning of the leader's. -/
theorem inStep_take {L F F' : List Entry} {prev m : Nat} (hF : (F.take prev).map Entry.content = (L.take prev).map Entry.content)
    (hF' : F'.map Entry.content = (F.take prev ++ (L.drop prev).take m).map Entry.content) :
    InStep L F' (F'.length + 1) ∧ F'.length = min (prev + m) L.length := by
  have hcontent : F'.map Entry.content = (L.take (prev + m)).map Entry.content := by
    rw [hF', List.map_append, hF, ← List.map_append, List.take_add]
  have hlen : F'.length = min (prev + m) L.length := by
    have := congrArg List.length hcontent
    rwa [List.length_map, List.length_map, List.length_take] at this
  refine ⟨⟨rfl, by omega, ?_⟩, hlen⟩
  rw [hcontent, hlen, ← List.take_take, List.take_length]

/-! ## Rings that hold their whole log -/

namespace LogRing

variable {cfg : Config} {r : LogRing} {ℓ : List Entry}

/-- **The entries of a request**: the next ones, as many as fit. -/
theorem Live.gather_eq (h : Live cfg r ℓ) : ∀ (k i : Nat), r.base < i → Server.gather cfg r k i = (ℓ.drop (i - 1)).take k
  | 0, i, _ => by rw [Server.gather, List.take_zero]
  | k + 1, i, hb => by
    rw [Server.gather]
    split
    · rename_i hi
      rw [h.lastIndex] at hi
      have hlt : i - 1 < ℓ.length := by omega
      have he : r.at? cfg i = some ℓ[i - 1] := by
        rw [h.at?_live hb hi, List.getElem?_eq_getElem hlt]
      rw [he]
      dsimp only
      rw [gather_eq h k (i + 1) (by omega), List.drop_eq_getElem_cons hlt, List.take_succ_cons]
      have hi1 : i + 1 - 1 = i - 1 + 1 := by omega
      rw [hi1]
    · rename_i hi
      rw [h.lastIndex] at hi
      rw [List.drop_eq_nil_of_le (by omega), List.take_nil]

/-- **Where the follower says its term starts.** -/
theorem Holds.firstOfTerm_spec (h : Holds cfg r ℓ) (hb : r.base = 0) (t : Nat) : ∀ scan, 1 ≤ scan → scan ≤ ℓ.length →
    termOf ℓ scan = t → 1 ≤ Server.firstOfTerm cfg r t scan ∧ Server.firstOfTerm cfg r t scan ≤ scan ∧
      (∀ j, Server.firstOfTerm cfg r t scan ≤ j → j ≤ scan → termOf ℓ j = t) ∧
      (Server.firstOfTerm cfg r t scan = 1 ∨ termOf ℓ (Server.firstOfTerm cfg r t scan - 1) ≠ t)
  | 0, h0, _, _ => by omega
  | scan + 1, _, hle, ht => by
    have hat : r.termAt cfg scan = some (termOf ℓ scan) := h.termAt_eq (by omega) (by omega)
    rw [Server.firstOfTerm, hb, hat]
    split
    · rename_i hgo
      obtain ⟨hpos, hterm⟩ := hgo
      have hterm : termOf ℓ scan = t := Option.some.inj hterm
      obtain ⟨h1, h2, h3, h4⟩ := h.firstOfTerm_spec hb t scan (by omega) (by omega) hterm
      refine ⟨h1, by omega, fun j hj hjs => ?_, h4⟩
      by_cases hjl : j ≤ scan
      · exact h3 j hj hjl
      · obtain rfl : j = scan + 1 := by omega
        exact ht
    · rename_i hstop
      refine ⟨by omega, Nat.le_refl _, fun j hj hjs => ?_, ?_⟩
      · obtain rfl : j = scan + 1 := by omega
        exact ht
      · by_cases h0 : scan = 0
        · exact .inl (by omega)
        · refine .inr fun hterm => hstop ⟨by omega, ?_⟩
          rw [Nat.add_sub_cancel] at hterm
          rw [hterm]

/-- **The leader's last entry of a term.** -/
theorem Holds.findTerm_spec (h : Holds cfg r ℓ) (hb : r.base = 0) (t : Nat) : ∀ k, k ≤ ℓ.length →
    Server.findTerm cfg r t k ≤ k ∧ (Server.findTerm cfg r t k ≠ 0 → termOf ℓ (Server.findTerm cfg r t k) = t) ∧
      ∀ j, Server.findTerm cfg r t k < j → j ≤ k → termOf ℓ j ≠ t
  | 0, _ => ⟨Nat.le_refl _, fun h0 => absurd rfl h0, fun j hj hj0 => by omega⟩
  | k + 1, hle => by
    have hat : r.termAt cfg (0 + (k + 1)) = some (termOf ℓ (0 + (k + 1))) := h.termAt_eq (by omega) (by omega)
    rw [Server.findTerm, hb, hat, Nat.zero_add]
    split
    · rename_i hterm
      exact ⟨Nat.le_refl _, fun _ => Option.some.inj hterm, fun j hj hjk => by omega⟩
    · rename_i hterm
      obtain ⟨h1, h2, h3⟩ := h.findTerm_spec hb t k (by omega)
      refine ⟨by omega, h2, fun j hj hjk => ?_⟩
      by_cases hjl : j ≤ k
      · exact h3 j hj hjl
      · obtain rfl : j = k + 1 := by omega
        exact fun heq => hterm (by rw [heq])

/-- Pushing where there is room. -/
theorem Holds.pushOrSkip (h : Holds cfg r ℓ) (e : Entry) (hroom : r.count < cfg.logCapacity) :
    Holds cfg (r.pushOrSkip cfg e) (ℓ ++ [e]) := by
  have hpush : r.push cfg e = .ok
      { r with buf := Function.update r.buf ((r.head + r.count) % cfg.logCapacity) e, count := r.count + 1 } := by
    rw [LogRing.push, if_neg (by simpa [full] using hroom)]
  have hholds := h.push hpush
  rw [LogRing.pushOrSkip, hpush]
  exact hholds

/-- An entry the log does not have at its place, if it reaches so far: what was there goes, and it is pushed. -/
theorem Holds.appendEntry_new (h : Holds cfg r ℓ) (hb : r.base = 0) {p : Nat} (hp : p ≤ ℓ.length) (hcap : p < cfg.logCapacity)
    {e : Entry} (hnew : p + 1 ≤ ℓ.length → termOf ℓ (p + 1) ≠ e.term) :
    Holds cfg (r.appendEntry cfg (p + 1) e) (ℓ.take p ++ [{ e with index := p + 1 }]) := by
  have hlast := h.last
  unfold LogRing.appendEntry
  rw [if_neg (by omega), h.lastIndex]
  by_cases hl : p + 1 ≤ ℓ.length
  · rw [if_pos hl, h.termAt_eq (by omega) hl]
    dsimp only
    rw [if_neg (hnew hl)]
    have htrunc := h.truncateSuffix (show r.base < p + 1 by omega)
    rw [Nat.add_sub_cancel] at htrunc
    refine htrunc.pushOrSkip _ ?_
    have hlen := htrunc.last
    rw [truncateSuffix_base, List.length_take] at hlen
    omega
  · rw [if_neg hl]
    dsimp only
    rw [List.take_of_length_le (by omega)]
    exact h.pushOrSkip _ (by omega)

/-- Entries past the end are all appended. -/
theorem Holds.appendAll_end : ∀ (es : List Entry) {r : LogRing} {ℓ : List Entry}, Holds cfg r ℓ → r.base = 0 →
    ℓ.length + es.length ≤ cfg.logCapacity → ∃ ℓ', Holds cfg (r.appendAll cfg (ℓ.length + 1) es) ℓ' ∧
      ℓ'.map Entry.content = (ℓ ++ es).map Entry.content
  | [], r, ℓ, h, _, _ => ⟨ℓ, h, by rw [List.append_nil]⟩
  | e :: es, r, ℓ, h, hb, hcap => by
    rw [List.length_cons] at hcap
    have hone := h.appendEntry_new hb (Nat.le_refl _) (by omega) (show ℓ.length + 1 ≤ ℓ.length → _ by omega) (e := e)
    rw [List.take_length] at hone
    have hlen : (ℓ ++ [{ e with index := ℓ.length + 1 }]).length = ℓ.length + 1 := by simp
    obtain ⟨ℓ', hℓ', hcontent⟩ := appendAll_end es hone ((appendEntry_base r _ e).trans hb) (by omega)
    rw [hlen] at hℓ'
    refine ⟨ℓ', hℓ', ?_⟩
    rw [hcontent]
    simp [Entry.content]

/-- **Entries of which the log does not have the first**: they replace what it has from there on. -/
theorem Holds.appendAll_new (h : Holds cfg r ℓ) (hb : r.base = 0) {p : Nat} (hp : p ≤ ℓ.length) {es : List Entry}
    (hcap : p + es.length ≤ cfg.logCapacity) (hend : es = [] → p = ℓ.length)
    (hnew : ∀ e, es.head? = some e → p + 1 ≤ ℓ.length → termOf ℓ (p + 1) ≠ e.term) :
    ∃ ℓ', Holds cfg (r.appendAll cfg (p + 1) es) ℓ' ∧ ℓ'.map Entry.content = (ℓ.take p ++ es).map Entry.content := by
  cases es with
  | nil =>
    refine ⟨ℓ, h, ?_⟩
    rw [hend rfl, List.take_length, List.append_nil]
  | cons e es =>
    rw [List.length_cons] at hcap
    have hone := h.appendEntry_new hb hp (by omega) (hnew e rfl)
    have hlen : (ℓ.take p ++ [{ e with index := p + 1 }]).length = p + 1 := by
      rw [List.length_append, List.length_take, List.length_singleton]
      omega
    obtain ⟨ℓ', hℓ', hcontent⟩ := appendAll_end es hone ((appendEntry_base r _ e).trans hb) (by omega)
    rw [hlen] at hℓ'
    refine ⟨ℓ', hℓ', ?_⟩
    rw [hcontent]
    simp [Entry.content]

/-- Both reach as far and have the same entries. -/
def Same (cfg : Config) (r r' : LogRing) : Prop :=
  r.lastIndex = r'.lastIndex ∧ ∀ i, (r.at? cfg i).map Entry.content = (r'.at? cfg i).map Entry.content

end LogRing

end Raft
end FloodEws
