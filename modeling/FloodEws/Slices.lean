import FloodEws.Order
import FloodEws.Replog
/-!
# Slices — what a ring makes of a slice of its leader's log

A message carries a slice of the leader's log `L`; the append loop walks through it.  If the receiver's log agrees with
`L` where the slice starts, and up to the snapshot edge, the loop leaves the old log, or a beginning of `L`, and never
drops anything the two logs had in common.  A full ring refuses the rest of the slice.
-/
namespace FloodEws
namespace Raft

theorem termOf_succ {ℓ : List Entry} {i : Nat} {e : Entry} (h : ℓ[i]? = some e) : termOf ℓ (i + 1) = e.term := by
  rw [termOf, h]
  rfl

theorem lastTermOf_eq (ℓ : List Entry) : lastTermOf ℓ = lastTm Entry.term ℓ := by
  unfold lastTermOf lastTm
  rw [List.getLast?_eq_getElem?]
  cases hl : ℓ.length with
  | zero => rw [List.length_eq_zero_iff.1 hl]; rfl
  | succ n => rfl

theorem termOf_isPrefix {ℓ m : List Entry} (h : ℓ <+: m) {i : Nat} (hi : i ≤ ℓ.length) : termOf m i = termOf ℓ i := by
  obtain ⟨ext, rfl⟩ := h
  exact termOf_append_left hi

/-- `at` and `view` of a full slice. -/
theorem AppendEntries.view_eq {ae : AppendEntries} (h : ae.nEntries = ae.entries.length) : ae.view = ae.entries := by
  unfold AppendEntries.view
  rw [h]
  refine List.ext_getElem (by simp) ?_
  intro i h1 h2
  simp [List.getElem?_eq_getElem h2]

namespace LogRing

variable {cfg : Config} {r : LogRing} {ℓ L : List Entry}

/-- Where `term_at` at or above the edge answers, the log reaches. -/
theorem Holds.termAt_eq_some (h : Holds cfg r ℓ) {i t : Nat} (hb : r.base ≤ i) (ht : r.termAt cfg i = some t) :
    i ≤ ℓ.length ∧ t = termOf ℓ i := by
  have hi : i ≤ ℓ.length := by
    by_contra hlt
    rw [termAt_eq_none (by omega) (.inr (by rw [h.lastIndex]; omega))] at ht
    cases ht
  rw [h.termAt_eq hb hi] at ht
  injection ht with ht
  exact ⟨hi, ht.symm⟩

/-- The entries a message takes from the log. -/
theorem Live.gather_isPrefix (h : Live cfg r ℓ) : ∀ (k i : Nat), r.base < i →
    Server.gather cfg r k i <+: ℓ.drop (i - 1)
  | 0, i, _ => List.nil_prefix
  | k + 1, i, hb => by
    rw [Server.gather]
    split
    · rename_i hi
      rw [h.lastIndex] at hi
      split
      · exact List.nil_prefix
      · rename_i e he
        rw [h.at?_live hb hi] at he
        obtain ⟨hlt, rfl⟩ := List.getElem?_eq_some_iff.1 he
        rw [List.drop_eq_getElem_cons hlt, List.prefix_cons_inj]
        have ih := gather_isPrefix h k (i + 1) (by omega)
        rwa [show i + 1 - 1 = i - 1 + 1 by omega] at ih
    · exact List.nil_prefix

/-- The log `ℓ` agrees with `L` up to position `p` and up to the edge, or the ring is full of a prefix of `L`. -/
def Aligned (cfg : Config) (r : LogRing) (ℓ L : List Entry) (p : Nat) : Prop :=
  (p ≤ ℓ.length ∧ ℓ.take (max p r.base) = L.take (max p r.base)) ∨
    (ℓ <+: L ∧ r.count = cfg.logCapacity ∧ ℓ.length ≤ p)

/-- What a turn of the append loop, and the whole loop, leave behind: the edge, a log that is the old one or the
beginning of `L`, and all that the old one shared with `L`. -/
structure Appended (cfg : Config) (r r' : LogRing) (ℓ ℓ' L : List Entry) (p : Nat) : Prop where
  holds : Holds cfg r' ℓ'
  base : r'.base = r.base
  aligned : Aligned cfg r' ℓ' L p
  from_leader : ℓ' = ℓ ∨ ∃ k, k ≤ L.length ∧ ℓ' = L.take k
  shared : ∀ m, m ≤ ℓ.length → ℓ.take m = L.take m → m ≤ ℓ'.length ∧ ℓ'.take m = L.take m

theorem Appended.trans {r r' r'' : LogRing} {ℓ ℓ' ℓ'' : List Entry} {p q : Nat} (h : Appended cfg r r' ℓ ℓ' L p)
    (h' : Appended cfg r' r'' ℓ' ℓ'' L q) : Appended cfg r r'' ℓ ℓ'' L q := by
  refine ⟨h'.holds, h'.base.trans h.base, h'.aligned, ?_, ?_⟩
  · rcases h'.from_leader with rfl | hk
    · exact h.from_leader
    · exact .inr hk
  · intro m hm heq
    obtain ⟨h1, h2⟩ := h.shared m hm heq
    exact h'.shared m h1 h2

/-- Pushing the next entry of `L` onto its beginning. -/
theorem Holds.pushNext (h : Holds cfg r (L.take p)) (hb : r.base ≤ p) (hx : Indexed 0 L) {e : Entry}
    (he : L[p]? = some e) :
    (r.count < cfg.logCapacity ∧ Appended cfg r (r.pushOrSkip cfg { e with index := p + 1 }) (L.take p) (L.take (p + 1)) L (p + 1)) ∨
    (r.count = cfg.logCapacity ∧ r.pushOrSkip cfg { e with index := p + 1 } = r) := by
  have hp : p < L.length := (List.getElem?_eq_some_iff.1 he).1
  have hidx : { e with index := p + 1 } = e := by
    have := hx p e (Nat.zero_le _) he
    rw [← this]
  rw [hidx]
  rcases Nat.lt_or_ge r.count cfg.logCapacity with hc | hc
  · refine .inl ⟨hc, ?_⟩
    have hpush : r.push cfg e = .ok
        { r with buf := Function.update r.buf ((r.head + r.count) % cfg.logCapacity) e, count := r.count + 1 } := by
      rw [LogRing.push, if_neg (by simpa [full] using hc)]
    have hh := h.push hpush
    have hbase := (h.toLive.push hpush).2.1
    rw [LogRing.pushOrSkip, hpush]
    have htake : L.take p ++ [e] = L.take (p + 1) := (take_succ_eq_append he).symm
    rw [htake] at hh
    refine ⟨hh, hbase, .inl ⟨by rw [List.length_take]; omega, ?_⟩, .inr ⟨p + 1, hp, rfl⟩, ?_⟩
    · have hmax : max (p + 1) r.base = p + 1 := by omega
      show (L.take (p + 1)).take (max (p + 1) r.base) = L.take (max (p + 1) r.base)
      rw [hmax, List.take_take, Nat.min_self]
    · intro m hm _
      rw [List.length_take] at hm
      exact ⟨by rw [List.length_take]; omega, by rw [List.take_take, Nat.min_eq_left (by omega)]⟩
  · refine .inr ⟨Nat.le_antisymm h.count_le hc, ?_⟩
    rw [LogRing.pushOrSkip, LogRing.push, if_pos (by simpa [full] using hc)]

/-- **One turn of the append loop**, with the next entry of the leader's log `L`. -/
theorem Holds.appendEntry {tms : Nat → List Entry} {p : Nat} {e : Entry} (h : Holds cfg r ℓ)
    (hℓ : Canonical Entry.term tms ℓ) (hL : Canonical Entry.term tms L) (hx : Indexed 0 L) (he : L[p]? = some e)
    (ha : Aligned cfg r ℓ L p) : ∃ ℓ', Appended cfg r (r.appendEntry cfg (p + 1) e) ℓ ℓ' L (p + 1) := by
  have hp : p < L.length := (List.getElem?_eq_some_iff.1 he).1
  have hstay : Aligned cfg r ℓ L (p + 1) → Appended cfg r r ℓ ℓ L (p + 1) :=
    fun ha' => ⟨h, rfl, ha', .inl rfl, fun m hm heq => ⟨hm, heq⟩⟩
  have hbase := h.base_le
  unfold LogRing.appendEntry
  split
  · -- At or below the edge.
    rename_i hb
    rcases ha with ⟨-, ha⟩ | ⟨hpre, hc, hl⟩
    · refine ⟨ℓ, hstay (.inl ⟨by omega, ?_⟩)⟩
      have hmax : max (p + 1) r.base = max p r.base := by omega
      rw [hmax]
      exact ha
    · have := h.last
      have := cfg.logCapacity_pos
      omega
  rename_i hb
  have hmax : max p r.base = p := by omega
  by_cases hl : p + 1 ≤ r.lastIndex
  · rw [if_pos hl]
    rw [h.lastIndex] at hl
    have ha : ℓ.take p = L.take p := by
      rcases ha with ⟨-, ha⟩ | ⟨-, -, hlen⟩
      · rwa [hmax] at ha
      · omega
    obtain ⟨x, hget⟩ : ∃ x, ℓ[p]? = some x := ⟨_, List.getElem?_eq_getElem (by omega)⟩
    rw [h.termAt_eq (by omega) hl, termOf_succ hget]
    dsimp only
    split
    · -- The entry is there.
      rename_i hterm
      refine ⟨ℓ, hstay (.inl ⟨hl, ?_⟩)⟩
      have hmax' : max (p + 1) r.base = p + 1 := by omega
      rw [hmax']
      exact hℓ.agree hL hget he hterm
    · -- A conflict: the log is cut there, and there is room.
      rename_i hterm
      have htrunc := h.truncateSuffix (show r.base < p + 1 by omega)
      have hbase' := (h.toLive.truncateSuffix (show r.base < p + 1 by omega)).2.1
      rw [Nat.add_sub_cancel, ha] at htrunc
      rcases htrunc.pushNext (by omega) hx he with ⟨-, happ⟩ | ⟨hc, -⟩
      · refine ⟨L.take (p + 1), happ.holds, happ.base.trans hbase', happ.aligned, .inr ⟨p + 1, hp, rfl⟩, ?_⟩
        intro m hm heq
        have hmp : m ≤ p := by
          by_contra hlt
          have h1 : (ℓ.take m)[p]? = some x := by rw [List.getElem?_take_of_lt (by omega)]; exact hget
          rw [heq, List.getElem?_take_of_lt (by omega), he] at h1
          injection h1 with h1
          exact hterm (by rw [h1])
        exact ⟨by rw [List.length_take]; omega, by rw [List.take_take, Nat.min_eq_left (by omega)]⟩
      · have h1 := htrunc.last
        rw [hbase', hc, List.length_take] at h1
        have h2 := h.last
        have h3 := h.count_le
        omega
  · -- Past the end.
    rw [if_neg hl]
    dsimp only
    rw [h.lastIndex] at hl
    rcases ha with ⟨hlen, ha⟩ | ⟨hpre, hc, hlen⟩
    · have hpl : p = ℓ.length := by omega
      have hℓL : ℓ = L.take p := by
        rw [hmax, List.take_of_length_le (by omega)] at ha
        exact ha
      rw [hℓL] at h
      rcases h.pushNext (by omega) hx he with ⟨-, happ⟩ | ⟨hc, hskip⟩
      · exact ⟨L.take (p + 1), hℓL ▸ happ⟩
      · rw [hskip]
        exact ⟨ℓ, hstay (.inr ⟨hℓL ▸ List.take_prefix _ _, hc, by omega⟩)⟩
    · have hskip : r.pushOrSkip cfg { e with index := p + 1 } = r := by
        rw [LogRing.pushOrSkip, LogRing.push, if_pos (by simp [full, hc])]
      rw [hskip]
      exact ⟨ℓ, hstay (.inr ⟨hpre, hc, by omega⟩)⟩

/-- **The append loop**, with a slice of the leader's log `L`. -/
theorem Holds.appendAll {tms : Nat → List Entry} (hL : Canonical Entry.term tms L) (hx : Indexed 0 L) :
    ∀ (es : List Entry) (p : Nat) {r : LogRing} {ℓ : List Entry}, Holds cfg r ℓ → Canonical Entry.term tms ℓ →
      es <+: L.drop p → Aligned cfg r ℓ L p →
      ∃ ℓ', Appended cfg r (r.appendAll cfg (p + 1) es) ℓ ℓ' L (p + es.length)
  | [], p, r, ℓ, h, hℓ, _, ha => ⟨ℓ, h, rfl, ha, .inl rfl, fun m hm heq => ⟨hm, heq⟩⟩
  | e :: es, p, r, ℓ, h, hℓ, hes, ha => by
    obtain ⟨rest, hrest⟩ := hes
    have he : L[p]? = some e := by
      rw [← List.head?_drop, ← hrest]
      rfl
    have hes' : es <+: L.drop (p + 1) := by
      rw [← List.tail_drop, ← hrest]
      exact ⟨rest, rfl⟩
    obtain ⟨ℓ₁, h₁⟩ := h.appendEntry hℓ hL hx he ha
    have hℓ₁ : Canonical Entry.term tms ℓ₁ := by
      rcases h₁.from_leader with rfl | ⟨k, -, rfl⟩
      · exact hℓ
      · exact hL.of_isPrefix (List.take_prefix _ _)
    obtain ⟨ℓ', h'⟩ := Holds.appendAll hL hx es (p + 1) h₁.holds hℓ₁ hes' h₁.aligned
    refine ⟨ℓ', ?_⟩
    have hlen : p + (e :: es).length = p + 1 + es.length := by rw [List.length_cons]; omega
    rw [LogRing.appendAll, hlen]
    exact h₁.trans h'

/-- A slice that ends at or below the edge changes nothing. -/
theorem appendAll_below : ∀ (es : List Entry) (p : Nat), p + es.length ≤ r.base → r.appendAll cfg (p + 1) es = r
  | [], _, _ => rfl
  | e :: es, p, h => by
    rw [List.length_cons] at h
    rw [LogRing.appendAll, LogRing.appendEntry, if_pos (by omega)]
    exact appendAll_below es (p + 1) (by omega)

end LogRing

end Raft
end FloodEws
