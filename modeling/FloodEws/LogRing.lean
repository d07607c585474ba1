import Mathlib.Logic.Function.Basic
import Mathlib.Data.List.Basic
import FloodEws.RaftTypes
/-!
# LogRing — `log/log_ring.hpp`, and the log it stands for

The ring buffer of the Raft log as the source has it: a buffer of `LOG_CAPACITY` slots, a head, a count and the
snapshot edge `(base, base_term)`.  Compaction forgets a prefix, so the ring alone does not say which log the server
followed.  `Holds r ℓ` relates it to that log: `ℓ` is every entry from index 1 on, compacted ones included, and the
ring is its live suffix.  Each mutator is one operation on `ℓ`.
-/
namespace FloodEws
namespace Raft

structure LogRing where
  buf : Nat → Entry := fun _ => {}
  base : Nat := 0
  baseTerm : Nat := 0
  count : Nat := 0
  head : Nat := 0

namespace LogRing

def full (cfg : Config) (r : LogRing) : Bool := decide (cfg.logCapacity ≤ r.count)

def lastIndex (r : LogRing) : Nat := r.base + r.count

/-- `at`: nothing at or below the snapshot edge, nor past the end. -/
def at? (cfg : Config) (r : LogRing) (index : Nat) : Option Entry :=
  if index ≤ r.base ∨ r.lastIndex < index then none
  else some (r.buf ((r.head + (index - r.base - 1)) % cfg.logCapacity))

def termAt (cfg : Config) (r : LogRing) (index : Nat) : Option Nat :=
  if index = 0 then some 0
  else if index = r.base then some r.baseTerm
  else (r.at? cfg index).map Entry.term

def lastTerm (cfg : Config) (r : LogRing) : Nat :=
  if r.lastIndex = r.base then r.baseTerm
  else match r.at? cfg r.lastIndex with
    | some e => e.term
    | none => r.baseTerm

def push (cfg : Config) (r : LogRing) (entry : Entry) : Except Error LogRing :=
  if r.full cfg then .error .logFull
  else .ok { r with
    buf := Function.update r.buf ((r.head + r.count) % cfg.logCapacity) entry
    count := r.count + 1 }

def truncateSuffix (r : LogRing) (fromIndex : Nat) : LogRing :=
  if fromIndex ≤ r.base + 1 then { r with count := 0 }
  else if r.lastIndex < fromIndex then r
  else { r with count := fromIndex - r.base - 1 }

def compactTo (cfg : Config) (r : LogRing) (index : Nat) (term : Nat) : LogRing :=
  { r with
    head := wrap64 (r.head + sub64 index r.base) % cfg.logCapacity
    count := sub64 r.lastIndex index % 2 ^ 32
    base := index
    baseTerm := term }

def resetToSnapshot (r : LogRing) (index : Nat) (term : Nat) : LogRing :=
  { r with head := 0, count := 0, base := index, baseTerm := term }

end LogRing

/-! ## The log behind a ring -/

/-- The term of the entry at a 1-based index; 0 at index 0. -/
def termOf (ℓ : List Entry) : Nat → Nat
  | 0 => 0
  | i + 1 => (ℓ[i]?.map Entry.term).getD 0

def lastTermOf (ℓ : List Entry) : Nat := termOf ℓ ℓ.length

theorem termOf_append_left {ℓ ext : List Entry} {i : Nat} (h : i ≤ ℓ.length) : termOf (ℓ ++ ext) i = termOf ℓ i := by
  cases i with
  | zero => rfl
  | succ i => simp only [termOf]; rw [List.getElem?_append_left (by omega)]

theorem termOf_take {ℓ : List Entry} {k i : Nat} (h : i ≤ k) : termOf (ℓ.take k) i = termOf ℓ i := by
  cases i with
  | zero => rfl
  | succ i => simp only [termOf]; rw [List.getElem?_take_of_lt (by omega)]

/-- The entries in the ring are those of `ℓ` above the snapshot edge. -/
structure LogRing.Live (cfg : Config) (r : LogRing) (ℓ : List Entry) : Prop where
  last : r.base + r.count = ℓ.length
  head_lt : r.head < cfg.logCapacity
  count_le : r.count ≤ cfg.logCapacity
  live : ∀ k, k < r.count → ℓ[r.base + k]? = some (r.buf ((r.head + k) % cfg.logCapacity))

/-- **The ring is the live suffix of the log `ℓ`**, and the edge has the term of its entry there. -/
structure LogRing.Holds (cfg : Config) (r : LogRing) (ℓ : List Entry) : Prop extends LogRing.Live cfg r ℓ where
  edge : r.baseTerm = termOf ℓ r.base

namespace LogRing

variable {cfg : Config} {r : LogRing} {ℓ : List Entry}

theorem holds_nil (cfg : Config) : Holds cfg {} [] where
  last := rfl
  head_lt := cfg.logCapacity_pos
  count_le := Nat.zero_le _
  live := fun k h => absurd h (Nat.not_lt_zero k)
  edge := rfl

theorem Live.lastIndex (h : Live cfg r ℓ) : r.lastIndex = ℓ.length := h.last

theorem Live.base_le (h : Live cfg r ℓ) : r.base ≤ ℓ.length := by have := h.last; omega

theorem Live.at?_live (h : Live cfg r ℓ) {i : Nat} (hb : r.base < i) (hl : i ≤ ℓ.length) :
    r.at? cfg i = ℓ[i - 1]? := by
  have hlast := h.last
  have hk := h.live (i - r.base - 1) (by omega)
  have hpos : r.base + (i - r.base - 1) = i - 1 := by omega
  rw [hpos] at hk
  rw [hk, at?, if_neg (by rw [h.lastIndex]; omega)]

theorem at?_isSome (r : LogRing) (cfg : Config) (i : Nat) :
    (r.at? cfg i).isSome = true ↔ r.base < i ∧ i ≤ r.lastIndex := by
  unfold at?
  split
  · simp; omega
  · simp; omega

theorem Live.at?_eq_some (h : Live cfg r ℓ) {i : Nat} {e : Entry} :
    r.at? cfg i = some e ↔ r.base < i ∧ i ≤ ℓ.length ∧ ℓ[i - 1]? = some e := by
  constructor
  · intro he
    obtain ⟨hb, hl⟩ := (at?_isSome r cfg i).1 (by rw [he]; rfl)
    rw [h.lastIndex] at hl
    exact ⟨hb, hl, by rw [← h.at?_live hb hl]; exact he⟩
  · rintro ⟨hb, hl, he⟩
    rw [h.at?_live hb hl]; exact he

/-- At or above the snapshot edge, up to the end, `term_at` reads the log. -/
theorem Holds.termAt_eq (h : Holds cfg r ℓ) {i : Nat} (hb : r.base ≤ i) (hl : i ≤ ℓ.length) :
    r.termAt cfg i = some (termOf ℓ i) := by
  unfold termAt
  split
  · rename_i h0; subst h0; rfl
  · rename_i h0
    split
    · rename_i hib; subst hib; rw [h.edge]
    · rename_i hib
      rw [h.at?_live (by omega) hl]
      obtain ⟨j, rfl⟩ := Nat.exists_eq_succ_of_ne_zero h0
      have hj : j < ℓ.length := by omega
      simp [termOf, hj]

/-- Strictly between 0 and the edge, or past the end, `term_at` knows nothing. -/
theorem termAt_eq_none {i : Nat} (h0 : i ≠ 0) (hi : i < r.base ∨ r.lastIndex < i) : r.termAt cfg i = none := by
  have hb : i ≠ r.base := by
    rcases hi with hi | hi
    · omega
    · unfold LogRing.lastIndex at hi; omega
  rw [termAt, if_neg h0, if_neg hb, at?, if_pos (by omega)]
  rfl

theorem Holds.lastTerm_eq (h : Holds cfg r ℓ) : r.lastTerm cfg = lastTermOf ℓ := by
  unfold lastTerm lastTermOf
  split
  · rename_i hl
    rw [h.edge, ← h.lastIndex, hl]
  · rename_i hl
    have hb : r.base < ℓ.length := by
      have := h.last
      unfold LogRing.lastIndex at hl; omega
    rw [h.lastIndex, h.at?_live hb (Nat.le_refl _)]
    obtain ⟨j, hj⟩ := Nat.exists_eq_succ_of_ne_zero (show ℓ.length ≠ 0 by omega)
    have hj' : j < ℓ.length := by omega
    rw [hj]
    simp [termOf, hj']

/-- Two live slots are different. -/
theorem slot_ne {cap head k n : Nat} (hk : k < n) (hn : n < cap) : (head + k) % cap ≠ (head + n) % cap := by
  intro he
  have h1 := Nat.sub_mod_eq_zero_of_mod_eq he.symm
  have h2 : head + n - (head + k) = n - k := by omega
  rw [h2, Nat.mod_eq_of_lt (by omega)] at h1
  omega

theorem Live.push (h : Live cfg r ℓ) {e : Entry} {r' : LogRing} (hp : r.push cfg e = .ok r') :
    Live cfg r' (ℓ ++ [e]) ∧ r'.base = r.base ∧ r'.baseTerm = r.baseTerm := by
  unfold LogRing.push at hp
  split at hp
  · cases hp
  rename_i hf
  have hlt : r.count < cfg.logCapacity := by simpa [full] using hf
  injection hp with hp
  subst hp
  have hlast := h.last
  refine ⟨?_, rfl, rfl⟩
  constructor
  · simp only [List.length_append, List.length_singleton]; omega
  · exact h.head_lt
  · exact hlt
  · intro k hk
    simp only at hk ⊢
    rcases Nat.lt_or_ge k r.count with hk' | hk'
    · rw [Function.update_of_ne (slot_ne hk' hlt), List.getElem?_append_left (by omega)]
      exact h.live k hk'
    · have hkc : k = r.count := by omega
      subst hkc
      rw [hlast, Function.update_self, List.getElem?_append_right (Nat.le_refl _)]
      simp

/-- **`push` appends**, when it does not refuse. -/
theorem Holds.push (h : Holds cfg r ℓ) {e : Entry} {r' : LogRing} (hp : r.push cfg e = .ok r') :
    Holds cfg r' (ℓ ++ [e]) := by
  obtain ⟨hlive, hb, ht⟩ := h.toLive.push hp
  refine ⟨hlive, ?_⟩
  rw [hb, ht, termOf_append_left h.base_le]
  exact h.edge

theorem Live.truncateSuffix (h : Live cfg r ℓ) {i : Nat} (hb : r.base < i) :
    Live cfg (r.truncateSuffix i) (ℓ.take (i - 1)) ∧ (r.truncateSuffix i).base = r.base ∧
      (r.truncateSuffix i).baseTerm = r.baseTerm := by
  have hlast := h.last
  have key : ∀ c, c ≤ r.count → c = min (i - 1 - r.base) r.count → Live cfg { r with count := c } (ℓ.take (i - 1)) := by
    intro c hc hmin
    constructor
    · simp only [List.length_take]; omega
    · exact h.head_lt
    · exact Nat.le_trans hc h.count_le
    · intro k hk
      simp only at hk ⊢
      rw [List.getElem?_take_of_lt (by omega)]
      exact h.live k (by omega)
  unfold LogRing.truncateSuffix
  split
  · exact ⟨key 0 (Nat.zero_le _) (by omega), rfl, rfl⟩
  · split
    · rename_i hl
      rw [h.lastIndex] at hl
      exact ⟨key r.count (Nat.le_refl _) (by omega), rfl, rfl⟩
    · rename_i hl
      rw [h.lastIndex] at hl
      exact ⟨key (i - r.base - 1) (by omega) (by omega), rfl, rfl⟩

/-- **`truncate_suffix` above the edge keeps the entries below the index.** -/
theorem Holds.truncateSuffix (h : Holds cfg r ℓ) {i : Nat} (hb : r.base < i) :
    Holds cfg (r.truncateSuffix i) (ℓ.take (i - 1)) := by
  obtain ⟨hlive, hbase, ht⟩ := h.toLive.truncateSuffix hb
  refine ⟨hlive, ?_⟩
  rw [hbase, ht, termOf_take (by omega)]
  exact h.edge

theorem sub64_of_le {a b : Nat} (h : b ≤ a) (hlt : a - b < 2 ^ 64) : sub64 a b = a - b := by
  unfold sub64
  have h1 : a + 2 ^ 64 - b = (a - b) + 2 ^ 64 := by omega
  rw [h1, Nat.add_mod_right, Nat.mod_eq_of_lt hlt]

theorem Live.compactTo (h : Live cfg r ℓ) {i : Nat} (t : Nat) (hb : r.base ≤ i) (hl : i ≤ ℓ.length) :
    Live cfg (r.compactTo cfg i t) ℓ := by
  have hlast := h.last
  have hcap := cfg.logCapacity_lt
  have hcount := h.count_le
  have hhead := h.head_lt
  have h1 : sub64 i r.base = i - r.base := sub64_of_le hb (by omega)
  have h2 : sub64 r.lastIndex i % 2 ^ 32 = ℓ.length - i := by
    rw [h.lastIndex, sub64_of_le hl (by omega), Nat.mod_eq_of_lt (by omega)]
  have h3 : wrap64 (r.head + (i - r.base)) = r.head + (i - r.base) := Nat.mod_eq_of_lt (by omega)
  unfold LogRing.compactTo
  rw [h1, h2, h3]
  constructor
  · simp only; omega
  · exact Nat.mod_lt _ cfg.logCapacity_pos
  · simp only; omega
  · intro k hk
    simp only at hk ⊢
    have hkl := h.live (i - r.base + k) (by omega)
    have e1 : r.base + (i - r.base + k) = i + k := by omega
    have e2 : ((r.head + (i - r.base)) % cfg.logCapacity + k) % cfg.logCapacity
        = (r.head + (i - r.base + k)) % cfg.logCapacity := by
      rw [Nat.mod_add_mod, Nat.add_assoc]
    rw [e1] at hkl
    rw [hkl, e2]

/-- **`compact_to` between the edge and the end only moves the edge.** -/
theorem Holds.compactTo (h : Holds cfg r ℓ) {i : Nat} {t : Nat} (hb : r.base ≤ i) (hl : i ≤ ℓ.length)
    (ht : t = termOf ℓ i) : Holds cfg (r.compactTo cfg i t) ℓ :=
  ⟨h.toLive.compactTo t hb hl, ht⟩

theorem live_resetToSnapshot (cfg : Config) (r : LogRing) (m : List Entry) (t : Nat) :
    Live cfg (r.resetToSnapshot m.length t) m where
  last := rfl
  head_lt := cfg.logCapacity_pos
  count_le := Nat.zero_le _
  live := fun k h => absurd h (Nat.not_lt_zero k)

/-- **`reset_to_snapshot` stands for any log of that length ending in that term.** -/
theorem holds_resetToSnapshot (r : LogRing) {m : List Entry} {t : Nat} (ht : t = lastTermOf m) :
    Holds cfg (r.resetToSnapshot m.length t) m :=
  ⟨live_resetToSnapshot cfg r m t, ht⟩

end LogRing

end Raft
end FloodEws
