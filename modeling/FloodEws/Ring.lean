import FloodEws.LogRing
import FloodEws.Runs
/-!
# Ring — the log ring in machine words

`log_ring.hpp` with its 64-bit indices and 32-bit head and count, every operation wrapping as the words do.  With a
capacity of at most 2^31, and as long as no index has to go past 2^64 − 1, nothing wraps and it is the `LogRing` the
server is modelled over (`push_toLogRing` and the others); and that is a bounded list above a base
(`ring_is_bounded_list`).
-/
namespace FloodEws
namespace Raft

structure WordRing where
  buf : Nat → Entry := fun _ => {}
  base : UInt64 := 0
  baseTerm : Nat := 0
  count : UInt32 := 0
  head : UInt32 := 0

namespace WordRing

def full (cfg : Config) (r : WordRing) : Bool := decide (cfg.logCapacity ≤ r.count.toNat)

def lastIndex (r : WordRing) : UInt64 := r.base + r.count.toUInt64

/-- `n % LOG_CAPACITY`, cast to 32 bits. -/
def slot (cfg : Config) (n : Nat) : UInt32 := UInt32.ofNat (n % cfg.logCapacity)

def at? (cfg : Config) (r : WordRing) (index : UInt64) : Option Entry :=
  if index ≤ r.base ∨ r.lastIndex < index then none
  else some (r.buf (slot cfg (r.head.toUInt64 + (index - r.base - 1)).toNat).toNat)

def termAt (cfg : Config) (r : WordRing) (index : UInt64) : Option Nat :=
  if index = 0 then some 0
  else if index = r.base then some r.baseTerm
  else (r.at? cfg index).map Entry.term

def lastTerm (cfg : Config) (r : WordRing) : Nat :=
  if r.lastIndex = r.base then r.baseTerm
  else match r.at? cfg r.lastIndex with
    | some e => e.term
    | none => r.baseTerm

/-- Head and count are added in 32 bits. -/
def push (cfg : Config) (r : WordRing) (entry : Entry) : Except Error WordRing :=
  if r.full cfg then .error .logFull
  else .ok { r with
    buf := Function.update r.buf (slot cfg (r.head + r.count).toNat).toNat entry
    count := r.count + 1 }

def truncateSuffix (r : WordRing) (fromIndex : UInt64) : WordRing :=
  if fromIndex ≤ r.base + 1 then { r with count := 0 }
  else if r.lastIndex < fromIndex then r
  else { r with count := (fromIndex - r.base - 1).toUInt32 }

def compactTo (cfg : Config) (r : WordRing) (index : UInt64) (term : Nat) : WordRing :=
  { r with
    head := slot cfg (r.head.toUInt64 + (index - r.base)).toNat
    count := (r.lastIndex - index).toUInt32
    base := index
    baseTerm := term }

def resetToSnapshot (r : WordRing) (index : UInt64) (term : Nat) : WordRing :=
  { r with head := 0, count := 0, base := index, baseTerm := term }

/-- The same ring with numbers for words. -/
def toLogRing (r : WordRing) : LogRing := ⟨r.buf, r.base.toNat, r.baseTerm, r.count.toNat, r.head.toNat⟩

section

variable (r : WordRing)

@[simp] theorem toLogRing_buf : r.toLogRing.buf = r.buf := rfl

@[simp] theorem toLogRing_base : r.toLogRing.base = r.base.toNat := rfl

@[simp] theorem toLogRing_baseTerm : r.toLogRing.baseTerm = r.baseTerm := rfl

@[simp] theorem toLogRing_count : r.toLogRing.count = r.count.toNat := rfl

@[simp] theorem toLogRing_head : r.toLogRing.head = r.head.toNat := rfl

@[simp] theorem toLogRing_lastIndex : r.toLogRing.lastIndex = r.base.toNat + r.count.toNat := rfl

end

/-- No index in reach wraps. -/
structure Fits (cfg : Config) (r : WordRing) : Prop where
  capacity : cfg.logCapacity ≤ 2 ^ 31
  head : r.head.toNat < cfg.logCapacity
  count : r.count.toNat ≤ cfg.logCapacity
  edge : r.base.toNat + 1 < 2 ^ 64
  last : r.base.toNat + r.count.toNat < 2 ^ 64

section

variable {cfg : Config} {r : WordRing}

theorem slot_toNat (cfg : Config) (n : Nat) : (slot cfg n).toNat = n % cfg.logCapacity := by
  have hlt : n % cfg.logCapacity < cfg.logCapacity := Nat.mod_lt _ cfg.logCapacity_pos
  have hcap := cfg.logCapacity_lt
  exact UInt32.toNat_ofNat_of_lt' (Nat.lt_trans hlt hcap)

theorem Fits.lastIndex (h : Fits cfg r) : r.lastIndex.toNat = r.base.toNat + r.count.toNat := by
  have hlast := h.last
  rw [WordRing.lastIndex, UInt64.toNat_add, UInt32.toNat_toUInt64, Nat.mod_eq_of_lt (by omega)]

theorem full_toLogRing (cfg : Config) (r : WordRing) : r.toLogRing.full cfg = r.full cfg := rfl

/-- The distance of a live index from the base. -/
theorem toNat_above {i : UInt64} (hb : r.base.toNat < i.toNat) : (i - r.base - 1).toNat = i.toNat - r.base.toNat - 1 := by
  have hsub : (i - r.base).toNat = i.toNat - r.base.toNat :=
    UInt64.toNat_sub_of_le _ _ (UInt64.le_iff_toNat_le.2 (by omega))
  rw [UInt64.toNat_sub_of_le _ _ (UInt64.le_iff_toNat_le.2 (by rw [hsub, UInt64.toNat_one]; omega)), hsub,
    UInt64.toNat_one]

theorem at?_toLogRing (h : Fits cfg r) (i : UInt64) : r.at? cfg i = r.toLogRing.at? cfg i.toNat := by
  have hbound := h.last
  have hword : (i ≤ r.base ∨ r.lastIndex < i) ↔ (i.toNat ≤ r.toLogRing.base ∨ r.toLogRing.lastIndex < i.toNat) := by
    rw [UInt64.le_iff_toNat_le, UInt64.lt_iff_toNat_lt, h.lastIndex]
    rfl
  unfold WordRing.at? LogRing.at?
  by_cases hout : i.toNat ≤ r.toLogRing.base ∨ r.toLogRing.lastIndex < i.toNat
  · rw [if_pos (hword.2 hout), if_pos hout]
  · rw [if_neg (fun hw => hout (hword.1 hw)), if_neg hout]
    rw [toLogRing_base, toLogRing_lastIndex] at hout
    have hdist := toNat_above (r := r) (i := i) (by omega)
    have hhead : r.head.toNat < 2 ^ 32 := r.head.toNat_lt
    have hcount : r.count.toNat < 2 ^ 32 := r.count.toNat_lt
    rw [slot_toNat, UInt64.toNat_add, UInt32.toNat_toUInt64, hdist,
      Nat.mod_eq_of_lt (by omega : r.head.toNat + (i.toNat - r.base.toNat - 1) < 2 ^ 64)]
    rfl

theorem termAt_toLogRing (h : Fits cfg r) (i : UInt64) : r.termAt cfg i = r.toLogRing.termAt cfg i.toNat := by
  have hzero : i = 0 ↔ i.toNat = 0 := by rw [← UInt64.toNat_inj, UInt64.toNat_zero]
  have hbase : i = r.base ↔ i.toNat = r.toLogRing.base := by rw [← UInt64.toNat_inj]; rfl
  unfold WordRing.termAt LogRing.termAt
  rw [at?_toLogRing h]
  by_cases h0 : i.toNat = 0
  · rw [if_pos (hzero.2 h0), if_pos h0]
  · rw [if_neg (fun hi => h0 (hzero.1 hi)), if_neg h0]
    by_cases hb : i.toNat = r.toLogRing.base
    · rw [if_pos (hbase.2 hb), if_pos hb]
      rfl
    · rw [if_neg (fun hi => hb (hbase.1 hi)), if_neg hb]

theorem lastTerm_toLogRing (h : Fits cfg r) : r.lastTerm cfg = r.toLogRing.lastTerm cfg := by
  have hlast : r.lastIndex.toNat = r.toLogRing.lastIndex := h.lastIndex
  have hbase : r.lastIndex = r.base ↔ r.toLogRing.lastIndex = r.toLogRing.base := by
    rw [← UInt64.toNat_inj, hlast]
    rfl
  unfold WordRing.lastTerm LogRing.lastTerm
  rw [at?_toLogRing h, hlast]
  by_cases hb : r.toLogRing.lastIndex = r.toLogRing.base
  · rw [if_pos (hbase.2 hb), if_pos hb]
    rfl
  · rw [if_neg (fun hl => hb (hbase.1 hl)), if_neg hb]
    rfl

/-- Below the capacity the 32-bit sum of head and count does not wrap. -/
theorem push_toLogRing (h : Fits cfg r) (e : Entry) :
    (r.push cfg e).map toLogRing = r.toLogRing.push cfg e := by
  have hcap := h.capacity
  have hhead := h.head
  unfold WordRing.push LogRing.push
  rw [full_toLogRing]
  by_cases hfull : r.full cfg = true
  · rw [if_pos hfull, if_pos hfull]
    rfl
  · have hcount : r.count.toNat < cfg.logCapacity := by simpa [WordRing.full] using hfull
    rw [if_neg hfull, if_neg hfull]
    simp only [Except.map, toLogRing, slot_toNat, UInt32.toNat_add, UInt32.toNat_one]
    rw [Nat.mod_eq_of_lt (by omega : r.head.toNat + r.count.toNat < 2 ^ 32),
      Nat.mod_eq_of_lt (by omega : r.count.toNat + 1 < 2 ^ 32)]

theorem truncateSuffix_toLogRing (h : Fits cfg r) (i : UInt64) :
    (r.truncateSuffix i).toLogRing = r.toLogRing.truncateSuffix i.toNat := by
  have hedge := h.edge
  have hlow : i ≤ r.base + 1 ↔ i.toNat ≤ r.toLogRing.base + 1 := by
    rw [UInt64.le_iff_toNat_le, UInt64.toNat_add, UInt64.toNat_one, Nat.mod_eq_of_lt (by omega)]
    rfl
  have hhigh : r.lastIndex < i ↔ r.toLogRing.lastIndex < i.toNat := by
    rw [UInt64.lt_iff_toNat_lt, h.lastIndex]
    rfl
  unfold WordRing.truncateSuffix LogRing.truncateSuffix
  by_cases hl : i.toNat ≤ r.toLogRing.base + 1
  · rw [if_pos (hlow.2 hl), if_pos hl]
    rfl
  · rw [if_neg (fun hi => hl (hlow.1 hi)), if_neg hl]
    by_cases hh : r.toLogRing.lastIndex < i.toNat
    · rw [if_pos (hhigh.2 hh), if_pos hh]
    · rw [if_neg (fun hi => hh (hhigh.1 hi)), if_neg hh]
      rw [toLogRing_base] at hl
      rw [toLogRing_lastIndex] at hh
      have hdist := toNat_above (r := r) (i := i) (by omega)
      have hcount : r.count.toNat < 2 ^ 32 := r.count.toNat_lt
      simp only [toLogRing, UInt64.toNat_toUInt32, hdist]
      rw [Nat.mod_eq_of_lt (by omega)]

theorem compactTo_toLogRing (h : Fits cfg r) {i : UInt64} (t : Nat) (hb : r.base ≤ i) (hl : i ≤ r.lastIndex) :
    (r.compactTo cfg i t).toLogRing = r.toLogRing.compactTo cfg i.toNat t := by
  have hlast := h.last
  have hcount : r.count.toNat < 2 ^ 32 := r.count.toNat_lt
  have hhead : r.head.toNat < 2 ^ 32 := r.head.toNat_lt
  have hln : r.lastIndex.toNat = r.base.toNat + r.count.toNat := h.lastIndex
  have hbn := UInt64.le_iff_toNat_le.1 hb
  have hin := UInt64.le_iff_toNat_le.1 hl
  have hmove : (r.head.toUInt64 + (i - r.base)).toNat = r.head.toNat + (i.toNat - r.base.toNat) := by
    rw [UInt64.toNat_add, UInt32.toNat_toUInt64, UInt64.toNat_sub_of_le _ _ hb, Nat.mod_eq_of_lt (by omega)]
  have hleft : (r.lastIndex - i).toUInt32.toNat = r.base.toNat + r.count.toNat - i.toNat := by
    rw [UInt64.toNat_toUInt32, UInt64.toNat_sub_of_le _ _ hl, hln, Nat.mod_eq_of_lt (by omega)]
  have hsub : sub64 i.toNat r.base.toNat = i.toNat - r.base.toNat := LogRing.sub64_of_le hbn (by omega)
  have hwrap : wrap64 (r.head.toNat + (i.toNat - r.base.toNat)) = r.head.toNat + (i.toNat - r.base.toNat) :=
    Nat.mod_eq_of_lt (by omega)
  have hrest : sub64 (r.base.toNat + r.count.toNat) i.toNat % 2 ^ 32 = r.base.toNat + r.count.toNat - i.toNat := by
    rw [LogRing.sub64_of_le (by omega) (by omega), Nat.mod_eq_of_lt (by omega)]
  simp only [WordRing.compactTo, LogRing.compactTo, toLogRing, slot_toNat, hmove, hleft, LogRing.lastIndex, hsub, hwrap,
    hrest]

theorem resetToSnapshot_toLogRing (r : WordRing) (i : UInt64) (t : Nat) :
    (r.resetToSnapshot i t).toLogRing = r.toLogRing.resetToSnapshot i.toNat t := rfl

end

end WordRing

/-! ## The bounded list above a base -/

/-- What a ring stands for: the entries after `base`, whose own term is `baseTerm`. -/
structure Span where
  base : Nat := 0
  baseTerm : Nat := 0
  entries : List Entry := []

namespace Span

def lastIndex (s : Span) : Nat := s.base + s.entries.length

def at? (s : Span) (index : Nat) : Option Entry := if s.base < index then s.entries[index - s.base - 1]? else none

def termAt (s : Span) (index : Nat) : Option Nat :=
  if index = s.base then some s.baseTerm else (s.at? index).map Entry.term

def lastTerm (s : Span) : Nat := s.entries.getLast?.elim s.baseTerm Entry.term

def push (cap : Nat) (s : Span) (entry : Entry) : Except Error Span :=
  if s.entries.length = cap then .error .logFull else .ok { s with entries := s.entries ++ [entry] }

def truncateSuffix (s : Span) (fromIndex : Nat) : Span := { s with entries := s.entries.take (fromIndex - s.base - 1) }

def compactTo (s : Span) (index term : Nat) : Span := ⟨index, term, s.entries.drop (index - s.base)⟩

def resetToSnapshot (_ : Span) (index term : Nat) : Span := ⟨index, term, []⟩

/-- A log that ends in the span. -/
def log (s : Span) : List Entry := List.replicate s.base ({} : Entry) ++ s.entries

@[simp] theorem length_log (s : Span) : s.log.length = s.lastIndex := by simp [log, lastIndex]

theorem log_above (s : Span) {i : Nat} (h : s.base ≤ i) : s.log[i]? = s.entries[i - s.base]? := by
  rw [log, List.getElem?_append_right (by simpa using h), List.length_replicate]

end Span

/-- Only what is above the base matters. -/
theorem LogRing.Live.congr {cfg : Config} {r : LogRing} {ℓ ℓ' : List Entry} (h : LogRing.Live cfg r ℓ)
    (hlen : ℓ'.length = ℓ.length) (habove : ∀ i, r.base ≤ i → ℓ'[i]? = ℓ[i]?) : LogRing.Live cfg r ℓ' :=
  ⟨h.last.trans hlen.symm, h.head_lt, h.count_le, fun k hk => (habove _ (Nat.le_add_right _ _)).trans (h.live k hk)⟩

/-- The ring stands for the span, and nothing wraps. -/
structure WordRing.Shows (cfg : Config) (r : WordRing) (s : Span) : Prop where
  capacity : cfg.logCapacity ≤ 2 ^ 31
  base : r.base.toNat = s.base
  baseTerm : r.baseTerm = s.baseTerm
  live : LogRing.Live cfg r.toLogRing s.log
  edge : s.base + 1 < 2 ^ 64
  last : s.lastIndex < 2 ^ 64

namespace WordRing.Shows

variable {cfg : Config} {r : WordRing} {s : Span}

theorem count (h : Shows cfg r s) : r.count.toNat = s.entries.length := by
  have hlast := h.live.last
  rw [Span.length_log, Span.lastIndex, ← h.base] at hlast
  simp only [toLogRing_base, toLogRing_count] at hlast
  omega

theorem length_le (h : Shows cfg r s) : s.entries.length ≤ cfg.logCapacity := h.count ▸ h.live.count_le

theorem fits (h : Shows cfg r s) : Fits cfg r := by
  refine ⟨h.capacity, h.live.head_lt, h.live.count_le, h.base ▸ h.edge, ?_⟩
  rw [h.base, h.count]
  exact h.last

theorem lastIndex (h : Shows cfg r s) : r.lastIndex.toNat = s.lastIndex := by
  rw [h.fits.lastIndex, h.base, h.count]
  rfl

/-! ### Reading -/

theorem at? (h : Shows cfg r s) (i : UInt64) : r.at? cfg i = s.at? i.toNat := by
  rw [at?_toLogRing h.fits]
  have hbase : r.toLogRing.base = s.base := h.base
  unfold Span.at?
  by_cases hb : s.base < i.toNat
  · rw [if_pos hb]
    by_cases hl : i.toNat ≤ s.lastIndex
    · rw [h.live.at?_live (hbase ▸ hb) (by rwa [Span.length_log]), s.log_above (by omega)]
      congr 1
      omega
    · rw [LogRing.at?, if_pos (.inr (by rw [h.live.lastIndex, Span.length_log]; omega)),
        List.getElem?_eq_none (by rw [Span.lastIndex] at hl; omega)]
  · rw [if_neg hb, LogRing.at?, if_pos (.inl (by rw [hbase]; omega))]

theorem termAt (h : Shows cfg r s) {i : UInt64} (hi : i ≠ 0) : r.termAt cfg i = s.termAt i.toNat := by
  unfold WordRing.termAt Span.termAt
  rw [if_neg hi, h.at?, h.baseTerm]
  by_cases hb : i = r.base
  · rw [if_pos hb, if_pos (by rw [hb, h.base])]
  · rw [if_neg hb, if_neg (fun hn => hb (UInt64.toNat_inj.1 (hn.trans h.base.symm)))]

theorem lastTerm (h : Shows cfg r s) : r.lastTerm cfg = s.lastTerm := by
  have hempty : r.lastIndex = r.base ↔ s.entries.length = 0 := by
    rw [← UInt64.toNat_inj, h.lastIndex, h.base, Span.lastIndex]
    omega
  unfold WordRing.lastTerm Span.lastTerm
  by_cases hnil : s.entries.length = 0
  · rw [if_pos (hempty.2 hnil), List.length_eq_zero_iff.1 hnil]
    exact h.baseTerm
  · have hpos : s.base < s.lastIndex := by
      rw [Span.lastIndex]
      omega
    have hlast : s.entries.getLast? = s.at? s.lastIndex := by
      rw [Span.at?, if_pos hpos, List.getLast?_eq_getElem?, Span.lastIndex]
      congr 1
      omega
    rw [if_neg (fun hr => hnil (hempty.1 hr)), h.at?, h.lastIndex, hlast, h.baseTerm]
    cases s.at? s.lastIndex <;> rfl

/-! ### Writing -/

theorem full (h : Shows cfg r s) : r.full cfg = true ↔ s.entries.length = cfg.logCapacity := by
  have hle := h.length_le
  rw [WordRing.full, decide_eq_true_eq, h.count]
  omega

theorem push (h : Shows cfg r s) (e : Entry) (hlast : r.full cfg = true ∨ s.lastIndex + 1 < 2 ^ 64) :
    (r.push cfg e = .error .logFull ∧ s.push cfg.logCapacity e = .error .logFull) ∨
    ∃ r' s', r.push cfg e = .ok r' ∧ s.push cfg.logCapacity e = .ok s' ∧ Shows cfg r' s' := by
  by_cases hfull : r.full cfg = true
  · exact .inl ⟨if_pos hfull, if_pos (h.full.1 hfull)⟩
  · have hpush : r.push cfg e = .ok _ := if_neg hfull
    have hword := push_toLogRing h.fits e
    rw [hpush] at hword
    obtain ⟨hlive, -, -⟩ := h.live.push hword.symm
    refine .inr ⟨_, _, hpush, if_neg (fun hs => hfull (h.full.2 hs)), h.capacity, h.base, h.baseTerm, ?_, h.edge, ?_⟩
    · simpa only [Span.log, List.append_assoc] using hlive
    · have hroom := hlast.resolve_left hfull
      simp only [Span.lastIndex, List.length_append, List.length_singleton] at hroom ⊢
      omega

theorem truncateSuffix (h : Shows cfg r s) (i : UInt64) :
    Shows cfg (r.truncateSuffix i) (s.truncateSuffix i.toNat) := by
  have hbase : r.toLogRing.base = s.base := h.base
  have hlast := h.last
  have hsame : (r.truncateSuffix i).base = r.base ∧ (r.truncateSuffix i).baseTerm = r.baseTerm := by
    unfold WordRing.truncateSuffix
    split
    · exact ⟨rfl, rfl⟩
    split <;> exact ⟨rfl, rfl⟩
  refine ⟨h.capacity, by rw [hsame.1]; exact h.base, hsame.2.trans h.baseTerm, ?_, h.edge, ?_⟩
  · rw [truncateSuffix_toLogRing h.fits]
    by_cases hb : s.base < i.toNat
    · have hlive := (h.live.truncateSuffix (i := i.toNat) (hbase ▸ hb)).1
      have hlog : (s.truncateSuffix i.toNat).log = s.log.take (i.toNat - 1) := by
        simp only [Span.log, Span.truncateSuffix, List.take_append, List.length_replicate, List.take_replicate]
        rw [Nat.min_eq_right (by omega : s.base ≤ i.toNat - 1), (by omega : i.toNat - s.base - 1 = i.toNat - 1 - s.base)]
      rw [hlog]
      exact hlive
    · -- nothing is below the base, so nothing stays
      have hempty : r.toLogRing.truncateSuffix i.toNat = { r.toLogRing with count := 0 } :=
        if_pos (by rw [hbase]; omega)
      rw [hempty]
      refine ⟨?_, h.live.head_lt, Nat.zero_le _, fun k hk => absurd hk (Nat.not_lt_zero k)⟩
      rw [Span.length_log, Span.lastIndex, Span.truncateSuffix, (by omega : i.toNat - s.base - 1 = 0)]
      exact hbase
  · simp only [Span.lastIndex, Span.truncateSuffix, List.length_take] at hlast ⊢
    omega

theorem compactTo (h : Shows cfg r s) {i : UInt64} (t : Nat) (hb : r.base ≤ i) (hl : i ≤ r.lastIndex)
    (hi : i.toNat + 1 < 2 ^ 64) : Shows cfg (r.compactTo cfg i t) (s.compactTo i.toNat t) := by
  have hbn := UInt64.le_iff_toNat_le.1 hb
  have hln := UInt64.le_iff_toNat_le.1 hl
  rw [h.base] at hbn
  rw [h.lastIndex] at hln
  have hlen : (s.compactTo i.toNat t).lastIndex = s.lastIndex := by
    simp only [Span.lastIndex, Span.compactTo, List.length_drop] at hln ⊢
    omega
  have hbase : r.toLogRing.base = s.base := h.base
  refine ⟨h.capacity, rfl, rfl, ?_, hi, hlen ▸ h.last⟩
  rw [compactTo_toLogRing h.fits t hb hl]
  refine (h.live.compactTo t (by rw [hbase]; exact hbn) (by rw [Span.length_log]; exact hln)).congr ?_ fun j hj => ?_
  · rw [Span.length_log, Span.length_log, hlen]
  · have hij : i.toNat ≤ j := hj
    rw [Span.log_above _ hij, s.log_above (by omega)]
    simp only [Span.compactTo, List.getElem?_drop]
    congr 1
    omega

theorem resetToSnapshot (h : Shows cfg r s) {i : UInt64} (t : Nat) (hi : i.toNat + 1 < 2 ^ 64) :
    Shows cfg (r.resetToSnapshot i t) (s.resetToSnapshot i.toNat t) := by
  have hlen : (s.resetToSnapshot i.toNat t).log.length = i.toNat := by simp [Span.lastIndex, Span.resetToSnapshot]
  refine ⟨h.capacity, rfl, rfl, ?_, hi, Nat.lt_of_succ_lt hi⟩
  rw [resetToSnapshot_toLogRing]
  have hlive := LogRing.live_resetToSnapshot cfg r.toLogRing (s.resetToSnapshot i.toNat t).log t
  rwa [hlen] at hlive

end WordRing.Shows

/-! ## Runs of calls -/

/-- The calls that change a ring. -/
inductive RingOp where
  | push (entry : Entry)
  | truncateSuffix (fromIndex : UInt64)
  | compactTo (index : UInt64) (term : Nat)
  | resetToSnapshot (index : UInt64) (term : Nat)

namespace WordRing

/-- A refused `push` leaves everything as it was. -/
def call (cfg : Config) (r : WordRing) : RingOp → WordRing
  | .push e => match r.push cfg e with
    | .ok r' => r'
    | .error _ => r
  | .truncateSuffix i => r.truncateSuffix i
  | .compactTo i t => r.compactTo cfg i t
  | .resetToSnapshot i t => r.resetToSnapshot i t

end WordRing

namespace Span

def call (cap : Nat) (s : Span) : RingOp → Span
  | .push e => match s.push cap e with
    | .ok s' => s'
    | .error _ => s
  | .truncateSuffix i => s.truncateSuffix i.toNat
  | .compactTo i t => s.compactTo i.toNat t
  | .resetToSnapshot i t => s.resetToSnapshot i.toNat t

end Span

/-- A ring and a span given the same calls, from empty; `compact_to` is called between the base and the last index. -/
def ringSys (cfg : Config) : Sys (WordRing × Span) RingOp where
  init := ({}, {})
  enabled x op := match op with
    | .compactTo i _ => x.1.base ≤ i ∧ i ≤ x.1.lastIndex
    | _ => True
  exec x op := (x.1.call cfg op, x.2.call cfg.logCapacity op)

/-- The call needs no index past 2^64 − 1. -/
def InWords (cfg : Config) (x : WordRing × Span) : RingOp → Prop
  | .push _ => x.1.full cfg = true ∨ x.1.lastIndex.toNat + 1 < 2 ^ 64
  | .truncateSuffix _ => True
  | .compactTo i _ => i.toNat + 1 < 2 ^ 64
  | .resetToSnapshot i _ => i.toNat + 1 < 2 ^ 64

namespace WordRing

/-- Everything a caller can ask of the ring is answered from the span; `term_at` has a term of its own for index 0. -/
structure Answers (cfg : Config) (r : WordRing) (s : Span) : Prop where
  length : s.entries.length ≤ cfg.logCapacity
  base : r.base.toNat = s.base
  baseTerm : r.baseTerm = s.baseTerm
  lastIndex : r.lastIndex.toNat = s.lastIndex
  entry : ∀ i, r.at? cfg i = s.at? i.toNat
  term : ∀ i, r.termAt cfg i = if i = 0 then some 0 else s.termAt i.toNat
  lastTerm : r.lastTerm cfg = s.lastTerm
  push : ∀ e, r.push cfg e = .error .logFull ↔ s.entries.length = cfg.logCapacity

theorem Shows.empty {cfg : Config} (hcap : cfg.logCapacity ≤ 2 ^ 31) : Shows cfg {} {} :=
  ⟨hcap, rfl, rfl, (LogRing.holds_nil cfg).toLive, by decide, by decide⟩

variable {cfg : Config} {r : WordRing} {s : Span}

theorem Shows.call (h : Shows cfg r s) {op : RingOp} (he : (ringSys cfg).enabled (r, s) op) (hk : InWords cfg (r, s) op) :
    Shows cfg (r.call cfg op) (s.call cfg.logCapacity op) := by
  cases op with
  | push e =>
    have hroom : r.full cfg = true ∨ s.lastIndex + 1 < 2 ^ 64 := by
      rw [← h.lastIndex]
      exact hk
    obtain ⟨hr, hs⟩ | ⟨r', s', hr, hs, h'⟩ := h.push e hroom
    · simpa only [WordRing.call, Span.call, hr, hs] using h
    · simpa only [WordRing.call, Span.call, hr, hs] using h'
  | truncateSuffix i => exact h.truncateSuffix i
  | compactTo i t => exact h.compactTo t he.1 he.2 hk
  | resetToSnapshot i t => exact h.resetToSnapshot t hk

theorem Shows.of_reachable (hcap : cfg.logCapacity ≤ 2 ^ 31) {x : WordRing × Span}
    (h : (ringSys cfg).Reachable (InWords cfg) x) : Shows cfg x.1 x.2 :=
  Sys.Reachable.invariant (P := fun y => Shows cfg y.1 y.2) h (Shows.empty hcap) fun _ _ hx he hk => Shows.call hx he hk

theorem push_eq_error (cfg : Config) (r : WordRing) (e : Entry) :
    r.push cfg e = .error .logFull ↔ r.full cfg = true := by
  unfold WordRing.push
  by_cases hfull : r.full cfg = true
  · simp [hfull]
  · simp [hfull]

theorem Shows.answers (h : Shows cfg r s) : Answers cfg r s where
  length := h.length_le
  base := h.base
  baseTerm := h.baseTerm
  lastIndex := h.lastIndex
  entry := h.at?
  term i := by
    by_cases hi : i = 0
    · rw [if_pos hi, hi]
      rfl
    · rw [if_neg hi, h.termAt hi]
  lastTerm := h.lastTerm
  push e := (push_eq_error cfg r e).trans h.full

/-- **The ring is a bounded list above a base.**  At most `LOG_CAPACITY` entries; `at` finds the entry its index counts
from the base and nothing else; `term_at`, but for index 0, and `last_term` read it; `push` refuses exactly when the list
is full; every call does to the list what its name says. -/
theorem ring_is_bounded_list (cfg : Config) (hcap : cfg.logCapacity ≤ 2 ^ 31) (x : WordRing × Span)
    (h : (ringSys cfg).Reachable (InWords cfg) x) : Answers cfg x.1 x.2 :=
  (Shows.of_reachable hcap h).answers

def shortConfig : Config :=
  { defaultConfig with logCapacity := 3, logCapacity_pos := by decide, logCapacity_lt := by decide }

/-- Three entries, two of them compacted, and two more: the last is in the slot before the first. -/
theorem ring_is_bounded_list_moved :
    ∃ x, (ringSys shortConfig).Reachable (InWords shortConfig) x ∧ x.1.head = 2 ∧
      x.2 = ⟨2, 2, [{ term := 2 }, { term := 3 }, { term := 4 }]⟩ ∧ x.1.at? shortConfig 5 = some { term := 4 } ∧
      x.1.push shortConfig {} = .error .logFull := by
  have hrun : (ringSys shortConfig).Reachable (InWords shortConfig)
      ((ringSys shortConfig).run [.push { term := 1 }, .push { term := 2 }, .push { term := 2 }, .compactTo 2 2,
        .push { term := 3 }, .push { term := 4 }] ({}, {})) :=
    Sys.reaches_run _ _ ⟨trivial, .inr (by decide), trivial, .inr (by decide), trivial, .inr (by decide),
      ⟨by decide, by decide⟩, (by decide : 2 + 1 < 2 ^ 64), trivial, .inr (by decide), trivial, .inr (by decide), trivial⟩
  have hanswers := ring_is_bounded_list shortConfig (by decide) _ hrun
  exact ⟨_, hrun, rfl, rfl, hanswers.entry 5, (hanswers.push {}).2 rfl⟩

/-! ### Where the words end -/

/-- One more slot than 32-bit sums of head and count can tell apart. -/
def wideConfig : Config :=
  { defaultConfig with logCapacity := 2 ^ 31 + 1, logCapacity_pos := by decide, logCapacity_lt := by decide }

/-- After `n` pushes of an empty entry. -/
def blank (head : UInt32) (base : UInt64) (baseTerm n : Nat) : WordRing × Span :=
  ({ base := base, baseTerm := baseTerm, count := UInt32.ofNat n, head := head },
    ⟨base.toNat, baseTerm, List.replicate n {}⟩)

theorem blank_push {cfg : Config} (h : UInt32) (b : UInt64) (t : Nat) {n : Nat} (hn : n < cfg.logCapacity) :
    (ringSys cfg).exec (blank h b t n) (.push {}) = blank h b t (n + 1) := by
  have hcap := cfg.logCapacity_lt
  have hroom : WordRing.full cfg (blank h b t n).1 = false := by
    rw [WordRing.full, decide_eq_false_iff_not, Nat.not_le, blank, UInt32.toNat_ofNat_of_lt' (Nat.lt_trans hn hcap)]
    exact hn
  have hring : (blank h b t n).1.push cfg {} = .ok (blank h b t (n + 1)).1 := by
    rw [WordRing.push, if_neg (by rw [hroom]; exact Bool.false_ne_true)]
    simp only [blank, UInt32.ofNat_add]
    simp
  have hspan : (blank h b t n).2.push cfg.logCapacity {} = .ok (blank h b t (n + 1)).2 := by
    rw [Span.push, if_neg (by simp only [blank, List.length_replicate]; omega)]
    simp only [blank, List.replicate_succ']
  change (WordRing.call cfg (blank h b t n).1 _, Span.call cfg.logCapacity (blank h b t n).2 _) = _
  simp only [WordRing.call, Span.call, hring, hspan]

theorem reaches_blank {cfg : Config} (h : UInt32) (b : UInt64) (t : Nat) :
    ∀ n, n ≤ cfg.logCapacity → (ringSys cfg).Reaches Sys.always (blank h b t 0) (blank h b t n)
  | 0, _ => .refl
  | n + 1, hn => .tail (reaches_blank h b t n (Nat.le_of_succ_le hn))
      ⟨.push {}, trivial, trivial, (blank_push h b t hn).symm⟩

/-- The push after 2^31 others lands where the 32-bit sum says, and its index reads another slot. -/
theorem wide_push_lost :
    ∃ x, (ringSys wideConfig).Reachable Sys.always x ∧ x.1.at? wideConfig 0x100000001 = some {} ∧
      x.2.at? (2 ^ 32 + 1) = some { term := 1 } := by
  obtain ⟨n, hn⟩ : ∃ n, n = 2 ^ 31 := ⟨_, rfl⟩
  have hcap : wideConfig.logCapacity = n + 1 := by rw [hn]; rfl
  have hfirst := @reaches_blank wideConfig 0 0 0 n (by omega)
  have hsecond := @reaches_blank wideConfig 0x80000000 0x80000000 0 n (by omega)
  have hcompact : (ringSys wideConfig).exec (blank 0 0 0 n) (.compactTo 0x80000000 0) = blank 0x80000000 0x80000000 0 0 := by
    have hring : (blank 0 0 0 n).1.compactTo wideConfig 0x80000000 0 = (blank 0x80000000 0x80000000 0 0).1 := by
      rw [hn]
      rfl
    have hspan : (blank 0 0 0 n).2.compactTo (0x80000000 : UInt64).toNat 0 = (blank 0x80000000 0x80000000 0 0).2 := by
      have hword : (0x80000000 : UInt64).toNat = n := hn.symm
      simp only [Span.compactTo, blank, hword, List.drop_replicate, UInt64.toNat_zero, Nat.sub_zero, Nat.sub_self]
    exact Prod.ext hring hspan
  have hbetween : (ringSys wideConfig).enabled (blank 0 0 0 n) (.compactTo 0x80000000 0) := by
    rw [hn]
    exact ⟨by decide, by decide⟩
  have hreach : (ringSys wideConfig).Reachable Sys.always (blank 0x80000000 0x80000000 0 n) :=
    (Relation.ReflTransGen.tail hfirst ⟨_, hbetween, trivial, hcompact.symm⟩).trans hsecond
  refine ⟨_, .tail hreach ⟨.push { term := 1 }, trivial, trivial, rfl⟩, ?_, ?_⟩
  · have hring : (blank 0x80000000 0x80000000 0 n).1.push wideConfig { term := 1 }
        = .ok ⟨Function.update (fun _ => {}) 0 { term := 1 }, 0x80000000, 0, 0x80000001, 0x80000000⟩ := by
      rw [hn]
      rfl
    change (WordRing.call wideConfig (blank 0x80000000 0x80000000 0 n).1 _).at? _ _ = _
    simp only [WordRing.call, hring]
    rfl
  · have hspan : (blank 0x80000000 0x80000000 0 n).2.push wideConfig.logCapacity { term := 1 }
        = .ok ⟨2 ^ 31, 0, List.replicate n ({} : Entry) ++ [{ term := 1 }]⟩ := by
      rw [Span.push, if_neg (by simp only [blank, List.length_replicate]; omega)]
      rfl
    change (Span.call wideConfig.logCapacity (blank 0x80000000 0x80000000 0 n).2 _).at? _ = _
    simp only [Span.call, hspan, Span.at?]
    have hpos : 2 ^ 32 + 1 - 2 ^ 31 - 1 = n := by omega
    rw [if_pos (by decide), hpos, List.getElem?_append_right (Nat.le_of_eq List.length_replicate), List.length_replicate,
      Nat.sub_self]
    rfl

/-- Short of that: index 0 has its own term, the last index wraps, and above the last base there is room for entries
that nobody pushed. -/
theorem ring_at_its_edges :
    (∃ x, (ringSys defaultConfig).Reachable Sys.always x ∧
      x.1.termAt defaultConfig 0 = some 0 ∧ x.2.termAt 0 = some 5) ∧
    (∃ x, (ringSys defaultConfig).Reachable Sys.always x ∧
      x.1.lastIndex.toNat = 0 ∧ x.2.lastIndex = 2 ^ 64) ∧
    (∃ x, (ringSys defaultConfig).Reachable Sys.always x ∧
      x.1.lastIndex.toNat = 4 ∧ x.2.lastIndex = 2 ^ 64 - 1) ∧
    ∃ x, (ringSys wideConfig).Reachable Sys.always x ∧
      x.1.at? wideConfig 0x100000001 = some {} ∧ x.2.at? (2 ^ 32 + 1) = some { term := 1 } := by
  have run (ops : List RingOp) (h : (ringSys defaultConfig).Legal Sys.always ops ({}, {})) :=
    Sys.reaches_run (M := ringSys defaultConfig) ops _ h
  refine ⟨⟨_, run [.resetToSnapshot 0 5] ⟨trivial, trivial, trivial⟩, rfl, rfl⟩,
    ⟨_, run [.resetToSnapshot 0xffffffffffffffff 1, .push {}] ⟨trivial, trivial, trivial, trivial, trivial⟩, by decide, by decide⟩,
    ⟨_, run [.resetToSnapshot 0xffffffffffffffff 1, .truncateSuffix 5] ⟨trivial, trivial, trivial, trivial, trivial⟩,
      by decide, by decide⟩,
    wide_push_lost⟩

end WordRing

end Raft
end FloodEws
