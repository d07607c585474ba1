import FloodEws.Standing
/-!
# Quality — what becomes of the quality a sensor reports

A sensor says of its own reading whether it is good, questionable or invalid; an invalid value shall not be used.  The
vote sets its own verdict over that.  An outlier comes out questionable even if the sensor called it invalid
(`never_upgraded_iff`), and the level of an invalid reading counts towards the median like any other
(`invalid_unused_iff`).
-/
namespace FloodEws
namespace Vote

/-- Better in the order good, questionable, invalid; a byte that is none of these is not compared. -/
def Validity.better : Validity → Validity → Bool
  | .good, .questionable => true
  | .good, .invalid => true
  | .questionable, .invalid => true
  | _, _ => false

theorem Validity.better_self (v : Validity) : v.better v = false := by
  cases v <;> rfl

theorem Validity.invalid_better (v : Validity) : Validity.better .invalid v = false := by
  cases v <;> rfl

theorem Validity.questionable_better (v : Validity) : Validity.better .questionable v = decide (v = .invalid) := by
  cases v <;> simp [better]

/-- The bits of `b` are set in `a`. -/
def Covers (a b : UInt8) : Prop := a &&& b = b

theorem covers_refl (a : UInt8) : Covers a a := UInt8.and_self

theorem covers_or (a b : UInt8) : Covers (a ||| b) a := by
  unfold Covers
  refine UInt8.toBitVec_inj.1 (BitVec.eq_of_getLsbD_eq fun i _ => ?_)
  simp only [UInt8.toBitVec_and, UInt8.toBitVec_or, BitVec.getLsbD_and, BitVec.getLsbD_or]
  cases a.toBitVec.getLsbD i <;> simp

/-! ## One entry -/

namespace VoteEngine

variable {M : Nat} {e : VoteEngine M}

/-- **The entry of a reporter**: made from its slot and from its row once judged. -/
theorem mem_entries_iff {batch : Batch} (h : e.closeWindow.1 = some batch) {s : Slot} (hs : s ∈ e.reporters) (x : Entry) :
    x ∈ batch.entries ∧ x.eui = s.eui ↔ x = s.entry e.median (e.closeWindow.2.reputation.lookup s.eui) := by
  obtain ⟨batch', hclose, hall⟩ := e.closeWindow_spec (minReporters_le_of_closeWindow h)
  obtain rfl : batch' = batch := Option.some.inj (hclose.symm.trans h)
  obtain ⟨hentry, hreporter⟩ := exists_of_forall₂ hall
  have hmade : ∀ {s : Slot} {x : Entry}, Judged e.median e.reputation e.closeWindow.2.reputation s x →
      x = s.entry e.median (e.closeWindow.2.reputation.lookup s.eui) := by
    rintro s x ⟨rep, -, hlook, rfl⟩
    rw [hlook]
  constructor
  · rintro ⟨hx, heui⟩
    obtain ⟨s', hs', hj⟩ := hreporter x hx
    obtain rfl : s' = s := List.inj_on_of_nodup_map e.nodup_reporters hs' hs (hj.reading.1.symm.trans heui)
    exact hmade hj
  · rintro rfl
    obtain ⟨y, hy, hj⟩ := hentry s hs
    rw [hmade hj] at hy
    exact ⟨hy, rfl⟩

/-- Whether a sensor is excluded once an outlier of its has been judged. -/
theorem excluded_of_outlier (hmin : minReporters ≤ e.reporters.length) {s : Slot} (hs : s ∈ e.reporters)
    (ho : s.isOutlier e.median = true) :
    e.closeWindow.2.excluded s.eui = true ↔
      e.excluded s.eui = true ∨ e.reputationOf s.eui < reputationMin + reputationPenalty := by
  have hpenalty : ∀ r : Reputation, (r.judge true).excluded = true ↔
      r.excluded = true ∨ r.reputation < reputationMin + reputationPenalty := by
    intro r
    obtain ⟨hvalue, hexcl⟩ := r.judge_outlier
    have hclamp := Reputation.clampReputation_eq ((r.reputation : Int) - reputationPenalty)
    rw [← hvalue] at hclamp
    rw [hexcl, Bool.or_eq_true, decide_eq_true_eq]
    unfold reputationPenalty at hclamp
    unfold reputationMin reputationPenalty
    refine or_congr_right ?_
    omega
  obtain ⟨batch, -, hall⟩ := e.closeWindow_spec hmin
  obtain ⟨x, -, rep, hrow, hlook, -⟩ := (exists_of_forall₂ hall).1 s hs
  rw [ho] at hlook
  unfold excluded reputationOf
  rw [hlook]
  have hfresh : ¬ reputationInitial < reputationMin + reputationPenalty := by decide
  rcases hrow with rfl | ⟨hnone, rfl⟩
  · cases e.reputation.lookup s.eui with
    | none => simpa using hfresh
    | some r => exact hpenalty r
  · rw [hnone]
    exact (hpenalty _).trans (by simp)

/-! ## The vote and the sensor's own verdict -/

/-- **No entry says better of a reading than its sensor did**, and none loses a detail. -/
def NeverUpgraded (e : VoteEngine M) : Prop :=
  ∀ batch, e.closeWindow.1 = some batch → ∀ s ∈ e.reporters, ∀ x ∈ batch.entries, x.eui = s.eui →
    x.validity.better s.validity = false ∧ Covers x.detail s.detail

theorem covers_entry (s : Slot) (med : Nat) (rep : Option Reputation) : Covers (s.entry med rep).detail s.detail := by
  unfold Slot.entry
  dsimp only
  split
  · exact covers_or _ _
  · exact covers_refl _

/-- An upgrade is an outlier of a sensor that is not excluded by then, and that had called its reading invalid. -/
theorem better_entry_iff (s : Slot) (med : Nat) (rep : Option Reputation) :
    (s.entry med rep).validity.better s.validity = true ↔
      (rep.map Reputation.excluded).getD false = false ∧ s.isOutlier med = true ∧ s.validity = .invalid := by
  unfold Slot.entry
  dsimp only
  cases (rep.map Reputation.excluded).getD false with
  | true => simp [Validity.invalid_better]
  | false =>
    cases s.isOutlier med with
    | true => simp [Validity.questionable_better]
    | false => simp [Validity.better_self]

/-- **The vote upgrades no reading if and only if** every reading its sensor calls invalid is within the tolerance of the
median, or of a sensor that is excluded or that one more penalty excludes. -/
theorem never_upgraded_iff (M : Nat) (e : VoteEngine M) :
    e.NeverUpgraded ↔ (minReporters ≤ e.reporters.length → ∀ s ∈ e.reporters, s.validity = .invalid →
      s.isOutlier e.median = true → e.excluded s.eui = true ∨ e.reputationOf s.eui < reputationMin + reputationPenalty) := by
  constructor
  · intro h hmin s hs hinvalid ho
    obtain ⟨batch, hbatch, -⟩ := e.closeWindow_spec hmin
    obtain ⟨hx, heui⟩ := (mem_entries_iff hbatch hs _).2 rfl
    have hno := (h batch hbatch s hs _ hx heui).1
    rw [← excluded_of_outlier hmin hs ho]
    by_contra hex
    rw [(better_entry_iff _ _ _).2 ⟨Bool.eq_false_iff.2 hex, ho, hinvalid⟩] at hno
    cases hno
  · intro h batch hbatch s hs x hx heui
    have hmin := minReporters_le_of_closeWindow hbatch
    obtain rfl := (mem_entries_iff hbatch hs x).1 ⟨hx, heui⟩
    refine ⟨Bool.eq_false_iff.2 fun hup => ?_, covers_entry s _ _⟩
    obtain ⟨hex, ho, hinvalid⟩ := (better_entry_iff _ _ _).1 hup
    have := (excluded_of_outlier hmin hs ho).2 (h hmin s hs hinvalid ho)
    rw [excluded, hex] at this
    cases this

/-- Two sensors agree, and the third calls its own reading invalid. -/
def brokenSensor (level : Nat) : List Call :=
  [.accumulate { eui := 1, waterLevelMm := 500 }, .accumulate { eui := 2, waterLevelMm := 800 },
    .accumulate { eui := 3, waterLevelMm := level, validity := .invalid, detail := 4 }]

/-- **A reading its sensor calls invalid is sent on as questionable.** -/
theorem invalid_outlier_upgraded : ¬ ∀ e : VoteEngine 3, e.NeverUpgraded := by
  intro h
  have hno := h ((new 3).run (brokenSensor 60000))
    (((new 3).run (brokenSensor 60000)).closeWindow.1.getD {}) (by decide) ⟨3, 60000, .invalid, 4, 0⟩ (by decide)
    { eui := 3, waterLevelMm := 60000, validity := .questionable, detail := 0x14 } (by decide) rfl
  exact absurd hno.1 (by decide)

end VoteEngine

/-! ## Readings that shall not be used -/

/-- One more penalty and one more recovery do not come to the same. -/
theorem Reputation.Fair.judge_inj {r : Reputation} (h : r.Fair) {o o' : Bool} (heq : r.judge o = r.judge o') : o = o' := by
  have hlow := h.low
  have hhigh := h.high
  unfold minReputation at hlow
  unfold maxReputation at hhigh
  have hne : (r.judge true).reputation ≠ (r.judge false).reputation := by
    rw [r.judge_outlier.1, r.judge_within.1]
    have h1 := Reputation.clampReputation_eq ((r.reputation : Int) - reputationPenalty)
    have h2 := Reputation.clampReputation_eq ((r.reputation : Int) + reputationRecovery)
    simp only [reputationPenalty, reputationRecovery] at h1 h2 ⊢
    omega
  cases o with
  | true =>
    cases o' with
    | true => rfl
    | false => exact absurd (congrArg Reputation.reputation heq) hne
  | false =>
    cases o' with
    | true => exact absurd (congrArg Reputation.reputation heq).symm hne
    | false => rfl

namespace Standings

variable {M : Nat} {t : Standings M} {euis : List UInt64} {med : Nat}

/-- A row stays. -/
theorem isSome_buildEntries (ss : List Slot) (out : Batch) {eui : UInt64} (h : (t.lookup eui).isSome = true) :
    ((buildEntries med ss out t).2.lookup eui).isSome = true := by
  induction ss generalizing out t with
  | nil => exact h
  | cons s ss ih =>
    rw [Vote.buildEntries]
    split
    · exact h
    · refine ih _ ?_
      by_cases he : eui = s.eui
      · subst he
        unfold buildEntry
        dsimp only
        rw [lookup_judge_self, Option.isSome_map]
        rcases t.row_repFor s.eui with hrow | ⟨hnone, -⟩
        · rw [hrow]
          exact h
        · rw [hnone] at h
          cases h
      · rw [buildEntry_frame s out t he]
        exact h

/-- **Every reporter has a row by the end of the loop.** -/
theorem Fair.isSome_of_mem (ss : List Slot) (out : Batch) (h : t.Fair euis) (hlen : euis.length ≤ M)
    (hss : ∀ s ∈ ss, s.eui ∈ euis) (hroom : out.entries.length + ss.length ≤ M) {s : Slot} (hs : s ∈ ss) :
    ((Vote.buildEntries med ss out t).2.lookup s.eui).isSome = true := by
  induction ss generalizing out t with
  | nil => cases hs
  | cons s' ss ih =>
    rw [List.length_cons] at hroom
    rw [Vote.buildEntries, if_neg (by omega)]
    have hmem := hss s' (List.mem_cons_self ..)
    rcases List.mem_cons.1 hs with rfl | hs
    · refine isSome_buildEntries ss _ ?_
      unfold buildEntry
      dsimp only
      rw [lookup_judge_self, Option.isSome_map]
      exact h.repFor_isSome hlen hmem
    · refine ih _ ((h.repFor hmem).judge _) (fun x hx => hss x (List.mem_cons_of_mem _ hx)) ?_ hs
      simp only [buildEntry, List.length_append, List.length_singleton]
      omega

end Standings

namespace VoteEngine

variable {M : Nat} {e e' : VoteEngine M} {euis : List UInt64}

/-- The row a reporter is judged by: its own, or a new one. -/
def rowOf (e : VoteEngine M) (eui : UInt64) : Reputation := (e.reputation.lookup eui).getD { eui := eui }

theorem fair_rowOf (h : e.reputation.Fair euis) (eui : UInt64) : (e.rowOf eui).Fair := by
  unfold rowOf
  cases hl : e.reputation.lookup eui with
  | none => exact Reputation.fair_new eui
  | some r => exact h.lookup hl

/-- **The row of a reporter after the vote.** -/
theorem closeWindow_row (h : e.reputation.Fair euis) (hlen : euis.length ≤ M) (hin : ∀ s ∈ e.reporters, s.eui ∈ euis)
    (hmin : minReporters ≤ e.reporters.length) {s : Slot} (hs : s ∈ e.reporters) :
    e.closeWindow.2.reputation.lookup s.eui = some ((e.rowOf s.eui).judge (s.isOutlier e.median)) := by
  have hsome : (e.closeWindow.2.reputation.lookup s.eui).isSome = true := by
    rw [closeWindow_reputation, if_pos hmin]
    exact h.isSome_of_mem e.reporters {} hlen hin (by simpa using e.length_reporters) hs
  obtain ⟨batch, -, hall⟩ := e.closeWindow_spec hmin
  obtain ⟨x, -, rep, hrow, hlook, -⟩ := (exists_of_forall₂ hall).1 s hs
  rw [hlook, Option.isSome_map] at hsome
  rw [hlook]
  unfold rowOf
  rcases hrow with rfl | ⟨hnone, rfl⟩
  · obtain ⟨r, hr⟩ := Option.isSome_iff_exists.1 hsome
    rw [hr]
    rfl
  · rw [hnone]
    rfl

/-- **Two windows that differ at most in the levels of readings called invalid**, before the same reputations. -/
structure Variant (e e' : VoteEngine M) : Prop where
  reputation : e'.reputation = e.reputation
  readings : List.Forall₂ (fun s s' => s' = s ∨ (s.validity = .invalid ∧ s' = { s with reading := s'.reading }))
    e.reporters e'.reporters

/-- **The vote comes to the same for every sensor but those whose readings differ**: the same entries and the same row. -/
structure Undisturbed (e e' : VoteEngine M) : Prop where
  yields : e.closeWindow.1 = none ↔ e'.closeWindow.1 = none
  entries : ∀ batch batch', e.closeWindow.1 = some batch → e'.closeWindow.1 = some batch' →
    ∀ eui, (∀ s ∈ e.reporters, s.eui = eui → s ∈ e'.reporters) →
      ∀ x : Entry, x.eui = eui → (x ∈ batch.entries ↔ x ∈ batch'.entries)
  rows : ∀ eui, (∀ s ∈ e.reporters, s.eui = eui → s ∈ e'.reporters) →
    e.closeWindow.2.reputation.lookup eui = e'.closeWindow.2.reputation.lookup eui

theorem Variant.map_eui (h : Variant e e') : e'.reporters.map Slot.eui = e.reporters.map Slot.eui := by
  have hsame : List.Forall₂ (fun (s s' : Slot) => s.eui = s'.eui) e.reporters e'.reporters := by
    refine h.readings.imp fun s s' hs => ?_
    rcases hs with rfl | ⟨-, hs⟩
    · rfl
    · rw [hs]
  have := (List.forall₂_map_left_iff (f := Slot.eui)).2 ((List.forall₂_map_right_iff (f := Slot.eui)).2 hsame)
  rw [List.forall₂_eq_eq_eq] at this
  exact this.symm

theorem entry_congr {s : Slot} {med med' : Nat} (h : s.isOutlier med = s.isOutlier med') (rep : Option Reputation) :
    s.entry med rep = s.entry med' rep := by
  unfold Slot.entry
  rw [h]

theorem closeWindow_lookup_of_absent {eui : UInt64} (h : eui ∉ e.reporters.map Slot.eui) :
    e.closeWindow.2.reputation.lookup eui = e.reputation.lookup eui := by
  rcases e.closeWindow_lookup eui with hsame | ⟨s, hs, heui, -⟩
  · exact hsame
  · exact absurd (List.mem_map.2 ⟨s, hs, heui⟩) h

theorem eui_mem_of_entry {batch : Batch} (h : e.closeWindow.1 = some batch) {x : Entry} (hx : x ∈ batch.entries) :
    x.eui ∈ e.reporters.map Slot.eui := by
  have hmem := List.mem_map_of_mem (f := Entry.report) hx
  rw [closeWindow_reports h] at hmem
  obtain ⟨s, hs, heq⟩ := List.mem_map.1 hmem
  exact List.mem_map.2 ⟨s, hs, congrArg Prod.fst heq⟩

/-- **The levels of invalid readings make no difference to the other sensors if and only if** the medians of both windows
are within the tolerance of the same ones of the readings the windows share. -/
theorem invalid_unused_iff (M : Nat) (e e' : VoteEngine M) (hs : e.Sound) (hv : Variant e e') :
    Undisturbed e e' ↔ (minReporters ≤ e.reporters.length →
      ∀ s ∈ e.reporters, s ∈ e'.reporters → s.isOutlier e.median = s.isOutlier e'.median) := by
  have hlen : e'.reporters.length = e.reporters.length := hv.readings.length_eq.symm
  have hroom : (e.slots.map Slot.eui).length ≤ M := by
    rw [List.length_map]
    exact e.room
  have hfair : e'.reputation.Fair (e.slots.map Slot.eui) := by
    rw [hv.reputation]
    exact hs
  have hin : ∀ s ∈ e'.reporters, s.eui ∈ e.slots.map Slot.eui := by
    intro s hs'
    have hmem := List.mem_map_of_mem (f := Slot.eui) hs'
    rw [hv.map_eui] at hmem
    obtain ⟨s₀, hs₀, heq⟩ := List.mem_map.1 hmem
    rw [← heq]
    exact mem_slots_of_reporter hs₀
  have hrowOf : ∀ eui, e'.rowOf eui = e.rowOf eui := by
    intro eui
    unfold rowOf
    rw [hv.reputation]
  constructor
  · intro h hmin s hse hse'
    have hsame := h.rows s.eui fun s' hs' heui => by
      rw [List.inj_on_of_nodup_map e.nodup_reporters hs' hse heui]
      exact hse'
    rw [closeWindow_row hs hroom (fun _ => mem_slots_of_reporter) hmin hse,
      closeWindow_row hfair hroom hin (hlen ▸ hmin) hse', hrowOf] at hsame
    exact (fair_rowOf hs s.eui).judge_inj (Option.some.inj hsame)
  · intro h
    -- a sensor that reported the same in both windows
    have hshared : ∀ s ∈ e.reporters, s ∈ e'.reporters →
        e.closeWindow.2.reputation.lookup s.eui = e'.closeWindow.2.reputation.lookup s.eui := by
      intro s hse hse'
      by_cases hmin : minReporters ≤ e.reporters.length
      · rw [closeWindow_row hs hroom (fun _ => mem_slots_of_reporter) hmin hse,
          closeWindow_row hfair hroom hin (hlen ▸ hmin) hse', hrowOf, h hmin s hse hse']
      · rw [closeWindow_reputation, closeWindow_reputation, if_neg hmin, if_neg (hlen ▸ hmin), hv.reputation]
    refine ⟨by rw [closeWindow_eq_none_iff, closeWindow_eq_none_iff, hlen], ?_, ?_⟩
    · intro batch batch' hbatch hbatch' eui hkept x heui
      by_cases hmem : eui ∈ e.reporters.map Slot.eui
      · obtain ⟨s, hse, rfl⟩ := List.mem_map.1 hmem
        have hse' := hkept s hse rfl
        have hmin := minReporters_le_of_closeWindow hbatch
        have h1 := mem_entries_iff hbatch hse x
        have h2 := mem_entries_iff hbatch' hse' x
        rw [hshared s hse hse', entry_congr (h hmin s hse hse'), ← h2] at h1
        simpa [heui] using h1
      · refine iff_of_false (fun hx => hmem (heui ▸ eui_mem_of_entry hbatch hx)) fun hx => hmem ?_
        rw [← hv.map_eui, ← heui]
        exact eui_mem_of_entry hbatch' hx
    · intro eui hkept
      by_cases hmem : eui ∈ e.reporters.map Slot.eui
      · obtain ⟨s, hse, rfl⟩ := List.mem_map.1 hmem
        exact hshared s hse (hkept s hse rfl)
      · rw [closeWindow_lookup_of_absent hmem, closeWindow_lookup_of_absent (hv.map_eui ▸ hmem), hv.reputation]

/-- The readings of `brokenSensor`. -/
def brokenSlots (level : Nat) : List Slot := [⟨1, 500, .good, 0, 0⟩, ⟨2, 800, .good, 0, 0⟩, ⟨3, level, .invalid, 4, 0⟩]

theorem variant_of_brokenSlots (level level' : Nat) (hrep : e'.reputation = e.reputation)
    (h : e.reporters = brokenSlots level) (h' : e'.reporters = brokenSlots level') : Variant e e' := by
  refine ⟨hrep, ?_⟩
  rw [h, h']
  exact .cons (.inl rfl) (.cons (.inl rfl) (.cons (.inr ⟨rfl, rfl⟩) .nil))

/-- A level on the same side of the median. -/
theorem invalid_unused_above : Undisturbed ((new 3).run (brokenSensor 900)) ((new 3).run (brokenSensor 60000)) := by
  have hv : Variant ((new 3).run (brokenSensor 900)) ((new 3).run (brokenSensor 60000)) :=
    variant_of_brokenSlots 900 60000 rfl (by decide) (by decide)
  exact (invalid_unused_iff 3 _ _ (sound_run 3 (brokenSensor 900)) hv).2 (by decide)

/-- **The level of an invalid reading decides which of the other two sensors is an outlier.** -/
theorem invalid_level_moves_median :
    ¬ ∀ e e' : VoteEngine 3, e.Sound → Variant e e' → Undisturbed e e' := by
  intro h
  have hv : Variant ((new 3).run (brokenSensor 0)) ((new 3).run (brokenSensor 60000)) :=
    variant_of_brokenSlots 0 60000 rfl (by decide) (by decide)
  have hrows := (h _ _ (sound_run 3 (brokenSensor 0)) hv).rows 1 (by decide)
  exact absurd hrows (by decide)

end VoteEngine

end Vote
end FloodEws
