import Mathlib.Algebra.Group.Nat.Defs
import FloodEws.Latch
import FloodEws.Vote
/-!
# Ballot — the vote engine over many windows

Runs of a fresh engine under any calls.  `taken` is what it accepted since the window was last opened or closed, and
`latest` the last reading of each sensor among these: closing the window reports exactly those, nothing of an earlier
window (`window_reported_iff`), except that the clock is cut to 32 bits on the way.  The alert is a latch over the batches
that were checked (`alert_is_window`).
-/
namespace FloodEws
namespace Vote

/-- The public calls of the engine that change it. -/
inductive Call where
  | accumulate (entry : Entry)
  | openWindow
  | closeWindow
  | checkAlert (batch : Batch)

/-- The batches that were checked, oldest first. -/
def checked (calls : List Call) : List Batch :=
  calls.filterMap (fun c => match c with | .checkAlert batch => some batch | _ => none)

/-- The latest reading of each sensor, of readings newest first. -/
def latest : List Entry → List Entry
  | [] => []
  | x :: xs => x :: (latest xs).filter (fun y => decide (y.eui ≠ x.eui))

namespace VoteEngine

variable {M : Nat}

def perform (e : VoteEngine M) : Call → VoteEngine M
  | .accumulate entry => (e.accumulate entry).2
  | .openWindow => e.openWindow
  | .closeWindow => e.closeWindow.2
  | .checkAlert batch => (e.checkAlert batch).2

def run (e : VoteEngine M) (calls : List Call) : VoteEngine M := calls.foldl perform e

/-- The readings of this window after one more call, newest first. -/
def take (e : VoteEngine M) (xs : List Entry) : Call → List Entry
  | .accumulate entry => if (e.accumulate entry).1 then entry :: xs else xs
  | .openWindow => []
  | .closeWindow => []
  | .checkAlert _ => xs

/-- The readings accepted since the window was last opened or closed, newest first. -/
def takenFrom : VoteEngine M → List Entry → List Call → List Entry
  | _, xs, [] => xs
  | e, xs, c :: calls => takenFrom (e.perform c) (e.take xs c) calls

def taken (M : Nat) (calls : List Call) : List Entry := (new M).takenFrom [] calls

@[simp] theorem run_nil (e : VoteEngine M) : e.run [] = e := rfl

@[simp] theorem run_cons (e : VoteEngine M) (c : Call) (calls : List Call) :
    e.run (c :: calls) = (e.perform c).run calls := rfl

theorem run_append (e : VoteEngine M) (xs ys : List Call) : e.run (xs ++ ys) = (e.run xs).run ys := List.foldl_append

end VoteEngine

/-! ## The readings of a window -/

theorem mem_latest_cons {x y : Entry} {xs : List Entry} :
    y ∈ latest (x :: xs) ↔ y = x ∨ (y ∈ latest xs ∧ y.eui ≠ x.eui) := by
  rw [latest, List.mem_cons, List.mem_filter, decide_eq_true_eq]

theorem nodup_latest (xs : List Entry) : ((latest xs).map Entry.eui).Nodup := by
  induction xs with
  | nil => exact .nil
  | cons x xs ih =>
    rw [latest, List.map_cons, List.nodup_cons]
    constructor
    · intro hmem
      obtain ⟨y, hy, heq⟩ := List.mem_map.1 hmem
      exact (of_decide_eq_true (List.mem_filter.1 hy).2) heq
    · exact ih.sublist (List.filter_sublist.map _)

namespace VoteEngine

variable {M : Nat}

/-- **The reporters are the latest readings taken.** -/
def Heard (e : VoteEngine M) (xs : List Entry) : Prop := ∀ s, s ∈ e.reporters ↔ s ∈ (latest xs).map Entry.slot

theorem heard_openWindow (e : VoteEngine M) : e.openWindow.Heard [] := by
  intro s
  rw [reporters_openWindow]
  rfl

theorem reporters_of_reported {e e' : VoteEngine M} (hslots : e'.slots = e.slots) (hrep : e'.reported = e.reported) :
    e'.reporters = e.reporters := by
  unfold reporters
  rw [hslots, hrep]

/-- Closing a window clears the reported set, whatever comes of the vote. -/
theorem closeWindow_slots (e : VoteEngine M) : e.closeWindow.2.slots = e.slots ∧ e.closeWindow.2.reported = 0#32 := by
  unfold closeWindow
  dsimp only
  split
  · exact ⟨rfl, rfl⟩
  · split
    · exact ⟨rfl, rfl⟩
    · exact ⟨rfl, rfl⟩

theorem checkAlert_slots (e : VoteEngine M) (batch : Batch) :
    (e.checkAlert batch).2.slots = e.slots ∧ (e.checkAlert batch).2.reported = e.reported := by
  unfold checkAlert
  dsimp only
  repeat' split
  all_goals exact ⟨rfl, rfl⟩

theorem accumulate_refused {e : VoteEngine M} {entry : Entry} :
    (e.accumulate entry).1 = false → (e.accumulate entry).2 = e := by
  unfold accumulate
  split
  · intro h
    cases h
  · split
    · intro h
      cases h
    · exact fun _ => rfl

theorem Heard.perform (hM : M ≤ 32) {e : VoteEngine M} {xs : List Entry} (h : e.Heard xs) (c : Call) :
    (e.perform c).Heard (e.take xs c) := by
  cases c with
  | accumulate entry =>
    cases hok : (e.accumulate entry).1 with
    | false => simpa only [VoteEngine.perform, take, accumulate_refused hok, hok, Bool.false_eq_true, if_false] using h
    | true =>
      intro s
      have hmem : s ∈ (latest (entry :: xs)).map Entry.slot ↔
          s = entry.slot ∨ (s ∈ (latest xs).map Entry.slot ∧ s.eui ≠ entry.eui) := by
        simp only [List.mem_map, mem_latest_cons]
        constructor
        · rintro ⟨y, rfl | ⟨hy, hne⟩, rfl⟩
          · exact .inl rfl
          · exact .inr ⟨⟨y, hy, rfl⟩, hne⟩
        · rintro (rfl | ⟨⟨y, hy, rfl⟩, hne⟩)
          · exact ⟨entry, .inl rfl, rfl⟩
          · exact ⟨y, .inr ⟨hy, hne⟩, rfl⟩
      simp only [VoteEngine.perform, take, hok, if_true]
      rw [mem_reporters_accumulate hM, hmem, ← h s, hok]
      simp
  | openWindow => exact heard_openWindow e
  | closeWindow =>
    obtain ⟨hslots, hrep⟩ := e.closeWindow_slots
    intro s
    show s ∈ e.closeWindow.2.reporters ↔ _
    rw [reporters_of_reported (e := e.openWindow) hslots hrep]
    exact heard_openWindow e s
  | checkAlert batch =>
    obtain ⟨hslots, hrep⟩ := e.checkAlert_slots batch
    intro s
    show s ∈ (e.checkAlert batch).2.reporters ↔ _
    rw [reporters_of_reported hslots hrep]
    exact h s

theorem Heard.run (hM : M ≤ 32) (calls : List Call) {e : VoteEngine M} {xs : List Entry} (h : e.Heard xs) :
    (e.run calls).Heard (e.takenFrom xs calls) := by
  induction calls generalizing e xs with
  | nil => exact h
  | cons c calls ih => exact ih (h.perform hM c)

theorem heard_run (hM : M ≤ 32) (calls : List Call) : ((new M).run calls).Heard (taken M calls) :=
  Heard.run hM calls (heard_openWindow (new M))

/-- With multiplicity: one reporter per sensor. -/
theorem Heard.perm {e : VoteEngine M} {xs : List Entry} (h : e.Heard xs) : e.reporters.Perm ((latest xs).map Entry.slot) := by
  have hleft : e.reporters.Nodup := e.nodup_reporters.of_map _
  have hright : ((latest xs).map Entry.slot).Nodup := by
    have : (((latest xs).map Entry.slot).map Slot.eui).Nodup := by
      rw [List.map_map]
      exact nodup_latest xs
    exact this.of_map _
  exact (List.perm_ext_iff_of_nodup hleft hright).2 h

end VoteEngine

/-! ## What a closed window reports -/

/-- What an entry says of its reading: the sensor, the level and the clock. -/
def Entry.report (x : Entry) : UInt64 × Nat × UInt64 := (x.eui, x.waterLevelMm, x.timestamp)

def Slot.report (s : Slot) : UInt64 × Nat × UInt64 := (s.eui, s.reading, s.timestamp.toUInt64)

/-- The clock comes through the slot exactly if it fits 32 bits. -/
theorem Entry.slot_report_iff (x : Entry) : x.slot.report = x.report ↔ x.timestamp.toNat < 2 ^ 32 := by
  have hcut : x.timestamp.toUInt32.toUInt64 = x.timestamp ↔ x.timestamp.toNat < 2 ^ 32 := by
    rw [← UInt64.toNat_inj, UInt32.toNat_toUInt64, UInt64.toNat_toUInt32]
    constructor
    · intro h
      rw [← h]
      exact Nat.mod_lt _ (by decide)
    · exact Nat.mod_eq_of_lt
  rw [← hcut]
  simp [Slot.report, Entry.report, Entry.slot]

theorem Judged.report {M : Nat} {med : Nat} {t t' : Standings M} {s : Slot} {x : Entry} (h : Judged med t t' s x) :
    x.report = s.report := by
  obtain ⟨rep, -, -, rfl⟩ := h
  rfl

namespace VoteEngine

variable {M : Nat}

theorem closeWindow_eq_none_iff (e : VoteEngine M) : e.closeWindow.1 = none ↔ e.reporters.length < minReporters := by
  constructor
  · intro hnone
    by_contra hlt
    obtain ⟨batch, hsome, -⟩ := e.closeWindow_spec (Nat.le_of_not_lt hlt)
    rw [hnone] at hsome
    cases hsome
  · intro hlt
    unfold closeWindow
    dsimp only
    rw [if_pos hlt]

/-- **One entry for each reporter**, with its level and its clock. -/
theorem closeWindow_reports {e : VoteEngine M} {batch : Batch} (h : e.closeWindow.1 = some batch) :
    batch.entries.map Entry.report = e.reporters.map Slot.report := by
  obtain ⟨batch', hclose, hall⟩ := e.closeWindow_spec (minReporters_le_of_closeWindow h)
  obtain rfl : batch' = batch := Option.some.inj (hclose.symm.trans h)
  have hsame : List.Forall₂ (fun (s : Slot) (x : Entry) => s.report = x.report) e.reporters batch'.entries :=
    hall.imp fun s x hj => hj.report.symm
  have := (List.forall₂_map_left_iff (f := Slot.report)).2 ((List.forall₂_map_right_iff (f := Entry.report)).2 hsame)
  rw [List.forall₂_eq_eq_eq] at this
  exact this.symm

/-- The window that these calls leave open reports, when it is closed, exactly what was received in it: no batch exactly
if too few sensors reported, else one entry for each, with its latest level and clock; and no call of an earlier window
makes a difference to that. -/
structure ReportsReceived (M : Nat) (calls : List Call) : Prop where
  too_few : ((new M).run calls).closeWindow.1 = none ↔ (latest (taken M calls)).length < minReporters
  received : ∀ batch, ((new M).run calls).closeWindow.1 = some batch →
    (batch.entries.map Entry.report).Perm ((latest (taken M calls)).map Entry.report)
  only_now : ∀ calls' batch batch', taken M calls' = taken M calls → ((new M).run calls).closeWindow.1 = some batch →
    ((new M).run calls').closeWindow.1 = some batch' →
    (batch'.entries.map Entry.report).Perm (batch.entries.map Entry.report)

/-- What is reported, with the clock as the slots keep it. -/
theorem reports_perm (hM : M ≤ 32) {calls : List Call} {batch : Batch} (h : ((new M).run calls).closeWindow.1 = some batch) :
    (batch.entries.map Entry.report).Perm ((latest (taken M calls)).map (fun x => x.slot.report)) := by
  have hperm := (heard_run hM calls).perm.map Slot.report
  rw [List.map_map] at hperm
  rw [closeWindow_reports h]
  exact hperm

/-- **A closed window reports exactly what was received if and only if every clock reading it is to report fits 32
bits.** -/
theorem window_reported_iff (M : Nat) (hM : M ≤ 32) (calls : List Call) :
    ReportsReceived M calls ↔
      (minReporters ≤ (latest (taken M calls)).length → ∀ x ∈ latest (taken M calls), x.timestamp.toNat < 2 ^ 32) := by
  have hlen : ((new M).run calls).reporters.length = (latest (taken M calls)).length := by
    rw [(heard_run hM calls).perm.length_eq, List.length_map]
  constructor
  · intro h hmin x hx
    obtain ⟨batch, hbatch, -⟩ := ((new M).run calls).closeWindow_spec (hlen ▸ hmin)
    -- the entry that reports `x` is made from a slot with its EUI, so from that of `x`
    have hmem : x.report ∈ (latest (taken M calls)).map (fun x => x.slot.report) :=
      ((h.received batch hbatch).symm.trans (reports_perm hM hbatch)).subset (List.mem_map_of_mem hx)
    obtain ⟨y, hy, heq⟩ := List.mem_map.1 hmem
    have heui : y.eui = x.eui := congrArg Prod.fst heq
    obtain rfl : y = x := List.inj_on_of_nodup_map (nodup_latest _) hy hx heui
    exact y.slot_report_iff.1 heq
  · intro hfits
    refine ⟨by rw [closeWindow_eq_none_iff, hlen], fun batch hbatch => ?_, fun calls' batch batch' htaken hbatch hbatch' => ?_⟩
    · have hmin := minReporters_le_of_closeWindow hbatch
      have hsame : (latest (taken M calls)).map (fun x => x.slot.report) = (latest (taken M calls)).map Entry.report :=
        List.map_congr_left fun x hx => x.slot_report_iff.2 (hfits (hlen ▸ hmin) x hx)
      exact hsame ▸ reports_perm hM hbatch
    · have hother := reports_perm hM hbatch'
      rw [htaken] at hother
      exact hother.trans (reports_perm hM hbatch).symm

/-- Three sensors report, the first one twice. -/
def threeReport (clock : UInt64) : List Call :=
  [.openWindow, .accumulate { eui := 1, waterLevelMm := 480, timestamp := 3 },
    .accumulate { eui := 2, waterLevelMm := 510, timestamp := clock }, .accumulate { eui := 3, waterLevelMm := 530, timestamp := 5 },
    .accumulate { eui := 1, waterLevelMm := 500, timestamp := 7 }]

theorem window_reported_three : ReportsReceived 3 (threeReport 4) ∧
    ∃ batch, ((new 3).run (threeReport 4)).closeWindow.1 = some batch ∧
      batch.entries.map Entry.report = [(1, 500, 7), (2, 510, 4), (3, 530, 5)] :=
  ⟨(window_reported_iff 3 (by decide) (threeReport 4)).2 (by decide), _, rfl, by decide⟩

/-- **A clock past 32 bits comes out of the window cut off.** -/
theorem clock_cut_to_32_bits : ¬ ∀ calls, ReportsReceived 3 calls := by
  intro h
  have hexact := (h (threeReport 0x100000004)).received
    (((new 3).run (threeReport 0x100000004)).closeWindow.1.getD {}) (by decide)
  exact absurd hexact (by decide)

end VoteEngine

/-! ## The alert -/

namespace VoteEngine

variable {M : Nat}

def latch (e : VoteEngine M) : Latch := ⟨e.alertActive, e.cleanWindows⟩

/-- **`check_alert` is the latch**, set by a batch that triggers. -/
theorem checkAlert_latch (e : VoteEngine M) (batch : Batch) :
    (e.checkAlert batch).2.latch = e.latch.step alertClearWindows batch.triggers := by
  unfold checkAlert Latch.step latch
  cases batch.triggers with
  | true => rfl
  | false =>
    cases ha : e.alertActive with
    | false => simp [ha]
    | true =>
      by_cases hc : alertClearWindows ≤ e.cleanWindows + 1
      · simp [hc]
      · simp [hc]

theorem accumulate_latch (e : VoteEngine M) (entry : Entry) : (e.accumulate entry).2.latch = e.latch := by
  unfold accumulate
  split
  · rfl
  · split
    · rfl
    · rfl

theorem closeWindow_latch (e : VoteEngine M) : e.closeWindow.2.latch = e.latch := by
  unfold closeWindow
  dsimp only
  split
  · rfl
  · split
    · rfl
    · rfl

theorem latch_run (e : VoteEngine M) (calls : List Call) :
    (e.run calls).latch = e.latch.run alertClearWindows ((checked calls).map Batch.triggers) := by
  induction calls generalizing e with
  | nil => rfl
  | cons c calls ih =>
    rw [run_cons, ih]
    cases c with
    | accumulate entry =>
      show Latch.run _ (e.accumulate entry).2.latch _ = _
      rw [accumulate_latch]
      rfl
    | openWindow => rfl
    | closeWindow =>
      show Latch.run _ e.closeWindow.2.latch _ = _
      rw [closeWindow_latch]
      rfl
    | checkAlert batch =>
      show Latch.run _ (e.checkAlert batch).2.latch _ = _
      rw [checkAlert_latch]
      rfl

/-- **The alert is a window over the batches checked**: a check says so exactly if one of the last `alertClearWindows`
batches, the one checked included, has a good reading at or above the threshold. -/
theorem alert_is_window (M : Nat) (calls : List Call) (batch : Batch) :
    (((new M).run calls).checkAlert batch).1 = true ↔
      ∃ b ∈ (batch :: (checked calls).reverse).take alertClearWindows,
        ∃ x ∈ b.entries, x.validity = .good ∧ alertThresholdMm ≤ x.waterLevelMm := by
  have hactive : (((new M).run calls).checkAlert batch).1 = (((new M).run calls).checkAlert batch).2.latch.active := rfl
  have hlatch : (((new M).run calls).checkAlert batch).2.latch =
      Latch.run alertClearWindows {} ((checked calls ++ [batch]).map Batch.triggers) := by
    rw [checkAlert_latch, latch_run, List.map_append, Latch.run, Latch.run, List.foldl_append]
    rfl
  have htriggers : ∀ b : Batch, true = b.triggers ↔
      ∃ x ∈ b.entries, x.validity = .good ∧ alertThresholdMm ≤ x.waterLevelMm := by
    intro b
    rw [eq_comm, Batch.triggers, List.any_eq_true]
    simp
  rw [hactive, hlatch, Latch.run_active (by decide), ← List.map_reverse, ← List.map_take, List.reverse_append]
  simp only [List.mem_map, eq_comm (b := true), htriggers]
  rfl

end VoteEngine

end Vote
end FloodEws
