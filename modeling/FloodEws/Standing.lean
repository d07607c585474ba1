import Mathlib.Data.List.Perm.Subperm
import FloodEws.Ballot
/-!
# Standing — the reputations over many windows

A reputation is a saturating counter with a latch on it: a sensor is excluded when it falls below one threshold and
readmitted when it is back at a higher one.  Whatever the calls, a sensor with a row has a slot, so the table of
reputations never runs out; each row is `Fair`; and a readmission is paid for, in windows within the tolerance, since the
exclusion (`readmission_cost`).
-/
namespace FloodEws
namespace Vote

/-- **A standing the engine gives**: in bounds, and on the right side of the threshold its latch looks at. -/
structure Reputation.Fair (r : Reputation) : Prop where
  low : minReputation ≤ r.reputation
  high : r.reputation ≤ maxReputation
  excluded : r.excluded = true → r.reputation < reputationReadmit
  admitted : r.excluded = false → reputationMin ≤ r.reputation

namespace Reputation

theorem fair_new (eui : UInt64) : Fair { eui := eui } where
  low := (by decide : minReputation ≤ reputationInitial)
  high := Nat.le_refl _
  excluded := nofun
  admitted := fun _ => (by decide : reputationMin ≤ reputationInitial)

theorem judge_outlier (r : Reputation) :
    (r.judge true).reputation = clampReputation ((r.reputation : Int) - reputationPenalty) ∧
      (r.judge true).excluded = (r.excluded || decide ((r.judge true).reputation < reputationMin)) :=
  ⟨rfl, rfl⟩

theorem judge_within (r : Reputation) :
    (r.judge false).reputation = clampReputation ((r.reputation : Int) + reputationRecovery) ∧
      (r.judge false).excluded = (r.excluded && !decide ( reputationReadmit ≤ (r.judge false).reputation)) :=
  ⟨rfl, rfl⟩

theorem clampReputation_eq (value : Int) : (clampReputation value : Int) = max 10 (min value 100) := by
  unfold clampReputation minReputation maxReputation
  omega

theorem Fair.judge {r : Reputation} (h : r.Fair) (o : Bool) : (r.judge o).Fair := by
  obtain ⟨hlow, hhigh, hex, had⟩ := h
  simp only [minReputation, maxReputation, reputationMin, reputationReadmit] at hlow hhigh hex had
  cases o with
  | true =>
    obtain ⟨hvalue, hexcl⟩ := r.judge_outlier
    have hclamp := clampReputation_eq ((r.reputation : Int) - reputationPenalty)
    rw [← hvalue] at hclamp
    simp only [reputationPenalty, reputationMin] at hclamp hexcl
    refine ⟨?_, ?_, fun he => ?_, fun he => ?_⟩
    · unfold minReputation
      omega
    · unfold maxReputation
      omega
    · rw [hexcl, Bool.or_eq_true, decide_eq_true_eq] at he
      unfold reputationReadmit
      rcases he with he | he
      · have := hex he
        omega
      · omega
    · rw [hexcl, Bool.or_eq_false_iff, decide_eq_false_iff_not] at he
      unfold reputationMin
      omega
  | false =>
    obtain ⟨hvalue, hexcl⟩ := r.judge_within
    have hclamp := clampReputation_eq ((r.reputation : Int) + reputationRecovery)
    rw [← hvalue] at hclamp
    simp only [reputationRecovery, reputationReadmit] at hclamp hexcl
    refine ⟨?_, ?_, fun he => ?_, fun he => ?_⟩
    · unfold minReputation
      omega
    · unfold maxReputation
      omega
    · rw [hexcl, Bool.and_eq_true, Bool.not_eq_true', decide_eq_false_iff_not] at he
      unfold reputationReadmit
      omega
    · unfold reputationMin
      rw [hexcl, Bool.and_eq_false_iff, Bool.not_eq_false', decide_eq_true_eq] at he
      rcases he with he | he
      · have := had he
        omega
      · omega

end Reputation

/-! ## The table -/

/-- Every row is fair, and is of a sensor of this list. -/
structure Standings.Fair {M : Nat} (euis : List UInt64) (t : Standings M) : Prop where
  known : ∀ r ∈ t.rows, r.eui ∈ euis
  fair : ∀ r ∈ t.rows, r.Fair

namespace Standings

variable {M : Nat} {t : Standings M} {euis : List UInt64} {eui : UInt64}

theorem Fair.mono {euis' : List UInt64} (h : t.Fair euis) (hsub : ∀ x ∈ euis, x ∈ euis') : t.Fair euis' :=
  ⟨fun r hr => hsub _ (h.known r hr), h.fair⟩

theorem Fair.repFor (h : t.Fair euis) (hmem : eui ∈ euis) : (t.repFor eui).Fair euis := by
  unfold Standings.repFor
  split
  · constructor
    · intro r hr
      rcases List.mem_append.1 hr with hr | hr
      · exact h.known r hr
      · rw [List.mem_singleton.1 hr]
        exact hmem
    · intro r hr
      rcases List.mem_append.1 hr with hr | hr
      · exact h.fair r hr
      · rw [List.mem_singleton.1 hr]
        exact Reputation.fair_new eui
  · exact h

theorem Fair.judge (h : t.Fair euis) (o : Bool) : (t.judge eui o).Fair euis := by
  constructor
  · intro x hx
    obtain ⟨r, hr, rfl⟩ := List.mem_map.1 hx
    by_cases he : r.eui = eui
    · rw [if_pos he, Reputation.judge_eui]
      exact h.known r hr
    · rw [if_neg he]
      exact h.known r hr
  · intro x hx
    obtain ⟨r, hr, rfl⟩ := List.mem_map.1 hx
    by_cases he : r.eui = eui
    · rw [if_pos he]
      exact (h.fair r hr).judge o
    · rw [if_neg he]
      exact h.fair r hr

theorem Fair.buildEntries {med : Nat} (ss : List Slot) (out : Batch) (h : t.Fair euis) (hss : ∀ s ∈ ss, s.eui ∈ euis) :
    (buildEntries med ss out t).2.Fair euis := by
  induction ss generalizing out t with
  | nil => exact h
  | cons s ss ih =>
    rw [Vote.buildEntries]
    split
    · exact h
    · exact ih _ ((h.repFor (hss s (List.mem_cons_self ..))).judge _) fun s' hs' => hss s' (List.mem_cons_of_mem _ hs')

/-- **There is a row for every sensor of the list**, if the list fits the table. -/
theorem Fair.repFor_isSome (h : t.Fair euis) (hlen : euis.length ≤ M) (hmem : eui ∈ euis) :
    ((t.repFor eui).lookup eui).isSome = true := by
  cases hl : t.lookup eui with
  | some r =>
    have hold : t.repFor eui = t := by
      unfold Standings.repFor
      rw [dif_neg]
      rintro ⟨hnone, -⟩
      rw [hnone] at hl
      cases hl
    rw [hold, hl]
    rfl
  | none =>
    -- the rows are of other sensors of the list
    have hnot : eui ∉ t.rows.map Reputation.eui := by
      intro hin
      obtain ⟨r, hr, heq⟩ := List.mem_map.1 hin
      exact List.find?_eq_none.1 hl r hr (by simpa using heq)
    have hsub : (eui :: t.rows.map Reputation.eui) ⊆ euis := by
      refine List.cons_subset.2 ⟨hmem, fun x hx => ?_⟩
      obtain ⟨r, hr, rfl⟩ := List.mem_map.1 hx
      exact h.known r hr
    have hroom := (List.subperm_of_subset (List.nodup_cons.2 ⟨hnot, t.distinct⟩) hsub).length_le
    rw [List.length_cons, List.length_map] at hroom
    have hfind : t.rows.find? (fun r => r.eui == eui) = none := hl
    unfold Standings.repFor
    rw [dif_pos ⟨hl, by omega⟩]
    unfold lookup
    rw [List.find?_append, hfind]
    simp

theorem Fair.lookup (h : t.Fair euis) {r : Reputation} (hl : t.lookup eui = some r) : r.Fair :=
  h.fair r (List.mem_of_find?_eq_some hl)

end Standings

/-! ## The engine -/

namespace VoteEngine

variable {M : Nat} {e : VoteEngine M} {eui : UInt64}

/-- The rows are fair, and of sensors that have a slot. -/
def Sound (e : VoteEngine M) : Prop := e.reputation.Fair (e.slots.map Slot.eui)

theorem accumulate_keeps (e : VoteEngine M) (entry : Entry) : (e.accumulate entry).2.reputation = e.reputation ∧
    ∀ x ∈ e.slots.map Slot.eui, x ∈ (e.accumulate entry).2.slots.map Slot.eui := by
  unfold accumulate
  split
  · rename_i i h
    refine ⟨rfl, fun x hx => ?_⟩
    obtain ⟨hi, heq, -⟩ := List.findIdx?_eq_some_iff_getElem.1 h
    have hkey : e.slots[i].eui = entry.eui := by simpa using heq
    obtain ⟨j, hj, rfl⟩ := List.mem_iff_getElem.1 hx
    rw [List.length_map] at hj
    rw [List.getElem_map]
    by_cases hji : j = i
    · subst hji
      rw [hkey]
      exact List.mem_map_of_mem (f := Slot.eui) (List.mem_set hi entry.slot)
    · refine List.mem_map_of_mem (List.mem_iff_getElem?.2 ⟨j, ?_⟩)
      rw [List.getElem?_set_ne (Ne.symm hji), List.getElem?_eq_getElem hj]
  · split
    · refine ⟨rfl, fun x hx => ?_⟩
      rw [List.map_append]
      exact List.mem_append_left _ hx
    · exact ⟨rfl, fun x hx => hx⟩

theorem checkAlert_reputation (e : VoteEngine M) (batch : Batch) : (e.checkAlert batch).2.reputation = e.reputation := by
  unfold checkAlert
  dsimp only
  repeat' split
  all_goals rfl

/-- **What closing a window does to the table**: nothing, or the second loop. -/
theorem closeWindow_reputation (e : VoteEngine M) : e.closeWindow.2.reputation =
    if minReporters ≤ e.reporters.length then (buildEntries e.median e.reporters {} e.reputation).2 else e.reputation := by
  unfold closeWindow median
  dsimp only
  by_cases hmin : minReporters ≤ e.reporters.length
  · rw [if_neg (Nat.not_lt.2 hmin), if_pos hmin]
    split
    · rfl
    · rfl
  · rw [if_pos (Nat.lt_of_not_le hmin), if_neg hmin]

theorem mem_slots_of_reporter {s : Slot} (h : s ∈ e.reporters) : s.eui ∈ e.slots.map Slot.eui :=
  List.mem_map_of_mem ((collect_sublist _ _ _).subset h)

theorem Sound.perform (h : e.Sound) (c : Call) : (e.perform c).Sound := by
  cases c with
  | accumulate entry =>
    obtain ⟨hrep, hslots⟩ := e.accumulate_keeps entry
    show Standings.Fair _ (e.accumulate entry).2.reputation
    rw [hrep]
    exact h.mono hslots
  | openWindow => exact h
  | closeWindow =>
    show Standings.Fair (e.closeWindow.2.slots.map Slot.eui) e.closeWindow.2.reputation
    rw [e.closeWindow_slots.1, closeWindow_reputation]
    split
    · exact Standings.Fair.buildEntries e.reporters {} h fun s hs => mem_slots_of_reporter hs
    · exact h
  | checkAlert batch =>
    show Standings.Fair ((e.checkAlert batch).2.slots.map Slot.eui) (e.checkAlert batch).2.reputation
    rw [(e.checkAlert_slots batch).1, checkAlert_reputation]
    exact h

theorem Sound.run (h : e.Sound) (calls : List Call) : (e.run calls).Sound := by
  induction calls generalizing e with
  | nil => exact h
  | cons c calls ih => exact ih (h.perform c)

theorem sound_run (M : Nat) (calls : List Call) : ((new M).run calls).Sound :=
  Sound.run (e := new M) ⟨nofun, nofun⟩ calls

/-- **`rep_for` answers every reporter**, at whatever point of the loop it is asked. -/
theorem Sound.repFor_isSome (h : e.Sound) {pre post : List Slot} {s : Slot} (hs : e.reporters = pre ++ s :: post) :
    (((buildEntries e.median pre {} e.reputation).2.repFor s.eui).lookup s.eui).isSome = true := by
  have hmem : ∀ s' ∈ pre ++ s :: post, s'.eui ∈ e.slots.map Slot.eui := fun s' hs' => mem_slots_of_reporter (hs ▸ hs')
  have hpre : (buildEntries e.median pre {} e.reputation).2.Fair (e.slots.map Slot.eui) :=
    Standings.Fair.buildEntries pre {} h fun s' hs' => hmem s' (List.mem_append_left _ hs')
  refine hpre.repFor_isSome ?_ (hmem s (List.mem_append_right _ (List.mem_cons_self ..)))
  rw [List.length_map]
  exact e.room

/-- **What closing a window does to one sensor's row**: nothing, or its reading is judged. -/
theorem closeWindow_lookup (e : VoteEngine M) (eui : UInt64) :
    e.closeWindow.2.reputation.lookup eui = e.reputation.lookup eui ∨
    ∃ s ∈ e.reporters, s.eui = eui ∧ minReporters ≤ e.reporters.length ∧ ∃ rep, e.reputation.Row eui rep ∧
      e.closeWindow.2.reputation.lookup eui = rep.map (Reputation.judge (s.isOutlier e.median)) := by
  by_cases hmin : minReporters ≤ e.reporters.length
  · by_cases hrep : eui ∈ e.reporters.map Slot.eui
    · obtain ⟨s, hs, rfl⟩ := List.mem_map.1 hrep
      obtain ⟨batch, -, hall⟩ := e.closeWindow_spec hmin
      obtain ⟨x, -, rep, hrow, hlook, -⟩ := (exists_of_forall₂ hall).1 s hs
      exact .inr ⟨s, hs, rfl, hmin, rep, hrow, hlook⟩
    · rw [closeWindow_reputation, if_pos hmin]
      exact .inl (buildEntries_frame _ _ _ hrep)
  · rw [closeWindow_reputation, if_neg hmin]
    exact .inl rfl

/-- An entry of a sensor that is excluded by then says so. -/
theorem invalid_of_excluded {batch : Batch} (hbatch : e.closeWindow.1 = some batch) {x : Entry} (hx : x ∈ batch.entries)
    (hex : e.closeWindow.2.excluded x.eui = true) : x.validity = .invalid := by
  obtain ⟨batch', hclose, hall⟩ := e.closeWindow_spec (minReporters_le_of_closeWindow hbatch)
  obtain rfl : batch' = batch := Option.some.inj (hclose.symm.trans hbatch)
  obtain ⟨s, -, rep, -, hlook, rfl⟩ := (exists_of_forall₂ hall).2 x hx
  have hex : ((e.closeWindow.2.reputation.lookup s.eui).map Reputation.excluded).getD false = true := hex
  rw [hlook] at hex
  simp only [Slot.entry, hex, if_true]

end VoteEngine

/-! ## Exclusion and readmission -/

namespace VoteEngine

variable {M : Nat} {e : VoteEngine M} {eui : UInt64}

/-- The window being closed is voted on, and the sensor's reading is within the tolerance of the median. -/
def clean (eui : UInt64) (e : VoteEngine M) : Bool :=
  decide (minReporters ≤ e.reporters.length) && e.reporters.any (fun s => decide (s.eui = eui) && !s.isOutlier e.median)

/-- How many of the windows closed by these calls were within the tolerance for the sensor. -/
def windowsWithin (eui : UInt64) : VoteEngine M → List Call → Nat
  | _, [] => 0
  | e, .closeWindow :: calls => (if e.clean eui then 1 else 0) + windowsWithin eui (e.perform .closeWindow) calls
  | e, c :: calls => windowsWithin eui (e.perform c) calls

theorem excluded_eq_true (e : VoteEngine M) (eui : UInt64) :
    e.excluded eui = true ↔ ∃ r, e.reputation.lookup eui = some r ∧ r.excluded = true := by
  unfold excluded
  cases e.reputation.lookup eui with
  | none => simp
  | some r => simp

theorem reputationOf_eq {r : Reputation} (h : e.reputation.lookup eui = some r) : e.reputationOf eui = r.reputation := by
  unfold reputationOf
  rw [h]
  rfl

theorem congr_lookup {e' : VoteEngine M} (h : e'.reputation.lookup eui = e.reputation.lookup eui) :
    e'.excluded eui = e.excluded eui ∧ e'.reputationOf eui = e.reputationOf eui := by
  unfold excluded reputationOf
  rw [h]
  exact ⟨rfl, rfl⟩

/-- **One window of an excluded sensor**: it stays excluded and gains what a window within the tolerance gives, or it is
readmitted by such a window, at the threshold. -/
theorem Sound.close_excluded (h : e.Sound) (hex : e.excluded eui = true) :
    (e.closeWindow.2.excluded eui = true ∧
      e.closeWindow.2.reputationOf eui ≤ e.reputationOf eui + (if e.clean eui then reputationRecovery else 0)) ∨
    (e.clean eui = true ∧ reputationReadmit ≤ e.reputationOf eui + reputationRecovery) := by
  obtain ⟨r, hr, hrex⟩ := (e.excluded_eq_true eui).1 hex
  have hfair : r.Fair := h.lookup hr
  rcases e.closeWindow_lookup eui with hsame | ⟨s, hs, hseui, hmin, rep, hrow, hlook⟩
  · obtain ⟨h1, h2⟩ := congr_lookup hsame
    exact .inl ⟨h1.trans hex, by rw [h2]; exact Nat.le_add_right _ _⟩
  obtain rfl : rep = some r := by
    rcases hrow with hrow | ⟨hnone, -⟩
    · exact hrow.trans hr
    · rw [hnone] at hr
      cases hr
  rw [reputationOf_eq hr]
  cases ho : s.isOutlier e.median with
  | true =>
    rw [ho] at hlook
    obtain ⟨hvalue, hexcl⟩ := r.judge_outlier
    refine .inl ⟨(excluded_eq_true _ _).2 ⟨_, hlook, by rw [hexcl, hrex]; rfl⟩, ?_⟩
    rw [reputationOf_eq hlook, hvalue]
    have hclamp := Reputation.clampReputation_eq ((r.reputation : Int) - reputationPenalty)
    have hlow := hfair.low
    unfold minReputation at hlow
    unfold reputationPenalty at hclamp ⊢
    omega
  | false =>
    have hclean : e.clean eui = true := by
      unfold clean
      rw [Bool.and_eq_true, decide_eq_true_eq, List.any_eq_true]
      exact ⟨hmin, s, hs, by simp [hseui, ho]⟩
    rw [ho] at hlook
    obtain ⟨hvalue, hexcl⟩ := r.judge_within
    have hclamp := Reputation.clampReputation_eq ((r.reputation : Int) + reputationRecovery)
    rw [← hvalue] at hclamp
    have hlow := hfair.low
    simp only [minReputation, reputationRecovery] at hlow hclamp
    by_cases hback : reputationReadmit ≤ (r.judge false).reputation
    · refine .inr ⟨hclean, ?_⟩
      unfold reputationReadmit reputationRecovery at *
      omega
    · refine .inl ⟨(excluded_eq_true _ _).2 ⟨_, hlook, by rw [hexcl, hrex]; simp [hback]⟩, ?_⟩
      rw [reputationOf_eq hlook, if_pos hclean]
      unfold reputationRecovery
      omega

/-- Only closing a window changes a standing. -/
theorem perform_reputation (e : VoteEngine M) {c : Call} (hc : c ≠ .closeWindow) :
    (e.perform c).reputation = e.reputation ∧
      ∀ eui calls, windowsWithin eui e (c :: calls) = windowsWithin eui (e.perform c) calls := by
  cases c with
  | accumulate entry => exact ⟨(e.accumulate_keeps entry).1, fun _ _ => rfl⟩
  | openWindow => exact ⟨rfl, fun _ _ => rfl⟩
  | closeWindow => exact absurd rfl hc
  | checkAlert batch => exact ⟨e.checkAlert_reputation batch, fun _ _ => rfl⟩

/-- **A readmission is paid for**: from wherever the reputation stands, in windows within the tolerance. -/
theorem readmission_cost (h : e.Sound) (hex : e.excluded eui = true) (calls : List Call)
    (hback : (e.run calls).excluded eui = false) :
    reputationReadmit ≤ e.reputationOf eui + reputationRecovery * windowsWithin eui e calls := by
  induction calls generalizing e with
  | nil =>
    rw [run_nil, hex] at hback
    cases hback
  | cons c calls ih =>
    by_cases hc : c = .closeWindow
    · subst hc
      rw [windowsWithin]
      rcases h.close_excluded hex with ⟨hstill, hle⟩ | ⟨hclean, hle⟩
      · have := ih (h.perform .closeWindow) hstill hback
        simp only [VoteEngine.perform] at this ⊢
        unfold reputationRecovery reputationReadmit at *
        cases hclean : e.clean eui with
        | true =>
          rw [hclean, if_pos rfl] at hle
          rw [if_pos rfl]
          omega
        | false =>
          rw [hclean, if_neg Bool.false_ne_true] at hle
          rw [if_neg Bool.false_ne_true]
          omega
      · rw [if_pos hclean]
        unfold reputationRecovery reputationReadmit at *
        omega
    · obtain ⟨hrep, hcount⟩ := e.perform_reputation hc
      have hlook : (e.perform c).reputation.lookup eui = e.reputation.lookup eui := by rw [hrep]
      obtain ⟨h1, h2⟩ := congr_lookup hlook
      have := ih (h.perform c) (h1.trans hex) hback
      rw [hcount, ← h2]
      exact this

/-- **A sensor is excluded below the lower threshold.** -/
theorem reputationOf_exclusion (hin : e.excluded eui = false) (hout : e.closeWindow.2.excluded eui = true) :
    e.closeWindow.2.reputationOf eui < reputationMin := by
  obtain ⟨r', hr', hex'⟩ := (excluded_eq_true _ _).1 hout
  rcases e.closeWindow_lookup eui with hsame | ⟨s, -, -, -, rep, hrow, hlook⟩
  · rw [(congr_lookup hsame).1, hin] at hout
    cases hout
  rw [hlook, Option.map_eq_some_iff] at hr'
  obtain ⟨r, rfl, rfl⟩ := hr'
  have hr : r.excluded = false := by
    rcases hrow with hrow | ⟨-, hnew⟩
    · rw [Bool.eq_false_iff]
      intro hex
      rw [(e.excluded_eq_true eui).2 ⟨r, hrow.symm, hex⟩] at hin
      cases hin
    · rw [Option.some.inj hnew]
  rw [reputationOf_eq hlook]
  cases ho : s.isOutlier e.median with
  | true =>
    rw [ho, r.judge_outlier.2, hr, Bool.false_or, decide_eq_true_eq] at hex'
    exact hex'
  | false =>
    rw [ho, r.judge_within.2, hr, Bool.false_and] at hex'
    cases hex'

/-- **Reputation and exclusion, after any calls**: one row per sensor; a row for every reporter when it is asked for; every
row in bounds, below the upper threshold if its sensor is excluded and at or above the lower one if not; the entry of an
excluded sensor is invalid; and from an exclusion to the readmission there are five windows within the tolerance. -/
theorem reputation_hysteresis (M : Nat) (calls : List Call) :
    let e := (new M).run calls
    (e.reputation.rows.map Reputation.eui).Nodup ∧
    (∀ pre s post, e.reporters = pre ++ s :: post →
      (((buildEntries e.median pre {} e.reputation).2.repFor s.eui).lookup s.eui).isSome = true) ∧
    (∀ r ∈ e.reputation.rows, minReputation ≤ r.reputation ∧ r.reputation ≤ maxReputation ∧
      (r.excluded = true → r.reputation < reputationReadmit) ∧ (r.excluded = false → reputationMin ≤ r.reputation)) ∧
    (∀ batch, e.closeWindow.1 = some batch → ∀ x ∈ batch.entries, e.closeWindow.2.excluded x.eui = true →
      x.validity = .invalid) ∧
    ∀ eui calls', e.excluded eui = false → e.closeWindow.2.excluded eui = true →
      (e.closeWindow.2.run calls').excluded eui = false → 5 ≤ windowsWithin eui e.closeWindow.2 calls' := by
  intro e
  have h : e.Sound := sound_run M calls
  refine ⟨e.reputation.distinct, fun pre s post hs => h.repFor_isSome hs, fun r hr => ?_,
    fun batch hbatch x hx => invalid_of_excluded hbatch hx, fun eui calls' hin hout hback => ?_⟩
  · obtain ⟨hlow, hhigh, hex, had⟩ := h.fair r hr
    exact ⟨hlow, hhigh, hex, had⟩
  · have hstart := reputationOf_exclusion hin hout
    have hcost := readmission_cost (h.perform .closeWindow) hout calls' hback
    simp only [VoteEngine.perform] at hcost
    unfold reputationReadmit reputationRecovery at hcost
    unfold reputationMin at hstart
    omega

end VoteEngine

end Vote
end FloodEws
