import Mathlib.Data.Nat.SuccPred
import Mathlib.Order.SuccPred.Archimedean
import FloodEws.Egress
import FloodEws.Window
/-!
# InFlight — which uplink `outstanding` finds

The ring of an `EgressTracker` is a window over the seqs that claimed a slot: a record claims one if its seq is not among
the last `cap` that did, whatever became of those (`window_run`).  So an unconfirmed seq is forgotten once `cap` others
have claimed a slot after it, confirmed or not, and `outstanding` finds the newest unconfirmed one exactly as long as that
one is not forgotten (`outstanding_newest_iff`).
-/
namespace FloodEws
namespace Egress

open EgressCoordinator (Unconfirmed)

namespace EgressTracker

variable {cap : Nat}

/-! ## The ring as a window -/

/-- The seqs in the ring. -/
def window (t : EgressTracker cap) : Window (Option Nat) where
  cells := (List.finRange cap).map (fun i => (t.slots i).map EgressRecord.seq)
  head := t.head.1
  head_lt := by simp

theorem mem_window {t : EgressTracker cap} {seq : Nat} :
    some seq ∈ t.window.cells ↔ ∃ i r, t.slots i = some r ∧ r.seq = seq := by
  simp only [window, List.mem_map, List.mem_finRange, true_and, Option.map_eq_some_iff]

theorem slotOf_eq_none_iff {t : EgressTracker cap} {seq : Nat} : t.slotOf seq = none ↔ some seq ∉ t.window.cells := by
  constructor
  · rw [mem_window]
    rintro h ⟨i, r, hr, hseq⟩
    exact slotOf_eq_none h hr hseq
  · intro h
    cases hs : t.slotOf seq with
    | none => rfl
    | some i =>
      obtain ⟨r, hr, hseq⟩ := slotOf_eq_some hs
      exact absurd (mem_window.2 ⟨i, r, hr, hseq⟩) h

/-- The seqs after one slot has changed. -/
theorem cells_update (t : EgressTracker cap) (i : Fin cap) (r : EgressRecord) :
    (List.finRange cap).map (fun j => (Function.update t.slots i (some r) j).map EgressRecord.seq) =
      t.window.cells.set i.1 (some r.seq) := by
  have hcells : t.window.cells = (List.finRange cap).map (fun j => (t.slots j).map EgressRecord.seq) := rfl
  refine List.ext_getElem (by simp [hcells]) fun k hk hk' => ?_
  rw [List.getElem_map, List.getElem_finRange, List.getElem_set, Function.update_apply]
  by_cases hik : i.1 = k
  · rw [if_pos hik, if_pos (Fin.ext hik.symm)]
    rfl
  · rw [if_neg hik, if_neg fun h => hik (congrArg Fin.val h).symm]
    simp [hcells]

/-- **What `on_apply` does to the window**: a seq that is in it stays where it is, another is pushed. -/
theorem window_onApply (t : EgressTracker cap) (rec : EgressRecord) :
    (t.onApply rec).window = if some rec.seq ∈ t.window.cells then t.window else t.window.push (some rec.seq) := by
  have hslot : ∀ n, slotOf rec.seq { t with nextSeq := n } = t.slotOf rec.seq := fun _ => rfl
  unfold onApply
  simp only [hslot]
  cases hs : t.slotOf rec.seq with
  | none =>
    rw [if_neg (slotOf_eq_none_iff.1 hs)]
    refine Window.ext (cells_update t t.head rec) ?_
    simp [window, Window.push]
  | some i =>
    obtain ⟨r, hr, hseq⟩ := slotOf_eq_some hs
    rw [if_pos (mem_window.2 ⟨i, r, hr, hseq⟩)]
    dsimp only
    rw [hr]
    refine Window.ext ((cells_update t i { r with phase := rec.phase }).trans ?_) rfl
    -- the seq that is written is the one that is there
    have hold : t.window.cells[i.1]? = some (some r.seq) := by simp [window, hr]
    obtain ⟨hi, hget⟩ := List.getElem?_eq_some_iff.1 hold
    show t.window.cells.set i.1 (some r.seq) = t.window.cells
    rw [← hget, List.set_getElem_self]

/-! ## The window as its records say -/

/-- The seqs that have claimed a slot, oldest first: a record claims one if its seq is not among the last `cap`. -/
def claims (cap : Nat) (recs : List EgressRecord) : List Nat :=
  recs.foldl (fun c r => if r.seq ∈ recent cap c then c else c ++ [r.seq]) []

theorem claims_concat (cap : Nat) (recs : List EgressRecord) (r : EgressRecord) :
    claims cap (recs ++ [r]) =
      if r.seq ∈ recent cap (claims cap recs) then claims cap recs else claims cap recs ++ [r.seq] := by
  rw [claims, List.foldl_append]
  rfl

theorem mem_recent_map_some {n seq : Nat} {l : List Nat} : some seq ∈ recent n (l.map some) ↔ seq ∈ recent n l := by
  unfold recent
  rw [List.length_map, ← List.map_drop, List.mem_map]
  exact ⟨fun ⟨_, h, he⟩ => Option.some.inj he ▸ h, fun h => ⟨seq, h, rfl⟩⟩

/-- **The ring after any history holds the last `cap` seqs that claimed a slot.** -/
theorem window_run (hcap : 0 < cap) (ops : List Op) :
    ((empty cap hcap).run ops).window =
      ((claims cap (applied ops)).map some).foldl Window.push (Window.fill cap hcap none) := by
  induction ops using List.reverseRecOn with
  | nil => exact Window.ext (by simp [run, window, empty, Window.fill, claims]) rfl
  | append_singleton ops op ih =>
    rw [run_append]
    cases op with
    | lead =>
      have hstay : ((empty cap hcap).run ops).outstanding.2.window = ((empty cap hcap).run ops).window := by
        refine Window.ext (by simp [window]) ?_
        unfold outstanding
        dsimp only [window]
        split <;> rfl
      rw [applied_append, applied_lead, applied_nil, List.append_nil, ← ih]
      exact hstay
    | apply rec =>
      rw [applied_append, applied_apply, applied_nil, claims_concat]
      have hmem : some rec.seq ∈ ((empty cap hcap).run ops).window.cells ↔ rec.seq ∈ recent cap (claims cap (applied ops)) := by
        rw [ih, Window.mem_fill, mem_recent_map_some]
        simp
      show (onApply rec _).window = _
      rw [window_onApply]
      by_cases hheld : rec.seq ∈ recent cap (claims cap (applied ops))
      · rw [if_pos (hmem.2 hheld), if_pos hheld, ih]
      · rw [if_neg (fun h => hheld (hmem.1 h)), if_neg hheld, ih, List.map_append, List.foldl_append]
        rfl

/-- A seq has a slot exactly if it is one of these. -/
theorem tracked_iff (hcap : 0 < cap) (ops : List Op) (seq : Nat) :
    (∃ i r, ((empty cap hcap).run ops).slots i = some r ∧ r.seq = seq) ↔ seq ∈ recent cap (claims cap (applied ops)) := by
  rw [← mem_window, window_run, Window.mem_fill, mem_recent_map_some]
  simp

/-! ## The records in the ring -/

/-- The latest record of a seq. -/
def latest (recs : List EgressRecord) (seq : Nat) : Option EgressRecord := recs.reverse.find? (fun r => r.seq == seq)

theorem latest_concat (recs : List EgressRecord) (rec : EgressRecord) (seq : Nat) :
    latest (recs ++ [rec]) seq = if rec.seq = seq then some rec else latest recs seq := by
  unfold latest
  rw [List.reverse_append, List.reverse_singleton, List.singleton_append, List.find?_cons]
  by_cases h : rec.seq = seq
  · rw [if_pos h, beq_iff_eq.2 h]
  · rw [if_neg h, beq_eq_false_iff_ne.2 h]

theorem latest_some {recs : List EgressRecord} {seq : Nat} {r : EgressRecord} (h : latest recs seq = some r) :
    r ∈ recs ∧ r.seq = seq :=
  ⟨List.mem_reverse.1 (List.mem_of_find?_eq_some h), by simpa using List.find?_some h⟩

/-- Each seq is used for one batch. -/
def OneBatch (recs : List EgressRecord) : Prop :=
  ∀ r ∈ recs, ∀ r' ∈ recs, r.seq = r'.seq → r.batchLogIndex = r'.batchLogIndex

/-- A slot has the phase of the latest record of its seq, and the batch of some record of it. -/
def Recorded (recs : List EgressRecord) (r : EgressRecord) : Prop :=
  (latest recs r.seq).map EgressRecord.phase = some r.phase ∧ ∃ d ∈ recs, d.seq = r.seq ∧ d.batchLogIndex = r.batchLogIndex

theorem recorded_run (hcap : 0 < cap) (ops : List Op) {i : Fin cap} {r : EgressRecord}
    (h : ((empty cap hcap).run ops).slots i = some r) : Recorded (applied ops) r := by
  induction ops using List.reverseRecOn generalizing i r with
  | nil => cases h
  | append_singleton ops op ih =>
    rw [run_append] at h
    cases op with
    | lead =>
      rw [applied_append, applied_lead, applied_nil, List.append_nil]
      exact ih (by simpa [run, step] using h)
    | apply rec =>
      rw [applied_append, applied_apply, applied_nil]
      -- a record of another seq changes nothing for this one
      have hother : ∀ d, Recorded (applied ops) d → rec.seq ≠ d.seq → Recorded (applied ops ++ [rec]) d := by
        rintro d ⟨hphase, x, hx, hbatch⟩ hne
        refine ⟨?_, x, by simp [hx], hbatch⟩
        rw [latest_concat, if_neg hne]
        exact hphase
      change (onApply rec _).slots i = some r at h
      have hdistinct := distinct_run hcap ops
      rcases onApply_slots ((empty cap hcap).run ops) rec with ⟨hnone, hu⟩ | ⟨k, d, hk, hseq, hu⟩
      · rw [hu, Function.update_apply] at h
        split at h
        · obtain rfl := Option.some.inj h
          exact ⟨by rw [latest_concat, if_pos rfl]; rfl, rec, by simp, rfl, rfl⟩
        · exact hother r (ih h) fun he => slotOf_eq_none hnone h he.symm
      · rw [hu, Function.update_apply] at h
        split at h
        · obtain rfl := Option.some.inj h
          obtain ⟨-, x, hx, hbatch⟩ := ih hk
          refine ⟨?_, x, by simp [hx], hbatch⟩
          rw [latest_concat, if_pos hseq.symm]
          rfl
        · rename_i hik
          exact hother r (ih h) fun he => hik (hdistinct i k r d h hk (he.symm.trans hseq.symm))

/-- A slot that is `STARTED` is unconfirmed. -/
theorem unconfirmed_of_slot (hcap : 0 < cap) {ops : List Op} (hone : OneBatch (applied ops)) {i : Fin cap} {seq index : Nat}
    (h : ((empty cap hcap).run ops).slots i = some ⟨index, seq, .started⟩) : Unconfirmed (applied ops) seq index := by
  obtain ⟨hphase, d, hd, hseq, hbatch⟩ := recorded_run hcap ops h
  obtain ⟨r, hr, hstarted⟩ := Option.map_eq_some_iff.1 hphase
  obtain ⟨hmem, hrseq⟩ := latest_some hr
  have hindex : r.batchLogIndex = index := (hone r hmem d hd (hrseq.trans hseq.symm)).trans hbatch
  have hrseq : r.seq = seq := hrseq
  have hstarted : r.phase = .started := hstarted
  show latest (applied ops) seq = _
  rw [hr, ← hindex, ← hrseq, ← hstarted]

/-- And an unconfirmed seq that has a slot is `STARTED` there. -/
theorem started_of_unconfirmed (hcap : 0 < cap) {ops : List Op} {seq index : Nat} (h : Unconfirmed (applied ops) seq index)
    (hheld : seq ∈ recent cap (claims cap (applied ops))) : ((empty cap hcap).run ops).Started seq := by
  obtain ⟨i, r, hr, rfl⟩ := (tracked_iff hcap ops seq).2 hheld
  obtain ⟨hphase, -⟩ := recorded_run hcap ops hr
  have h : latest (applied ops) r.seq = some ⟨index, r.seq, .started⟩ := h
  rw [h] at hphase
  exact ⟨i, r, hr, (Option.some.inj hphase).symm, rfl⟩

/-! ## What `outstanding` finds -/

/-- **The newest unconfirmed uplink**, with its batch; nothing exactly if there is none. -/
def FindsNewest (recs : List EgressRecord) : Option Outstanding → Prop
  | none => ∀ seq index, ¬ Unconfirmed recs seq index
  | some o => Unconfirmed recs o.sequence o.logIndex ∧ ∀ seq index, Unconfirmed recs seq index → seq ≤ o.sequence

/-- The newest unconfirmed seq is among the last `cap` seqs that claimed a slot. -/
def NotForgotten (cap : Nat) (recs : List EgressRecord) : Prop :=
  ∀ seq index, Unconfirmed recs seq index → (∀ seq' index', Unconfirmed recs seq' index' → seq' ≤ seq) →
    seq ∈ recent cap (claims cap recs)

/-- Of the unconfirmed seqs one is the highest. -/
theorem exists_newest {recs : List EgressRecord} {seq index : Nat} (h : Unconfirmed recs seq index) :
    ∃ s i, Unconfirmed recs s i ∧ ∀ seq' index', Unconfirmed recs seq' index' → seq' ≤ s := by
  have hbound : BddAbove {s | ∃ i, Unconfirmed recs s i} := by
    refine ⟨high recs, fun s ⟨i, hs⟩ => ?_⟩
    exact Nat.le_of_lt (lt_high (latest_some (r := ⟨i, s, .started⟩) hs).1)
  obtain ⟨s, ⟨i, hs⟩, hmax⟩ := hbound.exists_isGreatest_of_nonempty ⟨seq, index, h⟩
  exact ⟨s, i, hs, fun seq' index' h' => hmax ⟨index', h'⟩⟩

/-- **`outstanding` finds the newest unconfirmed uplink exactly when the ring has not forgotten it**, for every capacity and
every history in which a seq is used for one batch, changes of leader in between included. -/
theorem outstanding_newest_iff (cap : Nat) (hcap : 0 < cap) (ops : List Op) (hone : OneBatch (applied ops)) :
    FindsNewest (applied ops) ((empty cap hcap).run ops).outstanding.1 ↔ NotForgotten cap (applied ops) := by
  have hfst : ((empty cap hcap).run ops).outstanding.1 = ((empty cap hcap).run ops).best := by
    unfold outstanding
    split <;> rename_i h <;> rw [h]
  rw [hfst]
  cases hb : ((empty cap hcap).run ops).best with
  | none =>
    refine ⟨fun hnone seq index h => absurd h (hnone seq index), fun hheld seq index h => ?_⟩
    obtain ⟨s, i, hs, hmax⟩ := exists_newest h
    exact best_eq_none hb s (started_of_unconfirmed hcap hs (hheld s i hs hmax))
  | some o =>
    obtain ⟨⟨i, hi⟩, hmax⟩ := best_spec hb
    have hfound : Unconfirmed (applied ops) o.sequence o.logIndex := unconfirmed_of_slot hcap hone hi
    constructor
    · rintro ⟨-, hall⟩ seq index h hnewest
      obtain rfl : o.sequence = seq := Nat.le_antisymm (hnewest _ _ hfound) (hall seq index h)
      exact (tracked_iff hcap ops o.sequence).1 ⟨i, _, hi, rfl⟩
    · intro hheld
      refine ⟨hfound, fun seq index h => ?_⟩
      obtain ⟨s, j, hs, hnewest⟩ := exists_newest h
      exact Nat.le_trans (hnewest seq index h) (hmax s (started_of_unconfirmed hcap hs (hheld s j hs hnewest)))

/-- Seq 0 and 1 start and seq 1 is confirmed, in a ring of two. -/
theorem outstanding_newest_two :
    let ops : List Op := [.apply ⟨5, 0, .started⟩, .apply ⟨6, 1, .started⟩, .apply ⟨6, 1, .sent⟩]
    FindsNewest (applied ops) ((empty 2 (by decide)).run ops).outstanding.1 := by
  intro ops
  refine (outstanding_newest_iff 2 (by decide) ops (by unfold OneBatch; decide)).2 fun seq index h _ => ?_
  have hmem : ⟨index, seq, .started⟩ ∈ applied ops := (latest_some h).1
  have hclaims : recent 2 (claims 2 (applied ops)) = [0, 1] := by decide
  rw [hclaims]
  simp only [ops, applied_apply, applied_nil, List.mem_cons, EgressRecord.mk.injEq, List.not_mem_nil, or_false] at hmem
  rcases hmem with ⟨-, rfl, -⟩ | ⟨-, rfl, -⟩ | ⟨-, -, hsent⟩
  · decide
  · decide
  · cases hsent

/-- The seqs that are started and not sent. -/
def inFlight (recs : List EgressRecord) : List Nat :=
  (recs.map EgressRecord.seq).dedup.filter (fun seq => (latest recs seq).any (fun r => decide (r.phase = .started)))

/-- The records of a tracker in use: a seq is used for one batch and started before it is sent, and there are never more in
flight than the ring has slots. -/
structure Orderly (cap : Nat) (recs : List EgressRecord) : Prop where
  one : OneBatch recs
  started : ∀ k, k < recs.length → ∀ r ∈ recs[k]?, r.phase = .sent → ∃ d ∈ recs.take k, d.seq = r.seq ∧ d.phase = .started
  few : ∀ k, k < recs.length + 1 → (inFlight (recs.take k)).length ≤ cap

/-- **An unconfirmed uplink is forgotten**: in a ring of two, seq 0 is started, seq 1 is started and confirmed, and seq 2
takes the slot of seq 0 and is confirmed too.  Seq 0 is in flight, and nothing is found. -/
theorem outstanding_forgets_oldest :
    ¬ ∀ (cap : Nat) (hcap : 0 < cap) (recs : List EgressRecord), Orderly cap recs →
      FindsNewest recs ((empty cap hcap).run (recs.map .apply)).outstanding.1 := by
  intro h
  let recs : List EgressRecord :=
    [⟨5, 0, .started⟩, ⟨6, 1, .started⟩, ⟨6, 1, .sent⟩, ⟨7, 2, .started⟩, ⟨7, 2, .sent⟩]
  have horderly : Orderly 2 recs := ⟨by unfold OneBatch; decide, by decide, by decide⟩
  have hnone : ((empty 2 (by decide)).run (recs.map .apply)).outstanding.1 = none := by decide
  have hfound := h 2 (by decide) recs horderly
  rw [hnone] at hfound
  exact hfound 0 5 rfl

end EgressTracker
end Egress
end FloodEws
