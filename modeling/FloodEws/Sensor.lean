import Mathlib.Algebra.Ring.Nat
import Mathlib.Data.List.Basic
import Mathlib.Data.List.Chain
import Mathlib.Data.List.FinRange
import Mathlib.Logic.Function.Basic
import FloodEws.RaftTypes
/-!
# Sensor — the sequence numbers of the readings

An edge node numbers its signed readings and the fog layer takes a reading only if its number is above the last one it
saw from that node.  To spare the flash, the node persists a number that is ahead of its counter, once at boot and then
at every thousandth reading.  But at a thousandth reading it persists the counter itself, so from the second thousand on
the persisted number is behind, and a reboot there repeats numbers (`seq_increasing_iff`).
-/
namespace FloodEws
namespace Sensor

open Raft (add32)

def seqStep : Nat := 1000

/-- `CoapService`: the counter in memory, the number on flash, and the numbers of the signed readings sent so far. -/
structure CoapService where
  seqId : Nat := 0
  persisted : Option Nat := none
  sent : List Nat := []

namespace CoapService

/-- `SequencePersist::load`: 0 if nothing was stored. -/
def load (s : CoapService) : Nat := s.persisted.getD 0

def init (s : CoapService) : CoapService := { s with seqId := s.load, persisted := some (add32 s.load seqStep) }

/-- A reading that cannot be signed is not sent and takes no number. -/
def sendSensorData (signed : Bool) (s : CoapService) : CoapService :=
  if !signed then s
  else
    let seq := add32 s.seqId 1
    { seqId := seq
      persisted := if seq % seqStep = 0 then some seq else s.persisted
      sent := s.sent ++ [s.seqId] }

/-- From one boot to the next: for each reading, whether it could be signed. -/
def session (s : CoapService) (readings : List Bool) : CoapService :=
  readings.foldl (fun s signed => s.sendSensorData signed) s.init

def run (sessions : List (List Bool)) : CoapService := sessions.foldl session {}

end CoapService

/-! ## `SensorReplayDetection` -/

abbrev maxSensors : Nat := 8

structure SensorReplayEntry where
  eui : Nat := 0
  lastSequence : Nat := 0
  isActive : Bool := false
deriving DecidableEq

/-- What the detector reads of a reading. -/
structure SensorReadingWire where
  eui : Nat
  seq : Nat

structure SensorReplayDetection where
  entries : Fin maxSensors → SensorReplayEntry := fun _ => {}

namespace SensorReplayDetection

/-- The entry of this node, or the first free one, which becomes its; none if the table is full. -/
def findOrCreate (eui : Nat) (d : SensorReplayDetection) : Option (Fin maxSensors × SensorReplayDetection) :=
  match (List.finRange maxSensors).find? (fun i => (d.entries i).eui == eui) with
  | some i => some (i, d)
  | none =>
    match (List.finRange maxSensors).find? (fun i => !(d.entries i).isActive) with
    | some i => some (i, ⟨Function.update d.entries i { d.entries i with eui := eui }⟩)
    | none => none

def isFresh (reading : SensorReadingWire) (d : SensorReplayDetection) : Bool × SensorReplayDetection :=
  match d.findOrCreate reading.eui with
  | none => (false, d)
  | some (i, d) =>
    let entry := d.entries i
    if !entry.isActive then
      (true, ⟨Function.update d.entries i { entry with isActive := true, lastSequence := reading.seq }⟩)
    else if entry.lastSequence < reading.seq then
      (true, ⟨Function.update d.entries i { entry with lastSequence := reading.seq }⟩)
    else (false, d)

/-- Every one of the readings, delivered in this order, is fresh. -/
def allFresh (eui : Nat) : List Nat → SensorReplayDetection → Bool
  | [], _ => true
  | seq :: seqs, d => (d.isFresh ⟨eui, seq⟩).1 && allFresh eui seqs (d.isFresh ⟨eui, seq⟩).2

/-- The first entry of this node is at `i`, is in use and has seen `last`. -/
structure Knows (d : SensorReplayDetection) (eui last : Nat) (i : Fin maxSensors) : Prop where
  first : (List.finRange maxSensors).find? (fun j => (d.entries j).eui == eui) = some i
  active : (d.entries i).isActive = true
  last : (d.entries i).lastSequence = last

/-- An entry that is brought up to date stays the node's first one. -/
theorem knows_update {entries : Fin maxSensors → SensorReplayEntry} {i : Fin maxSensors} {e : SensorReplayEntry}
    {eui seq : Nat} (hfirst : (List.finRange maxSensors).find? (fun j => (entries j).eui == eui) = some i)
    (heui : e.eui = (entries i).eui) (hactive : e.isActive = true) (hseq : e.lastSequence = seq) :
    Knows ⟨Function.update entries i e⟩ eui seq i := by
  refine ⟨?_, by simp [hactive], by simp [hseq]⟩
  rw [← hfirst]
  congr 1
  funext j
  by_cases hj : j = i
  · subst hj
    simp [heui]
  · simp [hj]

theorem Knows.isFresh {d : SensorReplayDetection} {eui last : Nat} {i : Fin maxSensors} (h : d.Knows eui last i)
    (seq : Nat) : (d.isFresh ⟨eui, seq⟩).1 = decide (last < seq) ∧
      (last < seq → (d.isFresh ⟨eui, seq⟩).2.Knows eui seq i) := by
  have hfind : d.findOrCreate eui = some (i, d) := by simp [findOrCreate, h.first]
  have heui : (d.entries i).eui = eui := by simpa using List.find?_some h.first
  unfold SensorReplayDetection.isFresh
  simp only [hfind, h.active, h.last, Bool.not_true, Bool.false_eq_true, if_false]
  by_cases hlt : last < seq
  · simp only [hlt, if_true, decide_true, true_and, forall_const]
    exact knows_update h.first rfl rfl rfl
  · simp [hlt]

theorem Knows.allFresh_iff : ∀ (seqs : List Nat) {d : SensorReplayDetection} {eui last : Nat} {i : Fin maxSensors},
    d.Knows eui last i → (allFresh eui seqs d = true ↔ (last :: seqs).Pairwise (· < ·))
  | [], _, _, _, _, _ => by simp [allFresh]
  | seq :: seqs, d, eui, last, i, h => by
    obtain ⟨h1, h2⟩ := h.isFresh seq
    rw [allFresh, h1]
    by_cases hlt : last < seq
    · have ih := Knows.allFresh_iff seqs (h2 hlt)
      simp only [hlt, decide_true, Bool.true_and, ih, List.pairwise_cons, List.mem_cons, forall_eq_or_imp, true_and]
      constructor
      · rintro ⟨h3, h4⟩
        exact ⟨fun a ha => Nat.lt_trans hlt (h3 a ha), h3, h4⟩
      · rintro ⟨-, h3, h4⟩
        exact ⟨h3, h4⟩
    · simp [hlt]

/-- A node that was not seen before gets the first entry of a new detector. -/
theorem isFresh_empty (eui seq : Nat) :
    (SensorReplayDetection.isFresh ⟨eui, seq⟩ {}).1 = true ∧
      (SensorReplayDetection.isFresh ⟨eui, seq⟩ {}).2.Knows eui seq 0 := by
  have hzero : (List.finRange maxSensors).find? (fun _ => true) = some 0 := by decide
  have hfind : ∃ entries, findOrCreate eui {} = some (0, ⟨entries⟩) ∧
      (∀ j, (entries j).isActive = false) ∧ (entries 0).eui = eui := by
    unfold findOrCreate
    by_cases h0 : eui = 0
    · subst h0
      simp [hzero]
    · have hno : (List.finRange maxSensors).find? (fun _ => (0 == eui)) = none := by simp [Ne.symm h0]
      simp only [hno, Bool.not_false, hzero]
      refine ⟨_, rfl, fun j => ?_, by simp⟩
      by_cases hj : j = 0
      · simp [hj]
      · simp [hj]
  obtain ⟨entries, hfind, hidle, heui⟩ := hfind
  unfold isFresh
  simp only [hfind, hidle, Bool.not_false, if_true, true_and]
  refine knows_update ?_ rfl rfl rfl
  rw [List.finRange_succ, List.find?_cons_of_pos]
  simpa using heui

/-- **A new detector takes exactly the lists that go up.** -/
theorem allFresh_iff (eui : Nat) (seqs : List Nat) : allFresh eui seqs {} = true ↔ seqs.Pairwise (· < ·) := by
  cases seqs with
  | nil => simp [allFresh]
  | cons seq seqs =>
    have hfirst : (SensorReplayDetection.isFresh ⟨eui, seq⟩ {}).1 = true ∧
        (SensorReplayDetection.isFresh ⟨eui, seq⟩ {}).2.Knows eui seq 0 := isFresh_empty eui seq
    rw [allFresh, hfirst.1, Bool.true_and]
    exact hfirst.2.allFresh_iff seqs

end SensorReplayDetection

/-! ## The numbers of a whole life -/

/-- How many readings of a session take a number. -/
def signed (readings : List Bool) : Nat := readings.countP (fun b => b)

namespace CoapService

/-- **One session**, from a persisted multiple of the step: the numbers go on from there, and what is left on flash is
one step on, or the last multiple of the step that was reached. -/
theorem session_spec (s : CoapService) (readings : List Bool) {p : Nat} (hp : s.load = p) (hstep : p % seqStep = 0)
    (hfit : p + seqStep + signed readings < 2 ^ 32) :
    (s.session readings).load = p + max seqStep (seqStep * (signed readings / seqStep)) ∧
      (s.session readings).sent = s.sent ++ List.range' p (signed readings) := by
  -- The state after the first few readings of the session.
  have hloop : ∀ (rest : List Bool) (t : CoapService) (j : Nat), j + signed rest = signed readings → t.seqId = p + j →
      t.persisted = some (p + max seqStep (seqStep * (j / seqStep))) → t.sent = s.sent ++ List.range' p j →
      let t' := rest.foldl (fun s signed => s.sendSensorData signed) t
      t'.load = p + max seqStep (seqStep * (signed readings / seqStep)) ∧
        t'.sent = s.sent ++ List.range' p (signed readings) := by
    intro rest
    induction rest with
    | nil =>
      intro t j hj hid hper hsent
      have hj : j = signed readings := by simpa [signed] using hj
      subst hj
      exact ⟨by simp [load, hper], hsent⟩
    | cons b rest ih =>
      intro t j hj hid hper hsent
      cases b with
      | false => exact ih t j (by simpa [signed] using hj) hid hper hsent
      | true =>
        have hj : j + 1 + signed rest = signed readings := by
          simp only [signed, List.countP_cons] at hj ⊢
          simp at hj
          omega
        have hadd : add32 t.seqId 1 = p + (j + 1) := by
          rw [hid]
          exact Nat.mod_eq_of_lt (by omega)
        refine ih (t.sendSensorData true) (j + 1) hj ?_ ?_ ?_
        · simp [sendSensorData, hadd]
        · simp only [sendSensorData, hadd, hper, Bool.not_true, Bool.false_eq_true, if_false]
          unfold seqStep at hstep ⊢
          split
          · congr 1
            omega
          · congr 1
            omega
        · simp [sendSensorData, hsent, hid, List.range'_concat]
  refine hloop readings s.init 0 (by omega) ?_ ?_ ?_
  · simp [init, hp]
  · have hadd : add32 p seqStep = p + seqStep := Nat.mod_eq_of_lt (by omega)
    simp [init, hp, hadd]
  · simp [init]

/-- The numbers sent over the sessions, if the first one starts at `p`. -/
def numbers : Nat → List (List Bool) → List Nat
  | _, [] => []
  | p, rs :: sessions =>
    List.range' p (signed rs) ++ numbers (p + max seqStep (seqStep * (signed rs / seqStep))) sessions

/-- An upper bound for what the sessions use up. -/
def total (sessions : List (List Bool)) : Nat := seqStep * sessions.length + (sessions.map signed).sum

theorem foldl_session_sent : ∀ (sessions : List (List Bool)) (s : CoapService) (p : Nat), s.load = p → p % seqStep = 0 →
    p + total sessions < 2 ^ 32 → (sessions.foldl session s).sent = s.sent ++ numbers p sessions
  | [], s, p, _, _, _ => by simp [numbers]
  | rs :: sessions, s, p, hp, hstep, hfit => by
    have htotal : total (rs :: sessions) = seqStep + signed rs + total sessions := by
      simp only [total, List.length_cons, List.map_cons, List.sum_cons, Nat.mul_add]
      omega
    obtain ⟨h1, h2⟩ := session_spec s rs hp hstep (by omega)
    have hnext : (p + max seqStep (seqStep * (signed rs / seqStep))) % seqStep = 0 := by
      unfold seqStep at hstep ⊢
      omega
    have hle : max seqStep (seqStep * (signed rs / seqStep)) ≤ seqStep + signed rs := by
      unfold seqStep
      omega
    rw [List.foldl_cons, foldl_session_sent sessions (s.session rs) _ h1 hnext (by omega), h2, numbers, List.append_assoc]

theorem le_numbers : ∀ (sessions : List (List Bool)) (p : Nat), ∀ x ∈ numbers p sessions, p ≤ x
  | rs :: sessions, p, x, hx => by
    rcases List.mem_append.1 hx with hx | hx
    · exact (List.mem_range'_1.1 hx).1
    · have := le_numbers sessions _ x hx
      omega

end CoapService

/-- A session may be followed by one that sends anything if its readings were no more than a step, or a multiple of
it. -/
def Leaves (rs next : List Bool) : Prop := 0 < signed next → signed rs ≤ seqStep ∨ signed rs % seqStep = 0

namespace CoapService

/-- The numbers of one session end below those of all the sessions after it. -/
theorem session_below_iff (rs next : List Bool) (sessions : List (List Bool)) (p : Nat) :
    (∀ x ∈ List.range' p (signed rs), ∀ y ∈ numbers (p + max seqStep (seqStep * (signed rs / seqStep))) (next :: sessions),
      x < y) ↔ Leaves rs next := by
  constructor
  · intro h hpos
    by_contra hover
    have hlast : p + signed rs - 1 ∈ List.range' p (signed rs) := by
      rw [List.mem_range'_1]
      omega
    have hfirst : p + max seqStep (seqStep * (signed rs / seqStep)) ∈
        numbers (p + max seqStep (seqStep * (signed rs / seqStep))) (next :: sessions) := by
      refine List.mem_append_left _ (List.mem_range'_1.2 ?_)
      omega
    have := h _ hlast _ hfirst
    unfold seqStep at *
    omega
  · intro h x hx y hy
    rw [List.mem_range'_1] at hx
    by_cases hpos : 0 < signed next
    · have hle := le_numbers _ _ y hy
      have := h hpos
      unfold seqStep at *
      omega
    · -- A session that sends nothing still moves on by a step.
      have hzero : signed next = 0 := by omega
      rw [numbers, hzero] at hy
      have hle := le_numbers _ _ y (by simpa using hy)
      unfold seqStep at *
      omega

/-- The numbers sent over a whole life. -/
theorem run_sent {sessions : List (List Bool)} (hfit : total sessions < 2 ^ 32) :
    (run sessions).sent = numbers 0 sessions := by
  have := foldl_session_sent sessions {} 0 rfl rfl (by omega)
  simpa [run] using this

theorem numbers_pairwise_iff : ∀ (sessions : List (List Bool)) (p : Nat),
    (numbers p sessions).Pairwise (· < ·) ↔ sessions.IsChain Leaves
  | [], _ => by simp [numbers]
  | [rs], p => by simp [numbers, List.pairwise_lt_range']
  | rs :: next :: sessions, p => by
    have ih := numbers_pairwise_iff (next :: sessions) (p + max seqStep (seqStep * (signed rs / seqStep)))
    rw [numbers, List.pairwise_append, ih, session_below_iff, List.isChain_cons_cons]
    simp [List.pairwise_lt_range', and_comm]

end CoapService

/-- **The numbers go up over the whole life of a node, and no reading that arrives in order is taken for a replay,
exactly when** no session of more than a step of readings, and not a multiple of it, is followed by one that sends. -/
theorem seq_increasing_iff (eui : Nat) (sessions : List (List Bool)) (hfit : CoapService.total sessions < 2 ^ 32) :
    ((CoapService.run sessions).sent.Pairwise (· < ·) ∧
      ∀ delivered, delivered.Sublist (CoapService.run sessions).sent →
        SensorReplayDetection.allFresh eui delivered {} = true) ↔ sessions.IsChain Leaves := by
  rw [CoapService.run_sent hfit, ← CoapService.numbers_pairwise_iff sessions 0]
  constructor
  · exact fun h => h.1
  · intro h
    refine ⟨h, fun delivered hsub => ?_⟩
    rw [SensorReplayDetection.allFresh_iff]
    exact h.sublist hsub

/-- Two readings, a reboot, one reading. -/
theorem seq_increasing_short :
    (CoapService.run [[true, true], [true]]).sent = [0, 1, 1000] ∧
      (CoapService.run [[true, true], [true]]).sent.Pairwise (· < ·) := by
  refine ⟨by decide, ((seq_increasing_iff 7 [[true, true], [true]] (by decide)).2 ?_).1⟩
  simp [Leaves, signed, seqStep]

/-- **1001 readings, a reboot, one reading**: number 1000 is used twice, and the second reading that has it is taken for
a replay. -/
theorem seq_repeats_past_step :
    (CoapService.run [List.replicate 1001 true, [true]]).sent = List.range 1001 ++ [1000] ∧
      SensorReplayDetection.allFresh 7 [1000, 1000] {} = false := by
  have hsigned : signed (List.replicate 1001 true) = 1001 := by
    rw [signed, List.countP_replicate, if_pos rfl]
  have htotal : CoapService.total [List.replicate 1001 true, [true]] = 3002 := by
    simp only [CoapService.total, List.map_cons, hsigned]
    rfl
  refine ⟨?_, by decide⟩
  rw [CoapService.run_sent (by rw [htotal]; decide), CoapService.numbers, hsigned, List.range_eq_range']
  rfl

end Sensor
end FloodEws
