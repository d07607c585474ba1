import Mathlib.Data.List.FinRange
import Mathlib.Data.List.Induction
import Mathlib.Logic.Function.Basic
import FloodEws.RaftTypes
/-!
# Tracker — which uplinks are in flight

Every fog node keeps an `EgressTracker` of the `STARTED` and `SENT` records that come back through the replicated log: a
ring of the last few sequence numbers and the next free one.  The records alone should decide what it holds.  But
`outstanding`, asked only by the node that becomes leader, also sets the next free number back to just above what it
found, so the trackers of two nodes with one history come apart (`next_seq_determined_iff`).
-/
namespace FloodEws
namespace Egress

open Raft (add32)

inductive Phase where
  | started
  | sent
deriving DecidableEq, Repr

/-- Payload of the egress record submitted to the log. -/
structure EgressRecord where
  batchLogIndex : Nat := 0
  seq : Nat := 0
  phase : Phase := .started
deriving DecidableEq, Repr

structure Outstanding where
  logIndex : Nat
  sequence : Nat
deriving DecidableEq, Repr

/-- `m_ring` and `m_valid` are one table: a slot that is not valid is `none`. -/
structure EgressTracker (cap : Nat) where
  slots : Fin cap → Option EgressRecord
  head : Fin cap
  nextSeq : Nat

namespace EgressTracker

variable {cap : Nat}

/-- A tracker as it is built. -/
def empty (cap : Nat) (h : 0 < cap) : EgressTracker cap := ⟨fun _ => none, ⟨0, h⟩, 0⟩

/-- The first valid slot with this seq. -/
def slotOf (seq : Nat) (t : EgressTracker cap) : Option (Fin cap) :=
  (List.finRange cap).find? (fun i => (t.slots i).any (fun r => r.seq == seq))

def onApply (rec : EgressRecord) (t : EgressTracker cap) : EgressTracker cap :=
  let t := { t with nextSeq := if t.nextSeq ≤ rec.seq then add32 rec.seq 1 else t.nextSeq }
  match t.slotOf rec.seq with
  | some i => { t with slots := Function.update t.slots i ((t.slots i).map (fun r => { r with phase := rec.phase })) }
  | none => { t with
      slots := Function.update t.slots t.head (some rec)
      head := ⟨(t.head.1 + 1) % cap, Nat.mod_lt _ (Nat.zero_lt_of_lt t.head.2)⟩ }

/-- One turn of the loop of `outstanding`: the highest `STARTED` seq so far. -/
def better (best : Option Outstanding) : Option EgressRecord → Option Outstanding
  | some r =>
    if r.phase = .started ∧ best.all (fun b => decide (b.sequence < r.seq)) then some ⟨r.batchLogIndex, r.seq⟩ else best
  | none => best

def best (t : EgressTracker cap) : Option Outstanding := (List.finRange cap).foldl (fun b i => better b (t.slots i)) none

/-- The highest record started and not sent; the next seq is set to just above it. -/
def outstanding (t : EgressTracker cap) : Option Outstanding × EgressTracker cap :=
  match t.best with
  | none => (none, t)
  | some o => (some o, { t with nextSeq := add32 o.sequence 1 })

/-! ## What the loops find -/

theorem foldl_better : ∀ (l : List (Option EgressRecord)) (b : Option Outstanding),
    (l.foldl better b = none → b = none ∧ ∀ r, some r ∈ l → r.phase ≠ .started) ∧
    ∀ o, l.foldl better b = some o →
      (b = some o ∨ ∃ r, some r ∈ l ∧ r.phase = .started ∧ o = ⟨r.batchLogIndex, r.seq⟩) ∧
      (∀ b', b = some b' → b'.sequence ≤ o.sequence) ∧ ∀ r, some r ∈ l → r.phase = .started → r.seq ≤ o.sequence
  | [], b => by
    refine ⟨fun h => ⟨h, by simp⟩, fun o h => ⟨.inl h, fun b' hb => ?_, by simp⟩⟩
    have heq : some b' = some o := hb.symm.trans h
    injection heq with heq
    rw [heq]
  | none :: l, b => by simpa [better] using foldl_better l b
  | some r :: l, b => by
    have ih := foldl_better l (better b (some r))
    rw [List.foldl_cons]
    generalize hb : better b (some r) = b' at ih ⊢
    simp only [better] at hb
    split at hb
    · -- The slot beats what was found so far.
      rename_i hr
      obtain ⟨hstarted, hall⟩ := hr
      subst hb
      refine ⟨fun h => (by cases (ih.1 h).1), fun o ho => ?_⟩
      obtain ⟨h1, h2, h3⟩ := ih.2 o ho
      have hro : r.seq ≤ o.sequence := h2 _ rfl
      refine ⟨.inr ?_, ?_, ?_⟩
      · rcases h1 with h1 | ⟨d, hd, h1⟩
        · injection h1 with h1
          exact ⟨r, by simp, hstarted, h1.symm⟩
        · exact ⟨d, by simp [hd], h1⟩
      · rintro b'' rfl
        have : b''.sequence < r.seq := by simpa using hall
        omega
      · intro d hd hs
        rcases List.mem_cons.1 hd with hd | hd
        · injection hd with hd
          rw [hd]
          exact hro
        · exact h3 d hd hs
    · rename_i hr
      subst hb
      refine ⟨fun h => ?_, fun o ho => ?_⟩
      · obtain ⟨h1, h2⟩ := ih.1 h
        refine ⟨h1, fun d hd hs => ?_⟩
        rcases List.mem_cons.1 hd with hd | hd
        · injection hd with hd
          subst hd
          exact hr ⟨hs, by simp [h1]⟩
        · exact h2 d hd hs
      · obtain ⟨h1, h2, h3⟩ := ih.2 o ho
        refine ⟨?_, h2, ?_⟩
        · rcases h1 with h1 | ⟨d, hd, h1⟩
          · exact .inl h1
          · exact .inr ⟨d, by simp [hd], h1⟩
        · intro d hd hs
          rcases List.mem_cons.1 hd with hd | hd
          · injection hd with hd
            subst hd
            cases hb : b with
            | none => exact absurd ⟨hs, by simp [hb]⟩ hr
            | some b' =>
              have hle := h2 b' hb
              by_contra hlt
              exact hr ⟨hs, by simp [hb]; omega⟩
          · exact h3 d hd hs

theorem best_eq_foldl (t : EgressTracker cap) : t.best = ((List.finRange cap).map t.slots).foldl better none := by
  rw [List.foldl_map]
  rfl

theorem mem_slots {t : EgressTracker cap} {r : EgressRecord} :
    some r ∈ (List.finRange cap).map t.slots ↔ ∃ i, t.slots i = some r := by
  simp

/-- Some slot holds a record `STARTED` with this seq. -/
def Started (seq : Nat) (t : EgressTracker cap) : Prop := ∃ i r, t.slots i = some r ∧ r.phase = .started ∧ r.seq = seq

/-- **What `outstanding` finds**: a slot `STARTED` with the highest seq of all such. -/
theorem best_spec {t : EgressTracker cap} {o : Outstanding} (h : t.best = some o) :
    (∃ i, t.slots i = some ⟨o.logIndex, o.sequence, .started⟩) ∧ ∀ seq, t.Started seq → seq ≤ o.sequence := by
  rw [best_eq_foldl] at h
  obtain ⟨h1, -, h3⟩ := (foldl_better _ none).2 o h
  constructor
  · rcases h1 with h1 | ⟨r, hr, hs, rfl⟩
    · cases h1
    · obtain ⟨i, hi⟩ := mem_slots.1 hr
      exact ⟨i, by rw [hi, ← hs]⟩
  · rintro seq ⟨i, r, hi, hs, rfl⟩
    exact h3 r (mem_slots.2 ⟨i, hi⟩) hs

theorem best_eq_none {t : EgressTracker cap} (h : t.best = none) (seq : Nat) : ¬ t.Started seq := by
  rintro ⟨i, r, hi, hs, rfl⟩
  rw [best_eq_foldl] at h
  exact ((foldl_better _ none).1 h).2 r (mem_slots.2 ⟨i, hi⟩) hs

theorem slotOf_eq_some {t : EgressTracker cap} {seq : Nat} {i : Fin cap} (h : t.slotOf seq = some i) :
    ∃ r, t.slots i = some r ∧ r.seq = seq := by
  have := List.find?_some h
  cases hr : t.slots i with
  | none => simp [hr] at this
  | some r => exact ⟨r, rfl, by simpa [hr] using this⟩

theorem slotOf_eq_none {t : EgressTracker cap} {seq : Nat} (h : t.slotOf seq = none) {i : Fin cap} {r : EgressRecord}
    (hr : t.slots i = some r) : r.seq ≠ seq := by
  have := List.find?_eq_none.1 h i (List.mem_finRange i)
  simpa [hr] using this

/-! ## One operation -/

theorem onApply_nextSeq {t : EgressTracker cap} {rec : EgressRecord} (h : rec.seq + 1 < 2 ^ 32) :
    (t.onApply rec).nextSeq = max t.nextSeq (rec.seq + 1) := by
  have hadd : add32 rec.seq 1 = rec.seq + 1 := Nat.mod_eq_of_lt h
  have hnext : (t.onApply rec).nextSeq = if t.nextSeq ≤ rec.seq then add32 rec.seq 1 else t.nextSeq := by
    unfold onApply
    dsimp only
    split <;> rfl
  rw [hnext, hadd]
  split <;> omega

/-- **What `on_apply` does to the ring**: it claims a slot for a seq that had none, or changes the phase of the one it
had. -/
theorem onApply_slots (t : EgressTracker cap) (rec : EgressRecord) :
    (t.slotOf rec.seq = none ∧ (t.onApply rec).slots = Function.update t.slots t.head (some rec)) ∨
    ∃ i r, t.slots i = some r ∧ r.seq = rec.seq ∧
      (t.onApply rec).slots = Function.update t.slots i (some { r with phase := rec.phase }) := by
  have hslot : ∀ n, slotOf rec.seq { t with nextSeq := n } = t.slotOf rec.seq := fun _ => rfl
  unfold onApply
  simp only [hslot]
  cases hs : t.slotOf rec.seq with
  | none => exact .inl ⟨rfl, rfl⟩
  | some i =>
    obtain ⟨r, hr, hseq⟩ := slotOf_eq_some hs
    exact .inr ⟨i, r, hr, hseq, by simp [hr]⟩

@[simp] theorem outstanding_slots (t : EgressTracker cap) : t.outstanding.2.slots = t.slots := by
  unfold outstanding
  split <;> rfl

theorem outstanding_nextSeq (t : EgressTracker cap) :
    t.outstanding.2.nextSeq = match t.best with
      | none => t.nextSeq
      | some o => add32 o.sequence 1 := by
  unfold outstanding
  split <;> simp_all

/-- Slots of different seqs: a seq is tracked once. -/
def Distinct (t : EgressTracker cap) : Prop :=
  ∀ i j r d, t.slots i = some r → t.slots j = some d → r.seq = d.seq → i = j

theorem Distinct.onApply {t : EgressTracker cap} (h : t.Distinct) (rec : EgressRecord) : (t.onApply rec).Distinct := by
  intro i j r d hi hj hseq
  rcases onApply_slots t rec with ⟨hnone, hs⟩ | ⟨k, e, hk, he, hs⟩
  · rw [hs, Function.update_apply] at hi hj
    split at hi <;> split at hj
    · rename_i h1 h2
      rw [h1, h2]
    · injection hi with hi
      exact absurd (hseq.symm.trans (by rw [← hi])) (slotOf_eq_none hnone hj)
    · injection hj with hj
      exact absurd (hseq.trans (by rw [← hj])) (slotOf_eq_none hnone hi)
    · exact h i j r d hi hj hseq
  · -- Only the phase of one slot changes, so each slot is one from before with the same seq.
    have hold : ∀ i r, (t.onApply rec).slots i = some r → ∃ r', t.slots i = some r' ∧ r'.seq = r.seq := by
      intro i r hi
      rw [hs, Function.update_apply] at hi
      split at hi
      · rename_i hik
        injection hi with hi
        exact ⟨e, by rw [hik, hk], by rw [← hi]⟩
      · exact ⟨r, hi, rfl⟩
    obtain ⟨r', hr', h1⟩ := hold i r hi
    obtain ⟨d', hd', h2⟩ := hold j d hj
    exact h i j r' d' hr' hd' (by omega)

/-- A record of another seq starts nothing. -/
theorem started_onApply {t : EgressTracker cap} {rec : EgressRecord} {seq : Nat} (h : (t.onApply rec).Started seq)
    (hne : rec.seq ≠ seq) : t.Started seq := by
  obtain ⟨i, r, hi, hs, hseq⟩ := h
  rcases onApply_slots t rec with ⟨-, hu⟩ | ⟨k, e, hk, he, hu⟩
  · rw [hu, Function.update_apply] at hi
    split at hi
    · injection hi with hi
      exact absurd (hi ▸ hseq) hne
    · exact ⟨i, r, hi, hs, hseq⟩
  · rw [hu, Function.update_apply] at hi
    split at hi
    · injection hi with hi
      subst hi
      exact absurd (he.symm.trans hseq) hne
    · exact ⟨i, r, hi, hs, hseq⟩

/-! ## Histories -/

/-- What happens to a tracker: a record comes back through the log, or the node becomes leader. -/
inductive Op where
  | apply (rec : EgressRecord)
  | lead

def step (t : EgressTracker cap) : Op → EgressTracker cap
  | .apply rec => t.onApply rec
  | .lead => t.outstanding.2

def run (t : EgressTracker cap) (ops : List Op) : EgressTracker cap := ops.foldl step t

def applied (ops : List Op) : List EgressRecord :=
  ops.filterMap (fun op => match op with | .apply rec => some rec | .lead => none)

/-- Just above every seq. -/
def high : List EgressRecord → Nat
  | [] => 0
  | r :: rs => max (r.seq + 1) (high rs)

@[simp] theorem applied_append (xs ys : List Op) : applied (xs ++ ys) = applied xs ++ applied ys :=
  List.filterMap_append

@[simp] theorem applied_lead (ops : List Op) : applied (.lead :: ops) = applied ops := rfl

@[simp] theorem applied_apply (rec : EgressRecord) (ops : List Op) : applied (.apply rec :: ops) = rec :: applied ops := rfl

@[simp] theorem applied_nil : applied [] = [] := rfl

@[simp] theorem high_append : ∀ xs ys : List EgressRecord, high (xs ++ ys) = max (high xs) (high ys)
  | [], ys => by simp [high]
  | x :: xs, ys => by simp only [List.cons_append, high, high_append xs ys]; omega

theorem lt_high : ∀ {rs : List EgressRecord} {r : EgressRecord}, r ∈ rs → r.seq < high rs
  | x :: xs, r, h => by
    simp only [high]
    rcases List.mem_cons.1 h with h | h
    · subst h
      omega
    · have := lt_high h
      omega

/-- The highest seq is that of some record. -/
theorem exists_high : ∀ {rs : List EgressRecord}, 0 < high rs → ∃ r ∈ rs, r.seq + 1 = high rs
  | x :: xs, h => by
    simp only [high] at h ⊢
    by_cases hx : high xs ≤ x.seq + 1
    · exact ⟨x, by simp, by omega⟩
    · obtain ⟨r, hr, heq⟩ := exists_high (show 0 < high xs by omega)
      exact ⟨r, by simp [hr], by omega⟩

theorem run_append (t : EgressTracker cap) (xs ys : List Op) : t.run (xs ++ ys) = (t.run xs).run ys := List.foldl_append

theorem distinct_run (hcap : 0 < cap) (ops : List Op) : ((empty cap hcap).run ops).Distinct := by
  have hstep : ∀ (ops : List Op) (t : EgressTracker cap), t.Distinct → (t.run ops).Distinct := by
    intro ops
    induction ops with
    | nil => exact fun t h => h
    | cons op ops ih =>
      intro t h
      refine ih _ ?_
      cases op with
      | apply rec => exact h.onApply rec
      | lead =>
        intro i j r d
        simpa [step] using h i j r d
  exact hstep ops _ (fun i j r d h => (by cases h))

theorem started_run {seq : Nat} : ∀ (ops : List Op) {t : EgressTracker cap}, (t.run ops).Started seq →
    (∀ r ∈ applied ops, r.seq ≠ seq) → t.Started seq
  | [], _, h, _ => h
  | .lead :: ops, t, h, hno => by
    have := started_run ops (show ((t.step .lead).run ops).Started seq from h) hno
    simpa [Started, step] using this
  | .apply rec :: ops, t, h, hno => by
    simp only [applied_apply, List.mem_cons, forall_eq_or_imp] at hno
    exact started_onApply (started_run ops h hno.2) hno.1

section

variable (hcap : 0 < cap)

/-- A tracker knows no seq that was not applied. -/
theorem run_bounds (ops : List Op) (hseq : ∀ r ∈ applied ops, r.seq < 2 ^ 32 - 1) :
    (∀ i r, ((empty cap hcap).run ops).slots i = some r → r.seq < high (applied ops)) ∧
      ((empty cap hcap).run ops).nextSeq ≤ high (applied ops) := by
  induction ops using List.reverseRecOn with
  | nil => exact ⟨fun i r h => (by cases h), Nat.le_refl _⟩
  | append_singleton ops op ih =>
    have hold : ∀ r ∈ applied ops, r.seq < 2 ^ 32 - 1 := fun r hr => hseq r (by simp [hr])
    obtain ⟨h1, h2⟩ := ih hold
    rw [run_append]
    cases op with
    | apply rec =>
      have hrec : rec.seq < 2 ^ 32 - 1 := hseq rec (by simp)
      have hhigh : high (applied (ops ++ [.apply rec])) = max (high (applied ops)) (rec.seq + 1) := by simp [high]
      rw [hhigh]
      constructor
      · intro i r hi
        change (onApply rec _).slots i = some r at hi
        rcases onApply_slots ((empty cap hcap).run ops) rec with ⟨-, hu⟩ | ⟨k, e, hk, he, hu⟩
        · rw [hu, Function.update_apply] at hi
          split at hi
          · injection hi with hi
            rw [← hi]
            omega
          · have := h1 i r hi
            omega
        · rw [hu, Function.update_apply] at hi
          split at hi
          · injection hi with hi
            have hseq : r.seq = rec.seq := by rw [← hi]; exact he
            omega
          · have := h1 i r hi
            omega
      · show (onApply rec _).nextSeq ≤ _
        rw [onApply_nextSeq (by omega)]
        omega
    | lead =>
      have hhigh : high (applied (ops ++ [.lead])) = high (applied ops) := by simp
      rw [hhigh]
      refine ⟨fun i r hi => h1 i r (by simpa [run, step] using hi), ?_⟩
      show (outstanding _).2.nextSeq ≤ _
      rw [outstanding_nextSeq]
      cases hb : ((empty cap hcap).run ops).best with
      | none => exact h2
      | some o =>
        obtain ⟨i, hi⟩ := (best_spec hb).1
        have hlt : o.sequence < high (applied ops) := h1 i _ hi
        have hadd : add32 o.sequence 1 ≤ o.sequence + 1 := Nat.mod_le _ _
        show add32 o.sequence 1 ≤ high (applied ops)
        omega

/-- **When the tracker is as its records say**: wherever the node became leader and the highest `STARTED` seq in the
ring was below the highest seq applied, a record at least as high as that came back later. -/
def Restored (ops : List Op) : Prop :=
  ∀ pre post o, ops = pre ++ .lead :: post → ((empty cap hcap).run pre).best = some o →
    o.sequence + 1 < high (applied pre) → ∃ r ∈ applied post, high (applied pre) ≤ r.seq + 1

variable {hcap}

theorem restored_apply {ops : List Op} {rec : EgressRecord} :
    Restored hcap (ops ++ [.apply rec]) ↔ Restored hcap ops ∨ high (applied ops) ≤ rec.seq + 1 := by
  constructor
  · intro h
    by_cases hle : high (applied ops) ≤ rec.seq + 1
    · exact .inr hle
    left
    intro pre post o heq hb hstale
    obtain ⟨r, hr, hge⟩ := h pre (post ++ [.apply rec]) o (by simp [heq]) hb hstale
    simp only [applied_append, applied_apply, applied_nil, List.mem_append, List.mem_singleton] at hr
    rcases hr with hr | rfl
    · exact ⟨r, hr, hge⟩
    · -- The highest record is after the change of leader, then.
      rw [heq] at hle
      simp only [applied_append, applied_lead, high_append] at hle
      obtain ⟨d, hd, hdh⟩ := exists_high (show 0 < high (applied post) by omega)
      exact ⟨d, hd, by omega⟩
  · intro h pre post o heq hb hstale
    have hlast : ∃ post', post = post' ++ [.apply rec] ∧ ops = pre ++ .lead :: post' := by
      rcases List.eq_nil_or_concat post with rfl | ⟨post', op, rfl⟩
      · simpa using congrArg List.getLast? heq
      · rw [List.concat_eq_append] at heq ⊢
        rw [show pre ++ Op.lead :: (post' ++ [op]) = (pre ++ Op.lead :: post') ++ [op] by simp] at heq
        obtain ⟨h1, h2⟩ := List.append_inj' heq rfl
        exact ⟨post', by rw [h2], h1⟩
    obtain ⟨post', rfl, hops⟩ := hlast
    rcases h with h | h
    · obtain ⟨r, hr, hge⟩ := h pre post' o hops hb hstale
      exact ⟨r, by simp [hr], hge⟩
    · refine ⟨rec, by simp, ?_⟩
      rw [hops] at h
      simp only [applied_append, applied_lead, high_append] at h
      omega

theorem restored_lead {ops : List Op} :
    Restored hcap (ops ++ [.lead]) ↔ Restored hcap ops ∧
      ∀ o, ((empty cap hcap).run ops).best = some o → high (applied ops) ≤ o.sequence + 1 := by
  constructor
  · intro h
    constructor
    · intro pre post o heq hb hstale
      obtain ⟨r, hr, hge⟩ := h pre (post ++ [.lead]) o (by simp [heq]) hb hstale
      exact ⟨r, by simpa using hr, hge⟩
    · intro o hb
      by_contra hstale
      obtain ⟨r, hr, -⟩ := h ops [] o rfl hb (by omega)
      cases hr
  · rintro ⟨h, hlast⟩ pre post o heq hb hstale
    rcases List.eq_nil_or_concat post with rfl | ⟨post', op, rfl⟩
    · obtain ⟨h1, -⟩ := List.append_inj' heq rfl
      rw [h1] at hlast
      exact absurd (hlast o hb) (by omega)
    · rw [List.concat_eq_append] at heq ⊢
      rw [show pre ++ Op.lead :: (post' ++ [op]) = (pre ++ Op.lead :: post') ++ [op] by simp] at heq
      obtain ⟨h1, h2⟩ := List.append_inj' heq rfl
      obtain ⟨r, hr, hge⟩ := h pre post' o h1 hb hstale
      exact ⟨r, by simp [hr], hge⟩

/-- A `STARTED` record with the highest seq of all is still in the ring, so nothing was missed before. -/
theorem restored_of_best {ops : List Op} {o : Outstanding} (hb : ((empty cap hcap).run ops).best = some o)
    (hhigh : high (applied ops) ≤ o.sequence + 1) : Restored hcap ops := by
  intro pre post o' heq hb' hstale
  by_contra hno
  have hlow : ∀ r ∈ applied post, r.seq ≠ o.sequence := by
    intro r hr hseq
    refine hno ⟨r, hr, ?_⟩
    rw [heq] at hhigh
    simp only [applied_append, applied_lead, high_append] at hhigh
    omega
  have hstarted : ((empty cap hcap).run pre).Started o.sequence := by
    obtain ⟨i, hi⟩ := (best_spec hb).1
    have hend : ((empty cap hcap).run ops).Started o.sequence := ⟨i, _, hi, rfl, rfl⟩
    rw [heq, run_append] at hend
    exact started_run (.lead :: post) hend hlow
  have hle := (best_spec hb').2 _ hstarted
  rw [heq] at hhigh
  simp only [applied_append, applied_lead, high_append] at hhigh
  omega

/-- **The next seq is just above every seq applied, exactly when** `Restored`. -/
theorem nextSeq_eq_high_iff (ops : List Op) (hseq : ∀ r ∈ applied ops, r.seq < 2 ^ 32 - 1) :
    ((empty cap hcap).run ops).nextSeq = high (applied ops) ↔ Restored hcap ops := by
  induction ops using List.reverseRecOn with
  | nil =>
    refine ⟨fun _ pre post o heq => ?_, fun _ => rfl⟩
    simp at heq
  | append_singleton ops op ih =>
    have hold : ∀ r ∈ applied ops, r.seq < 2 ^ 32 - 1 := fun r hr => hseq r (by simp [hr])
    obtain ⟨hring, hle⟩ := run_bounds hcap ops hold
    cases op with
    | apply rec =>
      have hrec : rec.seq < 2 ^ 32 - 1 := hseq rec (by simp)
      have hnext : ((empty cap hcap).run (ops ++ [.apply rec])).nextSeq =
          max ((empty cap hcap).run ops).nextSeq (rec.seq + 1) := by
        rw [run_append]
        exact onApply_nextSeq (by omega)
      have hhigh : high (applied (ops ++ [.apply rec])) = max (high (applied ops)) (rec.seq + 1) := by simp [high]
      rw [restored_apply, ← ih hold, hnext, hhigh]
      omega
    | lead =>
      have hhigh : high (applied (ops ++ [.lead])) = high (applied ops) := by simp
      have hnext : ((empty cap hcap).run (ops ++ [.lead])).nextSeq = ((empty cap hcap).run ops).outstanding.2.nextSeq := by
        rw [run_append]
        rfl
      rw [outstanding_nextSeq] at hnext
      rw [restored_lead, hnext, hhigh]
      cases hb : ((empty cap hcap).run ops).best with
      | none => simpa [hb] using ih hold
      | some o =>
        obtain ⟨i, hi⟩ := (best_spec hb).1
        have hlt : o.sequence < high (applied ops) := hring i _ hi
        obtain ⟨r, hr, hrh⟩ := exists_high (show 0 < high (applied ops) by omega)
        have hadd : add32 o.sequence 1 = o.sequence + 1 := by
          have := hold r hr
          exact Nat.mod_eq_of_lt (by omega)
        dsimp only
        rw [hadd]
        constructor
        · intro heq
          refine ⟨restored_of_best hb (by omega), ?_⟩
          rintro o' ⟨⟩
          omega
        · rintro ⟨-, h⟩
          have := h o rfl
          omega

end

/-- **Two trackers with one history of records agree on the next seq, above every seq applied, exactly when** both are
`Restored`. -/
theorem next_seq_determined_iff (hcap : 0 < cap) (xs ys : List Op) (heq : applied xs = applied ys)
    (hseq : ∀ r ∈ applied xs, r.seq < 2 ^ 32 - 1) :
    (((empty cap hcap).run xs).nextSeq = ((empty cap hcap).run ys).nextSeq ∧
      ∀ r ∈ applied xs, r.seq < ((empty cap hcap).run xs).nextSeq) ↔ Restored hcap xs ∧ Restored hcap ys := by
  have hseq' : ∀ r ∈ applied ys, r.seq < 2 ^ 32 - 1 := heq ▸ hseq
  rw [← nextSeq_eq_high_iff xs hseq, ← nextSeq_eq_high_iff ys hseq', ← heq]
  constructor
  · rintro ⟨hsame, hall⟩
    have hle := (run_bounds hcap xs hseq).2
    have hge : high (applied xs) ≤ ((empty cap hcap).run xs).nextSeq := by
      by_contra hlt
      obtain ⟨r, hr, hrh⟩ := exists_high (show 0 < high (applied xs) by omega)
      have := hall r hr
      omega
    omega
  · rintro ⟨hx, hy⟩
    refine ⟨by omega, fun r hr => ?_⟩
    rw [hx]
    exact lt_high hr

/-- Of two nodes with the same records, one became leader when seq 1 had started, the other when seq 2 had. -/
theorem next_seq_determined_two :
    let recs : List Op := [.apply ⟨7, 0, .started⟩, .apply ⟨7, 0, .sent⟩, .apply ⟨8, 1, .started⟩]
    let more : List Op := [.apply ⟨8, 1, .sent⟩, .apply ⟨9, 2, .started⟩]
    Restored (show 0 < 4 by decide) (recs ++ .lead :: more) ∧ Restored (show 0 < 4 by decide) (recs ++ more ++ [.lead]) := by
  intro recs more
  exact (next_seq_determined_iff (show 0 < 4 by decide) (recs ++ .lead :: more) (recs ++ more ++ [.lead]) rfl
    (by decide)).1 (by decide)

/-- **Seq 0 is in flight when seq 1 is sent and confirmed**: the node that becomes leader goes back to seq 1. -/
theorem next_seq_set_back_by_leader :
    let recs : List Op := [.apply ⟨7, 0, .started⟩, .apply ⟨8, 1, .started⟩, .apply ⟨8, 1, .sent⟩]
    ((empty 4 (by decide)).run recs).nextSeq = 2 ∧ ((empty 4 (by decide)).run (recs ++ [.lead])).nextSeq = 1 ∧
      applied recs = applied (recs ++ [.lead]) := by
  decide

end EgressTracker
end Egress
end FloodEws
