import FloodEws.Runs
import FloodEws.Tracker
/-!
# Egress — one uplink per batch

The `EgressCoordinator` of a fog node: the leader gives each batch that is committed a sequence number, commits a
`STARTED` record for it and hands the batch to the modem; a node that becomes leader sends again what its predecessor
left unconfirmed.  The gateway drops a sequence number it has seen, so one number must stand for one batch.

It does as long as a batch only gets its number when the records of all earlier ones are back (`seq_identifies_batch`):
two batches applied in one go get the same number.  And only one of the unconfirmed uplinks is sent again
(`resent_iff`).
-/
namespace FloodEws
namespace Egress

open Raft (Entry Byte)

/-- What the hooks answer while one event is handled.  An entry read from the log is the one at that index. -/
structure Hooks where
  isLeader : Bool
  submitEgress : EgressRecord → Bool
  readEntry : Nat → Option Entry
  read_index : ∀ i e, readEntry i = some e → e.index = i

/-- The calls of the hooks that others see. -/
inductive Call where
  | submitEgress (rec : EgressRecord) (accepted : Bool)
  | lorawanSend (batch : List Byte) (term index seq : Nat)
deriving DecidableEq

/-- The coordinator, and the calls it has made, newest first. -/
structure EgressCoordinator (cap : Nat) where
  tracker : EgressTracker cap
  calls : List Call

/-- What the application tells the coordinator: an entry was applied, the node became leader, or the modem is done. -/
inductive Event where
  | sensorData (index : Nat)
  | egressMsg (rec : EgressRecord)
  | becameLeader
  | lorawanOk (seq batchIndex : Nat)

namespace EgressCoordinator

section

-- `size` is `sizeof(BatchT)`.
variable {cap : Nat} (size : Nat) (hooks : Hooks)

def submit (rec : EgressRecord) (c : EgressCoordinator cap) : EgressCoordinator cap :=
  { c with calls := .submitEgress rec (hooks.submitEgress rec) :: c.calls }

def onEgressApplied (rec : EgressRecord) (c : EgressCoordinator cap) : EgressCoordinator cap :=
  { c with tracker := c.tracker.onApply rec }

def onLorawanOk (seq batchIndex : Nat) (c : EgressCoordinator cap) : EgressCoordinator cap :=
  c.submit hooks ⟨batchIndex, seq, .sent⟩

/-- Read a batch from the log and send it.  One that is lost from the log is done with; one that is too short is left. -/
def dispatch (seq batchIndex : Nat) (c : EgressCoordinator cap) : EgressCoordinator cap :=
  match hooks.readEntry batchIndex with
  | none => c.onLorawanOk hooks seq batchIndex
  | some entry =>
    if entry.dataLen < size then c
    else { c with calls := .lorawanSend (entry.data.take size) entry.term entry.index seq :: c.calls }

def beginEgress (batchIndex : Nat) (c : EgressCoordinator cap) : EgressCoordinator cap :=
  if !hooks.isLeader then c
  else
    let seq := c.tracker.nextSeq
    let started : EgressRecord := ⟨batchIndex, seq, .started⟩
    let c := c.submit hooks started
    if !hooks.submitEgress started then c else c.dispatch size hooks seq batchIndex

def onBecameLeader (c : EgressCoordinator cap) : EgressCoordinator cap :=
  match c.tracker.outstanding with
  | (none, tracker) => { c with tracker := tracker }
  | (some o, tracker) => { c with tracker := tracker }.dispatch size hooks o.sequence o.logIndex

def handle (c : EgressCoordinator cap) : Event → EgressCoordinator cap
  | .sensorData index => c.beginEgress size hooks index
  | .egressMsg rec => c.onEgressApplied rec
  | .becameLeader => c.onBecameLeader size hooks
  | .lorawanOk seq batchIndex => c.onLorawanOk hooks seq batchIndex

end

variable {cap : Nat}

/-- A coordinator from its construction on: any event may come next, with any answers of the hooks. -/
def sys (cap : Nat) (hcap : 0 < cap) (size : Nat) : Sys (EgressCoordinator cap) (Hooks × Event) where
  init := ⟨.empty cap hcap, []⟩
  enabled := fun _ _ => True
  exec := fun c a => c.handle size a.1 a.2

/-- The batch at `index` was sent under `seq`. -/
def Sent (c : EgressCoordinator cap) (seq index : Nat) : Prop := ∃ batch term, .lorawanSend batch term index seq ∈ c.calls

/-- **When an event keeps seqs and batches apart.**  A leader starts a batch only when each `STARTED` record it had
accepted is below the next seq; an applied record does not give a seq that was sent to another batch, and does not wrap
the counter; a node that becomes leader finds the highest seq applied in flight, or none. -/
def Apart (c : EgressCoordinator cap) : Hooks × Event → Prop
  | (hooks, .sensorData _) => hooks.isLeader = true →
      ∀ rec, .submitEgress rec true ∈ c.calls → rec.phase = .started → rec.seq < c.tracker.nextSeq
  | (_, .egressMsg rec) => rec.seq + 1 < 2 ^ 32 ∧ ∀ index, c.Sent rec.seq index → index = rec.batchLogIndex
  | (_, .becameLeader) => ∀ o, c.tracker.best = some o → o.sequence + 1 = c.tracker.nextSeq
  | (_, .lorawanOk _ _) => True

/-! ## What each call does -/

/-- The batch can be read back from the log. -/
def Readable (size : Nat) (hooks : Hooks) (index : Nat) : Prop := ∃ e, hooks.readEntry index = some e ∧ size ≤ e.dataLen

theorem sent_cons {c c' : EgressCoordinator cap} {call : Call} (h : c'.calls = call :: c.calls) {seq index : Nat} :
    c'.Sent seq index ↔ (∃ batch term, call = .lorawanSend batch term index seq) ∨ c.Sent seq index := by
  unfold Sent
  rw [h]
  constructor
  · rintro ⟨batch, term, hmem⟩
    rcases List.mem_cons.1 hmem with hmem | hmem
    · exact .inl ⟨batch, term, hmem.symm⟩
    · exact .inr ⟨batch, term, hmem⟩
  · rintro (⟨batch, term, rfl⟩ | ⟨batch, term, hmem⟩)
    · exact ⟨batch, term, by simp⟩
    · exact ⟨batch, term, by simp [hmem]⟩

@[simp] theorem sent_submit {c : EgressCoordinator cap} {hooks : Hooks} {rec : EgressRecord} {seq index : Nat} :
    (c.submit hooks rec).Sent seq index ↔ c.Sent seq index := by
  rw [sent_cons (c := c) rfl]
  simp

/-- **What `dispatch` calls**: the modem, if the batch can be read; else it may commit a `SENT` record. -/
theorem dispatch_cases (size : Nat) (hooks : Hooks) (seq index : Nat) (c : EgressCoordinator cap) :
    (∃ batch term, Readable size hooks index ∧
      c.dispatch size hooks seq index = { c with calls := .lorawanSend batch term index seq :: c.calls }) ∨
    (¬ Readable size hooks index ∧ (c.dispatch size hooks seq index = c ∨
      c.dispatch size hooks seq index = c.submit hooks ⟨index, seq, .sent⟩)) := by
  unfold dispatch Readable
  cases hr : hooks.readEntry index with
  | none => exact .inr ⟨by simp, .inr rfl⟩
  | some e =>
    have hindex := hooks.read_index index e hr
    by_cases hlen : e.dataLen < size
    · simp only [hlen, if_true]
      refine .inr ⟨?_, .inl trivial⟩
      rintro ⟨d, ⟨⟩, hd⟩
      omega
    · simp only [hlen, if_false]
      exact .inl ⟨_, _, ⟨e, rfl, by omega⟩, by rw [hindex]⟩

theorem dispatch_tracker (size : Nat) (hooks : Hooks) (seq index : Nat) (c : EgressCoordinator cap) :
    (c.dispatch size hooks seq index).tracker = c.tracker := by
  rcases dispatch_cases size hooks seq index c with ⟨_, _, -, h⟩ | ⟨-, h | h⟩ <;> rw [h]
  rfl

theorem mem_dispatch {size : Nat} {hooks : Hooks} {seq index : Nat} {c : EgressCoordinator cap} {call : Call}
    (h : call ∈ c.calls) : call ∈ (c.dispatch size hooks seq index).calls := by
  rcases dispatch_cases size hooks seq index c with ⟨_, _, -, h'⟩ | ⟨-, h' | h'⟩ <;> rw [h']
  · exact List.mem_cons_of_mem _ h
  · exact h
  · exact List.mem_cons_of_mem _ h

theorem sent_dispatch {size : Nat} {hooks : Hooks} {seq index s i : Nat} {c : EgressCoordinator cap} :
    (c.dispatch size hooks seq index).Sent s i ↔ (s = seq ∧ i = index ∧ Readable size hooks index) ∨ c.Sent s i := by
  rcases dispatch_cases size hooks seq index c with ⟨batch, term, hr, h⟩ | ⟨hr, h | h⟩
  · rw [h, sent_cons (c := c) rfl]
    simp [hr, and_comm, eq_comm]
  · simp [h, hr]
  · simp [h, hr]

theorem onBecameLeader_eq (size : Nat) (hooks : Hooks) (c : EgressCoordinator cap) :
    c.onBecameLeader size hooks = match c.tracker.best with
      | none => c
      | some o => { c with tracker := c.tracker.outstanding.2 }.dispatch size hooks o.sequence o.logIndex := by
  unfold onBecameLeader EgressTracker.outstanding
  cases c.tracker.best <;> rfl

/-! ## One seq, one batch -/

/-- What keeps seqs and batches apart: the ring and the sends know one batch for each seq, and every seq in use is below
the next one, or its `STARTED` record is on its way. -/
structure Keyed (c : EgressCoordinator cap) : Prop where
  fits : c.tracker.nextSeq < 2 ^ 32
  distinct : c.tracker.Distinct
  below : ∀ i r, c.tracker.slots i = some r → r.seq < c.tracker.nextSeq
  used : ∀ seq index, c.Sent seq index → seq < c.tracker.nextSeq ∨
    ∃ rec, .submitEgress rec true ∈ c.calls ∧ rec.phase = .started ∧ rec.seq = seq
  ring : ∀ i r index, c.tracker.slots i = some r → c.Sent r.seq index → index = r.batchLogIndex
  unique : ∀ seq i j, c.Sent seq i → c.Sent seq j → i = j

namespace Keyed

variable {c : EgressCoordinator cap} {size : Nat} {hooks : Hooks}

/-- More calls, but no more batches sent. -/
theorem frame {c' : EgressCoordinator cap} (h : c.Keyed) (ht : c'.tracker = c.tracker)
    (hcalls : ∀ call ∈ c.calls, call ∈ c'.calls) (hsent : ∀ seq index, c'.Sent seq index → c.Sent seq index) :
    c'.Keyed := by
  refine ⟨ht ▸ h.fits, ht ▸ h.distinct, ht ▸ h.below, ?_, ?_, fun seq i j hi hj => h.unique seq i j (hsent _ _ hi) (hsent _ _ hj)⟩
  · intro seq index hs
    rw [ht]
    rcases h.used seq index (hsent _ _ hs) with hlt | ⟨rec, hmem, hrec⟩
    · exact .inl hlt
    · exact .inr ⟨rec, hcalls _ hmem, hrec⟩
  · intro i r index hr hs
    rw [ht] at hr
    exact h.ring i r index hr (hsent _ _ hs)

theorem submit (h : c.Keyed) (rec : EgressRecord) : (c.submit hooks rec).Keyed :=
  h.frame rfl (fun _ hmem => List.mem_cons_of_mem _ hmem) (fun _ _ hs => sent_submit.1 hs)

/-- A batch is sent under a seq that no other batch has been sent under. -/
theorem dispatch {seq index : Nat} (h : c.Keyed) (hnew : ∀ i, c.Sent seq i → i = index)
    (hring : ∀ i r, c.tracker.slots i = some r → r.seq = seq → r.batchLogIndex = index)
    (hused : seq < c.tracker.nextSeq ∨ ∃ rec, .submitEgress rec true ∈ c.calls ∧ rec.phase = .started ∧ rec.seq = seq) :
    (c.dispatch size hooks seq index).Keyed := by
  have ht := dispatch_tracker size hooks seq index c
  refine ⟨ht ▸ h.fits, ht ▸ h.distinct, ht ▸ h.below, ?_, ?_, ?_⟩
  · intro s i hs
    rw [ht]
    have hold : s < c.tracker.nextSeq ∨ ∃ rec, .submitEgress rec true ∈ c.calls ∧ rec.phase = .started ∧ rec.seq = s := by
      rcases sent_dispatch.1 hs with ⟨rfl, -, -⟩ | hs
      · exact hused
      · exact h.used s i hs
    rcases hold with hlt | ⟨rec, hmem, hrec⟩
    · exact .inl hlt
    · exact .inr ⟨rec, mem_dispatch hmem, hrec⟩
  · intro i r j hr hs
    rw [ht] at hr
    rcases sent_dispatch.1 hs with ⟨hseq, rfl, -⟩ | hs
    · exact (hring i r hr hseq).symm
    · exact h.ring i r j hr hs
  · intro s i j hi hj
    rcases sent_dispatch.1 hi with ⟨hs, hi, -⟩ | hi <;> rcases sent_dispatch.1 hj with ⟨hs', hj, -⟩ | hj
    · rw [hi, hj]
    · rw [hi, hnew j (hs ▸ hj)]
    · rw [hj, hnew i (hs' ▸ hi)]
    · exact h.unique s i j hi hj

theorem beginEgress {index : Nat} (h : c.Keyed) (hok : Apart c (hooks, .sensorData index)) :
    (c.beginEgress size hooks index).Keyed := by
  unfold EgressCoordinator.beginEgress
  cases hl : hooks.isLeader with
  | false => exact h
  | true =>
    simp only [Bool.not_true, Bool.false_eq_true, if_false]
    cases ha : hooks.submitEgress ⟨index, c.tracker.nextSeq, .started⟩ with
    | false => exact h.submit _
    | true =>
      simp only [Bool.not_true, Bool.false_eq_true, if_false]
      -- Every seq that was sent is below the next one by now.
      have hall : ∀ s i, c.Sent s i → s < c.tracker.nextSeq := by
        intro s i hs
        rcases h.used s i hs with hlt | ⟨rec, hmem, hst, rfl⟩
        · exact hlt
        · exact hok hl rec hmem hst
      refine (h.submit _).dispatch ?_ ?_ (.inr ⟨⟨index, c.tracker.nextSeq, .started⟩, ?_, rfl, rfl⟩)
      · intro i hs
        exact absurd (hall _ i (sent_submit.1 hs)) (Nat.lt_irrefl _)
      · intro i r hr hseq
        have := h.below i r hr
        omega
      · unfold EgressCoordinator.submit
        rw [ha]
        exact List.mem_cons_self

theorem onEgressApplied {rec : EgressRecord} (h : c.Keyed) (hok : Apart c (hooks, .egressMsg rec)) :
    (c.onEgressApplied rec).Keyed := by
  obtain ⟨hfit, hindex⟩ := hok
  have hnext := EgressTracker.onApply_nextSeq (t := c.tracker) hfit
  -- A slot after the record was there before, but for its phase, or is the record's own.
  have hslots : ∀ i r, (c.tracker.onApply rec).slots i = some r → r = rec ∨
      ∃ i' r', c.tracker.slots i' = some r' ∧ r'.seq = r.seq ∧ r'.batchLogIndex = r.batchLogIndex := by
    intro i r hr
    rcases EgressTracker.onApply_slots c.tracker rec with ⟨-, hu⟩ | ⟨k, e, hk, -, hu⟩
    · rw [hu, Function.update_apply] at hr
      split at hr
      · injection hr with hr
        exact .inl hr.symm
      · exact .inr ⟨i, r, hr, rfl, rfl⟩
    · rw [hu, Function.update_apply] at hr
      split at hr
      · injection hr with hr
        exact .inr ⟨k, e, hk, by rw [← hr], by rw [← hr]⟩
      · exact .inr ⟨i, r, hr, rfl, rfl⟩
  refine ⟨?_, h.distinct.onApply rec, ?_, ?_, ?_, h.unique⟩
  · show (c.tracker.onApply rec).nextSeq < 2 ^ 32
    have := h.fits
    omega
  · intro i r hr
    show r.seq < (c.tracker.onApply rec).nextSeq
    rw [hnext]
    rcases hslots i r hr with rfl | ⟨i', r', hr', hs, -⟩
    · omega
    · have := h.below i' r' hr'
      omega
  · intro s i hs
    show s < (c.tracker.onApply rec).nextSeq ∨ _
    rw [hnext]
    rcases h.used s i hs with hlt | hrec
    · exact .inl (by omega)
    · exact .inr hrec
  · intro i r j hr hs
    rcases hslots i r hr with rfl | ⟨i', r', hr', hseq, hidx⟩
    · exact hindex j hs
    · rw [← hidx]
      exact h.ring i' r' j hr' (by rw [hseq]; exact hs)

theorem onBecameLeader (h : c.Keyed) (hok : Apart c (hooks, .becameLeader)) : (c.onBecameLeader size hooks).Keyed := by
  rw [onBecameLeader_eq]
  cases hb : c.tracker.best with
  | none => exact h
  | some o =>
    have hnext := hok o hb
    obtain ⟨i, hi⟩ := (EgressTracker.best_spec hb).1
    have hback : c.tracker.outstanding.2.nextSeq = c.tracker.nextSeq := by
      rw [EgressTracker.outstanding_nextSeq, hb]
      have := h.fits
      exact (Nat.mod_eq_of_lt (by omega)).trans hnext
    have hlead : Keyed { c with tracker := c.tracker.outstanding.2 } := by
      refine ⟨hback ▸ h.fits, ?_, ?_, ?_, ?_, h.unique⟩
      · intro i j r d
        simpa using h.distinct i j r d
      · intro i r
        simpa [hback] using h.below i r
      · intro s i hs
        have := h.used s i hs
        simpa [hback] using this
      · intro i r j hr hs
        exact h.ring i r j (by simpa using hr) hs
    have hbelow : o.sequence < c.tracker.nextSeq := by omega
    refine hlead.dispatch (fun j hs => h.ring i _ j hi hs) ?_ (.inl (hback ▸ hbelow))
    intro k r hr hseq
    have hr : c.tracker.slots k = some r := by simpa using hr
    have hki := h.distinct k i r _ hr hi hseq
    subst hki
    rw [hi] at hr
    injection hr with hr
    rw [← hr]

theorem handle {ev : Event} (h : c.Keyed) (hok : Apart c (hooks, ev)) : (c.handle size hooks ev).Keyed := by
  cases ev with
  | sensorData index => exact h.beginEgress hok
  | egressMsg rec => exact h.onEgressApplied hok
  | becameLeader => exact h.onBecameLeader hok
  | lorawanOk seq index => exact h.submit _

theorem init (hcap : 0 < cap) : Keyed ⟨.empty cap hcap, []⟩ := by
  refine ⟨(by decide : (0 : Nat) < 2 ^ 32), fun i j r d h => (by cases h), fun i r h => (by cases h), ?_, ?_, ?_⟩
  · rintro s i ⟨b, t, h⟩
    cases h
  · rintro i r j h
    cases h
  · rintro s i j ⟨b, t, h⟩
    cases h

end Keyed

/-- **A seq identifies a batch**: in every run whose events keep seqs and batches apart, the modem is never handed two
batches under one seq. -/
theorem seq_identifies_batch (cap : Nat) (hcap : 0 < cap) (size : Nat) (c : EgressCoordinator cap)
    (h : (sys cap hcap size).Reachable Apart c) (batch batch' : List Byte) (term term' index index' seq : Nat)
    (hs : .lorawanSend batch term index seq ∈ c.calls) (hs' : .lorawanSend batch' term' index' seq ∈ c.calls) :
    index = index' := by
  have hkeyed : c.Keyed := h.invariant (Keyed.init hcap) (fun x a hx _ hok => hx.handle hok)
  exact hkeyed.unique seq index index' ⟨batch, term, hs⟩ ⟨batch', term', hs'⟩

/-- The leader whose log holds a batch of one byte at every index. -/
def leading : Hooks where
  isLeader := true
  submitEgress := fun _ => true
  readEntry := fun i => some { index := i, dataLen := 1, data := [0] }
  read_index := by
    rintro i e ⟨⟩
    rfl

/-- The first batch is sent, its record comes back, and the second one is sent. -/
theorem seq_identifies_batch_two :
    ∃ c : EgressCoordinator 4, (sys 4 (by decide) 1).Reachable Apart c ∧
      .lorawanSend [0] 0 5 0 ∈ c.calls ∧ .lorawanSend [0] 0 7 1 ∈ c.calls ∧
      ∀ batch term index, .lorawanSend batch term index 1 ∈ c.calls → index = 7 := by
  let c₀ : EgressCoordinator 4 := ⟨.empty 4 (by decide), []⟩
  let c₁ := c₀.handle 1 leading (.sensorData 5)
  let c₂ := c₁.handle 1 leading (.egressMsg ⟨5, 0, .started⟩)
  let c₃ := c₂.handle 1 leading (.sensorData 7)
  have h₁ : c₁.calls = [.lorawanSend [0] 0 5 0, .submitEgress ⟨5, 0, .started⟩ true] := by decide
  have h₂ : c₂.calls = c₁.calls := rfl
  have hn : c₂.tracker.nextSeq = 1 := by decide
  have ok₁ : Apart c₀ (leading, .sensorData 5) := fun _ rec hmem => (by cases hmem)
  have ok₂ : Apart c₁ (leading, .egressMsg ⟨5, 0, .started⟩) := by
    refine ⟨by decide, ?_⟩
    rintro index ⟨batch, term, hmem⟩
    rw [h₁] at hmem
    simp at hmem
    exact hmem.2.2
  have ok₃ : Apart c₂ (leading, .sensorData 7) := by
    intro _ rec hmem _
    rw [h₂, h₁] at hmem
    simp at hmem
    rw [hn, hmem]
    decide
  have hc : (sys 4 (by decide) 1).Reachable Apart c₃ :=
    .tail (.tail (.tail .refl ⟨_, trivial, ok₁, rfl⟩) ⟨_, trivial, ok₂, rfl⟩) ⟨_, trivial, ok₃, rfl⟩
  have hlast : .lorawanSend [0] 0 7 1 ∈ c₃.calls := by decide
  refine ⟨c₃, hc, by decide, hlast, ?_⟩
  intro batch term index hs
  exact seq_identifies_batch 4 (by decide) 1 c₃ hc batch [0] term 0 index 7 1 hs hlast

/-- **Two batches applied in one go are sent under one seq.** -/
theorem two_batches_one_seq :
    ∃ c : EgressCoordinator 4, (sys 4 (by decide) 1).Reachable Sys.always c ∧
      .lorawanSend [0] 0 5 0 ∈ c.calls ∧ .lorawanSend [0] 0 6 0 ∈ c.calls := by
  refine ⟨(sys 4 (by decide) 1).run [(leading, .sensorData 5), (leading, .sensorData 6)] _,
    Sys.reaches_run _ _ ⟨trivial, trivial, trivial, trivial, trivial⟩, by decide⟩

/-! ## What a new leader sends again -/

/-- How often the batch at `index` was sent under `seq`. -/
def sends (c : EgressCoordinator cap) (seq index : Nat) : Nat :=
  c.calls.countP (fun call => match call with
    | .lorawanSend _ _ i s => i == index && s == seq
    | .submitEgress _ _ => false)

/-- The latest record applied for `seq` is `STARTED`, for the batch at `index`. -/
def Unconfirmed (recs : List EgressRecord) (seq index : Nat) : Prop :=
  recs.reverse.find? (fun r => r.seq == seq) = some ⟨index, seq, .started⟩

theorem sends_dispatch (size : Nat) (hooks : Hooks) (seq index s i : Nat) (c : EgressCoordinator cap) :
    ((c.dispatch size hooks seq index).sends s i = c.sends s i + 1 ↔ s = seq ∧ i = index ∧ Readable size hooks index) := by
  rcases dispatch_cases size hooks seq index c with ⟨batch, term, hr, h⟩ | ⟨hr, h | h⟩
  · rw [h]
    simp only [sends, List.countP_cons]
    by_cases hsame : index = i ∧ seq = s
    · obtain ⟨rfl, rfl⟩ := hsame
      simp [hr]
    · have hno : ¬ (index == i && seq == s) = true := by simpa using hsame
      rw [if_neg hno]
      constructor
      · intro hf
        omega
      · rintro ⟨rfl, rfl, -⟩
        exact absurd ⟨rfl, rfl⟩ hsame
  · simp [h, hr]
  · rw [h]
    simp [sends, submit, hr]

/-- **Every unconfirmed uplink is sent once again exactly when** each one that can be read is still in the ring, for the
batch it was started for, and is the highest `STARTED` seq there: when there is only one, as a rule. -/
theorem resent_iff (cap : Nat) (hcap : 0 < cap) (size : Nat) (hooks : Hooks) (ops : List EgressTracker.Op)
    (calls : List Call) :
    let c : EgressCoordinator cap := ⟨(EgressTracker.empty cap hcap).run ops, calls⟩
    (∀ seq index, Unconfirmed (EgressTracker.applied ops) seq index → Readable size hooks index →
      (c.onBecameLeader size hooks).sends seq index = c.sends seq index + 1) ↔
    ∀ seq index, Unconfirmed (EgressTracker.applied ops) seq index → Readable size hooks index →
      (∃ i, c.tracker.slots i = some ⟨index, seq, .started⟩) ∧ ∀ s, c.tracker.Started s → s ≤ seq := by
  intro c
  refine forall_congr' (fun seq => forall_congr' (fun index => forall_congr' (fun _ => forall_congr' (fun hr => ?_))))
  have hdistinct : c.tracker.Distinct := EgressTracker.distinct_run hcap ops
  rw [onBecameLeader_eq]
  cases hb : c.tracker.best with
  | none =>
    constructor
    · intro hf
      simp at hf
    · rintro ⟨⟨i, hi⟩, -⟩
      exact absurd ⟨i, _, hi, rfl, rfl⟩ (EgressTracker.best_eq_none hb seq)
  | some o =>
    have hsends : ∀ t : EgressTracker cap, sends { c with tracker := t } seq index = c.sends seq index := fun _ => rfl
    obtain ⟨⟨i, hi⟩, hmax⟩ := EgressTracker.best_spec hb
    dsimp only
    rw [← hsends c.tracker.outstanding.2, sends_dispatch]
    constructor
    · rintro ⟨rfl, rfl, -⟩
      exact ⟨⟨i, hi⟩, hmax⟩
    · rintro ⟨⟨j, hj⟩, hle⟩
      have hseq : o.sequence = seq := by
        have h1 := hmax seq ⟨j, _, hj, rfl, rfl⟩
        have h2 := hle o.sequence ⟨i, _, hi, rfl, rfl⟩
        omega
      have hij := hdistinct i j _ _ hi hj hseq
      rw [hij, hj] at hi
      injection hi with hi
      injection hi with h1 h2
      exact ⟨h2, h1, h1 ▸ hr⟩

/-- A single unconfirmed uplink is sent again. -/
theorem resent_one :
    let c : EgressCoordinator 4 := ⟨(EgressTracker.empty 4 (by decide)).run [.apply ⟨5, 0, .started⟩], []⟩
    (c.onBecameLeader 1 leading).sends 0 5 = c.sends 0 5 + 1 := by
  refine (resent_iff 4 (by decide) 1 leading [.apply ⟨5, 0, .started⟩] []).2 ?_ 0 5 rfl ⟨_, rfl, by decide⟩
  intro seq index hun _
  have hone : index = 5 ∧ seq = 0 := by
    simp [Unconfirmed, EgressTracker.applied] at hun
    exact ⟨hun.2.1.symm, hun.1.symm⟩
  obtain ⟨rfl, rfl⟩ := hone
  refine ⟨⟨0, by decide⟩, ?_⟩
  rintro s ⟨i, r, hi, -, rfl⟩
  have hslots : ∀ i : Fin 4, ((EgressTracker.empty 4 (by decide)).run [.apply ⟨5, 0, .started⟩]).slots i = none ∨
      ((EgressTracker.empty 4 (by decide)).run [.apply ⟨5, 0, .started⟩]).slots i = some ⟨5, 0, .started⟩ := by decide
  rcases hslots i with h | h
  · rw [h] at hi
    cases hi
  · rw [h] at hi
    injection hi with hi
    rw [← hi]

/-- **Two uplinks are unconfirmed, and only the later one is sent again.** -/
theorem resends_only_the_highest :
    let ops : List EgressTracker.Op := [.apply ⟨5, 0, .started⟩, .apply ⟨6, 1, .started⟩]
    let c : EgressCoordinator 4 := ⟨(EgressTracker.empty 4 (by decide)).run ops, []⟩
    Unconfirmed (EgressTracker.applied ops) 0 5 ∧ Unconfirmed (EgressTracker.applied ops) 1 6 ∧
      Readable 1 leading 5 ∧ (c.onBecameLeader 1 leading).calls = [.lorawanSend [0] 0 6 1] :=
  ⟨rfl, rfl, ⟨_, rfl, by decide⟩, by decide⟩

end EgressCoordinator
end Egress
end FloodEws
