import FloodEws.Ballot
import FloodEws.Runs
/-!
# Cadence — when the collection windows close

`VoteService` closes a window each time its one-shot timer runs out and arms the timer again for the next multiple of the
window length.  Closing is not one step: the length is read under the lock, the batch is submitted and the timer armed
after it.  In between, other threads may feed readings, change the length or call `resync`.

The windows never stop, and every timer runs out at a multiple of its length (`windows_go_on`).  A change of the length
followed by `resync` takes effect exactly if no close is under way that has read another length (`resync_takes_iff`):
such a close arms the timer once more for the old one.  The batches that are submitted report what was received in their
windows, and their alert flags follow from the batches themselves (`submitted_batches`).
-/
namespace FloodEws
namespace Vote

/-! ## `VoteService` -/

/-- `OutlierVoteConfig::m_collection_window_ms`. -/
def collectionWindowMs : Nat := 300000

/-- How the one-shot timer was armed: the clock reading, the period it was computed for, and the delay. -/
structure Armed where
  now : Option Nat
  period : Nat
  delay : Nat
deriving DecidableEq

/-- A period of 0 is treated as 1. -/
def effective (periodMs : Nat) : Nat := if periodMs = 0 then 1 else periodMs

/-- `next_boundary_timeout`, in the words of the source. -/
def nextBoundaryTimeout (now : Option Nat) (periodMs : Nat) : Armed where
  now := now
  period := periodMs
  delay :=
    let period := effective periodMs
    match now with
    | none => period % 2 ^ 32
    | some t =>
      let nextBoundary := (t / period + 1) * period % 2 ^ 64
      (2 ^ 64 + nextBoundary - t) % 2 ^ 64 % 2 ^ 32

/-- Where `on_window_close` stands, with the length it has read. -/
inductive Closing where
  | idle
  | closed (batch : Option Batch) (nextMs : Nat)
  | handed (nextMs : Nat)
deriving DecidableEq

def Closing.nextMs : Closing → Option Nat
  | .idle => none
  | .closed _ nextMs => some nextMs
  | .handed nextMs => some nextMs

/-- The service with its timer and work item, the calls of its engine and what it has handed to `m_submit`, newest
first. -/
structure VoteService (M : Nat) where
  engine : VoteEngine M := .new M
  window : Nat := collectionWindowMs
  timer : Option Armed := none
  queued : Bool := false
  closing : Closing := .idle
  calls : List Call := []
  submitted : List Batch := []

namespace VoteService

variable {M : Nat}

/-- A call of the engine. -/
def tell (c : Call) (s : VoteService M) : VoteService M := { s with engine := s.engine.perform c, calls := s.calls ++ [c] }

def start (now : Option Nat) (s : VoteService M) : VoteService M :=
  { s with timer := some (nextBoundaryTimeout now collectionWindowMs) }

def stop (s : VoteService M) : VoteService M := { s with timer := none }

def resync (now : Option Nat) (s : VoteService M) : VoteService M :=
  { s.stop with timer := some (nextBoundaryTimeout now s.window) }

def windowStart (now : Option Nat) (s : VoteService M) : VoteService M :=
  { s.tell .openWindow with timer := some (nextBoundaryTimeout now s.window) }

/-- The timer runs out: the work item is put on its queue, if it is not there. -/
def expire (s : VoteService M) : VoteService M := { s with timer := none, queued := true }

/-- `on_window_close`, the part under the lock. -/
def closeWindow (s : VoteService M) : VoteService M :=
  { s.tell .closeWindow with queued := false, closing := .closed s.engine.closeWindow.1 s.window }

/-- The part that submits. -/
def submitBatch (s : VoteService M) : VoteService M :=
  match s.closing with
  | .closed (some batch) nextMs =>
    { s.tell (.checkAlert batch) with
      submitted := { batch with alertActive := (s.engine.checkAlert batch).1 } :: s.submitted
      closing := .handed nextMs }
  | .closed none nextMs => { s with closing := .handed nextMs }
  | _ => s

/-- The last line. -/
def rearm (now : Option Nat) (s : VoteService M) : VoteService M :=
  match s.closing with
  | .handed nextMs => { s with timer := some (nextBoundaryTimeout now nextMs), closing := .idle }
  | _ => s

end VoteService

inductive ServiceAct where
  | start (now : Option Nat)
  | stop
  | accumulate (entry : Entry)
  | setCollectionWindow (ms : Nat)
  | resync (now : Option Nat)
  | windowStart (now : Option Nat)
  | expire
  | closeWindow
  | submitBatch
  | rearm (now : Option Nat)

namespace ServiceAct

/-- The clock reading of the action fits its word. -/
def Fits : ServiceAct → Prop
  | start now => ∀ t, now = some t → t < 2 ^ 64
  | resync now => ∀ t, now = some t → t < 2 ^ 64
  | windowStart now => ∀ t, now = some t → t < 2 ^ 64
  | rearm now => ∀ t, now = some t → t < 2 ^ 64
  | setCollectionWindow ms => ms < 2 ^ 32
  | _ => True

end ServiceAct

/-! ## The timer -/

theorem effective_pos (periodMs : Nat) : 0 < effective periodMs := by
  unfold effective
  split <;> omega

/-- **The timer runs out at a multiple of the period**, no more than one period from now. -/
theorem nextBoundary_spec {t periodMs : Nat} (ht : t < 2 ^ 64) (hp : periodMs < 2 ^ 32) :
    0 < (nextBoundaryTimeout (some t) periodMs).delay ∧
      (nextBoundaryTimeout (some t) periodMs).delay ≤ effective periodMs ∧
      effective periodMs ∣ t + (nextBoundaryTimeout (some t) periodMs).delay := by
  have hpos := effective_pos periodMs
  have hlt : effective periodMs < 2 ^ 32 := by
    unfold effective
    split <;> omega
  obtain ⟨p, hpe⟩ : ∃ p, p = effective periodMs := ⟨_, rfl⟩
  rw [← hpe] at hpos hlt ⊢
  -- The boundary is `d` from now, and `d` is what is left of the period.
  obtain ⟨d, hd⟩ : ∃ d, d = p - t % p := ⟨_, rfl⟩
  have hmod := Nat.mod_lt t hpos
  have hboundary : (t / p + 1) * p = t + d := by
    have hdiv := Nat.div_add_mod t p
    rw [Nat.add_mul, Nat.one_mul, Nat.mul_comm]
    omega
  have hdelay : (nextBoundaryTimeout (some t) periodMs).delay = d := by
    show (2 ^ 64 + (t / effective periodMs + 1) * effective periodMs % 2 ^ 64 - t) % 2 ^ 64 % 2 ^ 32 = d
    rw [← hpe, hboundary]
    omega
  rw [hdelay]
  exact ⟨by omega, by omega, hboundary ▸ Nat.dvd_mul_left p _⟩

/-- The timer was armed as it should be. -/
def Armed.Aligned (a : Armed) : Prop :=
  0 < a.delay ∧ a.delay ≤ effective a.period ∧ ∀ t, a.now = some t → effective a.period ∣ t + a.delay

theorem aligned_nextBoundary {now : Option Nat} {periodMs : Nat} (hnow : ∀ t, now = some t → t < 2 ^ 64)
    (hp : periodMs < 2 ^ 32) : (nextBoundaryTimeout now periodMs).Aligned := by
  cases now with
  | none =>
    have hpos := effective_pos periodMs
    have hlt : effective periodMs < 2 ^ 32 := by
      unfold effective
      split <;> omega
    have hdelay : (nextBoundaryTimeout none periodMs).delay = effective periodMs := Nat.mod_eq_of_lt hlt
    exact ⟨by omega, Nat.le_of_eq hdelay, fun t h => by cases h⟩
  | some t =>
    obtain ⟨hpos, hle, hdvd⟩ := nextBoundary_spec (hnow t rfl) hp
    exact ⟨hpos, hle, fun t' h => by obtain rfl := Option.some.inj h; exact hdvd⟩

namespace VoteService

variable {M : Nat}

/-- The service: the threads of its callers and its work queue take turns. -/
def sys (M : Nat) : Sys (VoteService M) ServiceAct where
  init := {}
  enabled s a := a.Fits ∧ match a with
    | .expire => s.timer.isSome = true
    | .closeWindow => s.queued = true ∧ s.closing = .idle
    | .submitBatch => ∃ batch nextMs, s.closing = .closed batch nextMs
    | .rearm _ => ∃ nextMs, s.closing = .handed nextMs
    | _ => True
  exec s
    | .start now => s.start now
    | .stop => s.stop
    | .accumulate entry => s.tell (.accumulate entry)
    | .setCollectionWindow ms => { s with window := ms }
    | .resync now => s.resync now
    | .windowStart now => s.windowStart now
    | .expire => s.expire
    | .closeWindow => s.closeWindow
    | .submitBatch => s.submitBatch
    | .rearm now => s.rearm now

/-- The service is not started again, and not stopped. -/
def Ongoing (_ : VoteService M) : ServiceAct → Prop
  | .start _ => False
  | .stop => False
  | _ => True

/-- Nor is the length changed. -/
def Unchanged (s : VoteService M) (a : ServiceAct) : Prop := Ongoing s a ∧ ∀ ms, a ≠ .setCollectionWindow ms

/-! ## The windows go on -/

/-- The service will close a window: the timer runs, or the work item is queued, or a close is under way. -/
def Alive (s : VoteService M) : Prop := s.timer.isSome = true ∨ s.queued = true ∨ s.closing ≠ .idle

/-- The lengths fit their words, and the timer was armed as it should be. -/
structure Timed (s : VoteService M) : Prop where
  window : s.window < 2 ^ 32
  next : ∀ n, s.closing.nextMs = some n → n < 2 ^ 32
  timer : ∀ a, s.timer = some a → a.Aligned

theorem Timed.exec {s : VoteService M} (h : Timed s) {a : ServiceAct} (hen : (sys M).enabled s a) :
    Timed ((sys M).exec s a) := by
  obtain ⟨hfits, hen⟩ := hen
  cases a with
  | start now =>
    exact ⟨h.window, h.next, fun a ha => Option.some.inj ha ▸ aligned_nextBoundary hfits (by decide)⟩
  | stop => exact ⟨h.window, h.next, fun a ha => by cases ha⟩
  | accumulate entry => exact ⟨h.window, h.next, h.timer⟩
  | setCollectionWindow ms => exact ⟨hfits, h.next, h.timer⟩
  | resync now => exact ⟨h.window, h.next, fun a ha => Option.some.inj ha ▸ aligned_nextBoundary hfits h.window⟩
  | windowStart now => exact ⟨h.window, h.next, fun a ha => Option.some.inj ha ▸ aligned_nextBoundary hfits h.window⟩
  | expire => exact ⟨h.window, h.next, fun a ha => by cases ha⟩
  | closeWindow => exact ⟨h.window, fun n hn => Option.some.inj hn ▸ h.window, h.timer⟩
  | submitBatch =>
    obtain ⟨batch, n, hclosing⟩ := hen
    show Timed s.submitBatch
    have hn := h.next n (by rw [hclosing]; rfl)
    unfold submitBatch
    rw [hclosing]
    cases batch with
    | none => exact ⟨h.window, fun m hm => Option.some.inj hm ▸ hn, h.timer⟩
    | some b => exact ⟨h.window, fun m hm => Option.some.inj hm ▸ hn, h.timer⟩
  | rearm now =>
    obtain ⟨n, hclosing⟩ := hen
    show Timed (s.rearm now)
    have hn := h.next n (by rw [hclosing]; rfl)
    unfold rearm
    rw [hclosing]
    exact ⟨h.window, fun m hm => (by cases hm), fun a ha => Option.some.inj ha ▸ aligned_nextBoundary hfits hn⟩

theorem timed_new (M : Nat) : Timed ({} : VoteService M) :=
  ⟨show collectionWindowMs < 2 ^ 32 by decide, fun n hn => (by cases hn), fun a ha => (by cases ha)⟩

theorem Alive.exec {s : VoteService M} (h : Alive s) {a : ServiceAct} (hen : (sys M).enabled s a) (hgo : Ongoing s a) :
    Alive ((sys M).exec s a) := by
  obtain ⟨-, hen⟩ := hen
  cases a with
  | start now => exact .inl rfl
  | stop => exact hgo.elim
  | accumulate entry => exact h
  | setCollectionWindow ms => exact h
  | resync now => exact .inl rfl
  | windowStart now => exact .inl rfl
  | expire => exact .inr (.inl rfl)
  | closeWindow => exact .inr (.inr (fun he => by cases he))
  | submitBatch =>
    obtain ⟨batch, n, hclosing⟩ := hen
    refine .inr (.inr ?_)
    show s.submitBatch.closing ≠ .idle
    unfold submitBatch
    rw [hclosing]
    cases batch <;> exact fun he => by cases he
  | rearm now =>
    obtain ⟨n, hclosing⟩ := hen
    refine .inl ?_
    show (s.rearm now).timer.isSome = true
    unfold rearm
    rw [hclosing]
    rfl

/-- **The windows go on**: once the service is started, in every state of every run a window is going to be closed; and
whenever its timer runs, it was armed for a positive delay of at most one period, up to a multiple of the period. -/
theorem windows_go_on (M : Nat) (now : Option Nat) (hnow : ∀ t, now = some t → t < 2 ^ 64) (s : VoteService M)
    (h : (sys M).Reaches Ongoing (({} : VoteService M).start now) s) :
    (s.timer.isSome = true ∨ s.queued = true ∨ s.closing ≠ .idle) ∧ ∀ a, s.timer = some a →
      0 < a.delay ∧ a.delay ≤ effective a.period ∧ ∀ t, a.now = some t → effective a.period ∣ t + a.delay := by
  have hboth : Alive s ∧ Timed s := by
    refine h.invariant (P := fun s => Alive s ∧ Timed s) ⟨.inl rfl, ?_⟩
      (fun x a hx hen hgo => ⟨hx.1.exec hen hgo, hx.2.exec hen⟩)
    exact (timed_new M).exec (a := .start now) ⟨hnow, trivial⟩
  exact ⟨hboth.1, hboth.2.timer⟩

/-! ## A change of the length -/

/-- The service is set for this length, and so is a close that is under way. -/
structure SetFor (w : Nat) (s : VoteService M) : Prop where
  window : s.window = w
  next : ∀ n, s.closing.nextMs = some n → n = w
  timer : ∀ a, s.timer = some a → a.period = w

theorem SetFor.exec {w : Nat} {s : VoteService M} (h : SetFor w s) {a : ServiceAct} (hen : (sys M).enabled s a)
    (hok : Unchanged s a) : SetFor w ((sys M).exec s a) := by
  obtain ⟨-, hen⟩ := hen
  cases a with
  | start now => exact hok.1.elim
  | stop => exact hok.1.elim
  | accumulate entry => exact ⟨h.window, h.next, h.timer⟩
  | setCollectionWindow ms => exact absurd rfl (hok.2 ms)
  | resync now => exact ⟨h.window, h.next, fun a ha => Option.some.inj ha ▸ h.window⟩
  | windowStart now => exact ⟨h.window, h.next, fun a ha => Option.some.inj ha ▸ h.window⟩
  | expire => exact ⟨h.window, h.next, fun a ha => by cases ha⟩
  | closeWindow => exact ⟨h.window, fun n hn => Option.some.inj hn ▸ h.window, h.timer⟩
  | submitBatch =>
    obtain ⟨batch, n, hclosing⟩ := hen
    show SetFor w s.submitBatch
    have hn := h.next n (by rw [hclosing]; rfl)
    unfold submitBatch
    rw [hclosing]
    cases batch with
    | none => exact ⟨h.window, fun m hm => Option.some.inj hm ▸ hn, h.timer⟩
    | some b => exact ⟨h.window, fun m hm => Option.some.inj hm ▸ hn, h.timer⟩
  | rearm now =>
    obtain ⟨n, hclosing⟩ := hen
    show SetFor w (s.rearm now)
    have hn := h.next n (by rw [hclosing]; rfl)
    unfold rearm
    rw [hclosing]
    exact ⟨h.window, fun m hm => (by cases hm), fun a ha => Option.some.inj ha ▸ hn⟩

/-- A close that is under way arms the timer for the length it has read. -/
theorem close_arms {s : VoteService M} {n : Nat} (h : s.closing.nextMs = some n) :
    ∃ s', (sys M).Reaches Unchanged s s' ∧ s'.timer = some (nextBoundaryTimeout none n) := by
  have hrearm : ∀ x : VoteService M, x.closing = .handed n →
      ∃ s', (sys M).Reaches Unchanged x s' ∧ s'.timer = some (nextBoundaryTimeout none n) := by
    intro x hx
    refine ⟨x.rearm none, .single ⟨.rearm none, ⟨fun t ht => (by cases ht), n, hx⟩, ⟨trivial, fun _ he => (by cases he)⟩,
      rfl⟩, ?_⟩
    unfold rearm
    rw [hx]
  cases hc : s.closing with
  | idle => rw [hc] at h; cases h
  | handed m =>
    obtain rfl : m = n := by rw [hc] at h; exact Option.some.inj h
    exact hrearm s hc
  | closed batch m =>
    obtain rfl : m = n := by rw [hc] at h; exact Option.some.inj h
    have hsubmit : s.submitBatch.closing = .handed m := by
      unfold submitBatch
      rw [hc]
      cases batch <;> rfl
    obtain ⟨s', hreach, htimer⟩ := hrearm s.submitBatch hsubmit
    exact ⟨s', .head ⟨.submitBatch, ⟨trivial, batch, m, hc⟩, ⟨trivial, fun _ he => (by cases he)⟩, rfl⟩ hreach, htimer⟩

/-- **A `resync` takes effect exactly if no close is under way with another length**: only then is the timer armed for the
current length in every state of every run from there, until the length is changed again. -/
theorem resync_takes_iff (M : Nat) (s : VoteService M) (now : Option Nat) :
    (∀ s', (sys M).Reaches Unchanged (s.resync now) s' → ∀ a, s'.timer = some a → a.period = s.window) ↔
      ∀ n, s.closing.nextMs = some n → n = s.window := by
  constructor
  · intro h n hn
    obtain ⟨s', hreach, htimer⟩ := close_arms (s := s.resync now) hn
    exact h s' hreach _ htimer
  · intro h s' hreach a ha
    have hset : SetFor s.window (s.resync now) := ⟨rfl, h, fun a ha => by obtain rfl := Option.some.inj ha; rfl⟩
    exact (hreach.invariant (P := SetFor s.window) hset (fun x a hx hen hok => hx.exec hen hok)).timer a ha

/-! ## What is submitted -/

theorem perform_run (e : VoteEngine M) (calls : List Call) (c : Call) : (e.run calls).perform c = e.run (calls ++ [c]) := by
  rw [VoteEngine.run_append]
  rfl

/-- The flag of a check follows from the batches checked so far. -/
theorem checkAlert_run (calls : List Call) (batch : Batch) :
    (((VoteEngine.new M).run calls).checkAlert batch).1 = true ↔
      true ∈ ((batch :: (checked calls).reverse).take alertClearWindows).map Batch.triggers := by
  have hactive : (((VoteEngine.new M).run calls).checkAlert batch).1 =
      (((VoteEngine.new M).run calls).checkAlert batch).2.latch.active := rfl
  have hlatch : (((VoteEngine.new M).run calls).checkAlert batch).2.latch =
      Latch.run alertClearWindows {} ((checked calls ++ [batch]).map Batch.triggers) := by
    rw [VoteEngine.checkAlert_latch, VoteEngine.latch_run, List.map_append, Latch.run, Latch.run, List.foldl_append]
    rfl
  rw [hactive, hlatch, Latch.run_active (by decide), ← List.map_reverse, ← List.map_take, List.reverse_append]
  rfl

/-- The batch came out of a close of the engine. -/
def Origin (calls : List Call) (batch : Batch) : Prop :=
  ∃ pre, pre ++ [.closeWindow] <+: calls ∧ ((VoteEngine.new M).run pre).closeWindow.1 = some batch

theorem Origin.later {calls : List Call} {batch : Batch} (h : Origin (M := M) calls batch) (c : Call) :
    Origin (M := M) (calls ++ [c]) batch := by
  obtain ⟨pre, hpre, hclose⟩ := h
  exact ⟨pre, hpre.trans (List.prefix_append _ _), hclose⟩

/-- The batches that were submitted are the batches that were checked, with the flag that the check gave. -/
inductive Flagged : List Batch → List Batch → Prop
  | nil : Flagged [] []
  | cons {batch : Batch} {batches out : List Batch} {flag : Bool}
      (hflag : flag = true ↔ true ∈ ((batch :: batches).take alertClearWindows).map Batch.triggers)
      (hrest : Flagged batches out) : Flagged (batch :: batches) ({ batch with alertActive := flag } :: out)

/-- The engine is where its calls have brought it, and what was submitted came out of them. -/
structure Served (s : VoteService M) : Prop where
  engine : s.engine = (VoteEngine.new M).run s.calls
  flagged : Flagged (checked s.calls).reverse s.submitted
  checked : ∀ b ∈ checked s.calls, Origin (M := M) s.calls b
  closing : ∀ b n, s.closing = .closed (some b) n → Origin (M := M) s.calls b

theorem checked_append (calls : List Call) (c : Call) : checked (calls ++ [c]) = checked calls ++ checked [c] :=
  List.filterMap_append

/-- A call that checks nothing. -/
theorem Served.tell {s : VoteService M} (h : Served s) {c : Call} (hc : Vote.checked [c] = []) : Served (s.tell c) := by
  have hchecked : Vote.checked (s.calls ++ [c]) = Vote.checked s.calls := by rw [checked_append, hc, List.append_nil]
  refine ⟨?_, ?_, fun b hb => ?_, fun b n hb => (h.closing b n hb).later c⟩
  · show s.engine.perform c = _
    rw [h.engine, perform_run]
    rfl
  · show Flagged (Vote.checked (s.calls ++ [c])).reverse s.submitted
    rw [hchecked]
    exact h.flagged
  · exact (h.checked b (hchecked ▸ hb)).later c

theorem Served.exec {s : VoteService M} (h : Served s) {a : ServiceAct} (hen : (sys M).enabled s a) :
    Served ((sys M).exec s a) := by
  obtain ⟨-, hen⟩ := hen
  cases a with
  | start now => exact ⟨h.engine, h.flagged, h.checked, h.closing⟩
  | stop => exact ⟨h.engine, h.flagged, h.checked, h.closing⟩
  | accumulate entry => exact h.tell rfl
  | setCollectionWindow ms => exact ⟨h.engine, h.flagged, h.checked, h.closing⟩
  | resync now => exact ⟨h.engine, h.flagged, h.checked, h.closing⟩
  | windowStart now =>
    have htell := h.tell (c := .openWindow) rfl
    exact ⟨htell.engine, htell.flagged, htell.checked, htell.closing⟩
  | expire => exact ⟨h.engine, h.flagged, h.checked, h.closing⟩
  | closeWindow =>
    have htell := h.tell (c := .closeWindow) rfl
    refine ⟨htell.engine, htell.flagged, htell.checked, fun b n hb => ?_⟩
    obtain ⟨hb, -⟩ := Closing.closed.inj hb
    exact ⟨s.calls, List.prefix_refl _, h.engine ▸ hb⟩
  | submitBatch =>
    obtain ⟨batch, n, hclosing⟩ := hen
    show Served s.submitBatch
    unfold submitBatch
    rw [hclosing]
    cases batch with
    | none => exact ⟨h.engine, h.flagged, h.checked, fun b m hb => by cases hb⟩
    | some b =>
      have hnew : Vote.checked (s.calls ++ [.checkAlert b]) = Vote.checked s.calls ++ [b] := checked_append _ _
      refine ⟨?_, ?_, fun b' hb' => ?_, fun b' m hb' => by cases hb'⟩
      · show s.engine.perform (.checkAlert b) = _
        rw [h.engine, perform_run]
        rfl
      · show Flagged (Vote.checked (s.calls ++ [.checkAlert b])).reverse _
        rw [hnew, List.reverse_append]
        exact .cons (h.engine ▸ checkAlert_run s.calls b) h.flagged
      · have hb' : b' ∈ Vote.checked s.calls ++ [b] := hnew ▸ hb'
        rcases List.mem_append.1 hb' with hold | hb'
        · exact (h.checked b' hold).later _
        · obtain rfl := List.mem_singleton.1 hb'
          exact (h.closing b' n hclosing).later _
  | rearm now =>
    obtain ⟨n, hclosing⟩ := hen
    show Served (s.rearm now)
    unfold rearm
    rw [hclosing]
    exact ⟨h.engine, h.flagged, h.checked, fun b m hb => by cases hb⟩

/-- A submitted batch, with the checked batches it stands for. -/
theorem Flagged.split {batches out : List Batch} (h : Flagged batches out) :
    ∀ newer b older, out = newer ++ b :: older → ∃ batch batches', batch ∈ batches ∧ b.entries = batch.entries ∧
      batches'.map Batch.triggers = older.map Batch.triggers ∧
      (b.alertActive = true ↔ true ∈ ((batch :: batches').take alertClearWindows).map Batch.triggers) := by
  have htriggers : ∀ {xs ys : List Batch}, Flagged xs ys → xs.map Batch.triggers = ys.map Batch.triggers := by
    intro xs ys hxy
    induction hxy with
    | nil => rfl
    | cons _ _ ih => exact congrArg (_ :: ·) ih
  induction h with
  | nil => exact fun newer b older he => by cases newer <;> cases he
  | @cons batch batches out flag hflag hrest ih =>
    intro newer b older he
    cases newer with
    | nil =>
      obtain ⟨rfl, rfl⟩ := List.cons.inj he
      exact ⟨batch, batches, List.mem_cons_self, rfl, htriggers hrest, hflag⟩
    | cons x newer =>
      obtain ⟨batch', batches', hmem, hrest'⟩ := ih newer b older (List.cons.inj he).2
      exact ⟨batch', batches', List.mem_cons_of_mem batch hmem, hrest'⟩

/-- **What the service submits**, in every run: each batch reports exactly the latest reading of each sensor that was
accepted in a window that was closed, and its alert flag is up exactly if it or one of the two batches submitted before it
has a good reading at or above the threshold. -/
theorem submitted_batches (M : Nat) (hM : M ≤ 32) (s : VoteService M) (h : (sys M).Reachable Sys.always s)
    (newer older : List Batch) (b : Batch) (hs : s.submitted = newer ++ b :: older) :
    (b.alertActive = true ↔ ∃ b' ∈ (b :: older).take alertClearWindows, b'.triggers = true) ∧
      ∃ pre, pre ++ [.closeWindow] <+: s.calls ∧
        (b.entries.map Entry.report).Perm ((latest (VoteEngine.taken M pre)).map (fun x => x.slot.report)) := by
  have hserved : Served s := by
    refine h.invariant (P := Served) ⟨rfl, .nil, fun b hb => (by cases hb), fun b n hb => (by cases hb)⟩
      (fun x a hx hen _ => hx.exec hen)
  obtain ⟨batch, batches, hmem, hentries, htriggers, hflag⟩ := hserved.flagged.split newer b older hs
  constructor
  · have hsame : batch.triggers = b.triggers := by
      unfold Batch.triggers
      rw [hentries]
    have hmap : (batch :: batches).map Batch.triggers = (b :: older).map Batch.triggers := by
      rw [List.map_cons, List.map_cons, hsame, htriggers]
    rw [hflag, List.map_take, hmap, ← List.map_take, List.mem_map]
  · obtain ⟨pre, hpre, hclose⟩ := hserved.checked batch (List.mem_reverse.1 hmem)
    refine ⟨pre, hpre, ?_⟩
    rw [hentries]
    exact VoteEngine.reports_perm hM hclose

/-! ## A run written down -/

/-- Three sensors report, the second and third one above the threshold, and the timer runs out; while the window is being
closed an alert makes the next one 30 s. -/
def alarm : List ServiceAct :=
  [.accumulate { eui := 1, waterLevelMm := 1400 }, .accumulate { eui := 2, waterLevelMm := 1510 },
    .accumulate { eui := 3, waterLevelMm := 1520 }, .expire, .closeWindow, .setCollectionWindow 30000,
    .resync (some 300010), .submitBatch, .rearm (some 300020)]

/-- A service with three slots that was started at clock 5. -/
def started : VoteService 3 := ({} : VoteService 3).start (some 5)

def alarmed : VoteService 3 := (sys 3).run alarm started

theorem legal_alarm : (sys 3).Legal Ongoing alarm started := by
  have hclock : ∀ {n t : Nat}, n < 2 ^ 64 → some n = some t → t < 2 ^ 64 := fun hn ht => Option.some.inj ht ▸ hn
  refine ⟨⟨trivial, trivial⟩, trivial, ⟨trivial, trivial⟩, trivial, ⟨trivial, trivial⟩, trivial, ⟨trivial, rfl⟩, trivial,
    ⟨trivial, rfl, rfl⟩, trivial, ⟨show 30000 < 2 ^ 32 by decide, trivial⟩, trivial,
    ⟨fun t ht => hclock (by decide) ht, trivial⟩, trivial, ⟨trivial, _, _, rfl⟩, trivial,
    ⟨fun t ht => hclock (by decide) ht, _, rfl⟩, trivial, trivial⟩

/-- The close has armed the timer for the old length once more: it runs out at 600000. -/
theorem windows_go_on_alarmed : alarmed.window = 30000 ∧ alarmed.timer = some ⟨some 300020, 300000, 299980⟩ ∧
    300000 ∣ 300020 + 299980 := by
  have htimer : alarmed.timer = some ⟨some 300020, 300000, 299980⟩ := by decide +kernel
  obtain ⟨-, halign⟩ := windows_go_on 3 (some 5) (fun t ht => Option.some.inj ht ▸ by decide) alarmed
    (Sys.reaches_run alarm started legal_alarm)
  exact ⟨rfl, htimer, (halign _ htimer).2.2 300020 rfl⟩

/-- The batch that was submitted has its alert flag up. -/
theorem submitted_batches_alarmed : ∃ b, alarmed.submitted = [b] ∧ b.alertActive = true := by
  have hreach : (sys 3).Reachable Sys.always alarmed := by
    refine .head ⟨.start (some 5), ⟨fun t ht => Option.some.inj ht ▸ by decide, trivial⟩, trivial, rfl⟩ ?_
    exact (Sys.reaches_run alarm started legal_alarm).mono (fun _ _ _ => trivial)
  obtain ⟨b, hb⟩ : ∃ b, alarmed.submitted = [b] := ⟨_, rfl⟩
  have htriggers : ∀ b', alarmed.submitted = [b'] → b'.triggers = true := by
    intro b' hb'
    have hall : alarmed.submitted.all Batch.triggers = true := by decide +kernel
    rw [hb'] at hall
    simpa using hall
  exact ⟨b, hb, (submitted_batches 3 (by decide) alarmed hreach [] [] b hb).1.2 ⟨b, by simp [alertClearWindows], htriggers b hb⟩⟩

end VoteService

end Vote
end FloodEws
