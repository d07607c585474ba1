import FloodEws.Maps
/-!
# Poller — `gateway/server/poller`, `Sync`

Which sources are polled.  `Sync` stops the goroutines of sources that are gone or have changed and starts those that
are missing; afterwards exactly the enabled sources run, each as configured (`sync_running`).

A goroutine is known by its handle, the number of goroutines started before it.
-/
namespace FloodEws
namespace Gateway

/-- A row of `external_source`.  The bounds are finite floating-point numbers, kept exactly. -/
structure ExternalSource where
  id : String
  name : String := ""
  enabled : Bool := true
  url : String
  authHeader : String := ""
  authToken : String := ""
  pollMs : Int := 1000
  kind : String := ""
  maxAgeMs : Int := 0
  minValue : Rat := 0
  maxValue : Rat := 0
  fieldMap : String := ""
deriving DecidableEq, Repr

structure RunningSource where
  handle : Nat
  src : ExternalSource
deriving DecidableEq, Repr

structure Poller where
  running : String → Option RunningSource
  started : Nat := 0
  cancelled : List Nat := []

namespace Poller

/-- `reflect.DeepEqual`. -/
def sameConfig (a b : ExternalSource) : Bool := decide (a = b)

def desired (sources : List ExternalSource) : String → Option ExternalSource :=
  indexBy ExternalSource.id ExternalSource.enabled sources

def cancel (p : Poller) (id : String) (r : RunningSource) : Poller :=
  { p with running := Function.update p.running id none, cancelled := r.handle :: p.cancelled }

def stop (desired : String → Option ExternalSource) (p : Poller) (id : String) : Poller :=
  match p.running id with
  | none => p
  | some r => match desired id with
    | none => p.cancel id r
    | some s => if !sameConfig s r.src then p.cancel id r else p

def start (desired : String → Option ExternalSource) (p : Poller) (id : String) : Poller :=
  match desired id, p.running id with
  | some src, none => { p with running := Function.update p.running id (some ⟨p.started, src⟩), started := p.started + 1 }
  | _, _ => p

/-- `Sync`, with the orders in which Go ranges over the two maps. -/
def sync (p : Poller) (sources : List ExternalSource) (running wanted : List String) : Poller :=
  wanted.foldl (start (desired sources)) (running.foldl (stop (desired sources)) p)

section

variable (want : String → Option ExternalSource) (p : Poller)

theorem stop_frame (id : String) {id' : String} (h : id' ≠ id) : (stop want p id).running id' = p.running id' := by
  unfold stop cancel
  split
  · rfl
  split
  · simp [h]
  split
  · simp [h]
  · rfl

/-- A source keeps running only as it is wanted. -/
theorem stop_self (id : String) :
    (stop want p id).running id = (p.running id).filter (fun r => decide (want id = some r.src)) := by
  unfold stop cancel sameConfig
  cases hr : p.running id with
  | none => simp [hr]
  | some r =>
    cases hw : want id with
    | none => simp
    | some s =>
      by_cases hs : s = r.src
      · simp [hs, hr, Option.filter]
      · simp [hs, Option.filter]

theorem start_frame (id : String) {id' : String} (h : id' ≠ id) : (start want p id).running id' = p.running id' := by
  unfold start
  split
  · simp [h]
  · rfl

theorem start_self (id : String) (h : ∀ r, p.running id = some r → want id = some r.src) :
    ((start want p id).running id).map RunningSource.src = want id := by
  unfold start
  cases hw : want id with
  | none =>
    cases hr : p.running id with
    | none => simp
    | some r => simp [h r hr] at hw
  | some s =>
    cases hr : p.running id with
    | none => simp
    | some r =>
      have hs := (h r hr).symm.trans hw
      simp [hr, Option.some.inj hs]

end

/-- **After `Sync` exactly the enabled sources run, each as configured.** -/
theorem sync_running {p : Poller} {sources : List ExternalSource} {running wanted : List String}
    (hrunning : Ranges p.running running) (hwanted : Ranges (desired sources) wanted) (id : String) :
    ((p.sync sources running wanted).running id).map RunningSource.src = desired sources id := by
  have hstop : ∀ r, (running.foldl (stop (desired sources)) p).running id = some r → desired sources id = some r.src := by
    intro r hr
    by_cases hmem : id ∈ running
    · obtain ⟨p', -, hp'⟩ := foldl_at (g := Poller.running) (fun q k k' hk => stop_frame (desired sources) q k hk)
        hrunning.nodup hmem p
      rw [hp', stop_self, Option.filter_eq_some_iff] at hr
      simpa using hr.2
    · rw [foldl_frame (g := Poller.running) (fun q k k' hk => stop_frame (desired sources) q k hk) hmem] at hr
      exact absurd ((hrunning.mem_iff id).2 (by simp [hr])) hmem
  unfold sync
  by_cases hmem : id ∈ wanted
  · obtain ⟨p', hsame, hp'⟩ := foldl_at (g := Poller.running) (fun q k k' hk => start_frame (desired sources) q k hk)
      hwanted.nodup hmem (running.foldl (stop (desired sources)) p)
    rw [hp']
    refine start_self (desired sources) p' id fun r hr => hstop r ?_
    rw [← hsame, hr]
  · rw [foldl_frame (g := Poller.running) (fun q k k' hk => start_frame (desired sources) q k hk) hmem]
    have hnone : desired sources id = none := by
      rw [hwanted.mem_iff, Option.not_isSome_iff_eq_none] at hmem
      exact hmem
    rw [hnone]
    cases hr : (running.foldl (stop (desired sources)) p).running id with
    | none => rfl
    | some r =>
      rw [hstop r hr] at hnone
      cases hnone

end Poller

end Gateway
end FloodEws
