import FloodEws.Poller
import FloodEws.Runs
/-!
# Goroutines — the pollers that run

`running` is the poller's own book.  Beside it stands what `Sync` really starts: every goroutine launched, each with the
configuration it was given for good.  The ones started and not cancelled are the ones in the book (`Tended`), through
any calls of `Sync` and `StopAll`.
-/
namespace FloodEws
namespace Gateway

namespace Poller

/-- One turn of `StopAll`. -/
def halt (p : Poller) (id : String) : Poller :=
  match p.running id with
  | none => p
  | some r => p.cancel id r

/-- `StopAll`, with the order in which Go ranges over the map. -/
def stopAll (p : Poller) (order : List String) : Poller := order.foldl halt p

end Poller

open Poller (desired)

/-- The poller and every goroutine launched, newest first. -/
structure Fleet where
  poller : Poller := { running := fun _ => none }
  launched : List RunningSource := []

namespace Fleet

/-- The goroutines started and not yet cancelled. -/
def live (f : Fleet) : List RunningSource := f.launched.filter (fun g => g.handle ∉ f.poller.cancelled)

/-- `Poller.start`, with the goroutine it launches. -/
def launch (want : String → Option ExternalSource) (f : Fleet) (id : String) : Fleet :=
  match want id, f.poller.running id with
  | some src, none => ⟨f.poller.start want id, ⟨f.poller.started, src⟩ :: f.launched⟩
  | _, _ => f

def stop (want : String → Option ExternalSource) (f : Fleet) (id : String) : Fleet :=
  { f with poller := f.poller.stop want id }

def halt (f : Fleet) (id : String) : Fleet := { f with poller := f.poller.halt id }

def sync (f : Fleet) (sources : List ExternalSource) (running wanted : List String) : Fleet :=
  wanted.foldl (launch (desired sources)) (running.foldl (stop (desired sources)) f)

def stopAll (f : Fleet) (order : List String) : Fleet := order.foldl halt f

/-! ## The fleet's poller is the poller -/

theorem launch_poller (want : String → Option ExternalSource) (f : Fleet) (id : String) :
    (f.launch want id).poller = f.poller.start want id := by
  unfold launch Poller.start
  cases want id with
  | none => rfl
  | some src => cases f.poller.running id <;> rfl

theorem launches_poller (want : String → Option ExternalSource) (ids : List String) (f : Fleet) :
    (ids.foldl (launch want) f).poller = ids.foldl (Poller.start want) f.poller := by
  induction ids generalizing f with
  | nil => rfl
  | cons id ids ih => rw [List.foldl_cons, List.foldl_cons, ih, launch_poller]

theorem stops_poller (want : String → Option ExternalSource) (ids : List String) (f : Fleet) :
    (ids.foldl (stop want) f).poller = ids.foldl (Poller.stop want) f.poller := by
  induction ids generalizing f with
  | nil => rfl
  | cons id ids ih => rw [List.foldl_cons, List.foldl_cons, ih]; rfl

/-- **`Sync` is the poller's**, whatever is launched beside it. -/
theorem sync_poller (f : Fleet) (sources : List ExternalSource) (running wanted : List String) :
    (f.sync sources running wanted).poller = f.poller.sync sources running wanted := by
  rw [sync, launches_poller, stops_poller]
  rfl

theorem stopAll_poller (f : Fleet) (order : List String) : (f.stopAll order).poller = f.poller.stopAll order := by
  unfold stopAll Poller.stopAll
  induction order generalizing f with
  | nil => rfl
  | cons id order ih => rw [List.foldl_cons, List.foldl_cons, ih]; rfl

/-! ## The book and the goroutines -/

/-- The goroutines that run are those in the book, each under its source's id. -/
structure Tended (f : Fleet) : Prop where
  handles : (f.launched.map RunningSource.handle).Nodup
  launched_lt : ∀ g ∈ f.launched, g.handle < f.poller.started
  cancelled_lt : ∀ h ∈ f.poller.cancelled, h < f.poller.started
  book : ∀ g, g ∈ f.live ↔ f.poller.running g.src.id = some g
  keyed : ∀ id r, f.poller.running id = some r → r.src.id = id

namespace Tended

variable {f : Fleet}

theorem fresh : Tended {} where
  handles := List.nodup_nil
  launched_lt := by simp
  cancelled_lt := by simp
  book := by simp [live]
  keyed := by simp

theorem mem_launched (h : Tended f) {id : String} {r : RunningSource} (hr : f.poller.running id = some r) :
    r ∈ f.launched := by
  have hlive := (h.book r).2 (by rw [h.keyed id r hr, hr])
  exact List.mem_of_mem_filter hlive

theorem cancel (h : Tended f) {id : String} {r : RunningSource} (hr : f.poller.running id = some r) :
    Tended { f with poller := f.poller.cancel id r } := by
  have hmem := h.mem_launched hr
  have hkey := h.keyed id r hr
  refine ⟨h.handles, h.launched_lt, ?_, fun g => ?_, fun id' r' hr' => ?_⟩
  · intro k hk
    rcases List.mem_cons.1 hk with rfl | hk
    · exact h.launched_lt r hmem
    · exact h.cancelled_lt k hk
  · have hbook := h.book g
    simp only [live, List.mem_filter, decide_eq_true_eq] at hbook ⊢
    simp only [Poller.cancel, List.mem_cons, not_or]
    by_cases hid : g.src.id = id
    · -- under this id only the cancelled goroutine ran
      rw [hid, Function.update_self]
      simp only [reduceCtorEq, iff_false, not_and, not_not]
      intro hg hne
      by_contra hlive
      rw [hid, hr] at hbook
      exact hne (congrArg RunningSource.handle (Option.some.inj (hbook.1 ⟨hg, hlive⟩)).symm)
    · rw [Function.update_of_ne hid, ← hbook]
      refine ⟨fun hg => ⟨hg.1, hg.2.2⟩, fun hg => ⟨hg.1, fun heq => hid ?_, hg.2⟩⟩
      rw [List.inj_on_of_nodup_map h.handles hg.1 hmem heq, hkey]
  · simp only [Poller.cancel] at hr'
    by_cases hid : id' = id
    · rw [hid, Function.update_self] at hr'
      cases hr'
    · rw [Function.update_of_ne hid] at hr'
      exact h.keyed id' r' hr'

theorem stop (h : Tended f) (want : String → Option ExternalSource) (id : String) : Tended (f.stop want id) := by
  unfold Fleet.stop Poller.stop
  cases hr : f.poller.running id with
  | none => exact h
  | some r =>
    cases want id with
    | none => exact h.cancel hr
    | some s =>
      dsimp only
      split
      · exact h.cancel hr
      · exact h

theorem halt (h : Tended f) (id : String) : Tended (f.halt id) := by
  unfold Fleet.halt Poller.halt
  cases hr : f.poller.running id with
  | none => exact h
  | some r => exact h.cancel hr

theorem launch (h : Tended f) {want : String → Option ExternalSource} (hwant : ∀ id s, want id = some s → s.id = id)
    (id : String) : Tended (f.launch want id) := by
  unfold Fleet.launch
  cases hw : want id with
  | none => exact h
  | some src =>
    cases hr : f.poller.running id with
    | some r => exact h
    | none =>
      have hkey := hwant id src hw
      have hnew : f.poller.started ∉ f.launched.map RunningSource.handle := by
        intro hmem
        obtain ⟨g, hg, hlast⟩ := List.mem_map.1 hmem
        exact absurd (h.launched_lt g hg) (by omega)
      have hpoller : f.poller.start want id =
          { f.poller with running := Function.update f.poller.running id (some ⟨f.poller.started, src⟩)
                          started := f.poller.started + 1 } := by
        simp [Poller.start, hw, hr]
      dsimp only
      rw [hpoller]
      refine ⟨List.nodup_cons.2 ⟨hnew, h.handles⟩, ?_, fun k hk => Nat.lt_succ_of_lt (h.cancelled_lt k hk), ?_, ?_⟩
      · intro g hg
        rcases List.mem_cons.1 hg with rfl | hg
        · exact Nat.lt_succ_self _
        · exact Nat.lt_succ_of_lt (h.launched_lt g hg)
      · intro g
        have hbook := h.book g
        simp only [live, List.mem_filter, decide_eq_true_eq, List.mem_cons] at hbook ⊢
        by_cases hid : g.src.id = id
        · -- nothing ran under this id, so what runs now is the new one
          rw [hid, Function.update_self]
          rw [hid, hr] at hbook
          constructor
          · rintro ⟨rfl | hg, hlive⟩
            · rfl
            · exact absurd (hbook.1 ⟨hg, hlive⟩) (by simp)
          · intro hg
            cases hg
            exact ⟨.inl rfl, fun hmem => absurd (h.cancelled_lt _ hmem) (by simp)⟩
        · rw [Function.update_of_ne hid, ← hbook]
          refine ⟨fun hg => ⟨hg.1.resolve_left ?_, hg.2⟩, fun hg => ⟨.inr hg.1, hg.2⟩⟩
          rintro rfl
          exact hid hkey
      · intro id' r' hr'
        dsimp only at hr'
        by_cases hid : id' = id
        · subst hid
          rw [Function.update_self] at hr'
          cases hr'
          exact hkey
        · rw [Function.update_of_ne hid] at hr'
          exact h.keyed id' r' hr'

theorem sync (h : Tended f) (sources : List ExternalSource) (running wanted : List String) :
    Tended (f.sync sources running wanted) := by
  have hwant : ∀ id s, desired sources id = some s → s.id = id := fun _ _ hs => (indexBy_some hs).2.2
  exact foldl_invariant (P := Tended) (fun _ id hf => hf.launch hwant id) wanted
    (foldl_invariant (P := Tended) (fun _ id hf => hf.stop _ id) running h)

theorem stopAll (h : Tended f) (order : List String) : Tended (f.stopAll order) :=
  foldl_invariant (P := Tended) (fun _ id hf => hf.halt id) order h

end Tended

end Fleet

/-! ## Runs of `Sync` and `StopAll` -/

/-- The fleet, and the sources it was last told of: none after `StopAll`. -/
structure Polled where
  fleet : Fleet := {}
  last : List ExternalSource := []

inductive PollAct where
  | sync (sources : List ExternalSource) (running wanted : List String)
  | stopAll (order : List String)

namespace Polled

/-- The orders are orders of the maps ranged over. -/
def enabled (p : Polled) : PollAct → Prop
  | .sync sources running wanted => Ranges p.fleet.poller.running running ∧ Ranges (desired sources) wanted
  | .stopAll order => Ranges p.fleet.poller.running order

def exec (p : Polled) : PollAct → Polled
  | .sync sources running wanted => ⟨p.fleet.sync sources running wanted, sources⟩
  | .stopAll order => ⟨p.fleet.stopAll order, []⟩

/-- Source ids are unique within a list. -/
def DistinctIds (_ : Polled) : PollAct → Prop
  | .sync sources _ _ => (sources.map ExternalSource.id).Nodup
  | .stopAll _ => True

def sys : Sys Polled PollAct := ⟨{}, enabled, exec⟩

/-- What runs is what was last asked for. -/
structure Serves (p : Polled) : Prop where
  tended : p.fleet.Tended
  ids : (p.last.map ExternalSource.id).Nodup
  running : ∀ id, (p.fleet.poller.running id).map RunningSource.src = desired p.last id

end Polled

namespace Poller

theorem halt_frame (p : Poller) (id : String) {id' : String} (h : id' ≠ id) : (p.halt id).running id' = p.running id' := by
  unfold halt cancel
  split
  · rfl
  · simp [h]

theorem halt_self (p : Poller) (id : String) : (p.halt id).running id = none := by
  unfold halt cancel
  split
  · assumption
  · simp

theorem stopAll_running {p : Poller} {order : List String} (horder : Ranges p.running order) (id : String) :
    (p.stopAll order).running id = none := by
  unfold stopAll
  by_cases hmem : id ∈ order
  · obtain ⟨p', -, hp'⟩ := foldl_at (g := Poller.running) (fun q k k' hk => halt_frame q k hk) horder.nodup hmem p
    rw [hp', halt_self]
  · rw [foldl_frame (g := Poller.running) (fun q k k' hk => halt_frame q k hk) hmem]
    rw [horder.mem_iff, Option.not_isSome_iff_eq_none] at hmem
    exact hmem

theorem start_keeps (want : String → Option ExternalSource) (p : Poller) (k : String) {id : String} {r : RunningSource}
    (hr : p.running id = some r) : (p.start want k).running id = some r := by
  by_cases hk : id = k
  · subst hk
    unfold start
    rw [hr]
    cases want id <;> exact hr
  · rw [start_frame want p k hk, hr]

/-- **A source still wanted as it is keeps its goroutine.** -/
theorem sync_keeps {p : Poller} {sources : List ExternalSource} {running wanted : List String}
    (hrunning : Ranges p.running running) {id : String} {r : RunningSource} (hr : p.running id = some r)
    (hwant : desired sources id = some r.src) : (p.sync sources running wanted).running id = some r := by
  have hmem : id ∈ running := (hrunning.mem_iff id).2 (by rw [hr]; rfl)
  obtain ⟨p', hsame, hp'⟩ := foldl_at (g := Poller.running) (fun q k k' hk => stop_frame (desired sources) q k hk)
    hrunning.nodup hmem p
  have hstopped : (running.foldl (stop (desired sources)) p).running id = some r := by
    rw [hp', stop_self, hsame, hr]
    simp [Option.filter, hwant]
  exact foldl_invariant (P := fun q : Poller => q.running id = some r) (fun q k hq => start_keeps (desired sources) q k hq)
    wanted hstopped

end Poller

namespace Polled

variable {p : Polled}

theorem serves_step {a : PollAct} (h : Serves p) (he : p.enabled a) (hd : p.DistinctIds a) : Serves (p.exec a) := by
  cases a with
  | sync sources running wanted =>
    refine ⟨h.tended.sync sources running wanted, hd, fun id => ?_⟩
    show ((p.fleet.sync sources running wanted).poller.running id).map _ = _
    rw [Fleet.sync_poller]
    exact Poller.sync_running he.1 he.2 id
  | stopAll order =>
    refine ⟨h.tended.stopAll order, List.nodup_nil, fun id => ?_⟩
    show ((p.fleet.stopAll order).poller.running id).map _ = _
    rw [Fleet.stopAll_poller, Poller.stopAll_running he]
    rfl

theorem serves (h : sys.Reachable DistinctIds p) : Serves p := by
  refine h.invariant (P := Serves) ?_ (fun _ _ hp he hd => serves_step hp he hd)
  exact ⟨Fleet.Tended.fresh, List.nodup_nil, fun _ => rfl⟩

namespace Serves

theorem mem_live (h : Serves p) (g : RunningSource) (hg : g ∈ p.fleet.live) :
    g.src ∈ p.last ∧ g.src.enabled = true := by
  have hrun := h.running g.src.id
  rw [(h.tended.book g).1 hg] at hrun
  obtain ⟨hmem, hen, -⟩ := indexBy_some hrun.symm
  exact ⟨hmem, hen⟩

theorem exists_live (h : Serves p) {s : ExternalSource} (hs : s ∈ p.last) (hen : s.enabled = true) :
    ∃ g ∈ p.fleet.live, g.src = s := by
  have hrun := h.running s.id
  rw [desired, (indexBy_eq_some_iff h.ids).2 ⟨hs, hen, rfl⟩, Option.map_eq_some_iff] at hrun
  obtain ⟨g, hg, rfl⟩ := hrun
  exact ⟨g, (h.tended.book g).2 hg, rfl⟩

/-- One goroutine a source. -/
theorem live_inj (h : Serves p) {g g' : RunningSource} (hg : g ∈ p.fleet.live) (hg' : g' ∈ p.fleet.live)
    (hsrc : g.src = g'.src) : g = g' := by
  have hrun := (h.tended.book g).1 hg
  rw [hsrc, (h.tended.book g').1 hg'] at hrun
  exact (Option.some.inj hrun).symm

theorem live_perm (h : Serves p) :
    (p.fleet.live.map RunningSource.src).Perm (p.last.filter ExternalSource.enabled) := by
  have hlive : p.fleet.live.Nodup := (List.Nodup.of_map _ h.tended.handles).filter _
  refine (List.perm_ext_iff_of_nodup (hlive.map_on fun g hg g' hg' => h.live_inj hg hg')
    ((List.Nodup.of_map _ h.ids).filter _)).2 fun s => ?_
  rw [List.mem_map, List.mem_filter]
  constructor
  · rintro ⟨g, hg, rfl⟩
    exact h.mem_live g hg
  · rintro ⟨hs, hen⟩
    exact h.exists_live hs hen

end Serves

/-- **The pollers that run are those asked for.**  After any calls of `Sync`, with unique ids in each list, and
`StopAll`: the goroutines started and not cancelled poll exactly the enabled sources of the last `Sync`, one each, as
they are configured there, and none run after `StopAll`; and the next `Sync` leaves the goroutine of a source it does
not change. -/
theorem polls_what_is_configured (h : sys.Reachable DistinctIds p) :
    (p.fleet.live.map RunningSource.src).Perm (p.last.filter ExternalSource.enabled) ∧
    (p.fleet.live.map RunningSource.handle).Nodup ∧
    ∀ sources running wanted, p.enabled (.sync sources running wanted) → (sources.map ExternalSource.id).Nodup →
      ∀ s ∈ p.last, s ∈ sources → s.enabled = true →
        ∃ g ∈ p.fleet.live, g.src = s ∧ g ∈ (p.exec (.sync sources running wanted)).fleet.live := by
  have hserves := serves h
  refine ⟨hserves.live_perm, hserves.tended.handles.sublist (List.filter_sublist.map _), ?_⟩
  intro sources running wanted he hids s hs hs' hen
  obtain ⟨g, hg, rfl⟩ := hserves.exists_live hs hen
  refine ⟨g, hg, rfl, ?_⟩
  have hnext := hserves.tended.sync sources running wanted
  refine (hnext.book g).2 ?_
  rw [Fleet.sync_poller]
  exact Poller.sync_keeps he.1 ((hserves.tended.book g).1 hg) ((indexBy_eq_some_iff hids).2 ⟨hs', hen, rfl⟩)

/-- The sources of the repository's test: one enabled, one not. -/
def sourceA : ExternalSource := { id := "src-a", url := "", pollMs := 5000 }

def sourceB : ExternalSource := { id := "src-b", enabled := false, url := "", pollMs := 5000 }

def firstSync : List PollAct := [.sync [sourceA, sourceB] [] ["src-a"]]

/-- `src-b` is enabled beside `src-a`. -/
def bothEnabled : List ExternalSource := [sourceA, { sourceB with enabled := true }]

theorem ranges_first : Ranges (desired [sourceA, sourceB]) ["src-a"] := by
  refine ⟨by simp, fun id => ?_⟩
  by_cases hid : id = "src-a" <;> simp [desired, indexBy, sourceA, sourceB, hid]

theorem ranges_both : Ranges (desired bothEnabled) ["src-b", "src-a"] := by
  refine ⟨by simp, fun id => ?_⟩
  by_cases ha : id = "src-a"
  · subst ha
    simp [desired, indexBy, bothEnabled, sourceA, sourceB]
  · by_cases hb : id = "src-b" <;> simp [desired, indexBy, bothEnabled, sourceA, sourceB, ha, hb]

theorem legal_firstSync : sys.Legal DistinctIds firstSync sys.init :=
  ⟨⟨⟨List.nodup_nil, fun id => by simp [sys]⟩, ranges_first⟩, by simp [DistinctIds, sourceA, sourceB], trivial⟩

theorem polls_what_is_configured_both :
    let p := sys.run firstSync sys.init
    p.fleet.live = [⟨0, sourceA⟩] ∧
      ∃ g ∈ p.fleet.live, g.src = sourceA ∧ g ∈ (p.exec (.sync bothEnabled ["src-a"] ["src-b", "src-a"])).fleet.live := by
  have hrunning : Ranges (sys.run firstSync sys.init).fleet.poller.running ["src-a"] := by
    refine ⟨by simp, fun id => ?_⟩
    by_cases hid : id = "src-a" <;>
      simp [sys, Sys.run, firstSync, exec, Fleet.sync, Fleet.launch, Poller.start, desired, indexBy, sourceA, sourceB, hid]
  exact ⟨by decide, (polls_what_is_configured (Sys.reaches_run _ _ legal_firstSync)).2.2 bothEnabled ["src-a"]
    ["src-b", "src-a"] ⟨hrunning, ranges_both⟩ (by decide) sourceA (by decide) (by decide) rfl⟩

end Polled

end Gateway
end FloodEws
