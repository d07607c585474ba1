import Mathlib.Data.List.Sort
import FloodEws.Threads
import FloodEws.Store
/-!
# Config — configuration requests side by side

A `PUT` or `DELETE` on `/v1/config` commits to the database, then lists the whole table and hands the list to the
component that runs it: the poller, the daemon or the policy engine.  These are three steps, and for the poller the last
two run in a goroutine of their own.

A list that is outdated when it is applied sets its component back.  That is made good only if another request has still
to list, or holds a list that is current (`config_converges`).
-/
namespace FloodEws
namespace Gateway

/-- A component that runs what is configured. -/
inductive Part where
  | poller
  | daemon
  | engine
deriving DecidableEq

/-- A request on `/v1/config`.  The targets are read at startup only. -/
inductive Change where
  | upsertSource (e : ExternalSource)
  | deleteSource (id : String)
  | upsertTarget
  | deleteTarget
  | upsertActuator (a : Spec)
  | deleteActuator (id : String)
  | upsertRule (r : Rule)
  | deleteRule (id : String)

/-- The tables and the components that run them. -/
structure Config where
  sources : Table ExternalSource.id
  actuators : Table Spec.id
  rules : Table Rule.id
  poller : Poller
  daemon : Daemon
  engine : Engine

namespace Config

def listSources (s : Config) : List ExternalSource := s.sources.rows.insertionSort (fun a b => a.id ≤ b.id)

def listActuators (s : Config) : List Spec := s.actuators.rows.insertionSort (fun a b => a.id ≤ b.id)

/-- Highest priority first. -/
def listRules (s : Config) : List Rule :=
  s.rules.rows.insertionSort (fun a b => b.priority < a.priority ∨ (a.priority = b.priority ∧ a.id ≤ b.id))

end Config

/-- The transaction of a request; `fails` if the database refuses it.  The component to reload is returned. -/
def Change.commit (fails : Bool) (s : Config) (c : Change) : Except StoreError (Option Part × Config) :=
  let tx (part : Option Part) (s : Config) : Except StoreError (Option Part × Config) :=
    if fails then .error .database else .ok (part, s)
  match c with
  | .upsertSource e => do validateSource e; tx (some .poller) { s with sources := s.sources.upsert e }
  | .deleteSource id => tx (some .poller) { s with sources := s.sources.delete id }
  | .upsertTarget => tx none s
  | .deleteTarget => tx (some .poller) s
  | .upsertActuator a => do validateActuator a; tx (some .daemon) { s with actuators := s.actuators.upsert a }
  | .deleteActuator id => tx (some .daemon) { s with actuators := s.actuators.delete id }
  | .upsertRule r => do validateRule r; tx (some .engine) { s with rules := s.rules.upsert r }
  | .deleteRule id => tx (some .engine) { s with rules := s.rules.delete id }

/-- A request, or what is left of it, stopped before its next step. -/
inductive Reload where
  | commit (c : Change)
  | list (part : Part)
  | sync (sources : List ExternalSource)
  | setSpecs (specs : List Spec)
  | setRules (rules : List Rule)
  | done

/-- What the environment decides in a step: whether the query fails, which devices cannot be driven, the orders in which
Go ranges over its maps, and what the sort in `SetRules` leaves. -/
structure Choice where
  fails : Bool := false
  undriven : String → Bool := fun _ => false
  running : List String := []
  wanted : List String := []
  engine : Engine := .empty

namespace Reload

def step (k : Choice) (t : Reload) (s : Config) : Reload × Config :=
  match t with
  | .commit c =>
    match c.commit k.fails s with
    | .error _ => (.done, s)
    | .ok (none, s) => (.done, s)
    | .ok (some part, s) => (.list part, s)
  | .list part =>
    if k.fails then (.done, s)
    else match part with
      | .poller => (.sync s.listSources, s)
      | .daemon => (.setSpecs s.listActuators, s)
      | .engine => (.setRules s.listRules, s)
  | .sync sources => (.done, { s with poller := s.poller.sync sources k.running k.wanted })
  | .setSpecs specs => (.done, { s with daemon := s.daemon.setSpecs specs k.undriven k.wanted })
  | .setRules _ => (.done, { s with engine := k.engine })
  | .done => (.done, s)

def may (k : Choice) (t : Reload) (s : Config) : Prop :=
  match t with
  | .sync sources => Ranges s.poller.running k.running ∧ Ranges (Poller.desired sources) k.wanted
  | .setSpecs specs => Ranges (Daemon.enabledSpecs specs) k.wanted
  | .setRules rules => k.engine.rules.Perm rules
  | _ => True

def fresh : Reload → Prop
  | .commit _ => True
  | _ => False

end Reload

def reloads : Prog Config Reload Choice where
  fresh := Reload.fresh
  may := Reload.may
  step := Reload.step

/-! ## Convergence -/

/-- The component runs exactly what is stored. -/
def Converged : Part → Config → Prop
  | .poller, s => ∀ id, (s.poller.running id).map RunningSource.src = Poller.desired s.sources.rows id
  | .daemon, s => s.daemon.specs = Daemon.enabledSpecs s.actuators.rows
  | .engine, s => s.engine.rules.Perm s.rules.rows

/-- The request will reload the component, as far as it knows from what is stored now. -/
def Reload.owes (part : Part) (s : Config) : Reload → Prop
  | .list part' => part' = part
  | .sync sources => part = .poller ∧ Poller.desired sources = Poller.desired s.sources.rows
  | .setSpecs specs => part = .daemon ∧ Daemon.enabledSpecs specs = Daemon.enabledSpecs s.actuators.rows
  | .setRules rules => part = .engine ∧ rules.Perm s.rules.rows
  | _ => False

/-- The step ends the request without the component having what is stored now: the list query fails, or the list applied
is outdated. -/
def Reload.misses (k : Choice) (part : Part) (s : Config) : Reload → Prop
  | .list part' => part' = part ∧ k.fails = true
  | .sync sources => part = .poller ∧ Poller.desired sources ≠ Poller.desired s.sources.rows
  | .setSpecs specs => part = .daemon ∧ Daemon.enabledSpecs specs ≠ Daemon.enabledSpecs s.actuators.rows
  | .setRules rules => part = .engine ∧ ¬ rules.Perm s.rules.rows
  | _ => False

/-- **When a reload does no lasting harm**: a request misses what is stored only while another is about to reload it. -/
def Relayed (p : Pool Config Reload) : Sched Reload Choice → Prop
  | .spawn _ => True
  | .run i k => ∀ t, p.threads[i]? = some t → ∀ part, t.misses k part p.shared → ∃ u, Prog.Other p i u ∧ u.owes part p.shared

/-- The component and the table it is loaded from are as they were. -/
structure SameAt (part : Part) (s s' : Config) : Prop where
  poller : part = .poller → s'.sources = s.sources ∧ s'.poller = s.poller
  daemon : part = .daemon → s'.actuators = s.actuators ∧ s'.daemon = s.daemon
  engine : part = .engine → s'.rules = s.rules ∧ s'.engine = s.engine

theorem SameAt.refl (part : Part) (s : Config) : SameAt part s s :=
  ⟨fun _ => ⟨rfl, rfl⟩, fun _ => ⟨rfl, rfl⟩, fun _ => ⟨rfl, rfl⟩⟩

/-- Another component's table changed. -/
theorem SameAt.ofOther {s : Config} :
    (∀ x, SameAt .daemon s { s with sources := x }) ∧ (∀ x, SameAt .engine s { s with sources := x }) ∧
    (∀ x, SameAt .poller s { s with actuators := x }) ∧ (∀ x, SameAt .engine s { s with actuators := x }) ∧
    (∀ x, SameAt .poller s { s with rules := x }) ∧ (∀ x, SameAt .daemon s { s with rules := x }) := by
  refine ⟨?_, ?_, ?_, ?_, ?_, ?_⟩ <;> exact fun x => ⟨by simp, by simp, by simp⟩

theorem SameAt.converged {part : Part} {s s' : Config} (h : SameAt part s s') : Converged part s' ↔ Converged part s := by
  cases part with
  | poller =>
    obtain ⟨h1, h2⟩ := h.poller rfl
    simp only [Converged, h1, h2]
  | daemon =>
    obtain ⟨h1, h2⟩ := h.daemon rfl
    simp only [Converged, h1, h2]
  | engine =>
    obtain ⟨h1, h2⟩ := h.engine rfl
    simp only [Converged, h1, h2]

theorem SameAt.owes {part : Part} {s s' : Config} (h : SameAt part s s') {t : Reload} (ht : t.owes part s) :
    t.owes part s' := by
  cases t with
  | sync sources =>
    obtain ⟨rfl, ht⟩ := ht
    exact ⟨rfl, by rw [(h.poller rfl).1, ht]⟩
  | setSpecs specs =>
    obtain ⟨rfl, ht⟩ := ht
    exact ⟨rfl, by rw [(h.daemon rfl).1, ht]⟩
  | setRules rules =>
    obtain ⟨rfl, ht⟩ := ht
    exact ⟨rfl, by rw [(h.engine rfl).1]; exact ht⟩
  | list part' => exact ht
  | commit c => exact ht.elim
  | done => exact ht.elim

/-- **A transaction touches only what is then reloaded.** -/
theorem Change.commit_frame {fails : Bool} {s s' : Config} {c : Change} {reload : Option Part}
    (h : c.commit fails s = .ok (reload, s')) (part : Part) : reload = some part ∨ SameAt part s s' := by
  have htx : ∀ (r : Option Part) (x : Config), (r = some part ∨ SameAt part s x) →
      (if fails then (.error .database : Except StoreError (Option Part × Config)) else .ok (r, x)) = .ok (reload, s') →
      reload = some part ∨ SameAt part s s' := by
    intro r x hx heq
    cases fails with
    | true => cases heq
    | false =>
      cases heq
      exact hx
  have hbind : ∀ {check : Except StoreError Unit} {next : Except StoreError (Option Part × Config)},
      (check >>= fun _ => next) = .ok (reload, s') → next = .ok (reload, s') := by
    intro check next heq
    cases check with
    | error e => cases heq
    | ok _ => exact heq
  cases c with
  | upsertSource e => cases part <;> exact htx _ _ (by simp [SameAt.ofOther]) (hbind h)
  | deleteSource id => cases part <;> exact htx _ _ (by simp [SameAt.ofOther]) h
  | upsertTarget => exact htx _ _ (.inr (.refl part s)) h
  | deleteTarget => exact htx _ _ (.inr (.refl part s)) h
  | upsertActuator a => cases part <;> exact htx _ _ (by simp [SameAt.ofOther]) (hbind h)
  | deleteActuator id => cases part <;> exact htx _ _ (by simp [SameAt.ofOther]) h
  | upsertRule r => cases part <;> exact htx _ _ (by simp [SameAt.ofOther]) (hbind h)
  | deleteRule id => cases part <;> exact htx _ _ (by simp [SameAt.ofOther]) h

theorem Reload.list_step {k : Choice} {s : Config} {part : Part} (hk : k.fails = false) :
    ((Reload.list part).step k s).1.owes part ((Reload.list part).step k s).2 := by
  cases part with
  | poller =>
    have hperm := List.perm_insertionSort (fun a b : ExternalSource => a.id ≤ b.id) s.sources.rows
    simp [step, hk, owes, Config.listSources, Poller.desired, indexBy_perm hperm.symm s.sources.nodup]
  | daemon =>
    have hperm := List.perm_insertionSort (fun a b : Spec => a.id ≤ b.id) s.actuators.rows
    simp [step, hk, owes, Config.listActuators, Daemon.enabledSpecs, indexBy_perm hperm.symm s.actuators.nodup]
  | engine => simp [step, hk, owes, Config.listRules, List.perm_insertionSort]

/-- A list is applied to one component only. -/
def Reload.applies : Reload → Option Part
  | .sync _ => some .poller
  | .setSpecs _ => some .daemon
  | .setRules _ => some .engine
  | _ => none

theorem Reload.apply_frame {k : Choice} {s : Config} {t : Reload} {part part' : Part} (h : t.applies = some part')
    (hne : part ≠ part') : SameAt part s (t.step k s).2 := by
  cases t <;> cases h <;> cases part <;> first | exact absurd rfl hne | (constructor <;> simp [step])

/-- **What a current list makes of its component.** -/
theorem Reload.apply_converged {k : Choice} {s : Config} {t : Reload} {part : Part} (h : t.applies = some part)
    (hmay : t.may k s) (howes : t.owes part s) : Converged part (t.step k s).2 := by
  cases t with
  | sync sources =>
    cases h
    intro id
    show ((s.poller.sync sources k.running k.wanted).running id).map RunningSource.src = _
    rw [Poller.sync_running hmay.1 hmay.2, howes.2]
    rfl
  | setSpecs specs =>
    cases h
    exact howes.2
  | setRules rules =>
    cases h
    exact List.Perm.trans hmay howes.2
  | _ => cases h

theorem Reload.owes_or_misses {k : Choice} {s : Config} {t : Reload} {part : Part} (h : t.applies = some part) :
    t.owes part s ∨ t.misses k part s := by
  cases t <;> cases h <;> exact (Classical.em _).imp (fun h => ⟨rfl, h⟩) (fun h => ⟨rfl, h⟩)

/-- What is so of a component, or owed by another request, stays so when neither it nor its table changes. -/
theorem SameAt.keeps {part : Part} {p : Pool Config Reload} {i : Nat} {t t' : Reload} {s' : Config}
    (h : SameAt part p.shared s') (ht : ¬ t.owes part p.shared)
    (hx : Converged part p.shared ∨ t.owes part p.shared ∨ ∃ u, Prog.Other p i u ∧ u.owes part p.shared) :
    Converged part s' ∨ t'.owes part s' ∨ ∃ u, Prog.Other p i u ∧ u.owes part s' := by
  rcases hx with hx | hx | ⟨u, hu, howes⟩
  · exact .inl (h.converged.2 hx)
  · exact absurd hx ht
  · exact .inr (.inr ⟨u, hu, h.owes howes⟩)

theorem SameAt.ofList {part : Part} {k : Choice} {s : Config} {part' : Part} :
    SameAt part s ((Reload.list part').step k s).2 := by
  have hsame : ((Reload.list part').step k s).2 = s := by
    simp only [Reload.step]
    repeat' split
    all_goals rfl
  rw [hsame]
  exact .refl part s

/-- Applying a list brings its component up to date, or another request will. -/
theorem Reload.apply_step {p : Pool Config Reload} {i : Nat} {t : Reload} {k : Choice} {part part' : Part}
    (h : t.applies = some part') (hmay : t.may k p.shared)
    (hmisses : t.misses k part p.shared → ∃ u, Prog.Other p i u ∧ u.owes part p.shared)
    (hx : Converged part p.shared ∨ t.owes part p.shared ∨ ∃ u, Prog.Other p i u ∧ u.owes part p.shared) :
    Converged part (t.step k p.shared).2 ∨ (t.step k p.shared).1.owes part (t.step k p.shared).2 ∨
      ∃ u, Prog.Other p i u ∧ u.owes part (t.step k p.shared).2 := by
  by_cases hpart : part = part'
  · subst hpart
    rcases owes_or_misses (k := k) (s := p.shared) h with howes | hmiss
    · exact .inl (apply_converged h hmay howes)
    · -- The tables are as they were, so the other request's list is as good as before.
      obtain ⟨u, hu, howes⟩ := hmisses hmiss
      refine .inr (.inr ⟨u, hu, ?_⟩)
      cases t <;> cases h <;> cases u <;> exact howes
  · have hno : ¬ t.owes part p.shared := by
      cases t <;> cases h <;> exact fun hno => hpart hno.1
    exact (apply_frame h hpart).keeps hno hx

/-- **Every component is up to date, or some request will see to it.** -/
theorem converged_or_owed {s : Config} {p : Pool Config Reload} (hs : ∀ part, Converged part s)
    (h : (reloads.sys s).Reachable Relayed p) : Prog.Owed Converged Reload.owes p := by
  refine Prog.owed_invariant h hs ?_
  intro p i t k part _ ht hmay hok hx
  have hmisses := hok t ht part
  cases t with
  | commit c =>
    cases hc : c.commit k.fails p.shared with
    | error e =>
      have hstep : reloads.step k (.commit c) p.shared = (.done, p.shared) := by simp [reloads, Reload.step, hc]
      rw [hstep]
      exact (SameAt.refl part p.shared).keeps id hx
    | ok res =>
      obtain ⟨reload, s'⟩ := res
      have hstep : reloads.step k (.commit c) p.shared = (reload.elim .done .list, s') := by
        cases reload <;> simp [reloads, Reload.step, hc]
      rw [hstep]
      rcases Change.commit_frame hc part with rfl | hsame
      · exact .inr (.inl rfl)
      · exact hsame.keeps id hx
  | list part' =>
    by_cases hpart : part' = part
    · subst hpart
      cases hk : k.fails with
      | true =>
        obtain ⟨u, hu, howes⟩ := hmisses ⟨rfl, hk⟩
        exact .inr (.inr ⟨u, hu, SameAt.ofList.owes howes⟩)
      | false => exact .inr (.inl (Reload.list_step hk))
    · have hno : ¬ (Reload.list part').owes part p.shared := hpart
      exact SameAt.ofList.keeps hno hx
  | sync sources => exact Reload.apply_step rfl hmay hmisses hx
  | setSpecs specs => exact Reload.apply_step rfl hmay hmisses hx
  | setRules rules => exact Reload.apply_step rfl hmay hmisses hx
  | done => exact (SameAt.refl part p.shared).keeps id hx

/-- **Once all requests are done, every component runs exactly what is stored**, in every run in which each request that
misses what is stored is relayed. -/
theorem config_converges {s : Config} {p : Pool Config Reload} (hs : ∀ part, Converged part s)
    (h : (reloads.sys s).Reachable Relayed p) (hdone : ∀ t ∈ p.threads, t = .done) (part : Part) :
    Converged part p.shared := by
  rcases converged_or_owed hs h part with hc | ⟨t, ht, howes⟩
  · exact hc
  · rw [hdone t ht] at howes
    exact howes.elim

/-- Nothing is configured. -/
def unconfigured : Config where
  sources := .empty
  actuators := .empty
  rules := .empty
  poller := { running := fun _ => none }
  daemon := { specs := fun _ => none, state := fun _ => none }
  engine := .empty

theorem converged_unconfigured (part : Part) : Converged part unconfigured := by
  cases part with
  | poller => exact fun _ => rfl
  | daemon => rfl
  | engine => exact .nil

def openOnFlood : Rule := { id := "open", actuatorId := "flood-gate", targetState := "open", priority := 2 }

def closeOnFlood : Rule := { id := "close", actuatorId := "flood-gate", targetState := "closed", priority := 1 }

def engineOf (r : Rule) : Engine := ⟨[r], .cons (by simp) .nil⟩

def engineOfBoth : Engine := ⟨[openOnFlood, closeOnFlood], by decide⟩

/-- Two rules are stored; the first request applies its list before the second has listed. -/
def inTurn : List (Sched Reload Choice) :=
  [.spawn (.commit (.upsertRule openOnFlood)), .spawn (.commit (.upsertRule closeOnFlood)), .run 0 {}, .run 0 {},
    .run 1 {}, .run 0 { engine := engineOf openOnFlood }, .run 1 {}, .run 1 { engine := engineOfBoth }]

/-- The second request overtakes the first. -/
def overtaken : List (Sched Reload Choice) :=
  [.spawn (.commit (.upsertRule openOnFlood)), .spawn (.commit (.upsertRule closeOnFlood)), .run 0 {}, .run 0 {},
    .run 1 {}, .run 1 {}, .run 1 { engine := engineOfBoth }, .run 0 { engine := engineOf openOnFlood }]

/-- A step that misses nothing. -/
theorem relayed_of_hits {p : Pool Config Reload} {i : Nat} {k : Choice} {t : Reload} (ht : p.threads[i]? = some t)
    (h : ∀ part, ¬ t.misses k part p.shared) : Relayed p (.run i k) := by
  intro t' ht' part hmisses
  rw [ht] at ht'
  cases ht'
  exact absurd hmisses (h part)

theorem relayed_commit {p : Pool Config Reload} {i : Nat} {k : Choice} {c : Change}
    (ht : p.threads[i]? = some (.commit c)) : Relayed p (.run i k) :=
  relayed_of_hits ht fun _ => id

theorem relayed_list {p : Pool Config Reload} {i : Nat} {k : Choice} {part : Part}
    (ht : p.threads[i]? = some (.list part)) (hk : k.fails = false) : Relayed p (.run i k) := by
  refine relayed_of_hits ht ?_
  rintro _ ⟨-, hfails⟩
  rw [hk] at hfails
  cases hfails

theorem config_converges_inTurn :
    Converged .engine ((reloads.sys unconfigured).run inTurn ⟨unconfigured, []⟩).shared := by
  have hlegal : (reloads.sys unconfigured).Legal Relayed inTurn ⟨unconfigured, []⟩ := by
    refine ⟨trivial, trivial, trivial, trivial, ⟨_, rfl, trivial⟩, relayed_commit rfl, ⟨_, rfl, trivial⟩,
      relayed_list rfl rfl, ⟨_, rfl, trivial⟩, relayed_commit rfl, ⟨_, rfl, List.Perm.refl _⟩, ?_, ⟨_, rfl, trivial⟩,
      relayed_list rfl rfl, ⟨_, rfl, List.Perm.refl _⟩, relayed_of_hits rfl ?_, trivial⟩
    · intro t ht part hmisses
      cases ht
      obtain ⟨rfl, -⟩ := hmisses
      exact ⟨.list .engine, ⟨1, by decide, rfl⟩, rfl⟩
    · rintro part ⟨-, hno⟩
      exact hno (List.Perm.refl _)
  refine config_converges converged_unconfigured (Sys.reaches_run _ _ hlegal) ?_ .engine
  show ∀ t ∈ [Reload.done, Reload.done], t = .done
  simp

/-- **An outdated rule set applied last stays.** -/
theorem outdated_rules_stay :
    ¬ ∀ (s : Config) (p : Pool Config Reload), (∀ part, Converged part s) → (reloads.sys s).Reachable Sys.always p →
      (∀ t ∈ p.threads, t = .done) → ∀ part, Converged part p.shared := by
  intro h
  have hlegal : (reloads.sys unconfigured).Legal Sys.always overtaken ⟨unconfigured, []⟩ :=
    ⟨trivial, trivial, trivial, trivial, ⟨_, rfl, trivial⟩, trivial, ⟨_, rfl, trivial⟩, trivial, ⟨_, rfl, trivial⟩,
      trivial, ⟨_, rfl, trivial⟩, trivial, ⟨_, rfl, List.Perm.refl _⟩, trivial, ⟨_, rfl, List.Perm.refl _⟩, trivial,
      trivial⟩
  have hdone : ∀ t ∈ ((reloads.sys unconfigured).run overtaken ⟨unconfigured, []⟩).threads, t = .done := by
    show ∀ t ∈ [Reload.done, Reload.done], t = .done
    simp
  have hperm := h unconfigured _ converged_unconfigured (Sys.reaches_run _ _ hlegal) hdone .engine
  exact absurd hperm.length_eq (by decide)

end Gateway
end FloodEws
