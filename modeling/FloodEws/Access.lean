import FloodEws.Http
/-!
# Access — who is behind a change

The gateway over whole runs: requests of anyone on the network, the reloads they leave behind, advisories, drives to
failsafe, and time.  Anyone may send anything.  What is assumed, and named as such, is that nobody but the gateway makes
tokens that verify (`Service.Unforged`): they are of logins in this run, or of logins before it with the same secret.

So each row that is stored, each decision on a queued advisory and each command of an operator goes back to a request with
a token from a login less than a day before, and the login to the password (`deed_authorised`, `command_authorised`).  A
gateway that is not local, or has no password and no token of old that still runs, is read only (`closed_readonly`).  What
is stored is shown to nobody else either (`reply_authorised`).
-/
namespace FloodEws
namespace Gateway

inductive SiteAct (T : Type) where
  | wait (dt : Nat)
  | request (r : HttpRequest T) (k : Turn)
  /-- the next step of a reload -/
  | reload (i : Nat) (k : Choice)
  | submitAdvisory (f : Faults) (a : Advisory)
  | driveAllFailsafe (reason : String) (fails : String → Bool) (order : List String)

/-- What is there when the gateway comes up: the time, the times of the logins there were before with the same secret, and
what the database holds. -/
structure Stored where
  now : Nat := 0
  logins : List Nat := []
  sources : Table ExternalSource.id
  actuators : Table Spec.id
  rules : Table Rule.id
  targets : Table EgressTarget.id
  store : Store

namespace Site

variable {T : Type} (d : Service T)

def exec (s : Site) : SiteAct T → Site
  | .wait dt => { s with now := s.now + dt }
  | .request r k => (d.serve s r k).2
  | .reload i k =>
    match s.pool.threads[i]? with
    | none => s
    | some t =>
      let pool := reloads.stepAt s.pool i t k
      { s with
        pool := pool
        store := (Main.report s.config.daemon ⟨pool.shared.engine, pool.shared.daemon, s.store⟩).store }
  | .submitAdvisory f a => s.withGateway (Main.exec s.gateway (.submitAdvisory f a))
  | .driveAllFailsafe reason fails order => s.withGateway (Main.exec s.gateway (.driveAllFailsafe reason fails order))

def enabled (s : Site) : SiteAct T → Prop
  | .reload i k => ∃ t, s.pool.threads[i]? = some t ∧ t.may k s.config
  | .driveAllFailsafe _ _ order => Ranges s.config.daemon.specs order
  | _ => True

/-- `main` lists the tables and hands them over before it serves. -/
def start (x : Stored) : Site where
  now := x.now
  issued := x.logins.map session
  pool :=
    { shared :=
        { sources := x.sources
          actuators := x.actuators
          rules := x.rules
          poller := { running := fun _ => none }
          daemon := { specs := fun _ => none, state := fun _ => none }
          engine := .empty }
      threads := [.list .daemon, .list .engine, .list .poller] }
  targets := x.targets
  store := x.store

def sys (x : Stored) : Sys Site (SiteAct T) where
  init := start x
  enabled := enabled
  exec := exec d

end Site

/-! ## Logins -/

/-- A login with the password, on a gateway that takes logins. -/
structure Service.LogsIn {T : Type} (d : Service T) (r : HttpRequest T) : Prop where
  isLocal : d.isLocal = true
  password : ∃ password, r.body.login = some password ∧ d.adminPassword ≠ "" ∧
    d.compareHashAndPassword d.adminPassword password = true

/-- **Nobody but the gateway makes tokens that verify**: what the secret is for. -/
def Service.Unforged {T : Type} (d : Service T) (s : Site) : SiteAct T → Prop
  | .request r _ => ∀ t claims, r.bearer = some t → d.tokenAuth.decode s.now t = some claims →
      ∃ c ∈ s.issued, t = d.tokenAuth.encode c
  | _ => True

/-- The claims are those of a login before the gateway came up, or in the run that led to `s`. -/
def Issued {T : Type} (d : Service T) (x : Stored) (s : Site) (c : Claims) : Prop :=
  (∃ t ∈ x.logins, c = session t) ∨
  ∃ s₀ r k, (Site.sys d x).Reachable d.Unforged s₀ ∧ d.Unforged s₀ (.request r k) ∧ d.LogsIn r ∧
    (Site.sys d x).Reaches d.Unforged (s₀.exec d (.request r k)) s ∧ c = session s₀.now

/-- **The request has somebody behind it**: its token is from a login less than a day before. -/
def Authorised {T : Type} (d : Service T) (x : Stored) (s : Site) (r : HttpRequest T) : Prop :=
  ∃ c, Issued d x s c ∧ r.bearer = some (d.tokenAuth.encode c) ∧ s.now < c.exp

namespace Site

variable {T : Type} {d : Service T} {x : Stored} {s : Site}

/-- **What serving a request comes to**: nothing, a login, or a handler that writes, with the claims it asks for. -/
theorem serve_cases (d : Service T) (s : Site) (r : HttpRequest T) (k : Turn) :
    (d.serve s r k).2 = s ∨
    (d.LogsIn r ∧ (d.serve s r k).2 = { s with issued := session s.now :: s.issued }) ∨
    ∃ route value claims, dispatch d.isLocal r.method r.path = .ok (route, value) ∧ route.handler.writes = true ∧
      d.verified s.now r = some claims ∧ d.isLocal = true ∧
      (d.serve s r k).2 = (d.handle s route.handler value r k).2 := by
  unfold Service.serve
  split
  · exact .inl rfl
  rename_i route value hroute
  obtain ⟨hwrites, -, hlogin, -⟩ := routes_guarded d.isLocal route (dispatch_ok hroute).1
  split
  · exact .inl rfl
  rename_i hrefusal
  by_cases hw : route.handler.writes = true
  · obtain ⟨htier, hlocal⟩ := hwrites hw
    rw [htier] at hrefusal
    simp only [Service.refusal, writeScope] at hrefusal
    split at hrefusal
    · cases hrefusal
    · rename_i claims hclaims
      exact .inr (.inr ⟨route, value, claims, hroute, hw, hclaims, hlocal, rfl⟩)
  · have hw : route.handler.writes = false := by simpa using hw
    by_cases hl : route.handler = .localLogin
    · rw [hl]
      simp only [Service.handle]
      split
      · exact .inl rfl
      rename_i password hbody
      split
      · exact .inl rfl
      rename_i hcheck
      split
      · exact .inl rfl
      refine .inr (.inl ⟨⟨hlogin hl, password, hbody, ?_⟩, rfl⟩)
      unfold Service.checkPassword at hcheck
      by_cases hadmin : d.adminPassword = ""
      · simp [hadmin] at hcheck
      · exact ⟨hadmin, by simpa [hadmin] using hcheck⟩
    · exact .inl (d.handle_reads s hw hl value r k)

/-- The tokens and the clock are as they were, and no thread is new but those about to list a table. -/
structure Kept (s s' : Site) : Prop where
  issued : s'.issued = s.issued
  now : s'.now = s.now
  threads : ∃ parts : List Part, s'.pool.threads = s.pool.threads ++ parts.map Reload.list

theorem Kept.refl (s : Site) : Kept s s := ⟨rfl, rfl, [], by simp⟩

theorem Kept.change (s : Site) (fails : Bool) (c : Change) (refused : Nat) (entry : AuditLog) (reply : Reply T) :
    Kept s (s.change fails c refused entry reply).2 := by
  unfold Site.change
  split
  · exact .refl s
  · rename_i part config hcommit
    refine ⟨rfl, rfl, part.toList, ?_⟩
    cases part <;> rfl

theorem Kept.withGateway (s : Site) (g : Server) : Kept s (s.withGateway g) := ⟨rfl, rfl, [], by simp [Site.withGateway]⟩

theorem Kept.handle (d : Service T) (s : Site) {h : Handler} (hw : h.writes = true) (value : String) (r : HttpRequest T)
    (k : Turn) : Kept s (d.handle s h value r k).2 := by
  cases h with
  | upsertSource =>
    simp only [Service.handle]
    split
    · exact .refl s
    · exact .change ..
  | deleteSource => exact .change ..
  | upsertTarget =>
    simp only [Service.handle, Site.upsertTarget]
    split
    · exact .refl s
    split
    · exact .refl s
    split
    · exact .refl s
    · exact ⟨rfl, rfl, [], by simp⟩
  | deleteTarget =>
    simp only [Service.handle, Site.deleteTarget]
    split
    · exact .refl s
    · exact ⟨rfl, rfl, [.poller], rfl⟩
  | upsertActuator =>
    simp only [Service.handle]
    split
    · exact .refl s
    · exact .change ..
  | deleteActuator => exact .change ..
  | upsertRule =>
    simp only [Service.handle]
    split
    · exact .refl s
    · exact .change ..
  | deleteRule => exact .change ..
  | actuate =>
    simp only [Service.handle]
    split
    · exact .refl s
    · exact .withGateway s _
  | approvePending =>
    simp only [Service.handle]
    split
    · exact .refl s
    · exact .withGateway s _
  | rejectPending =>
    simp only [Service.handle]
    split
    · exact .refl s
    · exact .withGateway s _
  | _ => cases hw

/-! ## Every step -/

/-- A reload past its transaction leaves the tables. -/
theorem reload_tables {t : Reload} (ht : ¬ t.fresh) (k : Choice) (c : Config) :
    (t.step k c).2.sources = c.sources ∧ (t.step k c).2.actuators = c.actuators ∧ (t.step k c).2.rules = c.rules ∧
      ¬ (t.step k c).1.fresh := by
  cases t with
  | commit c => exact absurd trivial ht
  | list part =>
    cases part <;> (simp only [Reload.step]; split <;> exact ⟨rfl, rfl, rfl, id⟩)
  | sync sources => exact ⟨rfl, rfl, rfl, id⟩
  | setSpecs specs => exact ⟨rfl, rfl, rfl, id⟩
  | setRules rules => exact ⟨rfl, rfl, rfl, id⟩
  | done => exact ⟨rfl, rfl, rfl, id⟩

/-- The daemon's callback decides on no item. -/
theorem exec_submitAdvisory_decides (s : Site) (f : Faults) (a : Advisory) {may : Nat → QueueStatus → Prop} :
    Store.DecidesOnly may s.store (Main.exec s.gateway (.submitAdvisory f a)).store := by
  obtain ⟨rows, hrows, hpending⟩ :=
    evaluateFrom_queue f a s.config.engine.rules 0 { world := ⟨s.config.daemon, s.store.queue⟩ }
  have happend : Store.DecidesOnly may s.store (s.gateway.submitAdvisory f a).store := .append hrows hpending
  exact happend.trans (.of_queue (Main.report_queue _ _))

theorem exec_driveAllFailsafe_decides (s : Site) (reason : String) (fails : String → Bool) (order : List String)
    {may : Nat → QueueStatus → Prop} :
    Store.DecidesOnly may s.store (Main.exec s.gateway (.driveAllFailsafe reason fails order)).store :=
  .of_queue (Main.report_queue _ _)

/-- What holds in every run: no transaction is left to a thread, each specification the daemon has is under its own id,
and the clock goes forward. -/
structure Sound (x : Stored) (s : Site) : Prop where
  threads : ∀ t ∈ s.pool.threads, ¬ t.fresh
  keyed : s.config.daemon.Keyed
  clock : x.now ≤ s.now

theorem Sound.request (h : Sound x s) (r : HttpRequest T) (k : Turn) : Sound x (s.exec d (.request r k)) := by
  rcases serve_cases d s r k with heq | ⟨-, heq⟩ | ⟨route, value, claims, hroute, hw, -, -, heq⟩
  · have heq : s.exec d (.request r k) = s := heq
    rw [heq]
    exact h
  · have heq : s.exec d (.request r k) = { s with issued := session s.now :: s.issued } := heq
    rw [heq]
    exact ⟨h.threads, h.keyed, h.clock⟩
  · have heq : s.exec d (.request r k) = (d.handle s route.handler value r k).2 := heq
    have hkept := Kept.handle d s hw value r k
    rw [heq]
    refine ⟨fun t ht => ?_, (d.handle_asked h.keyed hroute k).1, h.clock.trans (Nat.le_of_eq hkept.now.symm)⟩
    obtain ⟨parts, hparts⟩ := hkept.threads
    rw [hparts] at ht
    rcases List.mem_append.1 ht with ht | ht
    · exact h.threads t ht
    · obtain ⟨part, -, rfl⟩ := List.mem_map.1 ht
      exact id

theorem Sound.exec (h : Sound x s) {a : SiteAct T} (he : s.enabled a) : Sound x (s.exec d a) := by
  cases a with
  | wait dt => exact ⟨h.threads, h.keyed, h.clock.trans (Nat.le_add_right _ _)⟩
  | request r k => exact h.request r k
  | submitAdvisory f a =>
    exact ⟨h.threads, (Server.exec_asked (g := s.gateway) h.keyed (.submitAdvisory f a)).1, h.clock⟩
  | driveAllFailsafe reason fails order =>
    exact ⟨h.threads, (Server.exec_asked (g := s.gateway) h.keyed (.driveAllFailsafe reason fails order)).1, h.clock⟩
  | reload i k =>
    obtain ⟨t, ht, -⟩ := he
    have hfresh : ¬ t.fresh := h.threads t (List.mem_of_getElem? ht)
    simp only [Site.exec, ht]
    refine ⟨fun u hu => ?_, ?_, h.clock⟩
    · rcases List.mem_or_eq_of_mem_set hu with hu | rfl
      · exact h.threads u hu
      · exact (reload_tables hfresh k s.pool.shared).2.2.2
    · show (t.step k s.config).2.daemon.Keyed
      cases t with
      | commit c => exact absurd trivial hfresh
      | list part => cases part <;> (simp only [Reload.step]; split <;> exact h.keyed)
      | sync sources => exact h.keyed
      | setSpecs specs => exact s.config.daemon.setSpecs_keyed specs _ _
      | setRules rules => exact h.keyed
      | done => exact h.keyed

theorem sound {ok : Site → SiteAct T → Prop} (h : (sys d x).Reachable ok s) : Sound x s := by
  refine h.invariant (P := Sound x) ⟨fun t ht => ?_, nofun, Nat.le_refl _⟩ (fun y a hsound he _ => hsound.exec he)
  simp only [sys, start, List.mem_cons, List.not_mem_nil, or_false] at ht
  rcases ht with rfl | rfl | rfl <;> exact id

/-- The tokens there are go with a step, but for that of a login. -/
theorem exec_issued (d : Service T) (s : Site) (a : SiteAct T) :
    (s.exec d a).issued = s.issued ∨
      ∃ r k, a = .request r k ∧ d.LogsIn r ∧ (s.exec d a).issued = session s.now :: s.issued := by
  cases a with
  | request r k =>
    rcases serve_cases d s r k with heq | ⟨hlogin, heq⟩ | ⟨route, value, claims, -, hw, -, -, heq⟩
    · exact .inl (congrArg Site.issued heq)
    · exact .inr ⟨r, k, rfl, hlogin, congrArg Site.issued heq⟩
    · exact .inl ((congrArg Site.issued heq).trans (Kept.handle d s hw value r k).issued)
  | reload i k =>
    refine .inl ?_
    unfold Site.exec
    dsimp only
    split <;> rfl
  | _ => exact .inl rfl

/-- **The tokens are from logins.** -/
theorem issued_reachable (h : (sys d x).Reachable d.Unforged s) : ∀ c ∈ s.issued, Issued d x s c := by
  refine h.invariant_with (P := fun s => ∀ c ∈ s.issued, Issued d x s c) (fun c hc => ?_) ?_
  · obtain ⟨t, ht, rfl⟩ := List.mem_map.1 hc
    exact .inl ⟨t, ht, rfl⟩
  · intro y a hy hissued he hk c hc
    have hlater : ∀ c ∈ y.issued, Issued d x (y.exec d a) c := by
      intro c hc
      rcases hissued c hc with hold | ⟨s₀, r, k, hs₀, hk₀, hlogin, hrun, heq⟩
      · exact .inl hold
      · exact .inr ⟨s₀, r, k, hs₀, hk₀, hlogin, hrun.tail ⟨a, he, hk, rfl⟩, heq⟩
    have hc : c ∈ (y.exec d a).issued := hc
    rcases exec_issued d y a with heq | ⟨r, k, rfl, hlogin, heq⟩
    · exact hlater c (heq ▸ hc)
    · rw [heq] at hc
      rcases List.mem_cons.1 hc with rfl | hc
      · exact .inr ⟨y, r, k, hy, hk, hlogin, .refl, rfl⟩
      · exact hlater c hc

/-- **A token that verifies has somebody behind it, and the scope.** -/
theorem verified_authorised (h : (sys d x).Reachable d.Unforged s) {r : HttpRequest T} {k : Turn}
    (hk : d.Unforged s (.request r k)) {claims : Claims} (hv : d.verified s.now r = some claims) :
    Authorised d x s r ∧ claims.scope = "config:write" := by
  unfold Service.verified at hv
  cases hb : r.bearer with
  | none => simp [hb] at hv
  | some t =>
    have hdecode : d.tokenAuth.decode s.now t = some claims := by simpa [hb] using hv
    obtain ⟨c, hc, rfl⟩ := hk t claims hb hdecode
    rw [d.tokenAuth.decode_encode] at hdecode
    split at hdecode
    · rename_i hlt
      have hissued := issued_reachable h c hc
      refine ⟨⟨c, hissued, hb, hlt⟩, ?_⟩
      rw [← Option.some.inj hdecode]
      rcases hissued with ⟨t, -, rfl⟩ | ⟨s₀, -, -, -, -, -, -, rfl⟩ <;> rfl
    · cases hdecode

end Site

/-- The request asks for the deed. -/
def Service.asks {T : Type} (d : Service T) (r : HttpRequest T) (deed : Deed) : Prop :=
  ∃ route value, dispatch d.isLocal r.method r.path = .ok (route, value) ∧ route.handler.asks value r.body deed

namespace Site

variable {T : Type} {d : Service T} {x : Stored} {s : Site}

/-- **A step in which nobody is let in to write changes nothing that is configured or decided.** -/
theorem exec_shows_same (h : Sound x s) {a : SiteAct T}
    (hnobody : ∀ r k, a = .request r k → d.isLocal = true → d.verified s.now r = none) (deed : Deed) :
    (s.exec d a).shows deed ↔ s.shows deed := by
  have hgateway : ∀ {g : Server}, Store.DecidesOnly (fun _ _ => False) s.store g.store →
      ((s.withGateway g).shows deed ↔ s.shows deed) := by
    intro g hdecides
    cases deed with
    | decided id status => exact and_congr_right fun hne => hdecides.decided_iff hne
    | _ => exact Iff.rfl
  cases a with
  | wait dt => exact Iff.rfl
  | request r k =>
    rcases serve_cases d s r k with heq | ⟨-, heq⟩ | ⟨route, value, claims, -, -, hv, hlocal, -⟩
    · have heq : s.exec d (.request r k) = s := heq
      rw [heq]
    · have heq : s.exec d (.request r k) = { s with issued := session s.now :: s.issued } := heq
      rw [heq]
      exact Iff.rfl
    · rw [hnobody r k rfl hlocal] at hv
      cases hv
  | submitAdvisory f a => exact hgateway (exec_submitAdvisory_decides s f a)
  | driveAllFailsafe reason fails order => exact hgateway (exec_driveAllFailsafe_decides s reason fails order)
  | reload i k =>
    cases ht : s.pool.threads[i]? with
    | none => simp only [Site.exec, ht]
    | some t =>
      obtain ⟨hsources, hactuators, hrules, -⟩ := reload_tables (h.threads t (List.mem_of_getElem? ht)) k s.pool.shared
      simp only [Site.exec, ht]
      cases deed with
      | source id row =>
        show (t.step k s.pool.shared).2.sources.find id = row ↔ _
        rw [hsources]
        exact Iff.rfl
      | target id row => exact Iff.rfl
      | actuator id row =>
        show (t.step k s.pool.shared).2.actuators.find id = row ↔ _
        rw [hactuators]
        exact Iff.rfl
      | rule id row =>
        show (t.step k s.pool.shared).2.rules.find id = row ↔ _
        rw [hrules]
        exact Iff.rfl
      | decided id status =>
        have hdecides : Store.DecidesOnly (fun _ _ => False) s.store (Main.report s.config.daemon
            ⟨(t.step k s.pool.shared).2.engine, (t.step k s.pool.shared).2.daemon, s.store⟩).store :=
          .of_queue (Main.report_queue _ _)
        exact and_congr_right fun hne => hdecides.decided_iff hne

/-- **Only a request shows something new**, one with a token that verifies, and only what it asks for. -/
theorem exec_shows (h : Sound x s) {a : SiteAct T} {deed : Deed} (hnot : ¬ s.shows deed)
    (hshows : (s.exec d a).shows deed) :
    d.isLocal = true ∧ ∃ r k claims, a = .request r k ∧ d.asks r deed ∧ d.verified s.now r = some claims := by
  cases a with
  | request r k =>
    rcases serve_cases d s r k with heq | ⟨-, heq⟩ | ⟨route, value, claims, hroute, hw, hv, hlocal, heq⟩
    · have heq : s.exec d (.request r k) = s := heq
      rw [heq] at hshows
      exact absurd hshows hnot
    · have heq : s.exec d (.request r k) = { s with issued := session s.now :: s.issued } := heq
      rw [heq] at hshows
      exact absurd hshows hnot
    · have heq : s.exec d (.request r k) = (d.handle s route.handler value r k).2 := heq
      rw [heq] at hshows
      exact ⟨hlocal, r, k, claims, rfl, ⟨route, value, hroute, d.handle_shows hnot hshows⟩, hv⟩
  | _ => exact absurd ((exec_shows_same h (fun _ _ heq => by cases heq) deed).1 hshows) hnot

/-- **Whatever is configured or decided was asked for by somebody who had logged in.**  In every run, what is stored under
an id, or is no longer, and was not so when the gateway came up, and each decision on a queued advisory, goes back to a
request for just that, with a token from a login less than a day before. -/
theorem deed_authorised (h : (sys d x).Reachable d.Unforged s) {deed : Deed} (hnot : ¬ (start x).shows deed)
    (hshows : s.shows deed) :
    ∃ s' r k, (sys d x).Reachable d.Unforged s' ∧ d.Unforged s' (.request r k) ∧ d.asks r deed ∧ Authorised d x s' r ∧
      (s'.exec d (.request r k)).shows deed ∧ (sys d x).Reaches d.Unforged (s'.exec d (.request r k)) s := by
  obtain ⟨s', a, hs', -, hk, hnot', hafter, hrun⟩ := h.arises (Q := fun s => s.shows deed) hnot hshows
  obtain ⟨-, r, k, claims, rfl, hasks, hv⟩ := exec_shows (sound hs') hnot' hafter
  exact ⟨s', r, k, hs', hk, hasks, (verified_authorised (k := k) hs' hk hv).1, hafter, hrun⟩

/-- A local gateway whose tokens are their claims and whose hash is the password. -/
def localService : Service Claims where
  isLocal := true
  adminPassword := "secret"
  tokenAuth := ⟨id, fun now c => if now < c.exp then some c else none, fun _ _ => rfl⟩
  compareHashAndPassword := fun hash password => decide (hash = password)

def floodGateOnly : Stored where
  sources := .empty
  actuators := Table.empty.upsert Server.floodGate
  rules := .empty
  targets := .empty
  store := {}

def login : SiteAct Claims :=
  .request { method := "POST", path := ["v1", "auth", "login"], body := { login := some "secret" } } {}

def putRule : SiteAct Claims :=
  .request { method := "PUT", path := ["v1", "config", "rules"], bearer := some (session 0),
             body := { rule := some closeOnFlood } } {}

theorem deed_authorised_putRule :
    ∃ s' r k, (sys localService floodGateOnly).Reachable localService.Unforged s' ∧
      localService.Unforged s' (.request r k) ∧
      localService.asks r (.rule "close" (some closeOnFlood)) ∧ Authorised localService floodGateOnly s' r ∧
      (s'.exec localService (.request r k)).shows (.rule "close" (some closeOnFlood)) ∧
      (sys localService floodGateOnly).Reaches localService.Unforged (s'.exec localService (.request r k))
        ((sys localService floodGateOnly).run [login, putRule] (start floodGateOnly)) := by
  have hlegal : (sys localService floodGateOnly).Legal localService.Unforged [login, putRule] (start floodGateOnly) := by
    refine ⟨trivial, nofun, trivial, fun t _ ht _ => ⟨session 0, ?_, (Option.some.inj ht).symm⟩, trivial⟩
    show session 0 ∈ ((sys localService floodGateOnly).run [login] (start floodGateOnly)).issued
    decide +kernel
  refine deed_authorised (Sys.reaches_run _ _ hlegal) nofun ?_
  show ((sys localService floodGateOnly).run [login, putRule] (start floodGateOnly)).config.rules.find "close" =
    some closeOnFlood
  decide +kernel

/-! ## Commands -/

/-- Why the backend was asked `a` in a step from `s`, if operators are those `who` makes of the requests. -/
inductive Cause (d : Service T) (who : Site → HttpRequest T → Prop) (s : Site) : SiteAct T → Apply → Prop where
  | initialised {i : Nat} {k : Choice} {specs : List Spec} {spec : Spec} {a : Apply}
      (hthread : s.pool.threads[i]? = some (.setSpecs specs)) (hmem : spec ∈ specs) (henabled : spec.enabled = true)
      (hid : spec.id = a.actuatorId) (hstate : a.state = spec.failsafeState) : Cause d who s (.reload i k) a
  | failsafe {reason : String} {fails : String → Bool} {order : List String} {a : Apply}
      (h : Server.Provenance s.gateway (.driveAllFailsafe reason fails order) a) :
      Cause d who s (.driveAllFailsafe reason fails order) a
  | rule {f : Faults} {adv : Advisory} {a : Apply} (h : Server.Provenance s.gateway (.submitAdvisory f adv) a) :
      Cause d who s (.submitAdvisory f adv) a
  | operator {r : HttpRequest T} {k : Turn} {c : Call} {a : Apply} (hwho : who s r)
      (hcall : d.call r k = some c) (h : Server.Provenance s.gateway c a) : Cause d who s (.request r k) a

/-- **What a step asks of the backend has a cause**, if a request that is let in to write has an operator. -/
theorem Sound.exec_asked (h : Sound x s) {a : SiteAct T} (he : s.enabled a) {who : Site → HttpRequest T → Prop}
    (hwho : ∀ r k, a = .request r k → d.isLocal = true → d.verified s.now r ≠ none → who s r) :
    Daemon.Asked (Cause d who s a) s.config.daemon (s.exec d a).config.daemon := by
  cases a with
  | wait dt => exact .refl _
  | request r k =>
    rcases serve_cases d s r k with heq | ⟨-, heq⟩ | ⟨route, value, claims, hroute, hw, hv, hlocal, heq⟩
    · have heq : s.exec d (.request r k) = s := heq
      rw [heq]
      exact .refl _
    · have heq : s.exec d (.request r k) = { s with issued := session s.now :: s.issued } := heq
      rw [heq]
      exact .refl _
    · have heq : s.exec d (.request r k) = (d.handle s route.handler value r k).2 := heq
      rw [heq]
      refine (d.handle_asked h.keyed hroute k).2.mono ?_
      rintro a ⟨c, hc, hprov⟩
      refine .operator (hwho r k rfl hlocal ?_) hc hprov
      rw [hv]
      exact Option.some_ne_none claims
  | submitAdvisory f adv =>
    exact (Server.exec_asked (g := s.gateway) h.keyed (.submitAdvisory f adv)).2.mono fun a ha => .rule ha
  | driveAllFailsafe reason fails order =>
    exact (Server.exec_asked (g := s.gateway) h.keyed (.driveAllFailsafe reason fails order)).2.mono fun a ha => .failsafe ha
  | reload i k =>
    obtain ⟨t, ht, -⟩ := he
    simp only [Site.exec, ht]
    show Daemon.Asked _ s.config.daemon (t.step k s.config).2.daemon
    cases t with
    | commit c => exact absurd trivial (h.threads _ (List.mem_of_getElem? ht))
    | list part => cases part <;> (simp only [Reload.step]; split <;> exact .refl _)
    | sync sources => exact .refl _
    | setSpecs specs =>
      refine (s.config.daemon.setSpecs_asked specs k.undriven k.wanted).mono ?_
      rintro a ⟨spec, hmem, henabled, hid, hstate⟩
      exact .initialised ht hmem henabled hid hstate
    | setRules rules => exact .refl _
    | done => exact .refl _

/-- **The `n`-th command has a cause in the run.** -/
theorem command_arises {ok : Site → SiteAct T → Prop} (who : Site → HttpRequest T → Prop)
    (hwho : ∀ s r k, (sys d x).Reachable ok s → ok s (.request r k) → d.isLocal = true → d.verified s.now r ≠ none →
      who s r)
    (h : (sys d x).Reachable ok s) {n : Nat} {a : Apply} (ha : s.config.daemon.applies.reverse[n]? = some a) :
    ∃ s' act, (sys d x).Reachable ok s' ∧ s'.enabled act ∧ ok s' act ∧ (sys d x).Reaches ok (s'.exec d act) s ∧
      s'.config.daemon.applies.length ≤ n ∧ n < (s'.exec d act).config.daemon.applies.length ∧ Cause d who s' act a := by
  have hnone : ¬ (start x).config.daemon.applies.reverse[n]? = some a := by
    show ¬ ([] : List Apply)[n]? = some a
    simp
  obtain ⟨s', act, hs', he, hk, hnot, hafter, hrun⟩ :=
    h.arises (Q := fun s => s.config.daemon.applies.reverse[n]? = some a) hnone ha
  have hasked : Daemon.Asked (Cause d who s' act) s'.config.daemon (s'.exec d act).config.daemon :=
    (sound hs').exec_asked he (fun r k hact => hwho s' r k hs' (hact ▸ hk))
  obtain ⟨hge, hlt, hcause⟩ := hasked.nth hnot hafter
  exact ⟨s', act, hs', he, hk, hrun, hge, hlt, hcause⟩

/-- **Every command has a cause, and every operator had logged in.**  The `n`-th command the backend was given in a run
was given in a step of it, to bring an actuator to its failsafe state, by an enabled rule that needs no operator, or for a
request with a token from a login less than a day before. -/
theorem command_authorised (h : (sys d x).Reachable d.Unforged s) {n : Nat} {a : Apply}
    (ha : s.config.daemon.applies.reverse[n]? = some a) :
    ∃ s' act, (sys d x).Reachable d.Unforged s' ∧ s'.enabled act ∧ d.Unforged s' act ∧
      (sys d x).Reaches d.Unforged (s'.exec d act) s ∧ s'.config.daemon.applies.length ≤ n ∧
      n < (s'.exec d act).config.daemon.applies.length ∧ Cause d (Authorised d x) s' act a := by
  refine command_arises _ (fun s r k hs hk _ hv => ?_) h ha
  obtain ⟨claims, hclaims⟩ := Option.ne_none_iff_exists'.1 hv
  exact (verified_authorised (k := k) hs hk hclaims).1

/-- A gateway that came up an hour after a login. -/
def restarted : Stored := { floodGateOnly with now := 3600, logins := [0] }

/-- The gate is configured and closed; then the operator opens it with the token from before. -/
def gateOpened : List (SiteAct Claims) :=
  [.reload 0 {}, .reload 0 { wanted := ["flood-gate"] },
    .request { method := "POST", path := ["v1", "control", "actuate"], bearer := some (session 0),
               body := { actuate := some { actuatorId := "flood-gate", targetState := "open" } } } {}]

theorem command_authorised_gateOpened :
    ∃ s' act, (sys localService restarted).Reachable localService.Unforged s' ∧ s'.enabled act ∧
      localService.Unforged s' act ∧
      (sys localService restarted).Reaches localService.Unforged (s'.exec localService act)
        ((sys localService restarted).run gateOpened (start restarted)) ∧
      s'.config.daemon.applies.length ≤ 1 ∧ 1 < (s'.exec localService act).config.daemon.applies.length ∧
      Cause localService (Authorised localService restarted) s' act ⟨"flood-gate", "open", false⟩ := by
  have hlegal : (sys localService restarted).Legal localService.Unforged gateOpened (start restarted) := by
    refine ⟨⟨_, rfl, trivial⟩, trivial, ⟨_, rfl, Main.ranges_floodGate⟩, trivial, trivial,
      fun t _ ht _ => ⟨session 0, ?_, (Option.some.inj ht).symm⟩, trivial⟩
    show session 0 ∈ ((sys localService restarted).run (gateOpened.take 2) (start restarted)).issued
    decide +kernel
  refine command_authorised (Sys.reaches_run _ _ hlegal) ?_
  decide +kernel

/-! ## A gateway nobody can log in to -/

end Site

/-! ## What a reply gives away -/

/-- Rows of the database are in the reply. -/
def Reply.discloses {T : Type} : Reply T → Bool
  | .sources _ => true
  | .targets _ => true
  | .actuators _ => true
  | .rules _ => true
  | .audit _ => true
  | .pending _ => true
  | _ => false

def Reply.granted {T : Type} : Reply T → Option T
  | .token t => some t
  | _ => none

/-- The reply gives away no more than the handler may. -/
structure Reply.Fits {T : Type} (d : Service T) (s : Site) (r : HttpRequest T) (h : Handler) (reply : Reply T) : Prop where
  discloses : reply.discloses = true → h.discloses = true
  token : ∀ t, reply.granted = some t → h = .localLogin ∧ t = d.tokenAuth.encode (session s.now) ∧
    ∃ password, r.body.login = some password ∧ d.adminPassword ≠ "" ∧
      d.compareHashAndPassword d.adminPassword password = true

namespace Site

variable {T : Type} {d : Service T} {x : Stored} {s : Site} {r : HttpRequest T} {h : Handler} {reply : Reply T}

theorem fits_plain (hdiscloses : reply.discloses = false) (hgranted : reply.granted = none) : reply.Fits d s r h :=
  ⟨fun hyes => absurd (hdiscloses.symm.trans hyes) Bool.false_ne_true,
    fun t ht => absurd (hgranted.symm.trans ht) (Option.some_ne_none t).symm⟩

theorem fits_list (hh : h.discloses = true) (fails : Bool) (hgranted : reply.granted = none) :
    (s.list fails reply).1.Fits d s r h := by
  unfold Site.list
  split
  · exact fits_plain rfl rfl
  · exact ⟨fun _ => hh, fun t ht => absurd (hgranted.symm.trans ht) (Option.some_ne_none t).symm⟩

theorem fits_change (s' : Site) (fails : Bool) (c : Change) (refused : Nat) (entry : AuditLog)
    (hdiscloses : reply.discloses = false) (hgranted : reply.granted = none) :
    (s'.change fails c refused entry reply).1.Fits d s r h := by
  unfold Site.change
  split
  · exact fits_plain rfl rfl
  · exact fits_plain hdiscloses hgranted

theorem fits_control (res : Nat × Server) : (s.control res).1.Fits d s r h := by
  unfold Site.control
  split <;> exact fits_plain rfl rfl

theorem handle_fits (d : Service T) (s : Site) (h : Handler) (value : String) (r : HttpRequest T) (k : Turn) :
    (d.handle s h value r k).1.Fits d s r h := by
  cases h with
  | localLogin =>
    simp only [Service.handle]
    split
    · exact fits_plain rfl rfl
    rename_i password hbody
    split
    · exact fits_plain rfl rfl
    rename_i hcheck
    split
    · exact fits_plain rfl rfl
    unfold Service.checkPassword at hcheck
    by_cases hadmin : d.adminPassword = ""
    · simp [hadmin] at hcheck
    · have hmatch : d.compareHashAndPassword d.adminPassword password = true := by simpa [hadmin] using hcheck
      refine ⟨fun hno => absurd hno Bool.false_ne_true, fun t ht => ?_⟩
      exact ⟨rfl, (Option.some.inj ht).symm, password, hbody, hadmin, hmatch⟩
  | listSources => exact fits_list rfl _ rfl
  | listTargets => exact fits_list rfl _ rfl
  | listActuators => exact fits_list rfl _ rfl
  | listRules => exact fits_list rfl _ rfl
  | audit => exact fits_list rfl _ rfl
  | listPending => exact fits_list rfl _ rfl
  | upsertSource =>
    simp only [Service.handle]
    split
    · exact fits_plain rfl rfl
    · exact fits_change s _ _ _ _ rfl rfl
  | deleteSource => exact fits_change s _ _ _ _ rfl rfl
  | upsertTarget =>
    simp only [Service.handle, Site.upsertTarget]
    split
    · exact fits_plain rfl rfl
    split
    · exact fits_plain rfl rfl
    split <;> exact fits_plain rfl rfl
  | deleteTarget =>
    simp only [Service.handle, Site.deleteTarget]
    split
    · exact fits_plain rfl rfl
    · exact fits_change s _ _ _ _ rfl rfl
  | upsertActuator =>
    simp only [Service.handle]
    split
    · exact fits_plain rfl rfl
    · exact fits_change s _ _ _ _ rfl rfl
  | deleteActuator => exact fits_change s _ _ _ _ rfl rfl
  | upsertRule =>
    simp only [Service.handle]
    split
    · exact fits_plain rfl rfl
    · exact fits_change s _ _ _ _ rfl rfl
  | deleteRule => exact fits_change s _ _ _ _ rfl rfl
  | actuate =>
    simp only [Service.handle]
    split
    · exact fits_plain rfl rfl
    · exact fits_control _
  | approvePending =>
    simp only [Service.handle]
    split
    · exact fits_plain rfl rfl
    · exact fits_control _
  | rejectPending =>
    simp only [Service.handle]
    split
    · exact fits_plain rfl rfl
    · exact fits_control _
  | _ => exact fits_plain rfl rfl

/-- **What is stored is shown to those who have logged in, and tokens go to those who log in.**  Nobody whose token
verifies is refused for its scope. -/
theorem reply_authorised (hs : (sys d x).Reachable d.Unforged s) {k : Turn} (hk : d.Unforged s (.request r k)) :
    ((d.serve s r k).1.discloses = true → Authorised d x s r) ∧
    (∀ t, (d.serve s r k).1 = .token t → d.LogsIn r ∧ t = d.tokenAuth.encode (session s.now)) ∧
    (∀ route value, dispatch d.isLocal r.method r.path = .ok (route, value) → d.refusal s.now route.tier r ≠ some 403) := by
  refine ⟨fun hdiscloses => ?_, fun t ht => ?_, fun route value hroute hrefusal => ?_⟩
  · unfold Service.serve at hdiscloses
    split at hdiscloses
    · cases hdiscloses
    rename_i route value hroute
    split at hdiscloses
    · cases hdiscloses
    rename_i hrefusal
    have hh := (handle_fits d s route.handler value r k).discloses hdiscloses
    obtain ⟨-, hread, -⟩ := routes_guarded d.isLocal route (dispatch_ok hroute).1
    rw [(hread hh).1] at hrefusal
    simp only [Service.refusal, ite_eq_right_iff, reduceCtorEq, imp_false] at hrefusal
    obtain ⟨claims, hclaims⟩ := Option.ne_none_iff_exists'.1 (by simpa using hrefusal)
    exact (verified_authorised (k := k) hs hk hclaims).1
  · unfold Service.serve at ht
    split at ht
    · cases ht
    rename_i route value hroute
    split at ht
    · cases ht
    obtain ⟨hlogin, heq, hpassword⟩ := (handle_fits d s route.handler value r k).token t (congrArg Reply.granted ht)
    obtain ⟨-, -, hlocal, -⟩ := routes_guarded d.isLocal route (dispatch_ok hroute).1
    exact ⟨⟨hlocal hlogin, hpassword⟩, heq⟩
  · obtain ⟨-, -, -, hscopes⟩ := routes_guarded d.isLocal route (dispatch_ok hroute).1
    unfold Service.refusal at hrefusal
    split at hrefusal
    · cases hrefusal
    · split at hrefusal <;> cases hrefusal
    · rename_i scope htier
      split at hrefusal
      · cases hrefusal
      rename_i claims hclaims
      have hscope : claims.scope = scope := ((verified_authorised (k := k) hs hk hclaims).2).trans (hscopes scope htier).symm
      rw [if_neg (not_not.2 hscope)] at hrefusal
      cases hrefusal

def getRules : HttpRequest Claims :=
  { method := "GET", path := ["v1", "config", "rules"], bearer := some (session 0) }

/-- After the login. -/
def loggedIn : Site := (sys localService floodGateOnly).run [login] (start floodGateOnly)

/-- The rules are shown to one who has logged in. -/
theorem reply_authorised_getRules : Authorised localService floodGateOnly loggedIn getRules := by
  have hlegal : (sys localService floodGateOnly).Legal localService.Unforged [login] (start floodGateOnly) :=
    ⟨trivial, nofun, trivial⟩
  refine (reply_authorised (Sys.reaches_run _ _ hlegal) (k := {}) fun t _ ht _ => ⟨session 0, ?_, (Option.some.inj ht).symm⟩).1
    (by decide +kernel)
  show session 0 ∈ loggedIn.issued
  decide +kernel

end Site

end Gateway
end FloodEws
