import Mathlib.Algebra.Group.Nat.Defs
import FloodEws.Config
import FloodEws.Audit
import FloodEws.Schema
/-!
# Http — `gateway/server/api`

The service of the gateway as a request finds it: the patterns of `Routes`, the token and the scope they ask for, and the
handlers over the store and the running components.

A handler that changes the configuration commits and leaves the list and the hand-over to a thread of `Config`; one of
`/v1/control` is a call of the gateway `main` has wired.  The token library and bcrypt are parameters.
-/
namespace FloodEws
namespace Gateway

/-- The claims of a token; one that is missing is empty. -/
structure Claims where
  sub : String
  scope : String
  exp : Nat
deriving DecidableEq, Repr

/-- The token library with the server's key; times are in seconds. -/
structure Jwt (T : Type) where
  encode : Claims → T
  /-- the claims of a token that verifies -/
  decode : Nat → T → Option Claims
  decode_encode : ∀ now c, decode now (encode c) = if now < c.exp then some c else none

/-- What `NewServer` fixes. -/
structure Service (T : Type) where
  isLocal : Bool
  adminPassword : String
  tokenAuth : Jwt T
  compareHashAndPassword : String → String → Bool

/-- What decoding the body gives, for each type a handler decodes it into. -/
structure Body where
  login : Option String := none
  source : Option ExternalSource := none
  target : Option EgressTarget := none
  actuator : Option Spec := none
  rule : Option Rule := none
  actuate : Option ActuateRequest := none

/-- A request: the token of its `Authorization` header or its cookie, and the header `X-Actor`. -/
structure HttpRequest (T : Type) where
  method : String
  path : List String
  bearer : Option T := none
  actor : String := ""
  body : Body := {}

/-! ## `Routes` -/

inductive Handler where
  | healthz
  | readings
  | actuatorStates
  | localLogin
  | listSources
  | listTargets
  | listActuators
  | listRules
  | audit
  | upsertSource
  | deleteSource
  | upsertTarget
  | deleteTarget
  | upsertActuator
  | deleteActuator
  | upsertRule
  | deleteRule
  | actuate
  | listPending
  | approvePending
  | rejectPending
deriving DecidableEq, Repr

/-- What a request has to show. -/
inductive Tier where
  | everyone
  | authenticated
  | scoped (scope : String)
deriving DecidableEq, Repr

/-- A segment of a pattern: a text, or the wildcard `{id}`. -/
inductive Segment where
  | text (s : String)
  | id
deriving DecidableEq, Repr

structure Route where
  method : String
  path : List Segment
  tier : Tier
  handler : Handler
deriving DecidableEq, Repr

def dashboardRoutes : List Route :=
  [⟨"GET", [.text "healthz"], .everyone, .healthz⟩,
    ⟨"GET", [.text "v1", .text "dashboard", .text "readings"], .everyone, .readings⟩,
    ⟨"GET", [.text "v1", .text "dashboard", .text "actuators"], .everyone, .actuatorStates⟩]

def writeScope : Tier := .scoped "config:write"

def localRoutes : List Route :=
  [⟨"POST", [.text "v1", .text "auth", .text "login"], .everyone, .localLogin⟩,
    ⟨"GET", [.text "v1", .text "config", .text "sources"], .authenticated, .listSources⟩,
    ⟨"GET", [.text "v1", .text "config", .text "targets"], .authenticated, .listTargets⟩,
    ⟨"GET", [.text "v1", .text "config", .text "actuators"], .authenticated, .listActuators⟩,
    ⟨"GET", [.text "v1", .text "config", .text "rules"], .authenticated, .listRules⟩,
    ⟨"GET", [.text "v1", .text "config", .text "audit"], .authenticated, .audit⟩,
    ⟨"PUT", [.text "v1", .text "config", .text "sources"], writeScope, .upsertSource⟩,
    ⟨"DELETE", [.text "v1", .text "config", .text "sources", .id], writeScope, .deleteSource⟩,
    ⟨"PUT", [.text "v1", .text "config", .text "targets"], writeScope, .upsertTarget⟩,
    ⟨"DELETE", [.text "v1", .text "config", .text "targets", .id], writeScope, .deleteTarget⟩,
    ⟨"PUT", [.text "v1", .text "config", .text "actuators"], writeScope, .upsertActuator⟩,
    ⟨"DELETE", [.text "v1", .text "config", .text "actuators", .id], writeScope, .deleteActuator⟩,
    ⟨"PUT", [.text "v1", .text "config", .text "rules"], writeScope, .upsertRule⟩,
    ⟨"DELETE", [.text "v1", .text "config", .text "rules", .id], writeScope, .deleteRule⟩,
    ⟨"POST", [.text "v1", .text "control", .text "actuate"], writeScope, .actuate⟩,
    ⟨"GET", [.text "v1", .text "control", .text "pending"], .authenticated, .listPending⟩,
    ⟨"POST", [.text "v1", .text "control", .text "pending", .id, .text "approve"], writeScope, .approvePending⟩,
    ⟨"POST", [.text "v1", .text "control", .text "pending", .id, .text "reject"], writeScope, .rejectPending⟩]

def routes (isLocal : Bool) : List Route := dashboardRoutes ++ if isLocal then localRoutes else []

/-- The path value if the path fits; a wildcard takes a segment that is not empty. -/
def matchPath : List Segment → List String → Option String
  | [], [] => some ""
  | .text s :: ps, x :: xs => if s = x then matchPath ps xs else none
  | .id :: ps, x :: xs => if x = "" then none else (matchPath ps xs).map fun _ => x
  | _, _ => none

/-- A pattern for `GET` takes `HEAD` too. -/
def Route.allows (r : Route) (method : String) : Bool :=
  decide (method = r.method) || (decide (r.method = "GET") && decide (method = "HEAD"))

/-- `ServeMux` over the table: the route with the path value, or the status it refuses with. -/
def dispatch (isLocal : Bool) (method : String) (path : List String) : Except Nat (Route × String) :=
  match (routes isLocal).find? (fun r => r.allows method && (matchPath r.path path).isSome) with
  | some r => .ok (r, (matchPath r.path path).getD "")
  | none => if (routes isLocal).any (fun r => (matchPath r.path path).isSome) then .error 405 else .error 404

/-! ## The gateway behind it -/

/-- The gateway with its database; `issued` are the claims of the tokens handed out. -/
structure Site where
  now : Nat := 0
  issued : List Claims := []
  pool : Pool Config Reload
  targets : Table EgressTarget.id
  store : Store

inductive Reply (T : Type) where
  | ok
  | readings
  | states (state : String → Option String)
  | token (t : T)
  | sources (rows : List ExternalSource)
  | targets (rows : List EgressTarget)
  | actuators (rows : List Spec)
  | rules (rows : List Rule)
  | audit (entries : List AuditLog)
  | pending (items : List (Nat × QueuedAdvisory))
  | saved (id : String)
  | deleted (id : String)
  | done
  | error (code : Nat)

/-- What the environment decides in a request: whether its query or transaction fails, or making the token does, the
failures of an approval, and the time as it is formatted. -/
structure Turn where
  fails : Bool := false
  approve : ApproveFaults := {}
  now : String := ""

/-- The claims of a token issued at a time. -/
def session (now : Nat) : Claims where
  sub := "local_admin"
  scope := "config:write"
  exp := now + 24 * 3600

/-- `strconv.ParseInt(text, 10, 64)`. -/
def parseInt (text : String) : Option Int :=
  let (negative, digits) := match text.toList with
    | '-' :: ds => (true, ds)
    | '+' :: ds => (false, ds)
    | ds => (false, ds)
  if digits = [] ∨ ¬ digits.all Char.isDigit then none
  else
    let n := Nat.ofDigitChars 10 digits 0
    if negative then (if n ≤ 2 ^ 63 then some (-n) else none)
    else if n < 2 ^ 63 then some n else none

namespace Service

variable {T : Type} (d : Service T)

def checkPassword (password : String) : Bool :=
  if d.adminPassword = "" then false else d.compareHashAndPassword d.adminPassword password

/-- `Verifier`: the claims of the request's token. -/
def verified (now : Nat) (r : HttpRequest T) : Option Claims := r.bearer.bind (d.tokenAuth.decode now)

/-- `Authenticator` and `requireScope`: the status a request is refused with. -/
def refusal (now : Nat) (tier : Tier) (r : HttpRequest T) : Option Nat :=
  match tier with
  | .everyone => none
  | .authenticated => if (d.verified now r).isNone then some 401 else none
  | .scoped scope =>
    match d.verified now r with
    | none => some 401
    | some claims => if claims.scope ≠ scope then some 403 else none

def actorFrom (r : HttpRequest T) : String := if d.isLocal ∧ r.actor ≠ "" then r.actor else "local"

end Service

namespace Site

def config (s : Site) : Config := s.pool.shared

/-- The components `/v1/control` works on. -/
def gateway (s : Site) : Server := ⟨s.config.engine, s.config.daemon, s.store⟩

def withGateway (s : Site) (g : Server) : Site :=
  { s with pool := { s.pool with shared := { s.config with engine := g.engine, daemon := g.daemon } }, store := g.store }

/-- A transaction on the configuration with its audit entry; `refused` is the status if it fails. -/
def change {T : Type} (s : Site) (fails : Bool) (c : Change) (refused : Nat) (entry : AuditLog) (reply : Reply T) :
    Reply T × Site :=
  match c.commit fails s.config with
  | .error _ => (.error refused, s)
  | .ok (part, config) =>
    (reply, { s with
      pool := ⟨config, s.pool.threads ++ (part.map Reload.list).toList⟩
      store := { s.store with audit := s.store.audit ++ [entry] } })

def upsertTarget {T : Type} (s : Site) (fails : Bool) (t : EgressTarget) (actor : String) : Reply T × Site :=
  match validateTarget t with
  | .error _ => (.error 400, s)
  | .ok _ =>
    if fails then (.error 400, s)
    else (.saved t.id, { s with
      targets := s.targets.upsert t
      store := { s.store with audit := s.store.audit ++ [⟨actor, "upsert_target", t.id⟩] } })

def deleteTarget {T : Type} (s : Site) (fails : Bool) (id actor : String) : Reply T × Site :=
  if fails then (.error 500, s)
  else
    let (reply, s) := s.change false .deleteTarget 500 ⟨actor, "delete_target", id⟩ (.deleted id)
    (reply, { s with targets := s.targets.delete id })

/-- The reply to a request on `/v1/control`. -/
def control {T : Type} (s : Site) (res : Nat × Server) : Reply T × Site :=
  (if res.1 = 200 then .done else .error res.1, s.withGateway res.2)

/-- `ListX`: what a query that fails replies. -/
def list {T : Type} (s : Site) (fails : Bool) (reply : Reply T) : Reply T × Site :=
  (if fails then .error 500 else reply, s)

/-- The rows of the queue with their ids, those that are pending. -/
def listPending (s : Site) : List (Nat × QueuedAdvisory) :=
  (s.store.queue.mapIdx fun n q => (n + 1, q)).filter fun p => decide (p.2.status = .pending)

end Site

namespace Service

variable {T : Type} (d : Service T)

def handle (s : Site) (h : Handler) (id : String) (r : HttpRequest T) (k : Turn) : Reply T × Site :=
  let actor := d.actorFrom r
  match h with
  | .healthz => (.ok, s)
  | .readings => (.readings, s)
  | .actuatorStates => (.states s.config.daemon.state, s)
  | .localLogin =>
    match r.body.login with
    | none => (.error 400, s)
    | some password =>
      if !d.checkPassword password then (.error 401, s)
      else if k.fails then (.error 500, s)
      else (.token (d.tokenAuth.encode (session s.now)), { s with issued := session s.now :: s.issued })
  | .listSources => s.list k.fails (.sources s.config.listSources)
  | .listTargets => s.list k.fails (.targets (s.targets.rows.insertionSort fun a b => a.id ≤ b.id))
  | .listActuators => s.list k.fails (.actuators s.config.listActuators)
  | .listRules => s.list k.fails (.rules s.config.listRules)
  | .audit => s.list k.fails (.audit (s.store.audit.reverse.take 100))
  | .upsertSource =>
    match r.body.source with
    | none => (.error 400, s)
    | some e => s.change k.fails (.upsertSource e) 400 ⟨actor, "upsert_source", e.id⟩ (.saved e.id)
  | .deleteSource => s.change k.fails (.deleteSource id) 500 ⟨actor, "delete_source", id⟩ (.deleted id)
  | .upsertTarget =>
    match r.body.target with
    | none => (.error 400, s)
    | some t => s.upsertTarget k.fails t actor
  | .deleteTarget => s.deleteTarget k.fails id actor
  | .upsertActuator =>
    match r.body.actuator with
    | none => (.error 400, s)
    | some a => s.change k.fails (.upsertActuator a) 400 ⟨actor, "upsert_actuator", a.id⟩ (.saved a.id)
  | .deleteActuator => s.change k.fails (.deleteActuator id) 500 ⟨actor, "delete_actuator", id⟩ (.deleted id)
  | .upsertRule =>
    match r.body.rule with
    | none => (.error 400, s)
    | some rule => s.change k.fails (.upsertRule rule) 400 ⟨actor, "upsert_rule", rule.id⟩ (.saved rule.id)
  | .deleteRule => s.change k.fails (.deleteRule id) 500 ⟨actor, "delete_rule", id⟩ (.deleted id)
  | .actuate =>
    match r.body.actuate with
    | none => (.error 400, s)
    | some req => s.control (Main.handleActuate s.gateway k.approve actor k.now req)
  | .listPending => s.list k.fails (.pending s.listPending)
  | .approvePending =>
    match parseInt id with
    | none => (.error 400, s)
    | some n => s.control (Main.handleApprovePending s.gateway k.approve n.toNat actor)
  | .rejectPending =>
    match parseInt id with
    | none => (.error 400, s)
    | some n => s.control (s.gateway.handleRejectPending k.approve n.toNat actor)

/-- A request from the route to the reply. -/
def serve (s : Site) (r : HttpRequest T) (k : Turn) : Reply T × Site :=
  match dispatch d.isLocal r.method r.path with
  | .error code => (.error code, s)
  | .ok (route, id) =>
    match d.refusal s.now route.tier r with
    | some code => (.error code, s)
    | none => d.handle s route.handler id r k

end Service

/-! ## Routes and tiers -/

/-- The handlers that change more than the tokens. -/
def Handler.writes : Handler → Bool
  | .upsertSource => true
  | .deleteSource => true
  | .upsertTarget => true
  | .deleteTarget => true
  | .upsertActuator => true
  | .deleteActuator => true
  | .upsertRule => true
  | .deleteRule => true
  | .actuate => true
  | .approvePending => true
  | .rejectPending => true
  | _ => false

/-- The handlers that reply with what is stored. -/
def Handler.discloses : Handler → Bool
  | .listSources => true
  | .listTargets => true
  | .listActuators => true
  | .listRules => true
  | .audit => true
  | .listPending => true
  | _ => false

theorem dispatch_ok {isLocal : Bool} {method : String} {path : List String} {route : Route} {id : String}
    (h : dispatch isLocal method path = .ok (route, id)) : route ∈ routes isLocal ∧ matchPath route.path path = some id := by
  unfold dispatch at h
  split at h
  · rename_i r hfind
    simp only [Except.ok.injEq, Prod.mk.injEq] at h
    obtain ⟨rfl, rfl⟩ := h
    have hfit := List.find?_some hfind
    simp only [Bool.and_eq_true, Option.isSome_iff_exists] at hfit
    obtain ⟨-, x, hx⟩ := hfit
    exact ⟨List.mem_of_find?_eq_some hfind, by simp [hx]⟩
  · split at h <;> cases h

/-- **What stands before a handler**: every one that writes asks for the scope, every one that discloses for a token, and
both are mounted on a local gateway only. -/
theorem routes_guarded (isLocal : Bool) : ∀ route ∈ routes isLocal,
    (route.handler.writes = true → route.tier = writeScope ∧ isLocal = true) ∧
    (route.handler.discloses = true → route.tier = .authenticated ∧ isLocal = true) ∧
    (route.handler = .localLogin → isLocal = true) ∧
    (∀ scope, route.tier = .scoped scope → scope = "config:write") := by
  have htier : ∀ {t : Tier}, t = .everyone ∨ t = .authenticated ∨ t = writeScope →
      ∀ scope, t = .scoped scope → scope = "config:write" := by
    rintro t (rfl | rfl | rfl) scope h <;> cases h
    rfl
  cases isLocal with
  | false =>
    intro route hmem
    have hall : ∀ route ∈ routes false, route.handler.writes = false ∧ route.handler.discloses = false ∧
        route.handler ≠ .localLogin ∧ (route.tier = .everyone ∨ route.tier = .authenticated ∨ route.tier = writeScope) := by
      decide
    obtain ⟨h1, h2, h3, h4⟩ := hall route hmem
    exact ⟨by simp [h1], by simp [h2], fun h => absurd h h3, htier h4⟩
  | true =>
    intro route hmem
    have hall : ∀ route ∈ routes true, (route.handler.writes = true → route.tier = writeScope) ∧
        (route.handler.discloses = true → route.tier = .authenticated) ∧
        (route.tier = .everyone ∨ route.tier = .authenticated ∨ route.tier = writeScope) := by
      decide
    obtain ⟨h1, h2, h4⟩ := hall route hmem
    exact ⟨fun h => ⟨h1 h, rfl⟩, fun h => ⟨h2 h, rfl⟩, fun _ => rfl, htier h4⟩

/-- Some path fits both patterns. -/
def overlaps : List Segment → List Segment → Bool
  | [], [] => true
  | .text s :: ps, .text s' :: qs => decide (s = s') && overlaps ps qs
  | .id :: ps, .text s :: qs => decide (s ≠ "") && overlaps ps qs
  | .text s :: ps, .id :: qs => decide (s ≠ "") && overlaps ps qs
  | .id :: ps, .id :: qs => overlaps ps qs
  | _, _ => false

theorem overlaps_of_match {ps qs : List Segment} {xs : List String} (hp : (matchPath ps xs).isSome)
    (hq : (matchPath qs xs).isSome) : overlaps ps qs = true := by
  induction ps generalizing qs xs with
  | nil =>
    cases xs with
    | nil =>
      cases qs with
      | nil => rfl
      | cons q qs => cases q <;> cases hq
    | cons x xs => cases hp
  | cons p ps ih =>
    cases xs with
    | nil => cases p <;> cases hp
    | cons x xs =>
      cases qs with
      | nil => cases hq
      | cons q qs =>
        have hrest : ∀ {t : Segment} {ts : List Segment}, (matchPath (t :: ts) (x :: xs)).isSome →
            (matchPath ts xs).isSome ∧ (∀ s, t = .text s → s = x) ∧ (t = .id → x ≠ "") := by
          intro t ts h
          cases t with
          | text s =>
            simp only [matchPath] at h
            split at h
            · rename_i hs
              exact ⟨h, fun s' hs' => by cases hs'; exact hs, nofun⟩
            · cases h
          | id =>
            simp only [matchPath] at h
            split at h
            · cases h
            · rename_i hx
              exact ⟨by simpa using h, nofun, fun _ => hx⟩
        obtain ⟨hp', hpt, hpi⟩ := hrest hp
        obtain ⟨hq', hqt, hqi⟩ := hrest hq
        have hover := ih hp' hq'
        cases p with
        | text s =>
          cases q with
          | text s' => simp [overlaps, hover, hpt s rfl, hqt s' rfl]
          | id => simp [overlaps, hover, hpt s rfl, hqi rfl]
        | id =>
          cases q with
          | text s' => simp [overlaps, hover, hqt s' rfl, hpi rfl]
          | id => simp [overlaps, hover]

/-- **No request fits two routes**, so it is of no matter in which order the table is searched. -/
theorem routes_disjoint {isLocal : Bool} {r r' : Route} (hr : r ∈ routes isLocal) (hr' : r' ∈ routes isLocal)
    {method : String} {path : List String} (hm : r.allows method = true) (hm' : r'.allows method = true)
    (hp : (matchPath r.path path).isSome) (hp' : (matchPath r'.path path).isSome) : r = r' := by
  have hmethod : r.method = r'.method ∨ (r.method = "GET" ∧ r'.method = "HEAD") ∨
      (r.method = "HEAD" ∧ r'.method = "GET") := by
    unfold Route.allows at hm hm'
    simp only [Bool.or_eq_true, Bool.and_eq_true, decide_eq_true_eq] at hm hm'
    rcases hm with h | ⟨h, h1⟩ <;> rcases hm' with h' | ⟨h', h1'⟩
    · exact .inl (h.symm.trans h')
    · exact .inr (.inr ⟨h.symm.trans h1', h'⟩)
    · exact .inr (.inl ⟨h, h'.symm.trans h1⟩)
    · exact .inl (h.trans h'.symm)
  have hall : ∀ b, ∀ r ∈ routes b, r.method ≠ "HEAD" ∧ ∀ r' ∈ routes b, r.method = r'.method →
      overlaps r.path r'.path = true → r = r' := by
    decide +kernel
  obtain ⟨hhead, hone⟩ := hall isLocal r hr
  rcases hmethod with heq | ⟨-, hhead'⟩ | ⟨hhead', -⟩
  · exact hone r' hr' heq (overlaps_of_match hp hp')
  · exact absurd hhead' (hall isLocal r' hr').1
  · exact absurd hhead' hhead

/-! ## What a request may change -/

/-- A fact about what is configured or decided: what is stored under an id, if anything; the decision on an item. -/
inductive Deed where
  | source (id : String) (row : Option ExternalSource)
  | target (id : String) (row : Option EgressTarget)
  | actuator (id : String) (row : Option Spec)
  | rule (id : String) (row : Option Rule)
  | decided (id : Nat) (status : QueueStatus)

def Site.shows (s : Site) : Deed → Prop
  | .source id row => s.config.sources.find id = row
  | .target id row => s.targets.find id = row
  | .actuator id row => s.config.actuators.find id = row
  | .rule id row => s.config.rules.find id = row
  | .decided id status => status ≠ .pending ∧ ∃ item, s.store.row id = some item ∧ item.status = status

/-- The handler is for the deed, given a path value and a body. -/
def Handler.asks (h : Handler) (value : String) (body : Body) : Deed → Prop
  | .source id (some e) => h = .upsertSource ∧ body.source = some e ∧ e.id = id
  | .source id none => h = .deleteSource ∧ value = id
  | .target id (some t) => h = .upsertTarget ∧ body.target = some t ∧ t.id = id
  | .target id none => h = .deleteTarget ∧ value = id
  | .actuator id (some a) => h = .upsertActuator ∧ body.actuator = some a ∧ a.id = id
  | .actuator id none => h = .deleteActuator ∧ value = id
  | .rule id (some r) => h = .upsertRule ∧ body.rule = some r ∧ r.id = id
  | .rule id none => h = .deleteRule ∧ value = id
  | .decided id status => (h = .approvePending ∧ status = .approved ∨ h = .rejectPending ∧ status = .rejected) ∧
      ∃ n, parseInt value = some n ∧ n.toNat = id

/-! ### The queue -/

/-- The rows that are decided stay, and no row is decided that was not, but for those `may` allows. -/
structure Store.DecidesOnly (may : Nat → QueueStatus → Prop) (s s' : Store) : Prop where
  stays : ∀ id item, s.row id = some item → item.status ≠ .pending → s'.row id = some item
  decides : ∀ id item, s'.row id = some item → item.status ≠ .pending →
    (∃ item', s.row id = some item' ∧ item'.status = item.status) ∨ may id item.status

namespace Store

variable {may : Nat → QueueStatus → Prop} {s s' s'' : Store}

theorem row_of_queue (h : s'.queue = s.queue) (id : Nat) : s'.row id = s.row id := by
  cases id with
  | zero => rfl
  | succ n => exact congrArg (fun queue : List QueuedAdvisory => queue[n]?) h

theorem DecidesOnly.of_queue (h : s'.queue = s.queue) : DecidesOnly may s s' where
  stays id _ hrow _ := (row_of_queue h id).trans hrow
  decides id item hrow _ := .inl ⟨item, (row_of_queue h id).symm.trans hrow, rfl⟩

theorem DecidesOnly.refl (s : Store) : DecidesOnly may s s := .of_queue rfl

theorem DecidesOnly.trans (h : DecidesOnly may s s') (h' : DecidesOnly may s' s'') : DecidesOnly may s s'' where
  stays id item hrow hne := h'.stays id item (h.stays id item hrow hne) hne
  decides id item hrow hne := by
    rcases h'.decides id item hrow hne with ⟨item', hrow', hstatus⟩ | hmay
    · rcases h.decides id item' hrow' (hstatus ▸ hne) with ⟨item'', hrow'', hstatus'⟩ | hmay
      · exact .inl ⟨item'', hrow'', hstatus'.trans hstatus⟩
      · exact .inr (hstatus ▸ hmay)
    · exact .inr hmay

/-- Where nothing may be decided, what is decided is what was. -/
theorem DecidesOnly.decided_iff (h : DecidesOnly (fun _ _ => False) s s') {id : Nat} {status : QueueStatus}
    (hne : status ≠ .pending) :
    (∃ item, s'.row id = some item ∧ item.status = status) ↔ ∃ item, s.row id = some item ∧ item.status = status := by
  constructor
  · rintro ⟨item, hrow, rfl⟩
    exact (h.decides id item hrow hne).resolve_right not_false
  · rintro ⟨item, hrow, rfl⟩
    exact ⟨item, h.stays id item hrow hne, rfl⟩

theorem DecidesOnly.append {rows : List QueuedAdvisory} (h : s'.queue = s.queue ++ rows)
    (hpending : ∀ q ∈ rows, q.status = .pending) : DecidesOnly may s s' where
  stays id item hrow _ := by
    cases id with
    | zero => cases hrow
    | succ n =>
      have hrow : s.queue[n]? = some item := hrow
      show s'.queue[n]? = some item
      rw [h, List.getElem?_append_left (List.getElem?_eq_some_iff.1 hrow).1]
      exact hrow
  decides id item hrow hne := by
    cases id with
    | zero => cases hrow
    | succ n =>
      have hrow : (s.queue ++ rows)[n]? = some item := h ▸ hrow
      rcases Nat.lt_or_ge n s.queue.length with hlt | hge
      · rw [List.getElem?_append_left hlt] at hrow
        exact .inl ⟨item, hrow, rfl⟩
      · rw [List.getElem?_append_right hge] at hrow
        exact absurd (hpending item (List.mem_of_getElem? hrow)) hne

theorem resolveUpdate_decides (s : Store) (fails : Bool) (id : Nat) (status : QueueStatus) (actor : String) :
    DecidesOnly (fun id' status' => id' = id ∧ status' = status) s (s.resolveUpdate fails id status actor).2 := by
  rcases s.resolveUpdate_cases fails id status actor with ⟨heq, -⟩ | ⟨-, n, existing, rfl, hex, hpending, -, hqueue⟩
  · rw [heq]
    exact .refl s
  refine ⟨fun id' item hrow hne => ?_, fun id' item hrow hne => ?_⟩
  · cases id' with
    | zero => cases hrow
    | succ m =>
      have hrow : s.queue[m]? = some item := hrow
      have hmn : n ≠ m := by
        rintro rfl
        rw [hex] at hrow
        exact hne (Option.some.inj hrow ▸ hpending)
      show (s.resolveUpdate fails (n + 1) status actor).2.queue[m]? = some item
      rw [hqueue, List.getElem?_set_ne hmn]
      exact hrow
  · cases id' with
    | zero => cases hrow
    | succ m =>
      have hrow : (s.queue.set n { existing with status := status, resolvedBy := actor })[m]? = some item := hqueue ▸ hrow
      by_cases hmn : n = m
      · subst hmn
        rw [List.getElem?_set] at hrow
        simp only [if_true] at hrow
        split at hrow
        · cases hrow
          exact .inr ⟨rfl, rfl⟩
        · cases hrow
      · rw [List.getElem?_set_ne hmn] at hrow
        exact .inl ⟨item, hrow, rfl⟩

theorem recordControlAction_queue (s : Store) (fails : Bool) (actor actuatorId targetState : String) :
    (s.recordControlAction fails actor actuatorId targetState).queue = s.queue := by
  unfold recordControlAction
  split <;> rfl

theorem onResults_queue (rs : List Result) : ∀ s : Store, (rs.foldl onResult s).queue = s.queue := by
  induction rs with
  | nil => exact fun _ => rfl
  | cons r rs ih =>
    intro s
    rw [List.foldl_cons, ih]
    unfold onResult
    split
    · exact s.recordControlAction_queue _ _ _ _
    · rfl

end Store

/-- The rules an advisory meets queue rows that are pending. -/
theorem evaluateFrom_queue (f : Faults) (a : Advisory) (rules : List Rule) : ∀ (k : Nat) (e : Evaluation),
    ∃ rows, (evaluateFrom f a k rules e).2.world.queue = e.world.queue ++ rows ∧ ∀ q ∈ rows, q.status = .pending := by
  have hone : ∀ (k : Nat) (r : Rule) (e : Evaluation),
      ∃ rows, (evaluateRule f a k r e).2.world.queue = e.world.queue ++ rows ∧ ∀ q ∈ rows, q.status = .pending := by
    intro k r e
    have hsame : ∃ rows, e.world.queue = e.world.queue ++ rows ∧ ∀ q ∈ rows, q.status = QueueStatus.pending :=
      ⟨[], by simp, by simp⟩
    unfold evaluateRule
    split
    · exact hsame
    split
    · exact hsame
    split
    · exact hsame
    split
    · exact hsame
    split
    · exact hsame
    split
    · exact hsame
    split
    · split
      · exact hsame
      · exact ⟨[(r.pendingAdvisory a).row], rfl, by simp [Advisory.row]⟩
    · cases hx : e.world.daemon.execute (f.apply k) (r.command a) with
      | mk res d => cases res <;> exact hsame
  induction rules with
  | nil => exact fun k e => ⟨[], by simp [evaluateFrom], by simp⟩
  | cons r rules ih =>
    intro k e
    obtain ⟨rows, hrows, hp⟩ := hone k r e
    obtain ⟨rows', hrows', hp'⟩ := ih (k + 1) (evaluateRule f a k r e).2
    refine ⟨rows ++ rows', ?_, fun q hq => ?_⟩
    · rw [← List.append_assoc, ← hrows]
      exact hrows'
    · rcases List.mem_append.1 hq with hq | hq
      · exact hp q hq
      · exact hp' q hq

theorem Server.resolvePending_decides (g : Server) (f : ApproveFaults) (id : Nat) (status : QueueStatus) (actor : String) :
    Store.DecidesOnly (fun id' status' => id' = id ∧ status' = status) g.store (g.resolvePending f id status actor).2.store := by
  unfold resolvePending
  split
  · exact .refl _
  · exact g.store.resolveUpdate_decides f.update id status actor

theorem Server.handleRejectPending_decides (g : Server) (f : ApproveFaults) (id : Nat) (actor : String) :
    Store.DecidesOnly (fun id' status' => id' = id ∧ status' = .rejected) g.store
      (g.handleRejectPending f id actor).2.store := by
  have h := g.resolvePending_decides f id .rejected actor
  unfold handleRejectPending
  split
  · rename_i heq
    rw [heq] at h
    exact h
  · rename_i heq
    rw [heq] at h
    exact h

namespace Main

theorem report_queue (before : Daemon) (g : Server) : (report before g).store.queue = g.store.queue :=
  Store.onResults_queue _ g.store

theorem approvePending_queue (g : Server) (fails : Bool) (actuatorId targetState reason corr : String) :
    (approvePending g fails actuatorId targetState reason corr).2.store.queue = g.store.queue :=
  report_queue g.daemon _

/-- A manual command decides on no item. -/
theorem handleActuate_queue (g : Server) (f : ApproveFaults) (actor now : String) (req : ActuateRequest) :
    (handleActuate g f actor now req).2.store.queue = g.store.queue := by
  unfold handleActuate
  dsimp only
  split
  · rename_i heq
    have h := congrArg (fun x => x.2.store.queue) heq
    exact h.symm.trans (approvePending_queue g _ _ _ _ _)
  · rename_i heq
    have h := congrArg (fun x => x.2.store.queue) heq
    exact (Store.recordControlAction_queue _ _ _ _ _).trans (h.symm.trans (approvePending_queue g _ _ _ _ _))

theorem handleApprovePending_decides (g : Server) (f : ApproveFaults) (id : Nat) (actor : String) :
    Store.DecidesOnly (fun id' status' => id' = id ∧ status' = .approved) g.store
      (handleApprovePending g f id actor).2.store := by
  unfold handleApprovePending
  split
  · exact .refl _
  rename_i item hget
  split
  · exact .refl _
  split
  · have h := g.resolvePending_decides f id .approved actor
    split <;> (rename_i heq; rw [heq] at h; exact h)
  · split
    · rename_i heq
      exact .of_queue ((congrArg (fun x => x.2.store.queue) heq).symm.trans (approvePending_queue g _ _ _ _ _))
    · rename_i res g' heq
      have hqueue : g'.store.queue = g.store.queue :=
        (congrArg (fun x => x.2.store.queue) heq).symm.trans (approvePending_queue g _ _ _ _ _)
      exact (Store.DecidesOnly.of_queue hqueue).trans ((g'.resolvePending_decides f id .approved actor).trans
        (.of_queue (Store.recordControlAction_queue _ _ _ _ _)))

end Main

/-! ### The tables -/

/-- What a change makes of the tables. -/
def Change.apply (s : Config) : Change → Config
  | .upsertSource e => { s with sources := s.sources.upsert e }
  | .deleteSource id => { s with sources := s.sources.delete id }
  | .upsertTarget => s
  | .deleteTarget => s
  | .upsertActuator a => { s with actuators := s.actuators.upsert a }
  | .deleteActuator id => { s with actuators := s.actuators.delete id }
  | .upsertRule r => { s with rules := s.rules.upsert r }
  | .deleteRule id => { s with rules := s.rules.delete id }

theorem Change.commit_ok {fails : Bool} {s s' : Config} {c : Change} {part : Option Part}
    (h : c.commit fails s = .ok (part, s')) : s' = c.apply s := by
  have htx : ∀ {p : Option Part} {x : Config}, (if fails then (.error .database : Except StoreError (Option Part × Config))
      else .ok (p, x)) = .ok (part, s') → s' = x := by
    intro p x heq
    cases fails <;> cases heq
    rfl
  have hbind : ∀ {check : Except StoreError Unit} {next : Except StoreError (Option Part × Config)},
      (check >>= fun _ => next) = .ok (part, s') → next = .ok (part, s') := by
    intro check next heq
    cases check with
    | error e => cases heq
    | ok _ => exact heq
  cases c with
  | upsertSource e => exact htx (hbind h)
  | deleteSource id => exact htx h
  | upsertTarget => exact htx h
  | deleteTarget => exact htx h
  | upsertActuator a => exact htx (hbind h)
  | deleteActuator id => exact htx h
  | upsertRule r => exact htx (hbind h)
  | deleteRule id => exact htx h

/-- The fact a change makes true. -/
def Change.deed : Change → Option Deed
  | .upsertSource e => some (.source e.id (some e))
  | .deleteSource id => some (.source id none)
  | .upsertTarget => none
  | .deleteTarget => none
  | .upsertActuator a => some (.actuator a.id (some a))
  | .deleteActuator id => some (.actuator id none)
  | .upsertRule r => some (.rule r.id (some r))
  | .deleteRule id => some (.rule id none)

/-- A map is changed at one key only. -/
theorem update_shows {κ α : Type} [DecidableEq κ] {m : κ → Option α} {k k' : κ} {x y : Option α}
    (hnot : m k' ≠ y) (h : Function.update m k x k' = y) : k' = k ∧ y = x := by
  by_cases hk : k' = k
  · subst hk
    rw [Function.update_self] at h
    exact ⟨rfl, h.symm⟩
  · rw [Function.update_of_ne hk] at h
    exact absurd h hnot

namespace Site

variable {T : Type} {s : Site} {deed : Deed}

theorem change_shows {fails : Bool} {c : Change} {refused : Nat} {entry : AuditLog} {reply : Reply T}
    (hnot : ¬ s.shows deed) (hshows : (s.change fails c refused entry reply).2.shows deed) : c.deed = some deed := by
  unfold change at hshows
  split at hshows
  · exact absurd hshows hnot
  · rename_i part config' hcommit
    obtain rfl := Change.commit_ok hcommit
    cases deed with
    | source id row =>
      cases c with
      | upsertSource e =>
        obtain ⟨rfl, rfl⟩ := update_shows hnot ((congrFun (Table.find_upsert _ _) id).symm.trans hshows)
        rfl
      | deleteSource id' =>
        obtain ⟨rfl, rfl⟩ := update_shows hnot ((congrFun (Table.find_delete _ _) id).symm.trans hshows)
        rfl
      | _ => exact absurd hshows hnot
    | target id row => exact absurd hshows hnot
    | actuator id row =>
      cases c with
      | upsertActuator a =>
        obtain ⟨rfl, rfl⟩ := update_shows hnot ((congrFun (Table.find_upsert _ _) id).symm.trans hshows)
        rfl
      | deleteActuator id' =>
        obtain ⟨rfl, rfl⟩ := update_shows hnot ((congrFun (Table.find_delete _ _) id).symm.trans hshows)
        rfl
      | _ => exact absurd hshows hnot
    | rule id row =>
      cases c with
      | upsertRule r =>
        obtain ⟨rfl, rfl⟩ := update_shows hnot ((congrFun (Table.find_upsert _ _) id).symm.trans hshows)
        rfl
      | deleteRule id' =>
        obtain ⟨rfl, rfl⟩ := update_shows hnot ((congrFun (Table.find_delete _ _) id).symm.trans hshows)
        rfl
      | _ => exact absurd hshows hnot
    | decided id status => exact absurd hshows hnot

theorem upsertTarget_shows {fails : Bool} {t : EgressTarget} {actor : String} (hnot : ¬ s.shows deed)
    (hshows : (s.upsertTarget (T := T) fails t actor).2.shows deed) : deed = .target t.id (some t) := by
  unfold upsertTarget at hshows
  split at hshows
  · exact absurd hshows hnot
  split at hshows
  · exact absurd hshows hnot
  · cases deed with
    | target id row =>
      obtain ⟨rfl, rfl⟩ := update_shows hnot ((congrFun (Table.find_upsert _ _) id).symm.trans hshows)
      rfl
    | _ => exact absurd hshows hnot

theorem deleteTarget_shows {fails : Bool} {id actor : String} (hnot : ¬ s.shows deed)
    (hshows : (s.deleteTarget (T := T) fails id actor).2.shows deed) : deed = .target id none := by
  unfold deleteTarget at hshows
  split at hshows
  · exact absurd hshows hnot
  · cases deed with
    | target id' row =>
      obtain ⟨rfl, rfl⟩ := update_shows hnot ((congrFun (Table.find_delete _ _) id').symm.trans hshows)
      rfl
    | _ => exact absurd hshows hnot

/-- A call of the gateway shows no more than the items it decides on. -/
theorem control_shows {P : Nat → QueueStatus → Prop} {g : Server} (hdecides : Store.DecidesOnly P s.store g.store)
    (hnot : ¬ s.shows deed) (hshows : (s.withGateway g).shows deed) :
    ∃ id status, deed = .decided id status ∧ P id status := by
  cases deed with
  | decided id status =>
    obtain ⟨hne, item, hrow, rfl⟩ := hshows
    rcases hdecides.decides id item hrow hne with hold | hmay
    · exact absurd ⟨hne, hold⟩ hnot
    · exact ⟨id, item.status, rfl, hmay⟩
  | _ => exact absurd hshows hnot

end Site

namespace Service

variable {T : Type} (d : Service T)

/-- A handler that does not write leaves everything but the tokens. -/
theorem handle_reads (s : Site) {h : Handler} (hw : h.writes = false) (hl : h ≠ .localLogin) (value : String)
    (r : HttpRequest T) (k : Turn) : (d.handle s h value r k).2 = s := by
  cases h <;> first | rfl | exact absurd rfl hl | cases hw

/-- **A handler shows what it is asked for**, and nothing else. -/
theorem handle_shows {s : Site} {h : Handler} {value : String} {r : HttpRequest T} {k : Turn} {deed : Deed}
    (hnot : ¬ s.shows deed) (hshows : (d.handle s h value r k).2.shows deed) : h.asks value r.body deed := by
  cases h with
  | upsertSource =>
    simp only [handle] at hshows
    split at hshows
    · exact absurd hshows hnot
    · rename_i e hbody
      cases Site.change_shows hnot hshows
      exact ⟨rfl, hbody, rfl⟩
  | deleteSource =>
    cases Site.change_shows hnot hshows
    exact ⟨rfl, rfl⟩
  | upsertTarget =>
    simp only [handle] at hshows
    split at hshows
    · exact absurd hshows hnot
    · rename_i t hbody
      cases Site.upsertTarget_shows hnot hshows
      exact ⟨rfl, hbody, rfl⟩
  | deleteTarget =>
    cases Site.deleteTarget_shows hnot hshows
    exact ⟨rfl, rfl⟩
  | upsertActuator =>
    simp only [handle] at hshows
    split at hshows
    · exact absurd hshows hnot
    · rename_i a hbody
      cases Site.change_shows hnot hshows
      exact ⟨rfl, hbody, rfl⟩
  | deleteActuator =>
    cases Site.change_shows hnot hshows
    exact ⟨rfl, rfl⟩
  | upsertRule =>
    simp only [handle] at hshows
    split at hshows
    · exact absurd hshows hnot
    · rename_i rule hbody
      cases Site.change_shows hnot hshows
      exact ⟨rfl, hbody, rfl⟩
  | deleteRule =>
    cases Site.change_shows hnot hshows
    exact ⟨rfl, rfl⟩
  | actuate =>
    simp only [handle] at hshows
    split at hshows
    · exact absurd hshows hnot
    · obtain ⟨_, _, -, hmay⟩ := Site.control_shows (P := fun _ _ => False)
        (.of_queue (Main.handleActuate_queue _ _ _ _ _)) hnot hshows
      exact hmay.elim
  | approvePending =>
    simp only [handle] at hshows
    split at hshows
    · exact absurd hshows hnot
    · rename_i n hn
      obtain ⟨_, _, rfl, rfl, rfl⟩ := Site.control_shows (Main.handleApprovePending_decides s.gateway _ _ _) hnot hshows
      exact ⟨.inl ⟨rfl, rfl⟩, n, hn, rfl⟩
  | rejectPending =>
    simp only [handle] at hshows
    split at hshows
    · exact absurd hshows hnot
    · rename_i n hn
      obtain ⟨_, _, rfl, rfl, rfl⟩ := Site.control_shows (Server.handleRejectPending_decides s.gateway _ _ _) hnot hshows
      exact ⟨.inr ⟨rfl, rfl⟩, n, hn, rfl⟩
  | localLogin =>
    simp only [handle] at hshows
    split at hshows
    · exact absurd hshows hnot
    split at hshows
    · exact absurd hshows hnot
    split at hshows
    · exact absurd hshows hnot
    · exact absurd hshows hnot
  | _ => exact absurd hshows hnot

end Service

/-! ## What a request asks of the backend -/

namespace Main

theorem handleActuate_daemon (g : Server) (f : ApproveFaults) (actor now : String) (req : ActuateRequest) :
    (handleActuate g f actor now req).2.daemon = (g.handleActuate f actor now req).2.daemon := by
  unfold handleActuate Server.handleActuate approvePending
  dsimp only
  generalize g.approvePending _ _ _ _ _ = res
  obtain ⟨out, g'⟩ := res
  cases out <;> rfl

theorem handleApprovePending_daemon (g : Server) (f : ApproveFaults) (id : Nat) (actor : String) :
    (handleApprovePending g f id actor).2.daemon = (g.handleApprovePending f id actor).2.daemon := by
  unfold handleApprovePending Server.handleApprovePending approvePending
  cases g.store.getPending f.get id with
  | error e => rfl
  | ok item =>
    by_cases hpending : item.status = .pending
    · by_cases haction : item.actuatorId = ""
      · generalize g.resolvePending _ _ _ _ = res
        obtain ⟨out, g'⟩ := res
        cases out <;> simp only [hpending, haction, ne_eq, not_true_eq_false, if_false, if_true]
      · simp only [hpending, haction, ne_eq, not_true_eq_false, if_false]
        generalize g.approvePending _ _ _ _ _ = res
        obtain ⟨out, g'⟩ := res
        cases out with
        | error e => rfl
        | ok res => simp
    · simp only [hpending, ne_eq, not_false_eq_true, if_true]

end Main

namespace Service

variable {T : Type} (d : Service T)

/-- The call of the gateway a request of an operator amounts to. -/
def call (r : HttpRequest T) (k : Turn) : Option Call :=
  match dispatch d.isLocal r.method r.path with
  | .error _ => none
  | .ok (route, id) =>
    match route.handler with
    | .actuate => r.body.actuate.map (.actuate k.approve (d.actorFrom r) k.now)
    | .approvePending => (parseInt id).map fun n => .approve k.approve n.toNat (d.actorFrom r)
    | _ => none

theorem change_daemon (s : Site) (fails : Bool) (c : Change) (refused : Nat) (entry : AuditLog) (reply : Reply T) :
    (s.change fails c refused entry reply).2.config.daemon = s.config.daemon := by
  unfold Site.change
  split
  · rfl
  · rename_i part config' hcommit
    obtain rfl := Change.commit_ok hcommit
    cases c <;> rfl

/-- **What a handler asks of the backend**: nothing, or what the operator's call asks. -/
theorem handle_asked {s : Site} (hs : s.config.daemon.Keyed) {r : HttpRequest T} {route : Route} {value : String}
    (hroute : dispatch d.isLocal r.method r.path = .ok (route, value)) (k : Turn) :
    (d.handle s route.handler value r k).2.config.daemon.Keyed ∧
    Daemon.Asked (fun a => ∃ c, d.call r k = some c ∧ Server.Provenance s.gateway c a) s.config.daemon
      (d.handle s route.handler value r k).2.config.daemon := by
  have hnone : ∀ {s' : Site}, s'.config.daemon = s.config.daemon → s'.config.daemon.Keyed ∧
      Daemon.Asked (fun a => ∃ c, d.call r k = some c ∧ Server.Provenance s.gateway c a) s.config.daemon s'.config.daemon := by
    intro s' heq
    rw [heq]
    exact ⟨hs, .refl _⟩
  have hcall : ∀ {s' : Site} {c : Call}, d.call r k = some c → s'.config.daemon = (s.gateway.exec c).daemon →
      s'.config.daemon.Keyed ∧
      Daemon.Asked (fun a => ∃ c, d.call r k = some c ∧ Server.Provenance s.gateway c a) s.config.daemon s'.config.daemon := by
    intro s' c hc heq
    have hexec := Server.exec_asked (g := s.gateway) hs c
    rw [heq]
    exact ⟨hexec.1, hexec.2.mono fun a ha => ⟨c, hc, ha⟩⟩
  cases hh : route.handler with
  | upsertSource =>
    simp only [handle]
    split
    · exact hnone rfl
    · exact hnone (change_daemon _ _ _ _ _ _)
  | deleteSource => exact hnone (change_daemon _ _ _ _ _ _)
  | upsertTarget =>
    simp only [handle, Site.upsertTarget]
    split
    · exact hnone rfl
    split
    · exact hnone rfl
    split
    · exact hnone rfl
    · exact hnone rfl
  | deleteTarget =>
    simp only [handle, Site.deleteTarget]
    split
    · exact hnone rfl
    · exact hnone rfl
  | upsertActuator =>
    simp only [handle]
    split
    · exact hnone rfl
    · exact hnone (change_daemon _ _ _ _ _ _)
  | deleteActuator => exact hnone (change_daemon _ _ _ _ _ _)
  | upsertRule =>
    simp only [handle]
    split
    · exact hnone rfl
    · exact hnone (change_daemon _ _ _ _ _ _)
  | deleteRule => exact hnone (change_daemon _ _ _ _ _ _)
  | localLogin =>
    simp only [handle]
    split
    · exact hnone rfl
    split
    · exact hnone rfl
    split
    · exact hnone rfl
    · exact hnone rfl
  | actuate =>
    simp only [handle]
    split
    · exact hnone rfl
    · rename_i req hbody
      refine hcall (c := .actuate k.approve (d.actorFrom r) k.now req) ?_ (Main.handleActuate_daemon _ _ _ _ _)
      simp [call, hroute, hh, hbody]
  | approvePending =>
    simp only [handle]
    split
    · exact hnone rfl
    · rename_i n hn
      refine hcall (c := .approve k.approve n.toNat (d.actorFrom r)) ?_ (Main.handleApprovePending_daemon _ _ _ _)
      simp [call, hroute, hh, hn]
  | rejectPending =>
    simp only [handle]
    split
    · exact hnone rfl
    · exact hnone (Server.handleRejectPending_daemon _ _ _ _)
  | _ => exact hnone rfl

end Service

end Gateway
end FloodEws
