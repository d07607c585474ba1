import FloodEws.Telemetry
import FloodEws.Threads
/-!
# Clients — the hub's channels under concurrent goroutines

`Record` copies the client set under the lock and sends to the copies after releasing it; `ServeWS` registers a channel,
replays the history, drains the channel, and at the end deletes it from the set under the lock and closes it.  Each
step here is what one goroutine does between two points where another may run.

A send on a closed channel panics.  None is ever made as long as no channel is closed while a `Record` that has copied it
still has to send to it (`no_send_on_closed`); nothing in the code waits for that (`send_after_close`).
-/
namespace FloodEws
namespace Telemetry

inductive Goroutine where
  /-- `Record`, before the lock and at its sends -/
  | record (u : Uplink)
  | sending (u : Uplink) (chans : List Nat)
  /-- `ServeWS`, statement by statement -/
  | connect
  | snapshot (c : Nat)
  | replay (c : Nat) (history : List Uplink)
  | drain (c : Nat)
  | remove (c : Nat)
  | close (c : Nat)
  | done
deriving DecidableEq, Repr

/-- What the environment has to say: whether marshalling or the write to the connection fails, and the order `range`
takes. -/
structure Answer where
  marshalFails : Bool := false
  writeFails : Bool := false
  order : List Nat := []
deriving DecidableEq, Repr

namespace Hub

def addClient (h : Hub) : Hub :=
  { h with clients := h.clients ++ [h.made], chans := Function.update h.chans h.made {}, made := h.made + 1 }

/-- The write of one message to the connection behind a channel. -/
def writeMessage (u : Uplink) (c : Nat) (h : Hub) : Hub :=
  { h with chans := Function.update h.chans c { h.chans c with wire := (h.chans c).wire ++ [u] } }

def receive (c : Nat) (h : Hub) : Hub :=
  { h with chans := Function.update h.chans c { h.chans c with queued := (h.chans c).queued.tail } }

/-- `removeClient`, the part under the lock. -/
def removeClient (c : Nat) (h : Hub) : Hub := { h with clients := h.clients.erase c }

def close (c : Nat) (h : Hub) : Hub := { h with chans := Function.update h.chans c { h.chans c with closed := true } }

/-- The channel has been made and not been closed. -/
def Live (h : Hub) (c : Nat) : Prop := c < h.made ∧ (h.chans c).closed = false

end Hub

namespace Goroutine

def fresh : Goroutine → Prop
  | .record _ => True
  | .connect => True
  | _ => False

def may (k : Answer) (t : Goroutine) (h : Hub) : Prop :=
  match t with
  | .record _ => k.order.Perm h.clients
  | .drain c => (h.chans c).queued ≠ [] ∨ (h.chans c).closed = true
  | _ => True

def step (k : Answer) (t : Goroutine) (h : Hub) : Goroutine × Hub :=
  match t with
  | .record u => if k.marshalFails then (.done, h) else (.sending u k.order, h.buffer u)
  | .sending _ [] => (.done, h)
  | .sending u (c :: cs) => (.sending u cs, h.trySend u c)
  | .connect => (.snapshot h.made, h.addClient)
  | .snapshot c => (.replay c h.snapshot, h)
  | .replay c [] => (.drain c, h)
  | .replay c (u :: us) =>
    if k.marshalFails then (.replay c us, h)
    else if k.writeFails then (.remove c, h)
    else (.replay c us, h.writeMessage u c)
  | .drain c =>
    match (h.chans c).queued with
    | [] => (.remove c, h)
    | u :: _ => if k.writeFails then (.remove c, h.receive c) else (.drain c, (h.receive c).writeMessage u c)
  | .remove c => (.close c, h.removeClient c)
  | .close c => (.done, h.close c)
  | .done => (.done, h)

/-- The channels a `Record` still has to send to. -/
def targets : Goroutine → List Nat
  | .sending _ cs => cs
  | _ => []

/-- The channel a `ServeWS` has made and not closed yet. -/
def owns : Goroutine → Option Nat
  | .snapshot c => some c
  | .replay c _ => some c
  | .drain c => some c
  | .remove c => some c
  | .close c => some c
  | _ => none

end Goroutine

def hubs : Prog Hub Goroutine Answer where
  fresh := Goroutine.fresh
  may := Goroutine.may
  step := Goroutine.step

/-- **Without others in between, the steps of a `Record` are `Hub.record`.** -/
theorem record_solo (u : Uplink) (order : List Nat) (h : Hub) :
    hubs.solo ({ order := order } :: List.replicate order.length {}) (.record u, h) =
      (.sending u [], h.record u false order) := by
  have hsends : ∀ (cs : List Nat) (h : Hub),
      hubs.solo (List.replicate cs.length {}) (.sending u cs, h) = (.sending u [], cs.foldl (Hub.trySend u) h) := by
    intro cs
    induction cs with
    | nil => exact fun _ => rfl
    | cons c cs ih => exact fun h => ih (h.trySend u c)
  exact hsends order (h.buffer u)

namespace Hub.Live

variable {h : Hub} {c : Nat}

theorem trySend (hl : h.Live c) (u : Uplink) (d : Nat) : (h.trySend u d).Live c := by
  unfold Hub.trySend
  split
  · exact hl
  · split
    · refine ⟨hl.1, ?_⟩
      by_cases hc : c = d
      · subst hc
        simpa using hl.2
      · simpa [Function.update_of_ne hc] using hl.2
    · exact hl

theorem writeMessage (hl : h.Live c) (u : Uplink) (d : Nat) : (h.writeMessage u d).Live c := by
  refine ⟨hl.1, ?_⟩
  by_cases hc : c = d
  · subst hc
    simpa [Hub.writeMessage] using hl.2
  · simpa [Hub.writeMessage, Function.update_of_ne hc] using hl.2

theorem receive (hl : h.Live c) (d : Nat) : (h.receive d).Live c := by
  refine ⟨hl.1, ?_⟩
  by_cases hc : c = d
  · subst hc
    simpa [Hub.receive] using hl.2
  · simpa [Hub.receive, Function.update_of_ne hc] using hl.2

theorem addClient (hl : h.Live c) : h.addClient.Live c := by
  have hne : c ≠ h.made := Nat.ne_of_lt hl.1
  exact ⟨Nat.lt_succ_of_lt hl.1, by simpa [Hub.addClient, Function.update_of_ne hne] using hl.2⟩

theorem made (h : Hub) : h.addClient.Live h.made := ⟨Nat.lt_succ_self _, by simp [Hub.addClient]⟩

theorem close (hl : h.Live c) {d : Nat} (hne : c ≠ d) : (h.close d).Live c :=
  ⟨hl.1, by simpa [Hub.close, Function.update_of_ne hne] using hl.2⟩

end Hub.Live

/-! ## What one step does -/

namespace Goroutine

variable {k : Answer} {t : Goroutine} {h : Hub} {c : Nat}

/-- **Everything a step can do**: what the goroutine goes on with, and the hub. -/
inductive Does (k : Answer) (h : Hub) : Goroutine → Goroutine × Hub → Prop where
  | unmarshalled (u : Uplink) : Does k h (.record u) (.done, h)
  | buffer (u : Uplink) (hk : k.marshalFails = false) : Does k h (.record u) (.sending u k.order, h.buffer u)
  | sent (u : Uplink) : Does k h (.sending u []) (.done, h)
  | trySend (u : Uplink) (c : Nat) (cs : List Nat) : Does k h (.sending u (c :: cs)) (.sending u cs, h.trySend u c)
  | addClient : Does k h .connect (.snapshot h.made, h.addClient)
  | snapshot (c : Nat) : Does k h (.snapshot c) (.replay c h.snapshot, h)
  | replayed (c : Nat) : Does k h (.replay c []) (.drain c, h)
  | skip (u : Uplink) (c : Nat) (us : List Uplink) : Does k h (.replay c (u :: us)) (.replay c us, h)
  | abandon (u : Uplink) (c : Nat) (us : List Uplink) : Does k h (.replay c (u :: us)) (.remove c, h)
  | write (u : Uplink) (c : Nat) (us : List Uplink) : Does k h (.replay c (u :: us)) (.replay c us, h.writeMessage u c)
  | closed (c : Nat) : Does k h (.drain c) (.remove c, h)
  | receive (u : Uplink) (c : Nat) (us : List Uplink) (hq : (h.chans c).queued = u :: us) :
      Does k h (.drain c) (.remove c, h.receive c)
  | deliver (u : Uplink) (c : Nat) (us : List Uplink) (hq : (h.chans c).queued = u :: us) :
      Does k h (.drain c) (.drain c, (h.receive c).writeMessage u c)
  | removeClient (c : Nat) : Does k h (.remove c) (.close c, h.removeClient c)
  | close (c : Nat) : Does k h (.close c) (.done, h.close c)
  | done : Does k h .done (.done, h)

theorem step_does (t : Goroutine) (k : Answer) (h : Hub) : Does k h t (t.step k h) := by
  cases t with
  | record u =>
    cases hk : k.marshalFails with
    | true =>
      simp only [step, hk, if_true]
      exact .unmarshalled u
    | false =>
      simp only [step, hk, Bool.false_eq_true, if_false]
      exact .buffer u hk
  | sending u cs =>
    cases cs with
    | nil => exact .sent u
    | cons c cs => exact .trySend u c cs
  | connect => exact .addClient
  | snapshot c => exact .snapshot c
  | replay c us =>
    cases us with
    | nil => exact .replayed c
    | cons u us =>
      simp only [step]
      split
      · exact .skip u c us
      · split
        · exact .abandon u c us
        · exact .write u c us
  | drain c =>
    simp only [step]
    split
    · exact .closed c
    · rename_i u us hq
      split
      · exact .receive u c us hq
      · exact .deliver u c us hq
  | remove c => exact .removeClient c
  | close c => exact .close c
  | done => exact .done

/-- A channel is closed by no step but its own closing. -/
theorem live_step (hl : h.Live c) (ht : t ≠ .close c) : (t.step k h).2.Live c := by
  have hdoes := step_does t k h
  generalize t.step k h = r at hdoes ⊢
  cases hdoes with
  | trySend u d cs => exact hl.trySend u d
  | addClient => exact hl.addClient
  | write u d us => exact hl.writeMessage u d
  | receive u d us hq => exact hl.receive d
  | deliver u d us hq => exact (hl.receive d).writeMessage u d
  | close d => exact hl.close (fun h => ht (h ▸ rfl))
  | _ => exact hl

theorem clients_step (t : Goroutine) (k : Answer) (h : Hub) :
    (t.step k h).2.clients = h.clients ∨ (t = .connect ∧ (t.step k h).2.clients = h.clients ++ [h.made]) ∨
      ∃ c, t = .remove c ∧ (t.step k h).2.clients = h.clients.erase c := by
  have hdoes := step_does t k h
  generalize t.step k h = r at hdoes ⊢
  cases hdoes with
  | trySend u c cs => exact .inl (Hub.trySend_clients u h c)
  | addClient => exact .inr (.inl ⟨rfl, rfl⟩)
  | removeClient c => exact .inr (.inr ⟨c, rfl, rfl⟩)
  | _ => exact .inl rfl

theorem targets_step (hm : t.may k h) (hc : c ∈ (t.step k h).1.targets) : c ∈ t.targets ∨ c ∈ h.clients := by
  have hdoes := step_does t k h
  generalize t.step k h = r at hdoes hc
  cases hdoes with
  | buffer u hk => exact .inr ((List.Perm.mem_iff hm).1 hc)
  | trySend u d cs => exact .inl (List.mem_cons_of_mem _ hc)
  | _ => cases hc

/-- A `ServeWS` owns the channel it made to the end; it is about to close it once it has removed it. -/
theorem owns_step (hc : (t.step k h).1.owns = some c) :
    (t.owns = some c ∧ t ≠ .close c ∧ ((t.step k h).1 = .close c → t = .remove c)) ∨ (t = .connect ∧ c = h.made) := by
  have hdoes := step_does t k h
  generalize t.step k h = r at hdoes hc ⊢
  cases hdoes with
  | addClient => exact .inr ⟨rfl, (Option.some.inj hc).symm⟩
  | snapshot d => exact .inl ⟨hc, nofun, nofun⟩
  | replayed d => exact .inl ⟨hc, nofun, nofun⟩
  | skip u d us => exact .inl ⟨hc, nofun, nofun⟩
  | abandon u d us => exact .inl ⟨hc, nofun, nofun⟩
  | write u d us => exact .inl ⟨hc, nofun, nofun⟩
  | closed d => exact .inl ⟨hc, nofun, nofun⟩
  | receive u d us hq => exact .inl ⟨hc, nofun, nofun⟩
  | deliver u d us hq => exact .inl ⟨hc, nofun, nofun⟩
  | removeClient d => exact .inl ⟨hc, nofun, fun _ => by cases hc; rfl⟩
  | _ => cases hc

theorem panics_step (hlive : ∀ c ∈ t.targets, h.Live c) : (t.step k h).2.panics = h.panics := by
  have hdoes := step_does t k h
  generalize t.step k h = r at hdoes ⊢
  cases hdoes with
  | trySend u c cs =>
    have hopen := (hlive c (List.mem_cons_self ..)).2
    simp only [Hub.trySend, hopen, Bool.false_eq_true, if_false]
    split <;> rfl
  | _ => rfl

end Goroutine

/-! ## Runs -/

/-- **When a step closes no channel too early**: no other goroutine still has to send to the channel it closes. -/
def Settled (p : Pool Hub Goroutine) : Sched Goroutine Answer → Prop
  | .spawn _ => True
  | .run i _ => ∀ c, p.threads[i]? = some (.close c) → ∀ t, Prog.Other p i t → c ∉ t.targets

/-- Nothing has been sent on a closed channel, and the clients' channels are open. -/
structure Open (h : Hub) : Prop where
  panics : h.panics = []
  live : ∀ c ∈ h.clients, h.Live c
  nodup : h.clients.Nodup

namespace Goroutine

/-- The channels a goroutine has to send to are open, and so is its own, which is no client any more once it is about to
be closed. -/
structure Holds (h : Hub) (t : Goroutine) : Prop where
  targets : ∀ c ∈ t.targets, h.Live c
  owns : ∀ c, t.owns = some c → h.Live c
  closing : ∀ c, t = .close c → c ∉ h.clients

def Apart (t u : Goroutine) : Prop := ∀ c, t.owns = some c → u.owns ≠ some c

variable {k : Answer} {t u : Goroutine} {h : Hub} {c : Nat}

theorem open_step (hopen : Open h) (ht : t.Holds h) : Open (t.step k h).2 := by
  have hlive : ∀ c ∈ h.clients, (t.step k h).2.Live c := by
    intro c hc
    exact live_step (hopen.live c hc) (fun h => ht.closing c h hc)
  refine ⟨(panics_step ht.targets).trans hopen.panics, fun c hc => ?_, ?_⟩
  · rcases clients_step t k h with heq | ⟨rfl, heq⟩ | ⟨d, rfl, heq⟩
    · exact hlive c (heq ▸ hc)
    · rw [heq, List.mem_append, List.mem_singleton] at hc
      rcases hc with hc | rfl
      · exact hlive c hc
      · exact Hub.Live.made h
    · rw [heq] at hc
      exact hlive c (List.mem_of_mem_erase hc)
  · rcases clients_step t k h with heq | ⟨rfl, heq⟩ | ⟨d, rfl, heq⟩
    · rw [heq]
      exact hopen.nodup
    · rw [heq]
      refine List.nodup_append.2 ⟨hopen.nodup, by simp, ?_⟩
      rintro a ha b hb rfl
      rw [List.mem_singleton.1 hb] at ha
      exact Nat.lt_irrefl _ (hopen.live _ ha).1
    · rw [heq]
      exact hopen.nodup.erase d

theorem holds_step (hm : t.may k h) (hopen : Open h) (ht : t.Holds h) : (t.step k h).1.Holds (t.step k h).2 := by
  refine ⟨fun c hc => ?_, fun c hc => ?_, fun c hc => ?_⟩
  · rcases targets_step hm hc with hc' | hc'
    · exact live_step (ht.targets c hc') (fun h => by rw [h] at hc'; cases hc')
    · exact live_step (hopen.live c hc') (fun h => ht.closing c h hc')
  · rcases owns_step hc with ⟨hown, hne, -⟩ | ⟨rfl, rfl⟩
    · exact live_step (ht.owns c hown) hne
    · exact Hub.Live.made h
  · rcases owns_step (c := c) (by rw [hc]; rfl) with ⟨-, -, hlast⟩ | ⟨rfl, -⟩
    · have hrm := hlast hc
      subst hrm
      exact hopen.nodup.not_mem_erase
    · cases hc

/-- **A step disturbs no other goroutine**, unless it closes a channel the other has to send to. -/
theorem others_step (hu : u.Holds h) (htu : t.Apart u) (hut : u.Apart t) (hs : ∀ c, t = .close c → c ∉ u.targets) :
    u.Holds (t.step k h).2 ∧ (t.step k h).1.Apart u ∧ u.Apart (t.step k h).1 := by
  have hapart : (t.step k h).1.Apart u := by
    intro c hc
    rcases owns_step hc with ⟨hown, -, -⟩ | ⟨-, rfl⟩
    · exact htu c hown
    · exact fun hno => Nat.lt_irrefl _ (hu.owns _ hno).1
  refine ⟨⟨fun c hc => ?_, fun c hc => ?_, fun c hc hmem => ?_⟩, hapart, fun c hc hc' => hapart c hc' hc⟩
  · exact live_step (hu.targets c hc) (fun h => hs c h hc)
  · exact live_step (hu.owns c hc) (fun h => hut c hc (by rw [h]; rfl))
  · rcases clients_step t k h with heq | ⟨-, heq⟩ | ⟨d, -, heq⟩
    · exact hu.closing c hc (heq ▸ hmem)
    · rw [heq, List.mem_append, List.mem_singleton] at hmem
      rcases hmem with hmem | rfl
      · exact hu.closing c hc hmem
      · exact Nat.lt_irrefl _ (hu.owns _ (by rw [hc]; rfl)).1
    · exact hu.closing c hc (List.mem_of_mem_erase (heq ▸ hmem))

end Goroutine

theorem open_local (cfg : Config) {p : Pool Hub Goroutine} (h : (hubs.sys (.new cfg)).Reachable Settled p) :
    Prog.Local Open Goroutine.Holds Goroutine.Apart p := by
  refine Prog.local_invariant h ⟨rfl, (fun c hc => by cases hc), .nil⟩ ?_ ?_
  · intro x t ht
    have hnone : t.owns = none ∧ t.targets = [] ∧ ∀ c, t ≠ .close c := by
      cases t <;> first | exact ⟨rfl, rfl, nofun⟩ | exact ht.elim
    refine ⟨⟨fun c hc => ?_, fun c hc => ?_, fun c hc => absurd hc (hnone.2.2 c)⟩, fun u => ⟨fun c hc => ?_, ?_⟩⟩
    · rw [hnone.2.1] at hc
      cases hc
    · rw [hnone.1] at hc
      cases hc
    · rw [hnone.1] at hc
      cases hc
    · intro c _
      rw [hnone.1]
      nofun
  · intro p i t k _ ht hm hs hp
    have hholds := hp.each t (List.mem_of_getElem? ht)
    refine ⟨Goroutine.open_step hp.shared hholds, Goroutine.holds_step hm hp.shared hholds, ?_⟩
    intro u hu hL htu hut
    exact Goroutine.others_step hL htu hut (fun c hc => hs c (hc ▸ ht) u hu)

/-- **No send on a closed channel**, in every run in which no channel is closed while a `Record` that copied it still has
to send to it. -/
theorem no_send_on_closed (cfg : Config) {p : Pool Hub Goroutine} (h : (hubs.sys (.new cfg)).Reachable Settled p) :
    p.shared.panics = [] := (open_local cfg h).shared.panics

/-- The condition, computed. -/
def settled (p : Pool Hub Goroutine) (i : Nat) : Bool :=
  match p.threads[i]? with
  | some (.close c) => (p.threads.eraseIdx i).all (fun t => !t.targets.contains c)
  | _ => true

theorem settled_of {p : Pool Hub Goroutine} {i : Nat} {k : Answer} (h : settled p i = true) : Settled p (.run i k) := by
  rintro c hc t ⟨j, hj, ht⟩ hmem
  simp only [settled, hc, List.all_eq_true] at h
  have := h t (List.mem_eraseIdx_iff_getElem?.2 ⟨j, hj, ht⟩)
  simp [hmem] at this

/-- A client connects, an uplink is sent to it, and its connection fails. -/
def visit : List (Sched Goroutine Answer) :=
  [.spawn .connect, .run 0 {}, .run 0 {}, .run 0 {}, .spawn (.record { object := { seq := 1 } }),
    .run 1 { order := [0] }, .run 1 {}, .run 0 { writeFails := true }, .run 0 {}, .run 0 {}]

theorem no_send_on_closed_visit :
    let p := (hubs.sys (.new {})).run visit ⟨.new {}, []⟩
    (p.shared.chans 0).closed = true ∧ p.shared.panics = [] := by
  have hlegal : (hubs.sys (.new {})).Legal Settled visit ⟨.new {}, []⟩ :=
    ⟨trivial, trivial, ⟨_, rfl, trivial⟩, settled_of rfl, ⟨_, rfl, trivial⟩, settled_of rfl, ⟨_, rfl, trivial⟩,
      settled_of rfl, trivial, trivial, ⟨_, rfl, .refl _⟩, settled_of rfl, ⟨_, rfl, trivial⟩, settled_of rfl,
      ⟨_, rfl, .inl (by decide)⟩, settled_of rfl, ⟨_, rfl, trivial⟩, settled_of rfl, ⟨_, rfl, trivial⟩, settled_of rfl,
      trivial⟩
  exact ⟨by decide, no_send_on_closed {} (Sys.reaches_run _ _ hlegal)⟩

/-- The connection fails while a second uplink is being sent: its `Record` has copied the channel already. -/
def leaveWhileSending : List (Sched Goroutine Answer) :=
  [.spawn .connect, .run 0 {}, .run 0 {}, .run 0 {}, .spawn (.record { object := { seq := 1 } }),
    .run 1 { order := [0] }, .run 1 {}, .spawn (.record { object := { seq := 2 } }), .run 2 { order := [0] },
    .run 0 { writeFails := true }, .run 0 {}, .run 0 {}, .run 2 {}]

/-- **A client that leaves while an uplink is being sent takes the gateway down.** -/
theorem send_after_close :
    ¬ ∀ (cfg : Config) (p : Pool Hub Goroutine), (hubs.sys (.new cfg)).Reachable Sys.always p → p.shared.panics = [] := by
  intro h
  have hlegal : (hubs.sys (.new {})).Legal Sys.always leaveWhileSending ⟨.new {}, []⟩ :=
    ⟨trivial, trivial, ⟨_, rfl, trivial⟩, trivial, ⟨_, rfl, trivial⟩, trivial, ⟨_, rfl, trivial⟩, trivial, trivial,
      trivial, ⟨_, rfl, .refl _⟩, trivial, ⟨_, rfl, trivial⟩, trivial, trivial, trivial, ⟨_, rfl, .refl _⟩, trivial,
      ⟨_, rfl, .inl (by decide)⟩, trivial, ⟨_, rfl, trivial⟩, trivial, ⟨_, rfl, trivial⟩, trivial,
      ⟨_, rfl, trivial⟩, trivial, trivial⟩
  exact absurd (h {} _ (Sys.reaches_run _ _ hlegal)) (by decide)

end Telemetry
end FloodEws
