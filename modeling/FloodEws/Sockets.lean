import Mathlib.Data.List.Infix
import FloodEws.Clients
/-!
# Sockets — what a WebSocket client is written

A client is written the history first and then what its channel is sent.  An uplink recorded after the channel was
registered and before the history was copied is in both.  And a `Record` sends after it has released the lock, so a later
one may overtake it.

The goroutines are run together with two things the code does not keep: where in `recorded` the uplink of a `Record` is,
and, for each client, how far into `recorded` what it was given reaches.  Without the two mishaps what is written to a
client is a part of what was recorded, in order and nothing twice (`written_in_order`).
-/
namespace FloodEws
namespace Telemetry

theorem recent_sublist {α : Type*} (n : Nat) (xs : List α) : (recent n xs).Sublist xs := List.drop_sublist _ xs

/-! ## What one step does to one channel -/

namespace Goroutine

/-- **Everything a step can do to a channel and its connection.** -/
theorem chan_step (t : Goroutine) (k : Answer) (h : Hub) (c : Nat) :
    (((t.step k h).2.chans c).wire = (h.chans c).wire ∧ ((t.step k h).2.chans c).queued = (h.chans c).queued) ∨
    (∃ u cs, t = .sending u (c :: cs) ∧ ((t.step k h).2.chans c).wire = (h.chans c).wire ∧
      ((t.step k h).2.chans c).queued = (h.chans c).queued ++ [u]) ∨
    (∃ u us, t = .replay c (u :: us) ∧ ((t.step k h).2.chans c).wire = (h.chans c).wire ++ [u] ∧
      ((t.step k h).2.chans c).queued = (h.chans c).queued) ∨
    (∃ u, t = .drain c ∧ (h.chans c).queued = u :: ((t.step k h).2.chans c).queued ∧
      (((t.step k h).2.chans c).wire = (h.chans c).wire ∨ ((t.step k h).2.chans c).wire = (h.chans c).wire ++ [u])) ∨
    (t = .connect ∧ c = h.made ∧ ((t.step k h).2.chans c).wire = [] ∧ ((t.step k h).2.chans c).queued = []) := by
  have hdoes := step_does t k h
  generalize t.step k h = r at hdoes ⊢
  cases hdoes with
  | trySend u d cs =>
    dsimp only
    unfold Hub.trySend
    split
    · exact .inl ⟨rfl, rfl⟩
    · split
      · by_cases hc : c = d
        · subst hc
          exact .inr (.inl ⟨u, cs, rfl, by simp, by simp⟩)
        · exact .inl (by simp [Function.update_of_ne hc])
      · exact .inl ⟨rfl, rfl⟩
  | addClient =>
    by_cases hc : c = h.made
    · subst hc
      exact .inr (.inr (.inr (.inr (by simp [Hub.addClient]))))
    · exact .inl (by simp [Hub.addClient, Function.update_of_ne hc])
  | write u d us =>
    by_cases hc : c = d
    · subst hc
      exact .inr (.inr (.inl ⟨u, us, rfl, by simp [Hub.writeMessage], by simp [Hub.writeMessage]⟩))
    · exact .inl (by simp [Hub.writeMessage, Function.update_of_ne hc])
  | receive u d us hq =>
    by_cases hc : c = d
    · subst hc
      exact .inr (.inr (.inr (.inl ⟨u, rfl, by simp [Hub.receive, hq], .inl (by simp [Hub.receive])⟩)))
    · exact .inl (by simp [Hub.receive, Function.update_of_ne hc])
  | deliver u d us hq =>
    by_cases hc : c = d
    · subst hc
      exact .inr (.inr (.inr (.inl ⟨u, rfl, by simp [Hub.receive, Hub.writeMessage, hq],
        .inr (by simp [Hub.receive, Hub.writeMessage])⟩)))
    · exact .inl (by simp [Hub.receive, Hub.writeMessage, Function.update_of_ne hc])
  | close d =>
    refine .inl ?_
    by_cases hc : c = d
    · subst hc
      simp [Hub.close]
    · simp [Hub.close, Function.update_of_ne hc]
  | _ => exact .inl ⟨rfl, rfl⟩

/-- The ring is written to by a `Record` and by nothing else. -/
theorem ring_step (t : Goroutine) (k : Answer) (h : Hub) :
    (∃ u, t = .record u ∧ k.marshalFails = false ∧ t.step k h = (.sending u k.order, h.buffer u)) ∨
      ((t.step k h).2.history = h.history ∧ (t.step k h).2.filled = h.filled ∧ (t.step k h).2.recorded = h.recorded) := by
  by_cases hrec : ∃ u, t = .record u ∧ k.marshalFails = false
  · obtain ⟨u, rfl, hk⟩ := hrec
    exact .inl ⟨u, rfl, hk, by simp [step, hk]⟩
  · refine .inr ?_
    have hdoes := step_does t k h
    generalize t.step k h = r at hdoes ⊢
    cases hdoes with
    | buffer u hk => exact absurd ⟨u, rfl, hk⟩ hrec
    | trySend u d cs => exact ⟨Hub.trySend_history u h d, Hub.trySend_filled u h d, Hub.trySend_recorded u h d⟩
    | _ => exact ⟨rfl, rfl, rfl⟩

theorem made_step (t : Goroutine) (k : Answer) (h : Hub) : h.made ≤ (t.step k h).2.made := by
  have hdoes := step_does t k h
  generalize t.step k h = r at hdoes ⊢
  cases hdoes with
  | trySend u d cs => rw [Hub.trySend_made]
  | addClient => exact Nat.le_succ _
  | _ => exact Nat.le_refl _

/-- **How a goroutine comes to send, to copy the history and to replay it.** -/
theorem next_step (t : Goroutine) (k : Answer) (h : Hub) :
    (∀ u cs, (t.step k h).1 = .sending u cs →
      (t = .record u ∧ k.marshalFails = false ∧ cs = k.order) ∨ ∃ c, t = .sending u (c :: cs)) ∧
    (∀ c, (t.step k h).1 = .snapshot c → t = .connect ∧ c = h.made) ∧
    ∀ c us, (t.step k h).1 = .replay c us → (t = .snapshot c ∧ us = h.snapshot) ∨ ∃ u, t = .replay c (u :: us) := by
  have hdoes := step_does t k h
  generalize t.step k h = r at hdoes ⊢
  refine ⟨fun u cs hs => ?_, fun c hs => ?_, fun c us hs => ?_⟩
  · cases hdoes with
    | buffer v hk =>
      cases hs
      exact .inl ⟨rfl, hk, rfl⟩
    | trySend v d ds =>
      cases hs
      exact .inr ⟨d, rfl⟩
    | _ => cases hs
  · cases hdoes with
    | addClient =>
      cases hs
      exact ⟨rfl, rfl⟩
    | _ => cases hs
  · cases hdoes with
    | snapshot d =>
      cases hs
      exact .inl ⟨rfl, rfl⟩
    | skip v d vs =>
      cases hs
      exact .inr ⟨v, rfl⟩
    | write v d vs =>
      cases hs
      exact .inr ⟨v, rfl⟩
    | _ => cases hs

end Goroutine

/-! ## The history kept along -/

/-- The hub, and for each channel how far into `recorded` what its client was given reaches. -/
structure Traced where
  hub : Hub
  given : Nat → Nat := fun _ => 0

/-- A goroutine; `place` is where in `recorded` the uplink of a `Record` that is sending is. -/
structure Task where
  job : Goroutine
  place : Nat := 0

namespace Task

def nextPlace (t : Task) (x : Traced) : Nat :=
  match t.job with
  | .record _ => x.hub.recorded.length
  | _ => t.place

def nextGiven (t : Task) (x : Traced) : Nat → Nat :=
  match t.job with
  | .snapshot c => Function.update x.given c x.hub.recorded.length
  | .sending _ (c :: _) => Function.update x.given c (t.place + 1)
  | _ => x.given

def step (k : Answer) (t : Task) (x : Traced) : Task × Traced :=
  (⟨(t.job.step k x.hub).1, t.nextPlace x⟩, ⟨(t.job.step k x.hub).2, t.nextGiven x⟩)

end Task

/-- The goroutines of `hubs`, with their history. -/
def traced : Prog Traced Task Answer where
  fresh := fun t => t.job.fresh
  may := fun k t x => t.job.may k x.hub
  step := Task.step

/-- The pool without the history. -/
def Traced.erase (p : Pool Traced Task) : Pool Hub Goroutine := ⟨p.shared.hub, p.threads.map Task.job⟩

theorem erase_run {p : Pool Traced Task} {i : Nat} {t : Task} (ht : p.threads[i]? = some t) (k : Answer) :
    Traced.erase (traced.exec p (.run i k)) = hubs.exec (Traced.erase p) (.run i k) := by
  have ht' : (Traced.erase p).threads[i]? = some t.job := by simp [Traced.erase, ht]
  rw [Prog.exec_run ht, Prog.exec_run ht']
  simp [Traced.erase, traced, hubs, Prog.stepAt, Task.step, List.map_set]

/-- **The history changes nothing**: a run with it is a run of the goroutines. -/
theorem traced_erase {x : Traced} {ok : Pool Traced Task → Sched Task Answer → Prop} {p : Pool Traced Task}
    (h : (traced.sys x).Reachable ok p) : (hubs.sys x.hub).Reachable Sys.always (Traced.erase p) := by
  refine h.invariant (P := fun p => (hubs.sys x.hub).Reachable Sys.always (Traced.erase p)) .refl ?_
  intro p a hp he _
  cases a with
  | spawn t =>
    refine .tail hp ⟨.spawn t.job, he, trivial, ?_⟩
    simp [Traced.erase, traced, hubs, Prog.sys, Prog.exec]
  | run i k =>
    obtain ⟨t, ht, hm⟩ := he
    have ht' : (Traced.erase p).threads[i]? = some t.job := by simp [Traced.erase, ht]
    exact .tail hp ⟨.run i k, ⟨t.job, ht', hm⟩, trivial, erase_run ht k⟩

/-- **And every run of the goroutines has a history.** -/
theorem erase_traced {x : Traced} {p : Pool Hub Goroutine} (h : (hubs.sys x.hub).Reachable Sys.always p) :
    ∃ q, (traced.sys x).Reachable Sys.always q ∧ Traced.erase q = p := by
  refine h.invariant (P := fun p => ∃ q, (traced.sys x).Reachable Sys.always q ∧ Traced.erase q = p) ⟨_, .refl, rfl⟩ ?_
  rintro _ a ⟨q, hq, rfl⟩ he _
  cases a with
  | spawn t =>
    refine ⟨_, .tail hq ⟨.spawn ⟨t, 0⟩, he, trivial, rfl⟩, ?_⟩
    simp [Traced.erase, traced, hubs, Prog.sys, Prog.exec]
  | run i k =>
    obtain ⟨t, ht, hm⟩ := he
    obtain ⟨t', ht', rfl⟩ : ∃ t', q.threads[i]? = some t' ∧ t'.job = t := by simpa [Traced.erase] using ht
    refine ⟨_, .tail hq ⟨.run i k, ⟨t', ht', hm⟩, trivial, rfl⟩, ?_⟩
    exact erase_run ht' k

/-- **When a step mixes nothing up.**  A `Record` that takes the lock finds no client between its registration and its
snapshot; one that sends to a channel finds no earlier `Record` that still has to. -/
def Unmixed (p : Pool Traced Task) : Sched Task Answer → Prop
  | .spawn _ => True
  | .run i k => ∀ t, p.threads[i]? = some t →
      (∀ u, t.job = .record u → k.marshalFails = false → ∀ v, Prog.Other p i v → ∀ c, v.job ≠ .snapshot c) ∧
      (∀ u c cs, t.job = .sending u (c :: cs) → ∀ v, Prog.Other p i v → c ∈ v.job.targets → t.place ≤ v.place)

/-! ## What holds in every run -/

/-- What client `c` was written, then `mid`, then what is queued for it: a part, in order, of what it was given. -/
def Traced.Upto (x : Traced) (c : Nat) (mid : List Uplink) : Prop :=
  ((x.hub.chans c).wire ++ mid ++ (x.hub.chans c).queued).Sublist (x.hub.recorded.take (x.given c))

/-- What holds of the hub: its ring is what was recorded, its clients are channels made, and each was given a part of
what was recorded. -/
structure Traced.Fair (n : Nat) (hn : 0 < n) (x : Traced) : Prop where
  ring : x.hub.Kept n hn
  nodup : x.hub.clients.Nodup
  made : ∀ c ∈ x.hub.clients, c < x.hub.made
  given : ∀ c, x.given c ≤ x.hub.recorded.length
  upto : ∀ c, x.Upto c []

/-- What holds of a goroutine: its uplink is where it says, past what it still has to give the clients; a channel without
a snapshot is empty; the history still to be replayed comes before what is queued. -/
structure Task.Holds (x : Traced) (t : Task) : Prop where
  sends : ∀ u cs, t.job = .sending u cs → x.hub.recorded[t.place]? = some u ∧ cs.Nodup ∧
    ∀ c ∈ cs, c < x.hub.made ∧ x.given c ≤ t.place
  owns : ∀ c, t.job.owns = some c → c < x.hub.made
  new : ∀ c, t.job = .snapshot c → (x.hub.chans c).wire = [] ∧ (x.hub.chans c).queued = []
  replays : ∀ c us, t.job = .replay c us → x.Upto c us

/-- Two goroutines own different channels, nobody has to send to one without a snapshot, and no two send the same. -/
structure Task.Apart (t v : Task) : Prop where
  owns : t.job.Apart v.job
  new : ∀ c, t.job = .snapshot c → c ∉ v.job.targets
  place : ∀ c ∈ t.job.targets, c ∈ v.job.targets → t.place ≠ v.place

section

variable {n : Nat} {hn : 0 < n} {x : Traced} {t v : Task} {k : Answer} {c : Nat} {mid : List Uplink}

theorem Task.step_hub (k : Answer) (t : Task) (x : Traced) : (t.step k x).2.hub = (t.job.step k x.hub).2 := rfl

theorem Task.made_step (k : Answer) (t : Task) (x : Traced) : x.hub.made ≤ (t.step k x).2.hub.made :=
  t.job.made_step k x.hub

/-- What was recorded stays where it is. -/
theorem Task.recorded_step (k : Answer) (t : Task) (x : Traced) : x.hub.recorded <+: (t.step k x).2.hub.recorded := by
  rw [step_hub]
  rcases t.job.ring_step k x.hub with ⟨u, -, -, heq⟩ | ⟨-, -, heq⟩
  · rw [heq]
    exact List.prefix_append _ _
  · rw [heq]

theorem Task.at_step (k : Answer) (t : Task) (x : Traced) {i : Nat} {u : Uplink} (hu : x.hub.recorded[i]? = some u) :
    (t.step k x).2.hub.recorded[i]? = some u := by
  obtain ⟨ext, hext⟩ := t.recorded_step k x
  rw [← hext, List.getElem?_append_left (List.getElem?_eq_some_iff.1 hu).1]
  exact hu

/-- **What a step gives a client**: nothing, the history, or one uplink through its channel. -/
theorem Task.nextGiven_cases (t : Task) (x : Traced) (c : Nat) :
    t.nextGiven x c = x.given c ∨ (t.job = .snapshot c ∧ t.nextGiven x c = x.hub.recorded.length) ∨
      ∃ u cs, t.job = .sending u (c :: cs) ∧ t.nextGiven x c = t.place + 1 := by
  cases ht : t.job with
  | snapshot d =>
    by_cases hc : c = d
    · subst hc
      exact .inr (.inl ⟨rfl, by simp [nextGiven, ht]⟩)
    · exact .inl (by simp [nextGiven, ht, Function.update_of_ne hc])
  | sending u cs =>
    cases cs with
    | nil => exact .inl (by simp [nextGiven, ht])
    | cons d cs =>
      by_cases hc : c = d
      · subst hc
        exact .inr (.inr ⟨u, cs, rfl, by simp [nextGiven, ht]⟩)
      · exact .inl (by simp [nextGiven, ht, Function.update_of_ne hc])
  | _ => exact .inl (by simp [nextGiven, ht])

/-- A client is only ever given more. -/
theorem Task.given_step (hf : x.Fair n hn) (ht : t.Holds x) (c : Nat) :
    x.given c ≤ (t.step k x).2.given c ∧ (t.step k x).2.given c ≤ (t.step k x).2.hub.recorded.length := by
  have hlen := (t.recorded_step k x).length_le
  have hgiven := hf.given c
  show x.given c ≤ t.nextGiven x c ∧ t.nextGiven x c ≤ (t.step k x).2.hub.recorded.length
  rcases t.nextGiven_cases x c with heq | ⟨-, heq⟩ | ⟨u, cs, hs, heq⟩
  · omega
  · omega
  · obtain ⟨hu, -, hcs⟩ := ht.sends _ _ hs
    have hplace := (List.getElem?_eq_some_iff.1 hu).1
    have := (hcs c (List.mem_cons_self ..)).2
    omega

/-- What a client was given is a part of what it is given after the step. -/
theorem Task.take_step (hf : x.Fair n hn) (ht : t.Holds x) (c : Nat) :
    (x.hub.recorded.take (x.given c)).Sublist ((t.step k x).2.hub.recorded.take ((t.step k x).2.given c)) := by
  have hgiven := (given_step (k := k) hf ht c).1
  have hpre := List.IsPrefix.take (t.recorded_step k x) (x.given c)
  exact (hpre.trans (List.take_isPrefix_take.2 (.inl hgiven))).sublist

/-- **What is sent through a channel comes after all its client was given.** -/
theorem Task.sent_step (ht : t.Holds x) {u : Uplink} {cs : List Nat} (hs : t.job = .sending u (c :: cs))
    {ws : List Uplink} (hws : ws.Sublist (x.hub.recorded.take (x.given c))) :
    (ws ++ [u]).Sublist ((t.step k x).2.hub.recorded.take ((t.step k x).2.given c)) := by
  obtain ⟨hu, -, hcs⟩ := ht.sends _ _ hs
  have hle := (hcs c (List.mem_cons_self ..)).2
  have hplace := (List.getElem?_eq_some_iff.1 hu).1
  have hgiven : (t.step k x).2.given c = t.place + 1 := by
    show t.nextGiven x c = t.place + 1
    simp [nextGiven, hs]
  have htake : (t.step k x).2.hub.recorded.take (t.place + 1) = x.hub.recorded.take t.place ++ [u] := by
    obtain ⟨ext, hext⟩ := t.recorded_step k x
    rw [← hext, List.take_append_of_le_length hplace, List.take_add_one, hu]
    rfl
  rw [hgiven, htake]
  exact (hws.trans (List.take_isPrefix_take.2 (.inl hle)).sublist).append_right [u]

/-- **A step of a goroutine that does not own the channel** leaves what its client was and will be given in order. -/
theorem Traced.Upto.step (hup : x.Upto c mid) (hf : x.Fair n hn) (ht : t.Holds x) (hown : t.job.owns ≠ some c)
    (hc : c < x.hub.made) : (t.step k x).2.Upto c mid := by
  unfold Upto at hup ⊢
  rcases t.job.chan_step k x.hub c with ⟨hw, hq⟩ | ⟨u, cs, hs, hw, hq⟩ | ⟨u, us, hs, -⟩ | ⟨u, hs, -⟩ | ⟨-, hmade, -⟩
  · rw [Task.step_hub, hw, hq]
    exact hup.trans (Task.take_step hf ht c)
  · rw [Task.step_hub, hw, hq, ← List.append_assoc]
    exact Task.sent_step ht hs hup
  · exact absurd (by rw [hs]; rfl) hown
  · exact absurd (by rw [hs]; rfl) hown
  · omega

/-- What a step makes of the hub. -/
theorem Traced.Fair.step (hf : x.Fair n hn) (ht : t.Holds x) : (t.step k x).2.Fair n hn := by
  refine ⟨?_, ?_, ?_, fun c => (Task.given_step hf ht c).2, fun c => ?_⟩
  · rw [Task.step_hub]
    rcases t.job.ring_step k x.hub with ⟨u, -, -, heq⟩ | ⟨hhist, hfill, hrec⟩
    · rw [heq]
      exact hf.ring.buffer u
    · exact hf.ring.congr hhist hfill hrec
  · rw [Task.step_hub]
    rcases t.job.clients_step k x.hub with heq | ⟨-, heq⟩ | ⟨d, -, heq⟩
    · rw [heq]
      exact hf.nodup
    · rw [heq]
      refine List.nodup_append.2 ⟨hf.nodup, by simp, ?_⟩
      rintro a ha b hb rfl
      rw [List.mem_singleton.1 hb] at ha
      exact Nat.lt_irrefl _ (hf.made _ ha)
    · rw [heq]
      exact hf.nodup.erase d
  · intro c hc
    have hmade := t.made_step k x
    rw [Task.step_hub] at hc
    rcases t.job.clients_step k x.hub with heq | ⟨hjob, heq⟩ | ⟨d, -, heq⟩
    · exact Nat.lt_of_lt_of_le (hf.made c (heq ▸ hc)) hmade
    · rw [heq, List.mem_append, List.mem_singleton] at hc
      rcases hc with hc | rfl
      · exact Nat.lt_of_lt_of_le (hf.made c hc) hmade
      · rw [Task.step_hub, hjob]
        exact Nat.lt_succ_self _
    · exact Nat.lt_of_lt_of_le (hf.made c (List.mem_of_mem_erase (heq ▸ hc))) hmade
  · have hup := hf.upto c
    have htake := Task.take_step (k := k) hf ht c
    unfold Upto at hup ⊢
    rw [List.append_nil] at hup ⊢
    rw [Task.step_hub]
    rcases t.job.chan_step k x.hub c with ⟨hw, hq⟩ | ⟨u, cs, hs, hw, hq⟩ | ⟨u, us, hs, hw, hq⟩ | ⟨u, hs, hq, hw⟩ |
      ⟨-, -, hw, hq⟩
    · rw [hw, hq]
      exact hup.trans htake
    · rw [hw, hq, ← List.append_assoc]
      exact Task.sent_step ht hs hup
    · -- the history that is left goes away, its first uplink is written
      have hreplay := ht.replays c (u :: us) hs
      unfold Upto at hreplay
      rw [hw, hq]
      refine .trans ?_ (hreplay.trans htake)
      refine .append_right (.append_left ?_ _) _
      exact List.cons_sublist_cons.2 (List.nil_sublist us)
    · rw [hq] at hup
      refine .trans ?_ (hup.trans htake)
      rcases hw with hw | hw
      · rw [hw]
        exact (List.sublist_cons_self u _).append_left _
      · rw [hw, List.append_assoc]
        exact .refl _
    · rw [hw, hq]
      exact List.nil_sublist _

/-- A `Record` that is sending: its uplink is where it was recorded, and nobody it still has to send to was given that
much. -/
theorem Task.sends_step (hf : x.Fair n hn) (ht : t.Holds x) (hm : t.job.may k x.hub) {u : Uplink} {cs : List Nat}
    (hs : (t.step k x).1.job = .sending u cs) :
    (t.step k x).2.hub.recorded[(t.step k x).1.place]? = some u ∧ cs.Nodup ∧
      ∀ c ∈ cs, c < (t.step k x).2.hub.made ∧ (t.step k x).2.given c ≤ (t.step k x).1.place := by
  have hmade := t.made_step k x
  rcases (t.job.next_step k x.hub).1 u cs hs with ⟨hjob, hok, rfl⟩ | ⟨c, hjob⟩
  · rw [hjob] at hm
    have hm : k.order.Perm x.hub.clients := hm
    have hplace : (t.step k x).1.place = x.hub.recorded.length := by
      show t.nextPlace x = _
      simp [nextPlace, hjob]
    have hrec : (t.step k x).2.hub.recorded = x.hub.recorded ++ [u] := by
      rw [step_hub, hjob]
      simp [Goroutine.step, hok, Hub.buffer]
    have hgiven : (t.step k x).2.given = x.given := by
      show t.nextGiven x = x.given
      simp [nextGiven, hjob]
    refine ⟨?_, hm.nodup_iff.2 hf.nodup, fun c hc => ⟨?_, ?_⟩⟩
    · rw [hplace, hrec]
      exact List.getElem?_concat_length
    · exact Nat.lt_of_lt_of_le (hf.made c (hm.mem_iff.1 hc)) hmade
    · rw [hplace, hgiven]
      exact hf.given c
  · obtain ⟨hu, hnodup, hcs⟩ := ht.sends _ _ hjob
    rw [List.nodup_cons] at hnodup
    have hplace : (t.step k x).1.place = t.place := by
      show t.nextPlace x = _
      simp [nextPlace, hjob]
    refine ⟨?_, hnodup.2, fun d hd => ⟨?_, ?_⟩⟩
    · rw [hplace]
      exact t.at_step k x hu
    · exact Nat.lt_of_lt_of_le (hcs d (List.mem_cons_of_mem _ hd)).1 hmade
    · rw [hplace]
      have hne : d ≠ c := fun he => hnodup.1 (he ▸ hd)
      have hgiven : (t.step k x).2.given d = x.given d := by
        show t.nextGiven x d = x.given d
        simp [nextGiven, hjob, Function.update_of_ne hne]
      rw [hgiven]
      exact (hcs d (List.mem_cons_of_mem _ hd)).2

/-- A `ServeWS` that replays the history: with the rest of it, the client has what it was given. -/
theorem Task.replays_step (hf : x.Fair n hn) (ht : t.Holds x) {us : List Uplink} (hs : (t.step k x).1.job = .replay c us) :
    (t.step k x).2.Upto c us := by
  rcases (t.job.next_step k x.hub).2.2 c us hs with ⟨hjob, rfl⟩ | ⟨u, hjob⟩
  · -- the history is copied: nothing was written or queued before
    obtain ⟨hw, hq⟩ := ht.new c hjob
    have hgiven : (t.step k x).2.given c = x.hub.recorded.length := by
      show t.nextGiven x c = _
      simp [nextGiven, hjob]
    have hhub : (t.step k x).2.hub = x.hub := by
      rw [step_hub, hjob]
      rfl
    unfold Traced.Upto
    rw [hgiven, hhub, hw, hq, hf.ring.snapshot_eq, List.take_length, List.append_nil, List.nil_append]
    exact recent_sublist _ _
  · have hup := ht.replays c (u :: us) hjob
    have htake := take_step (k := k) hf ht c
    unfold Traced.Upto at hup ⊢
    refine .trans ?_ (hup.trans htake)
    rw [step_hub]
    rcases t.job.chan_step k x.hub c with ⟨hw, hq⟩ | ⟨v, cs, hs', -⟩ | ⟨v, vs, hs', hw, hq⟩ | ⟨v, hs', -⟩ | ⟨hs', -⟩
    · rw [hw, hq]
      exact .append_right (.append_left (List.sublist_cons_self u us) _) _
    · rw [hjob] at hs'
      cases hs'
    · rw [hjob] at hs'
      cases hs'
      rw [hw, hq]
      simp
    · rw [hjob] at hs'
      cases hs'
    · rw [hjob] at hs'
      cases hs'

/-- What a step makes of the goroutine that takes it. -/
theorem Task.Holds.step (hf : x.Fair n hn) (ht : t.Holds x) (hm : t.job.may k x.hub) : (t.step k x).1.Holds (t.step k x).2 := by
  refine ⟨fun u cs hs => sends_step hf ht hm hs, fun c hc => ?_, fun c hs => ?_, fun c us hs => replays_step hf ht hs⟩
  · rcases Goroutine.owns_step hc with ⟨hown, -, -⟩ | ⟨hjob, rfl⟩
    · exact Nat.lt_of_lt_of_le (ht.owns c hown) (t.made_step k x)
    · rw [step_hub, hjob]
      exact Nat.lt_succ_self _
  · obtain ⟨hjob, rfl⟩ := (t.job.next_step k x.hub).2.1 c hs
    rw [step_hub, hjob]
    simp [Goroutine.step, Hub.addClient]

/-- The channels a goroutine has to send to after a step: those it had, or the clients a `Record` found. -/
theorem Task.targets_step (hc : c ∈ (t.step k x).1.job.targets) :
    (c ∈ t.job.targets ∧ (t.step k x).1.place = t.place) ∨
      ∃ u, t.job = .record u ∧ k.marshalFails = false ∧ (t.step k x).1.place = x.hub.recorded.length := by
  obtain ⟨u, cs, hs, hcs⟩ : ∃ u cs, (t.step k x).1.job = .sending u cs ∧ c ∈ cs := by
    cases hj : (t.step k x).1.job with
    | sending u cs => exact ⟨u, cs, rfl, by rw [hj] at hc; exact hc⟩
    | _ =>
      rw [hj] at hc
      cases hc
  rcases (t.job.next_step k x.hub).1 u cs hs with ⟨hjob, hok, -⟩ | ⟨d, hjob⟩
  · refine .inr ⟨u, hjob, hok, ?_⟩
    show t.nextPlace x = _
    simp [nextPlace, hjob]
  · refine .inl ⟨?_, ?_⟩
    · rw [hjob]
      exact List.mem_cons_of_mem _ hcs
    · show t.nextPlace x = _
      simp [nextPlace, hjob]

theorem Task.Holds.targets_lt (hv : v.Holds x) (hc : c ∈ v.job.targets) :
    c < x.hub.made ∧ v.place < x.hub.recorded.length ∧ x.given c ≤ v.place := by
  cases hj : v.job with
  | sending u cs =>
    obtain ⟨hu, -, hcs⟩ := hv.sends u cs hj
    rw [hj] at hc
    exact ⟨(hcs c hc).1, (List.getElem?_eq_some_iff.1 hu).1, (hcs c hc).2⟩
  | _ =>
    rw [hj] at hc
    cases hc

/-- **A step that mixes nothing up leaves what holds of another goroutine.** -/
theorem Task.Holds.other (hf : x.Fair n hn) (ht : t.Holds x) (hv : v.Holds x) (htv : t.Apart v) (hvt : v.Apart t)
    (hfirst : ∀ u c cs, t.job = .sending u (c :: cs) → c ∈ v.job.targets → t.place ≤ v.place) :
    v.Holds (t.step k x).2 := by
  have hmade := t.made_step k x
  refine ⟨fun u cs hs => ?_, fun c hc => ?_, fun c hs => ?_, fun c us hs => ?_⟩
  · obtain ⟨hu, hnodup, hcs⟩ := hv.sends u cs hs
    refine ⟨t.at_step k x hu, hnodup, fun c hc => ⟨Nat.lt_of_lt_of_le (hcs c hc).1 hmade, ?_⟩⟩
    have hmem : c ∈ v.job.targets := by
      rw [hs]
      exact hc
    show t.nextGiven x c ≤ v.place
    rcases t.nextGiven_cases x c with heq | ⟨hjob, -⟩ | ⟨w, ds, hjob, heq⟩
    · rw [heq]
      exact (hcs c hc).2
    · exact absurd hmem (htv.new c hjob)
    · have hle := hfirst w c ds hjob hmem
      have hne := htv.place c (by rw [hjob]; exact List.mem_cons_self ..) hmem
      omega
  · exact Nat.lt_of_lt_of_le (hv.owns c hc) hmade
  · obtain ⟨hw, hq⟩ := hv.new c hs
    have hown : v.job.owns = some c := by
      rw [hs]
      rfl
    rw [step_hub]
    rcases t.job.chan_step k x.hub c with ⟨hw', hq'⟩ | ⟨u, cs, hs', -⟩ | ⟨u, us, hs', -⟩ | ⟨u, hs', -⟩ | ⟨-, hmade', -⟩
    · rw [hw', hq']
      exact ⟨hw, hq⟩
    · exact absurd (by rw [hs']; exact List.mem_cons_self ..) (hvt.new c hs)
    · exact absurd (by rw [hs']; rfl) (hvt.owns c hown)
    · exact absurd (by rw [hs']; rfl) (hvt.owns c hown)
    · have := hv.owns c hown
      omega
  · have hown : v.job.owns = some c := by
      rw [hs]
      rfl
    exact (hv.replays c us hs).step hf ht (hvt.owns c hown) (hv.owns c hown)

/-- And the goroutine that took it stays apart from the other. -/
theorem Task.Apart.step (hv : v.Holds x) (htv : t.Apart v) (hvt : v.Apart t)
    (hlock : ∀ u, t.job = .record u → k.marshalFails = false → ∀ c, v.job ≠ .snapshot c) :
    (t.step k x).1.Apart v ∧ v.Apart (t.step k x).1 := by
  have howns : (t.step k x).1.job.Apart v.job := by
    intro c hc
    rcases Goroutine.owns_step hc with ⟨hown, -, -⟩ | ⟨-, rfl⟩
    · exact htv.owns c hown
    · exact fun hno => Nat.lt_irrefl _ (hv.owns _ hno)
  have hplace : ∀ c ∈ (t.step k x).1.job.targets, c ∈ v.job.targets → (t.step k x).1.place ≠ v.place := by
    intro c hc hc'
    rcases targets_step hc with ⟨hmem, heq⟩ | ⟨u, -, -, heq⟩
    · rw [heq]
      exact htv.place c hmem hc'
    · have := (hv.targets_lt hc').2.1
      omega
  refine ⟨⟨howns, fun c hs hc => ?_, hplace⟩, ⟨fun c hc hc' => howns c hc' hc, fun c hs hc => ?_, fun c hc hc' => ?_⟩⟩
  · obtain ⟨-, rfl⟩ := (t.job.next_step k x.hub).2.1 c hs
    exact Nat.lt_irrefl _ (hv.targets_lt hc).1
  · rcases targets_step hc with ⟨hmem, -⟩ | ⟨u, hjob, hok, -⟩
    · exact hvt.new c hs hmem
    · exact hlock u hjob hok c hs
  · exact (hplace c hc' hc).symm

end

/-! ## Runs -/

theorem traced_local (cfg : Config) {p : Pool Traced Task} (h : (traced.sys { hub := .new cfg }).Reachable Unmixed p) :
    Prog.Local (Traced.Fair cfg.withDefaults.historySize.toNat (Hub.historySize_pos cfg)) Task.Holds Task.Apart p := by
  refine Prog.local_invariant h ?_ ?_ ?_
  · exact ⟨.fresh cfg, .nil, (fun c hc => by cases hc), fun c => Nat.zero_le _, fun c => List.nil_sublist _⟩
  · intro x t ht
    have hnone : t.job.owns = none ∧ t.job.targets = [] ∧ (∀ u cs, t.job ≠ .sending u cs) ∧ (∀ c, t.job ≠ .snapshot c) ∧
        ∀ c us, t.job ≠ .replay c us := by
      have ht : t.job.fresh := ht
      cases hj : t.job with
      | record u => exact ⟨rfl, rfl, nofun, nofun, nofun⟩
      | connect => exact ⟨rfl, rfl, nofun, nofun, nofun⟩
      | _ =>
        rw [hj] at ht
        exact ht.elim
    obtain ⟨hown, htarget, hsend, hnew, hreplay⟩ := hnone
    refine ⟨⟨fun u cs hs => absurd hs (hsend u cs), fun c hc => ?_, fun c hs => absurd hs (hnew c),
      fun c us hs => absurd hs (hreplay c us)⟩, fun v => ⟨⟨fun c hc => ?_, fun c hs => absurd hs (hnew c), fun c hc => ?_⟩,
      ⟨fun c _ => ?_, fun c _ hc => ?_, fun c _ hc => ?_⟩⟩⟩
    · rw [hown] at hc
      cases hc
    · rw [hown] at hc
      cases hc
    · rw [htarget] at hc
      cases hc
    · rw [hown]
      nofun
    · rw [htarget] at hc
      cases hc
    · rw [htarget] at hc
      cases hc
  · intro p i t k _ ht hm hok hp
    have hholds := hp.each t (List.mem_of_getElem? ht)
    obtain ⟨hlock, hfirst⟩ := hok t ht
    refine ⟨hp.shared.step hholds, hholds.step hp.shared hm, ?_⟩
    intro v hother hv htv hvt
    refine ⟨hholds.other hp.shared hv htv hvt (fun u c cs hs => hfirst u c cs hs v hother), ?_⟩
    exact htv.step hv hvt (fun u hs hf => hlock u hs hf v hother)

/-- **Each client is written each uplink at most once and in the order recorded**, in every run in which no `Record` takes
the lock while a client waits for its snapshot and no `Record` overtakes an earlier one at a channel. -/
theorem written_in_order (cfg : Config) {p : Pool Traced Task}
    (h : (traced.sys { hub := .new cfg }).Reachable Unmixed p) (c : Nat) :
    (p.shared.hub.chans c).wire.Sublist p.shared.hub.recorded := by
  have hup := (traced_local cfg h).shared.upto c
  unfold Traced.Upto at hup
  rw [List.append_nil] at hup
  exact (List.sublist_append_left _ _).trans (hup.trans (List.take_sublist _ _))

/-- The condition, computed. -/
def unmixed (p : Pool Traced Task) (i : Nat) (k : Answer) : Bool :=
  match p.threads[i]? with
  | some ⟨.record _, _⟩ => k.marshalFails || (p.threads.eraseIdx i).all fun v =>
      match v.job with
      | .snapshot _ => false
      | _ => true
  | some ⟨.sending _ (c :: _), n⟩ => (p.threads.eraseIdx i).all fun v => !v.job.targets.contains c || decide (n ≤ v.place)
  | _ => true

theorem unmixed_of {p : Pool Traced Task} {i : Nat} {k : Answer} (h : unmixed p i k = true) : Unmixed p (.run i k) := by
  intro t ht
  obtain ⟨job, place⟩ := t
  refine ⟨fun u hjob hok v hv c hs => ?_, fun u c cs hjob v hv hc => ?_⟩
  · obtain ⟨j, hj, hv⟩ := hv
    cases hjob
    simp only [unmixed, ht, hok, Bool.false_or, List.all_eq_true] at h
    have := h v (List.mem_eraseIdx_iff_getElem?.2 ⟨j, hj, hv⟩)
    rw [hs] at this
    cases this
  · obtain ⟨j, hj, hv⟩ := hv
    cases hjob
    simp only [unmixed, ht, List.all_eq_true] at h
    have := h v (List.mem_eraseIdx_iff_getElem?.2 ⟨j, hj, hv⟩)
    simpa [hc] using this

/-- An uplink is recorded before a client connects, one after. -/
def watch : List (Sched Task Answer) :=
  [.spawn ⟨.record { object := { seq := 1 } }, 0⟩, .run 0 {}, .spawn ⟨.connect, 0⟩, .run 1 {}, .run 1 {}, .run 1 {},
    .run 1 {}, .spawn ⟨.record { object := { seq := 2 } }, 0⟩, .run 2 { order := [0] }, .run 2 {}, .run 1 {}]

theorem written_in_order_watch :
    let p := (traced.sys { hub := .new {} }).run watch ⟨{ hub := .new {} }, []⟩
    (p.shared.hub.chans 0).wire = [{ object := { seq := 1 } }, { object := { seq := 2 } }] ∧
      (p.shared.hub.chans 0).wire.Sublist p.shared.hub.recorded := by
  have hlegal : (traced.sys { hub := .new {} }).Legal Unmixed watch ⟨{ hub := .new {} }, []⟩ :=
    ⟨trivial, trivial, ⟨_, rfl, .refl _⟩, unmixed_of rfl, trivial, trivial, ⟨_, rfl, trivial⟩, unmixed_of rfl,
      ⟨_, rfl, trivial⟩, unmixed_of rfl, ⟨_, rfl, trivial⟩, unmixed_of rfl, ⟨_, rfl, trivial⟩, unmixed_of rfl, trivial,
      trivial, ⟨_, rfl, .refl _⟩, unmixed_of rfl, ⟨_, rfl, trivial⟩, unmixed_of rfl, ⟨_, rfl, .inl (by decide)⟩,
      unmixed_of rfl, trivial⟩
  exact ⟨by decide, written_in_order {} (Sys.reaches_run _ _ hlegal) 0⟩

/-- An uplink is recorded after a client is registered and before its history is copied. -/
def recordAtConnect : List (Sched Goroutine Answer) :=
  [.spawn .connect, .run 0 {}, .spawn (.record { object := { seq := 1 } }), .run 1 { order := [0] }, .run 1 {},
    .run 0 {}, .run 0 {}, .run 0 {}, .run 0 {}]

/-- **A client that connects while an uplink is recorded is written it twice.** -/
theorem written_twice :
    ¬ ∀ (cfg : Config) (p : Pool Hub Goroutine), (hubs.sys (.new cfg)).Reachable Sys.always p →
      ∀ c, (p.shared.chans c).wire.Sublist p.shared.recorded := by
  intro h
  have hlegal : (hubs.sys (.new {})).Legal Sys.always recordAtConnect ⟨.new {}, []⟩ :=
    ⟨trivial, trivial, ⟨_, rfl, trivial⟩, trivial, trivial, trivial, ⟨_, rfl, .refl _⟩, trivial, ⟨_, rfl, trivial⟩,
      trivial, ⟨_, rfl, trivial⟩, trivial, ⟨_, rfl, trivial⟩, trivial, ⟨_, rfl, trivial⟩, trivial,
      ⟨_, rfl, .inl (by decide)⟩, trivial, trivial⟩
  exact absurd (h {} _ (Sys.reaches_run _ _ hlegal) 0) (by decide)

end Telemetry
end FloodEws
