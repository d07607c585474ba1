import FloodEws.Safety
/-!
# Outage — a node that goes down inside a call

A server that goes down comes back with an empty log.  If its log was empty before, it may go down inside a call as well as
between two: it loses nothing that anyone could know of, unless it has sent or applied something in that call after it put
an entry into the log.  The cluster then is where it would be if the server had only saved its term and its vote.
-/
namespace FloodEws
namespace Raft

/-- The callback sends no message and applies no entry. -/
def Event.mute : Event → Bool
  | .send _ _ _ => false
  | .apply _ _ => false
  | _ => true

/-- **When losing the log does no harm**: between two calls, while it is empty; inside a call, while it was empty before,
if it would be empty afterwards, too, or nothing was sent or applied yet.  Otherwise as in `SafeSteps`. -/
def Setup.OutageSteps (S : Setup) (c : Cluster) : Action → Prop
  | .call n io k => S.SafeSteps c (.call n io k)
  | .restart n => S.SafeSteps c (.restart n)
  | .crash n io k made => S.SafeSteps c (.call n io k) ∧ (c.node n).log.lastIndex = 0 ∧
      (((c.node n).perform S.cfg io k).log.lastIndex = 0 ∨
        ∀ e ∈ newEvents (c.node n).calls (callsAfter made (c.node n).calls ((c.node n).perform S.cfg io k).calls),
          e.mute = true)

/-- The cluster is sound, and its history goes on from `g₀`. -/
def SafeFrom (S : Setup) (g₀ : Replog Nat Entry) (c : Cluster) : Prop := ∃ g, g₀.Grows g ∧ Safe S g c

/-! ## What a move leaves on record -/

section

variable {cfg : Config} {io : Io} {fit : Prop} {heard : Option Message} {start x y z : Server}

/-- A log that is empty in the end was empty all along, if it was at the start of the call. -/
theorem Move.empty_before {ℓ : List Entry} (hring : x.log.Holds cfg ℓ) (hstart : start.log.lastIndex = 0)
    (hmv : Move cfg io fit heard start x y) (hy : y.log.lastIndex = 0) : x.log.lastIndex = 0 := by
  cases hmv with
  | propose e log hs ht hi hp =>
    obtain ⟨hlive, -, -⟩ := hring.toLive.push hp
    have hlen : log.lastIndex = 0 := hy
    rw [hlive.lastIndex, List.length_append, List.length_singleton] at hlen
    omega
  | accept m ae hm hae ht hs hp h0 =>
    rw [h0.log]
    exact hstart
  | chunk m is hm his ht hs hd h0 =>
    rw [h0.log]
    exact hstart
  | install m is hm his ht hs hd h0 =>
    rw [h0.log]
    exact hstart
  | apply hlt =>
    rw [Server.applyNext_eq] at hy
    exact hy
  | compact bytes t hio hb ht =>
    obtain ⟨hle, hedge⟩ := hring.termAt_eq_some (Nat.le_of_lt hb) ht
    have hlen : (x.log.compactTo cfg x.lastApplied t).lastIndex = 0 := hy
    rw [(hring.compactTo (Nat.le_of_lt hb) hle hedge).lastIndex, ← hring.lastIndex] at hlen
    exact hlen
  | _ => exact hy

/-- A server as it is built anew from the record of `x`, as far as that goes. -/
structure Server.Bare (x z : Server) : Prop where
  self : z.selfId = x.selfId
  term : z.currentTerm = x.currentTerm
  vote : z.votedFor = x.votedFor
  state : z.state = .follower
  log : z.log = {}
  calls : z.calls = x.calls

/-- Whatever pair a server saves, one with an empty log saves it for the same reason: an empty log is behind every other. -/
def Saves (cfg : Config) (io : Io) (fit : Prop) (heard : Option Message) (start x y : Server) : Prop :=
  ∃ t v, y.calls = .persistState t v :: x.calls ∧
    ∀ z, x.Bare z → ∃ z', Move cfg io fit heard start z z' ∧ z'.calls = y.calls ∧ z'.log = {}

/-- **The callbacks of a move**: some that only report, one that saves a pair, or one that sends or applies after some that
only report. -/
theorem Move.recorded (hmv : Move cfg io fit heard start x y) :
    (∃ evs, y.calls = evs ++ x.calls ∧ ∀ e ∈ evs, e.plain = true ∧ e.mute = true) ∨ Saves cfg io fit heard start x y ∨
      ∃ e evs, y.calls = e :: (evs ++ x.calls) ∧ e.mute = false ∧ ∀ e ∈ evs, e.plain = true ∧ e.mute = true := by
  have hquiet : ∀ e : Event, e.quiet = true → e.plain = true ∧ e.mute = true := by
    intro e he
    cases e <;> first | exact ⟨rfl, rfl⟩ | cases he
  cases hmv with
  | quiet evs hq => exact .inl ⟨evs, rfl, fun e he => hquiet e (hq e he)⟩
  | adopt t ht =>
    refine .inr (.inl ⟨_, _, rfl, fun z hz => ⟨_, .adopt z t (hz.term ▸ ht), ?_, hz.log⟩⟩)
    show .persistState t badNode :: z.calls = .persistState t badNode :: x.calls
    rw [hz.calls]
  | campaign hs hf =>
    refine .inr (.inl ⟨_, _, rfl, fun z hz => ⟨_, .campaign z (by rw [hz.state]; decide) (hz.term ▸ hf), ?_, hz.log⟩⟩)
    show .persistState (wrap64 (z.currentTerm + 1)) z.selfId :: z.calls = _
    rw [hz.term, hz.self, hz.calls]
  | vote m rv hm hrv hpre ht hv hu =>
    refine .inr (.inl ⟨_, _, rfl, fun z hz => ?_⟩)
    have hup : z.upToDate cfg rv = true := by
      unfold Server.upToDate
      rw [hz.log]
      show (decide (0 < rv.lastLogTerm) || (decide (rv.lastLogTerm = 0) && decide (0 ≤ rv.lastLogIndex))) = true
      rcases Nat.eq_zero_or_pos rv.lastLogTerm with h0 | hpos
      · rw [h0]
        rfl
      · rw [decide_eq_true hpos]
        rfl
    refine ⟨_, .vote z m rv hm hrv hpre (ht.trans hz.term.symm) (hz.vote ▸ hv) hup, ?_, hz.log⟩
    show .persistState z.currentTerm rv.candidateId :: z.calls = _
    rw [hz.term, hz.calls]
  | propose e log hs ht hi hp => exact .inl ⟨[.persistLogAppend e], rfl, by simp [Event.plain, Event.mute]⟩
  | emit m hsend => exact .inr (.inr ⟨_, [], rfl, rfl, by simp⟩)
  | accept m ae hm hae ht hs hp h0 =>
    obtain ⟨evs, hq, he⟩ := Server.accepted_eq cfg ae x
    rw [he]
    exact .inr (.inr ⟨_, evs, rfl, rfl, fun e he => hquiet e (hq e he)⟩)
  | chunk m is hm his ht hs hd h0 =>
    rw [Server.chunk_eq]
    exact .inl ⟨[], rfl, by simp⟩
  | install m is hm his ht hs hd h0 =>
    rw [Server.installed_eq]
    refine .inl ⟨_, rfl, ?_⟩
    intro e he
    split at he
    · rw [List.mem_singleton.1 he]
      exact ⟨rfl, rfl⟩
    · cases he
  | apply hlt =>
    rw [Server.applyNext_eq]
    cases x.log.at? cfg (x.lastApplied + 1) with
    | none => exact .inl ⟨[], rfl, by simp⟩
    | some e => exact .inr (.inr ⟨_, [], rfl, rfl, by simp⟩)
  | compact bytes t hio hb ht =>
    exact .inl ⟨[.persistLogCompact x.lastApplied, .snapshotSave x.lastApplied bytes], rfl, by simp [Event.plain, Event.mute]⟩
  | _ => exact .inl ⟨[], rfl, by simp⟩

end

/-! ## Power lost after any callback -/

namespace SafeFrom

variable {S : Setup} {g₀ : Replog Nat Entry} {c : Cluster} {n : Nat} {x y : Server} {io : Io} {heard : Option Message}

theorem move (h : SafeFrom S g₀ (c.set n x)) (hids : badNode ∉ S.ids) (hn : n ∈ S.ids)
    (hheard : ∀ m, heard = some m → m.recipient = n ∧ S.InFlight (c.set n x) m)
    (hok : SafeOk S c (c.node n) heard) (hmv : Move S.cfg io True heard (c.node n) x y) :
    SafeFrom S g₀ (c.set n y) := by
  obtain ⟨g, hg, hx⟩ := h
  obtain ⟨g', hg', hy⟩ := hx.move hids hn hheard hok hmv
  exact ⟨g', hg.trans hg', hy⟩

theorem rebuilt (h : SafeFrom S g₀ (c.set n x)) (hlog : x.log.lastIndex = 0) (evs : List Event)
    (hev : ∀ e ∈ evs, e.plain = true ∧ e.mute = true) : SafeFrom S g₀ (c.set n (S.rebuild n (evs ++ x.calls))) := by
  obtain ⟨g, hg, hx⟩ := h
  refine ⟨g, hg, hx.rebuilt hlog evs (fun e he => ⟨(hev e he).1, ?_⟩)⟩
  rintro i d rfl
  cases (hev _ he).2

/-- What a rebuilt server has of the one before. -/
theorem bare (h : SafeFrom S g₀ (c.set n x)) : x.Bare (S.rebuild n x.calls) := by
  obtain ⟨g, -, hx⟩ := h
  have hpair := hx.self_voter.synced.last
  have hself := hx.self_voter.self
  unfold Setup.rebuild Server.new Server.restoreState
  rw [hpair]
  split <;> exact ⟨hself.symm, rfl, rfl, rfl, rfl, rfl⟩

/-- **A move, cut after some of its callbacks**: if the cluster is sound with the server as it is, and with the server that
goes down before the move, it is sound with the one that goes down inside it. -/
theorem cut_move (h : SafeFrom S g₀ (c.set n x)) (hz : SafeFrom S g₀ (c.set n (S.rebuild n x.calls)))
    (hids : badNode ∉ S.ids) (hn : n ∈ S.ids)
    (hheard : ∀ m, heard = some m → m.recipient = n ∧ S.InFlight (c.set n x) m) (hok : SafeOk S c (c.node n) heard)
    (hmv : Move S.cfg io True heard (c.node n) x y) (made later : List Event) (hcalls : y.calls = later ++ (made ++ x.calls))
    (hmute : y.log.lastIndex = 0 ∨ ∀ e ∈ made, e.mute = true) :
    SafeFrom S g₀ (c.set n (S.rebuild n (made ++ x.calls))) := by
  have hempty : (S.rebuild n x.calls).log.lastIndex = 0 := by
    rw [(rebuild_log S n x.calls).1]
    rfl
  -- Callbacks that only report might as well come from the server that went down before.
  have hreport : (∀ e ∈ made, e.plain = true ∧ e.mute = true) → SafeFrom S g₀ (c.set n (S.rebuild n (made ++ x.calls))) :=
    fun hev => hz.rebuilt hempty made hev
  rcases hmv.recorded with ⟨evs, he, hev⟩ | ⟨t, v, he, hsaves⟩ | ⟨e, evs, he, hloud, hev⟩
  · rw [hcalls, ← List.append_assoc] at he
    refine hreport (fun e hmem => hev e ?_)
    rw [← List.append_cancel_right he]
    exact List.mem_append_right later hmem
  · cases made with
    | nil => exact hz
    | cons e made =>
      -- It is the saved pair, and the server that went down before might have saved it.
      obtain ⟨z', hmove, hzc, hzlog⟩ := hsaves _ h.bare
      have hsame : (S.rebuild n x.calls).calls = [] ++ ((c.set n x).node n).calls := by rw [Cluster.set_node_self]; rfl
      have hheardz : ∀ m, heard = some m → m.recipient = n ∧ S.InFlight (c.set n (S.rebuild n x.calls)) m := by
        intro m hm
        obtain ⟨hr, hsent⟩ := hheard m hm
        have hsent := hsent.set hsame
        rw [Cluster.set_set] at hsent
        exact ⟨hr, hsent⟩
      have hdown := (hz.move hids hn hheardz hok hmove).rebuilt (by rw [hzlog]; rfl) []
        (fun e he => by cases he)
      have hsplit : later ++ e :: made = [.persistState t v] := by
        rw [hcalls, ← List.append_assoc] at he
        exact List.append_cancel_right he
      have hlater : later = [] := by
        cases later with
        | nil => rfl
        | cons l later =>
          injection hsplit with _ hrest
          exact absurd hrest (by simp)
      rw [List.nil_append, hzc, hcalls, hlater] at hdown
      exact hdown
  · have hsplit : later ++ made = e :: evs := by
      rw [hcalls, ← List.append_assoc, ← List.cons_append] at he
      exact List.append_cancel_right he
    cases later with
    | nil =>
      rcases hmute with hlog | hmute
      · have hdown := (h.move hids hn hheard hok hmv).rebuilt hlog [] (fun e he => by cases he)
        rw [List.nil_append, hcalls] at hdown
        exact hdown
      · have hmem : e ∈ made := by
          rw [show made = e :: evs from hsplit]
          exact List.mem_cons_self
        exact absurd (hmute e hmem) (by rw [hloud]; decide)
    | cons l later =>
      injection hsplit with _ hrest
      exact hreport (fun e hmem => hev e (hrest ▸ List.mem_append_right later hmem))

end SafeFrom

/-- **Inside a call at `n`**, made in `c`: the cluster is sound, and would be with the node down after any of its callbacks
so far, if it shows nothing of an entry. -/
def CutSafe (S : Setup) (g₀ : Replog Nat Entry) (c : Cluster) (n : Nat) (c' : Cluster) : Prop :=
  SafeFrom S g₀ c' ∧ ∀ made later : List Event, (c'.node n).calls = later ++ (made ++ (c.node n).calls) →
    ((c'.node n).log.lastIndex = 0 ∨ ∀ e ∈ made, e.mute = true) →
    SafeFrom S g₀ (c.set n (S.rebuild n (made ++ (c.node n).calls)))

namespace CutSafe

variable {S : Setup} {g₀ : Replog Nat Entry} {c : Cluster} {n : Nat} {x y : Server} {io : Io} {heard : Option Message}

theorem start {g : Replog Nat Entry} (h : Safe S g c) (hempty : (c.node n).log.lastIndex = 0) : CutSafe S g c n c := by
  refine ⟨⟨g, .refl g, h⟩, fun made later hcalls _ => ?_⟩
  rw [← List.append_assoc] at hcalls
  obtain ⟨-, rfl⟩ := List.append_eq_nil_iff.1 (List.self_eq_append_left.1 hcalls)
  exact ⟨g, .refl g, h.restart hempty⟩

theorem core_iff : CutSafe S g₀ c n (c.set n x) ↔ CutSafe S g₀ c n (c.set n x.core) := by
  unfold CutSafe
  rw [Cluster.set_node_self, Cluster.set_node_self]
  exact and_congr_left' (exists_congr (fun _ => and_congr_right (fun _ => Safe.core_iff)))

theorem move (h : CutSafe S g₀ c n (c.set n x)) (hids : badNode ∉ S.ids) (hn : n ∈ S.ids)
    (hempty : (c.node n).log.lastIndex = 0) (hgrow : ∃ evs, x.calls = evs ++ (c.node n).calls)
    (hheard : ∀ m, heard = some m → m.recipient = n ∧ S.InFlight (c.set n x) m)
    (hok : SafeOk S c (c.node n) heard) (hmv : Move S.cfg io True heard (c.node n) x y) :
    CutSafe S g₀ c n (c.set n y) := by
  obtain ⟨hx, hcut⟩ := h
  obtain ⟨evs, hgrow⟩ := hgrow
  unfold CutSafe
  rw [Cluster.set_node_self] at hcut ⊢
  refine ⟨hx.move hids hn hheard hok hmv, fun made later hcalls hmute => ?_⟩
  have hlog : y.log.lastIndex = 0 → x.log.lastIndex = 0 := by
    obtain ⟨g, -, hsound⟩ := hx
    exact Move.empty_before hsound.self_mirror.ring hempty hmv
  have hall : x.log.lastIndex = 0 ∨ ∀ e ∈ made, e.mute = true := hmute.imp_left hlog
  obtain ⟨evs', hgrow'⟩ := Server.Move.calls_grow hmv
  have hsplit : later ++ made = evs' ++ evs := by
    rw [hgrow', hgrow, ← List.append_assoc, ← List.append_assoc] at hcalls
    exact (List.append_cancel_right hcalls).symm
  rcases List.append_eq_append_iff.1 hsplit with ⟨as, h1, h2⟩ | ⟨bs, h1, h2⟩
  · -- The node goes down inside this move.
    rw [h2, List.append_assoc, ← hgrow]
    have hbefore : SafeFrom S g₀ (c.set n (S.rebuild n x.calls)) := by
      rw [hgrow]
      exact hcut evs [] hgrow (hall.imp_right (fun hm e he => hm e (h2 ▸ List.mem_append_right as he)))
    exact hx.cut_move hbefore hids hn hheard hok hmv as later (by rw [hgrow', h1, List.append_assoc])
      (hmute.imp_right (fun hm e he => hm e (h2 ▸ List.mem_append_left evs he)))
  · exact hcut made bs (by rw [hgrow, h2, List.append_assoc]) hall

end CutSafe

/-- **Power lost inside a call** whose server had an empty log, before it showed anything of an entry. -/
theorem Safe.crash {S : Setup} (hids : badNode ∉ S.ids) {g : Replog Nat Entry} {c : Cluster} (h : Safe S g c) {n : Nat}
    {io : Io} {k : Call} {made : Nat} (hk : S.Callable c n k) (hok : S.OutageSteps c (.crash n io k made)) :
    SafeFrom S g (S.sys.exec c (.crash n io k made)) := by
  obtain ⟨⟨hfit, hsafe⟩, hempty, hmute⟩ := hok
  have hrun : CutSafe S g c n (c.set n ((c.node n).perform S.cfg io k)) :=
    Setup.call_invariant (P := CutSafe S g c n) True (.start h hempty) hk (fun _ => hfit) (fun _ => CutSafe.core_iff)
      (fun _ _ hx hgrow hheard hmv => hx.move hids hk.1 hempty hgrow hheard hsafe hmv)
  obtain ⟨evs, hevs⟩ := Server.Moves.calls_grow (Server.perform_moves S.cfg io False (c.node n) k (fun hf => hf.elim))
  have hevs : ((c.node n).perform S.cfg io k).calls = evs ++ (c.node n).calls := hevs
  obtain ⟨made', later, hafter, hsplit⟩ := callsAfter_eq made (c.node n).calls evs
  rw [← hevs] at hafter
  rw [newEvents_eq hafter] at hmute
  have hdown := hrun.2 made' later
  rw [Cluster.set_node_self, ← hafter] at hdown
  exact hdown (by rw [hafter, hevs, hsplit, List.append_assoc]) hmute

/-! ## Runs -/

/-- **Every step keeps the cluster sound**, those included in which a node goes down. -/
theorem safeFrom_exec {S : Setup} (hids : badNode ∉ S.ids) {g₀ : Replog Nat Entry} {c : Cluster} {act : Action}
    (h : SafeFrom S g₀ c) (hen : S.sys.enabled c act) (hok : S.OutageSteps c act) : SafeFrom S g₀ (S.sys.exec c act) := by
  cases act with
  | call n io k => exact safe_exec hids h hen hok
  | restart n => exact safe_exec hids h hen hok
  | crash n io k made =>
    obtain ⟨g, hg, hc⟩ := h
    obtain ⟨g', hg', hc'⟩ := hc.crash hids hen hok
    exact ⟨g', hg.trans hg', hc'⟩

theorem safeFrom_reaches {S : Setup} (hids : badNode ∉ S.ids) {g : Replog Nat Entry} {c c' : Cluster}
    (h : SafeFrom S g c) (hr : S.sys.Reaches S.OutageSteps c c') : SafeFrom S g c' :=
  hr.invariant h (fun _ _ hx hen hok => safeFrom_exec hids hx hen hok)

theorem safeFrom_reachable {S : Setup} (hids : badNode ∉ S.ids) (hfresh : S.Fresh) {c : Cluster}
    (hr : S.sys.Reachable S.OutageSteps c) : SafeFrom S S.blank c :=
  safeFrom_reaches hids ⟨_, .refl _, .init hfresh⟩ hr

instance decidableOutageSteps (S : Setup) (c : Cluster) : ∀ act : Action, Decidable (S.OutageSteps c act)
  | .call n io k => inferInstanceAs (Decidable (S.SafeSteps c (.call n io k)))
  | .restart n => inferInstanceAs (Decidable (S.SafeSteps c (.restart n)))
  | .crash _ _ _ _ => inferInstanceAs (Decidable (_ ∧ _ ∧ _))

end Raft
end FloodEws
