import FloodEws.Replicate
import FloodEws.Ring
/-!
# Words — `handle(AppendEntries)` in machine words

The fields of an `AppendEntries` may be anything, and so may the snapshot edge: the index of an entry,
`m_prev_log_index + 1 + i`, can go past 2^64 − 1, and so can the last index of the ring.  Here the handler has its indices
in 64-bit words, over the ring of `Ring`.  As long as nothing wraps it is the handler of `Server`
(`handleAppendEntries_view`).
-/
namespace FloodEws
namespace Raft

/-- A server with its log in machine words: `log` in place of the ring of `rest`. -/
structure WordServer where
  rest : Server
  log : WordRing

namespace WordServer

/-- The same server with numbers for words. -/
def view (w : WordServer) : Server := { w.rest with log := w.log.toLogRing }

def call (e : Event) (w : WordServer) : WordServer := { w with rest := w.rest.call e }

/-! ## `server_replication_impl.inl` -/

def following (cfg : Config) (io : Io) (ae : AppendEntries) (w : WordServer) : WordServer :=
  { w with rest := w.rest.following cfg io ae }

def replyAppend (ae : AppendEntries) (resp : AppendEntriesResp) (w : WordServer) : WordServer :=
  { w with rest := w.rest.replyAppend ae resp }

/-- The first index of the term `t` at or below `scan`, above the snapshot edge. -/
def firstOfTerm (cfg : Config) (log : WordRing) (t : Nat) : Nat → Nat
  | 0 => 0
  | scan + 1 =>
    if log.base + 1 < UInt64.ofNat (scan + 1) ∧ log.termAt cfg (UInt64.ofNat scan) = some t then firstOfTerm cfg log t scan
    else scan + 1

/-- The reply to an `AppendEntries` whose previous entry is not in the log, or `none`. -/
def prevMismatch (cfg : Config) (ae : AppendEntries) (w : WordServer) : Option AppendEntriesResp :=
  let last := w.log.lastIndex
  let prev := UInt64.ofNat ae.prevLogIndex
  if last < prev then
    some { term := w.rest.currentTerm, success := false, conflictIndex := (last + 1).toNat, conflictTerm := 0,
           lastLogIndex := last.toNat }
  else if prev < w.log.base then none
  else match w.log.termAt cfg prev with
    | some prevTerm =>
      if prevTerm ≠ ae.prevLogTerm then
        some { term := w.rest.currentTerm, success := false, conflictTerm := prevTerm,
               conflictIndex := firstOfTerm cfg w.log prevTerm ae.prevLogIndex, lastLogIndex := last.toNat }
      else none
    | none => some { term := w.rest.currentTerm, success := false, lastLogIndex := last.toNat }

/-- Append one entry, if the ring has room for it. -/
def pushEntry (cfg : Config) (entry : Entry) (w : WordServer) : WordServer :=
  match w.log.push cfg entry with
  | .ok log => { w with log := log }.call (.persistLogAppend entry)
  | .error _ => w

/-- One turn of the append loop. -/
def appendEntry (cfg : Config) (nextIdx : UInt64) (nextEntry : Entry) (w : WordServer) : WordServer :=
  if nextIdx ≤ w.log.base then w
  else match (if nextIdx ≤ w.log.lastIndex then w.log.termAt cfg nextIdx else none) with
    | some existing =>
      if existing = nextEntry.term then w
      else
        ({ w with log := w.log.truncateSuffix nextIdx }.call (.persistLogTruncate nextIdx.toNat)).pushEntry cfg
          { nextEntry with index := nextIdx.toNat }
    | none => w.pushEntry cfg { nextEntry with index := nextIdx.toNat }

/-- The append loop: the index of the next entry is a word, and after the last word comes 0. -/
def appendLoop (cfg : Config) : UInt64 → List Entry → WordServer → WordServer
  | _, [], w => w
  | nextIdx, e :: es, w => appendLoop cfg (nextIdx + 1) es (w.appendEntry cfg nextIdx e)

/-- The commit index after an accepted `AppendEntries`; the index of the last new entry is a word. -/
def followerCommit (ae : AppendEntries) (w : WordServer) : WordServer :=
  if w.rest.commitIndex < ae.leaderCommit then
    { w with rest := { w.rest with
        commitIndex := max (min ae.leaderCommit (wrap64 (ae.prevLogIndex + ae.nEntries))) w.rest.commitIndex } }
  else w

/-- One turn of the loop of `apply_committed`. -/
def applyNext (cfg : Config) (w : WordServer) : WordServer :=
  let w := { w with rest := { w.rest with lastApplied := w.rest.lastApplied + 1 } }
  match w.log.at? cfg (UInt64.ofNat w.rest.lastApplied) with
  | none => w
  | some entry => w.call (.apply w.rest.lastApplied entry)

def applyLoop (cfg : Config) : Nat → WordServer → WordServer
  | 0, w => w
  | k + 1, w => applyLoop cfg k (w.applyNext cfg)

/-- `begin_snapshot`, whose result `maybe_compact` ignores. -/
def beginSnapshot (cfg : Config) (io : Io) (w : WordServer) : WordServer :=
  let applied := UInt64.ofNat w.rest.lastApplied
  match io.snapshotSave with
  | none => w
  | some save =>
    if applied ≤ w.log.base then w
    else match w.log.termAt cfg applied with
      | none => w
      | some snapTerm =>
        match save w.rest.reads with
        | none => { w with rest := w.rest.tick }
        | some bytes =>
          let s := w.rest.tick.call (.snapshotSave w.rest.lastApplied bytes)
          let s := { s with
            snapBuf := splice s.snapBuf 0 bytes.length bytes
            snapLen := bytes.length }
          { rest := s.call (.persistLogCompact w.rest.lastApplied), log := w.log.compactTo cfg applied snapTerm }

def maybeCompact (cfg : Config) (io : Io) (w : WordServer) : WordServer :=
  if (UInt64.ofNat w.rest.lastApplied - w.log.base).toNat < cfg.snapshotThreshold then w else w.beginSnapshot cfg io

def applyCommitted (cfg : Config) (io : Io) (w : WordServer) : WordServer :=
  (applyLoop cfg (w.rest.commitIndex - w.rest.lastApplied) w).maybeCompact cfg io

def handleAppendEntries (cfg : Config) (io : Io) (ae : AppendEntries) (w : WordServer) : WordServer :=
  if ae.term < w.rest.currentTerm then
    w.replyAppend ae { term := w.rest.currentTerm, success := false, lastLogIndex := w.log.lastIndex.toNat }
  else
    let w := w.following cfg io ae
    match w.prevMismatch cfg ae with
    | some resp => w.replyAppend ae resp
    | none =>
      let w := (appendLoop cfg (UInt64.ofNat ae.prevLogIndex + 1) ae.view w).followerCommit ae
      let w := w.replyAppend ae { term := w.rest.currentTerm, success := true, lastLogIndex := w.log.lastIndex.toNat }
      w.applyCommitted cfg io

/-! ## As long as nothing wraps -/

end WordServer

namespace Server

variable {cfg : Config} {io : Io}

theorem resetElectionTimer_with_log (s : Server) (log : LogRing) :
    ({ s with log := log } : Server).resetElectionTimer cfg io = { s.resetElectionTimer cfg io with log := log } := by
  unfold resetElectionTimer
  dsimp only
  split <;> rfl

theorem maybeStepDown_with_log (t : Nat) (s : Server) (log : LogRing) :
    ({ s with log := log } : Server).maybeStepDown t = { s.maybeStepDown t with log := log } := by
  unfold maybeStepDown persistState call setState call
  dsimp only
  split
  · by_cases hs : s.state = .follower
    · simp [hs]
    · simp [hs]
  · rfl

theorem becomeFollower_with_log (t leader : Nat) (s : Server) (log : LogRing) :
    ({ s with log := log } : Server).becomeFollower cfg io t leader =
      { s.becomeFollower cfg io t leader with log := log } := by
  unfold becomeFollower persistState call
  dsimp only
  split <;> split
  all_goals
    rw [← resetElectionTimer_with_log]
    congr 1
    unfold setState call
    dsimp only
    by_cases hs : s.state = .follower
    · simp [hs]
    · simp [hs]

/-- Following touches no log. -/
theorem following_with_log (ae : AppendEntries) (s : Server) (log : LogRing) :
    ({ s with log := log } : Server).following cfg io ae = { s.following cfg io ae with log := log } := by
  unfold following
  rw [maybeStepDown_with_log, becomeFollower_with_log]
  rfl

end Server

theorem LogRing.truncateSuffix_lastIndex {r : LogRing} {i : Nat} (hb : r.base < i) (hl : i ≤ r.lastIndex) :
    (r.truncateSuffix i).lastIndex + 1 = i ∧ (r.truncateSuffix i).base = r.base := by
  unfold truncateSuffix LogRing.lastIndex
  unfold LogRing.lastIndex at hl
  split
  · exact ⟨by dsimp only; omega, rfl⟩
  · rw [if_neg (by omega)]
    exact ⟨by dsimp only; omega, rfl⟩

namespace WordRing.Fits

variable {cfg : Config} {r r' : WordRing}

theorem push (h : Fits cfg r) {e : Entry} (hlast : r.base.toNat + r.count.toNat + 1 < 2 ^ 64) (hp : r.push cfg e = .ok r') :
    Fits cfg r' ∧ r'.base = r.base ∧ r'.count.toNat = r.count.toNat + 1 := by
  unfold WordRing.push at hp
  split at hp
  · cases hp
  rename_i hfull
  injection hp with hp
  subst hp
  have hcap := h.capacity
  have hlt : r.count.toNat < cfg.logCapacity := by simpa [WordRing.full] using hfull
  have hcount : (r.count + 1).toNat = r.count.toNat + 1 := by
    rw [UInt32.toNat_add, UInt32.toNat_one, Nat.mod_eq_of_lt (by omega)]
  refine ⟨⟨hcap, h.head, ?_, h.edge, ?_⟩, rfl, hcount⟩
  · show (r.count + 1).toNat ≤ cfg.logCapacity
    omega
  · show r.base.toNat + (r.count + 1).toNat < 2 ^ 64
    omega

theorem truncateSuffix (h : Fits cfg r) {i : UInt64} (hb : r.base.toNat < i.toNat) (hl : i.toNat ≤ r.base.toNat + r.count.toNat) :
    Fits cfg (r.truncateSuffix i) ∧ (r.truncateSuffix i).base = r.base ∧
      r.base.toNat + (r.truncateSuffix i).count.toNat + 1 = i.toNat := by
  have hword := truncateSuffix_toLogRing h i
  have hnat := LogRing.truncateSuffix_lastIndex (r := r.toLogRing) (i := i.toNat) hb hl
  rw [← hword] at hnat
  have hbase : (r.truncateSuffix i).base = r.base := UInt64.toNat_inj.1 hnat.2
  have hhead : (r.truncateSuffix i).head = r.head := by
    unfold WordRing.truncateSuffix
    split
    · rfl
    split <;> rfl
  have hlast : r.base.toNat + (r.truncateSuffix i).count.toNat + 1 = i.toNat := by
    rw [← hbase]
    exact hnat.1
  have hcount := h.count
  have hbound := h.last
  exact ⟨⟨h.capacity, hhead ▸ h.head, by omega, hbase ▸ h.edge, by rw [hbase]; omega⟩, hbase, hlast⟩

end WordRing.Fits

namespace WordServer

variable {cfg : Config} {io : Io} {w : WordServer} {n : Nat}

theorem toNat_ofNat (h : n < 2 ^ 64) : (UInt64.ofNat n).toNat = n := UInt64.toNat_ofNat_of_lt' h

theorem pushEntry_view (h : w.log.Fits cfg) (e : Entry) : (w.pushEntry cfg e).view = w.view.pushEntry cfg e := by
  have hpush : (w.log.push cfg e).map WordRing.toLogRing = w.view.log.push cfg e := WordRing.push_toLogRing h e
  unfold pushEntry Server.pushEntry
  rw [← hpush]
  cases w.log.push cfg e <;> rfl

/-- The loop is at an index the ring reaches, or the ring is full. -/
def Reaches (cfg : Config) (w : WordServer) (n : Nat) : Prop :=
  n ≤ w.log.base.toNat + w.log.count.toNat + 1 ∨ w.log.full cfg = true

/-- A push at the end. -/
theorem pushEntry_fits (h : w.log.Fits cfg) (e : Entry) (hn : n < 2 ^ 64)
    (hlt : w.log.base.toNat + w.log.count.toNat < n) (hr : w.Reaches cfg n) :
    (w.pushEntry cfg e).log.Fits cfg ∧ (w.pushEntry cfg e).Reaches cfg (n + 1) := by
  unfold pushEntry
  cases hp : w.log.push cfg e with
  | error x =>
    refine ⟨h, .inr ?_⟩
    unfold WordRing.push at hp
    split at hp
    · assumption
    · cases hp
  | ok r' =>
    have hroom : n ≤ w.log.base.toNat + w.log.count.toNat + 1 := by
      refine hr.resolve_right (fun hfull => ?_)
      rw [WordRing.push, if_pos hfull] at hp
      cases hp
    obtain ⟨hfits, hbase, hcount⟩ := h.push (by omega) hp
    refine ⟨hfits, .inl ?_⟩
    show n + 1 ≤ r'.base.toNat + r'.count.toNat + 1
    rw [hbase]
    omega

theorem appendEntry_view (h : w.log.Fits cfg) (e : Entry) (hn : n < 2 ^ 64) (hr : w.Reaches cfg n) :
    (w.appendEntry cfg (UInt64.ofNat n) e).view = w.view.appendEntry cfg n e ∧
      (w.appendEntry cfg (UInt64.ofNat n) e).log.Fits cfg ∧ (w.appendEntry cfg (UInt64.ofNat n) e).Reaches cfg (n + 1) := by
  have hword := toNat_ofNat hn
  have hlast := h.lastIndex
  unfold appendEntry Server.appendEntry
  rw [WordRing.termAt_toLogRing h, hword]
  simp only [UInt64.le_iff_toNat_le, hword, hlast]
  by_cases hb : n ≤ w.log.base.toNat
  · rw [if_pos hb, if_pos (show n ≤ w.view.log.base from hb)]
    exact ⟨rfl, h, .inl (by omega)⟩
  rw [if_neg hb, if_neg (show ¬ n ≤ w.view.log.base from hb)]
  by_cases hl : n ≤ w.log.base.toNat + w.log.count.toNat
  · rw [if_pos hl, if_pos (show n ≤ w.view.log.lastIndex from hl)]
    cases ht : w.log.toLogRing.termAt cfg n with
    | none =>
      obtain ⟨t, ht'⟩ : ∃ t, w.log.toLogRing.termAt cfg n = some t := LogRing.termAt_isSome (Nat.lt_of_not_le hb) hl
      rw [ht] at ht'
      cases ht'
    | some t =>
      have ht' : w.view.log.termAt cfg n = some t := ht
      rw [ht']
      dsimp only
      by_cases hte : t = e.term
      · rw [if_pos hte, if_pos hte]
        exact ⟨rfl, h, .inl (by omega)⟩
      · rw [if_neg hte, if_neg hte]
        obtain ⟨hfits, hbase, hcut⟩ := h.truncateSuffix (i := UInt64.ofNat n) (by omega) (by omega)
        rw [hword] at hcut
        have hview : ({ w with log := w.log.truncateSuffix (UInt64.ofNat n) }.call (.persistLogTruncate n)).view =
            { w.view with log := w.view.log.truncateSuffix n }.call (.persistLogTruncate n) := by
          have hring := WordRing.truncateSuffix_toLogRing h (UInt64.ofNat n)
          rw [hword] at hring
          exact congrArg (fun r => ({ w.rest with log := r } : Server).call (.persistLogTruncate n)) hring
        refine ⟨(pushEntry_view hfits _).trans (by rw [hview]), pushEntry_fits hfits _ hn ?_ (.inl ?_)⟩
        · show (w.log.truncateSuffix (UInt64.ofNat n)).base.toNat + (w.log.truncateSuffix (UInt64.ofNat n)).count.toNat < n
          rw [hbase]
          omega
        · show n ≤ (w.log.truncateSuffix (UInt64.ofNat n)).base.toNat + (w.log.truncateSuffix (UInt64.ofNat n)).count.toNat + 1
          rw [hbase]
          omega
  · rw [if_neg hl, if_neg (show ¬ n ≤ w.view.log.lastIndex from hl)]
    exact ⟨pushEntry_view h _, pushEntry_fits h _ hn (Nat.lt_of_not_le hl) hr⟩

theorem ofNat_succ (n : Nat) : UInt64.ofNat n + 1 = UInt64.ofNat (n + 1) := by
  rw [UInt64.ofNat_add]
  rfl

/-- **The append loop in words is the one in numbers**, as long as the last index is a word. -/
theorem appendLoop_view : ∀ (es : List Entry) {n : Nat} {w : WordServer}, w.log.Fits cfg → w.Reaches cfg n →
    n + es.length ≤ 2 ^ 64 →
    (w.appendLoop cfg (UInt64.ofNat n) es).view = Server.appendLoop cfg n es w.view ∧
      (w.appendLoop cfg (UInt64.ofNat n) es).log.Fits cfg
  | [], _, _, h, _, _ => ⟨rfl, h⟩
  | e :: es, n, w, h, hr, hn => by
    rw [List.length_cons] at hn
    obtain ⟨hview, hfits, hreach⟩ := appendEntry_view h e (by omega) hr
    rw [appendLoop, Server.appendLoop, ofNat_succ, ← hview]
    exact appendLoop_view es hfits hreach (by omega)

theorem following_view (ae : AppendEntries) (w : WordServer) : (w.following cfg io ae).view = w.view.following cfg io ae :=
  (Server.following_with_log ae w.rest w.log.toLogRing).symm

theorem firstOfTerm_view (h : w.log.Fits cfg) (t : Nat) :
    ∀ scan, scan < 2 ^ 64 → firstOfTerm cfg w.log t scan = Server.firstOfTerm cfg w.view.log t scan
  | 0, _ => rfl
  | scan + 1, hs => by
    have hedge := h.edge
    have hone : (w.log.base + 1).toNat = w.log.base.toNat + 1 := by
      rw [UInt64.toNat_add, UInt64.toNat_one, Nat.mod_eq_of_lt (by omega)]
    unfold firstOfTerm Server.firstOfTerm
    simp only [WordRing.termAt_toLogRing h, firstOfTerm_view h t scan (by omega), UInt64.lt_iff_toNat_lt, hone,
      toNat_ofNat hs, toNat_ofNat (by omega : scan < 2 ^ 64)]
    rfl

theorem prevMismatch_view (h : w.log.Fits cfg) {ae : AppendEntries} (hprev : ae.prevLogIndex < 2 ^ 64)
    (hroom : w.log.base.toNat + w.log.count.toNat + 1 < 2 ^ 64) :
    w.prevMismatch cfg ae = w.view.prevMismatch cfg ae := by
  have hlast := h.lastIndex
  have hword := toNat_ofNat hprev
  have hnext : (w.log.lastIndex + 1).toNat = w.log.base.toNat + w.log.count.toNat + 1 := by
    rw [UInt64.toNat_add, UInt64.toNat_one, hlast, Nat.mod_eq_of_lt hroom]
  unfold prevMismatch Server.prevMismatch
  simp only [UInt64.lt_iff_toNat_lt, hlast, hword, hnext, WordRing.termAt_toLogRing h, firstOfTerm_view h _ _ hprev]
  rfl

theorem applyNext_view (h : w.log.Fits cfg) (hlt : w.rest.lastApplied + 1 < 2 ^ 64) :
    (w.applyNext cfg).view = w.view.applyNext cfg := by
  unfold applyNext Server.applyNext
  dsimp only
  rw [WordRing.at?_toLogRing h, toNat_ofNat hlt]
  show _ = match w.log.toLogRing.at? cfg (w.rest.lastApplied + 1) with
    | none => { w.view with lastApplied := w.rest.lastApplied + 1 }
    | some entry => { w.view with lastApplied := w.rest.lastApplied + 1 }.call (.apply (w.rest.lastApplied + 1) entry)
  cases w.log.toLogRing.at? cfg (w.rest.lastApplied + 1) <;> rfl

theorem applyNext_frame (cfg : Config) (w : WordServer) :
    (w.applyNext cfg).log = w.log ∧ (w.applyNext cfg).rest.lastApplied = w.rest.lastApplied + 1 := by
  unfold applyNext
  dsimp only
  split <;> exact ⟨rfl, rfl⟩

theorem applyLoop_view : ∀ (k : Nat) {w : WordServer}, w.log.Fits cfg → w.rest.lastApplied + k < 2 ^ 64 →
    (applyLoop cfg k w).view = Server.applyLoop cfg k w.view ∧ (applyLoop cfg k w).log = w.log ∧
      (applyLoop cfg k w).rest.lastApplied = w.rest.lastApplied + k
  | 0, _, _, _ => ⟨rfl, rfl, rfl⟩
  | k + 1, w, h, hk => by
    obtain ⟨hlog, happlied⟩ := applyNext_frame cfg w
    obtain ⟨hview, hlog', happlied'⟩ := applyLoop_view k (w := w.applyNext cfg) (hlog ▸ h) (by omega)
    rw [applyLoop, Server.applyLoop, hview, applyNext_view h (by omega)]
    exact ⟨rfl, hlog'.trans hlog, by rw [happlied', happlied]; omega⟩

theorem beginSnapshot_view (h : w.log.Fits cfg) (hlt : w.rest.lastApplied < 2 ^ 64) :
    (w.beginSnapshot cfg io).view = (w.view.beginSnapshot cfg io).2 := by
  have hword := toNat_ofNat hlt
  unfold beginSnapshot Server.beginSnapshot
  dsimp only
  rw [WordRing.termAt_toLogRing h, hword]
  cases io.snapshotSave with
  | none => rfl
  | some save =>
    dsimp only
    by_cases hb : w.rest.lastApplied ≤ w.log.base.toNat
    · rw [if_pos (UInt64.le_iff_toNat_le.2 (by rw [hword]; exact hb)), if_pos (show w.view.lastApplied ≤ w.view.log.base from hb)]
    rw [if_neg (fun hle => hb (by rw [← hword]; exact UInt64.le_iff_toNat_le.1 hle)),
      if_neg (show ¬ w.view.lastApplied ≤ w.view.log.base from hb)]
    have hview : w.view.log.termAt cfg w.view.lastApplied = w.log.toLogRing.termAt cfg w.rest.lastApplied := rfl
    rw [hview]
    cases ht : w.log.toLogRing.termAt cfg w.rest.lastApplied with
    | none => rfl
    | some t =>
      dsimp only
      have hle : w.rest.lastApplied ≤ w.log.base.toNat + w.log.count.toNat := by
        by_contra hgt
        rw [LogRing.termAt_eq_none (by omega) (.inr (by simpa using hgt))] at ht
        cases ht
      have hring := WordRing.compactTo_toLogRing h (i := UInt64.ofNat w.rest.lastApplied) t
        (UInt64.le_iff_toNat_le.2 (by rw [hword]; omega)) (UInt64.le_iff_toNat_le.2 (by rw [hword, h.lastIndex]; exact hle))
      rw [hword] at hring
      have hreads : w.view.reads = w.rest.reads := rfl
      rw [hreads]
      cases save w.rest.reads with
      | none => rfl
      | some bytes =>
        dsimp only [view]
        rw [hring]
        rfl

/-- A snapshot edge above the applied index leaves nothing to compact, in words as in numbers. -/
theorem maybeCompact_view (h : w.log.Fits cfg) (hlt : w.rest.lastApplied < 2 ^ 64) :
    (w.maybeCompact cfg io).view = w.view.maybeCompact cfg io := by
  have hword := toNat_ofNat hlt
  have hbegin : (w.beginSnapshot cfg io).view = (w.view.beginSnapshot cfg io).2 := beginSnapshot_view h hlt
  unfold maybeCompact Server.maybeCompact
  rcases Nat.lt_or_ge w.rest.lastApplied w.log.base.toNat with hb | hb
  · have hidle : (w.view.beginSnapshot cfg io).2 = w.view := by
      unfold Server.beginSnapshot
      split
      · rfl
      · rw [if_pos (show w.view.lastApplied ≤ w.view.log.base from Nat.le_of_lt hb)]
    rw [hidle] at hbegin ⊢
    split <;> split <;> first | rfl | exact hbegin
  · have hsub : (UInt64.ofNat w.rest.lastApplied - w.log.base).toNat = w.view.lastApplied - w.view.log.base := by
      rw [UInt64.toNat_sub_of_le _ _ (UInt64.le_iff_toNat_le.2 (by rw [hword]; exact hb)), hword]
      rfl
    rw [hsub]
    split
    · rfl
    · exact hbegin

theorem applyCommitted_view (h : w.log.Fits cfg) (happlied : w.rest.lastApplied < 2 ^ 64)
    (hcommit : w.rest.commitIndex < 2 ^ 64) : (w.applyCommitted cfg io).view = w.view.applyCommitted cfg io := by
  obtain ⟨hview, hlog, hlast⟩ := applyLoop_view (w.rest.commitIndex - w.rest.lastApplied) h (by omega)
  unfold applyCommitted Server.applyCommitted
  rw [maybeCompact_view (by rw [hlog]; exact h) (by rw [hlast]; omega), hview]
  rfl

/-- **As long as nothing wraps, the handler in words is the handler in numbers**: the ring is in order, the index after its
last one is a word, and so is the index of the last entry of the message. -/
theorem handleAppendEntries_view (h : w.log.Fits cfg) (hlast : w.log.base.toNat + w.log.count.toNat + 1 < 2 ^ 64)
    {ae : AppendEntries} (hprev : ae.prevLogIndex + ae.nEntries < 2 ^ 64) (hleader : ae.leaderCommit < 2 ^ 64)
    (happlied : w.rest.lastApplied < 2 ^ 64) (hcommit : w.rest.commitIndex < 2 ^ 64) :
    (w.handleAppendEntries cfg io ae).view = w.view.handleAppendEntries cfg io ae := by
  have hindex : w.log.lastIndex.toNat = w.view.log.lastIndex := h.lastIndex
  unfold handleAppendEntries
  by_cases ht : ae.term < w.rest.currentTerm
  · unfold Server.handleAppendEntries
    rw [if_pos ht, if_pos (show ae.term < w.view.currentTerm from ht), hindex]
    rfl
  rw [if_neg ht, Server.handleAppendEntries_eq cfg io (show w.view.currentTerm ≤ ae.term from Nat.le_of_not_lt ht),
    ← following_view]
  have hspares := Server.following_spares @Event.not_apply_of_stepping cfg io ae w.rest
  have hlog : (w.following cfg io ae).log = w.log := rfl
  have hcommit' : (w.following cfg io ae).rest.commitIndex = w.rest.commitIndex := hspares.commit
  have happlied' : (w.following cfg io ae).rest.lastApplied = w.rest.lastApplied := hspares.applied
  dsimp only
  generalize w.following cfg io ae = x at hlog hcommit' happlied'
  have hx : x.log.Fits cfg := hlog ▸ h
  rw [← prevMismatch_view hx (by omega) (by rw [hlog]; exact hlast)]
  cases hp : x.prevMismatch cfg ae with
  | some resp => rfl
  | none =>
    have hreach : x.Reaches cfg (ae.prevLogIndex + 1) := by
      rw [prevMismatch_view hx (by omega) (by rw [hlog]; exact hlast)] at hp
      exact .inl (Nat.succ_le_succ (Server.prev_le_lastIndex hp))
    obtain ⟨hview, hfits⟩ := appendLoop_view ae.view hx hreach (by rw [AppendEntries.length_view]; omega)
    obtain ⟨evs, -, he⟩ := Server.appendLoop_eq cfg ae.view (ae.prevLogIndex + 1) x.view
    dsimp only
    rw [ofNat_succ]
    generalize hy : x.appendLoop cfg (UInt64.ofNat (ae.prevLogIndex + 1)) ae.view = y at hview hfits
    have hcommit'' : y.rest.commitIndex = x.rest.commitIndex := by
      show y.view.commitIndex = _
      rw [hview, he]
      rfl
    have happlied'' : y.rest.lastApplied = x.rest.lastApplied := by
      show y.view.lastApplied = _
      rw [hview, he]
      rfl
    have hnew : wrap64 (ae.prevLogIndex + ae.nEntries) = ae.prevLogIndex + ae.nEntries := Nat.mod_eq_of_lt hprev
    obtain ⟨c, hc, hfollow⟩ : ∃ c < 2 ^ 64, y.followerCommit ae = { y with rest := { y.rest with commitIndex := c } } ∧
        y.view.followerCommit ae = { y.view with commitIndex := c } := by
      unfold followerCommit Server.followerCommit
      rw [hnew]
      split
      · rename_i hlt
        exact ⟨_, by omega, rfl, if_pos hlt⟩
      · rename_i hlt
        exact ⟨y.rest.commitIndex, by omega, rfl, if_neg hlt⟩
    have hsame : y.log.lastIndex.toNat = y.view.log.lastIndex := hfits.lastIndex
    unfold Server.accepted
    rw [← hview, hfollow.1, hfollow.2]
    refine (applyCommitted_view ?_ ?_ ?_).trans (congrArg (Server.applyCommitted cfg io) ?_)
    · exact hfits
    · show y.rest.lastApplied < 2 ^ 64
      omega
    · exact hc
    · dsimp only
      rw [hsame]
      rfl

end WordServer

end Raft
end FloodEws
